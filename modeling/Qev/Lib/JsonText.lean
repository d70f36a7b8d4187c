import Qev.Lib.Js

/-! JSON text with white space in it: `JSON.stringify` with an indent of two,
and `JSON.parse`. -/

namespace Qev.Js

/-! ## JSON.stringify with an indent -/

def newline (depth : Nat) : JsString := 0x0A :: List.replicate (2 * depth) 0x20

/-- The closing bracket has a line of its own, where anything is inside. -/
def closing (depth : Nat) (empty : Bool) : JsString := if empty then [] else newline depth

mutual
def pretty (depth : Nat) : Value → JsString
  | .arr items =>
    ascii '[' :: prettyItems (depth + 1) items ++ closing depth items.isEmpty ++ [ascii ']']
  | .obj fields =>
    ascii '\x7b' :: prettyFields (depth + 1) fields ++ closing depth fields.isEmpty ++
      [ascii '\x7d']
  | .null => Json.print printer .null
  | .bool b => Json.print printer (.bool b)
  | .num x => Json.print printer (.num x)
  | .str s => Json.print printer (.str s)
def prettyItems (depth : Nat) : List Value → JsString
  | [] => []
  | [x] => newline depth ++ pretty depth x
  | x :: y :: xs => newline depth ++ pretty depth x ++ ascii ',' :: prettyItems depth (y :: xs)
def prettyFields (depth : Nat) : List (JsString × Value) → JsString
  | [] => []
  | [(k, v)] => newline depth ++ quote k ++ ascii ':' :: ascii ' ' :: pretty depth v
  | (k, v) :: e :: es =>
    newline depth ++ quote k ++ ascii ':' :: ascii ' ' :: pretty depth v ++
      ascii ',' :: prettyFields depth (e :: es)
end

def stringify (v : Value) : JsString := pretty 0 v

/-! ## JSON.parse -/

def isSpace (u : UInt16) : Bool := u = 0x20 ∨ u = 0x09 ∨ u = 0x0A ∨ u = 0x0D

def isPunctuation (u : UInt16) : Bool := u ∈ "[]\x7b\x7d:,".toList.map ascii

/-- Outside the strings, right after part of a word or number (or a string) or
not, with white space since or not; in a string; after a backslash in one. -/
inductive Place where
  | outside (word gap : Bool)
  | inside
  | escaped

/-- The text without the white space between its tokens, where none of it
divides what would be one word without it. -/
def strip : Place → JsString → Option JsString
  | _, [] => some []
  | .outside word gap, u :: rest =>
    if isSpace u then strip (.outside word true) rest
    else if isPunctuation u then (strip (.outside false false) rest).map (u :: ·)
    else if word && gap then none
    else if u = 0x22 then (strip .inside rest).map (u :: ·)
    else (strip (.outside true false) rest).map (u :: ·)
  | .inside, u :: rest =>
    if u = 0x22 then (strip (.outside true false) rest).map (u :: ·)
    else if u = 0x5C then (strip .escaped rest).map (u :: ·)
    else (strip .inside rest).map (u :: ·)
  | .escaped, u :: rest => (strip .inside rest).map (u :: ·)

/-- An object keeps all the fields that its text has. -/
def parse (text : JsString) : Option Value :=
  (strip (.outside false false) text).bind (Json.parse format)

/-! ## Indented text reads back -/

/-- What may follow a token: the text goes on the same whatever stood before. -/
def Free (rest : JsString) : Prop :=
  ∀ word gap, strip (.outside word gap) rest = strip (.outside false false) rest

theorem strip_newline (word gap : Bool) (depth : Nat) (rest : JsString) :
    strip (.outside word gap) (newline depth ++ rest) = strip (.outside word true) rest := by
  have spaces (n : Nat) : strip (.outside word true) (List.replicate n 0x20 ++ rest) =
      strip (.outside word true) rest := by
    induction n with
    | zero => rfl
    | succ n ih => exact ih
  exact spaces (2 * depth)

theorem strip_punctuation {u : UInt16} (h : isPunctuation u = true) (solid : isSpace u = false)
    (word gap : Bool) (rest : JsString) :
    strip (.outside word gap) (u :: rest) =
      (strip (.outside false false) rest).map (u :: ·) := by
  simp only [strip, solid, h, if_true, Bool.false_eq_true, if_false]

theorem free_punctuation {u : UInt16} (h : isPunctuation u = true) (solid : isSpace u = false)
    (rest : JsString) : Free (u :: rest) := by
  intro word gap
  rw [strip_punctuation h solid, strip_punctuation h solid]

theorem free_closing (depth : Nat) (empty : Bool) {rest : JsString} (free : Free rest) :
    Free (closing depth empty ++ rest) := by
  intro word gap
  cases empty with
  | true => exact free word gap
  | false =>
    simp only [closing, Bool.false_eq_true, if_false, strip_newline]
    rw [free word true, free false true]

theorem strip_closing (depth : Nat) (empty : Bool) (gap : Bool) {rest : JsString}
    (free : Free rest) :
    strip (.outside false gap) (closing depth empty ++ rest) =
      strip (.outside false false) rest := by
  rw [free_closing depth empty free, closing]
  split
  · rfl
  · rw [strip_newline, free]

/-- A code unit of a word or a number. -/
def isSolid (u : UInt16) : Bool := !isSpace u && !isPunctuation u && u != 0x22

/-- A word or a number. -/
theorem strip_word {w : JsString} (solid : w.all isSolid = true) {rest : JsString}
    (free : Free rest) (word gap : Bool) (fresh : (word && gap) = false) :
    strip (.outside word gap) (w ++ rest) =
      (strip (.outside false false) rest).map (w ++ ·) := by
  induction w generalizing word gap with
  | nil => simp [free word gap]
  | cons u w ih =>
    simp only [List.all_cons, isSolid, Bool.and_eq_true, Bool.not_eq_true', bne_iff_ne] at solid
    obtain ⟨⟨⟨space, punctuation⟩, quotation⟩, later⟩ := solid
    simp only [List.cons_append, strip, space, punctuation, fresh, quotation, Bool.false_eq_true,
      if_false, ih later true false rfl, Option.map_map]
    rfl

theorem strip_quoteUnit (u : UInt16) (rest : JsString) :
    strip .inside (quoteUnit u ++ rest) = (strip .inside rest).map (quoteUnit u ++ ·) := by
  have digit {n : Nat} (h : n < 16) : hexDigit n ≠ 0x22 ∧ hexDigit n ≠ 0x5C := by
    interval_cases n <;> decide
  unfold quoteUnit
  split_ifs with q slash b f n r t escaped
  iterate 7
    simp only [List.cons_append, List.nil_append, strip, Option.map_map]
    rfl
  · have bound := u.toNat_lt
    have first := digit (show u.toNat / 0x1000 < 16 by omega)
    have second := digit (show u.toNat / 0x100 % 16 < 16 by omega)
    have third := digit (show u.toNat / 16 % 16 < 16 by omega)
    have fourth := digit (show u.toNat % 16 < 16 by omega)
    simp only [unicodeEscape, List.cons_append, List.nil_append, strip, first, second, third,
      fourth, if_false, Option.map_map]
    rfl
  · simp only [List.cons_append, List.nil_append, strip, q, slash, if_false]

theorem strip_quoteUnits (s rest : JsString) :
    strip .inside (quoteUnits s ++ rest) = (strip .inside rest).map (quoteUnits s ++ ·) := by
  have surrogate {u : UInt16} (h : Utf16.isHigh u = true ∨ Utf16.isLow u = true) :
      u ≠ 0x22 ∧ u ≠ 0x5C := by
    constructor <;> rintro rfl <;> revert h <;> decide
  fun_induction quoteUnits s with
  | case1 a b s pair ih =>
    have first := surrogate (.inl pair.1)
    have second := surrogate (.inr pair.2)
    simp only [List.cons_append, strip, first, second, if_false, ih, Option.map_map]
    rfl
  | case2 a b s alone ih =>
    rw [List.append_assoc, strip_quoteUnit, ih, Option.map_map]
    congr 1
    funext text
    exact (List.append_assoc _ _ _).symm
  | case3 a => exact strip_quoteUnit a rest
  | case4 => simp

theorem strip_quote (s : JsString) {rest : JsString} (free : Free rest) (gap : Bool) :
    strip (.outside false gap) (quote s ++ rest) =
      (strip (.outside false false) rest).map (quote s ++ ·) := by
  have inner := strip_quoteUnits s (0x22 :: rest)
  simp only [quote, List.cons_append, List.append_assoc, List.nil_append, strip,
    show isSpace 0x22 = false by decide, show isPunctuation 0x22 = false by decide, inner,
    Bool.false_and, Bool.false_eq_true, if_false, if_true, Option.map_map, free true false]
  rfl

theorem solid_null : ("null".toList.map ascii).all isSolid = true := by
  decide

theorem strip_number (x : Double) {rest : JsString} (free : Free rest) (gap : Bool) :
    strip (.outside false gap) (number x ++ rest) =
      (strip (.outside false false) rest).map (number x ++ ·) := by
  apply strip_word _ free _ _ rfl
  cases x with
  | finite negative bits =>
    have each {c : Char} (h : Double.isNumeral c = true) : isSolid (ascii c) = true := by
      have small := numeral_ascii h
      generalize code : c.toNat = n at small
      obtain rfl : c = Char.ofNat n := by rw [← code, Char.ofNat_toNat]
      revert h
      interval_cases n <;> decide
    apply List.all_eq_true.mpr
    intro u mem
    obtain ⟨c, here, rfl⟩ := List.mem_map.mp mem
    exact each (isNumeral_toString c here)
  | nan => exact solid_null
  | infinity negative => exact solid_null

mutual
theorem strip_pretty (depth : Nat) (gap : Bool) : ∀ (v : Value) {rest : JsString}, Free rest →
    strip (.outside false gap) (pretty depth v ++ rest) =
      (strip (.outside false false) rest).map (Json.print printer v ++ ·)
  | .null, _, free => strip_word solid_null free false gap rfl
  | .bool true, _, free => strip_word (w := "true".toList.map ascii) (by decide) free false gap rfl
  | .bool false, _, free =>
    strip_word (w := "false".toList.map ascii) (by decide) free false gap rfl
  | .num x, _, free => strip_number x free gap
  | .str s, _, free => strip_quote s free gap
  | .arr items, rest, _ => by
    have close := free_punctuation (u := ascii ']') rfl rfl rest
    simp only [pretty, Json.print, List.cons_append, List.append_assoc, List.nil_append]
    rw [strip_punctuation (u := ascii '[') rfl rfl,
      strip_prettyItems (depth + 1) false items (free_closing depth items.isEmpty close),
      strip_closing depth items.isEmpty false close, strip_punctuation (u := ascii ']') rfl rfl]
    simp only [Option.map_map]
    congr 1
  | .obj fields, rest, _ => by
    have close := free_punctuation (u := ascii '\x7d') rfl rfl rest
    simp only [pretty, Json.print, List.cons_append, List.append_assoc, List.nil_append]
    rw [strip_punctuation (u := ascii '\x7b') rfl rfl,
      strip_prettyFields (depth + 1) false fields (free_closing depth fields.isEmpty close),
      strip_closing depth fields.isEmpty false close, strip_punctuation (u := ascii '\x7d') rfl rfl]
    simp only [Option.map_map]
    congr 1
theorem strip_prettyItems (depth : Nat) (gap : Bool) : ∀ (items : List Value) {rest : JsString},
    Free rest → strip (.outside false gap) (prettyItems depth items ++ rest) =
      (strip (.outside false false) rest).map (Json.printItems printer items ++ ·)
  | [], rest, free => by simp [prettyItems, Json.printItems, free false gap]
  | [x], rest, free => by
    rw [prettyItems, List.append_assoc, strip_newline, strip_pretty depth true x free]
    rfl
  | x :: y :: xs, rest, free => by
    have comma := free_punctuation (u := ascii ',') rfl rfl
      (prettyItems depth (y :: xs) ++ rest)
    simp only [prettyItems, Json.printItems, List.cons_append, List.append_assoc]
    rw [strip_newline, strip_pretty depth true x comma, strip_punctuation (u := ascii ',') rfl rfl,
      strip_prettyItems depth false (y :: xs) free]
    simp only [Option.map_map]
    congr 1
theorem strip_prettyFields (depth : Nat) (gap : Bool) :
    ∀ (fields : List (JsString × Value)) {rest : JsString},
    Free rest → strip (.outside false gap) (prettyFields depth fields ++ rest) =
      (strip (.outside false false) rest).map (Json.printFields printer fields ++ ·)
  | [], rest, free => by simp [prettyFields, Json.printFields, free false gap]
  | [(k, v)], rest, free => by
    have colon := free_punctuation (u := ascii ':') rfl rfl (ascii ' ' :: (pretty depth v ++ rest))
    have space : strip (.outside false false) (ascii ' ' :: (pretty depth v ++ rest)) =
        strip (.outside false true) (pretty depth v ++ rest) := rfl
    simp only [prettyFields, Json.printFields, List.cons_append, List.append_assoc]
    rw [strip_newline, strip_quote k colon true, strip_punctuation (u := ascii ':') rfl rfl, space,
      strip_pretty depth true v free]
    simp only [Option.map_map]
    congr 1
  | (k, v) :: e :: es, rest, free => by
    have comma := free_punctuation (u := ascii ',') rfl rfl
      (prettyFields depth (e :: es) ++ rest)
    have colon := free_punctuation (u := ascii ':') rfl rfl
      (ascii ' ' :: (pretty depth v ++ ascii ',' :: (prettyFields depth (e :: es) ++ rest)))
    have space (text : JsString) : strip (.outside false false) (ascii ' ' :: text) =
        strip (.outside false true) text := rfl
    simp only [prettyFields, Json.printFields, List.cons_append, List.append_assoc]
    rw [strip_newline, strip_quote k colon true, strip_punctuation (u := ascii ':') rfl rfl, space,
      strip_pretty depth true v comma, strip_punctuation (u := ascii ',') rfl rfl,
      strip_prettyFields depth false (e :: es) free]
    simp only [Option.map_map]
    congr 1
end

theorem strip_stringify (v : Value) {space : JsString} (trailing : ∀ u ∈ space, isSpace u = true) :
    strip (.outside false false) (stringify v ++ space) = some (Json.print printer v) := by
  have free (word gap : Bool) : strip (.outside word gap) space = some [] := by
    induction space generalizing word gap with
    | nil => rfl
    | cons u space ih =>
      rw [List.forall_mem_cons] at trailing
      rw [strip, if_pos trailing.1, ih trailing.2]
  rw [stringify, strip_pretty 0 false v fun word gap => by rw [free, free], free]
  simp

/-! ## Indented text has no lone surrogate -/

open Utf16 (WellFormed)

theorem wellFormed_newline (depth : Nat) : WellFormed (newline depth) := by
  apply wellFormed_ascii
  intro u mem
  rcases List.mem_cons.mp mem with rfl | mem
  · decide
  · rw [List.eq_of_mem_replicate mem]
    decide

theorem wellFormed_closing (depth : Nat) (empty : Bool) : WellFormed (closing depth empty) := by
  cases empty with
  | true => exact .nil
  | false => exact wellFormed_newline depth

mutual
theorem wellFormed_pretty (depth : Nat) : ∀ v : Value, WellFormed (pretty depth v)
  | .null => wellFormed_print .null
  | .bool b => wellFormed_print (.bool b)
  | .num x => wellFormed_print (.num x)
  | .str s => wellFormed_print (.str s)
  | .arr items =>
    (((wellFormed_text (u := [ascii '[']) (by decide)).append
      (wellFormed_prettyItems (depth + 1) items)).append (wellFormed_closing depth _)).append
      (wellFormed_text (u := [ascii ']']) (by decide))
  | .obj fields =>
    (((wellFormed_text (u := [ascii '\x7b']) (by decide)).append
      (wellFormed_prettyFields (depth + 1) fields)).append (wellFormed_closing depth _)).append
      (wellFormed_text (u := [ascii '\x7d']) (by decide))
theorem wellFormed_prettyItems (depth : Nat) : ∀ items : List Value,
    WellFormed (prettyItems depth items)
  | [] => .nil
  | [x] => (wellFormed_newline depth).append (wellFormed_pretty depth x)
  | x :: y :: xs =>
    ((wellFormed_newline depth).append (wellFormed_pretty depth x)).append
      ((wellFormed_text (u := [ascii ',']) (by decide)).append
        (wellFormed_prettyItems depth (y :: xs)))
theorem wellFormed_prettyFields (depth : Nat) : ∀ fields : List (JsString × Value),
    WellFormed (prettyFields depth fields)
  | [] => .nil
  | [(k, v)] =>
    ((wellFormed_newline depth).append (wellFormed_quote k)).append
      ((wellFormed_text (u := [ascii ':', ascii ' ']) (by decide)).append
        (wellFormed_pretty depth v))
  | (k, v) :: e :: es =>
    (((wellFormed_newline depth).append (wellFormed_quote k)).append
      ((wellFormed_text (u := [ascii ':', ascii ' ']) (by decide)).append
        (wellFormed_pretty depth v))).append
      ((wellFormed_text (u := [ascii ',']) (by decide)).append
        (wellFormed_prettyFields depth (e :: es)))
end

end Qev.Js
