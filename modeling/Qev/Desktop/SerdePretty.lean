import Qev.Desktop.Serde

/-! The indented text of `serde_json`, and its derived readers: each reads back
what the derived writer of the same type writes, compact or indented. -/

namespace Qev.Desktop

namespace Value

def newline (depth : Nat) : List Char := '\n' :: List.replicate (2 * depth) ' '

/-- The closing bracket has a line of its own, where anything is inside. -/
def closing (depth : Nat) (empty : Bool) : List Char := if empty then [] else newline depth

mutual
def pretty (depth : Nat) : Value → List Char
  | .arr items => '[' :: prettyItems (depth + 1) items ++ closing depth items.isEmpty ++ [']']
  | .obj fields =>
    '\x7b' :: prettyFields (depth + 1) fields ++ closing depth fields.isEmpty ++ ['\x7d']
  | .null => Json.print printer .null
  | .bool b => Json.print printer (.bool b)
  | .num n => Json.print printer (.num n)
  | .str s => Json.print printer (.str s)
def prettyItems (depth : Nat) : List Value → List Char
  | [] => []
  | [x] => newline depth ++ pretty depth x
  | x :: y :: xs => newline depth ++ pretty depth x ++ ',' :: prettyItems depth (y :: xs)
def prettyFields (depth : Nat) : List (String × Value) → List Char
  | [] => []
  | [(k, v)] => newline depth ++ quote k ++ ':' :: ' ' :: pretty depth v
  | (k, v) :: e :: es =>
    newline depth ++ quote k ++ ':' :: ' ' :: pretty depth v ++ ',' :: prettyFields depth (e :: es)
end

def to_vec (v : Value) : Bytes := Utf8.encode (Json.print printer v)

def to_vec_pretty (v : Value) : Bytes := Utf8.encode (pretty 0 v)

/-! ## What stands in the text -/

theorem infix_prettyFields {fields : List (String × Value)} {k : String} {v : Value}
    (h : (k, v) ∈ fields) (depth : Nat) : pretty depth v <:+: prettyFields depth fields := by
  induction fields with
  | nil => cases h
  | cons e es ih =>
    obtain ⟨k', v'⟩ := e
    rcases List.mem_cons.mp h with here | later
    · obtain ⟨rfl, rfl⟩ := Prod.mk.inj here
      cases es with
      | nil => exact ⟨newline depth ++ quote k ++ [':', ' '], [], by simp [prettyFields]⟩
      | cons e es =>
        exact ⟨newline depth ++ quote k ++ [':', ' '], ',' :: prettyFields depth (e :: es),
          by simp [prettyFields]⟩
    · cases es with
      | nil => cases later
      | cons e es =>
        apply (ih later).trans
        exact ⟨newline depth ++ quote k' ++ ':' :: ' ' :: pretty depth v' ++ [','], [],
          by simp [prettyFields]⟩

/-- The text of an object has the texts of its fields in it. -/
theorem infix_pretty_obj {fields : List (String × Value)} {k : String} {v : Value}
    (h : (k, v) ∈ fields) (depth : Nat) : pretty (depth + 1) v <:+: pretty depth (.obj fields) := by
  apply (infix_prettyFields h (depth + 1)).trans
  exact ⟨['\x7b'], closing depth fields.isEmpty ++ ['\x7d'], by simp [pretty]⟩

/-! ## Reading indented text back -/

def isSpace (c : Char) : Bool := c = ' ' ∨ c = '\t' ∨ c = '\n' ∨ c = '\r'

inductive Place where
  | outside
  | inside
  | escaped

/-- The text without the white space outside its strings. -/
def strip : Place → List Char → List Char
  | _, [] => []
  | .outside, c :: rest =>
    if isSpace c then strip .outside rest
    else if c = '"' then c :: strip .inside rest
    else c :: strip .outside rest
  | .inside, c :: rest =>
    if c = '"' then c :: strip .outside rest
    else if c = '\\' then c :: strip .escaped rest
    else c :: strip .inside rest
  | .escaped, c :: rest => c :: strip .inside rest

/-- A text that comes to `compact` without its white space, whatever follows. -/
def Strips (text compact : List Char) : Prop :=
  ∀ rest, strip .outside (text ++ rest) = compact ++ strip .outside rest

theorem Strips.nil : Strips [] [] := fun _ => rfl

theorem Strips.append {a b a' b' : List Char} (first : Strips a a') (second : Strips b b') :
    Strips (a ++ b) (a' ++ b') := by
  intro rest
  rw [List.append_assoc, first, second, List.append_assoc]

/-- A character that stands for itself outside a string. -/
def isSolid (c : Char) : Bool := !isSpace c && c != '"'

theorem Strips.cons {c : Char} {a a' : List Char} (solid : isSolid c = true)
    (later : Strips a a') : Strips (c :: a) (c :: a') := by
  intro rest
  simp only [isSolid, Bool.and_eq_true, Bool.not_eq_true', bne_iff_ne] at solid
  rw [List.cons_append, strip, solid.1, if_neg Bool.false_ne_true, if_neg solid.2, later,
    List.cons_append]

theorem Strips.word {w : List Char} (solid : w.all isSolid = true) : Strips w w := by
  induction w with
  | nil => exact .nil
  | cons c w ih =>
    rw [List.all_cons, Bool.and_eq_true] at solid
    exact .cons solid.1 (ih solid.2)

theorem Strips.space {a a' : List Char} (later : Strips a a') : Strips (' ' :: a) a' := later

theorem Strips.newline (depth : Nat) {a a' : List Char} (later : Strips a a') :
    Strips (Value.newline depth ++ a) a' := by
  have spaces (n : Nat) : Strips (List.replicate n ' ' ++ a) a' := by
    induction n with
    | zero => exact later
    | succ n ih => exact ih
  exact spaces (2 * depth)

theorem Strips.closing (depth : Nat) (empty : Bool) {a a' : List Char} (later : Strips a a') :
    Strips (Value.closing depth empty ++ a) a' := by
  cases empty with
  | true => exact later
  | false => exact later.newline depth

theorem strip_escape (c : Char) (rest : List Char) :
    strip .inside (escape c ++ rest) = escape c ++ strip .inside rest := by
  have digit {n : Nat} (h : n < 16) : hexDigit n ≠ '"' ∧ hexDigit n ≠ '\\' := by
    interval_cases n <;> decide
  unfold escape
  split_ifs with quotation slash b f n r t low
  iterate 7 rfl
  · have first := digit (show c.toNat / 16 < 16 by omega)
    have second := digit (show c.toNat % 16 < 16 by omega)
    simp [strip, first, second]
  · simp [strip, quotation, slash]

theorem Strips.quote (s : String) : Strips (Value.quote s) (Value.quote s) := by
  have units (cs rest : List Char) : strip .inside (cs.flatMap escape ++ rest) =
      cs.flatMap escape ++ strip .inside rest := by
    induction cs with
    | nil => rfl
    | cons c cs ih => rw [List.flatMap_cons, List.append_assoc, strip_escape, ih, List.append_assoc]
  intro rest
  have inner := units s.toList ('"' :: rest)
  simp only [Value.quote, List.cons_append, List.append_assoc, List.nil_append, strip, inner,
    show isSpace '"' = false by decide, Bool.false_eq_true, if_false, if_true]

theorem Strips.number (n : UInt64) : Strips (Number.u64 n).print (Number.u64 n).print := by
  apply Strips.word
  apply List.all_eq_true.mpr
  intro c mem
  have digit : c.isDigit = true := Nat.isDigit_of_mem_toDigits (by decide) (by decide) mem
  by_contra soft
  have space : c = ' ' ∨ c = '\t' ∨ c = '\n' ∨ c = '\r' ∨ c = '"' := by
    simpa [isSolid, isSpace, or_assoc, imp_iff_not_or] using soft
  rcases space with rfl | rfl | rfl | rfl | rfl <;> cases digit

mutual
theorem Strips.pretty (depth : Nat) : ∀ v : Value, v.Plain →
    Strips (Value.pretty depth v) (Json.print printer v)
  | .null, _ => .word rfl
  | .bool true, _ => .word rfl
  | .bool false, _ => .word rfl
  | .num n, plain => by
    obtain ⟨k, rfl⟩ := plain
    exact .number k
  | .str s, _ => .quote s
  | .arr items, plain => by
    have close : Strips [']'] [']'] := .word rfl
    have body := (Strips.prettyItems (depth + 1) items plain).append
      (close.closing depth items.isEmpty)
    rw [← List.append_assoc] at body
    exact .cons rfl body
  | .obj fields, plain => by
    have close : Strips ['\x7d'] ['\x7d'] := .word rfl
    have body := (Strips.prettyFields (depth + 1) fields plain).append
      (close.closing depth fields.isEmpty)
    rw [← List.append_assoc] at body
    exact .cons rfl body
theorem Strips.prettyItems (depth : Nat) : ∀ items : List Value,
    Json.NumbersItems (fun n => ∃ k, n = Number.u64 k) items →
    Strips (Value.prettyItems depth items) (Json.printItems printer items)
  | [], _ => .nil
  | [x], plain => (Strips.pretty depth x plain.1).newline depth
  | x :: y :: xs, plain => by
    have later := Strips.prettyItems depth (y :: xs) plain.2
    rw [Value.prettyItems, Json.printItems, List.append_assoc]
    exact ((Strips.pretty depth x plain.1).append (.cons rfl later)).newline depth
theorem Strips.prettyFields (depth : Nat) : ∀ fields : List (String × Value),
    Json.NumbersFields (fun n => ∃ k, n = Number.u64 k) fields →
    Strips (Value.prettyFields depth fields) (Json.printFields printer fields)
  | [], _ => .nil
  | [(k, v)], plain => by
    have value := Strips.cons (c := ':') rfl (Strips.pretty depth v plain.1).space
    rw [Value.prettyFields, Json.printFields, List.append_assoc]
    exact ((Strips.quote k).append value).newline depth
  | (k, v) :: e :: es, plain => by
    have later := Strips.cons (c := ',') rfl (Strips.prettyFields depth (e :: es) plain.2)
    have value := (Strips.cons (c := ':') rfl (Strips.pretty depth v plain.1).space).append later
    have line := ((Strips.quote k).append value).newline depth
    rw [Value.prettyFields, Json.printFields]
    simpa only [List.append_assoc, List.cons_append, printer, id] using line
end

mutual
theorem Strips.print : ∀ v : Value, v.Plain → Strips (Json.print printer v) (Json.print printer v)
  | .null, _ => .word rfl
  | .bool true, _ => .word rfl
  | .bool false, _ => .word rfl
  | .num n, plain => by
    obtain ⟨k, rfl⟩ := plain
    exact .number k
  | .str s, _ => .quote s
  | .arr items, plain => .cons rfl ((Strips.printItems items plain).append (.word rfl))
  | .obj fields, plain => .cons rfl ((Strips.printFields fields plain).append (.word rfl))
theorem Strips.printItems : ∀ items : List Value,
    Json.NumbersItems (fun n => ∃ k, n = Number.u64 k) items →
    Strips (Json.printItems printer items) (Json.printItems printer items)
  | [], _ => .nil
  | [x], plain => Strips.print x plain.1
  | x :: y :: xs, plain =>
    (Strips.print x plain.1).append (.cons rfl (Strips.printItems (y :: xs) plain.2))
theorem Strips.printFields : ∀ fields : List (String × Value),
    Json.NumbersFields (fun n => ∃ k, n = Number.u64 k) fields →
    Strips (Json.printFields printer fields) (Json.printFields printer fields)
  | [], _ => .nil
  | [(k, v)], plain => (Strips.quote k).append (.cons rfl (Strips.print v plain.1))
  | (k, v) :: e :: es, plain => by
    have later := Strips.cons (c := ',') rfl (Strips.printFields (e :: es) plain.2)
    have value := (Strips.cons (c := ':') rfl (Strips.print v plain.1)).append later
    rw [Json.printFields]
    simpa only [List.append_assoc, List.cons_append, printer, id] using
      (Strips.quote k).append value
end

/-- A reader of text with white space in it. An object keeps the fields in the
order of the text. -/
def from_slice (bytes : Bytes) : Option Value :=
  (Utf8.decode bytes).bind fun cs => Json.parse format (strip .outside cs)

theorem from_slice_strips {text : List Char} {v : Value} (plain : v.Plain)
    (strips : Strips text (Json.print printer v)) : from_slice (Utf8.encode text) = some v := by
  have compact : strip .outside text = Json.print printer v := by
    simpa [strip] using strips []
  rw [from_slice, Utf8.decode_encode, Option.bind_some, compact]
  exact Json.parse_print format plain

end Value

/-- The derived reader of a type whose derived writer makes `to_value`. It reads
back what is written, compact or indented; it may take more. -/
structure Reader {α : Type} (to_value : α → Value) where
  from_slice : Bytes → Option α
  from_slice_to_vec : ∀ a, from_slice (to_value a).to_vec = some a
  from_slice_to_vec_pretty : ∀ a, from_slice (to_value a).to_vec_pretty = some a

/-- The reader of text with white space in place of `serde_json`'s. -/
def Reader.spaced {α : Type} {to_value : α → Value} (of_value : Value → Option α)
    (of_value_to_value : ∀ a, of_value (to_value a) = some a) (plain : ∀ a, (to_value a).Plain) :
    Reader to_value where
  from_slice bytes := (Value.from_slice bytes).bind of_value
  from_slice_to_vec a := by
    have read := Value.from_slice_strips (plain a) (.print (to_value a) (plain a))
    rw [Value.to_vec, read, Option.bind_some, of_value_to_value]
  from_slice_to_vec_pretty a := by
    have read := Value.from_slice_strips (plain a) (.pretty 0 (to_value a) (plain a))
    rw [Value.to_vec_pretty, read, Option.bind_some, of_value_to_value]

end Qev.Desktop
