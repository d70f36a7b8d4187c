import Mathlib.Data.List.DropRight
import Mathlib.Data.List.Forall2
import Qev.Lib.Base64
import Qev.Lib.Hex
import Qev.Lib.Json
import Qev.Lib.Utf8

/-! Python's strings, which are code points with the surrogates among them, and
what its standard library writes and reads: UTF-8, JSON in ASCII, Base64. -/

namespace Qev.Py

abbrev CodePoint := Fin 0x110000

instance codePoints : NeZero 0x110000 := ⟨by decide⟩

abbrev Str := List CodePoint

instance : LawfulBEq Str := inferInstance

def cp (c : Char) : CodePoint := ⟨c.toNat, Utf8.charToNat_lt c⟩

def py (s : String) : Str := s.toList.map cp

/-- `str.isspace` of one character. -/
def isSpace (c : CodePoint) : Bool :=
  (9 ≤ c.val && c.val ≤ 13) || (0x1C ≤ c.val && c.val ≤ 0x20) || c.val == 0x85 || c.val == 0xA0 ||
    c.val == 0x1680 || (0x2000 ≤ c.val && c.val ≤ 0x200A) || c.val == 0x2028 || c.val == 0x2029 ||
    c.val == 0x202F || c.val == 0x205F || c.val == 0x3000

def strip (s : Str) : Str := (s.dropWhile isSpace).rdropWhile isSpace

theorem strip_eq_self {s : Str} (solid : ∀ c ∈ s, isSpace c = false) : strip s = s := by
  have front : s.dropWhile isSpace = s := by
    rw [List.dropWhile_eq_self_iff]
    intro nonempty
    simp [solid _ (List.getElem_mem nonempty)]
  rw [strip, front, List.rdropWhile_eq_self_iff]
  intro nonempty
  simp [solid _ (List.getLast_mem nonempty)]

def join (separator : CodePoint) (parts : List Str) : Str := [separator].intercalate parts

def split (separator : CodePoint) (s : Str) : List Str := s.splitOn separator

theorem split_join {separator : CodePoint} {parts : List Str}
    (apart : ∀ part ∈ parts, separator ∉ part)
    (nonempty : parts ≠ []) : split separator (join separator parts) = parts :=
  List.splitOn_intercalate separator apart nonempty

theorem join_cons_cons (separator : CodePoint) (s s' : Str) (parts : List Str) :
    join separator (s :: s' :: parts) = s ++ separator :: join separator (s' :: parts) := by
  rw [join, List.intercalate_cons_cons, List.append_assoc]
  rfl

theorem mem_join {separator c : CodePoint} {parts : List Str} (h : c ∈ join separator parts) :
    c = separator ∨ ∃ part ∈ parts, c ∈ part := by
  induction parts with
  | nil => cases h
  | cons s parts ih =>
    cases parts with
    | nil =>
      rw [join, List.intercalate_singleton] at h
      exact .inr ⟨s, List.mem_cons_self, h⟩
    | cons s' parts =>
      rw [join_cons_cons, List.mem_append, List.mem_cons] at h
      rcases h with here | same | later
      · exact .inr ⟨s, List.mem_cons_self, here⟩
      · exact .inl same
      · rcases ih later with same | ⟨part, mem, inside⟩
        · exact .inl same
        · exact .inr ⟨part, List.mem_cons_of_mem s mem, inside⟩

/-! ## White space around a text -/

def Blank (s : Str) : Prop := ∀ c ∈ s, isSpace c = true

def Pads (s padded : Str) : Prop := ∃ l r, Blank l ∧ Blank r ∧ padded = l ++ s ++ r

theorem Pads.refl (s : Str) : Pads s s :=
  ⟨[], [], List.forall_mem_nil _, List.forall_mem_nil _, (List.append_nil s).symm⟩

theorem Blank.append {s t : Str} (hs : Blank s) (ht : Blank t) : Blank (s ++ t) :=
  List.forall_mem_append.mpr ⟨hs, ht⟩

theorem rdropWhile_blank (s : Str) {r : Str} (blank : Blank r) :
    (s ++ r).rdropWhile isSpace = s.rdropWhile isSpace := by
  have same : ∀ c ∈ r.reverse, isSpace c = true := fun c mem => blank c (List.mem_reverse.mp mem)
  rw [List.rdropWhile, List.reverse_append, List.dropWhile_append_of_pos same, List.rdropWhile]

theorem strip_blank {s : Str} (blank : Blank s) : strip s = [] := by
  rw [strip, List.dropWhile_eq_nil_iff.mpr blank, List.rdropWhile_nil]

/-- White space around a text makes no difference. -/
theorem strip_pads {s padded : Str} (h : Pads s padded) : strip padded = strip s := by
  obtain ⟨l, r, left, right, rfl⟩ := h
  rw [strip, List.append_assoc, List.dropWhile_append_of_pos left, List.dropWhile_append]
  split
  · rename_i empty
    rw [strip, List.isEmpty_iff.mp empty, List.dropWhile_eq_nil_iff.mpr right]
  · rw [rdropWhile_blank _ right, strip]

theorem pads_strip (s : Str) : Pads (strip s) s := by
  refine ⟨s.takeWhile isSpace, (s.dropWhile isSpace).rtakeWhile isSpace, ?_, ?_, ?_⟩
  · intro c mem
    exact List.mem_takeWhile_imp mem
  · intro c mem
    exact List.mem_rtakeWhile_imp mem
  · rw [strip, List.append_assoc, List.rdropWhile_append_rtakeWhile,
      List.takeWhile_append_dropWhile]

theorem strip_eq_nil_iff {s : Str} : strip s = [] ↔ Blank s := by
  constructor
  · intro empty
    obtain ⟨l, r, left, right, whole⟩ := pads_strip s
    rw [empty, List.append_nil] at whole
    rw [whole]
    exact left.append right
  · exact strip_blank

/-- Splitting a text that is cut from white space. -/
theorem split_pads {separator : CodePoint} (solid : isSpace separator = false) {s padded : Str}
    (h : Pads s padded) : List.Forall₂ Pads (split separator s) (split separator padded) := by
  obtain ⟨l, r, left, right, rfl⟩ := h
  have apart {t : Str} (blank : Blank t) : separator ∉ t := by
    intro mem
    rw [blank _ mem] at solid
    cases solid
  have behind : List.Forall₂ (fun part padded => ∃ r, Blank r ∧ padded = part ++ r)
      (split separator s) (split separator (s ++ r)) := by
    clear left
    induction s with
    | nil =>
      rw [split, split, List.nil_append, List.splitOn_nil,
        List.splitOn_eq_singleton (apart right)]
      exact .cons ⟨r, right, rfl⟩ .nil
    | cons c s ih =>
      rw [split, split, List.cons_append, List.splitOn_cons_eq_if_modifyHead,
        List.splitOn_cons_eq_if_modifyHead]
      rw [split, split] at ih
      split
      · exact .cons ⟨[], List.forall_mem_nil _, rfl⟩ ih
      · revert ih
        generalize s.splitOn separator = parts, (s ++ r).splitOn separator = parts'
        rintro (_ | ⟨⟨r, blank, rfl⟩, rest⟩)
        · exact .nil
        · exact .cons ⟨r, blank, rfl⟩ rest
  rw [List.append_assoc]
  induction l with
  | nil =>
    refine behind.imp ?_
    rintro part _ ⟨r, blank, rfl⟩
    exact ⟨[], r, List.forall_mem_nil _, blank, rfl⟩
  | cons c l ih =>
    have other : (c == separator) = false := by
      rw [beq_eq_false_iff_ne]
      rintro rfl
      exact apart left List.mem_cons_self
    have before := ih (List.forall_mem_cons.mp left).2
    rw [split, split] at before
    rw [split, split, List.cons_append, List.splitOn_cons_eq_if_modifyHead,
      if_neg (by simp [other])]
    revert before
    generalize s.splitOn separator = parts, (l ++ (s ++ r)).splitOn separator = parts'
    rintro (_ | ⟨⟨l', r', left', right', rfl⟩, rest⟩)
    · exact .nil
    · refine .cons ⟨c :: l', r', ?_, right', rfl⟩ rest
      exact List.forall_mem_cons.mpr ⟨(List.forall_mem_cons.mp left).1, left'⟩

/-! ## UTF-8 and eight bytes -/

/-- A surrogate is no character. -/
def toChar? (c : CodePoint) : Option Char :=
  if h : Nat.isValidChar c.val then some (Char.ofNatAux c.val h) else none

/-- `str.encode("utf-8")`. -/
def encode (s : Str) : Option Bytes := (s.mapM toChar?).map Utf8.encode

/-- `int.to_bytes(8, "big")`. -/
def to_bytes (n : Nat) : Option Bytes := if n < 2 ^ 64 then some (beBytes 8 n) else none

/-! ## json.dumps -/

/-- Four digits. -/
def unicodeEscape (n : Nat) : Str :=
  [cp '\\', cp 'u', cp (Hex.digit (n / 0x1000)), cp (Hex.digit (n / 0x100 % 16)),
    cp (Hex.digit (n / 16 % 16)), cp (Hex.digit (n % 16))]

/-- With `ensure_ascii`: a character beyond 0xFFFF is written as a pair. -/
def quoteChar (c : CodePoint) : Str :=
  if c = cp '"' then py "\\\""
  else if c = cp '\\' then py "\\\\"
  else if c = cp '\n' then py "\\n"
  else if c = cp '\r' then py "\\r"
  else if c = cp '\t' then py "\\t"
  else if c.val = 0x0C then py "\\f"
  else if c.val = 0x08 then py "\\b"
  else if 0x20 ≤ c.val ∧ c.val ≤ 0x7E then [c]
  else if c.val < 0x10000 then unicodeEscape c.val
  else unicodeEscape (0xD800 + (c.val - 0x10000) / 0x400) ++
    unicodeEscape (0xDC00 + (c.val - 0x10000) % 0x400)

def quote (s : Str) : Str := cp '"' :: s.flatMap quoteChar ++ [cp '"']

abbrev Value := Json Str ℤ

def printer : Json.Printer Str ℤ CodePoint := ⟨cp, quote, fun n => py (toString n)⟩

/-- `json.dumps` with sorted keys and no white space. -/
def dumps (v : Value) : Str := Json.print printer v.sortKeys

/-! ## base64 -/

/-- The alphabet of RFC 4648. -/
def b64char (n : Nat) : CodePoint :=
  if n = 62 then cp '+' else if n = 63 then cp '/' else cp (Base64.char64 n)

def b64val (c : CodePoint) : Option Nat :=
  if c = cp '+' then some 62
  else if c = cp '/' then some 63
  else if c = cp '-' ∨ c = cp '_' then none
  else (toChar? c).bind Base64.val64

def b64encode (bytes : Bytes) : Str :=
  let chars := (Base64.sextets bytes).map b64char
  chars ++ List.replicate ((4 - chars.length % 4) % 4) (cp '=')

inductive Base64Error where
  | not_ascii
  | one_too_many (data_characters : Nat)
  | incorrect_padding
  deriving DecidableEq, Repr

/-- `binascii.a2b_base64`, which skips what is not of the alphabet. `seen` are
the values so far and `pads` the padding characters since the last one. -/
def a2b_base64 : (pads : Nat) → (seen : List Nat) → Str → Except Base64Error Bytes
  | _, seen, [] =>
    if seen.length % 4 = 0 then .ok (Base64.octets seen)
    else if seen.length % 4 = 1 then .error (.one_too_many seen.length)
    else .error .incorrect_padding
  | pads, seen, c :: rest =>
    if c = cp '=' then
      if seen.length % 4 < 2 then a2b_base64 pads seen rest
      -- enough padding ends the text, whatever follows
      else if 4 ≤ seen.length % 4 + (pads + 1) then .ok (Base64.octets seen)
      else a2b_base64 (pads + 1) seen rest
    else
      match b64val c with
      | none => a2b_base64 pads seen rest
      | some n => a2b_base64 0 (seen ++ [n]) rest

def b64decode (s : Str) : Except Base64Error Bytes :=
  if s.any (128 ≤ ·.val) then .error .not_ascii else a2b_base64 0 [] s

theorem b64val_b64char {n : Nat} (h : n < 64) : b64val (b64char n) = some n := by
  interval_cases n <;> decide

theorem b64char_ascii {n : Nat} (h : n < 64) : (b64char n).val < 128 ∧ b64char n ≠ cp '=' := by
  interval_cases n <;> decide

theorem a2b_chars {ns : List Nat} (small : ∀ n ∈ ns, n < 64) (seen : List Nat) (rest : Str) :
    a2b_base64 0 seen (ns.map b64char ++ rest) = a2b_base64 0 (seen ++ ns) rest := by
  induction ns generalizing seen with
  | nil => rw [List.append_nil]; rfl
  | cons n ns ih =>
    rw [List.forall_mem_cons] at small
    rw [List.map_cons, List.cons_append, a2b_base64, if_neg (b64char_ascii small.1).2,
      b64val_b64char small.1]
    dsimp only
    rw [ih small.2, List.append_assoc]
    rfl

/-- Encoded bytes decode to themselves. -/
theorem b64decode_b64encode (bytes : Bytes) : b64decode (b64encode bytes) = .ok bytes := by
  have small := Base64.sextets_lt bytes
  have mod : (Base64.sextets bytes).length % 4 ≠ 1 := by
    have length := Base64.length_encode_mod bytes
    rwa [Base64.encode, List.length_map] at length
  have ascii : (b64encode bytes).any (128 ≤ ·.val) = false := by
    rw [List.any_eq_false]
    intro c mem
    rw [decide_eq_true_eq, not_le]
    rcases List.mem_append.mp mem with char | padding
    · obtain ⟨n, here, rfl⟩ := List.mem_map.mp char
      exact (b64char_ascii (small n here)).1
    · rw [List.eq_of_mem_replicate padding]
      decide
  rw [b64decode, ascii, if_neg Bool.false_ne_true, b64encode, a2b_chars small, List.nil_append,
    List.length_map]
  have whole := Base64.octets_sextets bytes
  generalize Base64.sextets bytes = ns at mod whole
  obtain zero | two | three : ns.length % 4 = 0 ∨ ns.length % 4 = 2 ∨ ns.length % 4 = 3 := by
    omega
  · rw [zero]
    simp [a2b_base64, zero, whole]
  · rw [two]
    simp [a2b_base64, List.replicate, two, whole]
  · rw [three]
    simp [a2b_base64, three, whole]

end Qev.Py
