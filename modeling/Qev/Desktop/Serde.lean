import Mathlib.Data.String.Basic
import Mathlib.Tactic.IntervalCases
import Qev.Lib.Codec
import Qev.Lib.Json
import Qev.Lib.Utf8

/-! The values of `serde_json` and their compact text. A map keeps its keys
sorted. The reader is a parameter. -/

namespace Qev.Desktop

/-- A number that `as_u64` returns, or any other by its text. -/
inductive Number where
  | u64 (n : UInt64)
  | other (text : List Char)
  deriving DecidableEq, Repr

def Number.print : Number → List Char
  | u64 n => Nat.toDigits 10 n.toNat
  | other text => text

abbrev Value := Json String Number

namespace Value

def as_str : Value → Option String
  | .str s => some s
  | _ => none

def as_u64 : Value → Option UInt64
  | .num (.u64 n) => some n
  | _ => none

def hexDigit (n : Nat) : Char := if n < 10 then Char.ofNat (48 + n) else Char.ofNat (87 + n)

/-- One character of a string, escaped where JSON asks for it. -/
def escape (c : Char) : List Char :=
  if c = '"' then ['\\', '"']
  else if c = '\\' then ['\\', '\\']
  else if c = '\x08' then ['\\', 'b']
  else if c = '\x0c' then ['\\', 'f']
  else if c = '\n' then ['\\', 'n']
  else if c = '\r' then ['\\', 'r']
  else if c = '\t' then ['\\', 't']
  else if c.toNat < 32 then ['\\', 'u', '0', '0', hexDigit (c.toNat / 16), hexDigit (c.toNat % 16)]
  else [c]

def quote (s : String) : List Char := '"' :: s.toList.flatMap escape ++ ['"']

def printer : Json.Printer String Number Char := ⟨id, quote, Number.print⟩

def to_string (v : Value) : String := String.ofList (Json.print printer v)

/-- The `json!` macro at an object whose keys differ. -/
def json (fields : List (String × Value)) : Value := .obj (fields.foldr Json.insertField [])

theorem mem_json {f : String × Value} {fields : List (String × Value)} :
    f ∈ fields.foldr Json.insertField [] ↔ f ∈ fields := by
  induction fields with
  | nil => rfl
  | cons g fields ih => rw [List.foldr_cons, Json.mem_insertField, ih, List.mem_cons]

theorem escape_ne_nil (c : Char) : escape c ≠ [] := by
  unfold escape
  repeat' split
  all_goals simp

theorem length_quote (s : String) : s.toList.length + 2 ≤ (quote s).length := by
  have whole := Codec.length_le_flatMap escape_ne_nil s.toList
  simp only [quote, List.length_cons, List.length_append, List.length_nil]
  omega

/-! ## Reading compact text back -/

def hexVal (c : Char) : Nat :=
  if c.isDigit then c.toNat - 48 else c.toNat - 87

def readEscape : List Char → Option (Char × List Char)
  | '\\' :: '"' :: rest => some ('"', rest)
  | '\\' :: '\\' :: rest => some ('\\', rest)
  | '\\' :: 'b' :: rest => some ('\x08', rest)
  | '\\' :: 'f' :: rest => some ('\x0c', rest)
  | '\\' :: 'n' :: rest => some ('\n', rest)
  | '\\' :: 'r' :: rest => some ('\r', rest)
  | '\\' :: 't' :: rest => some ('\t', rest)
  | '\\' :: 'u' :: '0' :: '0' :: a :: b :: rest =>
    some (Char.ofNat (16 * hexVal a + hexVal b), rest)
  | '\\' :: _ => none
  | c :: rest => some (c, rest)
  | [] => none

theorem hexVal_hexDigit {n : Nat} (h : n < 16) : hexVal (hexDigit n) = n := by
  interval_cases n <;> decide

theorem readEscape_escape : Codec.ReadsBack escape readEscape := by
  intro c rest
  unfold escape
  split_ifs with quote slash b f n r t low
  · rw [quote]; rfl
  · rw [slash]; rfl
  · rw [b]; rfl
  · rw [f]; rfl
  · rw [n]; rfl
  · rw [r]; rfl
  · rw [t]; rfl
  · have whole : 16 * (c.toNat / 16) + c.toNat % 16 = c.toNat := by omega
    simp only [List.cons_append, List.nil_append, readEscape,
      hexVal_hexDigit (show c.toNat / 16 < 16 by omega),
      hexVal_hexDigit (show c.toNat % 16 < 16 by omega), whole, Char.ofNat_toNat]
  · rw [List.cons_append, List.nil_append, readEscape]
    all_goals simp [slash]

theorem escape_head (c : Char) : ∃ b tail, escape c = b :: tail ∧ b ≠ '"' := by
  unfold escape
  split_ifs with quote
  all_goals first
    | exact ⟨_, _, rfl, by decide⟩
    | exact ⟨c, [], rfl, quote⟩

def readQuote : List Char → Option (String × List Char)
  | '"' :: rest =>
    (Codec.readUntil '"' readEscape (rest.length + 1) rest).map fun (cs, rest) =>
      (String.ofList cs, rest)
  | _ => none

theorem readQuote_quote (s : String) (rest : List Char) :
    readQuote (quote s ++ rest) = some (s, rest) := by
  have back := readEscape_escape.readUntil_flatMap escape_head s.toList rest
    ((s.toList.flatMap escape ++ '"' :: rest).length + 1) (by
      rw [List.length_append]; omega)
  simp only [quote, List.cons_append, List.append_assoc, List.nil_append, readQuote, back,
    Option.map_some, String.ofList_toList]

def readNumber (cs : List Char) : Option (Number × List Char) :=
  let n := Nat.ofDigitChars 10 (cs.takeWhile Char.isDigit) 0
  if n < 2 ^ 64 then some (.u64 (UInt64.ofNat n), cs.dropWhile Char.isDigit) else none

theorem readNumber_u64 (n : UInt64) {rest : List Char} (ends : Json.Ends id rest) :
    readNumber ((Number.u64 n).print ++ rest) = some (.u64 n, rest) := by
  have digits : ∀ c ∈ Nat.toDigits 10 n.toNat, c.isDigit = true := fun c h =>
    Nat.isDigit_of_mem_toDigits (by decide) (by decide) h
  have stop : rest.takeWhile Char.isDigit = [] ∧ rest.dropWhile Char.isDigit = rest := by
    rcases ends with rfl | ⟨c, tail, punct, rfl⟩
    · exact ⟨rfl, rfl⟩
    · simp only [List.mem_cons, List.not_mem_nil, or_false] at punct
      rcases punct with rfl | rfl | rfl <;> exact ⟨rfl, rfl⟩
  have bound := n.toNat_lt
  simp only [readNumber, Number.print, List.takeWhile_append_of_pos digits,
    List.dropWhile_append_of_pos digits, stop, List.append_nil, Nat.ofDigitChars_ten_toDigits,
    bound, if_true, UInt64.ofNat_toNat]

def format : Json.Format String Number Char where
  toPrinter := printer
  readQuote := readQuote
  readNumber := readNumber
  Number n := ∃ k, n = .u64 k
  ascii_inj _ _ _ _ h := h
  quote_head s := ⟨_, rfl⟩
  number_head := by
    rintro _ ⟨k, rfl⟩
    obtain ⟨c, tail, digits⟩ :=
      List.exists_cons_of_ne_nil (Nat.toDigits_ne_nil (n := k.toNat) (b := 10))
    refine ⟨c, tail, digits, .inr ?_⟩
    exact Nat.isDigit_of_mem_toDigits (by decide) (by decide) (digits ▸ List.mem_cons_self)
  readQuote_quote := readQuote_quote
  readNumber_number := by
    rintro _ rest ⟨k, rfl⟩ ends
    exact readNumber_u64 k ends

/-- The numbers of the value are all of the kind that `as_u64` returns. -/
def Plain (v : Value) : Prop := Json.Numbers (fun n => ∃ k, n = Number.u64 k) v

/-- The keys of every object stand in order, each once, as in a `BTreeMap`. -/
def Sorted (v : Value) : Prop := Json.Keys (List.Pairwise (· < ·)) v

end Value

/-- `serde_json::from_str` at `Value`. It reads back what `to_string` writes,
down to its limit on nesting. -/
structure SerdeJson where
  from_str : String → Option Value
  from_str_to_string : ∀ v : Value, v.Plain → v.Sorted → v.depth < 128 →
    from_str v.to_string = some v

/-- The reader of compact text in place of `serde_json`'s. -/
def SerdeJson.compact : SerdeJson where
  from_str s := Json.parse Value.format s.toList
  from_str_to_string v plain _ _ := by
    rw [Value.to_string, String.toList_ofList]
    exact Json.parse_print Value.format plain

end Qev.Desktop
