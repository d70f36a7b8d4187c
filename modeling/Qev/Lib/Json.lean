import Mathlib.Data.List.Basic
import Mathlib.Tactic.Tauto

/-! JSON values over any strings and numbers, and their text without white
space, as a sequence of any characters. -/

namespace Qev

inductive Json (σ ν : Type) where
  | null
  | bool (b : Bool)
  | num (n : ν)
  | str (s : σ)
  | arr (items : List (Json σ ν))
  | obj (fields : List (σ × Json σ ν))

namespace Json

/-- How strings and numbers are written, and the ASCII characters besides. -/
structure Printer (σ ν χ : Type) where
  ascii : Char → χ
  quote : σ → List χ
  number : ν → List χ

variable {σ ν χ : Type}

def Printer.word (p : Printer σ ν χ) (s : String) : List χ := s.toList.map p.ascii

variable (p : Printer σ ν χ)

mutual
def print : Json σ ν → List χ
  | null => p.word "null"
  | bool b => p.word (if b then "true" else "false")
  | num n => p.number n
  | str s => p.quote s
  | arr items => p.ascii '[' :: printItems items ++ [p.ascii ']']
  | obj fields => p.ascii '\x7b' :: printFields fields ++ [p.ascii '\x7d']
def printItems : List (Json σ ν) → List χ
  | [] => []
  | [x] => print x
  | x :: y :: xs => print x ++ p.ascii ',' :: printItems (y :: xs)
def printFields : List (σ × Json σ ν) → List χ
  | [] => []
  | [(k, v)] => p.quote k ++ p.ascii ':' :: print v
  | (k, v) :: e :: es => p.quote k ++ p.ascii ':' :: print v ++ p.ascii ',' :: printFields (e :: es)
end

/-- The field of a name, in an object. -/
def get [DecidableEq σ] (key : σ) : Json σ ν → Option (Json σ ν)
  | obj fields => (fields.find? fun f => f.1 = key).map Prod.snd
  | _ => none

section Order

variable [LT σ] [DecidableLT σ]

/-- One more field, in front of the first one with a larger key. -/
def insertField (f : σ × Json σ ν) : List (σ × Json σ ν) → List (σ × Json σ ν)
  | [] => [f]
  | g :: gs => if f.1 < g.1 then f :: g :: gs else g :: insertField f gs

theorem mem_insertField {f g : σ × Json σ ν} {fs : List (σ × Json σ ν)} :
    f ∈ insertField g fs ↔ f = g ∨ f ∈ fs := by
  induction fs with
  | nil => simp [insertField]
  | cons h fs ih =>
    rw [insertField]
    split
    · simp
    · simp only [List.mem_cons, ih]
      tauto

mutual
/-- The keys of every object in order. -/
def sortKeys : Json σ ν → Json σ ν
  | arr items => arr (sortItems items)
  | obj fields => obj (sortFields fields)
  | v => v
def sortItems : List (Json σ ν) → List (Json σ ν)
  | [] => []
  | x :: xs => sortKeys x :: sortItems xs
def sortFields : List (σ × Json σ ν) → List (σ × Json σ ν)
  | [] => []
  | (k, v) :: es => insertField (k, sortKeys v) (sortFields es)
end

end Order

theorem length_print_le_printFields {fields : List (σ × Json σ ν)} {k : σ} {v : Json σ ν}
    (h : (k, v) ∈ fields) : (print p v).length ≤ (printFields p fields).length := by
  induction fields with
  | nil => cases h
  | cons e es ih =>
    obtain ⟨k', v'⟩ := e
    cases es with
    | nil =>
      obtain ⟨rfl, rfl⟩ := Prod.mk.inj (List.mem_singleton.mp h)
      simp only [printFields, List.length_append, List.length_cons]
      omega
    | cons e es =>
      simp only [printFields, List.length_append, List.length_cons]
      rcases List.mem_cons.mp h with here | later
      · obtain ⟨rfl, rfl⟩ := Prod.mk.inj here
        omega
      · have := ih later
        omega

/-- A field's text is shorter than the object's. -/
theorem length_print_lt_obj {fields : List (σ × Json σ ν)} {k : σ} {v : Json σ ν}
    (h : (k, v) ∈ fields) : (print p v).length < (print p (obj fields)).length := by
  have inner := length_print_le_printFields p h
  simp only [print, List.length_append, List.length_cons, List.length_nil]
  omega

/-- A property of texts that holds of every piece and of what is put together. -/
structure Closed (P : List χ → Prop) : Prop where
  nil : P []
  append : ∀ {a b}, P a → P b → P (a ++ b)
  ascii : ∀ c : Char, c.toNat < 128 → P [p.ascii c]
  quote : ∀ s, P (p.quote s)
  number : ∀ n, P (p.number n)

theorem Closed.cons {P : List χ → Prop} (h : Closed p P) {c : Char} (small : c.toNat < 128)
    {rest : List χ} (later : P rest) : P (p.ascii c :: rest) :=
  h.append (h.ascii c small) later

theorem Closed.word {P : List χ → Prop} (h : Closed p P) {s : String}
    (small : s.toList.all (·.toNat < 128) = true) : P (p.word s) := by
  rw [Printer.word]
  generalize s.toList = cs at small
  induction cs with
  | nil => exact h.nil
  | cons c cs ih =>
    simp only [List.all_cons, Bool.and_eq_true, decide_eq_true_eq] at small
    exact h.cons p small.1 (ih small.2)

mutual
theorem Closed.print {P : List χ → Prop} (h : Closed p P) : ∀ v : Json σ ν, P (print p v)
  | null => h.word p (by decide)
  | bool true => h.word p (by decide)
  | bool false => h.word p (by decide)
  | num n => h.number n
  | str s => h.quote s
  | arr items => h.cons p (by decide) (h.append (h.printItems items) (h.ascii ']' (by decide)))
  | obj fields =>
    h.cons p (by decide) (h.append (h.printFields fields) (h.ascii '\x7d' (by decide)))
theorem Closed.printItems {P : List χ → Prop} (h : Closed p P) :
    ∀ items : List (Json σ ν), P (printItems p items)
  | [] => h.nil
  | [x] => h.print x
  | x :: y :: xs => h.append (h.print x) (h.cons p (by decide) (h.printItems (y :: xs)))
theorem Closed.printFields {P : List χ → Prop} (h : Closed p P) :
    ∀ fields : List (σ × Json σ ν), P (printFields p fields)
  | [] => h.nil
  | [(k, v)] => h.append (h.quote k) (h.cons p (by decide) (h.print v))
  | (k, v) :: e :: es =>
    h.append (h.append (h.quote k) (h.cons p (by decide) (h.print v)))
      (h.cons p (by decide) (h.printFields (e :: es)))
end

/-! ## Reading -/

mutual
/-- Every number in the value satisfies `P`. -/
def Numbers (P : ν → Prop) : Json σ ν → Prop
  | num n => P n
  | arr items => NumbersItems P items
  | obj fields => NumbersFields P fields
  | _ => True
def NumbersItems (P : ν → Prop) : List (Json σ ν) → Prop
  | [] => True
  | x :: xs => Numbers P x ∧ NumbersItems P xs
def NumbersFields (P : ν → Prop) : List (σ × Json σ ν) → Prop
  | [] => True
  | (_, v) :: es => Numbers P v ∧ NumbersFields P es
end

theorem numbersFields_iff {P : ν → Prop} {fields : List (σ × Json σ ν)} :
    NumbersFields P fields ↔ ∀ f ∈ fields, Numbers P f.2 := by
  induction fields with
  | nil => simp [NumbersFields]
  | cons f fields ih => simp [NumbersFields, ih]

mutual
/-- The keys of every object in the value, in order, satisfy `P`. -/
def Keys (P : List σ → Prop) : Json σ ν → Prop
  | arr items => KeysItems P items
  | obj fields => P (fields.map Prod.fst) ∧ KeysFields P fields
  | _ => True
def KeysItems (P : List σ → Prop) : List (Json σ ν) → Prop
  | [] => True
  | x :: xs => Keys P x ∧ KeysItems P xs
def KeysFields (P : List σ → Prop) : List (σ × Json σ ν) → Prop
  | [] => True
  | (_, v) :: es => Keys P v ∧ KeysFields P es
end

theorem keysFields_iff {P : List σ → Prop} {fields : List (σ × Json σ ν)} :
    KeysFields P fields ↔ ∀ f ∈ fields, Keys P f.2 := by
  induction fields with
  | nil => simp [KeysFields]
  | cons f fields ih => simp [KeysFields, ih]

mutual
/-- How deep arrays and objects nest. -/
def depth : Json σ ν → Nat
  | arr items => depthItems items + 1
  | obj fields => depthFields fields + 1
  | _ => 0
def depthItems : List (Json σ ν) → Nat
  | [] => 0
  | x :: xs => max (depth x) (depthItems xs)
def depthFields : List (σ × Json σ ν) → Nat
  | [] => 0
  | (_, v) :: es => max (depth v) (depthFields es)
end

/-- What may stand after a value: nothing, or the punctuation that ends it. -/
def Ends (ascii : Char → χ) (rest : List χ) : Prop :=
  rest = [] ∨ ∃ c tail, c ∈ [',', ']', '\x7d'] ∧ rest = ascii c :: tail

/-- A way of writing strings and numbers that can be read back. -/
structure Format (σ ν χ : Type) extends Printer σ ν χ where
  readQuote : List χ → Option (σ × List χ)
  readNumber : List χ → Option (ν × List χ)
  /-- The numbers that are read back. -/
  Number : ν → Prop
  ascii_inj : ∀ a b : Char, a.toNat < 128 → b.toNat < 128 → ascii a = ascii b → a = b
  quote_head : ∀ s, ∃ tail, quote s = ascii '"' :: tail
  number_head : ∀ n, Number n → ∃ c tail, number n = ascii c :: tail ∧ (c = '-' ∨ c.isDigit)
  readQuote_quote : ∀ s rest, readQuote (quote s ++ rest) = some (s, rest)
  readNumber_number : ∀ n rest, Number n → Ends ascii rest →
    readNumber (number n ++ rest) = some (n, rest)

variable [DecidableEq χ]

/-- The input after the characters of `w`, where it starts with them. -/
def expect {α : Type} (w : List χ) (x : α) (input : List χ) : Option (α × List χ) :=
  if w <+: input then some (x, input.drop w.length) else none

variable (f : Format σ ν χ)

mutual
def read : Nat → List χ → Option (Json σ ν × List χ)
  | 0, _ => none
  | _, [] => none
  | fuel + 1, c :: rest =>
    if c = f.ascii '[' then
      if rest.head? = some (f.ascii ']') then some (arr [], rest.tail)
      else (readItems fuel rest).map fun (items, rest) => (arr items, rest)
    else if c = f.ascii '\x7b' then
      if rest.head? = some (f.ascii '\x7d') then some (obj [], rest.tail)
      else (readFields fuel rest).map fun (fields, rest) => (obj fields, rest)
    else if c = f.ascii '"' then
      (f.readQuote (c :: rest)).map fun (s, rest) => (str s, rest)
    else if c = f.ascii 'n' then expect (f.word "null") null (c :: rest)
    else if c = f.ascii 't' then expect (f.word "true") (bool true) (c :: rest)
    else if c = f.ascii 'f' then expect (f.word "false") (bool false) (c :: rest)
    else (f.readNumber (c :: rest)).map fun (n, rest) => (num n, rest)
def readItems : Nat → List χ → Option (List (Json σ ν) × List χ)
  | 0, _ => none
  | fuel + 1, input =>
    match read fuel input with
    | none => none
    | some (_, []) => none
    | some (x, c :: rest) =>
      if c = f.ascii ',' then (readItems fuel rest).map fun (xs, rest) => (x :: xs, rest)
      else if c = f.ascii ']' then some ([x], rest)
      else none
def readFields : Nat → List χ → Option (List (σ × Json σ ν) × List χ)
  | 0, _ => none
  | fuel + 1, input =>
    match f.readQuote input with
    | none => none
    | some (_, []) => none
    | some (k, colon :: rest) =>
      if colon ≠ f.ascii ':' then none
      else
        match read fuel rest with
        | none => none
        | some (_, []) => none
        | some (v, c :: rest) =>
          if c = f.ascii ',' then (readFields fuel rest).map fun (es, rest) => ((k, v) :: es, rest)
          else if c = f.ascii '\x7d' then some ([(k, v)], rest)
          else none
end

/-- The value that is all of the input. -/
def parse (input : List χ) : Option (Json σ ν) :=
  match read f input.length input with
  | some (v, []) => some v
  | _ => none

omit [DecidableEq χ] in
theorem Format.ascii_eq_iff {a b : Char} (ha : a.toNat < 128) (hb : b.toNat < 128) :
    f.ascii a = f.ascii b ↔ a = b :=
  ⟨f.ascii_inj a b ha hb, congrArg f.ascii⟩

theorem expect_append {α : Type} (w : List χ) (x : α) (rest : List χ) :
    expect w x (w ++ rest) = some (x, rest) := by
  simp [expect]

theorem isDigit_lt {c : Char} (h : c.isDigit) : c.toNat < 128 := by
  simp only [Char.isDigit, Bool.and_eq_true, decide_eq_true_eq] at h
  have upper : c.toNat ≤ '9'.toNat := h.2
  have nine : '9'.toNat = 57 := by decide
  omega

omit [DecidableEq χ] in
/-- No value is written as nothing, or starts with closing punctuation. -/
theorem print_head {v : Json σ ν} (ok : Numbers f.Number v) :
    ∃ c tail, print f.toPrinter v = f.ascii c :: tail ∧ c.toNat < 128 ∧ c ≠ ']' ∧ c ≠ '\x7d' := by
  cases v with
  | null => exact ⟨'n', _, rfl, by decide, by decide, by decide⟩
  | bool b =>
    cases b with
    | true => exact ⟨'t', _, rfl, by decide, by decide, by decide⟩
    | false => exact ⟨'f', _, rfl, by decide, by decide, by decide⟩
  | num n =>
    obtain ⟨c, tail, head, start⟩ := f.number_head n ok
    rcases start with rfl | digit
    · exact ⟨'-', tail, head, by decide, by decide, by decide⟩
    · refine ⟨c, tail, head, isDigit_lt digit, ?_, ?_⟩
      · rintro rfl
        cases digit
      · rintro rfl
        cases digit
  | str s =>
    obtain ⟨tail, head⟩ := f.quote_head s
    exact ⟨'"', tail, head, by decide, by decide, by decide⟩
  | arr items => exact ⟨'[', _, rfl, by decide, by decide, by decide⟩
  | obj fields => exact ⟨'\x7b', _, rfl, by decide, by decide, by decide⟩

omit [DecidableEq χ] in
theorem Ends.punctuation {c : Char} (h : c ∈ [',', ']', '\x7d']) (tail : List χ) :
    Ends f.ascii (f.ascii c :: tail) :=
  .inr ⟨c, tail, h, rfl⟩

omit [DecidableEq χ] in
theorem printItems_head {x : Json σ ν} (ok : Numbers f.Number x) (xs : List (Json σ ν)) :
    ∃ c tail, printItems f.toPrinter (x :: xs) = f.ascii c :: tail ∧ c.toNat < 128 ∧ c ≠ ']' := by
  obtain ⟨c, tail, head, ascii, bracket, -⟩ := print_head f ok
  cases xs with
  | nil => exact ⟨c, tail, by rw [printItems, head], ascii, bracket⟩
  | cons y ys => exact ⟨c, _, by rw [printItems, head]; rfl, ascii, bracket⟩

omit [DecidableEq χ] in
theorem printFields_head (e : σ × Json σ ν) (es : List (σ × Json σ ν)) :
    ∃ tail, printFields f.toPrinter (e :: es) = f.ascii '"' :: tail := by
  obtain ⟨k, v⟩ := e
  obtain ⟨tail, head⟩ := f.quote_head k
  cases es with
  | nil => exact ⟨_, by rw [printFields, head]; rfl⟩
  | cons e es => exact ⟨_, by rw [printFields, head]; rfl⟩

/-- What is written of a value is read back with this fuel, whatever follows it. -/
def ReadsValue (fuel : Nat) (v : Json σ ν) : Prop :=
  ∀ rest, Numbers f.Number v → Ends f.ascii rest → (print f.toPrinter v).length ≤ fuel →
    read f fuel (print f.toPrinter v ++ rest) = some (v, rest)

def ReadsItems (fuel : Nat) (items : List (Json σ ν)) : Prop :=
  ∀ rest, NumbersItems f.Number items → (printItems f.toPrinter items).length < fuel →
    readItems f fuel (printItems f.toPrinter items ++ f.ascii ']' :: rest) = some (items, rest)

def ReadsFields (fuel : Nat) (fields : List (σ × Json σ ν)) : Prop :=
  ∀ rest, NumbersFields f.Number fields → (printFields f.toPrinter fields).length < fuel →
    readFields f fuel (printFields f.toPrinter fields ++ f.ascii '\x7d' :: rest) =
      some (fields, rest)

theorem reads_null (fuel : Nat) : ReadsValue f (fuel + 1) null := by
  intro rest _ _ _
  have head : f.word "null" ++ rest = f.ascii 'n' :: (f.word "ull" ++ rest) := rfl
  rw [print, head, read]
  simp (disch := decide) only [f.ascii_eq_iff, Char.reduceEq, if_false, if_true]
  exact expect_append (f.word "null") null rest

theorem reads_bool (fuel : Nat) (b : Bool) : ReadsValue f (fuel + 1) (bool b) := by
  intro rest _ _ _
  cases b with
  | true =>
    have head : f.word "true" ++ rest = f.ascii 't' :: (f.word "rue" ++ rest) := rfl
    rw [print, if_pos rfl, head, read]
    simp (disch := decide) only [f.ascii_eq_iff, Char.reduceEq, if_false, if_true]
    exact expect_append (f.word "true") (bool true) rest
  | false =>
    have head : f.word "false" ++ rest = f.ascii 'f' :: (f.word "alse" ++ rest) := rfl
    rw [print, if_neg Bool.false_ne_true, head, read]
    simp (disch := decide) only [f.ascii_eq_iff, Char.reduceEq, if_false, if_true]
    exact expect_append (f.word "false") (bool false) rest

/-- No other branch takes what a number starts with. -/
theorem reads_num (fuel : Nat) (n : ν) : ReadsValue f (fuel + 1) (num n) := by
  intro rest ok ends _
  obtain ⟨c, tail, head, start⟩ := f.number_head n ok
  have back := f.readNumber_number n rest ok ends
  have ascii : c.toNat < 128 := by
    rcases start with rfl | digit
    · decide
    · exact isDigit_lt digit
  have other : c ≠ '[' ∧ c ≠ '\x7b' ∧ c ≠ '"' ∧ c ≠ 'n' ∧ c ≠ 't' ∧ c ≠ 'f' := by
    refine ⟨?_, ?_, ?_, ?_, ?_, ?_⟩ <;> rintro rfl <;> rcases start with h | h <;> cases h
  rw [head, List.cons_append] at back
  rw [print, head, List.cons_append, read]
  simp (disch := first | exact ascii | decide) only [f.ascii_eq_iff, other, if_false]
  rw [back]
  rfl

theorem reads_str (fuel : Nat) (s : σ) : ReadsValue f (fuel + 1) (str s) := by
  intro rest _ _ _
  obtain ⟨tail, head⟩ := f.quote_head s
  have back := f.readQuote_quote s rest
  rw [head, List.cons_append] at back
  rw [print, head, List.cons_append, read]
  simp (disch := decide) only [f.ascii_eq_iff, Char.reduceEq, if_false, if_true]
  rw [back]
  rfl

theorem reads_arr {fuel : Nat} {xs : List (Json σ ν)}
    (items : xs ≠ [] → ReadsItems f fuel xs) : ReadsValue f (fuel + 1) (arr xs) := by
  intro rest ok _ enough
  simp only [print, List.length_append, List.length_cons, List.length_nil] at enough
  simp only [print, List.append_assoc, List.cons_append, List.nil_append]
  rw [read, if_pos rfl]
  cases xs with
  | nil => simp [printItems]
  | cons x xs =>
    obtain ⟨c, tail, head, ascii, bracket⟩ := printItems_head f ok.1 xs
    have inside := items (by simp) rest ok (by omega)
    rw [head, List.cons_append] at inside ⊢
    have first : f.ascii c ≠ f.ascii ']' := by
      rwa [ne_eq, f.ascii_eq_iff ascii (by decide)]
    rw [if_neg (by simpa using first), inside]
    rfl

theorem reads_obj {fuel : Nat} {es : List (σ × Json σ ν)}
    (fields : es ≠ [] → ReadsFields f fuel es) : ReadsValue f (fuel + 1) (obj es) := by
  intro rest ok _ enough
  simp only [print, List.length_append, List.length_cons, List.length_nil] at enough
  simp only [print, List.append_assoc, List.cons_append, List.nil_append]
  rw [read]
  simp (disch := decide) only [f.ascii_eq_iff, Char.reduceEq, if_false, if_true]
  cases es with
  | nil => simp [printFields]
  | cons e es =>
    obtain ⟨tail, head⟩ := printFields_head f e es
    have inside := fields (by simp) rest ok (by omega)
    rw [head, List.cons_append] at inside ⊢
    have first : f.ascii '"' ≠ f.ascii '\x7d' := by
      rw [ne_eq, f.ascii_eq_iff (by decide) (by decide)]
      decide
    rw [if_neg (by simpa using first), inside]
    rfl

theorem reads_last_item {fuel : Nat} {x : Json σ ν} (value : ReadsValue f fuel x) :
    ReadsItems f (fuel + 1) [x] := by
  intro rest ok enough
  simp only [printItems] at enough ⊢
  rw [readItems, value _ ok.1 (Ends.punctuation f (by simp) _) (by omega)]
  have close : f.ascii ']' ≠ f.ascii ',' := by
    rw [ne_eq, f.ascii_eq_iff (by decide) (by decide)]
    decide
  simp [close]

theorem reads_item {fuel : Nat} {x y : Json σ ν} {ys : List (Json σ ν)}
    (value : ReadsValue f fuel x) (items : ReadsItems f fuel (y :: ys)) :
    ReadsItems f (fuel + 1) (x :: y :: ys) := by
  intro rest ok enough
  simp only [printItems, List.length_append, List.length_cons] at enough
  have head := value (f.ascii ',' :: (printItems f.toPrinter (y :: ys) ++ f.ascii ']' :: rest))
    ok.1 (Ends.punctuation f (by simp) _) (by omega)
  have tail := items rest ok.2 (by omega)
  simp only [printItems, List.append_assoc, List.cons_append]
  rw [readItems, head]
  simp [tail]

theorem reads_last_field {fuel : Nat} {k : σ} {v : Json σ ν} (value : ReadsValue f fuel v) :
    ReadsFields f (fuel + 1) [(k, v)] := by
  intro rest ok enough
  simp only [printFields, List.length_append, List.length_cons] at enough
  have head := value (f.ascii '\x7d' :: rest) ok.1 (Ends.punctuation f (by simp) _) (by omega)
  simp only [printFields, List.append_assoc, List.cons_append]
  rw [readFields, f.readQuote_quote]
  have close : f.ascii '\x7d' ≠ f.ascii ',' := by
    rw [ne_eq, f.ascii_eq_iff (by decide) (by decide)]
    decide
  simp [head, close]

theorem reads_field {fuel : Nat} {k : σ} {v : Json σ ν} {e : σ × Json σ ν}
    {es : List (σ × Json σ ν)} (value : ReadsValue f fuel v)
    (fields : ReadsFields f fuel (e :: es)) : ReadsFields f (fuel + 1) ((k, v) :: e :: es) := by
  intro rest ok enough
  simp only [printFields, List.length_append, List.length_cons] at enough
  have head := value (f.ascii ',' :: (printFields f.toPrinter (e :: es) ++
    f.ascii '\x7d' :: rest)) ok.1 (Ends.punctuation f (by simp) _) (by omega)
  have tail := fields rest ok.2 (by omega)
  simp only [printFields, List.append_assoc, List.cons_append]
  rw [readFields, f.readQuote_quote]
  simp [head, tail]

/-- By the fuel: each constructor takes one of it. -/
theorem read_print (fuel : Nat) :
    (∀ v, ReadsValue f fuel v) ∧ (∀ items, items ≠ [] → ReadsItems f fuel items) ∧
      ∀ fields, fields ≠ [] → ReadsFields f fuel fields := by
  induction fuel with
  | zero =>
    refine ⟨?_, ?_, ?_⟩
    · intro v rest ok _ enough
      obtain ⟨c, tail, head, -⟩ := print_head f ok
      rw [head] at enough
      cases enough
    · intro items _ rest _ enough
      cases enough
    · intro fields _ rest _ enough
      cases enough
  | succ fuel ih =>
    obtain ⟨value, items, fields⟩ := ih
    refine ⟨?_, ?_, ?_⟩
    · intro v
      cases v with
      | null => exact reads_null f fuel
      | bool b => exact reads_bool f fuel b
      | num n => exact reads_num f fuel n
      | str s => exact reads_str f fuel s
      | arr xs => exact reads_arr f (items xs)
      | obj es => exact reads_obj f (fields es)
    · intro xs nonempty
      cases xs with
      | nil => exact absurd rfl nonempty
      | cons x xs =>
        cases xs with
        | nil => exact reads_last_item f (value x)
        | cons y ys => exact reads_item f (value x) (items (y :: ys) (List.cons_ne_nil y ys))
    · intro es nonempty
      cases es with
      | nil => exact absurd rfl nonempty
      | cons e es =>
        cases es with
        | nil => exact reads_last_field f (value e.2)
        | cons d ds => exact reads_field f (value e.2) (fields (d :: ds) (List.cons_ne_nil d ds))

theorem parse_print {v : Json σ ν} (ok : Numbers f.Number v) :
    parse f (print f.toPrinter v) = some v := by
  have back := (read_print f (print f.toPrinter v).length).1 v [] ok (.inl rfl) (Nat.le_refl _)
  rw [List.append_nil] at back
  rw [parse, back]

omit [DecidableEq χ] in
/-- Different values are written differently. -/
theorem print_injective {v w : Json σ ν} (hv : Numbers f.Number v) (hw : Numbers f.Number w)
    (same : print f.toPrinter v = print f.toPrinter w) : v = w := by
  classical
  have back := parse_print f hv
  rw [same, parse_print f hw] at back
  exact (Option.some.inj back).symm

end Json

end Qev
