import Qev.Lib.JsObject
import Qev.Lib.Python
import Qev.Lib.WholeNumber

/-! JSON of Python that is not kept to ASCII, and what a browser reads there:
strings as code units, integers as double precision numbers. -/

namespace Qev.Json

variable {σ ν χ : Type}

mutual
/-- Every string and key in the value satisfies `P`. -/
def Strings (P : σ → Prop) : Json σ ν → Prop
  | str s => P s
  | arr items => StringsItems P items
  | obj fields => StringsFields P fields
  | _ => True
def StringsItems (P : σ → Prop) : List (Json σ ν) → Prop
  | [] => True
  | x :: xs => Strings P x ∧ StringsItems P xs
def StringsFields (P : σ → Prop) : List (σ × Json σ ν) → Prop
  | [] => True
  | (k, v) :: es => P k ∧ Strings P v ∧ StringsFields P es
end

mutual
/-- What holds of all the text holds of the text of every string. -/
theorem strings_of_print {p : Printer σ ν χ} {Q : χ → Prop} :
    ∀ v : Json σ ν, (∀ c ∈ print p v, Q c) → Strings (fun s => ∀ c ∈ p.quote s, Q c) v
  | null, _ | bool _, _ | num _, _ => trivial
  | str _, h => h
  | arr items, h => strings_of_printItems items fun c mem =>
    h c (List.mem_append_left _ (List.mem_cons_of_mem _ mem))
  | obj fields, h => strings_of_printFields fields fun c mem =>
    h c (List.mem_append_left _ (List.mem_cons_of_mem _ mem))
theorem strings_of_printItems {p : Printer σ ν χ} {Q : χ → Prop} : ∀ items : List (Json σ ν),
    (∀ c ∈ printItems p items, Q c) → StringsItems (fun s => ∀ c ∈ p.quote s, Q c) items
  | [], _ => trivial
  | [x], h => ⟨strings_of_print x h, trivial⟩
  | x :: y :: xs, h => by
    rw [printItems, List.forall_mem_append, List.forall_mem_cons] at h
    exact ⟨strings_of_print x h.1, strings_of_printItems (y :: xs) h.2.2⟩
theorem strings_of_printFields {p : Printer σ ν χ} {Q : χ → Prop} :
    ∀ fields : List (σ × Json σ ν), (∀ c ∈ printFields p fields, Q c) →
      StringsFields (fun s => ∀ c ∈ p.quote s, Q c) fields
  | [], _ => trivial
  | [(k, v)], h => by
    rw [printFields, List.forall_mem_append, List.forall_mem_cons] at h
    exact ⟨h.1, strings_of_print v h.2.2, trivial⟩
  | (k, v) :: e :: es, h => by
    rw [printFields, List.forall_mem_append, List.forall_mem_append, List.forall_mem_cons,
      List.forall_mem_cons] at h
    exact ⟨h.1.1, strings_of_print v h.1.2.2, strings_of_printFields (e :: es) h.2.2⟩
end

mutual
theorem Strings.imp {P Q : σ → Prop} (h : ∀ s, P s → Q s) :
    ∀ v : Json σ ν, Strings P v → Strings Q v
  | null, _ | bool _, _ | num _, _ => trivial
  | str s, hs => h s hs
  | arr items, hs => StringsItems.imp h items hs
  | obj fields, hs => StringsFields.imp h fields hs
theorem StringsItems.imp {P Q : σ → Prop} (h : ∀ s, P s → Q s) :
    ∀ items : List (Json σ ν), StringsItems P items → StringsItems Q items
  | [], _ => trivial
  | x :: xs, hs => ⟨Strings.imp h x hs.1, StringsItems.imp h xs hs.2⟩
theorem StringsFields.imp {P Q : σ → Prop} (h : ∀ s, P s → Q s) :
    ∀ fields : List (σ × Json σ ν), StringsFields P fields → StringsFields Q fields
  | [], _ => trivial
  | (k, v) :: es, hs => ⟨h k hs.1, Strings.imp h v hs.2.1, StringsFields.imp h es hs.2.2⟩
end

theorem stringsFields_iff {P : σ → Prop} {fields : List (σ × Json σ ν)} :
    StringsFields P fields ↔ ∀ f ∈ fields, P f.1 ∧ Strings P f.2 := by
  induction fields with
  | nil => simp [StringsFields]
  | cons f fields ih => simp [StringsFields, ih, and_assoc]

end Qev.Json

namespace Qev.Py

open Js (JsString)

/-! ## json.dumps with ensure_ascii off -/

def escapeChar (c : CodePoint) : Str :=
  if c = cp '"' then py "\\\""
  else if c = cp '\\' then py "\\\\"
  else if c = cp '\n' then py "\\n"
  else if c = cp '\r' then py "\\r"
  else if c = cp '\t' then py "\\t"
  else if c.val = 0x0C then py "\\f"
  else if c.val = 0x08 then py "\\b"
  else if c.val < 0x20 then unicodeEscape c.val
  else [c]

def quoteRaw (s : Str) : Str := cp '"' :: s.flatMap escapeChar ++ [cp '"']

def rawPrinter : Json.Printer Str ℤ CodePoint := ⟨cp, quoteRaw, fun n => py (toString n)⟩

/-- `json.dumps` with sorted keys, no white space and `ensure_ascii=False`. -/
def dumpsRaw (v : Value) : Str := Json.print rawPrinter v.sortKeys

def newline (depth : Nat) : Str := cp '\n' :: List.replicate (2 * depth) (cp ' ')

/-- The closing bracket has a line of its own, where anything is inside. -/
def closing (depth : Nat) (empty : Bool) : Str := if empty then [] else newline depth

mutual
def pretty (depth : Nat) : Value → Str
  | .arr items =>
    cp '[' :: prettyItems (depth + 1) items ++ closing depth items.isEmpty ++ [cp ']']
  | .obj fields =>
    cp '\x7b' :: prettyFields (depth + 1) fields ++ closing depth fields.isEmpty ++ [cp '\x7d']
  | .null => Json.print rawPrinter .null
  | .bool b => Json.print rawPrinter (.bool b)
  | .num n => Json.print rawPrinter (.num n)
  | .str s => Json.print rawPrinter (.str s)
def prettyItems (depth : Nat) : List Value → Str
  | [] => []
  | [x] => newline depth ++ pretty depth x
  | x :: y :: xs => newline depth ++ pretty depth x ++ cp ',' :: prettyItems depth (y :: xs)
def prettyFields (depth : Nat) : List (Str × Value) → Str
  | [] => []
  | [(k, v)] => newline depth ++ quoteRaw k ++ cp ':' :: cp ' ' :: pretty depth v
  | (k, v) :: e :: es =>
    newline depth ++ quoteRaw k ++ cp ':' :: cp ' ' :: pretty depth v ++
      cp ',' :: prettyFields depth (e :: es)
end

/-- `json.dumps` with an indent of two and `ensure_ascii=False`. -/
def dumpsIndented (v : Value) : Str := pretty 0 v

/-! ## Dictionaries -/

section Dictionaries

variable {α : Type}

/-- `d[key] = value`. -/
def setItem (key : Str) (value : α) : List (Str × α) → List (Str × α)
  | [] => [(key, value)]
  | (k, v) :: es => if k = key then (k, value) :: es else (k, v) :: setItem key value es

/-- `d.get(key)`. -/
def getItem (key : Str) : List (Str × α) → Option α
  | [] => none
  | (k, v) :: es => if k = key then some v else getItem key es

theorem getItem_setItem (key k : Str) (value : α) (items : List (Str × α)) :
    getItem k (setItem key value items) = if k = key then some value else getItem k items := by
  induction items with
  | nil =>
    rw [setItem, getItem]
    simp only [getItem, eq_comm]
  | cons f items ih =>
    rw [setItem]
    by_cases here : f.1 = key
    · rw [if_pos here, getItem, getItem, here]
      simp only [eq_comm (a := key)]
      split <;> rfl
    · rw [if_neg here, getItem, ih, getItem]
      by_cases same : k = key
      · rw [if_pos same, same, if_neg here, if_pos rfl]
      · rw [if_neg same, if_neg same]

theorem mem_of_getItem {key : Str} {value : α} {items : List (Str × α)}
    (found : getItem key items = some value) : (key, value) ∈ items := by
  induction items with
  | nil => cases found
  | cons f items ih =>
    rw [getItem] at found
    split_ifs at found with here
    · cases found
      rw [← here]
      exact List.mem_cons_self
    · exact List.mem_cons_of_mem _ (ih found)

theorem mem_setItem {key : Str} {value : α} {items : List (Str × α)} {f : Str × α}
    (mem : f ∈ setItem key value items) : f = (key, value) ∨ f ∈ items := by
  induction items with
  | nil => exact .inl (List.mem_singleton.mp mem)
  | cons g items ih =>
    rw [setItem] at mem
    split_ifs at mem with here
    · rcases List.mem_cons.mp mem with rfl | later
      · exact .inl (congrArg (·, value) here)
      · exact .inr (List.mem_cons_of_mem _ later)
    · rcases List.mem_cons.mp mem with rfl | later
      · exact .inr List.mem_cons_self
      · exact (ih later).imp id (List.mem_cons_of_mem _)

theorem nodup_setItem {key : Str} {value : α} {items : List (Str × α)}
    (nodup : (items.map Prod.fst).Nodup) : ((setItem key value items).map Prod.fst).Nodup := by
  induction items with
  | nil => exact List.nodup_singleton _
  | cons g items ih =>
    obtain ⟨first, later⟩ := List.nodup_cons.mp nodup
    rw [setItem]
    split_ifs with here
    · exact List.nodup_cons.mpr ⟨first, later⟩
    · refine List.nodup_cons.mpr ⟨fun mem => ?_, ih later⟩
      obtain ⟨f, inside, same⟩ := List.mem_map.mp mem
      rcases mem_setItem inside with rfl | old
      · exact here same.symm
      · exact first (same ▸ List.mem_map_of_mem old)

/-- A dictionary of items, one after the other. -/
def dict (items : List (Str × α)) : List (Str × α) :=
  items.foldl (fun d f => setItem f.1 f.2 d) []

theorem setItem_fresh {key : Str} {value : α} {items : List (Str × α)}
    (fresh : key ∉ items.map Prod.fst) : setItem key value items = items ++ [(key, value)] := by
  induction items with
  | nil => rfl
  | cons f items ih =>
    rw [List.map_cons, List.mem_cons, not_or] at fresh
    rw [setItem, if_neg (Ne.symm fresh.1), ih fresh.2, List.cons_append]

theorem dict_of_nodup {items : List (Str × α)} (nodup : (items.map Prod.fst).Nodup) :
    dict items = items := by
  induction items using List.reverseRecOn with
  | nil => rfl
  | append_singleton items f ih =>
    rw [List.map_append, List.nodup_append] at nodup
    obtain ⟨earlier, -, apart⟩ := nodup
    have one : dict (items ++ [f]) = setItem f.1 f.2 (dict items) := by
      rw [dict, List.foldl_append]
      rfl
    rw [one, ih earlier]
    exact setItem_fresh fun mem => apart _ mem _ (List.mem_singleton_self _) rfl

end Dictionaries

/-! ## Code units -/

/-- The code units of one code point, a surrogate among them. -/
def unitsOf (c : CodePoint) : JsString :=
  if c.val < 0x10000 then [UInt16.ofNat c.val]
  else
    [UInt16.ofNat (0xD800 + (c.val - 0x10000) / 0x400),
      UInt16.ofNat (0xDC00 + (c.val - 0x10000) % 0x400)]

def units (s : Str) : JsString := s.flatMap unitsOf

/-- A code point that is no surrogate. -/
def Scalar (c : CodePoint) : Prop := c.val < 0xD800 ∨ 0xE000 ≤ c.val

instance (c : CodePoint) : Decidable (Scalar c) := inferInstanceAs (Decidable (_ ∨ _))

def Clean (s : Str) : Prop := ∀ c ∈ s, Scalar c

instance (s : Str) : Decidable (Clean s) := inferInstanceAs (Decidable (∀ c ∈ s, Scalar c))

theorem units_append (s t : Str) : units (s ++ t) = units s ++ units t := List.flatMap_append

theorem units_ascii {c : Char} (small : c.toNat < 128) (s : Str) :
    units (cp c :: s) = Js.ascii c :: units s := by
  have basic : (cp c).val < 0x10000 := by
    change c.toNat < _
    omega
  rw [units, List.flatMap_cons, unitsOf, if_pos basic]
  rfl

theorem cp_injective {a b : Char} (same : cp a = cp b) : a = b := by
  have codes : (cp a).val = (cp b).val := congrArg Fin.val same
  exact Char.toNat_inj.mp codes

@[simp] theorem py_inj {a b : String} : py a = py b ↔ a = b :=
  ⟨fun h => String.toList_injective (List.map_injective_iff.mpr (fun _ _ => cp_injective) h),
    congrArg py⟩

theorem units_map_cp (cs : List Char) : units (cs.map cp) = Utf16.encode cs := by
  rw [units, List.flatMap_map]
  rfl

theorem units_py (s : String) : units (py s) = Js.js s := units_map_cp _

theorem length_le_units (s : Str) : s.length ≤ (units s).length := by
  induction s with
  | nil => exact Nat.le_refl _
  | cons c s ih =>
    have one : 1 ≤ (unitsOf c).length := by
      rw [unitsOf]
      split <;> simp
    rw [units, List.flatMap_cons, List.length_append, List.length_cons]
    rw [units] at ih
    omega

theorem toChar_cp (c : Char) : toChar? (cp c) = some c := by
  have valid : Nat.isValidChar (cp c).val := c.valid
  rw [toChar?, dif_pos valid]
  rfl

theorem cp_of_toChar {c : CodePoint} {ch : Char} (h : toChar? c = some ch) : cp ch = c := by
  rw [toChar?] at h
  by_cases valid : Nat.isValidChar c.val
  · rw [dif_pos valid] at h
    cases h
    rfl
  · rw [dif_neg valid] at h
    cases h

theorem scalar_cp (c : Char) : Scalar (cp c) := Utf16.char_not_surrogate c

theorem cp_of_scalar {c : CodePoint} (h : Scalar c) : ∃ ch, cp ch = c := by
  have bound := c.isLt
  have valid : Nat.isValidChar c.val := by
    rcases h with low | high
    · exact .inl low
    · exact .inr ⟨by omega, bound⟩
  exact ⟨Char.ofNatAux c.val valid, rfl⟩

theorem map_cp_of_clean {s : Str} (clean : Clean s) : ∃ cs : List Char, cs.map cp = s := by
  induction s with
  | nil => exact ⟨[], rfl⟩
  | cons c s ih =>
    rw [Clean, List.forall_mem_cons] at clean
    obtain ⟨ch, rfl⟩ := cp_of_scalar clean.1
    obtain ⟨cs, rfl⟩ := ih clean.2
    exact ⟨ch :: cs, rfl⟩

theorem clean_map_cp (cs : List Char) : Clean (cs.map cp) := by
  intro c mem
  obtain ⟨ch, -, rfl⟩ := List.mem_map.mp mem
  exact scalar_cp ch

theorem clean_py (s : String) : Clean (py s) := clean_map_cp _

theorem Clean.append {s t : Str} (hs : Clean s) (ht : Clean t) : Clean (s ++ t) :=
  List.forall_mem_append.mpr ⟨hs, ht⟩

theorem encode_map_cp (cs : List Char) : encode (cs.map cp) = some (Utf8.encode cs) := by
  have chars : (cs.map cp).mapM toChar? = some cs := by
    induction cs with
    | nil => rfl
    | cons c cs ih => simp [List.mapM_cons, toChar_cp, ih]
  rw [encode, chars]
  rfl

theorem encode_of_clean {s : Str} (clean : Clean s) : ∃ bytes, encode s = some bytes := by
  obtain ⟨cs, rfl⟩ := map_cp_of_clean clean
  exact ⟨_, encode_map_cp cs⟩

/-- Text with a surrogate in it has no encoding. -/
theorem encode_eq_some {s : Str} {bytes : Bytes} (h : encode s = some bytes) :
    ∃ cs : List Char, s = cs.map cp ∧ bytes = Utf8.encode cs := by
  obtain ⟨cs, chars, rfl⟩ := Option.map_eq_some_iff.mp h
  refine ⟨cs, ?_, rfl⟩
  clear h
  induction s generalizing cs with
  | nil =>
    cases chars
    rfl
  | cons c s ih =>
    rw [List.mapM_cons, Option.bind_eq_bind, Option.bind_eq_some_iff] at chars
    obtain ⟨ch, first, chars⟩ := chars
    obtain ⟨rest, later, same⟩ := Option.bind_eq_some_iff.mp chars
    cases same
    rw [List.map_cons, ← ih rest later, cp_of_toChar first]

theorem units_injective {s t : Str} (hs : Clean s) (ht : Clean t) (same : units s = units t) :
    s = t := by
  obtain ⟨cs, rfl⟩ := map_cp_of_clean hs
  obtain ⟨ds, rfl⟩ := map_cp_of_clean ht
  rw [units_map_cp, units_map_cp] at same
  rw [Utf16.encode_injective same]

/-! ## The same text from both -/

theorem units_escapeChar_small : ∀ n, (h : n < 0x5D) →
    units (escapeChar ⟨n, h.trans (by decide)⟩) = Js.quoteUnit (UInt16.ofNat n) := by
  decide

/-- A code point that one unit holds is escaped the same. -/
theorem units_escapeChar {c : CodePoint} (basic : c.val < 0x10000) (scalar : Scalar c) :
    units (escapeChar c) = Js.quoteUnit (UInt16.ofNat c.val) := by
  obtain ⟨n, bound⟩ := c
  change n < 0x10000 at basic
  rcases Nat.lt_or_ge n 0x5D with small | large
  · exact units_escapeChar_small n small
  · have value : (UInt16.ofNat n).toNat = n := Utf16.toNat_ofNat basic
    have other {m : Nat} (h : m < 0x5D) (hm : m < 0x110000) :
        (⟨n, bound⟩ : CodePoint) ≠ ⟨m, hm⟩ := by
      rw [ne_eq, Fin.mk.injEq]
      omega
    have other' {u : UInt16} (h : u.toNat < 0x5D) : UInt16.ofNat n ≠ u := by
      rintro rfl
      omega
    have plain : ¬ ((UInt16.ofNat n).toNat < 0x20 ∨ Utf16.isHigh (UInt16.ofNat n) = true ∨
        Utf16.isLow (UInt16.ofNat n) = true) := by
      change n < 0xD800 ∨ 0xE000 ≤ n at scalar
      simp only [value, Utf16.isHigh, Utf16.isLow, Bool.and_eq_true, decide_eq_true_eq]
      omega
    have raw : escapeChar ⟨n, bound⟩ = [⟨n, bound⟩] := by
      rw [escapeChar, if_neg (other (by decide) _), if_neg (other (by decide) _),
        if_neg (other (by decide) _), if_neg (other (by decide) _), if_neg (other (by decide) _),
        if_neg (by dsimp only; omega), if_neg (by dsimp only; omega),
        if_neg (by dsimp only; omega)]
    rw [raw, Js.quoteUnit, if_neg (other' (by decide)), if_neg (other' (by decide)),
      if_neg (other' (by decide)), if_neg (other' (by decide)), if_neg (other' (by decide)),
      if_neg (other' (by decide)), if_neg (other' (by decide)), if_neg plain, units,
      List.flatMap_singleton, unitsOf, if_pos basic]

theorem quoteUnits_single {u : UInt16} (alone : Utf16.isHigh u = false) (rest : JsString) :
    Js.quoteUnits (u :: rest) = Js.quoteUnit u ++ Js.quoteUnits rest := by
  cases rest with
  | nil => rw [Js.quoteUnits, Js.quoteUnits, List.append_nil]
  | cons v rest => rw [Js.quoteUnits, alone, if_neg (by simp)]

theorem units_escapeAll {s : Str} (clean : Clean s) :
    units (s.flatMap escapeChar) = Js.quoteUnits (units s) := by
  induction s with
  | nil => rfl
  | cons c s ih =>
    rw [Clean, List.forall_mem_cons] at clean
    have bound := c.isLt
    rw [List.flatMap_cons, units_append, ih clean.2]
    rcases Nat.lt_or_ge c.val 0x10000 with basic | wide
    · have value := Utf16.toNat_ofNat basic
      have alone : Utf16.isHigh (UInt16.ofNat c.val) = false := by
        have scalar : c.val < 0xD800 ∨ 0xE000 ≤ c.val := clean.1
        simp only [Utf16.isHigh, value, Bool.and_eq_false_iff, decide_eq_false_iff_not]
        omega
      have head : units (c :: s) = UInt16.ofNat c.val :: units s := by
        rw [units, List.flatMap_cons, unitsOf, if_pos basic]
        rfl
      rw [units_escapeChar basic clean.1, head, quoteUnits_single alone]
    · -- a pair of surrogates stands in the text as it is
      have raw : escapeChar c = [c] := by
        have other {d : CodePoint} (h : d.val < 0x10000) : c ≠ d := by
          rintro rfl
          omega
        rw [escapeChar, if_neg (other (by decide)), if_neg (other (by decide)),
          if_neg (other (by decide)), if_neg (other (by decide)), if_neg (other (by decide)),
          if_neg (by omega), if_neg (by omega), if_neg (by omega)]
      have pair : unitsOf c = [UInt16.ofNat (0xD800 + (c.val - 0x10000) / 0x400),
          UInt16.ofNat (0xDC00 + (c.val - 0x10000) % 0x400)] := by
        rw [unitsOf, if_neg (Nat.not_lt.mpr wide)]
      have halves : Utf16.isHigh (UInt16.ofNat (0xD800 + (c.val - 0x10000) / 0x400)) = true ∧
          Utf16.isLow (UInt16.ofNat (0xDC00 + (c.val - 0x10000) % 0x400)) = true := by
        simp only [Utf16.isHigh, Utf16.isLow, Bool.and_eq_true, decide_eq_true_eq,
          Utf16.toNat_ofNat (show 0xD800 + (c.val - 0x10000) / 0x400 < 0x10000 by omega),
          Utf16.toNat_ofNat (show 0xDC00 + (c.val - 0x10000) % 0x400 < 0x10000 by omega)]
        omega
      have one : units [c] = unitsOf c := List.flatMap_singleton unitsOf c
      have both : units (c :: s) = unitsOf c ++ units s := List.flatMap_cons
      rw [raw, one, both, pair, List.cons_append, List.cons_append, List.nil_append,
        List.cons_append, List.cons_append, List.nil_append, Js.quoteUnits, if_pos halves]

theorem units_quoteRaw {s : Str} (clean : Clean s) : units (quoteRaw s) = Js.quote (units s) := by
  have quotation : Js.ascii '"' = 0x22 := by decide
  rw [quoteRaw, List.cons_append, units_ascii (by decide), units_append, units_escapeAll clean,
    units_ascii (by decide), quotation]
  rfl

/-- A surrogate stands in the text as it is. -/
theorem clean_of_quoteRaw {s : Str} (h : ∀ c ∈ quoteRaw s, Scalar c) : Clean s := by
  intro c mem
  by_contra surrogate
  have large : 0xD800 ≤ c.val := by
    rw [Scalar, not_or] at surrogate
    omega
  have other {d : CodePoint} (h : d.val < 0xD800) : c ≠ d := by
    rintro rfl
    omega
  have raw : escapeChar c = [c] := by
    rw [escapeChar, if_neg (other (by decide)), if_neg (other (by decide)),
      if_neg (other (by decide)), if_neg (other (by decide)), if_neg (other (by decide)),
      if_neg (by omega), if_neg (by omega), if_neg (by omega)]
  apply surrogate
  apply h c
  apply List.mem_append_left
  exact List.mem_cons_of_mem _ (List.mem_flatMap.mpr ⟨c, mem, raw ▸ List.mem_singleton_self c⟩)

/-- The strings of a value whose text is encoded. -/
theorem clean_of_print {v : Value} (h : ∀ c ∈ Json.print rawPrinter v, Scalar c) :
    v.Strings Clean :=
  Json.Strings.imp (fun _ => clean_of_quoteRaw) v (Json.strings_of_print v h)

theorem clean_unicodeEscape (n : Nat) : Clean (unicodeEscape n) :=
  clean_map_cp ['\\', 'u', Hex.digit (n / 0x1000), Hex.digit (n / 0x100 % 16),
    Hex.digit (n / 16 % 16), Hex.digit (n % 16)]

theorem clean_escapeChar {c : CodePoint} (scalar : Scalar c) : Clean (escapeChar c) := by
  unfold escapeChar
  split_ifs
  iterate 7 exact clean_py _
  · exact clean_unicodeEscape c.val
  · exact List.forall_mem_singleton.mpr scalar

theorem Clean.cons {s : Str} (c : Char) (hs : Clean s) : Clean (cp c :: s) :=
  List.forall_mem_cons.mpr ⟨scalar_cp c, hs⟩

theorem clean_quoteRaw {s : Str} (clean : Clean s) : Clean (quoteRaw s) := by
  refine Clean.cons '"' (Clean.append ?_ (Clean.cons '"' (List.forall_mem_nil _)))
  intro c mem
  obtain ⟨d, inside, here⟩ := List.mem_flatMap.mp mem
  exact clean_escapeChar (clean d inside) c here

mutual
theorem clean_print : ∀ v : Value, v.Strings Clean → Clean (Json.print rawPrinter v)
  | .null, _ => clean_py "null"
  | .bool b, _ => clean_py (if b then "true" else "false")
  | .num n, _ => clean_py (toString n)
  | .str _, h => clean_quoteRaw h
  | .arr items, h =>
    (clean_printItems items h).append (Clean.cons ']' (List.forall_mem_nil _)) |>.cons '['
  | .obj fields, h =>
    (clean_printFields fields h).append (Clean.cons '\x7d' (List.forall_mem_nil _)) |>.cons '\x7b'
theorem clean_printItems : ∀ items : List Value, Json.StringsItems Clean items →
    Clean (Json.printItems rawPrinter items)
  | [], _ => List.forall_mem_nil _
  | [x], h => clean_print x h.1
  | x :: y :: xs, h => (clean_print x h.1).append ((clean_printItems (y :: xs) h.2).cons ',')
theorem clean_printFields : ∀ fields : List (Str × Value), Json.StringsFields Clean fields →
    Clean (Json.printFields rawPrinter fields)
  | [], _ => List.forall_mem_nil _
  | [(_, v)], h => (clean_quoteRaw h.1).append ((clean_print v h.2.1).cons ':')
  | (_, v) :: e :: es, h =>
    ((clean_quoteRaw h.1).append ((clean_print v h.2.1).cons ':')).append
      ((clean_printFields (e :: es) h.2.2).cons ',')
end

theorem clean_newline (depth : Nat) : Clean (newline depth) := by
  refine Clean.cons '\n' fun c mem => ?_
  rw [List.eq_of_mem_replicate mem]
  exact scalar_cp ' '

theorem clean_closing (depth : Nat) (empty : Bool) : Clean (closing depth empty) := by
  cases empty with
  | true => exact List.forall_mem_nil _
  | false => exact clean_newline depth

mutual
theorem clean_pretty (depth : Nat) : ∀ v : Value, v.Strings Clean → Clean (pretty depth v)
  | .null, h => clean_print .null h
  | .bool b, h => clean_print (.bool b) h
  | .num n, h => clean_print (.num n) h
  | .str s, h => clean_print (.str s) h
  | .arr items, h =>
    ((clean_prettyItems (depth + 1) items h).append (clean_closing depth items.isEmpty)).append
      (Clean.cons ']' (List.forall_mem_nil _)) |>.cons '['
  | .obj fields, h =>
    ((clean_prettyFields (depth + 1) fields h).append (clean_closing depth fields.isEmpty)).append
      (Clean.cons '\x7d' (List.forall_mem_nil _)) |>.cons '\x7b'
theorem clean_prettyItems (depth : Nat) : ∀ items : List Value, Json.StringsItems Clean items →
    Clean (prettyItems depth items)
  | [], _ => List.forall_mem_nil _
  | [x], h => (clean_newline depth).append (clean_pretty depth x h.1)
  | x :: y :: xs, h =>
    ((clean_newline depth).append (clean_pretty depth x h.1)).append
      ((clean_prettyItems depth (y :: xs) h.2).cons ',')
theorem clean_prettyFields (depth : Nat) : ∀ fields : List (Str × Value),
    Json.StringsFields Clean fields → Clean (prettyFields depth fields)
  | [], _ => List.forall_mem_nil _
  | [(_, v)], h =>
    ((clean_newline depth).append (clean_quoteRaw h.1)).append
      (((clean_pretty depth v h.2.1).cons ' ').cons ':')
  | (_, v) :: e :: es, h =>
    (((clean_newline depth).append (clean_quoteRaw h.1)).append
      (((clean_pretty depth v h.2.1).cons ' ').cons ':')).append
      ((clean_prettyFields depth (e :: es) h.2.2).cons ',')
end

theorem units_word {s : String} (small : s.toList.all (·.toNat < 128) = true) :
    units (py s) = Js.printer.word s := by
  rw [py, Json.Printer.word]
  generalize s.toList = cs at small
  induction cs with
  | nil => rfl
  | cons c cs ih =>
    simp only [List.all_cons, Bool.and_eq_true, decide_eq_true_eq] at small
    rw [List.map_cons, units_ascii small.1, ih small.2, List.map_cons]
    rfl

/-! ## What a browser reads -/

mutual
/-- The value with its strings and numbers as ECMAScript has them. -/
def toJs : Value → Js.Value
  | .null => .null
  | .bool b => .bool b
  | .num n => .num (Double.ofMagnitude (n < 0) n.natAbs)
  | .str s => .str (units s)
  | .arr items => .arr (toJsItems items)
  | .obj fields => .obj (toJsFields fields)
def toJsItems : List Value → List Js.Value
  | [] => []
  | x :: xs => toJs x :: toJsItems xs
def toJsFields : List (Str × Value) → List (JsString × Js.Value)
  | [] => []
  | (k, v) :: es => (units k, toJs v) :: toJsFields es
end

theorem toJsFields_eq (fields : List (Str × Value)) :
    toJsFields fields = fields.map fun f => (units f.1, toJs f.2) := by
  induction fields with
  | nil => rfl
  | cons f fields ih => rw [toJsFields, ih, List.map_cons]

/-- The integers that double precision holds and writes exactly. -/
def Exact (n : ℤ) : Prop := 0 ≤ n ∧ n < 2 ^ 53

/-- Values that are written alike. -/
def Legible (v : Value) : Prop := v.Strings Clean ∧ v.Numbers Exact

theorem exact_number {n : ℤ} (exact : Exact n) :
    Js.Plain (Double.ofMagnitude (n < 0) n.natAbs) ∧
      units (py (toString n)) = Js.number (Double.ofMagnitude (n < 0) n.natAbs) := by
  obtain ⟨k, rfl⟩ := Int.eq_ofNat_of_zero_le exact.1
  have small : k < 2 ^ 53 := by
    have := exact.2
    omega
  have sign : decide ((k : ℤ) < 0) = false := decide_eq_false (by omega)
  obtain ⟨bits, held, text⟩ := Double.toString_ofNat small
  have same : Double.ofMagnitude (decide ((k : ℤ) < 0)) ((k : ℤ).natAbs : ℚ) = Double.ofNat k := by
    rw [sign, Int.natAbs_natCast]
    rfl
  have digits : (toString (k : ℤ)).toList = Nat.toDigits 10 k := by
    change (Nat.repr k).toList = _
    rw [Nat.repr, String.toList_ofList]
  rw [same]
  refine ⟨⟨false, bits, held, fun _ => rfl⟩, ?_⟩
  rw [Js.number_plain ⟨false, bits, held, fun _ => rfl⟩, text, ← digits]
  apply units_word
  rw [digits, List.all_eq_true]
  intro c mem
  exact decide_eq_true (Json.isDigit_lt (Double.isDigit_toDigits k c mem))

theorem units_printNumber {n : ℤ} (exact : Exact n) :
    units (Json.print rawPrinter (.num n)) = Json.print Js.printer (toJs (.num n)) := by
  rw [toJs, Json.print, Json.print]
  exact (exact_number exact).2

mutual
theorem units_print : ∀ v : Value, Legible v →
    units (Json.print rawPrinter v) = Json.print Js.printer (toJs v)
  | .null, _ => units_word (s := "null") (by decide)
  | .bool true, _ => units_word (s := "true") (by decide)
  | .bool false, _ => units_word (s := "false") (by decide)
  | .num _, h => units_printNumber h.2
  | .str _, h => units_quoteRaw h.1
  | .arr items, h => by
    have inner := units_printItems items h.1 h.2
    simp only [toJs, Json.print, rawPrinter, List.cons_append] at inner ⊢
    rw [units_ascii (by decide), units_append, inner, units_ascii (by decide)]
    rfl
  | .obj fields, h => by
    have inner := units_printFields fields h.1 h.2
    simp only [toJs, Json.print, rawPrinter, List.cons_append] at inner ⊢
    rw [units_ascii (by decide), units_append, inner, units_ascii (by decide)]
    rfl
theorem units_printItems : ∀ items : List Value,
    Json.StringsItems Clean items → Json.NumbersItems Exact items →
      units (Json.printItems rawPrinter items) = Json.printItems Js.printer (toJsItems items)
  | [], _, _ => rfl
  | [x], hs, hn => units_print x ⟨hs.1, hn.1⟩
  | x :: y :: xs, hs, hn => by
    have first := units_print x ⟨hs.1, hn.1⟩
    have later := units_printItems (y :: xs) hs.2 hn.2
    simp only [toJsItems, Json.printItems, rawPrinter] at first later ⊢
    rw [units_append, first, units_ascii (by decide), later]
    rfl
theorem units_printFields : ∀ fields : List (Str × Value),
    Json.StringsFields Clean fields → Json.NumbersFields Exact fields →
      units (Json.printFields rawPrinter fields) = Json.printFields Js.printer (toJsFields fields)
  | [], _, _ => rfl
  | [(k, v)], hs, hn => by
    have value := units_print v ⟨hs.2.1, hn.1⟩
    simp only [toJsFields, Json.printFields, rawPrinter] at value ⊢
    rw [units_append, units_quoteRaw hs.1, units_ascii (by decide), value]
    rfl
  | (k, v) :: (k', v') :: es, hs, hn => by
    have value := units_print v ⟨hs.2.1, hn.1⟩
    have later := units_printFields ((k', v') :: es) hs.2.2 hn.2
    simp only [toJsFields, Json.printFields, rawPrinter, List.append_assoc,
      List.cons_append] at value later ⊢
    rw [units_append, units_quoteRaw hs.1, units_ascii (by decide), units_append, value,
      units_ascii (by decide), later]
    rfl
end

theorem units_newline (depth : Nat) (s : Str) :
    units (newline depth ++ s) = Js.newline depth ++ units s := by
  have spaces (n : Nat) : units (List.replicate n (cp ' ')) = List.replicate n 0x20 := by
    induction n with
    | zero => rfl
    | succ n ih =>
      rw [List.replicate_succ, units_ascii (by decide), ih, List.replicate_succ]
      rfl
  rw [units_append, newline, units_ascii (by decide), spaces]
  rfl

theorem units_closing (depth : Nat) (empty : Bool) (s : Str) :
    units (closing depth empty ++ s) = Js.closing depth empty ++ units s := by
  cases empty with
  | true => rfl
  | false => exact units_newline depth s

theorem isEmpty_toJsItems (items : List Value) : (toJsItems items).isEmpty = items.isEmpty := by
  cases items <;> rfl

theorem isEmpty_toJsFields (fields : List (Str × Value)) :
    (toJsFields fields).isEmpty = fields.isEmpty := by
  cases fields <;> rfl

mutual
theorem units_pretty (depth : Nat) : ∀ v : Value, Legible v →
    units (pretty depth v) = Js.pretty depth (toJs v)
  | .null, h => units_print .null h
  | .bool b, h => units_print (.bool b) h
  | .num n, h => units_print (.num n) h
  | .str s, h => units_print (.str s) h
  | .arr items, h => by
    simp only [pretty, toJs, Js.pretty, List.append_assoc, List.cons_append]
    rw [units_ascii (by decide), units_append, units_prettyItems (depth + 1) items h.1 h.2,
      units_closing, isEmpty_toJsItems]
    rfl
  | .obj fields, h => by
    simp only [pretty, toJs, Js.pretty, List.append_assoc, List.cons_append]
    rw [units_ascii (by decide), units_append, units_prettyFields (depth + 1) fields h.1 h.2,
      units_closing, isEmpty_toJsFields]
    rfl
theorem units_prettyItems (depth : Nat) : ∀ items : List Value,
    Json.StringsItems Clean items → Json.NumbersItems Exact items →
      units (prettyItems depth items) = Js.prettyItems depth (toJsItems items)
  | [], _, _ => rfl
  | [x], hs, hn => by
    rw [prettyItems, units_newline, units_pretty depth x ⟨hs.1, hn.1⟩]
    rfl
  | x :: y :: xs, hs, hn => by
    have later := units_prettyItems depth (y :: xs) hs.2 hn.2
    simp only [prettyItems, toJsItems, Js.prettyItems, List.append_assoc] at later ⊢
    rw [units_newline, units_append, units_pretty depth x ⟨hs.1, hn.1⟩, units_ascii (by decide),
      later]
theorem units_prettyFields (depth : Nat) : ∀ fields : List (Str × Value),
    Json.StringsFields Clean fields → Json.NumbersFields Exact fields →
      units (prettyFields depth fields) = Js.prettyFields depth (toJsFields fields)
  | [], _, _ => rfl
  | [(k, v)], hs, hn => by
    simp only [prettyFields, toJsFields, Js.prettyFields, List.append_assoc]
    rw [units_newline, units_append, units_quoteRaw hs.1, units_ascii (by decide),
      units_ascii (by decide), units_pretty depth v ⟨hs.2.1, hn.1⟩]
  | (k, v) :: (k', v') :: es, hs, hn => by
    have later := units_prettyFields depth ((k', v') :: es) hs.2.2 hn.2
    simp only [prettyFields, toJsFields, Js.prettyFields, List.append_assoc,
      List.cons_append] at later ⊢
    rw [units_newline, units_append, units_quoteRaw hs.1, units_ascii (by decide),
      units_ascii (by decide), units_append, units_pretty depth v ⟨hs.2.1, hn.1⟩,
      units_ascii (by decide), later]
end

theorem length_le_prettyFields (depth : Nat) (fields : List (Str × Value)) :
    fields.length ≤ (prettyFields depth fields).length := by
  induction fields with
  | nil => exact Nat.le_refl _
  | cons f fields ih =>
    obtain ⟨k, v⟩ := f
    cases fields with
    | nil =>
      simp only [prettyFields, List.length_append, List.length_cons, List.length_nil]
      omega
    | cons g fields =>
      simp only [prettyFields, List.length_append, List.length_cons] at ih ⊢
      omega

theorem length_pretty_le {depth : Nat} {fields : List (Str × Value)} {f : Str × Value}
    (mem : f ∈ fields) : (pretty depth f.2).length ≤ (prettyFields depth fields).length := by
  induction fields with
  | nil => cases mem
  | cons g fields ih =>
    obtain ⟨k, v⟩ := g
    cases fields with
    | nil =>
      rw [List.mem_singleton.mp mem]
      simp only [prettyFields, List.length_append, List.length_cons]
      omega
    | cons g fields =>
      simp only [prettyFields, List.length_append, List.length_cons]
      rcases List.mem_cons.mp mem with rfl | later
      · dsimp only
        omega
      · have := ih later
        omega

mutual
theorem numbers_toJs : ∀ v : Value, v.Numbers Exact → (toJs v).Numbers Js.Plain
  | .null, _ | .bool _, _ | .str _, _ => trivial
  | .num _, h => (exact_number h).1
  | .arr items, h => numbers_toJsItems items h
  | .obj fields, h => numbers_toJsFields fields h
theorem numbers_toJsItems : ∀ items : List Value,
    Json.NumbersItems Exact items → Json.NumbersItems Js.Plain (toJsItems items)
  | [], _ => trivial
  | x :: xs, h => ⟨numbers_toJs x h.1, numbers_toJsItems xs h.2⟩
theorem numbers_toJsFields : ∀ fields : List (Str × Value),
    Json.NumbersFields Exact fields → Json.NumbersFields Js.Plain (toJsFields fields)
  | [], _ => trivial
  | (_, v) :: es, h => ⟨numbers_toJs v h.1, numbers_toJsFields es h.2⟩
end

/-- The indented text is read as the objects that its fields make. -/
theorem parseJson_dumpsIndented {v : Value} (legible : Legible v) {space : JsString}
    (trailing : ∀ u ∈ space, Js.isSpace u = true) :
    Js.parseJson (units (dumpsIndented v) ++ space) = some (Js.objects (toJs v)) := by
  rw [dumpsIndented, units_pretty 0 v legible, Js.parseJson]
  have back := Js.parse_indented (toJs v) trailing
  rw [Js.stringify, Js.written_eq_self _ (numbers_toJs v legible.2)] at back
  rw [back]
  rfl

end Qev.Py
