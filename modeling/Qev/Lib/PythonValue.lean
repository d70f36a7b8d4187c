import Qev.Lib.Decimal
import Qev.Lib.JsonOrder
import Qev.Lib.JsonUnambiguous
import Qev.Lib.PythonJson

/-! The values that `json.loads` makes, floats among them, and what `json.dumps`
writes for them: different text for different values. -/

namespace Qev.Py

open Double (Decimal exponentText printSign readExponent readMagnitude shortest)
open Js (JsString)

/-! ## Numbers -/

inductive Num where
  | int (n : ℤ)
  | float (x : Double)

/-- An exponent of two digits at least. -/
def exponentDigits (e : ℤ) : List Char :=
  'e' :: (if e < 0 then '-' else '+') ::
    (if e.natAbs < 10 then '0' :: Nat.toDigits 10 e.natAbs else Nat.toDigits 10 e.natAbs)

/-- The layout of `float.__repr__`, with a fraction where there is no exponent. -/
def layout (d : Decimal) : List Char :=
  let digits := Nat.toDigits 10 d.s
  if -4 < d.n ∧ d.n ≤ 16 then
    if d.n ≤ 0 then '0' :: '.' :: (List.replicate (-d.n).toNat '0' ++ digits)
    else if d.n < d.k then digits.take d.n.toNat ++ '.' :: digits.drop d.n.toNat
    else digits ++ List.replicate (d.n - d.k).toNat '0' ++ ['.', '0']
  else if d.k = 1 then digits ++ exponentDigits (d.n - 1)
  else digits.take 1 ++ '.' :: (digits.drop 1 ++ exponentDigits (d.n - 1))

def floatRepr : Double → List Char
  | .nan => "NaN".toList
  | .infinity negative => printSign negative "Infinity".toList
  | .finite negative bits =>
    printSign negative (if bits.val = 0 then ['0', '.', '0'] else layout (shortest bits))

def Num.text : Num → List Char
  | int n => (toString n).toList
  | float x => floatRepr x

theorem readExponent_digits (e : ℤ) : readExponent (exponentDigits e) = some e := by
  have padded (n : Nat) : Double.readDigits ('0' :: Nat.toDigits 10 n) = some n := by
    have all : ('0' :: Nat.toDigits 10 n).all Char.isDigit :=
      List.all_eq_true.mpr (List.forall_mem_cons.mpr ⟨rfl, Double.isDigit_toDigits n⟩)
    have zero : Nat.ofDigitChars 10 ('0' :: Nat.toDigits 10 n) 0 =
        Nat.ofDigitChars 10 (Nat.toDigits 10 n) 0 := rfl
    rw [Double.readDigits, if_pos ⟨List.cons_ne_nil _ _, all⟩, zero, Nat.ofDigitChars_ten_toDigits]
  have digits : Double.readDigits (if e.natAbs < 10 then '0' :: Nat.toDigits 10 e.natAbs
      else Nat.toDigits 10 e.natAbs) = some e.natAbs := by
    split
    · exact padded _
    · exact Double.readDigits_toDigits _
  by_cases negative : e < 0
  · have value : -(e.natAbs : ℤ) = e := by omega
    rw [exponentDigits, if_pos negative, readExponent, if_pos (.inl rfl), digits, Option.map_some,
      value]
  · have value : (e.natAbs : ℤ) = e := by omega
    rw [exponentDigits, if_neg negative, readExponent, if_pos (.inl rfl), digits, Option.map_some,
      value]

theorem stops_exponentDigits (e : ℤ) : Double.Stops (exponentDigits e) := by
  intro c first
  cases first
  decide

/-- Each layout has the value of the decimal. -/
theorem readMagnitude_layout {d : Decimal} (fits : d.Fits) :
    readMagnitude (layout d) = some d.value := by
  have length := Double.length_digits fits
  obtain ⟨some_digit, lower, upper⟩ := fits
  have positive : 0 < d.s := lt_of_lt_of_le (by positivity) lower
  have lead := Double.head_toDigits positive
  have all := Double.isDigit_toDigits d.s
  have nonempty : Nat.toDigits 10 d.s ≠ [] := Nat.toDigits_ne_nil
  have stops : Double.Stops [] := fun c first => absurd first (by simp)
  have zeros (j : Nat) : ∀ c ∈ List.replicate j '0', c.isDigit = true := by
    intro c mem
    rw [List.eq_of_mem_replicate mem]
    rfl
  unfold layout
  dsimp only
  split_ifs with fixed small inside one
  · have frac : ∀ c ∈ List.replicate (-d.n).toNat '0' ++ Nat.toDigits 10 d.s,
        c.isDigit = true := List.forall_mem_append.mpr ⟨zeros _, all⟩
    have read := Double.readMagnitude_point (List.cons_ne_nil '0' [])
      (List.forall_mem_singleton.mpr rfl) (.inl rfl)
      (by simp [nonempty]) frac stops rfl
    rw [List.append_nil, Double.numeral_zeros_left, List.length_append, List.length_replicate,
      length] at read
    apply read.trans
    rw [Decimal.value]
    congr 3
    omega
  · have read := Double.readMagnitude_split positive (show 0 < d.n.toNat by omega)
      (show d.n.toNat < _ by omega) stops rfl
    rw [List.append_nil, length] at read
    rw [read, Decimal.value]
    congr 3
    omega
  · have whole : ∀ c ∈ Nat.toDigits 10 d.s ++ List.replicate (d.n - d.k).toNat '0',
        c.isDigit = true := List.forall_mem_append.mpr ⟨all, zeros _⟩
    have read := Double.readMagnitude_point (by simp [nonempty]) whole
      (.inr (by rwa [List.head?_append_of_ne_nil _ nonempty])) (List.cons_ne_nil '0' [])
      (List.forall_mem_singleton.mpr rfl) stops rfl
    have more : List.replicate (d.n - d.k).toNat '0' ++ ['0'] =
        List.replicate ((d.n - d.k).toNat + 1) '0' := List.replicate_succ'.symm
    rw [List.append_nil, List.append_assoc (Nat.toDigits 10 d.s) _ ['0'], more,
      Double.numeral_zeros_right] at read
    rw [read, Decimal.value]
    congr 3
    simp only [List.length_singleton]
    omega
  · have read := Double.readMagnitude_whole nonempty all lead (stops_exponentDigits (d.n - 1)) (by
      simp [exponentDigits]) (readExponent_digits (d.n - 1))
    rw [read, Double.numeral_toDigits, Decimal.value, one]
    rfl
  · have read := Double.readMagnitude_split positive Nat.one_pos (by omega)
      (stops_exponentDigits (d.n - 1)) (readExponent_digits (d.n - 1))
    rw [length] at read
    rw [read, Decimal.value]
    congr 3
    omega

/-- What a layout starts with, and the point or the exponent in it. -/
theorem layout_shape (d : Decimal) : (∃ c tail, layout d = c :: tail ∧ c.isDigit = true) ∧
    ('.' ∈ layout d ∨ 'e' ∈ layout d) := by
  have nonempty : Nat.toDigits 10 d.s ≠ [] := Nat.toDigits_ne_nil
  obtain ⟨c, tail, digits⟩ := List.exists_cons_of_ne_nil nonempty
  have digit : c.isDigit = true :=
    Double.isDigit_toDigits d.s c (by rw [digits]; exact List.mem_cons_self)
  unfold layout
  dsimp only
  rw [digits]
  split_ifs with fixed small inside one
  · exact ⟨⟨'0', _, rfl, rfl⟩, .inl (List.mem_cons_of_mem _ List.mem_cons_self)⟩
  · obtain ⟨i, positive⟩ : ∃ i, d.n.toNat = i + 1 := ⟨d.n.toNat - 1, by omega⟩
    rw [positive]
    exact ⟨⟨c, _, rfl, digit⟩, .inl (List.mem_append_right _ List.mem_cons_self)⟩
  · exact ⟨⟨c, _, rfl, digit⟩, .inl (List.mem_append_right _ List.mem_cons_self)⟩
  · exact ⟨⟨c, _, rfl, digit⟩, .inr (List.mem_append_right _ List.mem_cons_self)⟩
  · refine ⟨⟨c, _, rfl, digit⟩, .inl ?_⟩
    exact List.mem_append_right _ List.mem_cons_self

theorem isNumeral_layout (d : Decimal) : ∀ c ∈ layout d, Double.isNumeral c = true := by
  have digits (n : Nat) : ∀ c ∈ Nat.toDigits 10 n, Double.isNumeral c = true := by
    intro c mem
    rw [Double.isNumeral, Double.isDigit_toDigits n c mem, Bool.true_or]
  have zeros (j : Nat) : ∀ c ∈ List.replicate j '0', Double.isNumeral c = true := by
    intro c mem
    rw [List.eq_of_mem_replicate mem]
    rfl
  have exponent (e : ℤ) : ∀ c ∈ exponentDigits e, Double.isNumeral c = true := by
    rw [exponentDigits, List.forall_mem_cons, List.forall_mem_cons]
    refine ⟨rfl, by split <;> rfl, ?_⟩
    split
    · exact List.forall_mem_cons.mpr ⟨rfl, digits _⟩
    · exact digits _
  have taken (i : Nat) : ∀ c ∈ (Nat.toDigits 10 d.s).take i, Double.isNumeral c = true :=
    fun c mem => digits _ c (List.mem_of_mem_take mem)
  have dropped (i : Nat) : ∀ c ∈ (Nat.toDigits 10 d.s).drop i, Double.isNumeral c = true :=
    fun c mem => digits _ c (List.mem_of_mem_drop mem)
  unfold layout
  dsimp only
  split_ifs
  all_goals simp only [List.forall_mem_append, List.forall_mem_cons]
  · exact ⟨rfl, rfl, zeros _, digits _⟩
  · exact ⟨taken _, rfl, dropped _⟩
  · exact ⟨⟨digits _, zeros _⟩, rfl, rfl, List.forall_mem_nil _⟩
  · exact ⟨digits _, exponent _⟩
  · exact ⟨taken _, rfl, dropped _, exponent _⟩

/-- A finite number reads back from its text, zero with its sign too. -/
theorem parse_floatRepr (negative : Bool) (bits : Fin (2047 * 2 ^ 52)) :
    Double.parse (floatRepr (.finite negative bits)) = some (.finite negative bits) := by
  obtain ⟨text, same, ⟨c, tail, head, digit⟩, q, read, rounds⟩ : ∃ text,
      (if bits.val = 0 then ['0', '.', '0'] else layout (shortest bits)) = text ∧
      (∃ c tail, text = c :: tail ∧ c.isDigit = true) ∧
      ∃ q, readMagnitude text = some q ∧ Double.nearest q = bits := by
    by_cases zero : bits.val = 0
    · rw [if_pos zero]
      refine ⟨_, rfl, ⟨'0', _, rfl, rfl⟩, Double.magnitude 0, ?_, ?_⟩
      · have nothing : Double.numeral ['0', '0'] (0 - 1) = Double.magnitude 0 := by
          simp [Double.numeral, Double.magnitude, Double.mantissa, Nat.ofDigitChars]
        exact congrArg some nothing
      · rw [Double.nearest_magnitude, zero]
    · obtain ⟨fits, rounds⟩ := Double.shortest_spec (Nat.pos_of_ne_zero zero)
      rw [if_neg zero]
      exact ⟨_, rfl, (layout_shape (shortest bits)).1, _, readMagnitude_layout fits, rounds⟩
  have back : Double.ofMagnitude negative q = .finite negative bits := by
    simp only [Double.ofMagnitude, rounds, bits.isLt, ↓reduceDIte]
  rw [floatRepr, same]
  cases negative with
  | true => rw [printSign, if_pos rfl, Double.parse, read, Option.map_some, back]
  | false =>
    have sign : c ≠ '-' := by
      rintro rfl
      cases digit
    have plain : Double.parse text = (readMagnitude text).map (Double.ofMagnitude false) := by
      rw [head, Double.parse]
      rintro cs first
      exact sign (List.cons.inj first).1
    rw [printSign, if_neg Bool.false_ne_true, plain, read, Option.map_some, back]

theorem floatRepr_injective {x y : Double} (same : floatRepr x = floatRepr y) : x = y := by
  -- What is no finite number does not read as one.
  have other {x : Double} {negative : Bool} {bits : Fin (2047 * 2 ^ 52)}
      (unread : Double.parse (floatRepr x) = none) :
      floatRepr x ≠ floatRepr (.finite negative bits) := by
    intro same
    rw [same, parse_floatRepr] at unread
    cases unread
  have nan : Double.parse (floatRepr .nan) = none := by decide
  have infinity : ∀ negative, Double.parse (floatRepr (.infinity negative)) = none := by decide
  cases x with
  | nan =>
    cases y with
    | nan => rfl
    | infinity negative => cases negative <;> exact absurd same (by decide)
    | finite negative bits => exact absurd same (other nan)
  | infinity negative =>
    cases y with
    | nan => cases negative <;> exact absurd same (by decide)
    | infinity negative' =>
      have signs : negative = negative' := by
        revert same
        cases negative <;> cases negative' <;> decide
      rw [signs]
    | finite negative' bits => exact absurd same (other (infinity negative))
  | finite negative bits =>
    cases y with
    | nan => exact absurd same.symm (other nan)
    | infinity negative' => exact absurd same.symm (other (infinity negative'))
    | finite negative' bits' =>
      have back := congrArg Double.parse same
      rw [parse_floatRepr, parse_floatRepr] at back
      exact Option.some.inj back

theorem text_int (n : ℤ) : (Num.int n).text = printSign (n < 0) (Nat.toDigits 10 n.natAbs) := by
  have digits (k : Nat) : (Nat.repr k).toList = Nat.toDigits 10 k := by
    rw [Nat.repr, String.toList_ofList]
  cases n with
  | ofNat k => exact digits k
  | negSucc k =>
    change ("-" ++ Nat.repr (k + 1)).toList = _
    rw [String.toList_append, digits, printSign, if_pos (decide_eq_true (Int.negSucc_lt_zero k))]
    rfl

/-- The text of an integer: digits, after a sign perhaps. -/
theorem text_int_shape (n : ℤ) :
    (∃ c tail, (Num.int n).text = c :: tail ∧ (c = '-' ∨ c.isDigit = true)) ∧
      ∀ c ∈ (Num.int n).text, c = '-' ∨ c.isDigit = true := by
  have all : ∀ c ∈ Nat.toDigits 10 n.natAbs, c = '-' ∨ c.isDigit = true := fun c mem =>
    .inr (Double.isDigit_toDigits _ c mem)
  obtain ⟨c, tail, head⟩ :=
    List.exists_cons_of_ne_nil (Nat.toDigits_ne_nil (b := 10) (n := n.natAbs))
  rw [text_int, printSign]
  split
  · exact ⟨⟨'-', _, rfl, .inl rfl⟩, List.forall_mem_cons.mpr ⟨.inl rfl, all⟩⟩
  · exact ⟨⟨c, tail, head, all c (by rw [head]; exact List.mem_cons_self)⟩, all⟩

theorem text_int_injective {m n : ℤ} (same : (Num.int m).text = (Num.int n).text) : m = n := by
  have digits {k l : Nat} (same : Nat.toDigits 10 k = Nat.toDigits 10 l) : k = l := by
    rw [← Nat.ofDigitChars_ten_toDigits (n := k), same, Nat.ofDigitChars_ten_toDigits]
  have unsigned (k : Nat) (cs : List Char) : '-' :: cs ≠ Nat.toDigits 10 k := by
    intro same
    have digit := Double.isDigit_toDigits k '-' (by rw [← same]; exact List.mem_cons_self)
    cases digit
  rw [text_int, text_int] at same
  by_cases hm : m < 0
  · by_cases hn : n < 0
    · simp only [printSign, hm, hn, decide_true, if_true, List.cons.injEq, true_and] at same
      have magnitudes := digits same
      omega
    · simp only [printSign, hm, hn, decide_true, decide_false, if_true, if_false,
        Bool.false_eq_true] at same
      exact absurd same (unsigned _ _)
  · by_cases hn : n < 0
    · simp only [printSign, hm, hn, decide_true, decide_false, if_true, if_false,
        Bool.false_eq_true] at same
      exact absurd same.symm (unsigned _ _)
    · simp only [printSign, hm, hn, decide_false, if_false, Bool.false_eq_true] at same
      have magnitudes := digits same
      omega

/-- The characters of a float that are in no integer. -/
theorem floatRepr_mark (x : Double) : ∃ c ∈ floatRepr x, ¬ (c = '-' ∨ c.isDigit = true) := by
  have signed {negative : Bool} {text : List Char} {c : Char} (mem : c ∈ text) :
      c ∈ printSign negative text := by
    cases negative with
    | true => exact List.mem_cons_of_mem _ mem
    | false => exact mem
  cases x with
  | nan => exact ⟨'N', by decide, by decide⟩
  | infinity negative => exact ⟨'I', signed (by decide), by decide⟩
  | finite negative bits =>
    by_cases zero : bits.val = 0
    · refine ⟨'.', ?_, by decide⟩
      rw [floatRepr, if_pos zero]
      exact signed (by decide)
    · rw [floatRepr, if_neg zero]
      rcases (layout_shape (shortest bits)).2 with point | exponent
      · exact ⟨'.', signed point, by decide⟩
      · exact ⟨'e', signed exponent, by decide⟩

theorem text_injective {m n : Num} (same : m.text = n.text) : m = n := by
  have apart (k : ℤ) (x : Double) : (Num.int k).text ≠ (Num.float x).text := by
    intro same
    obtain ⟨c, mem, other⟩ := floatRepr_mark x
    exact other ((text_int_shape k).2 c (same ▸ mem))
  cases m with
  | int k =>
    cases n with
    | int l => rw [text_int_injective same]
    | float y => exact absurd same (apart k y)
  | float x =>
    cases n with
    | int l => exact absurd same.symm (apart l x)
    | float y => rw [floatRepr_injective same]

/-- No character of a number closes anything. -/
theorem text_plain (n : Num) : (∃ c tail, n.text = c :: tail ∧
      (c = '-' ∨ c.isDigit = true ∨ c = 'N' ∨ c = 'I')) ∧
    ∀ c ∈ n.text, c.toNat < 128 ∧ c ∉ [',', ']', '\x7d'] := by
  have numeral {c : Char} (h : Double.isNumeral c = true) :
      c.toNat < 128 ∧ c ∉ [',', ']', '\x7d'] := by
    refine ⟨Js.numeral_ascii h, ?_⟩
    intro mem
    simp only [List.mem_cons, List.not_mem_nil, or_false] at mem
    rcases mem with rfl | rfl | rfl <;> exact absurd h (by decide)
  have signed {negative : Bool} {text : List Char} (first : ∃ c tail, text = c :: tail ∧
      (c = '-' ∨ c.isDigit = true ∨ c = 'N' ∨ c = 'I'))
      (plain : ∀ c ∈ text, c.toNat < 128 ∧ c ∉ [',', ']', '\x7d']) :
      (∃ c tail, printSign negative text = c :: tail ∧
        (c = '-' ∨ c.isDigit = true ∨ c = 'N' ∨ c = 'I')) ∧
      ∀ c ∈ printSign negative text, c.toNat < 128 ∧ c ∉ [',', ']', '\x7d'] := by
    cases negative with
    | true => exact ⟨⟨'-', text, rfl, .inl rfl⟩, List.forall_mem_cons.mpr ⟨by decide, plain⟩⟩
    | false => exact ⟨first, plain⟩
  cases n with
  | int n =>
    obtain ⟨⟨c, tail, head, start⟩, all⟩ := text_int_shape n
    refine ⟨⟨c, tail, head, start.imp id .inl⟩, fun c mem => numeral ?_⟩
    rcases all c mem with rfl | digit
    · rfl
    · rw [Double.isNumeral, digit, Bool.true_or]
  | float x =>
    cases x with
    | nan => exact ⟨⟨'N', _, rfl, .inr (.inr (.inl rfl))⟩, by simp [Num.text, floatRepr]⟩
    | infinity negative => exact signed ⟨'I', _, rfl, .inr (.inr (.inr rfl))⟩ (by simp)
    | finite negative bits =>
      apply signed
      · split
        · exact ⟨'0', _, rfl, .inr (.inl rfl)⟩
        · obtain ⟨⟨c, tail, head, digit⟩, -⟩ := layout_shape (shortest bits)
          exact ⟨c, tail, head, .inr (.inl digit)⟩
      · split
        · simp
        · exact fun c mem => numeral (isNumeral_layout _ c mem)

/-! ## Strings -/

def isHigh (c : CodePoint) : Bool := 0xD800 ≤ c.val && c.val < 0xDC00

def isLow (c : CodePoint) : Bool := 0xDC00 ≤ c.val && c.val < 0xE000

/-- No pair of surrogates stands for a character: `json.loads` makes one of each. -/
def Joined (s : Str) : Prop := s.IsChain fun c d => ¬ (isHigh c = true ∧ isLow d = true)

instance (s : Str) : Decidable (Joined s) := inferInstanceAs (Decidable (List.IsChain _ s))

/-- What `json.loads` reads of what `json.dumps` writes for a string: a pair of
surrogates as the character that it stands for. -/
def reread : Str → Str
  | [] => []
  | [c] => [c]
  | h :: l :: rest =>
    if isHigh h = true ∧ isLow l = true then
      Fin.ofNat 0x110000 (0x10000 + (h.val - 0xD800) * 0x400 + (l.val - 0xDC00)) :: reread rest
    else h :: reread (l :: rest)

theorem reread_joined {s : Str} (joined : Joined s) : reread s = s := by
  induction s with
  | nil => rfl
  | cons c s ih =>
    cases s with
    | nil => rfl
    | cons d s =>
      obtain ⟨apart, rest⟩ := List.isChain_cons_cons.mp joined
      rw [reread, if_neg apart, ih rest]

theorem Clean.joined {s : Str} (clean : Clean s) : Joined s := by
  induction s with
  | nil => exact .nil
  | cons c s ih =>
    rw [Clean, List.forall_mem_cons] at clean
    have scalar : c.val < 0xD800 ∨ 0xE000 ≤ c.val := clean.1
    refine List.isChain_cons.mpr ⟨fun d _ pair => ?_, ih clean.2⟩
    have high := pair.1
    simp only [isHigh, Bool.and_eq_true, decide_eq_true_eq] at high
    omega

theorem units_unicodeEscape {n : Nat} (bound : n < 0x10000) :
    units (unicodeEscape n) = Js.unicodeEscape (UInt16.ofNat n) := by
  have value : (UInt16.ofNat n).toNat = n := Utf16.toNat_ofNat bound
  have digit {d : Nat} (h : d < 16) : (Hex.digit d).toNat < 128 ∧
      Js.ascii (Hex.digit d) = Js.hexDigit d := by
    interval_cases d <;> decide
  have first := digit (show n / 0x1000 < 16 by omega)
  have second := digit (show n / 0x100 % 16 < 16 by omega)
  have third := digit (show n / 16 % 16 < 16 by omega)
  have fourth := digit (show n % 16 < 16 by omega)
  rw [unicodeEscape, units_ascii (by decide), units_ascii (by decide), units_ascii first.1,
    units_ascii second.1, units_ascii third.1, units_ascii fourth.1, first.2, second.2, third.2,
    fourth.2, Js.unicodeEscape, value]
  rfl

/-- A unit as `ensure_ascii` writes it. -/
def asciiUnit (u : UInt16) : JsString :=
  if u.toNat < 0x7F then Js.quoteUnit u else Js.unicodeEscape u

theorem units_quoteChar_small : ∀ n, (h : n < 0x7F) →
    units (quoteChar ⟨n, h.trans (by decide)⟩) = Js.quoteUnit (UInt16.ofNat n) := by
  decide

theorem quoteChar_large {c : CodePoint} (large : 0x7F ≤ c.val) : quoteChar c =
    if c.val < 0x10000 then unicodeEscape c.val
    else unicodeEscape (0xD800 + (c.val - 0x10000) / 0x400) ++
      unicodeEscape (0xDC00 + (c.val - 0x10000) % 0x400) := by
  have other {d : CodePoint} (h : d.val < 0x7F) : c ≠ d := by
    rintro rfl
    omega
  rw [quoteChar, if_neg (other (by decide)), if_neg (other (by decide)), if_neg (other (by decide)),
    if_neg (other (by decide)), if_neg (other (by decide)), if_neg (by omega), if_neg (by omega),
    if_neg (by omega)]

theorem units_quoteChar (c : CodePoint) : units (quoteChar c) = (unitsOf c).flatMap asciiUnit := by
  obtain ⟨n, bound⟩ := c
  have escaped {m : Nat} (large : 0x7F ≤ m) (basic : m < 0x10000) :
      asciiUnit (UInt16.ofNat m) = units (unicodeEscape m) := by
    rw [asciiUnit, Utf16.toNat_ofNat basic, if_neg (by omega), units_unicodeEscape basic]
  rcases Nat.lt_or_ge n 0x7F with small | large
  · have basic : n < 0x10000 := by omega
    rw [units_quoteChar_small n small, unitsOf, if_pos basic, List.flatMap_singleton, asciiUnit,
      Utf16.toNat_ofNat basic, if_pos small]
  · rw [quoteChar_large large, unitsOf]
    split
    · rename_i basic
      rw [List.flatMap_singleton, escaped large basic]
    · rename_i wide
      change ¬ n < 0x10000 at wide
      rw [units_append, List.flatMap_cons, List.flatMap_singleton,
        escaped (show 0x7F ≤ 0xD800 + (n - 0x10000) / 0x400 by omega) (by omega),
        escaped (show 0x7F ≤ 0xDC00 + (n - 0x10000) % 0x400 by omega) (by omega)]

theorem units_quote (s : Str) :
    units (quote s) = 0x22 :: ((units s).flatMap asciiUnit ++ [0x22]) := by
  have quotation : Js.ascii '"' = 0x22 := by decide
  have inside : units (s.flatMap quoteChar) = (units s).flatMap asciiUnit := by
    rw [units, units, List.flatMap_assoc, List.flatMap_assoc]
    exact List.flatMap_congr fun c _ => units_quoteChar c
  rw [quote, List.cons_append, units_ascii (by decide), units_append, inside,
    units_ascii (by decide), quotation]
  rfl

/-- A written unit is read back, and its text does not start with a quote. -/
theorem readUnit_asciiUnit (u : UInt16) : ∃ b tail, asciiUnit u = b :: tail ∧ b ≠ 0x22 ∧
    ∀ rest, Js.readUnit (b :: (tail ++ rest)) = some (u, rest) := by
  rw [asciiUnit]
  split
  · exact Js.readUnit_quoteUnit u
  · refine ⟨_, _, rfl, by decide, fun rest => ?_⟩
    exact congrArg (Option.map fun u => (u, rest)) (Js.readHex_digits u)

theorem readQuote_quote (s : Str) (rest : JsString) :
    Js.readQuote (units (quote s) ++ rest) = some (units s, rest) := by
  have back : Codec.ReadsBack asciiUnit Js.readUnit := by
    intro u rest
    obtain ⟨b, tail, written, -, read⟩ := readUnit_asciiUnit u
    rw [written, List.cons_append, read]
  have head (u : UInt16) : ∃ b tail, asciiUnit u = b :: tail ∧ b ≠ 0x22 := by
    obtain ⟨b, tail, written, other, -⟩ := readUnit_asciiUnit u
    exact ⟨b, tail, written, other⟩
  have read := back.readUntil_flatMap head (units s) rest
    (((units s).flatMap asciiUnit ++ 0x22 :: rest).length + 1) (by
      rw [List.length_append]
      omega)
  rw [units_quote, List.cons_append, List.append_assoc, List.singleton_append, Js.readQuote,
    if_pos rfl, read]

theorem unitsOf_basic {c : CodePoint} (basic : c.val < 0x10000) :
    unitsOf c = [UInt16.ofNat c.val] := if_pos basic

theorem unitsOf_wide {c : CodePoint} (wide : 0x10000 ≤ c.val) : ∃ h l, unitsOf c = [h, l] ∧
    h.toNat = 0xD800 + (c.val - 0x10000) / 0x400 ∧
      l.toNat = 0xDC00 + (c.val - 0x10000) % 0x400 := by
  have bound := c.isLt
  refine ⟨_, _, if_neg (by omega), Utf16.toNat_ofNat (by omega), Utf16.toNat_ofNat (by omega)⟩

/-- A low surrogate that comes first in the units comes first in the text. -/
theorem isLow_head {s : Str} {u : UInt16} {rest : JsString} (same : units s = u :: rest)
    (low : 0xDC00 ≤ u.toNat ∧ u.toNat < 0xE000) : ∃ d s', s = d :: s' ∧ isLow d = true := by
  cases s with
  | nil => cases same
  | cons d s =>
    have bound := d.isLt
    refine ⟨d, s, rfl, ?_⟩
    rw [units, List.flatMap_cons] at same
    rcases Nat.lt_or_ge d.val 0x10000 with basic | wide
    · rw [unitsOf_basic basic, List.singleton_append, List.cons.injEq] at same
      have value : u.toNat = d.val := by rw [← same.1, Utf16.toNat_ofNat basic]
      rw [isLow, Bool.and_eq_true, decide_eq_true_eq, decide_eq_true_eq]
      omega
    · obtain ⟨h, l, two, high, -⟩ := unitsOf_wide wide
      rw [two, List.cons_append, List.cons.injEq] at same
      rw [same.1] at high
      omega

/-- In joined text no surrogate starts the units of a character. -/
theorem not_wide_of_basic {c d : CodePoint} {s t : Str} (joined : Joined (c :: s))
    (basic : c.val < 0x10000) (wide : 0x10000 ≤ d.val) : units (c :: s) ≠ units (d :: t) := by
  intro same
  have bound := d.isLt
  obtain ⟨h, l, two, high, low⟩ := unitsOf_wide wide
  rw [units, units, List.flatMap_cons, List.flatMap_cons, unitsOf_basic basic, two,
    List.singleton_append, List.cons_append, List.singleton_append, List.cons.injEq] at same
  have value : h.toNat = c.val := by rw [← same.1, Utf16.toNat_ofNat basic]
  obtain ⟨e, s', rfl, lowSurrogate⟩ := isLow_head same.2 (by omega)
  refine (List.isChain_cons_cons.mp joined).1 ⟨?_, lowSurrogate⟩
  rw [isHigh, Bool.and_eq_true, decide_eq_true_eq, decide_eq_true_eq]
  omega

/-- Joined text is told by its units. -/
theorem units_injective_joined {s t : Str} (hs : Joined s) (ht : Joined t)
    (same : units s = units t) : s = t := by
  induction s generalizing t with
  | nil =>
    have short := length_le_units t
    rw [← same] at short
    exact (List.length_eq_zero_iff.mp (Nat.le_zero.mp short)).symm
  | cons c s ih =>
    cases t with
    | nil =>
      have short := length_le_units (c :: s)
      rw [same] at short
      exact absurd short (Nat.not_succ_le_zero _)
    | cons d t =>
      have tails (heads : c = d) : c :: s = d :: t := by
        subst heads
        rw [units, units, List.flatMap_cons, List.flatMap_cons] at same
        rw [ih (List.isChain_cons.mp hs).2 (List.isChain_cons.mp ht).2
          (List.append_cancel_left same)]
      rcases Nat.lt_or_ge c.val 0x10000 with basic | wide
      · rcases Nat.lt_or_ge d.val 0x10000 with basic' | wide'
        · apply tails
          rw [units, units, List.flatMap_cons, List.flatMap_cons, unitsOf_basic basic,
            unitsOf_basic basic'] at same
          have value := congrArg UInt16.toNat (List.cons.inj same).1
          rw [Utf16.toNat_ofNat basic, Utf16.toNat_ofNat basic'] at value
          exact Fin.ext value
        · exact absurd same (not_wide_of_basic hs basic wide')
      · rcases Nat.lt_or_ge d.val 0x10000 with basic' | wide'
        · exact absurd same.symm (not_wide_of_basic ht basic' wide)
        · apply tails
          obtain ⟨h, l, two, high, low⟩ := unitsOf_wide wide
          obtain ⟨h', l', two', high', low'⟩ := unitsOf_wide wide'
          rw [units, units, List.flatMap_cons, List.flatMap_cons, two, two'] at same
          obtain ⟨rfl, later⟩ := List.cons.inj same
          obtain ⟨rfl, -⟩ := List.cons.inj later
          apply Fin.ext
          omega

/-! ## Values -/

/-- What `json.loads` makes. -/
abbrev Loaded := Json Str Num

def loadedPrinter : Json.Printer Str Num CodePoint := ⟨cp, quote, fun n => n.text.map cp⟩

/-- `json.dumps` with sorted keys and no white space. -/
def dumpsLoaded (v : Loaded) : Str := Json.print loadedPrinter v.sortKeys

/-- Whole numbers are written as they are among floats. -/
theorem dumpsLoaded_int (v : Value) : dumpsLoaded (v.mapNumbers Num.int) = dumps v := by
  rw [dumpsLoaded, Json.sortKeys_mapNumbers, Json.print_mapNumbers]
  rfl

theorem quote_free {s s' r r' : Str} (hs : Joined s) (hs' : Joined s')
    (same : quote s ++ r = quote s' ++ r') : s = s' := by
  have read := readQuote_quote s (units r)
  rw [← units_append, same, units_append, readQuote_quote] at read
  exact units_injective_joined hs hs' (Prod.mk.inj (Option.some.inj read)).1.symm

/-- The text of a number goes as far as the first closing punctuation. -/
theorem takeWhile_number (n : Num) {r : Str} (ends : Json.Ends cp r) :
    (n.text.map cp ++ r).takeWhile (· ∉ [cp ',', cp ']', cp '\x7d']) = n.text.map cp := by
  have inside : ∀ c ∈ n.text.map cp, decide (c ∉ [cp ',', cp ']', cp '\x7d']) = true := by
    intro c mem
    obtain ⟨d, here, rfl⟩ := List.mem_map.mp mem
    refine decide_eq_true fun closing => ((text_plain n).2 d here).2 ?_
    exact (List.mem_map_of_injective (f := cp) fun _ _ => cp_injective).mp closing
  rw [List.takeWhile_append_of_pos inside]
  rcases ends with rfl | ⟨c, tail, closing, rfl⟩
  · rw [List.takeWhile_nil, List.append_nil]
  · have stop : cp c ∈ [cp ',', cp ']', cp '\x7d'] := List.mem_map_of_mem (f := cp) closing
    simp only [List.takeWhile_cons, stop, not_true_eq_false, decide_false, Bool.false_eq_true,
      if_false, List.append_nil]

theorem unambiguous : Json.Unambiguous loadedPrinter Joined fun _ => True where
  ascii_inj _ _ _ _ same := cp_injective same
  quote_head _ := ⟨_, rfl⟩
  quote_free _ _ _ _ hs hs' same := quote_free hs hs' same
  number_head n _ := by
    obtain ⟨⟨c, tail, head, start⟩, plain⟩ := text_plain n
    refine ⟨c, tail.map cp, congrArg (List.map cp) head,
      (plain c (by rw [head]; exact List.mem_cons_self)).1, ?_⟩
    intro mem
    simp only [List.mem_cons, List.not_mem_nil, or_false] at mem
    rcases mem with rfl | rfl | rfl | rfl | rfl | rfl | rfl | rfl | rfl <;>
      exact absurd start (by decide)
  number_free n n' r r' _ _ ends ends' same := by
    have texts : n.text.map cp = n'.text.map cp :=
      (takeWhile_number n ends).symm.trans
        ((congrArg (List.takeWhile _) same).trans (takeWhile_number n' ends'))
    exact text_injective (List.map_injective_iff.mpr (fun _ _ => cp_injective) texts)

/-- Two values are written alike just where they are equal up to the order of
keys. -/
theorem dumpsLoaded_eq_iff {v w : Loaded} (hv : v.Within Joined fun _ => True)
    (hw : w.Within Joined fun _ => True) (keys : v.Keys List.Nodup) (keys' : w.Keys List.Nodup) :
    dumpsLoaded v = dumpsLoaded w ↔ v.Alike (· = ·) w := by
  rw [Json.alike_iff v w keys keys']
  constructor
  · exact unambiguous.print_injective (Json.Within.sortKeys v hv) (Json.Within.sortKeys w hw)
  · exact congrArg (Json.print loadedPrinter)

theorem clean_quoteChar (c : CodePoint) : Clean (quoteChar c) := by
  unfold quoteChar
  split_ifs with _ _ _ _ _ _ _ plain
  iterate 7 exact clean_py _
  · refine List.forall_mem_singleton.mpr (.inl ?_)
    omega
  · exact clean_unicodeEscape _
  · exact (clean_unicodeEscape _).append (clean_unicodeEscape _)

/-- What is written is ASCII, whatever the strings. -/
theorem clean_dumpsLoaded (v : Loaded) : Clean (dumpsLoaded v) := by
  have closed : Json.Closed loadedPrinter Clean := {
    nil := List.forall_mem_nil _
    append := Clean.append
    ascii := fun c _ => clean_map_cp [c]
    quote := fun s => by
      refine Clean.cons '"' (Clean.append ?_ (clean_map_cp ['"']))
      intro c mem
      obtain ⟨d, -, here⟩ := List.mem_flatMap.mp mem
      exact clean_quoteChar d c here
    number := fun n => clean_map_cp n.text }
  exact closed.print loadedPrinter v.sortKeys

/-! ## Operators -/

/-- `v == n`: True is 1, and 1.0 is. -/
def equalsInt : Loaded → ℤ → Bool
  | .num (.int m), n => m = n
  | .num (.float (.finite negative bits)), n => Double.value negative bits = n
  | .bool b, n => (if b then 1 else 0) = n
  | _, _ => false

/-- `v < n`, where there is an order. -/
def lessThanInt : Loaded → ℤ → Option Bool
  | .num (.int m), n => some (m < n)
  | .num (.float x), n => some (x.lt n)
  | .bool b, n => some ((if b then 1 else 0) < n)
  | _, _ => none

/-- `v == s`. -/
def equalsStr : Loaded → Str → Bool
  | .str t, s => t = s
  | _, _ => false

/-- `bool(v)`. -/
def truthy : Loaded → Bool
  | .null => false
  | .bool b => b
  | .num (.int n) => n ≠ 0
  | .num (.float (.finite _ bits)) => bits.val ≠ 0
  | .num (.float _) => true
  | .str s => s ≠ []
  | .arr items => !items.isEmpty
  | .obj fields => !fields.isEmpty

theorem equalsStr_iff {v : Loaded} {s : Str} : equalsStr v s = true ↔ v = .str s := by
  cases v with
  | str t => simp [equalsStr]
  | null | bool _ | num _ | arr _ | obj _ => simp [equalsStr]

end Qev.Py
