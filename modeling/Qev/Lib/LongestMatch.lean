import Mathlib.Data.List.Basic

/-! Cutting a text into words: always the first word of a list that the text
goes on with. With longer words first this is the longest match. -/

namespace Qev.LongestMatch

variable {β : Type} [DecidableEq β] (words : List (List β))

/-- The word that `code` starts with, if any. -/
def first (code : List β) : Option (List β) := words.find? (· <+: code)

/-- The words of a text from a position on; the error is where no word follows,
with what stands there. `skip` units belong to a word already found. -/
def scan : (position skip : Nat) → List β → Except (Nat × List β) (List (List β))
  | _, _, [] => .ok []
  | position, skip + 1, _ :: code => scan (position + 1) skip code
  | position, 0, c :: code =>
    match first words (c :: code) with
    | none => .error (position, c :: code)
    | some w =>
      match scan (position + 1) (w.length - 1) code with
      | .error e => .error e
      | .ok ws => .ok (w :: ws)

/-- Each word is what is found at its place. -/
def Aligned : List (List β) → Prop
  | [] => True
  | w :: ws => first words (w ++ ws.flatten) = some w ∧ Aligned ws

variable {words}

theorem first_mem {code w : List β} (h : first words code = some w) : w ∈ words :=
  List.mem_of_find?_eq_some h

theorem first_prefix {code w : List β} (h : first words code = some w) : w <+: code := by
  simpa using List.find?_some h

/-- Where a word is in front, one is found. -/
theorem exists_first {code w : List β} (mem : w ∈ words) (front : w <+: code) :
    ∃ v, first words code = some v := by
  rw [← Option.isSome_iff_exists, first, List.find?_isSome]
  exact ⟨w, mem, by simpa using front⟩

section Sorted

variable (sorted : words.Pairwise fun v w => w.length ≤ v.length)
include sorted

/-- With longer words first, the longest match is what is found. -/
theorem first_eq_some_iff {code w : List β} : first words code = some w ↔
    w ∈ words ∧ w <+: code ∧ ∀ v ∈ words, v <+: code → v.length ≤ w.length := by
  unfold first
  induction words with
  | nil => simp
  | cons u words ih =>
    rw [List.pairwise_cons] at sorted
    obtain ⟨shorter, sorted⟩ := sorted
    by_cases front : u <+: code
    · rw [List.find?_cons_of_pos (p := (decide <| · <+: code)) (decide_eq_true front),
        Option.some.injEq, List.forall_mem_cons]
      constructor
      · rintro rfl
        exact ⟨List.mem_cons_self, front, fun _ => Nat.le_refl _, fun v mem _ => shorter v mem⟩
      · rintro ⟨mem, front', longest, -⟩
        rcases List.mem_cons.mp mem with rfl | mem
        · rfl
        · have length := Nat.le_antisymm (longest front) (shorter w mem)
          exact (List.prefix_of_prefix_length_le front front' (Nat.le_of_eq length)).eq_of_length
            length
    · rw [List.find?_cons_of_neg (by simpa using front), ih sorted, List.forall_mem_cons,
        List.mem_cons]
      constructor
      · rintro ⟨mem, front', longest⟩
        exact ⟨.inr mem, front', fun front' => absurd front' front, longest⟩
      · rintro ⟨rfl | mem, front', -, longest⟩
        · exact absurd front' front
        · exact ⟨mem, front', longest⟩

/-- A word is found in front of a text that no longer word goes on into. -/
theorem first_append_iff {w : List β} (mem : w ∈ words) (rest : List β) :
    first words (w ++ rest) = some w ↔ ∀ s ≠ [], w ++ s ∈ words → ¬ s <+: rest := by
  rw [first_eq_some_iff sorted]
  constructor
  · rintro ⟨-, -, longest⟩ s nonempty longer front
    have bound := longest (w ++ s) longer ((List.prefix_append_right_inj w).mpr front)
    rw [List.length_append] at bound
    have length := List.length_pos_of_ne_nil nonempty
    omega
  · intro alone
    refine ⟨mem, List.prefix_append w rest, fun v here front => ?_⟩
    by_contra longer
    obtain ⟨s, rfl⟩ := List.prefix_of_prefix_length_le (List.prefix_append w rest) front
      (Nat.le_of_not_le longer)
    have nonempty : s ≠ [] := by
      rintro rfl
      rw [List.append_nil] at longer
      exact longer (Nat.le_refl _)
    exact alone s nonempty here ((List.prefix_append_right_inj w).mp front)

end Sorted

theorem scan_skip (position skip : Nat) (front code : List β) (length : front.length = skip) :
    scan words position skip (front ++ code) = scan words (position + skip) 0 code := by
  induction front generalizing position skip with
  | nil =>
    subst length
    rfl
  | cons c front ih =>
    subst length
    rw [List.cons_append, List.length_cons, scan, ih (position + 1) front.length rfl]
    congr 1
    omega

/-- Reading one word. -/
theorem scan_first {position : Nat} {w rest : List β} (nonempty : w ≠ [])
    (found : first words (w ++ rest) = some w) :
    scan words position 0 (w ++ rest) =
      (scan words (position + w.length) 0 rest).map (w :: ·) := by
  obtain ⟨c, tail, rfl⟩ := List.exists_cons_of_ne_nil nonempty
  have skipped : scan words (position + 1) tail.length (tail ++ rest) = _ :=
    scan_skip _ _ _ _ rfl
  rw [List.cons_append] at found ⊢
  rw [scan, found]
  simp only [List.length_cons, Nat.add_sub_cancel]
  rw [skipped, show position + 1 + tail.length = position + (tail.length + 1) by omega]
  cases scan words (position + (tail.length + 1)) 0 rest <;> rfl

/-- A text that is read starts with the first of its words. -/
theorem scan_cons {position : Nat} {c : β} {code : List β} {ws : List (List β)}
    (nonempty : ∀ w ∈ words, w ≠ []) (read : scan words position 0 (c :: code) = .ok ws) :
    ∃ w rest ws', c :: code = w ++ rest ∧ ws = w :: ws' ∧ w ∈ words ∧
      first words (w ++ rest) = some w ∧ scan words (position + w.length) 0 rest = .ok ws' := by
  cases found : first words (c :: code) with
  | none =>
    rw [scan, found] at read
    cases read
  | some w =>
    obtain ⟨rest, whole⟩ := first_prefix found
    have mem := first_mem found
    rw [← whole] at found read
    rw [scan_first (nonempty w mem) found] at read
    cases later : scan words (position + w.length) 0 rest with
    | error e =>
      rw [later] at read
      cases read
    | ok ws' =>
      rw [later] at read
      cases read
      exact ⟨w, rest, ws', whole.symm, rfl, mem, found, later⟩

/-- The words that are read make up the text, and each was found in its place. -/
theorem scan_eq_ok (nonempty : ∀ w ∈ words, w ≠ []) {position : Nat} {code : List β}
    {ws : List (List β)} (read : scan words position 0 code = .ok ws) :
    ws.flatten = code ∧ (∀ w ∈ ws, w ∈ words) ∧ Aligned words ws := by
  induction ws generalizing position code with
  | nil =>
    cases code with
    | nil => exact ⟨rfl, nofun, trivial⟩
    | cons c code =>
      obtain ⟨w, rest, ws', -, impossible, -⟩ := scan_cons nonempty read
      cases impossible
  | cons w ws ih =>
    cases code with
    | nil =>
      rw [scan] at read
      cases read
    | cons c code =>
      obtain ⟨v, rest, ws', whole, same, mem, found, later⟩ := scan_cons nonempty read
      cases same
      obtain ⟨flat, all, aligned⟩ := ih later
      rw [whole, List.flatten_cons, flat]
      refine ⟨rfl, ?_, ?_⟩
      · intro u here
        rcases List.mem_cons.mp here with rfl | here
        · exact mem
        · exact all u here
      · exact ⟨by rw [flat]; exact found, aligned⟩

/-- Words are read back exactly where each is what is found at its place. -/
theorem scan_flatten_iff (nonempty : ∀ w ∈ words, w ≠ []) (position : Nat) {ws : List (List β)}
    (all : ∀ w ∈ ws, w ∈ words) :
    scan words position 0 ws.flatten = .ok ws ↔ Aligned words ws := by
  constructor
  · intro read
    exact (scan_eq_ok nonempty read).2.2
  · intro aligned
    induction ws generalizing position with
    | nil => rfl
    | cons w ws ih =>
      rw [List.forall_mem_cons] at all
      rw [List.flatten_cons, scan_first (nonempty w all.1) aligned.1, ih _ all.2 aligned.2]
      rfl

/-- Every text with a property is read, where the property leads to a word and
holds again after it. -/
theorem scan_total (nonempty : ∀ w ∈ words, w ≠ []) {P : List β → Prop}
    (step : ∀ c code, P (c :: code) → ∃ w rest, c :: code = w ++ rest ∧
      first words (w ++ rest) = some w ∧ P rest)
    (position : Nat) {code : List β} (h : P code) : ∃ ws, scan words position 0 code = .ok ws := by
  obtain ⟨n, bound⟩ : ∃ n, code.length ≤ n := ⟨_, Nat.le_refl _⟩
  induction n generalizing position code with
  | zero =>
    rw [List.length_eq_zero_iff.mp (Nat.le_zero.mp bound)]
    exact ⟨[], rfl⟩
  | succ n ih =>
    cases code with
    | nil => exact ⟨[], rfl⟩
    | cons c code =>
      obtain ⟨w, rest, whole, found, later⟩ := step c code h
      have some_unit := List.length_pos_of_ne_nil (nonempty w (first_mem found))
      rw [whole, List.length_append] at bound
      obtain ⟨ws, read⟩ := ih (position + w.length) later (by omega)
      exact ⟨w :: ws, by rw [whole, scan_first (nonempty w (first_mem found)) found, read]; rfl⟩

end Qev.LongestMatch
