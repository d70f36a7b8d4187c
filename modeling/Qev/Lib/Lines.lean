import Mathlib.Data.List.Infix

/-! Text in lines, and what is found in it. -/

namespace Qev.Lines

variable {α : Type} {newline : α}

/-! ## Lines -/

/-- `lines.join("\n")`. -/
def joined (newline : α) : List (List α) → List α
  | [] => []
  | [l] => l
  | l :: k :: ls => l ++ newline :: joined newline (k :: ls)

/-- `text.split("\n")`. -/
def split [DecidableEq α] (newline : α) : List α → List (List α)
  | [] => [[]]
  | u :: rest =>
    if u = newline then [] :: split newline rest
    else
      match split newline rest with
      | [] => [[u]]
      | l :: ls => (u :: l) :: ls

theorem joined_cons (l : List α) {ls : List (List α)} (more : ls ≠ []) :
    joined newline (l :: ls) = l ++ newline :: joined newline ls := by
  cases ls with
  | nil => exact absurd rfl more
  | cons k ls => rw [joined]

theorem joined_append (ks : List (List α)) {ls : List (List α)} (some_ks : ks ≠ [])
    (some_ls : ls ≠ []) :
    joined newline (ks ++ ls) = joined newline ks ++ newline :: joined newline ls := by
  induction ks with
  | nil => exact absurd rfl some_ks
  | cons k ks ih =>
    rw [List.cons_append, joined_cons k (List.append_ne_nil_of_right_ne_nil ks some_ls)]
    cases ks with
    | nil => rfl
    | cons k' ks =>
      rw [ih (List.cons_ne_nil _ _), joined_cons k (List.cons_ne_nil _ _), List.append_assoc,
        List.cons_append]

theorem split_ne_nil [DecidableEq α] (text : List α) : split newline text ≠ [] := by
  cases text with
  | nil => exact List.cons_ne_nil _ _
  | cons u rest =>
    rw [split]
    split
    · exact List.cons_ne_nil _ _
    · split <;> exact List.cons_ne_nil _ _

theorem joined_split [DecidableEq α] (text : List α) :
    joined newline (split newline text) = text := by
  induction text with
  | nil => rfl
  | cons u rest ih =>
    rw [split]
    split
    · rename_i here
      rw [joined_cons _ (split_ne_nil rest), ih, here, List.nil_append]
    · split
      · rename_i none
        exact absurd none (split_ne_nil rest)
      · rename_i l ls text
        rw [text] at ih
        rw [← ih]
        cases ls with
        | nil => rfl
        | cons k ls => rfl

/-! ## What stands in one line is found in one line -/

section Infix

variable {m a c : List α} (other : newline ∉ m)

include other

theorem prefix_of_line (h : m <+: a ++ newline :: c) : m <+: a := by
  rcases Nat.le_total m.length a.length with short | long
  · exact List.prefix_of_prefix_length_le h (List.prefix_append a _) short
  · rcases Nat.eq_or_lt_of_le long with same | longer
    · exact List.prefix_of_prefix_length_le h (List.prefix_append a _) same.ge
    · have line : a ++ [newline] <+: a ++ newline :: c :=
        (List.prefix_append_right_inj a).mpr ⟨c, rfl⟩
      have inside : a ++ [newline] <+: m := by
        apply List.prefix_of_prefix_length_le line h
        rw [List.length_append, List.length_singleton]
        exact longer
      exact absurd (inside.subset (List.mem_append_right a (List.mem_singleton_self _))) other

theorem infix_line (h : m <:+: a ++ newline :: c) : m <:+: a ∨ m <:+: c := by
  induction a with
  | nil =>
    rcases List.infix_cons_iff.mp h with first | later
    · exact .inl (prefix_of_line (a := []) other first).isInfix
    · exact .inr later
  | cons u a ih =>
    rcases List.infix_cons_iff.mp h with first | later
    · exact .inl (prefix_of_line (a := u :: a) other first).isInfix
    · rcases ih later with here | there
      · exact .inl (here.trans (List.suffix_cons u a).isInfix)
      · exact .inr there

theorem infix_joined {ls : List (List α)} (some_text : m ≠ []) (h : m <:+: joined newline ls) :
    ∃ l ∈ ls, m <:+: l := by
  induction ls with
  | nil => exact absurd (List.infix_nil.mp h) some_text
  | cons l ls ih =>
    cases ls with
    | nil => exact ⟨l, List.mem_cons_self, h⟩
    | cons k ls =>
      rw [joined_cons l (List.cons_ne_nil k ls)] at h
      rcases infix_line other h with here | later
      · exact ⟨l, List.mem_cons_self, here⟩
      · obtain ⟨l', mem, inside⟩ := ih later
        exact ⟨l', List.mem_cons_of_mem _ mem, inside⟩

end Infix

/-- What starts with no character of `p` starts after it. -/
theorem infix_prefixed {m p t : List α} {u : α} (first : m.head? = some u) (other : u ∉ p)
    (h : m <:+: p ++ t) : m <:+: t := by
  induction p with
  | nil => exact h
  | cons v p ih =>
    rw [List.mem_cons, not_or] at other
    rcases List.infix_cons_iff.mp h with here | later
    · obtain ⟨rest, same⟩ := here
      cases m with
      | nil => cases first
      | cons w m =>
        cases first
        exact absurd (List.cons.inj same).1 other.1
    · exact ih other.2 later

/-! ## `text.indexOf(m)` -/

variable [DecidableEq α]

def indexOf (m : List α) : List α → Option Nat
  | [] => if m = [] then some 0 else none
  | u :: rest => if m <+: u :: rest then some 0 else (indexOf m rest).map (· + 1)

theorem indexOf_eq_none {m text : List α} (free : ¬ m <:+: text) : indexOf m text = none := by
  induction text with
  | nil =>
    rw [indexOf, if_neg]
    rintro rfl
    exact free (List.infix_refl [])
  | cons u rest ih =>
    rw [List.infix_cons_iff, not_or] at free
    rw [indexOf, if_neg free.1, ih free.2, Option.map_none]

theorem indexOf_prefix {m text : List α} (here : m <+: text) : indexOf m text = some 0 := by
  cases text with
  | nil => rw [indexOf, if_pos (List.prefix_nil.mp here)]
  | cons u rest => rw [indexOf, if_pos here]

theorem indexOf_eq_zero {m text : List α} : indexOf m text = some 0 ↔ m <+: text := by
  refine ⟨fun h => ?_, indexOf_prefix⟩
  cases text with
  | nil =>
    rw [indexOf] at h
    split at h
    · rename_i empty
      rw [empty]
    · cases h
  | cons u rest =>
    rw [indexOf] at h
    split at h
    · assumption
    · obtain ⟨i, -, later⟩ := Option.map_eq_some_iff.mp h
      exact absurd later (Nat.succ_ne_zero i)

/-- The first line that starts with `m`, where no text before it has it. -/
theorem indexOf_line {m a c : List α} (other : newline ∉ m) (some_text : m ≠ [])
    (free : ¬ m <:+: a) (here : m <+: c) :
    indexOf m (a ++ newline :: c) = some (a.length + 1) := by
  induction a with
  | nil =>
    have not_first : ¬ m <+: newline :: c := by
      intro first
      exact some_text (List.prefix_nil.mp (prefix_of_line (a := []) other first))
    rw [List.nil_append, indexOf, if_neg not_first, indexOf_prefix here]
    rfl
  | cons u a ih =>
    rw [List.infix_cons_iff, not_or] at free
    have not_first : ¬ m <+: u :: (a ++ newline :: c) := fun first =>
      free.1 (prefix_of_line (a := u :: a) other first)
    rw [List.cons_append, indexOf, if_neg not_first, ih free.2]
    rfl

end Qev.Lines
