import Mathlib.Data.List.Lex
import Qev.Lib.JsObject

/-! Objects that are made from fields in the order of their sorted keys: by
code units as ECMAScript sorts them, which is not the order that the properties
come to have. -/

namespace Qev

/-- A list in a strict order is given by its members. -/
theorem eq_of_pairwise {α : Type} {r : α → α → Prop} [Std.Asymm r] {xs ys : List α}
    (hx : xs.Pairwise r) (hy : ys.Pairwise r) (same : ∀ x, x ∈ xs ↔ x ∈ ys) : xs = ys := by
  have irrefl {x y : α} (h : r x y) : x ≠ y := by
    rintro rfl
    exact Std.Asymm.asymm _ _ h h
  have perm := (List.perm_ext_iff_of_nodup (hx.imp irrefl) (hy.imp irrefl)).mpr same
  refine perm.eq_of_pairwise (fun a b _ _ ab ba => ?_) hx hy
  exact absurd ba (Std.Asymm.asymm _ _ ab)

namespace Json

variable {σ ν : Type} [LT σ] [DecidableLT σ]

/-- The fields in the order of their keys. -/
def sorted (fields : List (σ × Json σ ν)) : List (σ × Json σ ν) := fields.foldr insertField []

theorem sorted_cons (f : σ × Json σ ν) (fields : List (σ × Json σ ν)) :
    sorted (f :: fields) = insertField f (sorted fields) := rfl

theorem mem_sorted {f : σ × Json σ ν} {fields : List (σ × Json σ ν)} :
    f ∈ sorted fields ↔ f ∈ fields := by
  induction fields with
  | nil => exact Iff.rfl
  | cons g fields ih => rw [sorted_cons, mem_insertField, ih, List.mem_cons]

theorem sortFields_eq (fields : List (σ × Json σ ν)) :
    sortFields fields = sorted (fields.map fun f => (f.1, sortKeys f.2)) := by
  induction fields with
  | nil => rfl
  | cons f fields ih => rw [sortFields, ih, List.map_cons, sorted_cons]

variable [Trans (α := σ) (· < ·) (· < ·) (· < ·)] [Std.Trichotomous (α := σ) (· < ·)]

theorem pairwise_insertField {f : σ × Json σ ν} {fields : List (σ × Json σ ν)}
    (ordered : (fields.map Prod.fst).Pairwise (· < ·)) (fresh : f.1 ∉ fields.map Prod.fst) :
    ((insertField f fields).map Prod.fst).Pairwise (· < ·) := by
  induction fields with
  | nil => exact List.pairwise_singleton _ _
  | cons g fields ih =>
    rw [List.map_cons, List.mem_cons, not_or] at fresh
    obtain ⟨first, later⟩ := List.pairwise_cons.mp ordered
    rw [insertField]
    split
    · rename_i before
      refine List.pairwise_cons.mpr ⟨fun k mem => ?_, ordered⟩
      rcases List.mem_cons.mp mem with rfl | mem
      · exact before
      · exact Trans.trans before (first k mem)
    · rename_i after
      have before : g.1 < f.1 := by
        by_contra not_before
        exact fresh.1 (Std.Trichotomous.trichotomous f.1 g.1 after not_before)
      refine List.pairwise_cons.mpr ⟨fun k mem => ?_, ih later fresh.2⟩
      obtain ⟨h, inside, rfl⟩ := List.mem_map.mp mem
      rcases mem_insertField.mp inside with rfl | other
      · exact before
      · exact first h.1 (List.mem_map_of_mem other)

theorem pairwise_sorted {fields : List (σ × Json σ ν)} (nodup : (fields.map Prod.fst).Nodup) :
    ((sorted fields).map Prod.fst).Pairwise (· < ·) := by
  induction fields with
  | nil => exact List.Pairwise.nil
  | cons f fields ih =>
    rw [List.map_cons, List.nodup_cons] at nodup
    apply pairwise_insertField (ih nodup.2)
    intro mem
    obtain ⟨g, inside, same⟩ := List.mem_map.mp mem
    exact nodup.1 (same ▸ List.mem_map_of_mem (mem_sorted.mp inside))

theorem sorted_eq [Std.Asymm (α := σ) (· < ·)] {fields target : List (σ × Json σ ν)}
    (nodup : (fields.map Prod.fst).Nodup) (ordered : (target.map Prod.fst).Pairwise (· < ·))
    (same : ∀ f, f ∈ fields ↔ f ∈ target) : sorted fields = target := by
  have asymm : Std.Asymm fun f g : σ × Json σ ν => f.1 < g.1 :=
    ⟨fun _ _ fg gf => Std.Asymm.asymm _ _ fg gf⟩
  refine eq_of_pairwise (List.pairwise_map.mp (pairwise_sorted nodup))
    (List.pairwise_map.mp ordered) fun f => ?_
  rw [mem_sorted, same]

end Json

namespace Js

/-- The order of the properties that are made in the order of their keys. -/
def Before (k l : JsString) : Prop := place k < place l ∨ place k = place l ∧ k < l

instance (k l : JsString) : Decidable (Before k l) := inferInstanceAs (Decidable (_ ∨ _ ∧ _))

instance : Std.Asymm Before where
  asymm k l kl lk := by
    rcases kl with h | ⟨h, less⟩ <;> rcases lk with h' | ⟨h', less'⟩
    · omega
    · omega
    · omega
    · exact Std.Asymm.asymm _ _ less less'

section Fields

variable {α : Type} {key : JsString} {value : α} {fields : List (JsString × α)}

theorem mem_assign_iff (fresh : key ∉ fields.map Prod.fst) {f : JsString × α} :
    f ∈ assign key value fields ↔ f = (key, value) ∨ f ∈ fields := by
  induction fields with
  | nil => simp [assign]
  | cons g fields ih =>
    rw [List.map_cons, List.mem_cons, not_or] at fresh
    rw [assign, if_neg (Ne.symm fresh.1)]
    split_ifs
    · exact List.mem_cons
    · rw [List.mem_cons, ih fresh.2, List.mem_cons]
      tauto

/-- A key that comes after all others by its code units is put in its place. -/
theorem before_assign (ordered : (fields.map Prod.fst).Pairwise Before)
    (last : ∀ k ∈ fields.map Prod.fst, k < key) :
    ((assign key value fields).map Prod.fst).Pairwise Before := by
  have fresh : key ∉ fields.map Prod.fst := fun mem => by
    have less := last key mem
    exact Std.Asymm.asymm _ _ less less
  induction fields with
  | nil => exact List.pairwise_singleton _ _
  | cons g fields ih =>
    obtain ⟨first, later⟩ := List.pairwise_cons.mp ordered
    rw [List.map_cons, List.mem_cons, not_or] at fresh
    rw [assign, if_neg (Ne.symm fresh.1)]
    split_ifs with smaller
    · refine List.pairwise_cons.mpr ⟨fun k mem => ?_, ordered⟩
      rcases List.mem_cons.mp mem with rfl | mem
      · exact .inl smaller
      · rcases first k mem with less | ⟨same, -⟩
        · exact .inl (smaller.trans less)
        · exact .inl (same ▸ smaller)
    · have rest := ih later (fun k mem => last k (List.mem_cons_of_mem _ mem)) fresh.2
      refine List.pairwise_cons.mpr ⟨fun k mem => ?_, rest⟩
      obtain ⟨f, inside, rfl⟩ := List.mem_map.mp mem
      rcases mem_assign inside with rfl | other
      · rcases Nat.lt_or_eq_of_le (Nat.not_lt.mp smaller) with less | same
        · exact .inl less
        · exact .inr ⟨same, last g.1 List.mem_cons_self⟩
      · exact first f.1 (List.mem_map_of_mem other)

/-- `object[key] = value` on an object that starts as `{}`. The setter that it
inherits takes the value of one key, and no property is made. -/
def put (key : JsString) (value : α) (fields : List (JsString × α)) : List (JsString × α) :=
  if key = js "__proto__" then fields else assign key value fields

def putAll (fields : List (JsString × α)) : List (JsString × α) :=
  fields.foldl (fun object f => put f.1 f.2 object) []

theorem putAll_append (fields : List (JsString × α)) (f : JsString × α) :
    putAll (fields ++ [f]) = put f.1 f.2 (putAll fields) := by
  rw [putAll, List.foldl_append]
  rfl

theorem mem_of_mem_putAll {f : JsString × α} (mem : f ∈ putAll fields) : f ∈ fields := by
  induction fields using List.reverseRecOn with
  | nil => exact mem
  | append_singleton fields g ih =>
    rw [putAll_append, put] at mem
    split_ifs at mem
    · exact List.mem_append_left _ (ih mem)
    · rcases mem_assign mem with rfl | earlier
      · exact List.mem_append_right _ (List.mem_singleton_self _)
      · exact List.mem_append_left _ (ih earlier)

theorem mem_putAll (nodup : (fields.map Prod.fst).Nodup) {f : JsString × α} :
    f ∈ putAll fields ↔ f ∈ fields ∧ f.1 ≠ js "__proto__" := by
  induction fields using List.reverseRecOn generalizing f with
  | nil => simp [putAll]
  | append_singleton fields g ih =>
    rw [List.map_append, List.nodup_append] at nodup
    obtain ⟨earlier, -, apart⟩ := nodup
    rw [putAll_append, put]
    split_ifs with proto
    · rw [ih earlier, List.mem_append, List.mem_singleton]
      constructor
      · exact fun h => ⟨.inl h.1, h.2⟩
      · rintro ⟨mem | rfl, other⟩
        · exact ⟨mem, other⟩
        · exact absurd proto other
    · have fresh : g.1 ∉ (putAll fields).map Prod.fst := by
        intro mem
        obtain ⟨h, inside, same⟩ := List.mem_map.mp mem
        have old := ((ih earlier).mp inside).1
        exact apart h.1 (List.mem_map_of_mem old) g.1 (List.mem_singleton_self _) same
      rw [mem_assign_iff fresh, ih earlier, List.mem_append, List.mem_singleton]
      constructor
      · rintro (rfl | ⟨mem, other⟩)
        · exact ⟨.inr rfl, proto⟩
        · exact ⟨.inl mem, other⟩
      · rintro ⟨mem | rfl, other⟩
        · exact .inr ⟨mem, other⟩
        · exact .inl rfl

theorem before_putAll (increasing : (fields.map Prod.fst).Pairwise (· < ·)) :
    ((putAll fields).map Prod.fst).Pairwise Before := by
  have nodup : (fields.map Prod.fst).Nodup := increasing.imp fun less same => by
    subst same
    exact Std.Asymm.asymm _ _ less less
  induction fields using List.reverseRecOn with
  | nil => exact List.Pairwise.nil
  | append_singleton fields g ih =>
    rw [List.map_append] at increasing nodup
    have earlier := (List.nodup_append.mp nodup).1
    obtain ⟨before, -, last⟩ := List.pairwise_append.mp increasing
    rw [putAll_append, put]
    split_ifs
    · exact ih before earlier
    · apply before_assign (ih before earlier)
      intro k mem
      obtain ⟨f, inside, rfl⟩ := List.mem_map.mp mem
      have old := ((mem_putAll earlier).mp inside).1
      exact last f.1 (List.mem_map_of_mem old) g.1 (List.mem_singleton_self _)

theorem mem_assignAll_iff (nodup : (fields.map Prod.fst).Nodup) {f : JsString × α} :
    f ∈ assignAll fields ↔ f ∈ fields := by
  induction fields using List.reverseRecOn generalizing f with
  | nil => exact Iff.rfl
  | append_singleton fields g ih =>
    rw [List.map_append, List.nodup_append] at nodup
    obtain ⟨earlier, -, apart⟩ := nodup
    have fresh : g.1 ∉ (assignAll fields).map Prod.fst := by
      intro mem
      obtain ⟨h, inside, same⟩ := List.mem_map.mp mem
      have old := mem_assignAll inside
      exact apart h.1 (List.mem_map_of_mem old) g.1 (List.mem_singleton_self _) same
    rw [assignAll_append, mem_assign_iff fresh, ih earlier, List.mem_append, List.mem_singleton]
    tauto

/-- Which list of fields an object made in the order of the keys shows. -/
theorem putAll_eq_iff (increasing : (fields.map Prod.fst).Pairwise (· < ·))
    {shown : List (JsString × α)} (same : ∀ f, f ∈ fields ↔ f ∈ shown) :
    putAll fields = shown ↔
      (∀ f ∈ shown, f.1 ≠ js "__proto__") ∧ (shown.map Prod.fst).Pairwise Before := by
  have nodup : (fields.map Prod.fst).Nodup := increasing.imp fun less equal => by
    subst equal
    exact Std.Asymm.asymm _ _ less less
  constructor
  · rintro rfl
    exact ⟨fun f mem => ((mem_putAll nodup).mp mem).2, before_putAll increasing⟩
  · rintro ⟨plain, ordered⟩
    have asymm : Std.Asymm fun f g : JsString × α => Before f.1 g.1 :=
      ⟨fun _ _ fg gf => Std.Asymm.asymm _ _ fg gf⟩
    have made := List.pairwise_map.mp (before_putAll increasing)
    refine eq_of_pairwise made (List.pairwise_map.mp ordered) fun f => ?_
    rw [mem_putAll nodup, same]
    exact ⟨fun h => h.1, fun mem => ⟨mem, plain f mem⟩⟩

end Fields

end Js

end Qev
