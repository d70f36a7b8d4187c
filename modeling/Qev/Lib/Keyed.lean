import Mathlib.Data.List.Basic
import Mathlib.Data.List.Nodup
import Mathlib.Data.List.Pairwise

/-! Lists of records under a key: the first record of a key, a change to it in
place, insertion at the end and removal. Keys stay unique where they were. -/

namespace Qev.Keyed

variable {α κ : Type} [DecidableEq κ] (key : α → κ)

def find (k : κ) (rows : List α) : Option α := rows.find? fun a => key a = k

/-- Change the first record of a key. -/
def modify (k : κ) (f : α → α) : List α → List α
  | [] => []
  | a :: rows => if key a = k then f a :: rows else a :: modify k f rows

/-- Merge a record into the one of its key, or add it at the end. -/
def upsert (merge : α → α → α) (rows : List α) (a : α) : List α :=
  if (find key (key a) rows).isSome then modify key (key a) (merge · a) rows else rows ++ [a]

def remove (k : κ) (rows : List α) : List α := rows.filter fun a => key a ≠ k

variable {key} {k k' : κ} {f : α → α} {merge : α → α → α} {rows : List α} {a b : α}

theorem find_nil : find key k ([] : List α) = none := rfl

theorem find_cons : find key k (a :: rows) = if key a = k then some a else find key k rows := by
  by_cases here : key a = k
  · simp [find, here]
  · simp [find, here]

theorem key_of_find (h : find key k rows = some a) : key a = k :=
  of_decide_eq_true (List.find?_some (p := fun a => decide (key a = k)) h)

theorem mem_of_find (h : find key k rows = some a) : a ∈ rows := List.mem_of_find?_eq_some h

theorem find_eq_none : find key k rows = none ↔ k ∉ rows.map key := by
  simp [find, List.find?_eq_none]

theorem isSome_find : (find key k rows).isSome ↔ k ∈ rows.map key := by
  rw [← not_iff_not, ← find_eq_none, Option.not_isSome_iff_eq_none]

/-- Where no two records have one key, a record is what is found under its key. -/
theorem find_eq_some (nodup : (rows.map key).Nodup) :
    find key k rows = some a ↔ a ∈ rows ∧ key a = k := by
  constructor
  · intro h
    exact ⟨mem_of_find h, key_of_find h⟩
  · rintro ⟨mem, rfl⟩
    induction rows with
    | nil => cases mem
    | cons b rows ih =>
      obtain ⟨absent, nodup⟩ := List.nodup_cons.mp nodup
      rw [find_cons]
      rcases List.mem_cons.mp mem with rfl | later
      · rw [if_pos rfl]
      · have other : key b ≠ key a := by
          intro same
          apply absent
          rw [same]
          exact List.mem_map_of_mem later
        rw [if_neg other, ih nodup later]

theorem find_append (more : List α) :
    find key k (rows ++ more) = (find key k rows).or (find key k more) := by
  simp [find, List.find?_append]

theorem find_remove : find key k'
    (remove key k rows) = if k' = k then none else find key k' rows := by
  rw [remove, find, List.find?_filter]
  by_cases same : k' = k
  · subst same
    simp
  · rw [if_neg same, find]
    congr 1
    funext a
    by_cases here : key a = k' <;> simp [here, same]

theorem nodup_remove (nodup : (rows.map key).Nodup) : ((remove key k rows).map key).Nodup :=
  nodup.sublist (List.filter_sublist.map key)

/-! ## A change in place -/

theorem keys_modify (keeps : ∀ a, key a = k → key (f a) = k) :
    (modify key k f rows).map key = rows.map key := by
  induction rows with
  | nil => rfl
  | cons a rows ih =>
    by_cases here : key a = k
    · simp [modify, here, keeps a here]
    · simp [modify, here, ih]

theorem find_modify (keeps : ∀ a, key a = k → key (f a) = k) :
    find key k' (modify key k f rows) =
      if k' = k then (find key k rows).map f else find key k' rows := by
  induction rows with
  | nil => simp [modify, find_nil]
  | cons a rows ih =>
    by_cases here : key a = k
    · have stays : key (f a) = k := keeps a here
      rw [modify, if_pos here, find_cons, find_cons, find_cons, stays, here, if_pos rfl,
        Option.map_some]
      by_cases same : k' = k
      · simp [same]
      · simp [same, Ne.symm same]
    · simp only [modify, if_neg here, find_cons, ih]
      by_cases same : k' = k
      · subst same
        simp [here]
      · simp [same]

theorem modify_of_absent (absent : find key k rows = none) : modify key k f rows = rows := by
  induction rows with
  | nil => rfl
  | cons a rows ih =>
    rw [find_cons] at absent
    split at absent
    · cases absent
    · rename_i other
      rw [modify, if_neg other, ih absent]

theorem length_modify : (modify key k f rows).length = rows.length := by
  induction rows with
  | nil => rfl
  | cons a rows ih =>
    rw [modify]
    split
    · rfl
    · rw [List.length_cons, ih, List.length_cons]

/-- A change seen through a map that keeps the keys. -/
theorem map_modify {β : Type} {key' : β → κ} {f' : β → β} (g : α → β)
    (keys : ∀ a, key' (g a) = key a) (commutes : ∀ a, g (f a) = f' (g a)) :
    (modify key k f rows).map g = modify key' k f' (rows.map g) := by
  induction rows with
  | nil => rfl
  | cons a rows ih =>
    rw [modify, List.map_cons, modify, keys]
    split
    · rw [List.map_cons, commutes]
    · rw [List.map_cons, ih]

/-- The change falls on the first of two lists that has the key. -/
theorem modify_append (more : List α) : modify key k f (rows ++ more) =
    if (find key k rows).isSome then modify key k f rows ++ more
    else rows ++ modify key k f more := by
  induction rows with
  | nil => rfl
  | cons a rows ih =>
    rw [List.cons_append, modify, find_cons]
    by_cases here : key a = k
    · rw [if_pos here, if_pos here, if_pos Option.isSome_some, modify, if_pos here,
        List.cons_append]
    · rw [if_neg here, if_neg here, modify, if_neg here, ih]
      split
      · rfl
      · rfl

/-- What a change does not touch. -/
theorem map_modify_of_keeps {β : Type} {g : α → β} (keeps : ∀ a, g (f a) = g a) :
    (modify key k f rows).map g = rows.map g := by
  induction rows with
  | nil => rfl
  | cons a rows ih =>
    rw [modify]
    split
    · rw [List.map_cons, keeps, List.map_cons]
    · rw [List.map_cons, ih, List.map_cons]

/-- The record that is changed is the first one of the key. -/
theorem getElem?_modify (i : Nat) : (modify key k f rows)[i]? =
    if rows.findIdx? (key · = k) = some i then rows[i]?.map f else rows[i]? := by
  induction rows generalizing i with
  | nil => simp [modify]
  | cons a rows ih =>
    rw [modify, List.findIdx?_cons]
    by_cases here : key a = k
    · rw [if_pos here]
      cases i with
      | zero => simp [here]
      | succ i => simp [here]
    · rw [if_neg here]
      cases i with
      | zero => simp [here]
      | succ i =>
        rw [List.getElem?_cons_succ, List.getElem?_cons_succ, ih]
        simp [here]

/-- A member of a changed list is one from before, or the one that was changed. -/
theorem mem_modify (h : b ∈ modify key k f rows) : b ∈ rows ∨ ∃ a ∈ rows, key a = k ∧ b = f a := by
  induction rows with
  | nil => cases h
  | cons a rows ih =>
    by_cases here : key a = k
    · rw [modify, if_pos here] at h
      rcases List.mem_cons.mp h with rfl | later
      · exact .inr ⟨a, List.mem_cons_self, here, rfl⟩
      · exact .inl (List.mem_cons_of_mem _ later)
    · rw [modify, if_neg here] at h
      rcases List.mem_cons.mp h with rfl | later
      · exact .inl List.mem_cons_self
      · rcases ih later with old | ⟨c, mem, same, rfl⟩
        · exact .inl (List.mem_cons_of_mem _ old)
        · exact .inr ⟨c, List.mem_cons_of_mem _ mem, same, rfl⟩

/-! ## Upsert -/

/-- A merge that leaves the key as it is. -/
def KeepsKey (key : α → κ) (merge : α → α → α) : Prop := ∀ a b, key (merge a b) = key a

omit [DecidableEq κ] in
theorem KeepsKey.at (keeps : KeepsKey key merge) (b : α) :
    ∀ a, key a = k → key (merge a b) = k := by
  intro a here
  rw [keeps, here]

theorem upsert_new (h : find key (key a) rows = none) : upsert key merge rows a = rows ++ [a] := by
  rw [upsert, h]
  rfl

theorem upsert_old (h : find key (key a) rows = some b) :
    upsert key merge rows a = modify key (key a) (merge · a) rows := by
  rw [upsert, h]
  rfl

theorem find_upsert (keeps : KeepsKey key merge) :
    find key k (upsert key merge rows a) =
      if k = key a then some (((find key k rows).map (merge · a)).getD a)
      else find key k rows := by
  cases old : find key (key a) rows with
  | none =>
    rw [upsert_new old, find_append, find_cons, find_nil]
    by_cases same : k = key a
    · simp [same, old]
    · simp [same, Ne.symm same]
  | some b =>
    rw [upsert_old old, find_modify (keeps.at a)]
    by_cases same : k = key a
    · simp [same, old]
    · simp [same]

theorem mem_upsert (h : b ∈ upsert key merge rows a) :
    b ∈ rows ∨ b = a ∨ ∃ c ∈ rows, key c = key a ∧ b = merge c a := by
  cases old : find key (key a) rows with
  | none =>
    rw [upsert_new old] at h
    rcases List.mem_append.mp h with here | last
    · exact .inl here
    · exact .inr (.inl (List.mem_singleton.mp last))
  | some c =>
    rw [upsert_old old] at h
    rcases mem_modify h with here | changed
    · exact .inl here
    · exact .inr (.inr changed)

theorem keys_upsert (keeps : KeepsKey key merge) :
    (upsert key merge rows a).map key =
      if key a ∈ rows.map key then rows.map key else rows.map key ++ [key a] := by
  cases old : find key (key a) rows with
  | none =>
    rw [upsert_new old, if_neg (find_eq_none.mp old), List.map_append]
    rfl
  | some b =>
    have mem : key a ∈ rows.map key := isSome_find.mp (by rw [old]; rfl)
    rw [upsert_old old, keys_modify (keeps.at a), if_pos mem]

theorem nodup_upsert (keeps : KeepsKey key merge) (nodup : (rows.map key).Nodup) :
    ((upsert key merge rows a).map key).Nodup := by
  rw [keys_upsert keeps]
  split
  · exact nodup
  · rename_i absent
    exact List.nodup_append.mpr ⟨nodup, List.nodup_singleton _, by
      intro x mem y last
      obtain rfl := List.mem_singleton.mp last
      rintro rfl
      exact absent mem⟩

/-- Two lists with the same keys in the same order, under each of which they
have the same record. -/
theorem ext_find {rows' : List α} (nodup : (rows.map key).Nodup)
    (keys : rows.map key = rows'.map key) (same : ∀ k, find key k rows = find key k rows') :
    rows = rows' := by
  induction rows generalizing rows' with
  | nil => exact (List.map_eq_nil_iff.mp keys.symm).symm
  | cons a rows ih =>
    cases rows' with
    | nil => cases keys
    | cons a' rows' =>
      obtain ⟨first, rest⟩ := List.cons.inj keys
      obtain ⟨absent, nodup⟩ := List.nodup_cons.mp nodup
      have heads := same (key a)
      rw [find_cons, find_cons, if_pos rfl, if_pos first.symm] at heads
      obtain rfl := Option.some.inj heads
      congr 1
      apply ih nodup rest
      intro k
      by_cases here : key a = k
      · subst here
        rw [find_eq_none.mpr absent, find_eq_none.mpr (by rwa [← rest])]
      · have later := same k
        rwa [find_cons, find_cons, if_neg here, if_neg here] at later

/-! ## One upsert after another -/

variable {new : List α}

theorem nodup_foldl_upsert (keeps : KeepsKey key merge) (nodup : (rows.map key).Nodup) :
    ((new.foldl (upsert key merge) rows).map key).Nodup := by
  induction new generalizing rows with
  | nil => exact nodup
  | cons a new ih => exact ih (nodup_upsert keeps nodup)

/-- After records with different keys have been merged in, each key has what it
had merged with the record of that key. -/
theorem find_foldl_upsert (keeps : KeepsKey key merge) (nodup : (new.map key).Nodup) :
    find key k (new.foldl (upsert key merge) rows) =
      match find key k new with
      | none => find key k rows
      | some a => some (((find key k rows).map (merge · a)).getD a) := by
  induction new generalizing rows with
  | nil => rfl
  | cons a new ih =>
    obtain ⟨absent, nodup⟩ := List.nodup_cons.mp nodup
    rw [List.foldl_cons, ih nodup, find_cons, find_upsert keeps]
    by_cases here : key a = k
    · subst here
      simp [find_eq_none.mpr absent]
    · simp [here, Ne.symm here]

theorem keys_foldl_upsert_of_mem (keeps : KeepsKey key merge)
    (known : ∀ a ∈ new, key a ∈ rows.map key) :
    (new.foldl (upsert key merge) rows).map key = rows.map key := by
  induction new generalizing rows with
  | nil => rfl
  | cons a new ih =>
    have here : (upsert key merge rows a).map key = rows.map key := by
      rw [keys_upsert keeps, if_pos (known a List.mem_cons_self)]
    rw [List.foldl_cons, ih, here]
    intro b mem
    rw [here]
    exact known b (List.mem_cons_of_mem _ mem)

/-- Records with new keys stand at the end in their order. -/
theorem foldl_upsert_new (nodup : ((rows ++ new).map key).Nodup) :
    new.foldl (upsert key merge) rows = rows ++ new := by
  induction new generalizing rows with
  | nil => rw [List.foldl_nil, List.append_nil]
  | cons a new ih =>
    have absent : key a ∉ rows.map key := by
      rw [List.map_append, List.map_cons] at nodup
      intro mem
      exact (List.nodup_append.mp nodup).2.2 (key a) mem (key a) List.mem_cons_self rfl
    rw [List.foldl_cons, upsert_new (find_eq_none.mpr absent), ih, List.append_assoc]
    · rfl
    · rwa [List.append_assoc]

end Qev.Keyed
