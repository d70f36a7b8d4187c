import Mathlib.Data.List.AList

/-! Finite maps: lookup, insertion, removal, an update of every value and
`retain`, over the association lists of Mathlib. -/

namespace Qev

/-- A map from `κ` to `α` with one entry for each key. -/
structure HashMap (κ α : Type) where
  toAList : AList (fun _ : κ => α)

namespace HashMap

variable {κ α : Type}

def empty : HashMap κ α := ⟨∅⟩

/-- Replace every value, as a loop over `values_mut` does. -/
def mapValues (f : α → α) (m : HashMap κ α) : HashMap κ α where
  toAList :=
    { entries := m.toAList.entries.map (.map id fun _ => f)
      nodupKeys := by
        have keys : (m.toAList.entries.map (.map id fun _ => f) : List ((_ : κ) × α)).keys =
            m.toAList.entries.keys := by
          simp [List.keys, Function.comp_def, Sigma.map]
        have nodup : (m.toAList.entries.map (.map id fun _ => f) :
            List ((_ : κ) × α)).keys.Nodup := by
          rw [keys]
          exact m.toAList.keys_nodup
        exact nodup }

/-- Keep the entries that satisfy `p`. -/
def retain (p : κ → α → Bool) (m : HashMap κ α) : HashMap κ α where
  toAList :=
    { entries := m.toAList.entries.filter (fun e => p e.1 e.2)
      nodupKeys := m.toAList.nodupKeys.sublist List.filter_sublist }

def values (m : HashMap κ α) : List α := m.toAList.entries.map (·.2)

def keys (m : HashMap κ α) : List κ := m.toAList.keys

variable [DecidableEq κ]

def get (m : HashMap κ α) (k : κ) : Option α := m.toAList.lookup k

def insert (m : HashMap κ α) (k : κ) (v : α) : HashMap κ α := ⟨m.toAList.insert k v⟩

def remove (m : HashMap κ α) (k : κ) : HashMap κ α := ⟨m.toAList.erase k⟩

theorem get_remove (m : HashMap κ α) (k k' : κ) :
    (m.remove k).get k' = if k' = k then none else m.get k' := by
  simp only [get, remove]
  split
  · rename_i same
    rw [same, AList.lookup_erase]
  · rename_i other
    rw [AList.lookup_erase_ne other]

theorem mem_values {m : HashMap κ α} {v : α} : v ∈ m.values ↔ ∃ k, m.get k = some v := by
  simp only [values, get, AList.lookup, List.mem_map]
  constructor
  · rintro ⟨⟨k, v⟩, mem, rfl⟩
    exact ⟨k, List.mem_dlookup m.toAList.nodupKeys mem⟩
  · rintro ⟨k, found⟩
    exact ⟨⟨k, v⟩, List.of_mem_dlookup found, rfl⟩

/-- What holds of the values of any two different keys holds of any two values. -/
theorem pairwise_values {m : HashMap κ α} {R : α → α → Prop}
    (h : ∀ k k' v v', k ≠ k' → m.get k = some v → m.get k' = some v' → R v v') :
    m.values.Pairwise R := by
  rw [values, List.pairwise_map]
  refine List.Pairwise.imp_of_mem ?_ (List.nodupKeys_iff_pairwise.mp m.toAList.nodupKeys)
  rintro ⟨k, v⟩ ⟨k', v'⟩ mem mem' apart
  exact h k k' v v' apart (List.mem_dlookup m.toAList.nodupKeys mem)
    (List.mem_dlookup m.toAList.nodupKeys mem')

@[simp] theorem get_empty (k : κ) : (empty : HashMap κ α).get k = none :=
  AList.lookup_empty k

theorem get_insert (m : HashMap κ α) (k k' : κ) (v : α) :
    (m.insert k v).get k' = if k' = k then some v else m.get k' := by
  simp only [get, insert]
  split
  · rename_i same
    rw [same, AList.lookup_insert]
  · rename_i other
    rw [AList.lookup_insert_ne other]

@[simp] theorem get_insert_self (m : HashMap κ α) (k : κ) (v : α) :
    (m.insert k v).get k = some v := by
  simp [get_insert]

/-- Give an entry that is there another value, in its place. -/
def replace (m : HashMap κ α) (k : κ) (v : α) : HashMap κ α := ⟨m.toAList.replace k v⟩

theorem get_replace (m : HashMap κ α) (k k' : κ) (v : α) :
    (m.replace k v).get k' = if k' = k then (m.get k).map fun _ => v else m.get k' := by
  simp only [get, replace, AList.lookup, AList.replace]
  induction m.toAList.entries with
  | nil => simp [List.kreplace]
  | cons e entries ih =>
    obtain ⟨k₀, v₀⟩ := e
    by_cases here : k = k₀
    · subst here
      have first : List.kreplace k v (⟨k, v₀⟩ :: entries) = ⟨k, v⟩ :: entries :=
        List.lookmap_cons_some _ _ (by simp)
      rw [first, List.dlookup_cons_eq]
      by_cases same : k' = k
      · subst same
        rw [List.dlookup_cons_eq, if_pos rfl]
        rfl
      · rw [List.dlookup_cons_ne _ _ same, List.dlookup_cons_ne _ _ same, if_neg same]
    · have later : List.kreplace k v (⟨k₀, v₀⟩ :: entries) =
          ⟨k₀, v₀⟩ :: List.kreplace k v entries :=
        List.lookmap_cons_none _ _ (by simp [here])
      have passes {k₁ : κ} (other : k₁ ≠ k₀) (rest : List ((_ : κ) × α)) :
          List.dlookup k₁ (⟨k₀, v₀⟩ :: rest) = List.dlookup k₁ rest :=
        List.dlookup_cons_ne rest ⟨k₀, v₀⟩ other
      rw [later]
      by_cases there : k' = k₀
      · subst there
        rw [List.dlookup_cons_eq, List.dlookup_cons_eq, if_neg (Ne.symm here)]
      · rw [passes there, passes there, passes here, ih]

/-- An entry that is given the value it has. -/
theorem replace_self {m : HashMap κ α} {k : κ} {v : α} (h : m.get k = some v) :
    m.replace k v = m := by
  have same := List.kreplace_self m.toAList.nodupKeys (List.of_mem_dlookup h)
  rw [replace, AList.replace]
  simp only [same]

@[simp] theorem get_mapValues (f : α → α) (m : HashMap κ α) (k : κ) :
    (m.mapValues f).get k = (m.get k).map f :=
  List.dlookup_map₂ k

@[simp] theorem get_retain (p : κ → α → Bool) (m : HashMap κ α) (k : κ) :
    (m.retain p).get k = (m.get k).filter (p k) := by
  obtain ⟨⟨es, nd⟩⟩ := m
  simp only [retain, get, AList.lookup]
  induction es with
  | nil => rfl
  | cons e es ih =>
    obtain ⟨k', v⟩ := e
    obtain ⟨absent, rest⟩ := List.nodupKeys_cons.mp nd
    have tail := ih rest
    by_cases h : k = k'
    · subst h
      cases hp : p k v
      · rw [List.filter_cons_of_neg (by simp [hp]), tail, List.dlookup_cons_eq,
          List.dlookup_eq_none.mpr absent, Option.filter_none, Option.filter_some_neg hp]
      · rw [List.filter_cons_of_pos (by simp [hp]), List.dlookup_cons_eq]
        rw [List.dlookup_cons_eq, Option.filter_some_pos hp]
    · rw [List.dlookup_cons_ne _ _ h, ← tail]
      cases hp : p k' v
      · rw [List.filter_cons_of_neg (by simp [hp])]
      · rw [List.filter_cons_of_pos (by simp [hp]), List.dlookup_cons_ne _ _ h]

end HashMap

end Qev
