import Mathlib.Data.List.Sort
import Mathlib.Data.List.Count
import Mathlib.Data.List.Pairwise

/-! Tables with a primary key, as SQL statements see them: insert-or-replace,
delete, count, and selection in the order of a column. -/

namespace Qev

/-- Rows of which no two have one key. -/
structure Table {ρ κ : Type} (key : ρ → κ) where
  rows : List ρ
  keys_nodup : (rows.map key).Nodup

/-- A way to return rows in ascending order of a column. Rows that are equal in
it may come in any order. -/
structure OrderBy {ρ : Type} (column : ρ → Int) where
  sort : List ρ → List ρ
  perm : ∀ rows, (sort rows).Perm rows
  ascending : ∀ rows, (sort rows).Pairwise (column · ≤ column ·)

variable {ρ κ : Type} {key : ρ → κ} {column : ρ → Int}

namespace OrderBy

/-- Rows that are equal in the column stay in the order of the table. -/
def stable (column : ρ → Int) : OrderBy column where
  sort := List.insertionSort (column · ≤ column ·)
  perm := List.perm_insertionSort _
  ascending := by
    have total : Std.Total fun a b : ρ => column a ≤ column b := ⟨fun a b => Int.le_total _ _⟩
    have trans : IsTrans ρ fun a b => column a ≤ column b := ⟨fun _ _ _ => Int.le_trans⟩
    exact List.pairwise_insertionSort _

/-- Where no two rows are equal in the column, there is one order. -/
theorem sort_eq (o : OrderBy column) {rows : List ρ} (h : rows.Pairwise (column · < column ·)) :
    o.sort rows = rows := by
  refine (o.perm rows).eq_of_pairwise ?_ (o.ascending rows) (h.imp Int.le_of_lt)
  intro a b mem mem' le le'
  by_contra different
  have apart := h.imp (S := fun x y => column x ≠ column y) Int.ne_of_lt
  have symm : Std.Symm fun x y : ρ => column x ≠ column y := ⟨fun _ _ => Ne.symm⟩
  exact apart.forall ((o.perm rows).subset mem) mem' different (Int.le_antisymm le le')

end OrderBy

namespace Table

def empty (key : ρ → κ) : Table key := ⟨[], List.nodup_nil⟩

/-- `SELECT … WHERE`, in the order of the table. -/
def select (t : Table key) (p : ρ → Bool) : List ρ := t.rows.filter p

/-- `DELETE … WHERE`, with the number of rows deleted. -/
def deleteWhere (t : Table key) (p : ρ → Bool) : Table key × Nat :=
  (⟨t.rows.filter (!p ·), t.keys_nodup.sublist (List.filter_sublist.map _)⟩, t.rows.countP p)

@[simp] theorem deleteWhere_snd (t : Table key) (p : ρ → Bool) :
    (t.deleteWhere p).2 = t.rows.countP p := rfl

theorem select_deleteWhere (t : Table key) (p q : ρ → Bool) :
    (t.deleteWhere p).1.select q = (t.select q).filter (!p ·) :=
  List.filter_comm ..

theorem deleteWhere_twice (t : Table key) (p q : ρ → Bool) :
    ((t.deleteWhere p).1.deleteWhere q).1 = (t.deleteWhere fun row => p row || q row).1 := by
  simp [deleteWhere, List.filter_filter, Bool.and_comm]

theorem countP_twice (rows : List ρ) (p q : ρ → Bool) :
    rows.countP p + (rows.filter (!p ·)).countP q = rows.countP fun row => p row || q row := by
  induction rows with
  | nil => rfl
  | cons row rows ih =>
    cases hp : p row
    · simp only [List.countP_cons, List.filter_cons, hp, Bool.not_false, ↓reduceIte, Bool.false_or,
        Bool.false_eq_true]
      omega
    · simp only [List.countP_cons, List.filter_cons, hp, Bool.not_true, ↓reduceIte, Bool.true_or,
        Bool.false_eq_true]
      omega

theorem mem_deleteWhere {t : Table key} {p : ρ → Bool} {row : ρ} :
    row ∈ (t.deleteWhere p).1.rows ↔ row ∈ t.rows ∧ p row = false := by
  simp [deleteWhere]

theorem eq_of_key (t : Table key) {a b : ρ} (ha : a ∈ t.rows) (hb : b ∈ t.rows)
    (same : key a = key b) : a = b :=
  List.inj_on_of_nodup_map t.keys_nodup ha hb same

/-- Deleting by the keys of the first rows of a list leaves the rest of it. -/
theorem filter_keys_take [BEq κ] [LawfulBEq κ] {rows : List ρ} (nodup : (rows.map key).Nodup)
    (n : Nat) :
    rows.filter (fun r => !((rows.take n).map key).contains (key r)) = rows.drop n := by
  have split := List.take_append_drop n rows
  rw [← split, List.map_append, List.nodup_append] at nodup
  conv => lhs; rw [← split]
  rw [List.filter_append, List.filter_eq_nil_iff.mpr, List.nil_append, List.filter_eq_self.mpr]
  · intro r mem
    simp only [split, List.contains_eq_mem, Bool.not_eq_true', decide_eq_false_iff_not]
    intro found
    exact nodup.2.2 _ found _ (List.mem_map_of_mem mem) rfl
  · intro r mem
    simp only [split, List.contains_eq_mem, Bool.not_eq_true', decide_eq_false_iff_not, not_not]
    exact List.mem_map_of_mem mem

variable [DecidableEq κ]

/-- `INSERT OR REPLACE`. -/
def insertOrReplace (t : Table key) (row : ρ) : Table key where
  rows := t.rows.filter (key · ≠ key row) ++ [row]
  keys_nodup := by
    rw [List.map_append, List.nodup_append]
    refine ⟨t.keys_nodup.sublist (List.filter_sublist.map _), List.nodup_singleton _, ?_⟩
    intro k mem k' mem'
    obtain ⟨old, held, rfl⟩ := List.mem_map.mp mem
    rw [List.map_singleton, List.mem_singleton] at mem'
    have kept := List.of_mem_filter held
    exact mem' ▸ of_decide_eq_true kept

theorem mem_insertOrReplace {t : Table key} {row other : ρ} :
    other ∈ (t.insertOrReplace row).rows ↔
      (other ∈ t.rows ∧ key other ≠ key row) ∨ other = row := by
  simp [insertOrReplace]

theorem insertOrReplace_fresh {t : Table key} {row : ρ} (fresh : ∀ r ∈ t.rows, key r ≠ key row) :
    (t.insertOrReplace row).rows = t.rows ++ [row] := by
  have all : t.rows.filter (key · ≠ key row) = t.rows := by
    rw [List.filter_eq_self]
    intro r mem
    exact decide_eq_true (fresh r mem)
  exact congrArg (· ++ [row]) all

end Table

end Qev
