import Mathlib.Data.List.DropRight
import Qev.Lib.Keyed

/-! Logs of which the last entries are kept: what is appended and changed in the
part that is kept, against the log of everything. -/

namespace Qev.BoundedLog

variable {α β κ : Type} {cap : Nat}

theorem length_rtake (log : List α) : (log.rtake cap).length = min cap log.length := by
  rw [List.rtake, List.length_drop]
  omega

theorem map_rtake (f : α → β) (log : List α) : (log.rtake cap).map f = (log.map f).rtake cap := by
  rw [List.rtake, List.rtake, List.map_drop, List.length_map]

/-- What is dropped at the front stays dropped. -/
theorem rtake_append (log : List α) (a : α) :
    (log.rtake cap ++ [a]).rtake cap = (log ++ [a]).rtake cap := by
  simp only [List.rtake, List.length_append, List.length_drop, List.length_singleton]
  rw [← List.drop_append_of_le_length (by omega), List.drop_drop]
  congr 1
  omega

/-- A loop that drops the first entry while there are too many. -/
theorem rtake_cons (a : α) (log : List α) :
    (a :: log).rtake cap = if (a :: log).length > cap then log.rtake cap else a :: log := by
  simp only [List.rtake, List.length_cons]
  split
  · rename_i many
    rw [Nat.sub_add_comm (by omega), List.drop_succ_cons]
  · rename_i few
    rw [Nat.sub_eq_zero_of_le (by omega), List.drop_zero]

/-- What is added is kept, with the entries before it that there is room for. -/
theorem rtake_concat (room : 0 < cap) (log : List α) (a : α) :
    (log ++ [a]).rtake cap = log.rtake (cap - 1) ++ [a] := by
  cases cap with
  | zero => cases room
  | succ n => rw [List.rtake_concat_succ, Nat.add_sub_cancel]

/-- A change of the entries that are kept, in the log of everything. -/
def modifyKept (cap : Nat) (f : List α → List α) (log : List α) : List α :=
  log.take (log.length - cap) ++ f (log.rtake cap)

theorem rtake_modifyKept {f : List α → List α} (keeps : ∀ l, (f l).length = l.length)
    (log : List α) : (modifyKept cap f log).rtake cap = f (log.rtake cap) := by
  have whole : (modifyKept cap f log).length = log.length := by
    rw [modifyKept, List.length_append, keeps, List.length_take, length_rtake]
    omega
  rw [List.rtake, whole, modifyKept, List.drop_left']
  rw [List.length_take]
  omega

theorem map_modifyKept {f : List α → List α} (g : α → β) (keeps : ∀ l, (f l).map g = l.map g)
    (log : List α) : (modifyKept cap f log).map g = log.map g := by
  rw [modifyKept, List.map_append, keeps, ← List.map_append, List.rtake, List.take_append_drop]

end Qev.BoundedLog
