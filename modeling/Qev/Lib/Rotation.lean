import Mathlib.Data.Int.ModEq
import Mathlib.Data.List.Basic

/-! Moving along a ring: a list without repetitions, whose end meets its start. -/

namespace Qev.Rotation

variable {α : Type} [DecidableEq α]

/-- The member `k` places after `a`, or before it where `k` is negative. -/
def rotate (ring : List α) (k : ℤ) (a : α) : α :=
  ring.getD (((ring.idxOf a : ℤ) + k) % ring.length).toNat a

variable {ring : List α} {a : α}

theorem position_lt (mem : a ∈ ring) (k : ℤ) :
    (((ring.idxOf a : ℤ) + k) % ring.length).toNat < ring.length := by
  have some_place : 0 < ring.length := List.length_pos_of_mem mem
  have lower := Int.emod_nonneg ((ring.idxOf a : ℤ) + k) (by omega : (ring.length : ℤ) ≠ 0)
  have upper := Int.emod_lt_of_pos ((ring.idxOf a : ℤ) + k) (by omega : 0 < (ring.length : ℤ))
  omega

theorem rotate_eq_getElem (mem : a ∈ ring) (k : ℤ) :
    rotate ring k a = ring.get ⟨_, position_lt mem k⟩ := by
  rw [rotate, List.getD_eq_getElem?_getD,
    List.getElem?_eq_getElem (position_lt mem k)]
  rfl

theorem rotate_mem (mem : a ∈ ring) (k : ℤ) : rotate ring k a ∈ ring := by
  rw [rotate_eq_getElem mem]
  exact List.get_mem _ _

theorem idxOf_rotate (nodup : ring.Nodup) (mem : a ∈ ring) (k : ℤ) :
    (ring.idxOf (rotate ring k a) : ℤ) = ((ring.idxOf a : ℤ) + k) % ring.length := by
  have some_place : 0 < ring.length := List.length_pos_of_mem mem
  have lower := Int.emod_nonneg ((ring.idxOf a : ℤ) + k) (by omega : (ring.length : ℤ) ≠ 0)
  rw [rotate_eq_getElem mem, List.get_eq_getElem, nodup.idxOf_getElem]
  exact Int.toNat_of_nonneg lower

/-- Two members in the same place are one. -/
theorem eq_of_idxOf {b : α} (mem : a ∈ ring) (same : ring.idxOf a = ring.idxOf b) : a = b :=
  (List.idxOf_inj mem).mp same

theorem rotate_zero (nodup : ring.Nodup) (mem : a ∈ ring) : rotate ring 0 a = a := by
  apply eq_of_idxOf (rotate_mem mem 0)
  have place := idxOf_rotate nodup mem 0
  have bound := List.idxOf_lt_length_of_mem mem
  rw [add_zero, Int.emod_eq_of_lt (by omega) (by omega)] at place
  exact_mod_cast place

/-- A turn that is no number of whole rounds moves every member. -/
theorem rotate_ne (nodup : ring.Nodup) (mem : a ∈ ring) {k : ℤ}
    (partial_ : ¬ (ring.length : ℤ) ∣ k) :
    rotate ring k a ≠ a := by
  intro same
  have place := idxOf_rotate nodup mem k
  have bound := List.idxOf_lt_length_of_mem mem
  rw [same] at place
  have here : (ring.idxOf a : ℤ) % ring.length = ring.idxOf a :=
    Int.emod_eq_of_lt (by omega) (by omega)
  apply partial_
  have round : ((ring.idxOf a : ℤ) + k) % ring.length = (ring.idxOf a : ℤ) % ring.length := by
    rw [here, ← place]
  have whole := Int.ModEq.dvd (show (ring.idxOf a : ℤ) ≡ ring.idxOf a + k [ZMOD ring.length] from
    round.symm)
  rwa [add_sub_cancel_left] at whole

/-- Turns add up. -/
theorem rotate_rotate (nodup : ring.Nodup) (mem : a ∈ ring) (k l : ℤ) :
    rotate ring l (rotate ring k a) = rotate ring (k + l) a := by
  have mem' := rotate_mem mem k
  apply eq_of_idxOf (rotate_mem mem' l)
  have twice := idxOf_rotate nodup mem' l
  have once := idxOf_rotate nodup mem (k + l)
  rw [idxOf_rotate nodup mem k, Int.emod_add_emod, add_assoc, ← once] at twice
  exact_mod_cast twice

/-- A turn back undoes a turn. -/
theorem rotate_neg (nodup : ring.Nodup) (mem : a ∈ ring) (k : ℤ) :
    rotate ring (-k) (rotate ring k a) = a := by
  rw [rotate_rotate nodup mem, add_neg_cancel, rotate_zero nodup mem]

end Qev.Rotation
