import Mathlib.Data.List.Basic

/-! Reading back self-delimiting items: one item, a whole stream, a stream with
a trailing piece. -/

namespace Qev.Codec

variable {α β : Type}

/-- `read` takes exactly what `write` put in front of the input. -/
def ReadsBack (write : α → List β) (read : List β → Option (α × List β)) : Prop :=
  ∀ x rest, read (write x ++ rest) = some (x, rest)

/-- What `read` takes is what `write` writes. -/
def ReadsOnly (write : α → List β) (read : List β → Option (α × List β)) : Prop :=
  ∀ input x rest, read input = some (x, rest) → input = write x ++ rest

/-- Items until the input is empty; `none` when one of them cannot be read. -/
def readAll (read : List β → Option (α × List β)) : Nat → List β → Option (List α)
  | _, [] => some []
  | 0, _ :: _ => none
  | fuel + 1, input =>
    match read input with
    | none => none
    | some (x, rest) => (readAll read fuel rest).map (x :: ·)

theorem length_le_flatMap {write : α → List β} (nonempty : ∀ x, write x ≠ []) (xs : List α) :
    xs.length ≤ (xs.flatMap write).length := by
  induction xs with
  | nil => exact Nat.le_refl 0
  | cons x xs ih =>
    have one := List.length_pos_of_ne_nil (nonempty x)
    rw [List.flatMap_cons, List.length_append, List.length_cons]
    omega

theorem ReadsBack.injective {write : α → List β} {read : List β → Option (α × List β)}
    (h : ReadsBack write read) {x y : α} {r s : List β} (e : write x ++ r = write y ++ s) :
    x = y ∧ r = s := by
  have hx := h x r
  rw [e, h y s] at hx
  simpa using hx.symm

/-- A stream of written items reads back as those items. -/
theorem ReadsBack.readAll_flatMap {write : α → List β} {read : List β → Option (α × List β)}
    (h : ReadsBack write read) (nonempty : ∀ x, write x ≠ []) (xs : List α) (fuel : Nat)
    (enough : (xs.flatMap write).length ≤ fuel) :
    readAll read fuel (xs.flatMap write) = some xs := by
  induction xs generalizing fuel with
  | nil => cases fuel <;> rfl
  | cons x xs ih =>
    have hx := h x (xs.flatMap write)
    have pos : 0 < (write x).length := List.length_pos_iff.mpr (nonempty x)
    simp only [List.flatMap_cons, List.length_append] at enough ⊢
    cases hw : write x ++ xs.flatMap write with
    | nil => simp [nonempty x] at hw
    | cons b bs =>
      cases fuel with
      | zero => omega
      | succ fuel => simp [readAll, ← hw, hx, ih fuel (by omega)]

theorem ReadsOnly.readAll_eq {write : α → List β} {read : List β → Option (α × List β)}
    (h : ReadsOnly write read) {fuel : Nat} {input : List β} {xs : List α}
    (e : readAll read fuel input = some xs) : input = xs.flatMap write := by
  induction fuel generalizing input xs with
  | zero =>
    cases input with
    | nil => simp only [readAll, Option.some.injEq] at e; simp [← e]
    | cons b bs => simp [readAll] at e
  | succ fuel ih =>
    cases input with
    | nil => simp only [readAll, Option.some.injEq] at e; simp [← e]
    | cons b bs =>
      rw [readAll] at e
      · split at e
        · cases e
        · rename_i x rest hr
          obtain ⟨ys, hys, rfl⟩ := Option.map_eq_some_iff.mp e
          rw [List.flatMap_cons, ← ih hys]
          exact h _ _ _ hr
      · simp

/-- Items up to the first `stop`, which is taken off as well. -/
def readUntil [DecidableEq β] (stop : β) (read : List β → Option (α × List β)) :
    Nat → List β → Option (List α × List β)
  | 0, _ => none
  | _, [] => none
  | fuel + 1, b :: bs =>
    if b = stop then some ([], bs)
    else match read (b :: bs) with
      | none => none
      | some (x, rest) => (readUntil stop read fuel rest).map fun (xs, rest) => (x :: xs, rest)

/-- One item in front of a stream that is read. -/
theorem readUntil_cons [DecidableEq β] {read : List β → Option (α × List β)} {stop b : β} {x : α}
    {tail rest rest' : List β} {xs : List α} {fuel : Nat} (other : b ≠ stop)
    (one : read (b :: tail) = some (x, rest))
    (later : readUntil stop read fuel rest = some (xs, rest')) :
    readUntil stop read (fuel + 1) (b :: tail) = some (x :: xs, rest') := by
  rw [readUntil, if_neg other, one]
  simp [later]

theorem ReadsBack.readUntil_flatMap [DecidableEq β] {write : α → List β}
    {read : List β → Option (α × List β)} (h : ReadsBack write read) {stop : β}
    (head : ∀ x, ∃ b tail, write x = b :: tail ∧ b ≠ stop) (xs : List α) (rest : List β)
    (fuel : Nat) (enough : (xs.flatMap write).length < fuel) :
    readUntil stop read fuel (xs.flatMap write ++ stop :: rest) = some (xs, rest) := by
  induction xs generalizing fuel with
  | nil =>
    cases fuel with
    | zero => cases enough
    | succ fuel => simp [readUntil]
  | cons x xs ih =>
    obtain ⟨b, tail, written, other⟩ := head x
    have one := h x (xs.flatMap write ++ stop :: rest)
    rw [List.flatMap_cons, List.length_append, written, List.length_cons] at enough
    rw [written, List.cons_append] at one
    cases fuel with
    | zero => cases enough
    | succ fuel =>
      rw [List.flatMap_cons, List.append_assoc, written, List.cons_append]
      exact readUntil_cons other one (ih fuel (by omega))

end Qev.Codec
