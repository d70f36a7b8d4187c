import Qev.Lib.Run

/-! Many callers of one store that is kept in memory and on disk. A call applies
its update to the memory and, in a second step, saves all of the memory; between
the two any other call may take its steps. -/

namespace Qev

/-- An update comes with whether it succeeds; a call whose update fails ends
there. -/
structure WriteThrough (σ δ ω : Type) where
  apply : σ → ω → σ × Bool
  save : σ → δ → δ

namespace WriteThrough

variable {σ δ ω : Type}

/-- A call goes by the number of calls whose first step ran before its own. -/
structure State (σ δ : Type) where
  memory : σ
  disk : δ
  begun : Nat
  /-- The calls that are between their two steps. -/
  pending : List Nat

def State.quiet (memory : σ) (disk : δ) : State σ δ := ⟨memory, disk, 0, []⟩

inductive Event (ω : Type) where
  | first (w : ω)
  | second (call : Nat)

def step (W : WriteThrough σ δ ω) (s : State σ δ) : Event ω → State σ δ
  | .first w =>
    { s with
      memory := (W.apply s.memory w).1
      begun := s.begun + 1
      pending := if (W.apply s.memory w).2 then s.pending ++ [s.begun] else s.pending }
  | .second call =>
    if call ∈ s.pending then
      { s with disk := W.save s.memory s.disk, pending := s.pending.erase call }
    else s

/-- The updates of the calls, in the order of their first steps. -/
def updates : List (Event ω) → List ω
  | [] => []
  | .first w :: events => w :: updates events
  | .second _ :: events => updates events

/-- The updates one after another. -/
def sequential (W : WriteThrough σ δ ω) (memory : σ) (ws : List ω) : σ :=
  ws.foldl (fun m w => (W.apply m w).1) memory

/-- Which disks hold which memory: a save of a valid memory makes one that does,
and an update that fails leaves the memory as it was. -/
structure Faithful (W : WriteThrough σ δ ω) (Valid : σ → Prop) (Image : σ → δ → Prop) : Prop where
  apply_valid : ∀ m w, Valid m → Valid (W.apply m w).1
  saves : ∀ m d, Valid m → Image m (W.save m d)
  failing : ∀ m w, (W.apply m w).2 = false → (W.apply m w).1 = m

variable {W : WriteThrough σ δ ω} {Valid : σ → Prop} {Image : σ → δ → Prop} {memory : σ} {disk : δ}

theorem updates_append (events more : List (Event ω)) :
    updates (events ++ more) = updates events ++ updates more := by
  induction events with
  | nil => rfl
  | cons e events ih =>
    cases e with
    | first w => exact congrArg (w :: ·) ih
    | second call => exact ih

theorem sequential_snoc (ws : List ω) (w : ω) :
    W.sequential memory (ws ++ [w]) = (W.apply (W.sequential memory ws) w).1 := by
  simp [sequential]

/-- What holds at every moment of every interleaving. -/
structure Inv (W : WriteThrough σ δ ω) (Valid : σ → Prop) (Image : σ → δ → Prop) (memory : σ)
    (events : List (Event ω)) (s : State σ δ) : Prop where
  memory : s.memory = W.sequential memory (updates events)
  valid : Valid s.memory
  begun : s.begun = (updates events).length
  pending : ∀ call ∈ s.pending, call < s.begun
  quiet : s.pending = [] → Image s.memory s.disk

theorem Inv.step_first {events : List (Event ω)} {s : State σ δ} (faithful : W.Faithful Valid Image)
    (inv : Inv W Valid Image memory events s) (w : ω) :
    Inv W Valid Image memory (events ++ [.first w]) (W.step s (.first w)) where
  memory := by
    rw [updates_append, updates, updates, sequential_snoc, ← inv.memory]
    rfl
  valid := faithful.apply_valid _ w inv.valid
  begun := by
    rw [updates_append, List.length_append, ← inv.begun]
    rfl
  pending := by
    intro call mem
    simp only [step] at mem ⊢
    split at mem
    · rcases List.mem_append.mp mem with old | new
      · have := inv.pending call old
        omega
      · obtain rfl := List.mem_singleton.mp new
        exact Nat.lt_succ_self _
    · have := inv.pending call mem
      omega
  quiet := by
    intro none
    simp only [step] at none ⊢
    split at none
    · exact absurd none (List.append_ne_nil_of_right_ne_nil _ (List.cons_ne_nil _ _))
    · rename_i failed
      rw [faithful.failing _ w (Bool.not_eq_true _ ▸ failed)]
      exact inv.quiet none

theorem Inv.step_second {events : List (Event ω)} {s : State σ δ}
    (faithful : W.Faithful Valid Image)
    (inv : Inv W Valid Image memory events s) (call : Nat) :
    Inv W Valid Image memory (events ++ [.second call]) (W.step s (.second call)) := by
  have same : updates (events ++ [.second call]) = updates events := by
    rw [updates_append, updates, updates, List.append_nil]
  simp only [step]
  split
  · constructor
    · rw [same]
      exact inv.memory
    · exact inv.valid
    · rw [same]
      exact inv.begun
    · intro other mem
      exact inv.pending other (List.mem_of_mem_erase mem)
    · intro _
      exact faithful.saves _ _ inv.valid
  · exact ⟨by rw [same]; exact inv.memory, inv.valid, by rw [same]; exact inv.begun, inv.pending,
      inv.quiet⟩

theorem inv_run (faithful : W.Faithful Valid Image) (valid : Valid memory)
    (start : Image memory disk) (events : List (Event ω)) :
    Inv W Valid Image memory events (run W.step (.quiet memory disk) events) := by
  apply Run.invariant
  · exact ⟨rfl, valid, rfl, nofun, fun _ => start⟩
  · intro events e inv
    cases e with
    | first w => exact inv.step_first faithful w
    | second call => exact inv.step_second faithful call

/-- No update is lost: the memory is that of the calls one after another; when a
call returns, the disk holds a memory with its update in it; and when no call is
between its steps, the disk holds the memory. -/
structure KeepsAll (W : WriteThrough σ δ ω) (Image : σ → δ → Prop) (memory : σ) (disk : δ)
    (events : List (Event ω)) : Prop where
  serial : (run W.step (.quiet memory disk) events).memory = W.sequential memory (updates events)
  returned : ∀ before call, before ++ [.second call] <+: events →
    call ∈ (run W.step (.quiet memory disk) before).pending →
    call < (updates before).length ∧ Image (W.sequential memory (updates before))
      (run W.step (.quiet memory disk) (before ++ [.second call])).disk
  quiet : (run W.step (.quiet memory disk) events).pending = [] →
    Image (run W.step (.quiet memory disk) events).memory
      (run W.step (.quiet memory disk) events).disk

theorem keeps_all (faithful : W.Faithful Valid Image) (valid : Valid memory)
    (start : Image memory disk) (events : List (Event ω)) :
    W.KeepsAll Image memory disk events where
  serial := (inv_run faithful valid start events).memory
  returned before call _ mem := by
    have inv := inv_run faithful valid start before
    constructor
    · rw [← inv.begun]
      exact inv.pending call mem
    · rw [Run.snoc, step, if_pos mem, ← inv.memory]
      exact faithful.saves _ _ inv.valid
  quiet := (inv_run faithful valid start events).quiet

end WriteThrough

end Qev
