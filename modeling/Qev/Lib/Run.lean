import Mathlib.Data.List.Infix
import Mathlib.Data.List.Induction

/-! Runs of a state machine: a step function folded over a list of events. -/

namespace Qev

variable {σ ε : Type}

/-- The state that `events` lead to from `s`. -/
def run (step : σ → ε → σ) (s : σ) (events : List ε) : σ := events.foldl step s

namespace Run

variable {step : σ → ε → σ} {s : σ}

@[simp] theorem nil : run step s [] = s := rfl

@[simp] theorem cons (e : ε) (events : List ε) :
    run step s (e :: events) = run step (step s e) events := rfl

@[simp] theorem snoc (events : List ε) (e : ε) :
    run step s (events ++ [e]) = step (run step s events) e := by
  simp [run]

theorem append (events later : List ε) :
    run step s (events ++ later) = run step (run step s events) later := by
  simp [run]

theorem map {ε' : Type} (f : ε' → ε) (events : List ε') :
    run step s (events.map f) = run (fun s e => step s (f e)) s events := by
  simp [run, List.foldl_map]

/-- A property of the past and the state that every step keeps holds of every
run. -/
theorem invariant {P : List ε → σ → Prop} (start : P [] s)
    (kept : ∀ events e, P events (run step s events) →
      P (events ++ [e]) (step (run step s events) e)) (events : List ε) :
    P events (run step s events) := by
  induction events using List.reverseRecOn with
  | nil => exact start
  | append_singleton events e ih =>
    rw [snoc]
    exact kept events e ih

/-- The same for the runs whose every step meets a condition on the state it
starts from. -/
theorem invariant_of_meets {P : List ε → σ → Prop} {M : σ → ε → Prop} (start : P [] s)
    (kept : ∀ events e, P events (run step s events) → M (run step s events) e →
      P (events ++ [e]) (step (run step s events) e))
    (events : List ε)
    (meets : ∀ before e, before ++ [e] <+: events → M (run step s before) e) :
    P events (run step s events) := by
  induction events using List.reverseRecOn with
  | nil => exact start
  | append_singleton events e ih =>
    rw [snoc]
    refine kept events e (ih ?_) (meets events e List.prefix_rfl)
    intro before e' early
    exact meets before e' (early.trans (List.prefix_append _ _))

/-- Every step of a run meets a condition on the state it starts from. -/
def Along (step : σ → ε → σ) (M : σ → ε → Prop) : σ → List ε → Prop
  | _, [] => True
  | s, e :: events => M s e ∧ Along step M (step s e) events

instance decidableAlong (step : σ → ε → σ) (M : σ → ε → Prop) [∀ s e, Decidable (M s e)] :
    (s : σ) → (events : List ε) → Decidable (Along step M s events)
  | _, [] => isTrue trivial
  | s, e :: events =>
    have := decidableAlong step M (step s e) events
    inferInstanceAs (Decidable (M s e ∧ Along step M (step s e) events))

theorem along_iff {M : σ → ε → Prop} {events : List ε} :
    Along step M s events ↔ ∀ before e, before ++ [e] <+: events → M (run step s before) e := by
  induction events generalizing s with
  | nil => simp [Along]
  | cons e events ih =>
    rw [Along, ih]
    constructor
    · rintro ⟨first, rest⟩ before e' early
      cases before with
      | nil =>
        obtain ⟨rfl, -⟩ := List.cons_prefix_cons.mp early
        exact first
      | cons e'' before =>
        obtain ⟨rfl, later⟩ := List.cons_prefix_cons.mp early
        exact rest before e' later
    · intro all
      constructor
      · exact all [] e (by simp)
      · intro before e' early
        exact all (e :: before) e' (List.cons_prefix_cons.mpr ⟨rfl, early⟩)

/-- What the steps that meet the condition keep holds all along such a run. -/
theorem Along.invariant {I : σ → Prop} {M : σ → ε → Prop} {events : List ε}
    (along : Along step M s events) (start : I s)
    (kept : ∀ s e, I s → M s e → I (step s e)) :
    ∀ before, before <+: events → I (run step s before) := by
  intro before early
  induction before using List.reverseRecOn with
  | nil => exact start
  | append_singleton before e ih =>
    rw [snoc]
    exact kept _ e (ih ((List.prefix_append _ _).trans early)) (along_iff.mp along before e early)

/-- Where a step keeps a property exactly if it meets the condition, the property
holds all along a run if and only if every step meets it. -/
theorem along_iff_always {I P : σ → Prop} {M : σ → ε → Prop} {events : List ε} (start : I s)
    (implies : ∀ s, I s → P s) (kept : ∀ e ∈ events, ∀ s, I s → M s e → I (step s e))
    (only : ∀ e ∈ events, ∀ s, I s → P (step s e) → M s e) :
    (∀ before, before <+: events → P (run step s before)) ↔ Along step M s events := by
  induction events generalizing s with
  | nil =>
    refine ⟨fun _ => trivial, fun _ before early => ?_⟩
    rw [List.prefix_nil.mp early]
    exact implies s start
  | cons e events ih =>
    have later (next : I (step s e)) := ih next
      (fun e' mem => kept e' (List.mem_cons_of_mem _ mem))
      (fun e' mem => only e' (List.mem_cons_of_mem _ mem))
    constructor
    · intro always
      have meets := only e List.mem_cons_self s start (always [e] (by simp))
      refine ⟨meets, (later (kept e List.mem_cons_self s start meets)).mp ?_⟩
      intro before early
      exact always (e :: before) (List.cons_prefix_cons.mpr ⟨rfl, early⟩)
    · rintro ⟨meets, rest⟩ before early
      cases before with
      | nil => exact implies s start
      | cons e' before =>
        obtain ⟨rfl, inner⟩ := List.cons_prefix_cons.mp early
        exact (later (kept _ List.mem_cons_self s start meets)).mpr rest before inner

end Run

/-- Of two moments of one run, the first, the second, or neither is earlier. -/
theorem moments {events before before' : List ε} {e e' : ε} (h : before ++ [e] <+: events)
    (h' : before' ++ [e'] <+: events) :
    before ++ [e] <+: before' ∨ before' ++ [e'] <+: before ∨ before = before' ∧ e = e' := by
  rcases List.prefix_or_prefix_of_prefix h h' with le | le
  · rcases List.prefix_concat_iff.mp le with same | earlier
    · obtain ⟨rfl, last⟩ := List.append_inj' same rfl
      exact .inr (.inr ⟨rfl, List.singleton_inj.mp last⟩)
    · exact .inl earlier
  · rcases List.prefix_concat_iff.mp le with same | earlier
    · obtain ⟨rfl, last⟩ := List.append_inj' same rfl
      exact .inr (.inr ⟨rfl, (List.singleton_inj.mp last).symm⟩)
    · exact .inr (.inl earlier)

end Qev
