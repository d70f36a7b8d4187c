import Mathlib.Logic.ExistsUnique
import Qev.Lib.Run
import Qev.Relay.Store

/-! What becomes of the envelopes put in an `InMemoryStore`, over any sequence
of calls. -/

namespace Qev.Relay

/-- A call of an `EnvelopeStore`. `drawn` is the id that `put` draws where the
envelope has none. -/
inductive StoreCall where
  | put (env : Envelope) (drawn : EnvelopeId)
  | get_pending (to_ : Pk) (limit : UInt64)
  | delete (requester_pk : Pk) (ids : List EnvelopeId)
  | count_pending (to_ : Pk)
  | evict_older_than (now_ms max_age_ms : UInt64)

/-- What a call returns. -/
inductive StoreReply where
  | id (id : EnvelopeId)
  | pending (batch : List Envelope) (has_more : Bool)
  | deleted (n : Nat)
  | count (n : Nat)
  | evicted (n : Nat)
  deriving DecidableEq, Repr

namespace InMemoryStore

def call (s : InMemoryStore) : StoreCall → InMemoryStore × StoreReply
  | .put env drawn => let (s, id) := s.put env drawn; (s, .id id)
  | .get_pending to_ limit =>
    let (batch, has_more) := s.get_pending to_ limit.toNat; (s, .pending batch has_more)
  | .delete requester_pk ids => let (s, n) := s.delete requester_pk ids; (s, .deleted n)
  | .count_pending to_ => (s, .count (s.count_pending to_))
  | .evict_older_than now_ms max_age_ms =>
    let (s, n) := s.evict_older_than now_ms max_age_ms; (s, .evicted n)

/-- The store, new with this cap, after a sequence of calls. -/
def after (max : Nat) (calls : List StoreCall) : InMemoryStore :=
  run (fun s c => (s.call c).1) (new max) calls

@[simp] theorem after_nil (max : Nat) : after max [] = new max := rfl

@[simp] theorem after_snoc (max : Nat) (calls : List StoreCall) (c : StoreCall) :
    after max (calls ++ [c]) = ((after max calls).call c).1 := Run.snoc calls c

theorem call_max (s : InMemoryStore) (c : StoreCall) :
    (s.call c).1.max_per_recipient = s.max_per_recipient := by
  cases c with
  | delete requester ids =>
    simp only [call, delete]
    cases s.inner.get requester <;> rfl
  | _ => rfl

@[simp] theorem after_max (max : Nat) (calls : List StoreCall) :
    (after max calls).max_per_recipient = max :=
  Run.invariant (P := fun _ (s : InMemoryStore) => s.max_per_recipient = max) rfl
    (fun _ c same => (call_max _ c).trans same) calls

end InMemoryStore

/-! ## What was put -/

/-- The envelopes that calls put, as the store keeps them, in order. -/
def puts (calls : List StoreCall) : List Envelope :=
  calls.filterMap fun
    | .put env drawn => some (InMemoryStore.assigned env drawn)
    | _ => none

def putsTo (to_ : Pk) (calls : List StoreCall) : List Envelope :=
  (puts calls).filter (·.to_ = to_)

theorem puts_append (calls later : List StoreCall) : puts
    (calls ++ later) = puts calls ++ puts later :=
  List.filterMap_append

theorem puts_mono {calls all : List StoreCall} (h : calls <+: all) : puts calls <+: puts all :=
  h.filterMap _

theorem putsTo_append (to_ : Pk) (calls later : List StoreCall) :
    putsTo to_ (calls ++ later) = putsTo to_ calls ++ putsTo to_ later := by
  rw [putsTo, puts_append, List.filter_append]
  rfl

theorem putsTo_put (to_ : Pk) (env : Envelope) (drawn : EnvelopeId) :
    putsTo to_ [.put env drawn] =
      if to_ = env.to_ then [InMemoryStore.assigned env drawn] else [] := by
  by_cases same : to_ = env.to_
  · simp [putsTo, puts, same]
  · simp [putsTo, puts, same, Ne.symm same]

/-! ## The queues -/

namespace InMemoryStore

variable {max : Nat} {calls : List StoreCall} {e : Envelope}

/-- Whatever a call does to a queue, it removes from the queue and, for `put`,
the new envelope. -/
theorem pending_call (s : InMemoryStore) (c : StoreCall) (to_ : Pk) :
    ((s.call c).1.pending to_).Sublist (s.pending to_ ++ putsTo to_ [c]) := by
  cases c with
  | put env drawn =>
    simp only [call, pending_put_assigned, putsTo_put]
    by_cases same : to_ = env.to_
    · simp only [same, ↓reduceIte, popOver_eq]
      exact List.drop_sublist _ _
    · simp [same]
  | delete requester ids =>
    simp only [call, pending_delete]
    split
    · exact List.filter_sublist.trans (List.sublist_append_left _ _)
    · exact List.sublist_append_left _ _
  | evict_older_than now age =>
    simp only [call, pending_evict]
    exact List.filter_sublist.trans (List.sublist_append_left _ _)
  | get_pending | count_pending => exact List.sublist_append_left _ _

/-- A queue is in put order. -/
theorem pending_sublist (max : Nat) (calls : List StoreCall) (to_ : Pk) :
    ((after max calls).pending to_).Sublist (putsTo to_ calls) := by
  refine Run.invariant (P := fun calls (s : InMemoryStore) =>
    (s.pending to_).Sublist (putsTo to_ calls)) ?_ ?_ calls
  · simp
  · intro calls c ih
    rw [putsTo_append]
    exact (pending_call _ c to_).trans (ih.append_right _)

/-- A queue never grows over the cap. -/
theorem pending_length (max : Nat) (calls : List StoreCall) (to_ : Pk) :
    ((after max calls).pending to_).length ≤ max := by
  induction calls using List.reverseRecOn with
  | nil => simp
  | append_singleton calls c ih =>
    rw [after_snoc]
    cases c with
    | put env drawn =>
      simp only [call, pending_put_assigned]
      split
      · simp only [popOver_eq, after_max, List.length_drop]
        omega
      · exact ih
    | delete requester ids =>
      simp only [call, pending_delete]
      split
      · exact (List.length_filter_le _ _).trans ih
      · exact ih
    | evict_older_than now age =>
      simp only [call, pending_evict]
      exact (List.length_filter_le _ _).trans ih
    | get_pending | count_pending => exact ih

theorem mem_puts_of_pending {to_ : Pk} (h : e ∈ (after max calls).pending to_) :
    e ∈ puts calls ∧ e.to_ = to_ := by
  simpa [putsTo] using (pending_sublist max calls to_).subset h

theorem putsTo_nodup (fresh : ((puts calls).map Envelope.id).Nodup) (to_ : Pk) :
    (putsTo to_ calls).Nodup :=
  fresh.of_map.filter _

/-- An envelope whose put is over and that its recipient's queue does not hold. -/
def Gone (max : Nat) (calls : List StoreCall) (e : Envelope) : Prop :=
  e ∈ puts calls ∧ e ∉ (after max calls).pending e.to_

/-- What is gone does not come back. -/
theorem Gone.later {later : List StoreCall}
    (fresh : ((puts (calls ++ later)).map Envelope.id).Nodup) (gone : Gone max calls e) :
    Gone max (calls ++ later) e := by
  induction later using List.reverseRecOn with
  | nil => simpa using gone
  | append_singleton later c ih =>
    rw [← List.append_assoc] at fresh ⊢
    have nodup := fresh.of_map
    rw [puts_append] at nodup fresh
    rw [List.map_append] at fresh
    obtain ⟨put, absent⟩ := ih (fresh.sublist (List.sublist_append_left _ _))
    refine ⟨by rw [puts_append]; exact List.mem_append_left _ put, ?_⟩
    intro back
    rw [after_snoc] at back
    rcases List.mem_append.mp ((pending_call _ c e.to_).subset back) with held | again
    · exact absent held
    · exact (List.nodup_append.mp nodup).2.2 e put e (List.mem_of_mem_filter again) rfl

end InMemoryStore

/-! ## Where every envelope went -/

/-- What can have become of an envelope that was put. -/
inductive Fate where
  | pending
  | deleted
  | capped
  | aged
  deriving DecidableEq, Repr

open InMemoryStore in
/-- `fate` is what became of `e` in `calls`: the queue holds it once; a delete
by its recipient named it while it was there; a put to its recipient that had
the cap's number of puts since (itself counted) pushed it out; or an eviction
found it too old. -/
def Fate.Of (max : Nat) (calls : List StoreCall) (e : Envelope) : Fate → Prop
  | .pending => ((after max calls).pending e.to_).count e = 1
  | .deleted => ∃ before ids, before ++ [.delete e.to_ ids] <+: calls ∧
      e ∈ (after max before).pending e.to_ ∧ e.id ∈ ids
  | .capped => ∃ before env drawn older newer, before ++ [.put env drawn] <+: calls ∧
      ¬ Gone max before e ∧ e ∉ (after max (before ++ [.put env drawn])).pending e.to_ ∧
      env.to_ = e.to_ ∧ putsTo e.to_ (before ++ [.put env drawn]) = older ++ e :: newer ∧
      max ≤ newer.length
  | .aged => ∃ before now_ms max_age_ms, before ++ [.evict_older_than now_ms max_age_ms] <+: calls ∧
      e ∈ (after max before).pending e.to_ ∧ e.created_at.toNat < now_ms.toNat - max_age_ms.toNat

/-- How a call takes envelopes away. -/
def StoreCall.takes : StoreCall → Fate
  | .put .. => .capped
  | .delete .. => .deleted
  | .evict_older_than .. => .aged
  | .get_pending .. | .count_pending .. => .pending

open InMemoryStore

variable {max : Nat} {calls : List StoreCall} {e : Envelope}

/-- A fate other than pending stays. -/
theorem Fate.Of.later {fate : Fate} (of : fate.Of max calls e) (other : fate ≠ .pending)
    (more : List StoreCall) : fate.Of max (calls ++ more) e := by
  have longer {front : List StoreCall} (h : front <+: calls) : front <+: calls ++ more :=
    h.trans (List.prefix_append _ _)
  cases fate with
  | pending => exact absurd rfl other
  | deleted =>
    obtain ⟨before, ids, at_, rest⟩ := of
    exact ⟨before, ids, longer at_, rest⟩
  | capped =>
    obtain ⟨before, env, drawn, older, newer, at_, rest⟩ := of
    exact ⟨before, env, drawn, older, newer, longer at_, rest⟩
  | aged =>
    obtain ⟨before, now, age, at_, rest⟩ := of
    exact ⟨before, now, age, longer at_, rest⟩

/-- The envelope that a longer queue loses at its front was followed by as many
puts as the cap allows. -/
theorem pushed_out {q all : List Envelope} (order : q.Sublist all) (held : e ∈ q)
    (lost : e ∉ popOver max q) : ∃ older newer, all = older ++ e :: newer ∧ max ≤ newer.length := by
  rw [popOver_eq] at lost
  have front : e ∈ q.take (q.length - max) := by
    rw [← List.take_append_drop (q.length - max) q, List.mem_append] at held
    exact held.resolve_right lost
  obtain ⟨a, b, parts⟩ := List.append_of_mem front
  have behind : max ≤ (b ++ q.drop (q.length - max)).length := by
    have whole := congrArg List.length parts
    simp only [List.length_take, List.length_append, List.length_cons, List.length_drop] at whole ⊢
    omega
  have split : q = a ++ e :: (b ++ q.drop (q.length - max)) := by
    conv => lhs; rw [← List.take_append_drop (q.length - max) q, parts]
    simp
  rw [split] at order
  obtain ⟨all₁, all₂, rfl, -, order₂⟩ := List.append_sublist_iff.mp order
  obtain ⟨r₁, r₂, rfl, here, order₃⟩ := List.cons_sublist_iff.mp order₂
  obtain ⟨s, t, rfl⟩ := List.append_of_mem here
  refine ⟨all₁ ++ s, t ++ r₂, by simp, behind.trans ?_⟩
  exact order₃.length_le.trans (by simp)

/-- The call that ends an envelope's time in its queue says how. -/
theorem exists_fate_of_taken {c : StoreCall} (before_ : ¬ Gone max calls e)
    (after_ : Gone max (calls ++ [c]) e) : c.takes.Of max (calls ++ [c]) e := by
  obtain ⟨put, absent⟩ := after_
  have held : e ∈ (after max calls).pending e.to_ ∨ e ∈ putsTo e.to_ [c] := by
    rw [puts_append] at put
    rcases List.mem_append.mp put with old | new
    · exact .inl (by_contra fun h => before_ ⟨old, h⟩)
    · exact .inr (by simpa [putsTo] using new)
  have lost := absent
  rw [after_snoc] at lost
  cases c with
  | put env drawn =>
    simp only [call, pending_put_assigned, after_max] at lost
    by_cases same : e.to_ = env.to_
    · rw [putsTo_put, if_pos same] at held
      rw [if_pos same] at lost
      have order := (pending_sublist max calls e.to_).append_right (putsTo e.to_ [.put env drawn])
      rw [← putsTo_append, putsTo_put, if_pos same] at order
      rw [← same] at lost
      obtain ⟨older, newer, split, many⟩ := pushed_out order (List.mem_append.mpr held) lost
      exact ⟨calls, env, drawn, older, newer, List.prefix_rfl, before_, absent, same.symm, split,
        many⟩
    · rw [if_neg same] at lost
      rw [putsTo_put, if_neg same] at held
      exact absurd (held.resolve_right List.not_mem_nil) lost
  | delete requester ids =>
    have there := held.resolve_right List.not_mem_nil
    simp only [call, pending_delete] at lost
    by_cases same : e.to_ = requester
    · subst same
      refine ⟨calls, ids, List.prefix_rfl, there, ?_⟩
      by_contra unnamed
      exact lost (by simpa using ⟨there, unnamed⟩)
    · rw [if_neg same] at lost
      exact absurd there lost
  | evict_older_than now age =>
    have there := held.resolve_right List.not_mem_nil
    refine ⟨calls, now, age, List.prefix_rfl, there, ?_⟩
    simp only [call, pending_evict] at lost
    by_contra young
    exact lost (by simpa using ⟨there, by omega⟩)
  | get_pending | count_pending =>
    exact absurd (held.resolve_right List.not_mem_nil) lost

/-- A fate other than pending dates from the one call that made the envelope
go. -/
theorem Fate.Of.taken {fate : Fate} (of : fate.Of max calls e) (other : fate ≠ .pending) :
    ∃ before c, before ++ [c] <+: calls ∧ ¬ Gone max before e ∧ Gone max (before ++ [c]) e ∧
      c.takes = fate := by
  cases fate with
  | pending => exact absurd rfl other
  | deleted =>
    obtain ⟨before, ids, at_, held, named⟩ := of
    refine ⟨before, _, at_, fun gone => gone.2 held, ⟨?_, ?_⟩, rfl⟩
    · rw [puts_append]
      exact List.mem_append_left _ (mem_puts_of_pending held).1
    · simp [call, pending_delete, named]
  | capped =>
    obtain ⟨before, env, drawn, older, newer, at_, there, lost, -, split, -⟩ := of
    have mem : e ∈ putsTo e.to_ (before ++ [.put env drawn]) := by simp [split]
    exact ⟨before, _, at_, there, ⟨List.mem_of_mem_filter mem, lost⟩, rfl⟩
  | aged =>
    obtain ⟨before, now, age, at_, held, old⟩ := of
    refine ⟨before, _, at_, fun gone => gone.2 held, ⟨?_, ?_⟩, rfl⟩
    · rw [puts_append]
      exact List.mem_append_left _ (mem_puts_of_pending held).1
    · simp only [call, after_snoc, pending_evict, List.mem_filter, not_and, decide_eq_true_eq]
      intro _
      omega

/-- An envelope whose fate is known and not pending is gone. -/
theorem Fate.Of.gone (fresh : ((puts calls).map Envelope.id).Nodup) {fate : Fate}
    (of : fate.Of max calls e) (other : fate ≠ .pending) : Gone max calls e := by
  obtain ⟨before, c, ⟨later, rfl⟩, -, gone, -⟩ := of.taken other
  exact gone.later fresh

theorem exists_fate (fresh : ((puts calls).map Envelope.id).Nodup) (put : e ∈ puts calls) :
    ∃ fate : Fate, fate.Of max calls e := by
  induction calls using List.reverseRecOn with
  | nil => cases put
  | append_singleton calls c ih =>
    by_cases gone : Gone max (calls ++ [c]) e
    · by_cases earlier : Gone max calls e
      · have fresh' : ((puts calls).map Envelope.id).Nodup :=
          fresh.sublist ((puts_mono (List.prefix_append _ _)).sublist.map _)
        obtain ⟨fate, of⟩ := ih fresh' earlier.1
        refine ⟨fate, of.later ?_ [c]⟩
        rintro rfl
        have held : 0 < ((after max calls).pending e.to_).count e := by
          rw [show ((after max calls).pending e.to_).count e = 1 from of]
          exact Nat.one_pos
        exact earlier.2 (List.count_pos_iff.mp held)
      · exact ⟨_, exists_fate_of_taken earlier gone⟩
    · have held : e ∈ (after max (calls ++ [c])).pending e.to_ := by_contra fun h => gone ⟨put, h⟩
      have nodup := (putsTo_nodup fresh e.to_).sublist (pending_sublist max _ e.to_)
      exact ⟨.pending, List.count_eq_one_of_mem nodup held⟩

theorem fate_unique (fresh : ((puts calls).map Envelope.id).Nodup) {fate fate' : Fate}
    (of : fate.Of max calls e) (of' : fate'.Of max calls e) : fate = fate' := by
  have pending_gone {other : Fate} (held : Fate.Of max calls e .pending)
      (of : other.Of max calls e) : .pending = other := by
    by_contra different
    refine (of.gone fresh (Ne.symm different)).2 (List.count_pos_iff.mp ?_)
    rw [show ((after max calls).pending e.to_).count e = 1 from held]
    exact Nat.one_pos
  by_cases first : fate = .pending
  · subst first
    exact pending_gone of of'
  by_cases second : fate' = .pending
  · subst second
    exact (pending_gone of' of).symm
  obtain ⟨before, c, at_, there, gone, rfl⟩ := of.taken first
  obtain ⟨before', c', at_', there', gone', rfl⟩ := of'.taken second
  have kept {front back : List StoreCall} (h : front <+: back) (h' : back <+: calls)
      (gone : Gone max front e) : Gone max back e := by
    obtain ⟨more, rfl⟩ := h
    exact gone.later (fresh.sublist ((puts_mono h').sublist.map _))
  have shorter {front : List StoreCall} {last : StoreCall} (h : front ++ [last] <+: calls) :
      front <+: calls := (List.prefix_append _ _).trans h
  rcases moments at_ at_' with earlier | later | ⟨-, rfl⟩
  · exact absurd (kept earlier (shorter at_') gone) there'
  · exact absurd (kept later (shorter at_) gone') there
  · rfl

/-- Of every envelope put with a fresh id exactly one thing has become; the
queues hold at most the cap's number, in put order; and a fetch returns the
first of them. -/
theorem store_conservation (max : Nat) (calls : List StoreCall)
    (fresh : ((puts calls).map Envelope.id).Nodup) :
    (∀ e ∈ puts calls, ∃! fate : Fate, fate.Of max calls e) ∧
    (∀ to_, ((after max calls).pending to_).length ≤ max ∧
      ((after max calls).pending to_).Sublist (putsTo to_ calls)) ∧
    ∀ to_ limit, (after max calls).get_pending to_ limit =
      (((after max calls).pending to_).take (min limit ((after max calls).pending to_).length),
        decide (((after max calls).pending to_).length > limit)) := by
  refine ⟨?_, ?_, ?_⟩
  · intro e put
    obtain ⟨fate, of⟩ : ∃ fate : Fate, fate.Of max calls e := exists_fate fresh put
    exact ⟨fate, of, fun other of' => fate_unique fresh of' of⟩
  · intro to_
    exact ⟨pending_length max calls to_, pending_sublist max calls to_⟩
  · intro to_ limit
    rw [get_pending_eq, ← List.take_eq_take_min]

/-- Three puts to a recipient under a cap of two, then a delete and an eviction. -/
def sampleCalls : List StoreCall :=
  let env (created_at : UInt64) : Envelope :=
    ⟨zeroId, FixedBytes.fill _ 1, FixedBytes.fill _ 2, [7], created_at⟩
  [.put (env 10) (FixedBytes.fill _ 11), .put (env 5) (FixedBytes.fill _ 12),
    .put (env 10) (FixedBytes.fill _ 13),
    .delete (FixedBytes.fill _ 1) [FixedBytes.fill _ 13], .evict_older_than 20 14]

theorem store_conservation_sample :
    (∀ e ∈ puts sampleCalls, ∃! fate : Fate, fate.Of 2 sampleCalls e) ∧
    (∀ to_, ((after 2 sampleCalls).pending to_).length ≤ 2 ∧
      ((after 2 sampleCalls).pending to_).Sublist (putsTo to_ sampleCalls)) ∧
    ∀ to_ limit, (after 2 sampleCalls).get_pending to_ limit =
      (((after 2 sampleCalls).pending to_).take
          (min limit ((after 2 sampleCalls).pending to_).length),
        decide (((after 2 sampleCalls).pending to_).length > limit)) :=
  store_conservation 2 sampleCalls (by decide)

end Qev.Relay
