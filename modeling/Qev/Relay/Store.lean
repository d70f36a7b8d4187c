import Qev.Lib.HashMap
import Qev.Relay.Message

/-! `InMemoryStore` of `store.rs`: one queue of envelopes for each recipient
key. A write holds the lock for the whole operation, so each is one step. -/

namespace Qev.Relay

structure Envelope where
  id : EnvelopeId
  to_ : Pk
  from_ : Pk
  bytes : Bytes
  created_at : UInt64
  deriving DecidableEq, Repr

structure InMemoryStore where
  inner : HashMap Pk (List Envelope)
  max_per_recipient : Nat

namespace InMemoryStore

def new (max_per_recipient : Nat) : InMemoryStore := ⟨.empty, max_per_recipient⟩

def zeroId : EnvelopeId := FixedBytes.fill _ 0

/-- The loop that pops the front while the queue is over the cap. -/
def popOver (max : Nat) : List Envelope → List Envelope
  | [] => []
  | e :: queue => if (e :: queue).length > max then popOver max queue else e :: queue

/-- `drawn` is the id that `random_bytes` fills in where the caller left it zero. -/
def put (s : InMemoryStore) (env : Envelope) (drawn : EnvelopeId) : InMemoryStore × EnvelopeId :=
  let env := if env.id = zeroId then { env with id := drawn } else env
  let queue := (s.inner.get env.to_).getD []
  let queue := popOver s.max_per_recipient (queue ++ [env])
  ({ s with inner := s.inner.insert env.to_ queue }, env.id)

def get_pending (s : InMemoryStore) (to_ : Pk) (limit : Nat) : List Envelope × Bool :=
  match s.inner.get to_ with
  | none => ([], false)
  | some queue =>
    let total := queue.length
    let take := min limit total
    (queue.take take, decide (total > take))

def delete (s : InMemoryStore) (requester_pk : Pk) (ids : List EnvelopeId) : InMemoryStore × Nat :=
  match s.inner.get requester_pk with
  | none => (s, 0)
  | some queue =>
    let kept := queue.filter (fun env => !ids.contains env.id)
    ({ s with inner := s.inner.insert requester_pk kept }, queue.length - kept.length)

def count_pending (s : InMemoryStore) (to_ : Pk) : Nat :=
  ((s.inner.get to_).map List.length).getD 0

def evict_older_than (s : InMemoryStore) (now_ms max_age_ms : UInt64) : InMemoryStore × Nat :=
  let cutoff := now_ms.toNat - max_age_ms.toNat
  let young (env : Envelope) := decide (env.created_at.toNat ≥ cutoff)
  let total := (s.inner.values.map fun q => q.length - (q.filter young).length).sum
  let kept := s.inner.mapValues (List.filter young)
  ({ s with inner := kept.retain fun _ q => !q.isEmpty }, total)

/-! ## What each operation does to the queues -/

/-- The queue of a recipient; empty where the map has no entry. -/
def pending (s : InMemoryStore) (to_ : Pk) : List Envelope := (s.inner.get to_).getD []

@[simp] theorem pending_new (max : Nat) (to_ : Pk) : (new max).pending to_ = [] := by
  simp [new, pending]

theorem popOver_eq (max : Nat) (q : List Envelope) : popOver max q = q.drop (q.length - max) := by
  induction q with
  | nil => simp [popOver]
  | cons e q ih =>
    rw [popOver]
    split
    · rename_i exceeds
      rw [ih, List.length_cons, show q.length + 1 - max = (q.length - max) + 1 by
        simp only [List.length_cons] at exceeds; omega, List.drop_succ_cons]
    · rename_i under
      rw [show (e :: q).length - max = 0 by omega, List.drop_zero]

/-- The envelope as `put` stores it. -/
def assigned (env : Envelope) (drawn : EnvelopeId) : Envelope :=
  if env.id = zeroId then { env with id := drawn } else env

@[simp] theorem assigned_to (env : Envelope) (drawn : EnvelopeId) :
    (assigned env drawn).to_ = env.to_ := by
  unfold assigned
  split <;> rfl

theorem pending_put_assigned (s : InMemoryStore) (env : Envelope) (drawn : EnvelopeId) (to_ : Pk) :
    (s.put env drawn).1.pending to_ =
      if to_ = env.to_ then popOver s.max_per_recipient (s.pending env.to_ ++ [assigned env drawn])
      else s.pending to_ := by
  have same := assigned_to env drawn
  simp only [assigned] at same
  simp only [put, pending, HashMap.get_insert, same, assigned]
  split <;> rfl

theorem pending_put (s : InMemoryStore) (env : Envelope) (drawn : EnvelopeId)
    (zero : env.id = zeroId)
    (to_ : Pk) :
    (s.put env drawn).1.pending to_ =
      if to_ = env.to_ then
        popOver s.max_per_recipient (s.pending env.to_ ++ [{ env with id := drawn }])
      else s.pending to_ := by
  simp only [put, zero, ↓reduceIte, pending, HashMap.get_insert]
  split <;> rfl

theorem get_pending_eq (s : InMemoryStore) (to_ : Pk) (limit : Nat) :
    s.get_pending to_ limit =
      ((s.pending to_).take limit, decide ((s.pending to_).length > limit)) := by
  cases h : s.inner.get to_ with
  | none => simp [get_pending, pending, h]
  | some q =>
    have bound : q.length > min limit q.length ↔ q.length > limit := by omega
    simp [get_pending, pending, h, List.take_eq_take_iff, bound]

theorem pending_delete (s : InMemoryStore) (requester : Pk) (ids : List EnvelopeId) (to_ : Pk) :
    (s.delete requester ids).1.pending to_ =
      if to_ = requester then (s.pending to_).filter (fun env => !ids.contains env.id)
      else s.pending to_ := by
  simp only [delete, pending]
  cases h : s.inner.get requester with
  | none =>
    by_cases same : to_ = requester
    · simp [same, h]
    · simp [same]
  | some q =>
    by_cases same : to_ = requester
    · simp [same, h]
    · simp [same, HashMap.get_insert]

theorem pending_evict (s : InMemoryStore) (now age : UInt64) (to_ : Pk) :
    (s.evict_older_than now age).1.pending to_ =
      (s.pending to_).filter
        (fun env => decide (env.created_at.toNat ≥ now.toNat - age.toNat)) := by
  simp only [evict_older_than, pending, HashMap.get_retain, HashMap.get_mapValues]
  cases s.inner.get to_ with
  | none => rfl
  | some q =>
    simp only [Option.map_some, Option.getD_some, Option.filter_some]
    cases hq : q.filter (fun env => decide (env.created_at.toNat ≥ now.toNat - age.toNat)) <;> simp

theorem count_pending_eq (s : InMemoryStore) (to_ : Pk) :
    s.count_pending to_ = (s.pending to_).length := by
  simp only [count_pending, pending]
  cases s.inner.get to_ <;> rfl

/-! ## Distinct ids -/

/-- No queue holds an id twice. -/
def IdsNodup (s : InMemoryStore) : Prop := ∀ to_, ((s.pending to_).map Envelope.id).Nodup

theorem idsNodup_new (max : Nat) : (new max).IdsNodup := by
  intro to_
  simp

theorem idsNodup_put {s : InMemoryStore} (h : s.IdsNodup) {env : Envelope} {drawn : EnvelopeId}
    (zero : env.id = zeroId) (fresh : ∀ e ∈ s.pending env.to_, e.id ≠ drawn) :
    (s.put env drawn).1.IdsNodup := by
  intro to_
  rw [pending_put s env drawn zero]
  split
  · have whole : ((s.pending env.to_ ++ [{ env with id := drawn }]).map Envelope.id).Nodup := by
      rw [List.map_append, List.nodup_append]
      refine ⟨h _, by simp, ?_⟩
      intro a ha b hb
      obtain ⟨e, he, rfl⟩ := List.mem_map.mp ha
      simp only [List.map_cons, List.map_nil, List.mem_singleton] at hb
      exact hb ▸ fresh e he
    rw [popOver_eq]
    exact whole.sublist ((List.drop_sublist _ _).map _)
  · exact h to_

theorem idsNodup_delete {s : InMemoryStore} (h : s.IdsNodup) (requester : Pk)
    (ids : List EnvelopeId) : (s.delete requester ids).1.IdsNodup := by
  intro to_
  rw [pending_delete]
  split
  · exact (h to_).sublist (List.filter_sublist.map _)
  · exact h to_

theorem idsNodup_evict {s : InMemoryStore} (h : s.IdsNodup) (now age : UInt64) :
    (s.evict_older_than now age).1.IdsNodup := by
  intro to_
  rw [pending_evict]
  exact (h to_).sublist (List.filter_sublist.map _)

end InMemoryStore

end Qev.Relay
