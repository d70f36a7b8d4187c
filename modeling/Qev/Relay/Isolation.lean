import Qev.Lib.Run
import Qev.Relay.Admission

/-! The relay with any number of connections in hand: their tasks interleave
between the check of a request and its use of the store. Who gets what, and
who can take what away. -/

namespace Qev.Relay

/-! ## Connections in hand -/

/-- The task of a connection whose handshake is done, at one of its awaits. -/
inductive Task where
  | accepted (peer_pk : Pk)
  | admitted (peer_pk : Pk) (request : Admitted)
  | replying (peer_pk : Pk) (reply : RelayMessage)
  | live (peer_pk : Pk)
  | closed (peer_pk : Pk)

/-- The key that authenticated the connection's handshake. -/
def Task.peer_pk : Task → Pk
  | accepted pk | admitted pk _ | replying pk _ | live pk | closed pk => pk

/-- A request the store has served and the answer to it. -/
structure Served where
  conn : Nat
  peer_pk : Pk
  request : Admitted
  reply : RelayMessage

/-- The service with the tasks it has spawned. `served` keeps what the store
has served, in that order; no step reads it. -/
structure Serving where
  service : RelayService
  tasks : HashMap Nat Task
  served : List Served

namespace Serving

inductive Event where
  | accept (conn : Nat) (peer_pk : Pk)
  | receive (conn : Nat) (bytes : Bytes) (instant : ℚ)
  | perform (conn : Nat) (now_ms : UInt64) (drawn : EnvelopeId)
  | close (conn : Nat)
  | evict (now_ms max_age_ms : UInt64)

/-- The connection whose task moves. -/
def Event.conn : Event → Option Nat
  | accept conn _ | receive conn _ _ | perform conn _ _ | close conn => some conn
  | evict .. => none

def new (service : RelayService) : Serving := ⟨service, .empty, []⟩

/-- `handle_connection` once it has the client's first message. -/
def receive (c : Ciborium) (r : Serving) (conn : Nat) (peer_pk : Pk) (bytes : Bytes) (instant : ℚ) :
    Serving :=
  match c.decode bytes with
  | .error _ => { r with tasks := r.tasks.insert conn (.closed peer_pk) }
  | .ok .LinkAttach => { r with tasks := r.tasks.insert conn (.live peer_pk) }
  | .ok request =>
    match r.service.limiters.charge peer_pk request instant with
    | (l, .error e) =>
      let reply := .Error (RelayService.errorCode e) e.display
      { r with service := r.service.withLimiters l,
               tasks := r.tasks.insert conn (.replying peer_pk reply) }
    | (l, .ok a) =>
      { r with service := r.service.withLimiters l,
               tasks := r.tasks.insert conn (.admitted peer_pk a) }

def perform (r : Serving) (conn : Nat) (peer_pk : Pk) (a : Admitted) (now_ms : UInt64)
    (drawn : EnvelopeId) : Serving :=
  let (service, reply) := r.service.perform peer_pk a now_ms drawn
  { service, tasks := r.tasks.insert conn (.replying peer_pk reply),
    served := r.served ++ [⟨conn, peer_pk, a, reply⟩] }

def step (c : Ciborium) (r : Serving) : Event → Serving
  | .accept conn peer_pk =>
    match r.tasks.get conn with
    | some _ => r
    | none => { r with tasks := r.tasks.insert conn (.accepted peer_pk) }
  | .receive conn bytes instant =>
    match r.tasks.get conn with
    | some (.accepted peer_pk) => receive c r conn peer_pk bytes instant
    | _ => r
  | .perform conn now_ms drawn =>
    match r.tasks.get conn with
    | some (.admitted peer_pk a) => perform r conn peer_pk a now_ms drawn
    | _ => r
  -- An admitted request waits for a lock, not for its client.
  | .close conn =>
    match r.tasks.get conn with
    | some (.accepted peer_pk) | some (.replying peer_pk _) | some (.live peer_pk) =>
      { r with tasks := r.tasks.insert conn (.closed peer_pk) }
    | _ => r
  | .evict now_ms max_age_ms =>
    { r with service :=
        { r.service with store := (r.service.store.evict_older_than now_ms max_age_ms).1 } }

def pending (r : Serving) (to_ : Pk) : List Envelope := r.service.store.pending to_

variable {c : Ciborium} {r start : Serving} {events : List Event}

theorem receive_store (conn : Nat) (peer_pk : Pk) (bytes : Bytes) (instant : ℚ) :
    (receive c r conn peer_pk bytes instant).service.store = r.service.store ∧
      (receive c r conn peer_pk bytes instant).served = r.served := by
  unfold receive
  split
  · exact ⟨rfl, rfl⟩
  · exact ⟨rfl, rfl⟩
  · split <;> exact ⟨rfl, rfl⟩

/-- Everything a step can do to the store. -/
theorem step_cases (c : Ciborium) (r : Serving) (e : Event) :
    ((step c r e).service.store = r.service.store ∧ (step c r e).served = r.served) ∨
    (∃ conn now_ms drawn peer_pk a, e = .perform conn now_ms drawn ∧
      r.tasks.get conn = some (.admitted peer_pk a) ∧
      step c r e = perform r conn peer_pk a now_ms drawn) ∨
    ∃ now_ms max_age_ms, e = .evict now_ms max_age_ms ∧ (step c r e).served = r.served ∧
      (step c r e).service.store = (r.service.store.evict_older_than now_ms max_age_ms).1 := by
  cases e with
  | accept conn peer_pk =>
    apply Or.inl
    rw [step]
    split <;> exact ⟨rfl, rfl⟩
  | receive conn bytes instant =>
    apply Or.inl
    rw [step]
    split
    · exact receive_store ..
    · exact ⟨rfl, rfl⟩
  | perform conn now_ms drawn =>
    rw [step]
    split
    · rename_i peer_pk a found
      exact .inr (.inl ⟨conn, now_ms, drawn, peer_pk, a, rfl, found, rfl⟩)
    · exact .inl ⟨rfl, rfl⟩
  | close conn =>
    apply Or.inl
    rw [step]
    split <;> exact ⟨rfl, rfl⟩
  | evict now_ms max_age_ms => exact .inr (.inr ⟨now_ms, max_age_ms, rfl, rfl, rfl⟩)

/-! ## Where the envelopes come from -/

/-- An envelope with these contents was delivered to `to_`, by the client whose
key it bears. -/
def DeliveredIn (served : List Served) (to_ : Pk) (w : WireEnvelope) : Prop :=
  ∃ d ∈ served, d.request = .deliver to_ w.envelope ∧ d.reply = .DeliverResult w.id ∧
    w.from_ = d.peer_pk.val

/-- Every pending envelope was delivered, and every envelope that a fetch
returned was delivered before. -/
structure Attributed (r : Serving) : Prop where
  pending : ∀ to_, ∀ env ∈ r.pending to_, DeliveredIn r.served to_ (RelayService.toWire env)
  fetched : ∀ before s later envelopes has_more, r.served = before ++ s :: later →
    s.reply = .FetchResult envelopes has_more → ∀ w ∈ envelopes, DeliveredIn before s.peer_pk w

theorem DeliveredIn.later {served : List Served} {to_ : Pk} {w : WireEnvelope}
    (h : DeliveredIn served to_ w) (more : List Served) : DeliveredIn (served ++ more) to_ w := by
  obtain ⟨d, mem, rest⟩ := h
  exact ⟨d, List.mem_append_left _ mem, rest⟩

/-- What the queues of the store hold after a request of `peer_pk`. -/
theorem mem_perform {svc : RelayService} {peer_pk to_ : Pk} {a : Admitted} {now_ms : UInt64}
    {drawn : EnvelopeId} {env : Envelope}
    (h : env ∈ (svc.perform peer_pk a now_ms drawn).1.store.pending to_) :
    env ∈ svc.store.pending to_ ∨ ∃ envelope, a = .deliver to_ envelope ∧
      env = ⟨drawn, to_, peer_pk, envelope, now_ms⟩ := by
  cases a with
  | deliver to' envelope =>
    simp only [RelayService.perform] at h
    rw [InMemoryStore.pending_put _ _ _ rfl] at h
    split at h
    · rename_i same
      cases same
      rw [InMemoryStore.popOver_eq] at h
      rcases List.mem_append.mp (List.mem_of_mem_drop h) with old | new
      · exact .inl old
      · exact .inr ⟨envelope, rfl, List.mem_singleton.mp new⟩
    · exact .inl h
  | fetch limit => exact .inl h
  | ack ids =>
    simp only [RelayService.perform, InMemoryStore.pending_delete] at h
    split at h
    · exact .inl (List.mem_of_mem_filter h)
    · exact .inl h

theorem attributed_perform (h : Attributed r) (conn : Nat) (peer_pk : Pk) (a : Admitted)
    (now_ms : UInt64) (drawn : EnvelopeId) :
    Attributed (perform r conn peer_pk a now_ms drawn) where
  pending to_ env mem := by
    rcases mem_perform mem with old | ⟨envelope, rfl, rfl⟩
    · exact (h.pending to_ env old).later _
    · refine ⟨⟨conn, peer_pk, .deliver to_ envelope, .DeliverResult drawn.val⟩, ?_, rfl, rfl, rfl⟩
      exact List.mem_append_right _ (List.mem_singleton.mpr rfl)
  fetched before s later envelopes has_more split reply w mem := by
    rcases List.eq_nil_or_concat later with rfl | ⟨later, last, rfl⟩
    · obtain ⟨rfl, same⟩ := List.append_inj' split rfl
      cases List.singleton_inj.mp same
      cases a with
      | fetch limit =>
        simp only [InMemoryStore.get_pending_eq] at reply
        cases reply
        obtain ⟨env, held, rfl⟩ := List.mem_map.mp mem
        exact h.pending peer_pk env (List.mem_of_mem_take held)
      | deliver | ack => cases reply
    · rw [List.concat_eq_append, ← List.cons_append, ← List.append_assoc] at split
      obtain ⟨earlier, -⟩ := List.append_inj' split rfl
      exact h.fetched before s later envelopes has_more earlier reply w mem

theorem attributed_step (h : Attributed r) (e : Event) : Attributed (step c r e) := by
  rcases step_cases c r e with ⟨store, served⟩ | ⟨conn, now, drawn, pk, a, -, -, same⟩ |
    ⟨now, age, -, served, store⟩
  · refine ⟨?_, by rw [served]; exact h.fetched⟩
    intro to_ env mem
    rw [pending, store] at mem
    rw [served]
    exact h.pending to_ env mem
  · rw [same]
    exact attributed_perform h conn pk a now drawn
  · refine ⟨?_, by rw [served]; exact h.fetched⟩
    intro to_ env mem
    rw [pending, store, InMemoryStore.pending_evict] at mem
    rw [served]
    exact h.pending to_ env (List.mem_of_mem_filter mem)

/-! ## Whose they are, and who can remove them -/

/-- Connection `conn` was opened by the holder of `peer_pk`. -/
def Accepted (c : Ciborium) (start : Serving) (events : List Event) (conn : Nat) (peer_pk : Pk) :
    Prop :=
  ∃ before, before ++ [.accept conn peer_pk] <+: events ∧
    (run (step c) start before).tasks.get conn = none

/-- The first message on `conn` was `request`. -/
def Received (c : Ciborium) (events : List Event) (conn : Nat) (request : RelayMessage) : Prop :=
  ∃ bytes instant, .receive conn bytes instant ∈ events ∧ c.decode bytes = .ok request

/-- Tasks act for the key that opened their connection, on the request they
were sent. -/
structure Authentic (c : Ciborium) (start : Serving) (events : List Event) (r : Serving) :
    Prop where
  accepted : ∀ conn task, r.tasks.get conn = some task → Accepted c start events conn task.peer_pk
  received : ∀ conn peer_pk a, r.tasks.get conn = some (.admitted peer_pk a) →
    Received c events conn a.request
  served : ∀ s ∈ r.served, Accepted c start events s.conn s.peer_pk ∧
    Received c events s.conn s.request.request

theorem Accepted.later {conn : Nat} {peer_pk : Pk} (h : Accepted c start events conn peer_pk)
    (e : Event) : Accepted c start (events ++ [e]) conn peer_pk := by
  obtain ⟨before, at_, free⟩ := h
  exact ⟨before, at_.trans (List.prefix_append _ _), free⟩

theorem Received.later {conn : Nat} {request : RelayMessage} (h : Received c events conn request)
    (e : Event) : Received c (events ++ [e]) conn request := by
  obtain ⟨bytes, instant, mem, decoded⟩ := h
  exact ⟨bytes, instant, List.mem_append_left _ mem, decoded⟩

theorem Authentic.later (h : Authentic c start events r) (e : Event) :
    Authentic c start (events ++ [e]) r where
  accepted conn task found := (h.accepted conn task found).later e
  received conn peer_pk a found := (h.received conn peer_pk a found).later e
  served s mem := ⟨(h.served s mem).1.later e, (h.served s mem).2.later e⟩

/-- Moving one task on, to one of the same key. -/
theorem Authentic.insert (h : Authentic c start events r) {conn : Nat} (task : Task)
    (accepted : Accepted c start events conn task.peer_pk)
    (received : ∀ peer_pk a, task = .admitted peer_pk a → Received c events conn a.request)
    (service : RelayService) :
    Authentic c start events { r with service, tasks := r.tasks.insert conn task } where
  accepted conn' task' found := by
    simp only [HashMap.get_insert] at found
    split at found
    · rename_i same
      cases found
      exact same ▸ accepted
    · exact h.accepted conn' task' found
  received conn' peer_pk a found := by
    simp only [HashMap.get_insert] at found
    split at found
    · rename_i same
      exact same ▸ received peer_pk a (Option.some.inj found)
    · exact h.received conn' peer_pk a found
  served := h.served

theorem authentic_receive (h : Authentic c start events r) {conn : Nat} {peer_pk : Pk}
    (opened : Accepted c start events conn peer_pk) (bytes : Bytes) (instant : ℚ) :
    Authentic c start (events ++ [.receive conn bytes instant])
      (receive c r conn peer_pk bytes instant) := by
  have old := h.later (.receive conn bytes instant)
  have mine := opened.later (.receive conn bytes instant)
  unfold receive
  split
  · exact old.insert (.closed peer_pk) mine nofun _
  · exact old.insert (.live peer_pk) mine nofun _
  · rename_i request _ decoded
    split
    · exact old.insert (.replying peer_pk _) mine nofun _
    · rename_i l a admitted
      refine old.insert (.admitted peer_pk a) mine ?_ _
      intro pk a' same
      cases same
      rw [charge_request admitted]
      exact ⟨bytes, instant, by simp, decoded⟩

theorem authentic_step (h : Authentic c start events (run (step c) start events)) (e : Event) :
    Authentic c start (events ++ [e]) (step c (run (step c) start events) e) := by
  cases e with
  | accept conn peer_pk =>
    rw [step]
    split
    · exact h.later _
    · rename_i free
      exact (h.later _).insert (.accepted peer_pk) ⟨events, List.prefix_rfl, free⟩ nofun _
  | receive conn bytes instant =>
    rw [step]
    split
    · rename_i peer_pk found
      exact authentic_receive h (h.accepted conn _ found) bytes instant
    · exact h.later _
  | perform conn now_ms drawn =>
    rw [step]
    split
    · rename_i peer_pk a found
      have old := h.later (.perform conn now_ms drawn)
      have mine := old.accepted conn _ found
      have moved := old.insert (.replying peer_pk
        ((run (step c) start events).service.perform peer_pk a now_ms drawn).2) mine nofun
        ((run (step c) start events).service.perform peer_pk a now_ms drawn).1
      refine ⟨moved.accepted, moved.received, ?_⟩
      intro s mem
      rcases List.mem_append.mp mem with earlier | now
      · exact old.served s earlier
      · cases List.mem_singleton.mp now
        exact ⟨mine, old.received conn peer_pk a found⟩
    · exact h.later _
  | close conn =>
    rw [step]
    split
    · rename_i peer_pk found
      have mine := (h.later (.close conn)).accepted conn _ found
      exact (h.later _).insert (.closed peer_pk) mine nofun _
    · rename_i peer_pk _ found
      have mine := (h.later (.close conn)).accepted conn _ found
      exact (h.later _).insert (.closed peer_pk) mine nofun _
    · rename_i peer_pk found
      have mine := (h.later (.close conn)).accepted conn _ found
      exact (h.later _).insert (.closed peer_pk) mine nofun _
    · exact h.later _
  | evict => exact ⟨(h.later _).accepted, (h.later _).received, (h.later _).served⟩

/-- What takes an envelope out of a queue, the evictions by age apart: the
recipient's own delete, or a delivery to a full queue. -/
theorem removed_by {svc : RelayService} {peer_pk to_ : Pk} {a : Admitted} {now_ms : UInt64}
    {drawn : EnvelopeId} {env : Envelope} (held : env ∈ svc.store.pending to_)
    (lost : env ∉ (svc.perform peer_pk a now_ms drawn).1.store.pending to_) :
    (peer_pk = to_ ∧ ∃ ids, a = .ack ids ∧ env.id ∈ ids) ∨
      ∃ envelope, a = .deliver to_ envelope ∧
        svc.store.max_per_recipient ≤ (svc.store.pending to_).length := by
  cases a with
  | deliver to' envelope =>
    simp only [RelayService.perform] at lost
    rw [InMemoryStore.pending_put _ _ _ rfl] at lost
    split at lost
    · rename_i same
      obtain rfl : to_ = to' := same
      refine .inr ⟨envelope, rfl, ?_⟩
      by_contra room
      apply lost
      rw [InMemoryStore.popOver_eq, Nat.sub_eq_zero_of_le, List.drop_zero]
      · exact List.mem_append_left _ held
      · rw [List.length_append, List.length_singleton]
        exact Nat.not_le.mp room
    · exact absurd held lost
  | fetch limit => exact absurd held lost
  | ack ids =>
    simp only [RelayService.perform, InMemoryStore.pending_delete] at lost
    split at lost
    · rename_i same
      refine .inl ⟨same.symm, ids, rfl, ?_⟩
      by_contra unnamed
      exact lost (by simpa using ⟨held, unnamed⟩)
    · exact absurd held lost

theorem perform_max (svc : RelayService) (peer_pk : Pk) (a : Admitted) (now_ms : UInt64)
    (drawn : EnvelopeId) :
    (svc.perform peer_pk a now_ms drawn).1.store.max_per_recipient =
      svc.store.max_per_recipient := by
  cases a with
  | ack ids =>
    simp only [RelayService.perform, InMemoryStore.delete]
    cases svc.store.inner.get peer_pk <;> rfl
  | _ => rfl

theorem step_max (r : Serving) (e : Event) :
    (step c r e).service.store.max_per_recipient = r.service.store.max_per_recipient := by
  rcases step_cases c r e with ⟨store, -⟩ | ⟨conn, now, drawn, pk, a, -, -, same⟩ |
    ⟨now, age, -, -, store⟩
  · rw [store]
  · rw [same]
    exact perform_max ..
  · rw [store]
    rfl

/-- In every run of the relay, whatever a fetch returns was delivered before to
the key that fetches, by the key it is attributed to, with these bytes; every
request is served for the key that opened its connection; and what a connection
removes from a queue is its own client's, or is pushed out of a full queue by
its client's delivery to it. -/
theorem relay_isolation (c : Ciborium) (max deliver_per_min fetch_per_min : Nat)
    (events : List Event) :
    let start := new (.with_limits (.new max) deliver_per_min fetch_per_min)
    let r := run (step c) start events
    (∀ before s later envelopes has_more, r.served = before ++ s :: later →
      s.reply = .FetchResult envelopes has_more → ∀ w ∈ envelopes, DeliveredIn before s.peer_pk w) ∧
    (∀ s ∈ r.served, Accepted c start events s.conn s.peer_pk ∧
      Received c events s.conn s.request.request) ∧
    ∀ before e conn, before ++ [e] <+: events → e.conn = some conn → ∀ to_,
      ∀ env ∈ (run (step c) start before).pending to_,
      env ∉ (run (step c) start (before ++ [e])).pending to_ →
      ∃ peer_pk request, Accepted c start before conn peer_pk ∧
        (run (step c) start before).tasks.get conn = some (.admitted peer_pk request) ∧
        ((peer_pk = to_ ∧ ∃ ids, request = .ack ids ∧ env.id ∈ ids) ∨
          ∃ envelope, request = .deliver to_ envelope ∧
            max ≤ ((run (step c) start before).pending to_).length) := by
  intro start r
  have attributed : Attributed r :=
    Run.invariant (P := fun _ r => Attributed r)
      ⟨by simp [pending, start, new, RelayService.with_limits], by simp [start, new]⟩
      (fun _ e h => attributed_step h e) events
  have authentic (events : List Event) : Authentic c start events (run (step c) start events) := by
    induction events using List.reverseRecOn with
    | nil => exact ⟨by simp [start, new], by simp [start, new], by simp [start, new]⟩
    | append_singleton events e ih =>
      rw [Run.snoc]
      exact authentic_step ih e
  have cap (events : List Event) :
      (run (step c) start events).service.store.max_per_recipient = max :=
    Run.invariant (P := fun _ (r : Serving) => r.service.store.max_per_recipient = max) rfl
      (fun _ e h => (step_max _ e).trans h) events
  refine ⟨attributed.fetched, (authentic events).served, ?_⟩
  intro before e conn _ mine to_ env held lost
  rw [Run.snoc, pending] at lost
  rcases step_cases c (run (step c) start before) e with ⟨store, -⟩ |
    ⟨conn', now, drawn, pk, a, rfl, found, same⟩ | ⟨now, age, rfl, -⟩
  · rw [store] at lost
    exact absurd held lost
  · cases mine
    rw [same] at lost
    refine ⟨pk, a, (authentic before).accepted conn _ found, found, ?_⟩
    rw [← cap before]
    exact removed_by held lost
  · cases mine

end Serving

end Qev.Relay
