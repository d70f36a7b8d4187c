import Qev.Relay.Tunnel

/-! No tunnel message disappears: where each one is, as long as no step loses
one. -/

namespace Qev.Relay

/-- A task that has its entry and has not come to the end of its loop. -/
def Phase.live : Phase → Bool
  | .acking | .ready | .writing _ | .forwarding .. | .replying _ => true
  | .starting | .refusing | .leaving | .ended => false

/-- Whether the task is forwarding the tunnel message of this number or writing
the reply to it. -/
def Phase.concerns (number : Nat) : Phase → Bool
  | .forwarding number' .. | .replying (.undelivered number' _) => number' = number
  | _ => false

/-- The steps of a session that lose a message: a write to its client fails
with a message in hand, a reply to a tunnel message included; or its connection
ends, or another write fails, while messages wait in its mailbox. -/
def Session.drops (s : Session) (a : Action) : Bool :=
  match a, s.phase with
  | .wrote false, .writing _ => true
  | .reply false, .replying (.undelivered ..) => true
  | .ack false, .acking | .recvFailed, .ready | .reply false, .replying .protocol =>
    !s.mailbox.isEmpty
  | _, _ => false

theorem concerns_live {phase : Phase} {number : Nat} (h : phase.concerns number = true) :
    phase.live = true := by
  cases phase with
  | forwarding | replying => rfl
  | _ => cases h

namespace Sessions

/-- The steps that lose a message: those of one session, and forwarding to a
session that has left its loop and still has its entry. -/
def loses (r : Sessions) : Event → Bool
  | .connect .. => false
  | .task id a =>
    match r.tasks.get id with
    | none => false
    | some s =>
      match a, s.phase with
      | .forward, .forwarding _ to_ payload =>
        match forward_link_tunnel r.attached s.peer_pk to_ payload with
        | .ok (to_pk, _) => (r.owner to_pk).any fun o => o.2.phase = .leaving
        | .error _ => false
      | a, _ => s.drops a

/-- Tunnel message `number` of session `id` has been written to a session as a
`LinkInbound` or answered to its own. -/
def Settled (r : Sessions) (id : Nat) (s : Session) (number : Nat) : Prop :=
  number ∈ s.answered ∨
    ∃ s' ∈ r.tasks.values, ∃ p ∈ s'.written, p.source = id ∧ p.number = number

/-- It is being forwarded or answered, or a session that is in its loop has yet
to write it. -/
def InProgress (r : Sessions) (id : Nat) (s : Session) (number : Nat) : Prop :=
  s.phase.concerns number = true ∨
    ∃ s' ∈ r.tasks.values, s'.phase.live = true ∧
      ∃ p ∈ s'.inHand, p.source = id ∧ p.number = number

instance (r : Sessions) (id : Nat) (s : Session) (number : Nat) :
    Decidable (r.Settled id s number) := by
  unfold Settled
  infer_instance

instance (r : Sessions) (id : Nat) (s : Session) (number : Nat) :
    Decidable (r.InProgress id s number) := by
  unfold InProgress
  infer_instance

end Sessions

/-! ## Where a message is -/

namespace Session

/-- The message is at its own session. -/
def Mine (s : Session) (number : Nat) : Prop :=
  number ∈ s.answered ∨ s.phase.concerns number = true

/-- The message is at a session it was forwarded to. -/
def Holds (s : Session) (id number : Nat) : Prop :=
  ∃ p, p.source = id ∧ p.number = number ∧ (p ∈ s.written ∨ s.phase.live = true ∧ p ∈ s.inHand)

variable {s s' : Session} {a : Action}

theorem Move.holds (h : Move s a s') (safe : s.drops a = false) {id number : Nat}
    (held : s.Holds id number) : s'.Holds id number := by
  obtain ⟨p, source, number_, place⟩ := held
  refine ⟨p, source, number_, ?_⟩
  cases h with
  | stay => exact place
  | written q at_ =>
    rcases place with done | ⟨-, here⟩
    · exact .inl (List.mem_append_left _ done)
    · simp only [inHand, at_, List.cons_append, List.nil_append, List.mem_cons] at here
      rcases here with rfl | waiting
      · exact .inl (List.mem_append_right _ (List.mem_singleton.mpr rfl))
      · exact .inr ⟨rfl, by simpa [inHand] using waiting⟩
  | taken at_ q mailbox next =>
    refine place.imp_right ?_
    rintro ⟨-, here⟩
    refine ⟨rfl, ?_⟩
    simpa [inHand, at_, next] using here
  | refused at_ =>
    refine place.imp_right ?_
    rintro ⟨live, -⟩
    simp [at_, Phase.live] at live
  | writeFailed q at_ => simp [drops, at_] at safe
  | alone at_ none =>
    refine place.imp_right ?_
    rintro ⟨-, here⟩
    simp [inHand, at_, none] at here
  | ackFailed at_ | recvFailed at_ =>
    refine place.imp_right ?_
    rintro ⟨-, here⟩
    simp only [drops, at_, Bool.not_eq_false', List.isEmpty_iff] at safe
    simp [inHand, at_, safe] at here
  | replyFailed reply at_ =>
    cases reply with
    | undelivered => simp [drops, at_] at safe
    | protocol =>
      refine place.imp_right ?_
      rintro ⟨-, here⟩
      simp only [drops, at_, Bool.not_eq_false', List.isEmpty_iff] at safe
      simp [inHand, at_, safe] at here
  | acked at_ | tunnel at_ | misused at_ | answered _ _ at_ | corrected at_ =>
    refine place.imp_right ?_
    rintro ⟨-, here⟩
    refine ⟨rfl, ?_⟩
    simpa [inHand, at_] using here

theorem Move.mine (h : Move s a s') (safe : s.drops a = false) {number : Nat}
    (mine : s.Mine number) : s'.Mine number := by
  cases h with
  | stay => exact mine
  | answered n e at_ =>
    apply Or.inl
    rcases mine with old | now
    · exact List.mem_append_left _ old
    · rw [at_] at now
      exact List.mem_append_right _ (List.mem_singleton.mpr (of_decide_eq_true now).symm)
  | replyFailed reply at_ =>
    cases reply with
    | undelivered => simp [drops, at_] at safe
    | protocol => exact mine.imp_right fun now => by simp [at_, Phase.concerns] at now
  | refused at_ | acked at_ | ackFailed at_ | alone at_ | taken at_ | written _ at_
  | writeFailed _ at_ | tunnel at_ | misused at_ | recvFailed at_ | corrected at_ =>
    exact mine.imp_right fun now => by simp [at_, Phase.concerns] at now

/-- A message that a step adds is at its own session. -/
theorem Move.decoded (h : Move s a s') {number : Nat} (bound : number < s'.tunnels.length) :
    number < s.tunnels.length ∨ s'.Mine number := by
  cases h with
  | tunnel at_ bytes to_ payload =>
    rw [List.length_append, List.length_singleton] at bound
    rcases Nat.lt_or_eq_of_le (Nat.le_of_lt_succ bound) with old | new
    · exact .inl old
    · exact .inr (.inr (decide_eq_true new.symm))
  | _ => exact .inl bound

end Session

namespace Sessions

open Session (Mine Holds)

def Placed (r : Sessions) (id : Nat) (s : Session) (number : Nat) : Prop :=
  s.Mine number ∨ ∃ id' s', r.tasks.get id' = some s' ∧ s'.Holds id number

theorem placed_iff {r : Sessions} {id : Nat} {s : Session} {number : Nat} :
    r.Placed id s number ↔ r.Settled id s number ∨ r.InProgress id s number := by
  constructor
  · rintro ((done | now) | ⟨id', s', task, p, source, number_, (done | ⟨live, here⟩)⟩)
    · exact .inl (.inl done)
    · exact .inr (.inl now)
    · exact .inl (.inr ⟨s', HashMap.mem_values.mpr ⟨id', task⟩, p, done, source, number_⟩)
    · exact .inr (.inr ⟨s', HashMap.mem_values.mpr ⟨id', task⟩, live, p, here, source, number_⟩)
  · rintro ((done | ⟨s', mem, p, done, source, number_⟩) |
      (now | ⟨s', mem, live, p, here, source, number_⟩))
    · exact .inl (.inl done)
    · obtain ⟨id', task⟩ := HashMap.mem_values.mp mem
      exact .inr ⟨id', s', task, p, source, number_, .inl done⟩
    · exact .inl (.inr now)
    · obtain ⟨id', task⟩ := HashMap.mem_values.mp mem
      exact .inr ⟨id', s', task, p, source, number_, .inr ⟨live, here⟩⟩

/-- Every tunnel message decoded has a place, but perhaps for those of `out`. -/
def Accounted (r : Sessions) (out : Nat → Nat → Prop) : Prop :=
  ∀ id s, r.tasks.get id = some s → ∀ number < s.tunnels.length,
    out id number ∨ r.Placed id s number

variable {c : Ciborium} {r : Sessions} {id : Nat} {s : Session} {out : Nat → Nat → Prop}

theorem Accounted.set {s' : Session} (h : Accounted r out) (task : r.tasks.get id = some s)
    {out' : Nat → Nat → Prop} (more : ∀ i n, out i n → out' i n)
    (decoded : ∀ n < s'.tunnels.length, n < s.tunnels.length ∨ s'.Mine n)
    (mine : ∀ n, s.Mine n → out' id n ∨ s'.Mine n) (holds : ∀ i n, s.Holds i n → s'.Holds i n) :
    Accounted (r.set id s') out' := by
  have held {i n j : Nat} {s₀ : Session} (found : r.tasks.get j = some s₀) (h : s₀.Holds i n) :
      ∃ j s₁, (r.set id s').tasks.get j = some s₁ ∧ s₁.Holds i n := by
    by_cases same : j = id
    · subst same
      cases task.symm.trans found
      exact ⟨j, s', by rw [set_tasks, if_pos rfl], holds i n h⟩
    · exact ⟨j, s₀, by rw [set_tasks, if_neg same]; exact found, h⟩
  intro i s₁ found n bound
  rw [set_tasks] at found
  split at found
  · rename_i same
    subst same
    cases found
    rcases decoded n bound with old | new
    · rcases h i s task n old with lost | here | ⟨j, s₀, found, here⟩
      · exact .inl (more i n lost)
      · exact (mine n here).imp_right .inl
      · exact .inr (.inr (held found here))
    · exact .inr (.inl new)
  · rcases h i s₁ found n bound with lost | here | ⟨j, s₀, found, here⟩
    · exact .inl (more i n lost)
    · exact .inr (.inl here)
    · exact .inr (.inr (held found here))

/-- The message that was out gets its place in a mailbox. -/
theorem Accounted.push (h : Accounted r out) {pk : Pk} {id' : Nat} {s' : Session}
    (own : r.owner pk = some (id', s')) (live : s'.phase.live = true) {p : Parcel}
    (only : ∀ i n, out i n → i = p.source ∧ n = p.number) :
    Accounted (r.push pk p) fun _ _ => False := by
  have task' := (owner_eq_some.mp own).2
  have pushed : r.push pk p = r.set id' { s' with mailbox := s'.mailbox ++ [p] } := by
    rw [Sessions.push, own]
  have longer : ∀ q ∈ s'.inHand,
      q ∈ ({ s' with mailbox := s'.mailbox ++ [p] } : Session).inHand := by
    intro q mem
    rw [Session.inHand, ← List.append_assoc]
    exact List.mem_append_left _ mem
  have last : p ∈ ({ s' with mailbox := s'.mailbox ++ [p] } : Session).inHand := by
    simp [Session.inHand]
  rw [pushed]
  have kept : Accounted (r.set id' { s' with mailbox := s'.mailbox ++ [p] }) out := by
    refine h.set task' (fun _ _ => id) (fun n bound => .inl bound) (fun n mine => .inr mine) ?_
    rintro i n ⟨q, source, number, place⟩
    exact ⟨q, source, number, place.imp_right (And.imp_right (longer q))⟩
  intro i s₁ found n bound
  apply Or.inr
  rcases kept i s₁ found n bound with lost | placed
  · obtain ⟨rfl, rfl⟩ := only i n lost
    refine .inr ⟨id', { s' with mailbox := s'.mailbox ++ [p] }, ?_, p, rfl, rfl, .inr ⟨live, last⟩⟩
    rw [set_tasks, if_pos rfl]
  · exact placed

theorem Accounted.of_tasks (h : Accounted r out) {r' : Sessions} (same : r'.tasks = r.tasks) :
    Accounted r' out := by
  obtain ⟨registry, tasks⟩ := r'
  cases same
  exact h

theorem live_of_registered {phase : Phase} (registered : phase.Registered)
    (inside : phase ≠ .leaving) : phase.live = true := by
  cases phase with
  | leaving => exact absurd rfl inside
  | starting | refusing | ended => cases registered
  | _ => rfl

theorem exists_owner {pk : Pk} (h : pk ∈ r.attached) : ∃ o, r.owner pk = some o := by
  have takes := (List.mem_filter.mp h).2
  cases own : r.owner pk with
  | none => simp [own] at takes
  | some o => exact ⟨o, rfl⟩

theorem Accounted.forward (h : Accounted r fun _ _ => False) (consistent : Consistent r)
    (task : r.tasks.get id = some s) {number : Nat} {to_ payload : Bytes}
    (at_ : s.phase = .forwarding number to_ payload)
    (safe : loses r (.task id .forward) = false) :
    Accounted (r.forward id s number to_ payload) fun _ _ => False := by
  have concerned {n : Nat} (mine : s.phase.concerns n = true) : n = number := by
    rw [at_] at mine
    exact (of_decide_eq_true mine).symm
  rw [Sessions.forward]
  split
  · rename_i to_pk inbound sent
    have moved : Accounted (r.set id { s with phase := .ready })
        fun i n => i = id ∧ n = number := by
      refine h.set task (fun _ _ => False.elim) (fun n bound => .inl bound) ?_ ?_
      · rintro n (done | now)
        · exact .inr (.inl done)
        · exact .inl ⟨rfl, concerned now⟩
      · rintro i n ⟨p, source, number_, place⟩
        refine ⟨p, source, number_, place.imp_right ?_⟩
        rintro ⟨-, here⟩
        refine ⟨rfl, ?_⟩
        simpa [Session.inHand, at_] using here
    obtain ⟨⟨id', s'⟩, own⟩ := exists_owner (forward_eq_ok sent).2.1
    obtain ⟨entry, task'⟩ := owner_eq_some.mp own
    simp only [loses, task, at_, sent, own, Option.any_some, decide_eq_false_iff_not] at safe
    obtain ⟨s₀, found, -, registered⟩ := (consistent to_pk id').mp entry
    cases task'.symm.trans found
    by_cases self : id' = id
    · subst self
      have own' : (r.set id' { s with phase := .ready }).owner to_pk =
          some (id', { s with phase := .ready }) :=
        owner_eq_some.mpr ⟨entry, by rw [set_tasks, if_pos rfl]⟩
      exact moved.push own' rfl fun _ _ => id
    · have own' : (r.set id { s with phase := .ready }).owner to_pk = some (id', s') :=
        owner_eq_some.mpr ⟨entry, by rw [set_tasks, if_neg self]; exact task'⟩
      exact moved.push own' (live_of_registered registered safe) fun _ _ h => h
  · rename_i e _
    refine h.set task (fun _ _ => False.elim) (fun n bound => .inl bound) ?_ ?_
    · rintro n (done | now)
      · exact .inr (.inl done)
      · exact .inr (.inr (decide_eq_true (concerned now).symm))
    · rintro i n ⟨p, source, number_, place⟩
      refine ⟨p, source, number_, place.imp_right ?_⟩
      rintro ⟨-, here⟩
      refine ⟨rfl, ?_⟩
      simpa [Session.inHand, at_] using here

/-- A session that is not live has nothing whose place its phase decides. -/
theorem Accounted.enter (h : Accounted r fun _ _ => False) (task : r.tasks.get id = some s)
    (idle : s.phase.live = false) (phase : Phase) :
    Accounted (r.set id { s with phase }) fun _ _ => False := by
  refine h.set task (fun _ _ h => h) (fun n bound => .inl bound) ?_ ?_
  · rintro n (done | now)
    · exact .inr (.inl done)
    · rw [concerns_live now] at idle
      cases idle
  · rintro i n ⟨p, source, number_, place⟩
    refine ⟨p, source, number_, place.imp_right fun ⟨live, _⟩ => ?_⟩
    rw [live] at idle
    cases idle

theorem accounted_step (h : Accounted r fun _ _ => False) (consistent : Consistent r) {e : Event}
    (safe : loses r e = false) : Accounted (step c r e) fun _ _ => False := by
  cases e with
  | connect id peer_pk =>
    rw [step]
    split
    · exact h
    · rename_i free
      intro i s found n bound
      rw [set_tasks] at found
      split at found
      · cases found
        cases bound
      · refine (h i s found n bound).imp_right (.imp_right ?_)
        rintro ⟨j, s', task, held⟩
        refine ⟨j, s', ?_, held⟩
        rw [set_tasks, if_neg]
        · exact task
        · rintro rfl
          rw [free] at task
          cases task
  | task id a =>
    rw [step]
    split
    · rename_i s task
      rcases act_cases c r id s a with ⟨s', move, same⟩ | ⟨-, at_, same⟩ | ⟨-, at_, same⟩ |
        ⟨number, to_, payload, rfl, at_, same⟩
      · have kept : s.drops a = false ∨ s' = s := by
          simp only [loses, task] at safe
          split at safe
          · cases move
            exact .inr rfl
          · exact .inl safe
        rw [same]
        rcases kept with quiet | rfl
        · exact h.set task (fun _ _ h => h) (fun n => move.decoded)
            (fun n mine => .inr (move.mine quiet mine)) fun i n => move.holds quiet
        · exact h.set task (fun _ _ h => h) (fun n bound => .inl bound) (fun n mine => .inr mine)
            fun i n held => held
      · rw [same, register]
        split
        · exact h.enter task (at_ ▸ rfl) .refusing
        · exact (h.enter task (at_ ▸ rfl) .acking).of_tasks rfl
      · rw [same, unregister]
        exact (h.enter task (at_ ▸ rfl) .ended).of_tasks rfl
      · rw [same]
        exact h.forward consistent task at_ safe
    · exact h

/-- In every run whose steps lose nothing, every tunnel message that a session
has processed has been written to its recipient or answered, or is in progress. -/
theorem tunnel_settled (c : Ciborium) (events : List Event)
    (safe : ∀ before e, before ++ [e] <+: events → loses (run (step c) empty before) e = false) :
    ∀ id s, (run (step c) empty events).tasks.get id = some s → ∀ number < s.tunnels.length,
      (run (step c) empty events).Settled id s number ∨
        (run (step c) empty events).InProgress id s number := by
  intro id s task number bound
  have accounted : Accounted (run (step c) empty events) fun _ _ => False :=
    Run.invariant_of_meets (P := fun _ r => Accounted r fun _ _ => False)
      (M := fun r e => loses r e = false) (by simp [Accounted, empty])
      (fun before e h safe => accounted_step h (consistent_run c before) safe) events safe
  exact placed_iff.mp ((accounted id s task number bound).resolve_left fun h => h)

/-! ## One message -/

/-- Session 1 of one key and session 2 of another attach; 2 sends 1 a message,
which is decoded. -/
def oneTunnel : List Event :=
  [.connect 1 (FixedBytes.fill _ 1), .connect 2 (FixedBytes.fill _ 2), .task 1 .register,
    .task 1 (.ack true), .task 2 .register, .task 2 (.ack true),
    .task 2 (.receive (RelayMessage.LinkTunnel (FixedBytes.fill 32 1).val [7]).into_writer)]

/-- The message reaches the first session's mailbox and is written out. -/
def delivered : List Event :=
  oneTunnel ++ [.task 2 .forward, .task 1 .take, .task 1 (.wrote true)]

theorem tunnel_settled_written : ∃ s, (run (step .definite) empty delivered).tasks.get 2 = some s ∧
    s.tunnels.length = 1 ∧ ((run (step .definite) empty delivered).Settled 2 s 0 ∨
      (run (step .definite) empty delivered).InProgress 2 s 0) := by
  have along : Run.Along (step .definite) (fun r e => loses r e = false) empty delivered := by
    decide
  have sender : ((run (step .definite) empty delivered).tasks.get 2).any
      (fun s => s.tunnels.length = 1) = true := by
    decide
  obtain ⟨s, task, one⟩ := (Option.any_eq_true ..).mp sender
  have length : s.tunnels.length = 1 := of_decide_eq_true one
  exact ⟨s, task, length, tunnel_settled .definite delivered (Run.along_iff.mp along) 2 s task 0
    (length ▸ Nat.one_pos)⟩

/-- The first session's connection ends; before it takes its entry out, the
message is forwarded to it. -/
def forwardedLate : List Event :=
  oneTunnel ++ [.task 1 .recvFailed, .task 2 .forward, .task 1 .unregister]

/-- Such a message is accepted into a mailbox that nobody reads. -/
theorem forwarded_to_leaving : ¬ ∀ (c : Ciborium) (events : List Event) (id : Nat) (s : Session),
    (run (step c) empty events).tasks.get id = some s → ∀ number < s.tunnels.length,
      (run (step c) empty events).Settled id s number ∨
        (run (step c) empty events).InProgress id s number := by
  intro all
  have lost : ((run (step .definite) empty forwardedLate).tasks.get 2).any (fun s =>
      decide (0 < s.tunnels.length ∧ ¬ ((run (step .definite) empty forwardedLate).Settled 2 s 0 ∨
        (run (step .definite) empty forwardedLate).InProgress 2 s 0))) = true := by
    decide
  obtain ⟨s, task, gone⟩ := (Option.any_eq_true ..).mp lost
  have placed := of_decide_eq_true gone
  exact absurd (all .definite forwardedLate 2 s task 0 placed.1) placed.2

end Sessions

end Qev.Relay
