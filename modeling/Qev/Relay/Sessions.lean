import Qev.Lib.Run
import Qev.Relay.Live

/-! All live sessions of a relay together: the registry they share and the
steps of their tasks, which interleave at every await of `handle_live_session`. -/

namespace Qev.Relay

/-! ## One session -/

/-- A message in a mailbox. The session it is from and its number among the
`LinkTunnel` messages of that session are not part of the code; they say which
message it is. -/
structure Parcel where
  source : Nat
  number : Nat
  inbound : Inbound
  deriving DecidableEq

/-- What the loop writes back to its own client. -/
inductive Reply where
  | undelivered (number : Nat) (e : ForwardError)
  | protocol
  deriving DecidableEq

def Reply.message : Reply → RelayMessage
  | undelivered _ e => e.reply
  | protocol => .Error "protocol" "live session only accepts LinkTunnel messages"

/-- Where a session's task stands. -/
inductive Phase where
  | starting
  | refusing
  | acking
  | ready
  | writing (p : Parcel)
  | forwarding (number : Nat) (to_ payload : Bytes)
  | replying (reply : Reply)
  | leaving
  | ended
  deriving DecidableEq

/-- From the insertion into the registry to the removal. -/
def Phase.Registered : Phase → Prop
  | starting | refusing | ended => False
  | acking | ready | writing _ | forwarding .. | replying _ | leaving => True

/-- Whether the task still has the receiving end of its mailbox. -/
def Phase.receives : Phase → Bool
  | ended => false
  | _ => true

/-- `tunnels` are the `LinkTunnel` messages decoded, `written` the messages of
the mailbox written out and `answered` the numbers of the tunnel messages that a
reply was written for; no step reads them but for counting. -/
structure Session where
  peer_pk : Pk
  phase : Phase
  mailbox : List Parcel
  tunnels : List (Bytes × Bytes)
  written : List Parcel
  answered : List Nat

namespace Session

def new (peer_pk : Pk) : Session := ⟨peer_pk, .starting, [], [], [], []⟩

def attachAck : RelayMessage := .LinkAttachAck PROTOCOL_VERSION (.ofNat MAX_LINK_PAYLOAD_BYTES)

end Session

/-- A step of a task up to its next await. The flags say whether a write went
through. -/
inductive Action where
  | register
  | refuse
  | ack (sent : Bool)
  | take
  | wrote (sent : Bool)
  | receive (bytes : Bytes)
  | recvFailed
  | forward
  | reply (sent : Bool)
  | unregister

namespace Session

/-- The branch of the client: one message of it has been decrypted. -/
def receive (c : Ciborium) (s : Session) (bytes : Bytes) : Session :=
  match c.decode bytes with
  | .ok (.LinkTunnel to_ payload) =>
    { s with phase := .forwarding s.tunnels.length to_ payload,
             tunnels := s.tunnels ++ [(to_, payload)] }
  | .ok .LinkAttach => s
  | .ok _ => { s with phase := .replying .protocol }
  | .error _ => s

/-- The branch of the mailbox. `senders` is whether a sender to it is left. -/
def take (s : Session) (senders : Bool) : Session :=
  match s.mailbox with
  | [] => if senders then s else { s with phase := .leaving }
  | p :: mailbox =>
    match p.inbound.message.encode with
    | .error _ => { s with mailbox }
    | .ok _ => { s with mailbox, phase := .writing p }

/-- A message has been encoded or the task has returned; then it is sent, or the
loop ends. -/
def send (s : Session) (message : RelayMessage) (sent : Bool) (done : Session) : Session :=
  match message.encode with
  | .error _ => { s with phase := .ended }
  | .ok _ => if sent then done else { s with phase := .leaving }

/-- The steps that touch nothing but the session. -/
def act (c : Ciborium) (senders : Bool) (s : Session) : Action → Session
  | .refuse =>
    match s.phase with
    | .refusing => { s with phase := .ended }
    | _ => s
  | .ack sent =>
    match s.phase with
    | .acking => s.send attachAck sent { s with phase := .ready }
    | _ => s
  | .take =>
    match s.phase with
    | .ready => s.take senders
    | _ => s
  | .wrote sent =>
    match s.phase with
    | .writing p =>
      if sent then { s with phase := .ready, written := s.written ++ [p] }
      else { s with phase := .leaving }
    | _ => s
  | .receive bytes =>
    match s.phase with
    | .ready => s.receive c bytes
    | _ => s
  | .recvFailed =>
    match s.phase with
    | .ready => { s with phase := .leaving }
    | _ => s
  | .reply sent =>
    match s.phase with
    | .replying (.undelivered number e) =>
      s.send (Reply.undelivered number e).message sent
        { s with phase := .ready, answered := s.answered ++ [number] }
    | .replying .protocol => s.send Reply.protocol.message sent { s with phase := .ready }
    | _ => s
  | .register | .forward | .unregister => s

end Session

/-! ## All sessions -/

/-- `live_sessions`, each sender as the number of the session it belongs to, and
the tasks. -/
structure Sessions where
  registry : HashMap Pk Nat
  tasks : HashMap Nat Session

namespace Sessions

inductive Event where
  | connect (id : Nat) (peer_pk : Pk)
  | task (id : Nat) (a : Action)

def empty : Sessions := ⟨.empty, .empty⟩

def set (r : Sessions) (id : Nat) (s : Session) : Sessions :=
  { r with tasks := r.tasks.insert id s }

/-- The session that the registry's entry for a key belongs to. -/
def owner (r : Sessions) (pk : Pk) : Option (Nat × Session) := do
  let id ← r.registry.get pk
  let s ← r.tasks.get id
  return (id, s)

/-- The keys whose sessions take messages. -/
def attached (r : Sessions) : List Pk :=
  r.registry.keys.filter fun pk => (r.owner pk).any fun o => o.2.phase.receives

/-- `sender.send`, where the registry has a sender for the key. -/
def push (r : Sessions) (pk : Pk) (p : Parcel) : Sessions :=
  match r.owner pk with
  | some (id, s) => r.set id { s with mailbox := s.mailbox ++ [p] }
  | none => r

def register (r : Sessions) (id : Nat) (s : Session) : Sessions :=
  match r.registry.get s.peer_pk with
  | some _ => r.set id { s with phase := .refusing }
  | none => { r.set id { s with phase := .acking } with registry := r.registry.insert s.peer_pk id }

def unregister (r : Sessions) (id : Nat) (s : Session) : Sessions :=
  { r.set id { s with phase := .ended } with registry := r.registry.remove s.peer_pk }

/-- `forward_link_tunnel`, with the lock held throughout. -/
def forward (r : Sessions) (id : Nat) (s : Session) (number : Nat) (to_ payload : Bytes) :
    Sessions :=
  match forward_link_tunnel r.attached s.peer_pk to_ payload with
  | .ok (to_pk, inbound) => (r.set id { s with phase := .ready }).push to_pk ⟨id, number, inbound⟩
  | .error e => r.set id { s with phase := .replying (.undelivered number e) }

def act (c : Ciborium) (r : Sessions) (id : Nat) (s : Session) (a : Action) : Sessions :=
  match a, s.phase with
  | .register, .starting => r.register id s
  | .unregister, .leaving => r.unregister id s
  | .forward, .forwarding number to_ payload => r.forward id s number to_ payload
  | a, _ => r.set id (s.act c (r.registry.get s.peer_pk = some id) a)

def step (c : Ciborium) (r : Sessions) : Event → Sessions
  | .connect id peer_pk =>
    match r.tasks.get id with
    | some _ => r
    | none => r.set id (.new peer_pk)
  | .task id a =>
    match r.tasks.get id with
    | some s => r.act c id s a
    | none => r

variable {c : Ciborium} {r : Sessions} {id : Nat} {s : Session}

@[simp] theorem set_registry (r : Sessions) (id : Nat) (s : Session) :
    (r.set id s).registry = r.registry := rfl

theorem set_tasks (r : Sessions) (id : Nat) (s : Session) (i : Nat) :
    (r.set id s).tasks.get i = if i = id then some s else r.tasks.get i :=
  HashMap.get_insert ..

theorem owner_eq_some {pk : Pk} :
    r.owner pk = some (id, s) ↔ r.registry.get pk = some id ∧ r.tasks.get id = some s := by
  simp only [owner, Option.bind_eq_bind, Option.bind_eq_some_iff, Option.pure_def,
    Option.some.injEq, Prod.mk.injEq]
  constructor
  · rintro ⟨_, found, _, task, rfl, rfl⟩
    exact ⟨found, task⟩
  · rintro ⟨found, task⟩
    exact ⟨id, found, s, task, rfl, rfl⟩

theorem push_registry (r : Sessions) (pk : Pk) (p : Parcel) :
    (r.push pk p).registry = r.registry := by
  rw [push]
  split <;> rfl

end Sessions

/-! ## The registry -/

theorem reply_encodes (reply : Reply) : ∃ bytes, reply.message.encode = .ok bytes := by
  cases reply with
  | undelivered number e => cases e <;> exact ⟨_, rfl⟩
  | protocol => exact ⟨_, rfl⟩

namespace Session

variable {c : Ciborium}

theorem send_eq (s : Session) {message : RelayMessage} {bytes : Bytes}
    (encodes : message.encode = .ok bytes) (sent : Bool) (done : Session) :
    s.send message sent done = if sent then done else { s with phase := .leaving } := by
  rw [send, encodes]

/-- Everything a local step can do to a session. -/
inductive Move (s : Session) : Action → Session → Prop
  | stay (a : Action) : Move s a s
  | refused (at_ : s.phase = .refusing) : Move s .refuse { s with phase := .ended }
  | acked (at_ : s.phase = .acking) : Move s (.ack true) { s with phase := .ready }
  | ackFailed (at_ : s.phase = .acking) : Move s (.ack false) { s with phase := .leaving }
  | alone (at_ : s.phase = .ready) (none : s.mailbox = []) :
      Move s .take { s with phase := .leaving }
  | taken (at_ : s.phase = .ready) (p : Parcel) (mailbox : List Parcel)
      (next : s.mailbox = p :: mailbox) : Move s .take { s with mailbox, phase := .writing p }
  | written (p : Parcel) (at_ : s.phase = .writing p) :
      Move s (.wrote true) { s with phase := .ready, written := s.written ++ [p] }
  | writeFailed (p : Parcel) (at_ : s.phase = .writing p) :
      Move s (.wrote false) { s with phase := .leaving }
  | tunnel (at_ : s.phase = .ready) (bytes to_ payload : Bytes) :
      Move s (.receive bytes) { s with phase := .forwarding s.tunnels.length to_ payload,
                                       tunnels := s.tunnels ++ [(to_, payload)] }
  | misused (at_ : s.phase = .ready) (bytes : Bytes) :
      Move s (.receive bytes) { s with phase := .replying .protocol }
  | recvFailed (at_ : s.phase = .ready) : Move s .recvFailed { s with phase := .leaving }
  | answered (number : Nat) (e : ForwardError) (at_ : s.phase = .replying (.undelivered number e)) :
      Move s (.reply true) { s with phase := .ready, answered := s.answered ++ [number] }
  | corrected (at_ : s.phase = .replying .protocol) :
    Move s (.reply true) { s with phase := .ready }
  | replyFailed (reply : Reply) (at_ : s.phase = .replying reply) :
      Move s (.reply false) { s with phase := .leaving }

/-- What can fail to encode is never sent, so no step returns out of the
loop. -/
theorem act_move (c : Ciborium) (senders : Bool) (s : Session) (a : Action) :
    Move s a (s.act c senders a) := by
  cases a with
  | register | forward | unregister => exact .stay _
  | refuse =>
    rw [act]
    split
    · exact .refused ‹_›
    · exact .stay _
  | ack sent =>
    rw [act]
    split
    · rw [send_eq s (rfl : attachAck.encode = .ok attachAck.into_writer)]
      cases sent
      · exact .ackFailed ‹_›
      · exact .acked ‹_›
    · exact .stay _
  | take =>
    rw [act]
    split
    · rw [take]
      split
      · cases senders
        · exact .alone ‹_› ‹_›
        · exact .stay _
      · exact .taken ‹_› _ _ ‹_›
    · exact .stay _
  | wrote sent =>
    rw [act]
    split
    · cases sent
      · exact .writeFailed _ ‹_›
      · exact .written _ ‹_›
    · exact .stay _
  | receive bytes =>
    rw [act]
    split
    · rw [receive]
      split
      · exact .tunnel ‹_› _ _ _
      · exact .stay _
      · exact .misused ‹_› _
      · exact .stay _
    · exact .stay _
  | recvFailed =>
    rw [act]
    split
    · exact .recvFailed ‹_›
    · exact .stay _
  | reply sent =>
    rw [act]
    split
    · rename_i number e at_
      obtain ⟨bytes, encodes⟩ := reply_encodes (.undelivered number e)
      rw [send_eq s encodes]
      cases sent
      · exact .replyFailed _ at_
      · exact .answered _ _ at_
    · rename_i at_
      obtain ⟨bytes, encodes⟩ := reply_encodes .protocol
      rw [send_eq s encodes]
      cases sent
      · exact .replyFailed _ at_
      · exact .corrected at_
    · exact .stay _

/-- No local step enters or leaves the registry. -/
theorem Move.registered {s s' : Session} {a : Action} (h : Move s a s') :
    s'.peer_pk = s.peer_pk ∧ (s'.phase.Registered ↔ s.phase.Registered) := by
  cases h with
  | stay => exact ⟨rfl, Iff.rfl⟩
  | refused at_ | acked at_ | ackFailed at_ | alone at_ | taken at_ | written _ at_
  | writeFailed _ at_ | tunnel at_ | misused at_ | recvFailed at_ | answered _ _ at_
  | corrected at_ | replyFailed _ at_ => exact ⟨rfl, by rw [at_]; rfl⟩

end Session

namespace Sessions

/-- Everything a task's step can do. -/
theorem act_cases (c : Ciborium) (r : Sessions) (id : Nat) (s : Session) (a : Action) :
    (∃ s', s.Move a s' ∧ act c r id s a = r.set id s') ∨
    (a = .register ∧ s.phase = .starting ∧ act c r id s a = r.register id s) ∨
    (a = .unregister ∧ s.phase = .leaving ∧ act c r id s a = r.unregister id s) ∨
    ∃ number to_ payload, a = .forward ∧ s.phase = .forwarding number to_ payload ∧
      act c r id s a = r.forward id s number to_ payload := by
  unfold act
  split
  · exact .inr (.inl ⟨rfl, ‹_›, rfl⟩)
  · exact .inr (.inr (.inl ⟨rfl, ‹_›, rfl⟩))
  · exact .inr (.inr (.inr ⟨_, _, _, rfl, ‹_›, rfl⟩))
  · exact .inl ⟨_, Session.act_move c _ s _, rfl⟩

/-- The registry's entries are the registered sessions', each under its key. -/
def Consistent (r : Sessions) : Prop :=
  ∀ pk id, r.registry.get pk = some id ↔
    ∃ s, r.tasks.get id = some s ∧ s.peer_pk = pk ∧ s.phase.Registered

variable {c : Ciborium} {r : Sessions} {id : Nat} {s : Session}

/-- Two registered sessions of one key are one. -/
theorem Consistent.unique (h : Consistent r) {id' : Nat} {s' : Session}
    (task : r.tasks.get id = some s) (registered : s.phase.Registered)
    (task' : r.tasks.get id' = some s') (registered' : s'.phase.Registered)
    (same : s'.peer_pk = s.peer_pk) : id' = id := by
  have mine := (h s.peer_pk id).mpr ⟨s, task, rfl, registered⟩
  have its := (h s.peer_pk id').mpr ⟨s', task', same, registered'⟩
  exact Option.some.inj (its.symm.trans mine)

/-- Changing a session without its entry. -/
theorem Consistent.set (h : Consistent r) {s' : Session} (task : r.tasks.get id = some s)
    (pk : s'.peer_pk = s.peer_pk) (kept : s'.phase.Registered ↔ s.phase.Registered) :
    Consistent (r.set id s') := by
  intro k i
  rw [set_registry, h k i, set_tasks]
  split
  · rename_i same
    subst same
    constructor
    · rintro ⟨s₀, found, rfl, registered⟩
      cases task.symm.trans found
      exact ⟨s', rfl, pk, kept.mpr registered⟩
    · rintro ⟨s₀, found, rfl, registered⟩
      cases found
      exact ⟨s, task, pk.symm, kept.mp registered⟩
  · rfl

theorem Consistent.push (h : Consistent r) (pk : Pk) (p : Parcel) : Consistent (r.push pk p) := by
  rw [Sessions.push]
  split
  · rename_i id s found
    exact h.set (owner_eq_some.mp found).2 rfl Iff.rfl
  · exact h

/-- A change of one session is none to the sessions of other keys. -/
theorem registered_other {s' : Session} {k : Pk} {i : Nat} (task : r.tasks.get id = some s)
    (same : s'.peer_pk = s.peer_pk) (key : k ≠ s.peer_pk) :
    (∃ s₀, r.tasks.get i = some s₀ ∧ s₀.peer_pk = k ∧ s₀.phase.Registered) ↔
      ∃ s₀, (if i = id then some s' else r.tasks.get i) = some s₀ ∧ s₀.peer_pk = k ∧
        s₀.phase.Registered := by
  split
  · rename_i mine
    subst mine
    constructor
    · rintro ⟨s₀, found, rfl, -⟩
      cases task.symm.trans found
      exact absurd rfl key
    · rintro ⟨s₀, found, rfl, -⟩
      cases found
      exact absurd same key
  · rfl

theorem Consistent.register (h : Consistent r) (task : r.tasks.get id = some s)
    (starting : s.phase = .starting) : Consistent (r.register id s) := by
  rw [Sessions.register]
  split
  · exact h.set task rfl (by rw [starting]; rfl)
  · rename_i free
    intro k i
    dsimp only
    rw [HashMap.get_insert, set_tasks]
    by_cases key : k = s.peer_pk
    · subst key
      rw [if_pos rfl, Option.some.injEq]
      constructor
      · rintro rfl
        exact ⟨_, if_pos rfl, rfl, trivial⟩
      · rintro ⟨s₀, found, same, registered⟩
        by_contra other
        rw [if_neg (Ne.symm other)] at found
        have entry := (h s.peer_pk i).mpr ⟨s₀, found, same, registered⟩
        rw [free] at entry
        cases entry
    · rw [if_neg key, h k i]
      exact registered_other task rfl key

theorem Consistent.unregister (h : Consistent r) (task : r.tasks.get id = some s)
    (leaving : s.phase = .leaving) : Consistent (r.unregister id s) := by
  have registered : s.phase.Registered := leaving ▸ trivial
  intro k i
  simp only [Sessions.unregister]
  rw [HashMap.get_remove, set_tasks]
  by_cases key : k = s.peer_pk
  · subst key
    rw [if_pos rfl]
    constructor
    · rintro ⟨⟩
    · rintro ⟨s₀, found, same, registered'⟩
      by_cases mine : i = id
      · rw [if_pos mine] at found
        cases found
        cases registered'
      · rw [if_neg mine] at found
        exact absurd (h.unique task registered found registered' same) mine
  · rw [if_neg key, h k i]
    exact registered_other task rfl key

theorem Consistent.forward (h : Consistent r) (task : r.tasks.get id = some s) {number : Nat}
    {to_ payload : Bytes} (phase : s.phase = .forwarding number to_ payload) :
    Consistent (r.forward id s number to_ payload) := by
  rw [Sessions.forward]
  split
  · have moved : Consistent (r.set id { s with phase := .ready }) :=
      h.set task rfl (by rw [phase]; rfl)
    exact moved.push _ _
  · exact h.set task rfl (by rw [phase]; rfl)

theorem consistent_step (h : Consistent r) (e : Event) : Consistent (step c r e) := by
  cases e with
  | connect id peer_pk =>
    rw [step]
    split
    · exact h
    · rename_i free
      intro k i
      rw [set_registry, h k i, set_tasks]
      split
      · rename_i same
        subst same
        constructor
        · rintro ⟨s₀, found, -⟩
          rw [free] at found
          cases found
        · rintro ⟨s₀, found, -, registered⟩
          cases found
          cases registered
      · rfl
  | task id a =>
    rw [step]
    split
    · rename_i s task
      rcases act_cases c r id s a with ⟨s', move, same⟩ | ⟨-, at_, same⟩ | ⟨-, at_, same⟩ |
        ⟨number, to_, payload, -, at_, same⟩
      · rw [same]
        exact h.set task move.registered.1 move.registered.2
      · rw [same]
        exact h.register task at_
      · rw [same]
        exact h.unregister task at_
      · rw [same]
        exact h.forward task at_
    · exact h

theorem consistent_run (c : Ciborium) (events : List Event) : Consistent
    (run (step c) empty events) :=
  Run.invariant (P := fun _ r => Consistent r)
    (by intro k i; simp [empty])
    (fun _ e h => consistent_step h e) events

/-- An entry goes only with the session it belongs to. -/
theorem entry_removed {pk : Pk} {e : Event} (h : Consistent r) (entry : r.registry.get pk = some id)
    (gone : (step c r e).registry.get pk ≠ some id) : e = .task id .unregister := by
  cases e with
  | connect i peer_pk =>
    rw [step] at gone
    split at gone <;> exact absurd entry gone
  | task i a =>
    rw [step] at gone
    split at gone
    · rename_i s task
      rcases act_cases c r i s a with ⟨s', -, same⟩ | ⟨-, -, same⟩ | ⟨rfl, at_, same⟩ |
        ⟨number, to_, payload, -, -, same⟩
      · rw [same] at gone
        exact absurd entry gone
      · rw [same, register] at gone
        split at gone
        · exact absurd entry gone
        · rename_i free
          dsimp only at gone
          rw [HashMap.get_insert] at gone
          split at gone
          · rename_i key
            rw [key, free] at entry
            cases entry
          · exact absurd entry gone
      · rw [same, unregister, HashMap.get_remove] at gone
        split at gone
        · rename_i key
          have mine := (h s.peer_pk i).mpr ⟨s, task, rfl, at_ ▸ trivial⟩
          rw [key, mine] at entry
          cases entry
          rfl
        · exact absurd entry gone
      · rw [same, forward] at gone
        split at gone
        · rw [push_registry] at gone
          exact absurd entry gone
        · exact absurd entry gone
    · exact absurd entry gone

/-- In every run, the registry has an entry for a key exactly while a session of
that key is registered; that session is the only one and the entry is its; and
an entry is removed by the session it belongs to and by nothing else. -/
theorem registry_invariant (c : Ciborium) (events : List Event) :
    let r := run (step c) empty events
    (∀ pk, (∃ id, r.registry.get pk = some id) ↔
      ∃ id s, r.tasks.get id = some s ∧ s.peer_pk = pk ∧ s.phase.Registered) ∧
    (∀ pk id, r.registry.get pk = some id →
      (∃ s, r.tasks.get id = some s ∧ s.peer_pk = pk ∧ s.phase.Registered) ∧
      ∀ id' s', r.tasks.get id' = some s' → s'.peer_pk = pk → s'.phase.Registered → id' = id) ∧
    ∀ before e, before ++ [e] <+: events → ∀ pk id,
      (run (step c) empty before).registry.get pk = some id →
      (run (step c) empty (before ++ [e])).registry.get pk ≠ some id →
      e = .task id .unregister := by
  intro r
  have h : Consistent r := consistent_run c events
  refine ⟨?_, ?_, ?_⟩
  · intro pk
    exact exists_congr fun id => h pk id
  · intro pk id entry
    obtain ⟨s, task, key, registered⟩ := (h pk id).mp entry
    refine ⟨⟨s, task, key, registered⟩, ?_⟩
    intro id' s' task' key' registered'
    exact h.unique task registered task' registered' (key'.trans key.symm)
  · intro before e _ pk id entry gone
    rw [Run.snoc] at gone
    exact entry_removed (consistent_run c before) entry gone

end Sessions

end Qev.Relay
