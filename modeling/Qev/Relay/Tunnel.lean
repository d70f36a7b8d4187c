import Mathlib.Data.List.DropRight
import Qev.Relay.Sessions

/-! What becomes of the `LinkTunnel` messages of live sessions, over every
interleaving of their tasks. -/

namespace Qev.Relay

theorem forward_eq_ok {attached : List Pk} {from_ pk : Pk} {to_ payload : Bytes} {m : Inbound}
    (h : forward_link_tunnel attached from_ to_ payload = .ok (pk, m)) :
    to_ = pk.val ∧ pk ∈ attached ∧ ∃ small, m = ⟨from_, payload, small⟩ := by
  rw [forward_link_tunnel] at h
  split at h
  · rename_i small
    split at h
    · split at h
      · rename_i there
        cases h
        exact ⟨rfl, there, small, rfl⟩
      · cases h
    · cases h
  · cases h

/-! ## The messages of one session -/

/-- The `LinkInbound` messages that the tunnel messages of one session to one
key come to, in order. -/
def tunnelled (source : Nat) (from_ to_ : Pk) (tunnels : List (Bytes × Bytes)) : List Parcel :=
  tunnels.zipIdx.filterMap fun ((to', payload), number) =>
    if small : payload.length ≤ MAX_LINK_PAYLOAD_BYTES then
      if to' = to_.val then some ⟨source, number, ⟨from_, payload, small⟩⟩ else none
    else none

theorem tunnelled_append (source : Nat) (from_ to_ : Pk) (tunnels more : List (Bytes × Bytes)) :
    ∃ later, tunnelled source from_ to_ (tunnels ++ more) =
      tunnelled source from_ to_ tunnels ++ later := by
  simp only [tunnelled, List.zipIdx_append, List.filterMap_append]
  exact ⟨_, rfl⟩

theorem tunnelled_snoc (source : Nat) (from_ to_ : Pk) (tunnels : List (Bytes × Bytes))
    {payload : Bytes} (small : payload.length ≤ MAX_LINK_PAYLOAD_BYTES) :
    tunnelled source from_ to_ (tunnels ++ [(to_.val, payload)]) =
      tunnelled source from_ to_ tunnels ++
        [⟨source, tunnels.length, ⟨from_, payload, small⟩⟩] := by
  simp [tunnelled, List.zipIdx_append, small]

theorem mem_tunnelled {source : Nat} {from_ to_ : Pk} {tunnels : List (Bytes × Bytes)} {p : Parcel}
    (h : p ∈ tunnelled source from_ to_ tunnels) :
    p.source = source ∧ p.inbound.from_ = from_ ∧
      tunnels[p.number]? = some (to_.val, p.inbound.payload) := by
  obtain ⟨⟨⟨to', payload⟩, number⟩, mem, made⟩ := List.mem_filterMap.mp h
  have there := List.mem_zipIdx_iff_getElem?.mp mem
  dsimp only at made there
  split at made
  · split at made
    · rename_i same
      cases made
      exact ⟨rfl, rfl, same ▸ there⟩
    · cases made
  · cases made

/-- Each message comes to at most one. -/
theorem tunnelled_nodup (source : Nat) (from_ to_ : Pk) (tunnels : List (Bytes × Bytes)) :
    (tunnelled source from_ to_ tunnels).Nodup := by
  have numbers : tunnels.zipIdx.Nodup := by
    apply List.Nodup.of_map Prod.snd
    rw [List.zipIdx_map_snd]
    exact List.nodup_range'
  apply numbers.filterMap
  rintro ⟨⟨to', payload⟩, number⟩ ⟨⟨to'', payload'⟩, number'⟩ p made made'
  dsimp only at made made'
  split at made
  · split at made
    · split at made'
      · split at made'
        · rename_i same _ same'
          cases made
          cases made'
          rw [same, same']
        · cases made'
      · cases made'
    · cases made
  · cases made

namespace Session

/-- The message being written and those in the mailbox. -/
def inHand (s : Session) : List Parcel :=
  (match s.phase with
    | .writing p => [p]
    | _ => []) ++ s.mailbox

/-- The messages for the session's client, the written ones first. -/
def pipeline (s : Session) : List Parcel := s.written ++ s.inHand

/-- The tunnel messages that `forward_link_tunnel` is through with. -/
def passed (s : Session) : List (Bytes × Bytes) :=
  match s.phase with
  | .forwarding .. => s.tunnels.dropLast
  | _ => s.tunnels

/-- A local step takes messages for the client at most away, and is never the
forwarding. -/
theorem Move.pipeline {s s' : Session} {a : Action} (h : Move s a s') :
    s'.pipeline.Sublist s.pipeline ∧ s.passed <+: s'.passed := by
  cases h with
  | stay => exact ⟨.refl _, List.prefix_rfl⟩
  | taken at_ p mailbox next =>
    simp [Session.pipeline, inHand, passed, at_, next]
  | written p at_ => simp [Session.pipeline, inHand, passed, at_]
  | writeFailed p at_ => simp [Session.pipeline, inHand, passed, at_]
  | refused at_ | acked at_ | ackFailed at_ | alone at_ | tunnel at_ | misused at_ | recvFailed at_
  | answered _ _ at_ | corrected at_ | replyFailed _ at_ =>
    simp [Session.pipeline, inHand, passed, at_]

/-- The message being forwarded is the last one decoded. -/
def Numbered (s : Session) : Prop :=
  ∀ number to_ payload, s.phase = .forwarding number to_ payload →
    s.passed.length = number ∧ s.tunnels = s.passed ++ [(to_, payload)]

theorem Move.numbered {s s' : Session} {a : Action} (h : Move s a s') (old : s.Numbered) :
    s'.Numbered := by
  cases h with
  | stay => exact old
  | tunnel =>
    intro number to_ payload at_
    cases at_
    simp [passed]
  | _ =>
    intro number to_ payload at_
    cases at_

end Session

/-! ## What holds in every run -/

namespace Sessions

open Session (pipeline passed Numbered)

/-- The messages for a session's client are some of those sent to its key by
each session, in the order they were sent in. -/
structure Faithful (events : List Event) (r : Sessions) : Prop where
  connected : ∀ id s, r.tasks.get id = some s → .connect id s.peer_pk ∈ events
  numbered : ∀ id s, r.tasks.get id = some s → s.Numbered
  known : ∀ id s, r.tasks.get id = some s → ∀ p ∈ s.pipeline, ∃ s', r.tasks.get p.source = some s'
  order : ∀ id s id' s', r.tasks.get id = some s → r.tasks.get id' = some s' →
    (s'.pipeline.filter (·.source = id)).Sublist (tunnelled id s.peer_pk s'.peer_pk s.passed)

variable {c : Ciborium} {events : List Event} {r : Sessions} {id : Nat} {s : Session}

theorem Faithful.later (h : Faithful events r) (e : Event) : Faithful (events ++ [e]) r :=
  { h with connected := fun id s task => List.mem_append_left _ (h.connected id s task) }

theorem tunnelled_mono (source : Nat) (from_ to_ : Pk) {tunnels more : List (Bytes × Bytes)}
    (h : tunnels <+: more) :
    (tunnelled source from_ to_ tunnels).Sublist (tunnelled source from_ to_ more) := by
  obtain ⟨rest, rfl⟩ := h
  obtain ⟨later, same⟩ := tunnelled_append source from_ to_ tunnels rest
  rw [same]
  exact List.sublist_append_left _ _

/-- A session moves on without a message being added for its client. -/
theorem Faithful.set (h : Faithful events r) (task : r.tasks.get id = some s) {s' : Session}
    (pk : s'.peer_pk = s.peer_pk) (fewer : s'.pipeline.Sublist s.pipeline)
    (more : s.passed <+: s'.passed) (numbered : s'.Numbered) : Faithful events (r.set id s') where
  connected i s₀ found := by
    rw [set_tasks] at found
    split at found
    · rename_i same
      cases found
      rw [pk, same]
      exact h.connected id s task
    · exact h.connected i s₀ found
  numbered i s₀ found := by
    rw [set_tasks] at found
    split at found
    · cases found
      exact numbered
    · exact h.numbered i s₀ found
  known i s₀ found p mem := by
    have old : ∃ s', r.tasks.get p.source = some s' := by
      rw [set_tasks] at found
      split at found
      · cases found
        exact h.known id s task p (fewer.subset mem)
      · exact h.known i s₀ found p mem
    rw [set_tasks]
    split
    · exact ⟨s', rfl⟩
    · exact old
  order i s₁ j s₂ found found' := by
    -- Each of the two sessions is the one that moves or stays as it is.
    have sender : ∃ s₁', r.tasks.get i = some s₁' ∧ s₁.peer_pk = s₁'.peer_pk ∧
        s₁'.passed <+: s₁.passed := by
      rw [set_tasks] at found
      split at found
      · rename_i same
        cases found
        exact ⟨s, same ▸ task, pk, more⟩
      · exact ⟨s₁, found, rfl, List.prefix_rfl⟩
    have receiver : ∃ s₂', r.tasks.get j = some s₂' ∧ s₂.peer_pk = s₂'.peer_pk ∧
        s₂.pipeline.Sublist s₂'.pipeline := by
      rw [set_tasks] at found'
      split at found'
      · rename_i same
        cases found'
        exact ⟨s, same ▸ task, pk, fewer⟩
      · exact ⟨s₂, found', rfl, .refl _⟩
    obtain ⟨s₁', task₁, pk₁, passed₁⟩ := sender
    obtain ⟨s₂', task₂, pk₂, pipe₂⟩ := receiver
    rw [pk₁, pk₂]
    exact ((pipe₂.filter _).trans (h.order i s₁' j s₂' task₁ task₂)).trans
      (tunnelled_mono _ _ _ passed₁)

theorem pipeline_push (s : Session) (p : Parcel) :
    ({ s with mailbox := s.mailbox ++ [p] } : Session).pipeline = s.pipeline ++ [p] := by
  simp [pipeline, Session.inHand]

/-- A message joins a mailbox as the next one of its session. -/
theorem Faithful.push (h : Faithful events r) {pk : Pk} {id' : Nat} {s' : Session}
    (own : r.owner pk = some (id', s')) {p : Parcel} (task : r.tasks.get p.source = some s)
    (next : ((s'.pipeline.filter (·.source = p.source)) ++ [p]).Sublist
      (tunnelled p.source s.peer_pk s'.peer_pk s.passed)) : Faithful events (r.push pk p) := by
  have task' := (owner_eq_some.mp own).2
  have pushed : r.push pk p = r.set id' { s' with mailbox := s'.mailbox ++ [p] } := by
    rw [Sessions.push, own]
  rw [pushed]
  -- Nothing but the one mailbox differs.
  have old {i : Nat} {s₁ : Session}
      (found : (r.set id' { s' with mailbox := s'.mailbox ++ [p] }).tasks.get i = some s₁) :
      ∃ s₀, r.tasks.get i = some s₀ ∧ s₁.peer_pk = s₀.peer_pk ∧ s₁.passed = s₀.passed ∧
        (s₁ = s₀ ∨ i = id' ∧ s₀ = s' ∧ s₁.pipeline = s'.pipeline ++ [p]) ∧
        (s₀.Numbered → s₁.Numbered) := by
    rw [set_tasks] at found
    split at found
    · rename_i same
      cases found
      exact ⟨s', same ▸ task', rfl, rfl, .inr ⟨same, rfl, pipeline_push s' p⟩, fun h => h⟩
    · exact ⟨s₁, found, rfl, rfl, .inl rfl, fun h => h⟩
  exact
    { connected := by
        intro i s₁ found
        obtain ⟨s₀, found₀, pk₀, -⟩ := old found
        rw [pk₀]
        exact h.connected i s₀ found₀
      numbered := by
        intro i s₁ found
        obtain ⟨s₀, found₀, -, -, -, numbered⟩ := old found
        exact numbered (h.numbered i s₀ found₀)
      known := by
        intro i s₁ found q mem
        obtain ⟨s₀, found₀, -, -, which, -⟩ := old found
        have there : ∃ s'', r.tasks.get q.source = some s'' := by
          rcases which with rfl | ⟨-, rfl, pipe⟩
          · exact h.known i _ found₀ q mem
          · rw [pipe] at mem
            rcases List.mem_append.mp mem with before | last
            · exact h.known i _ found₀ q before
            · rw [List.mem_singleton.mp last]
              exact ⟨s, task⟩
        rw [set_tasks]
        split
        · exact ⟨_, rfl⟩
        · exact there
      order := by
        intro i s₁ j s₂ found found'
        obtain ⟨s₁', found₁, pk₁, passed₁, -⟩ := old found
        obtain ⟨s₂', found₂, pk₂, -, which, -⟩ := old found'
        rw [pk₁, pk₂, passed₁]
        rcases which with rfl | ⟨-, rfl, pipe⟩
        · exact h.order i s₁' j _ found₁ found₂
        · rw [pipe, List.filter_append]
          by_cases mine : p.source = i
          · subst mine
            cases task.symm.trans found₁
            simpa using next
          · simpa [mine] using h.order i s₁' j _ found₁ found₂ }

theorem Faithful.forward (h : Faithful events r) (consistent : Consistent r)
    (task : r.tasks.get id = some s) {number : Nat} {to_ payload : Bytes}
    (at_ : s.phase = .forwarding number to_ payload) :
    Faithful events (r.forward id s number to_ payload) := by
  obtain ⟨count, tunnels⟩ := h.numbered id s task number to_ payload at_
  have through : s.passed <+: s.tunnels := ⟨_, tunnels.symm⟩
  rw [Sessions.forward]
  split
  · rename_i to_pk inbound sent
    have moved : Faithful events (r.set id { s with phase := .ready }) := by
      refine h.set task rfl ?_ through ?_
      · simp [pipeline, Session.inHand, at_]
      · intro _ _ _ phase
        cases phase
    have still : Consistent (r.set id { s with phase := .ready }) :=
      consistent.set task rfl (by rw [at_]; rfl)
    cases own : (r.set id { s with phase := .ready }).owner to_pk with
    | none =>
      rw [Sessions.push, own]
      exact moved
    | some o =>
      obtain ⟨id', s'⟩ := o
      obtain ⟨entry, task'⟩ := owner_eq_some.mp own
      have key : s'.peer_pk = to_pk := by
        obtain ⟨s'', found, key, -⟩ := (still to_pk id').mp entry
        cases task'.symm.trans found
        exact key
      have sender : (r.set id { s with phase := .ready }).tasks.get id =
          some { s with phase := .ready } := by
        rw [set_tasks, if_pos rfl]
      -- What the receiver had in its pipeline before.
      obtain ⟨s₀, found₀, pk₀, pipe₀⟩ : ∃ s₀, r.tasks.get id' = some s₀ ∧
          s₀.peer_pk = s'.peer_pk ∧ s₀.pipeline = s'.pipeline := by
        rw [set_tasks] at task'
        split at task'
        · rename_i same
          cases task'
          exact ⟨s, same ▸ task, rfl, by simp [pipeline, Session.inHand, at_]⟩
        · exact ⟨s', task', rfl, rfl⟩
      have before := h.order id s id' s₀ task found₀
      rw [pipe₀, pk₀, key] at before
      apply moved.push own sender
      obtain ⟨rfl, -, small, rfl⟩ := forward_eq_ok sent
      change List.Sublist _ (tunnelled id s.peer_pk s'.peer_pk s.tunnels)
      rw [key, tunnels, tunnelled_snoc _ _ _ _ small, count]
      exact before.append_right _
  · refine h.set task rfl ?_ through ?_
    · simp [pipeline, Session.inHand, at_]
    · intro _ _ _ phase
      cases phase

/-- The registry plays no part. -/
theorem Faithful.of_tasks (h : Faithful events r) {r' : Sessions} (same : r'.tasks = r.tasks) :
    Faithful events r' := by
  obtain ⟨registry, tasks⟩ := r'
  cases same
  exact ⟨h.connected, h.numbered, h.known, h.order⟩

theorem faithful_step (h : Faithful events r) (consistent : Consistent r) (e : Event) :
    Faithful (events ++ [e]) (step c r e) := by
  have h' := h.later e
  cases e with
  | connect id peer_pk =>
    rw [step]
    split
    · exact h'
    · rename_i free
      have nobody (s : Session) (i : Nat) (found : (r.set id (.new peer_pk)).tasks.get i = some s) :
          i = id ∧ s = .new peer_pk ∨ i ≠ id ∧ r.tasks.get i = some s := by
        rw [set_tasks] at found
        split at found
        · rename_i same
          cases found
          exact .inl ⟨same, rfl⟩
        · rename_i other
          exact .inr ⟨other, found⟩
      exact
        { connected := by
            intro i s found
            rcases nobody s i found with ⟨rfl, rfl⟩ | ⟨-, found⟩
            · exact List.mem_append_right _ (List.mem_singleton.mpr rfl)
            · exact h'.connected i s found
          numbered := by
            intro i s found
            rcases nobody s i found with ⟨rfl, rfl⟩ | ⟨-, found⟩
            · intro _ _ _ phase
              cases phase
            · exact h'.numbered i s found
          known := by
            intro i s found p mem
            rcases nobody s i found with ⟨rfl, rfl⟩ | ⟨-, found⟩
            · cases mem
            · rw [set_tasks]
              split
              · exact ⟨_, rfl⟩
              · exact h'.known i s found p mem
          order := by
            intro i s j s' found found'
            rcases nobody s' j found' with ⟨-, rfl⟩ | ⟨-, task'⟩
            · exact List.nil_sublist _
            · rcases nobody s i found with ⟨rfl, rfl⟩ | ⟨-, task⟩
              · rw [List.filter_eq_nil_iff.mpr]
                · exact List.nil_sublist _
                · intro p mem mine
                  obtain ⟨_, there⟩ := h'.known j s' task' p mem
                  rw [of_decide_eq_true mine, free] at there
                  cases there
              · exact h'.order i s j s' task task' }
  | task id a =>
    rw [step]
    split
    · rename_i s task
      rcases act_cases c r id s a with ⟨s', move, same⟩ | ⟨-, at_, same⟩ | ⟨-, at_, same⟩ |
        ⟨number, to_, payload, -, at_, same⟩
      · rw [same]
        exact h'.set task move.registered.1 move.pipeline.1 move.pipeline.2
          (move.numbered (h.numbered id s task))
      · have moved (phase : Phase) (starting : phase = .acking ∨ phase = .refusing) :
            Faithful (events ++ [.task id a]) (r.set id { s with phase }) := by
          refine h'.set task rfl ?_ ?_ ?_
          · rcases starting with rfl | rfl <;> simp [pipeline, Session.inHand, at_]
          · rcases starting with rfl | rfl <;> simp [passed, at_]
          · rintro number to_ payload rfl
            rcases starting with forwarding | forwarding <;> cases forwarding
        rw [same, register]
        split
        · exact moved .refusing (.inr rfl)
        · exact (moved .acking (.inl rfl)).of_tasks rfl
      · have moved : Faithful (events ++ [.task id a]) (r.set id { s with phase := .ended }) := by
          refine h'.set task rfl ?_ ?_ ?_
          · simp [pipeline, Session.inHand, at_]
          · simp [passed, at_]
          · intro number to_ payload forwarding
            cases forwarding
        rw [same, unregister]
        exact moved.of_tasks rfl
      · rw [same]
        exact h'.forward consistent task at_
    · exact h'

theorem faithful_run (c : Ciborium) (events : List Event) :
    Faithful events (run (step c) empty events) := by
  induction events using List.reverseRecOn with
  | nil => exact ⟨by simp [empty], by simp [empty], by simp [empty], by simp [empty]⟩
  | append_singleton events e ih =>
    rw [Run.snoc]
    exact faithful_step ih (consistent_run c events) e

/-- In every run, what has been written to a session from any one session is a
subsequence of the messages to its key that were decoded from that session, each
of them once; and everything written to it is from a session, of the key that
opened that session, with the payload and to the key of the message of that
number. -/
theorem tunnel_faithful (c : Ciborium) (events : List Event) :
    let r := run (step c) empty events
    ∀ id' s', r.tasks.get id' = some s' →
      (∀ id s, r.tasks.get id = some s →
        (s'.written.filter (·.source = id)).Sublist
          (tunnelled id s.peer_pk s'.peer_pk s.tunnels) ∧
        (s'.written.filter (·.source = id)).Nodup) ∧
      ∀ p ∈ s'.written, ∃ s, r.tasks.get p.source = some s ∧
        .connect p.source s.peer_pk ∈ events ∧ p.inbound.from_ = s.peer_pk ∧
        s.tunnels[p.number]? = some (s'.peer_pk.val, p.inbound.payload) ∧
        p.inbound.payload.length ≤ MAX_LINK_PAYLOAD_BYTES := by
  intro r id' s' task'
  have h : Faithful events r := faithful_run c events
  have written : s'.written.Sublist s'.pipeline := List.sublist_append_left _ _
  have sub (id : Nat) (s : Session) (task : r.tasks.get id = some s) :
      (s'.written.filter (·.source = id)).Sublist
        (tunnelled id s.peer_pk s'.peer_pk s.tunnels) := by
    have through : s.passed <+: s.tunnels := by
      rw [passed]
      split
      · exact List.dropLast_prefix _
      · exact List.prefix_rfl
    exact ((written.filter _).trans (h.order id s id' s' task task')).trans
      (tunnelled_mono _ _ _ through)
  constructor
  · intro id s task
    exact ⟨sub id s task, (tunnelled_nodup ..).sublist (sub id s task)⟩
  · intro p mem
    obtain ⟨s, task⟩ := h.known id' s' task' p (written.subset mem)
    have mine : p ∈ s'.written.filter (·.source = p.source) :=
      List.mem_filter.mpr ⟨mem, decide_eq_true rfl⟩
    obtain ⟨-, from_, message⟩ := mem_tunnelled ((sub p.source s task).subset mine)
    exact ⟨s, task, h.connected _ s task, from_, message, p.inbound.small⟩

end Sessions

end Qev.Relay
