import Qev.Relay.Client

/-! A live session (`handle_live_session` of `service.rs`): one loop that either
writes out a message from its mailbox or reads the client's next one. The branch
of the `select!` that does not win is dropped, with the future it was polling. -/

namespace Qev.Relay

open Pairing (Channel Cipher ReadFrame MAX_TRANSPORT_MSG)

/-! ## Forwarding -/

inductive ForwardError where
  | Unreachable (to_ : Bytes)
  | InvalidTo
  | TooLarge (size : Nat)
  deriving DecidableEq, Repr

/-- A `LinkInbound` as `forward_link_tunnel` puts it in a mailbox. -/
structure Inbound where
  from_ : Pk
  payload : Bytes
  small : payload.length ≤ MAX_LINK_PAYLOAD_BYTES
  deriving DecidableEq

def Inbound.message (m : Inbound) : RelayMessage := .LinkInbound m.from_.val m.payload

/-- The mailbox a payload goes to, and what is put there. `attached` are the
keys of the registry whose sessions still receive. -/
def forward_link_tunnel (attached : List Pk) (from_ : Pk) (to_ payload : Bytes) :
    Except ForwardError (Pk × Inbound) :=
  if small : payload.length ≤ MAX_LINK_PAYLOAD_BYTES then
    if h : to_.length = 32 then
      if ⟨to_, h⟩ ∈ attached then .ok (⟨to_, h⟩, ⟨from_, payload, small⟩)
      else .error (.Unreachable to_)
    else .error .InvalidTo
  else .error (.TooLarge payload.length)

def ForwardError.reply : ForwardError → RelayMessage
  | Unreachable to_ => .LinkUnreachable to_
  | InvalidTo => .Error "invalid_to" "LinkTunnel.to must be a 32-byte pk"
  | TooLarge sz =>
    .Error "too_large" s!"LinkTunnel payload {sz} bytes exceeds cap {MAX_LINK_PAYLOAD_BYTES}"

/-- What the session writes back for one decrypted request, if anything. -/
def answer (c : Ciborium) (attached : List Pk) (peer_pk : Pk) (bytes : Bytes) :
    Option RelayMessage :=
  match c.decode bytes with
  | .ok (.LinkTunnel to_ payload) =>
    match forward_link_tunnel attached peer_pk to_ payload with
    | .ok _ => none
    | .error e => some e.reply
  | .ok .LinkAttach => none
  | .ok _ => some (.Error "protocol" "live session only accepts LinkTunnel messages")
  | .error _ => none

/-! ## The loop -/

/-- How the loop ended: a failed receive, or a failed write. -/
inductive Exit where
  | recv (e : Pairing.Error)
  | send
  deriving DecidableEq, Repr

/-- A session between two polls. `wire` has arrived and is unread; `future` is
the receive of this turn of the loop; `processed` are the requests decrypted. -/
structure Live where
  channel : Channel
  wire : Bytes
  closed : Bool
  future : ReadFrame
  mailbox : List Inbound
  processed : List Bytes
  written : Bytes
  exit : Option Exit

inductive Event where
  | arrive (piece : Bytes)
  | close
  | inbound (m : Inbound)
  /-- The runtime polls the task; `writable` says whether its writes go through. -/
  | wake (writable : Bool) (attached : List Pk)

namespace Live

def attach (channel : Channel) : Live :=
  { channel, wire := [], closed := false, future := .start, mailbox := [], processed := [],
    written := [], exit := none }

/-- `channel.send` of a message that has been encoded, or the exit it leads to. -/
def write (s : Live) (writable : Bool) (encoded : Bytes) : Live :=
  match s.channel.send encoded with
  | .error _ => { s with exit := some .send }
  | .ok (channel, frame) =>
    if writable then { s with channel, written := s.written ++ frame }
    else { s with channel, exit := some .send }

/-- The branch of the mailbox: the receive is dropped where it stands. -/
def deliver (s : Live) (writable : Bool) (m : Inbound) (mailbox : List Inbound) : Live :=
  let s := { s with mailbox, future := .start }
  match m.message.encode with
  | .error _ => s
  | .ok bytes => s.write writable bytes

/-- The branch of the client: one frame has been read. -/
def receive (c : Ciborium) (peer_pk : Pk) (s : Live) (writable : Bool) (attached : List Pk)
    (ciphertext rest : Bytes) : Live :=
  let s := { s with wire := rest, future := .start }
  match s.channel.open_frame ciphertext with
  | .error e => { s with exit := some (.recv e) }
  | .ok (channel, bytes) =>
    let s := { s with channel, processed := s.processed ++ [bytes] }
    match answer c attached peer_pk bytes with
    | none => s
    | some reply =>
      match reply.encode with
      | .error _ => { s with exit := some .send }
      | .ok bytes => s.write writable bytes

/-- One poll of the `select!`, the mailbox before the client. -/
def poll (c : Ciborium) (peer_pk : Pk) (s : Live) (writable : Bool) (attached : List Pk) : Live :=
  match s.mailbox with
  | m :: mailbox => s.deliver writable m mailbox
  | [] =>
    match s.future.poll s.wire with
    | .ready ciphertext rest => receive c peer_pk s writable attached ciphertext rest
    | .pending future =>
      let s := { s with wire := [], future }
      if s.closed then { s with exit := some (.recv .Io) } else s

def step (c : Ciborium) (peer_pk : Pk) (s : Live) : Event → Live
  | .arrive piece => { s with wire := s.wire ++ piece }
  | .close => { s with closed := true }
  | .inbound m => { s with mailbox := s.mailbox ++ [m] }
  | .wake writable attached =>
    match s.exit with
    | some _ => s
    | none => poll c peer_pk s writable attached

def run (c : Ciborium) (peer_pk : Pk) (s : Live) (events : List Event) : Live :=
  events.foldl (step c peer_pk) s

end Live

/-- The bytes that a sequence of events brings. -/
def arrived (events : List Event) : Bytes :=
  events.flatMap fun
    | .arrive piece => piece
    | _ => []

/-! ## Staying in step with the client -/

/-- After the bytes `stream` have arrived of a client that sends `sent` from
message number `n` on: what was processed is what was sent, in order, each
under its own number; and no byte is lost, repeated or out of its frame. -/
structure InStep (incoming : Cipher) (n : Nat) (sent : List Bytes) (stream : Bytes) (s : Live) :
    Prop where
  processed : s.processed <+: sent
  nonce : s.channel.receiving_nonce = n + s.processed.length
  whole : s.exit = none → stream = incoming.frames n s.processed ++ (s.future.taken ++ s.wire)
  opened : ∀ e, s.exit = some (.recv e) → e = .Io

/-- A poll that gives the session's turn to the mailbox while the receive holds
bytes of a frame. -/
def Interrupts (s : Live) : Event → Prop
  | .wake writable _ => writable = true ∧ s.exit = none ∧ s.mailbox ≠ [] ∧ s.future.taken ≠ []
  | _ => False

/-- `InStep`, with what a step needs to know besides. -/
structure Inv (incoming : Cipher) (n : Nat) (sent : List Bytes) (stream : Bytes) (s : Live) : Prop
    extends InStep incoming n sent stream s where
  cipher : s.channel.receiving = incoming
  waiting : s.future.Waiting

variable {incoming : Cipher} {n : Nat} {sent : List Bytes} {stream : Bytes} {s : Live}
  {c : Ciborium} {peer_pk : Pk}

theorem inv_attach (channel : Channel) :
    Inv channel.receiving channel.receiving_nonce sent [] (.attach channel) where
  processed := List.nil_prefix
  nonce := rfl
  whole _ := rfl
  opened _ h := by cases h
  cipher := rfl
  waiting := Nat.zero_lt_two

/-- Writing out a message leaves the receiving side as it was. -/
theorem Inv.write (inv : Inv incoming n sent stream s) (writable : Bool) (encoded : Bytes) :
    Inv incoming n sent stream (s.write writable encoded) := by
  rw [Live.write]
  split
  · exact { inv with whole := nofun, opened := nofun }
  · rename_i channel frame sends
    have moved := Channel.send_eq_ok sends
    subst moved
    split
    · exact { inv with }
    · exact { inv with whole := nofun, opened := nofun }

/-- The next frame of an intact stream is the next message sent. -/
theorem next_frame {ciphertext rest : Bytes} {processed more : List Bytes}
    (small : ∀ p ∈ more, p.length ≤ MAX_TRANSPORT_MSG) (short : ciphertext.length < 256 ^ 2)
    (intact : incoming.frames n processed ++
      (beBytes 2 ciphertext.length ++ (ciphertext ++ rest)) <+:
        incoming.frames n (processed ++ more)) :
    ∃ p ps, more = p :: ps ∧ ciphertext = incoming.write_message (n + processed.length) p := by
  rw [Cipher.frames_append, List.prefix_append_right_inj] at intact
  cases more with
  | nil =>
    have long := intact.length_le
    simp [Cipher.frames] at long
  | cons p ps =>
    refine ⟨p, ps, rfl, ?_⟩
    obtain ⟨t, split⟩ := intact
    simp only [Cipher.frames, Cipher.frame, List.append_assoc] at split
    obtain ⟨heads, bodies⟩ := List.append_inj split (by simp)
    have size := incoming.write_length (n + processed.length) p
    have lengths : ciphertext.length =
        (incoming.write_message (n + processed.length) p).length := by
      have fits : (incoming.write_message (n + processed.length) p).length < 256 ^ 2 := by
        have := small p List.mem_cons_self
        have limit : MAX_TRANSPORT_MSG = 65519 := rfl
        omega
      rw [← beNat_beBytes 2 _ short, heads, beNat_beBytes 2 _ fits]
    exact (List.append_inj bodies lengths).1

/-- Reading a frame to its end processes the client's next message. -/
theorem Inv.receive (inv : Inv incoming n sent stream s)
    (small : ∀ p ∈ sent, p.length ≤ MAX_TRANSPORT_MSG) (intact : stream <+: incoming.frames n sent)
    (running : s.exit = none) (writable : Bool) (attached : List Pk) {ciphertext rest : Bytes}
    (ready : s.future.poll s.wire = .ready ciphertext rest) :
    Inv incoming n sent stream (.receive c peer_pk s writable attached ciphertext rest) := by
  obtain ⟨split, short⟩ := ReadFrame.poll_ready inv.waiting ready
  obtain rfl := inv.cipher
  obtain ⟨more, rfl⟩ := inv.processed
  rw [inv.whole running, split] at intact
  obtain ⟨p, ps, rfl, rfl⟩ := next_frame (fun p h => small p (List.mem_append_right _ h)) short
    intact
  have opened := s.channel.open_frame_write (small p (by simp))
  rw [inv.nonce] at opened
  have next : Inv s.channel.receiving n (s.processed ++ p :: ps) stream
      { s with
        channel := { s.channel with receiving_nonce := n + s.processed.length + 1 }
        wire := rest, future := .start, processed := s.processed ++ [p] } :=
    { processed := ⟨ps, by simp⟩
      nonce := by simp [Nat.add_assoc]
      whole := fun _ => by
        rw [inv.whole running, split, Cipher.frames_append]
        simp [Cipher.frames, Cipher.frame, ReadFrame.taken, ReadFrame.start]
      opened := inv.opened
      cipher := inv.cipher
      waiting := Nat.zero_lt_two }
  simp only [Live.receive, opened]
  split
  · exact next
  · split
    · refine { next with whole := ?_, opened := ?_ }
      · intro running
        cases running
      · intro e left
        cases left
    · exact next.write _ _

theorem Inv.deliver (inv : Inv incoming n sent stream s) {writable : Bool}
    (free : writable = true → s.future.taken = []) (m : Inbound) (mailbox : List Inbound)
    (running : s.exit = none) : Inv incoming n sent stream (s.deliver writable m mailbox) := by
  simp only [Live.deliver, Inbound.message, RelayMessage.encode]
  cases writable with
  | true =>
    have dropped : Inv incoming n sent stream { s with mailbox, future := .start } :=
      { inv with
        whole := fun _ => by rw [inv.whole running, free rfl]; rfl
        waiting := Nat.zero_lt_two }
    exact dropped.write _ _
  | false =>
    rw [Live.write]
    split
    · exact { inv with whole := nofun, opened := nofun, waiting := Nat.zero_lt_two }
    · rename_i channel frame sends
      have moved := Channel.send_eq_ok sends
      subst moved
      exact { inv with whole := nofun, opened := nofun, waiting := Nat.zero_lt_two }

theorem Inv.poll (inv : Inv incoming n sent stream s)
    (small : ∀ p ∈ sent, p.length ≤ MAX_TRANSPORT_MSG) (intact : stream <+: incoming.frames n sent)
    (running : s.exit = none) {writable : Bool}
    (free : writable = true → s.mailbox ≠ [] → s.future.taken = []) (attached : List Pk) :
    Inv incoming n sent stream (.poll c peer_pk s writable attached) := by
  rw [Live.poll]
  split
  · rename_i m mailbox waiting
    exact inv.deliver (fun out => free out (by simp [waiting])) m mailbox running
  · split
    · rename_i ready
      exact inv.receive small intact running writable attached ready
    · rename_i future pending
      obtain ⟨waits, taken⟩ := ReadFrame.poll_pending inv.waiting pending
      have read : Inv incoming n sent stream { s with wire := [], future } :=
        { inv with
          whole := fun _ => by rw [inv.whole running, taken, List.append_nil]
          waiting := waits }
      dsimp only
      split
      · exact { read with whole := nofun, opened := fun e h => by cases h; rfl }
      · exact read

theorem arrived_append (events : List Event) (event : Event) :
    arrived (events ++ [event]) = arrived events ++ arrived [event] :=
  List.flatMap_append

theorem run_append (s : Live) (events : List Event) (event : Event) :
    s.run c peer_pk (events ++ [event]) = (s.run c peer_pk events).step c peer_pk event := by
  simp [Live.run]

theorem inv_step (inv : Inv incoming n sent stream s)
    (small : ∀ p ∈ sent, p.length ≤ MAX_TRANSPORT_MSG) {event : Event}
    (intact : stream ++ arrived [event] <+: incoming.frames n sent)
    (uninterrupted : ¬ Interrupts s event) :
    Inv incoming n sent (stream ++ arrived [event]) (s.step c peer_pk event) := by
  cases event with
  | arrive piece =>
    have longer : s.exit = none → stream ++ piece =
        incoming.frames n s.processed ++ (s.future.taken ++ (s.wire ++ piece)) := by
      intro running
      rw [inv.whole running]
      simp only [List.append_assoc]
    simp only [arrived, List.flatMap_cons, List.flatMap_nil, List.append_nil]
    exact { inv with whole := longer }
  | close =>
    simp only [arrived, List.flatMap_cons, List.flatMap_nil, List.append_nil]
    exact { inv with }
  | inbound m =>
    simp only [arrived, List.flatMap_cons, List.flatMap_nil, List.append_nil]
    exact { inv with }
  | wake writable attached =>
    simp only [arrived, List.flatMap_cons, List.flatMap_nil, List.append_nil] at intact ⊢
    rw [Live.step]
    split
    · exact inv
    · rename_i running
      refine inv.poll small intact running ?_ attached
      intro out waiting
      by_contra taken
      exact uninterrupted ⟨out, running, waiting, taken⟩

/-- A run that never interrupts a frame stays in step. -/
theorem inv_run (channel : Channel) (small : ∀ p ∈ sent, p.length ≤ MAX_TRANSPORT_MSG)
    (events : List Event)
    (intact : arrived events <+: channel.receiving.frames channel.receiving_nonce sent)
    (uninterrupted : ∀ before event, before ++ [event] <+: events →
      ¬ Interrupts ((Live.attach channel).run c peer_pk before) event) :
    Inv channel.receiving channel.receiving_nonce sent (arrived events)
      ((Live.attach channel).run c peer_pk events) := by
  induction events using List.reverseRecOn with
  | nil => exact inv_attach channel
  | append_singleton events event ih =>
    rw [arrived_append] at intact ⊢
    rw [run_append]
    refine inv_step (ih ((List.prefix_append _ _).trans intact) ?_) small intact
      (uninterrupted events event (List.prefix_refl _))
    intro before event' early
    exact uninterrupted before event' (early.trans (List.prefix_append _ _))

/-- The mailbox's branch puts the session out of step when it drops a receive
that holds bytes. -/
theorem not_inStep_of_interrupts {event : Event} (inStep : InStep incoming n sent stream s)
    (interrupts : Interrupts s event) :
    ¬ InStep incoming n sent (stream ++ arrived [event]) (s.step c peer_pk event) := by
  intro after
  cases event with
  | wake writable attached =>
    obtain ⟨rfl, running, waiting, taken⟩ := interrupts
    obtain ⟨m, mailbox, here⟩ := List.exists_cons_of_ne_nil waiting
    have fits : m.message.into_writer.length ≤ MAX_TRANSPORT_MSG := by
      have size := LinkInbound_size_le m.from_ m.payload
      have payload := m.small
      have cap : MAX_LINK_PAYLOAD_BYTES = 4096 := rfl
      have limit : MAX_TRANSPORT_MSG = 65519 := rfl
      exact size.trans (by omega)
    have dropped : s.step c peer_pk (.wake true attached) =
        { s with
          channel := { s.channel with sending_nonce := s.channel.sending_nonce + 1 }
          mailbox, future := .start
          written := s.written ++ s.channel.sending.frame s.channel.sending_nonce
            m.message.into_writer } := by
      have encodes : m.message.encode = .ok m.message.into_writer := rfl
      simp only [Live.step, running, Live.poll, here, Live.deliver, encodes, Live.write,
        Channel.send_ok _ fits, ↓reduceIte]
    rw [dropped] at after
    have whole := after.whole running
    rw [inStep.whole running] at whole
    have length := congrArg List.length whole
    simp [arrived, ReadFrame.taken, ReadFrame.start] at length
    exact taken length
  | _ => exact interrupts

/-- A session stays in step through every moment of a run exactly where no
message from its mailbox interrupts a frame that is partly read. -/
theorem inStep_iff (channel : Channel) (small : ∀ p ∈ sent, p.length ≤ MAX_TRANSPORT_MSG)
    (events : List Event)
    (intact : arrived events <+: channel.receiving.frames channel.receiving_nonce sent) :
    (∀ before, before <+: events → InStep channel.receiving channel.receiving_nonce sent
        (arrived before) ((Live.attach channel).run c peer_pk before)) ↔
      ∀ before event, before ++ [event] <+: events →
        ¬ Interrupts ((Live.attach channel).run c peer_pk before) event := by
  constructor
  · intro inStep before event early interrupts
    have after := inStep _ early
    rw [arrived_append, run_append] at after
    exact not_inStep_of_interrupts (inStep _ ((List.prefix_append _ _).trans early)) interrupts
      after
  · intro uninterrupted before early
    have part : arrived before <+: arrived events := by
      obtain ⟨later, rfl⟩ := early
      exact ⟨arrived later, List.flatMap_append.symm⟩
    exact (inv_run channel small before (part.trans intact)
      fun b e h => uninterrupted b e (h.trans early)).toInStep

/-! ## One dropped receive -/

/-- The channel of a session right after the attach. -/
def sampleChannel : Channel := ⟨.counting, .counting, 1, 1⟩

def sampleInbound : Inbound := ⟨FixedBytes.fill _ 5, [9], by decide⟩

/-- The frame of one request, its length and its body arriving apart. -/
def twoPieces (between : List Event) : List Event :=
  [.arrive [0, 19], .wake true []] ++ between ++
    [.arrive (Cipher.counting.write_message 1 [1, 2, 3]), .wake true []]

theorem inStep_iff_two_pieces :
    (∀ before, before <+: twoPieces [] → InStep sampleChannel.receiving
        sampleChannel.receiving_nonce [[1, 2, 3]] (arrived before)
        ((Live.attach sampleChannel).run .definite (FixedBytes.fill _ 1) before)) ↔
      ∀ before event, before ++ [event] <+: twoPieces [] →
        ¬ Interrupts
          ((Live.attach sampleChannel).run .definite (FixedBytes.fill _ 1) before) event :=
  inStep_iff sampleChannel (by decide) (twoPieces []) (by decide)

/-- A message from the mailbox between the two pieces: the length is lost, the
body is read as a frame of its own and the session ends on it. -/
theorem interrupted_frame_lost : ¬ ∀ (c : Ciborium) (peer_pk : Pk) (channel : Channel)
    (sent : List Bytes), (∀ p ∈ sent, p.length ≤ MAX_TRANSPORT_MSG) → ∀ events,
    arrived events <+: channel.receiving.frames channel.receiving_nonce sent →
    ∀ before, before <+: events → InStep channel.receiving channel.receiving_nonce sent
      (arrived before) ((Live.attach channel).run c peer_pk before) := by
  intro all
  have inStep := all .definite (FixedBytes.fill _ 1) sampleChannel [[1, 2, 3]] (by decide)
    (twoPieces [.inbound sampleInbound, .wake true []]) (by decide) _ (List.prefix_refl _)
  have ended : ((Live.attach sampleChannel).run .definite (FixedBytes.fill _ 1)
      (twoPieces [.inbound sampleInbound, .wake true []])).exit =
      some (.recv .TransportDecrypt) := by
    decide
  exact absurd (inStep.opened _ ended) (by decide)

end Qev.Relay
