import Qev.Relay.RateLimiter
import Qev.Relay.Store

/-! The relay's handling of one request and of one connection (`service.rs`). -/

namespace Qev.Relay

def DEFAULT_FETCH_LIMIT : UInt32 := 50

structure RelayService where
  store : InMemoryStore
  deliver_limiter : RateLimiter
  fetch_limiter : RateLimiter

/-- What the runtime supplies while a request is handled: the monotonic clock
in seconds, the wall clock in milliseconds and the bytes of a new id. -/
structure Moment where
  instant : ℚ
  now_ms : UInt64
  drawn : EnvelopeId

namespace RelayService

def with_limits (store : InMemoryStore) (deliver_per_min fetch_per_min : Nat) : RelayService :=
  ⟨store, .new deliver_per_min, .new fetch_per_min⟩

def new (store : InMemoryStore) : RelayService := with_limits store 30 60

def toWire (e : Envelope) : WireEnvelope where
  id := e.id.val
  from_ := e.from_.val
  envelope := e.bytes
  created_at := e.created_at

def take (limit : UInt32) : Nat :=
  if limit = 0 ∨ limit > DEFAULT_FETCH_LIMIT then DEFAULT_FETCH_LIMIT.toNat else limit.toNat

/-- The ids of an `Ack`, checked in order from number `i`. -/
def parseIds : Nat → List Bytes → Except Error (List EnvelopeId)
  | _, [] => .ok []
  | i, id :: ids => do
    let id ← check_id_bytes s!"ids[{i}]" id
    return id :: (← parseIds (i + 1) ids)

def dispatch (svc : RelayService) (requester_pk : Pk) (request : RelayMessage) (at_ : Moment) :
    RelayService × Except Error RelayMessage :=
  match request with
  | .Deliver to_ envelope =>
    let (limiter, allowed) := svc.deliver_limiter.check requester_pk at_.instant
    let svc := { svc with deliver_limiter := limiter }
    match allowed with
    | .error msg => (svc, .error (.RateLimited msg))
    | .ok () =>
      match check_pk_bytes "to" to_ with
      | .error e => (svc, .error e)
      | .ok to_pk =>
        if envelope.length > MAX_ENVELOPE_BYTES then
          (svc, .error (.TooLarge envelope.length MAX_ENVELOPE_BYTES))
        else
          let env : Envelope :=
            { id := InMemoryStore.zeroId, to_ := to_pk, from_ := requester_pk, bytes := envelope,
              created_at := at_.now_ms }
          let (store, id) := svc.store.put env at_.drawn
          ({ svc with store }, .ok (.DeliverResult id.val))
  | .Fetch limit =>
    let (limiter, allowed) := svc.fetch_limiter.check requester_pk at_.instant
    let svc := { svc with fetch_limiter := limiter }
    match allowed with
    | .error msg => (svc, .error (.RateLimited msg))
    | .ok () =>
      let (batch, has_more) := svc.store.get_pending requester_pk (take limit)
      (svc, .ok (.FetchResult (batch.map toWire) has_more))
  | .Ack ids =>
    match parseIds 0 ids with
    | .error e => (svc, .error e)
    | .ok parsed =>
      let (store, deleted) := svc.store.delete requester_pk parsed
      ({ svc with store }, .ok (.AckResult (UInt32.ofNat deleted)))
  | .LinkAttach => (svc, .error (.Protocol "LinkAttach must be the first message on a session"))
  | .LinkTunnel .. => (svc, .error (.Protocol "LinkTunnel only valid inside a live session"))
  | .DeliverResult .. | .FetchResult .. | .AckResult .. | .Error .. | .Hello .. | .LinkAttachAck ..
  | .LinkInbound .. | .LinkUnreachable .. =>
    (svc, .error (.Protocol "client sent a server-only message variant"))

/-- The code of the error reply to a failed request. -/
def errorCode : Error → String
  | .TooLarge .. => "too_large"
  | .RateLimited .. => "rate_limited"
  | _ => "internal"

/-- The reply to a request in one-shot mode. -/
def respond (svc : RelayService) (peer_pk : Pk) (request : RelayMessage) (at_ : Moment) :
    RelayService × RelayMessage :=
  match svc.dispatch peer_pk request at_ with
  | (svc, .ok r) => (svc, r)
  | (svc, .error e) => (svc, .Error (errorCode e) e.display)

/-- How a connection goes on after its first message. -/
inductive Served where
  | replied (wire : Bytes)
  | live (channel : Pairing.Channel) (unread : Bytes)

/-- `handle_connection` after the handshake, on a stream that brings `io`. -/
def handle_connection (svc : RelayService) (c : Ciborium) (peer_pk : Pk) (channel : Pairing.Channel)
    (io : Bytes) (at_ : Moment) : RelayService × Except Error Served :=
  match channel.recv io with
  | .error e => (svc, .error (.Pairing e))
  | .ok (channel, request_bytes, rest) =>
    match c.decode request_bytes with
    | .error e => (svc, .error e)
    | .ok .LinkAttach => (svc, .ok (.live channel rest))
    | .ok request =>
      let (svc, response) := svc.respond peer_pk request at_
      match response.encode with
      | .error e => (svc, .error e)
      | .ok response_bytes =>
        match channel.send response_bytes with
        | .error e => (svc, .error (.Pairing e))
        | .ok (_, wire) => (svc, .ok (.replied wire))

/-! ## What a request does -/

theorem dispatch_deliver {svc : RelayService} {pk : Pk} {at_ : Moment}
    (admits : svc.deliver_limiter.Admits pk at_.instant) (to_ : Pk) {envelope : Bytes}
    (legal : envelope.length ≤ MAX_ENVELOPE_BYTES) :
    svc.dispatch pk (.Deliver to_.val envelope) at_ =
      ({ svc with
          deliver_limiter := (svc.deliver_limiter.check pk at_.instant).1
          store := (svc.store.put ⟨InMemoryStore.zeroId, to_, pk, envelope, at_.now_ms⟩
            at_.drawn).1 },
        .ok (.DeliverResult at_.drawn.val)) := by
  simp only [dispatch, RateLimiter.check_admits admits, check_pk_bytes_pk, Nat.not_lt.mpr legal,
    ↓reduceIte, InMemoryStore.put]

theorem dispatch_deliver_refused {svc : RelayService} {pk : Pk} {at_ : Moment}
    (refused : ¬ svc.deliver_limiter.Admits pk at_.instant) (to_ envelope : Bytes) :
    svc.dispatch pk (.Deliver to_ envelope) at_ =
      ({ svc with deliver_limiter := (svc.deliver_limiter.check pk at_.instant).1 },
        .error (.RateLimited
          s!"rate limited: max {svc.deliver_limiter.max_per_minute} per minute")) := by
  simp only [dispatch, RateLimiter.check_refuses refused]

/-- The service once its fetch limiter has counted a request of `pk`. -/
def counted (svc : RelayService) (pk : Pk) (at_ : Moment) : RelayService :=
  { svc with fetch_limiter := (svc.fetch_limiter.check pk at_.instant).1 }

@[simp] theorem counted_store (svc : RelayService) (pk : Pk) (at_ : Moment) :
    (svc.counted pk at_).store = svc.store := rfl

@[simp] theorem counted_max_per_minute (svc : RelayService) (pk : Pk) (at_ : Moment) :
    (svc.counted pk at_).fetch_limiter.max_per_minute = svc.fetch_limiter.max_per_minute :=
  RateLimiter.check_max_per_minute _ _ _

theorem dispatch_fetch {svc : RelayService} {pk : Pk} {at_ : Moment}
    (admits : svc.fetch_limiter.Admits pk at_.instant) (limit : UInt32) :
    svc.dispatch pk (.Fetch limit) at_ =
      (svc.counted pk at_,
        .ok (.FetchResult (((svc.store.pending pk).take (take limit)).map toWire)
          (decide ((svc.store.pending pk).length > take limit)))) := by
  simp only [dispatch, counted, RateLimiter.check_admits admits, InMemoryStore.get_pending_eq]

theorem dispatch_fetch_refused {svc : RelayService} {pk : Pk} {at_ : Moment}
    (refused : ¬ svc.fetch_limiter.Admits pk at_.instant) (limit : UInt32) :
    svc.dispatch pk (.Fetch limit) at_ = (svc.counted pk at_, .error
      (.RateLimited s!"rate limited: max {svc.fetch_limiter.max_per_minute} per minute")) := by
  simp only [dispatch, counted, RateLimiter.check_refuses refused]

theorem parseIds_ids (i : Nat) (ids : List EnvelopeId) :
    parseIds i (ids.map Subtype.val) = .ok ids := by
  induction ids generalizing i with
  | nil => rfl
  | cons id ids ih =>
    rw [List.map_cons, parseIds, check_id_bytes_id, ih]
    rfl

theorem dispatch_ack (svc : RelayService) (pk : Pk) (ids : List EnvelopeId) (at_ : Moment) :
    svc.dispatch pk (.Ack (ids.map Subtype.val)) at_ =
      ({ svc with store := (svc.store.delete pk ids).1 },
        .ok (.AckResult (UInt32.ofNat (svc.store.delete pk ids).2))) := by
  simp only [dispatch, parseIds_ids]

/-- No request changes how much the limiters allow. -/
theorem dispatch_max_per_minute (svc : RelayService) (pk : Pk) (request : RelayMessage)
    (at_ : Moment) :
    (svc.dispatch pk request at_).1.fetch_limiter.max_per_minute =
      svc.fetch_limiter.max_per_minute := by
  cases request with
  | Deliver to_ envelope =>
    simp only [dispatch]
    cases (svc.deliver_limiter.check pk at_.instant).2 with
    | error msg => rfl
    | ok _ =>
      cases check_pk_bytes "to" to_ with
      | error e => rfl
      | ok to_pk =>
        dsimp only
        split <;> rfl
  | Fetch limit =>
    by_cases admits : svc.fetch_limiter.Admits pk at_.instant
    · rw [dispatch_fetch admits]
      exact counted_max_per_minute svc pk at_
    · rw [dispatch_fetch_refused admits]
      exact counted_max_per_minute svc pk at_
  | Ack ids =>
    simp only [dispatch]
    cases parseIds 0 ids <;> rfl
  | _ => rfl

theorem respond_ok {svc svc' : RelayService} {pk : Pk} {request r : RelayMessage} {at_ : Moment}
    (h : svc.dispatch pk request at_ = (svc', .ok r)) :
    svc.respond pk request at_ = (svc', r) := by
  rw [respond, h]

theorem respond_error {svc svc' : RelayService} {pk : Pk} {request : RelayMessage} {e : Error}
    {at_ : Moment} (h : svc.dispatch pk request at_ = (svc', .error e)) :
    svc.respond pk request at_ = (svc', .Error (errorCode e) e.display) := by
  rw [respond, h]

theorem respond_fst (svc : RelayService) (pk : Pk) (request : RelayMessage) (at_ : Moment) :
    (svc.respond pk request at_).1 = (svc.dispatch pk request at_).1 := by
  simp only [respond]
  rcases svc.dispatch pk request at_ with ⟨svc', (e | r)⟩ <;> rfl

/-- A connection changes the service only through the request it brings. -/
theorem handle_connection_fst (svc : RelayService) (c : Ciborium) (peer_pk : Pk)
    (channel : Pairing.Channel) (io : Bytes) (at_ : Moment) :
    (svc.handle_connection c peer_pk channel io at_).1 = svc ∨
      ∃ request, (svc.handle_connection c peer_pk channel io at_).1 =
        (svc.respond peer_pk request at_).1 := by
  unfold handle_connection
  split
  · exact .inl rfl
  · split
    · exact .inl rfl
    · exact .inl rfl
    · rename_i request _ _
      refine .inr ⟨request, ?_⟩
      dsimp only
      split
      · rfl
      · split <;> rfl

end RelayService

end Qev.Relay
