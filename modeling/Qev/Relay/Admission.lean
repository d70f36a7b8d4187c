import Qev.Relay.Service

/-! `dispatch` in two parts, as its awaits cut it: what is settled before the
store is called, and the call of the store. -/

namespace Qev.Relay

/-- A request that has passed its checks, as the store is going to get it. -/
inductive Admitted where
  | deliver (to_ : Pk) (envelope : Bytes)
  | fetch (limit : UInt32)
  | ack (ids : List EnvelopeId)
  deriving DecidableEq

/-- The message the client sent. -/
def Admitted.request : Admitted → RelayMessage
  | deliver to_ envelope => .Deliver to_.val envelope
  | fetch limit => .Fetch limit
  | ack ids => .Ack (ids.map Subtype.val)

structure Limiters where
  deliver_limiter : RateLimiter
  fetch_limiter : RateLimiter

/-- `dispatch` up to its call of the store. -/
def Limiters.charge (l : Limiters) (requester_pk : Pk) (request : RelayMessage) (instant : ℚ) :
    Limiters × Except Error Admitted :=
  match request with
  | .Deliver to_ envelope =>
    let (limiter, allowed) := l.deliver_limiter.check requester_pk instant
    let l := { l with deliver_limiter := limiter }
    match allowed with
    | .error msg => (l, .error (.RateLimited msg))
    | .ok () =>
      match check_pk_bytes "to" to_ with
      | .error e => (l, .error e)
      | .ok to_pk =>
        if envelope.length > MAX_ENVELOPE_BYTES then
          (l, .error (.TooLarge envelope.length MAX_ENVELOPE_BYTES))
        else (l, .ok (.deliver to_pk envelope))
  | .Fetch limit =>
    let (limiter, allowed) := l.fetch_limiter.check requester_pk instant
    let l := { l with fetch_limiter := limiter }
    match allowed with
    | .error msg => (l, .error (.RateLimited msg))
    | .ok () => (l, .ok (.fetch limit))
  | .Ack ids =>
    match RelayService.parseIds 0 ids with
    | .error e => (l, .error e)
    | .ok parsed => (l, .ok (.ack parsed))
  | .LinkAttach => (l, .error (.Protocol "LinkAttach must be the first message on a session"))
  | .LinkTunnel .. => (l, .error (.Protocol "LinkTunnel only valid inside a live session"))
  | .DeliverResult .. | .FetchResult .. | .AckResult .. | .Error .. | .Hello .. | .LinkAttachAck ..
  | .LinkInbound .. | .LinkUnreachable .. =>
    (l, .error (.Protocol "client sent a server-only message variant"))

theorem parseIds_eq_ok {i : Nat} {ids : List Bytes} {parsed : List EnvelopeId}
    (h : RelayService.parseIds i ids = .ok parsed) : ids = parsed.map Subtype.val := by
  induction ids generalizing i parsed with
  | nil =>
    cases h
    rfl
  | cons id ids ih =>
    obtain ⟨first, checked, h⟩ := bind_eq_ok.mp h
    obtain ⟨others, rest, h⟩ := bind_eq_ok.mp h
    cases h
    rw [check_id_bytes] at checked
    split at checked
    · cases checked
      rw [List.map_cons, ← ih rest]
    · cases checked

/-- What is admitted is the request as it was sent. -/
theorem charge_request {l l' : Limiters} {pk : Pk} {request : RelayMessage} {instant : ℚ}
    {a : Admitted} (h : l.charge pk request instant = (l', .ok a)) : a.request = request := by
  cases request with
  | Deliver to_ envelope =>
    simp only [Limiters.charge] at h
    split at h
    · cases h
    · split at h
      · cases h
      · rename_i to_pk checked
        split at h
        · cases h
        · cases h
          rw [check_pk_bytes] at checked
          split at checked
          · cases checked
            rfl
          · cases checked
  | Fetch limit =>
    simp only [Limiters.charge] at h
    split at h
    · cases h
    · cases h
      rfl
  | Ack ids =>
    simp only [Limiters.charge] at h
    split at h
    · cases h
    · rename_i parsed ok
      cases h
      rw [Admitted.request, parseIds_eq_ok ok]
  | _ => cases h

namespace RelayService

def limiters (svc : RelayService) : Limiters := ⟨svc.deliver_limiter, svc.fetch_limiter⟩

def withLimiters (svc : RelayService) (l : Limiters) : RelayService :=
  { svc with deliver_limiter := l.deliver_limiter, fetch_limiter := l.fetch_limiter }

/-- The call of the store and the answer built from what it returns. -/
def perform (svc : RelayService) (requester_pk : Pk) (a : Admitted) (now_ms : UInt64)
    (drawn : EnvelopeId) : RelayService × RelayMessage :=
  match a with
  | .deliver to_ envelope =>
    let (store, id) :=
      svc.store.put ⟨InMemoryStore.zeroId, to_, requester_pk, envelope, now_ms⟩ drawn
    ({ svc with store }, .DeliverResult id.val)
  | .fetch limit =>
    let (batch, has_more) := svc.store.get_pending requester_pk (take limit)
    (svc, .FetchResult (batch.map toWire) has_more)
  | .ack ids =>
    let (store, deleted) := svc.store.delete requester_pk ids
    ({ svc with store }, .AckResult (UInt32.ofNat deleted))

/-- The two parts make up `dispatch`. -/
theorem dispatch_eq (svc : RelayService) (pk : Pk) (request : RelayMessage) (at_ : Moment) :
    svc.dispatch pk request at_ =
      match svc.limiters.charge pk request at_.instant with
      | (l, .error e) => (svc.withLimiters l, .error e)
      | (l, .ok a) => (((svc.withLimiters l).perform pk a at_.now_ms at_.drawn).1,
          .ok ((svc.withLimiters l).perform pk a at_.now_ms at_.drawn).2) := by
  cases request with
  | Deliver to_ envelope =>
    simp only [dispatch, Limiters.charge, limiters]
    cases (svc.deliver_limiter.check pk at_.instant).2 with
    | error msg => rfl
    | ok _ =>
      cases check_pk_bytes "to" to_ with
      | error e => rfl
      | ok to_pk =>
        dsimp only
        split <;> rfl
  | Fetch limit =>
    simp only [dispatch, Limiters.charge, limiters]
    cases (svc.fetch_limiter.check pk at_.instant).2 <;> rfl
  | Ack ids =>
    simp only [dispatch, Limiters.charge]
    cases parseIds 0 ids <;> rfl
  | _ => rfl

end RelayService

end Qev.Relay
