import Qev.Relay.Service

/-! The client's half of the protocol (`client.rs`), against the service and
over a network that carries every byte. -/

namespace Qev.Relay

open Pairing (Cipher Channel MAX_TRANSPORT_MSG)

/-- The two directions of a connection after the handshake. -/
structure Connection where
  up : Cipher
  down : Cipher

def Connection.client (conn : Connection) : Channel := ⟨conn.up, conn.down, 0, 0⟩
def Connection.server (conn : Connection) : Channel := ⟨conn.down, conn.up, 0, 0⟩

structure FetchedEnvelope where
  id : EnvelopeId
  from_ : Pk
  bytes : Bytes
  created_at : UInt64
  deriving DecidableEq, Repr

structure FetchResult where
  envelopes : List FetchedEnvelope
  has_more : Bool
  deriving DecidableEq, Repr

/-- What is fixed over the requests of one client: the CBOR reader, the ciphers
of its connections and the key it authenticates with. -/
structure RelayClient where
  ciborium : Ciborium
  connection : Connection
  own : Pk

namespace RelayClient

/-- What the service writes back on a connection that brings it `wire`. A
connection that it gives up is closed with nothing written. -/
def served (client : RelayClient) (svc : RelayService) (wire : Bytes) (at_ : Moment) :
    RelayService × Bytes :=
  match svc.handle_connection client.ciborium client.own client.connection.server wire at_ with
  | (svc, .ok (.replied wire)) => (svc, wire)
  | (svc, _) => (svc, [])

/-- One request and its response, with the service that the exchange leaves. -/
def one_shot (client : RelayClient) (svc : RelayService) (request : RelayMessage) (at_ : Moment) :
    RelayService × Except Error RelayMessage :=
  match request.encode with
  | .error e => (svc, .error e)
  | .ok request_bytes =>
    match client.connection.client.send request_bytes with
    | .error e => (svc, .error (.Pairing e))
    | .ok (channel, wire) =>
      let (svc, back) := client.served svc wire at_
      match channel.recv back with
      | .error e => (svc, .error (.Pairing e))
      | .ok (_, response_bytes, _) => (svc, client.ciborium.decode response_bytes)

def discriminant : RelayMessage → String
  | .Deliver .. => "Deliver"
  | .DeliverResult .. => "DeliverResult"
  | .Fetch .. => "Fetch"
  | .FetchResult .. => "FetchResult"
  | .Ack .. => "Ack"
  | .AckResult .. => "AckResult"
  | .Error .. => "Error"
  | .Hello .. => "Hello"
  | .LinkAttach => "LinkAttach"
  | .LinkAttachAck .. => "LinkAttachAck"
  | .LinkTunnel .. => "LinkTunnel"
  | .LinkInbound .. => "LinkInbound"
  | .LinkUnreachable .. => "LinkUnreachable"

/-- The error for a response that is not the one `expected`. -/
def unexpected (expected : String) : RelayMessage → Error
  | .Error code msg => .Server code msg
  | other => .Protocol ("expected " ++ expected ++ ", got " ++ discriminant other)

def deliver_response : RelayMessage → Except Error EnvelopeId
  | .DeliverResult id => check_id_bytes "DeliverResult.id" id
  | other => .error (unexpected "DeliverResult" other)

def deliver (client : RelayClient) (svc : RelayService) (to_ : Pk) (envelope_bytes : Bytes)
    (at_ : Moment) : RelayService × Except Error EnvelopeId :=
  if envelope_bytes.length > MAX_ENVELOPE_BYTES then
    (svc, .error (.TooLarge envelope_bytes.length MAX_ENVELOPE_BYTES))
  else
    let (svc, response) := client.one_shot svc (.Deliver to_.val envelope_bytes) at_
    (svc, response >>= deliver_response)

def wire_to_fetched (w : WireEnvelope) : Except Error FetchedEnvelope := do
  let id ← check_id_bytes "envelope.id" w.id
  let from_ ← check_pk_bytes "envelope.from" w.from_
  return { id, from_, bytes := w.envelope, created_at := w.created_at }

def fetch_response : RelayMessage → Except Error FetchResult
  | .FetchResult envelopes has_more => do
    let envelopes ← envelopes.mapM wire_to_fetched
    return { envelopes, has_more }
  | other => .error (unexpected "FetchResult" other)

def fetch (client : RelayClient) (svc : RelayService) (limit : UInt32) (at_ : Moment) :
    RelayService × Except Error FetchResult :=
  let (svc, response) := client.one_shot svc (.Fetch limit) at_
  (svc, response >>= fetch_response)

def ack_response : RelayMessage → Except Error UInt32
  | .AckResult deleted => .ok deleted
  | other => .error (unexpected "AckResult" other)

def ack (client : RelayClient) (svc : RelayService) (ids : List EnvelopeId) (at_ : Moment) :
    RelayService × Except Error UInt32 :=
  let (svc, response) := client.one_shot svc (.Ack (ids.map Subtype.val)) at_
  (svc, response >>= ack_response)

/-! ## Fetched envelopes -/

def toFetched (e : Envelope) : FetchedEnvelope := ⟨e.id, e.from_, e.bytes, e.created_at⟩

theorem wire_to_fetched_toWire (e : Envelope) :
    wire_to_fetched (RelayService.toWire e) = .ok (toFetched e) := by
  simp only [wire_to_fetched, RelayService.toWire, check_id_bytes_id, check_pk_bytes_pk]
  rfl

theorem mapM_wire_to_fetched (es : List Envelope) :
    (es.map RelayService.toWire).mapM wire_to_fetched = .ok (es.map toFetched) := by
  induction es with
  | nil => rfl
  | cons e es ih =>
    simp only [List.map_cons, List.mapM_cons, wire_to_fetched_toWire, ih]
    rfl

/-! ## Exchanges -/

variable (client : RelayClient) (svc : RelayService) (at_ : Moment)

theorem decode_into_writer {m : RelayMessage} (fits : m.into_writer.length ≤ MAX_TRANSPORT_MSG) :
    client.ciborium.decode m.into_writer = .ok m := by
  have short : m.into_writer.length < 2 ^ 64 := by
    have : MAX_TRANSPORT_MSG < 2 ^ 64 := by decide
    omega
  rw [Ciborium.decode, client.ciborium.from_reader_into_writer m short]

theorem server_recv {m : RelayMessage} (fits : m.into_writer.length ≤ MAX_TRANSPORT_MSG) :
    client.connection.server.recv (client.connection.up.frame 0 m.into_writer) =
      .ok ({ client.connection.server with receiving_nonce := 1 }, m.into_writer, []) := by
  have received := client.connection.server.recv_frame [] fits
  rwa [List.append_nil] at received

/-- The service answers a request that reaches it with one frame, where the
response fits in one. -/
theorem served_fits {request response : RelayMessage} (mode : request ≠ .LinkAttach)
    (fits : request.into_writer.length ≤ MAX_TRANSPORT_MSG)
    (responds : (svc.respond client.own request at_).2 = response)
    (encodes : response.encode = .ok response.into_writer)
    (small : response.into_writer.length ≤ MAX_TRANSPORT_MSG) :
    client.served svc (client.connection.up.frame 0 request.into_writer) at_ =
      ((svc.respond client.own request at_).1,
        client.connection.down.frame 0 response.into_writer) := by
  subst responds
  simp only [served, RelayService.handle_connection, client.server_recv fits,
    client.decode_into_writer fits, encodes, Channel.send_ok _ small]
  rfl

/-- A response that does not fit in a transport message is never written. -/
theorem served_oversize {request response : RelayMessage} (mode : request ≠ .LinkAttach)
    (fits : request.into_writer.length ≤ MAX_TRANSPORT_MSG)
    (responds : (svc.respond client.own request at_).2 = response)
    (encodes : response.encode = .ok response.into_writer)
    (large : MAX_TRANSPORT_MSG < response.into_writer.length) :
    client.served svc (client.connection.up.frame 0 request.into_writer) at_ =
      ((svc.respond client.own request at_).1, []) := by
  subst responds
  simp only [served, RelayService.handle_connection, client.server_recv fits,
    client.decode_into_writer fits, encodes, Channel.send_too_large _ large]

theorem one_shot_fits {request response : RelayMessage} (mode : request ≠ .LinkAttach)
    (legal : request.encode = .ok request.into_writer)
    (fits : request.into_writer.length ≤ MAX_TRANSPORT_MSG)
    (responds : (svc.respond client.own request at_).2 = response)
    (encodes : response.encode = .ok response.into_writer)
    (small : response.into_writer.length ≤ MAX_TRANSPORT_MSG) :
    client.one_shot svc request at_ = ((svc.respond client.own request at_).1, .ok response) := by
  have received := Channel.recv_frame
    { client.connection.client with sending_nonce := 1 } [] small
  rw [List.append_nil] at received
  simp only [one_shot, legal, Channel.send_ok _ fits]
  have wire := client.served_fits svc at_ mode fits responds encodes small
  simp only [Connection.client] at wire received ⊢
  simp only [wire, received, client.decode_into_writer small]

theorem one_shot_lost {request response : RelayMessage} (mode : request ≠ .LinkAttach)
    (legal : request.encode = .ok request.into_writer)
    (fits : request.into_writer.length ≤ MAX_TRANSPORT_MSG)
    (responds : (svc.respond client.own request at_).2 = response)
    (encodes : response.encode = .ok response.into_writer)
    (large : MAX_TRANSPORT_MSG < response.into_writer.length) :
    client.one_shot svc request at_ =
      ((svc.respond client.own request at_).1, .error (.Pairing .Io)) := by
  simp only [one_shot, legal, Channel.send_ok _ fits]
  have wire := client.served_oversize svc at_ mode fits responds encodes large
  simp only [Connection.client] at wire ⊢
  simp only [wire]
  rfl

/-- A request that does not fit in a transport message never leaves the client. -/
theorem one_shot_too_large {request : RelayMessage}
    (legal : request.encode = .ok request.into_writer)
    (large : MAX_TRANSPORT_MSG < request.into_writer.length) :
    client.one_shot svc request at_ = (svc, .error (.Pairing
      (.TransportTooLarge request.into_writer.length MAX_TRANSPORT_MSG))) := by
  simp only [one_shot, legal, Channel.send_too_large _ large]

end RelayClient

end Qev.Relay
