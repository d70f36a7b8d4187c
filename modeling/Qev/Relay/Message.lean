import Mathlib.Algebra.Order.BigOperators.Group.List
import Qev.Lib.Cbor
import Qev.Lib.Except
import Qev.Pairing.Channel

/-! The relay's requests and replies (`message.rs`) and their wire form: the
map that serde builds for an internally tagged enum, as `ciborium` writes it. -/

namespace Qev.Relay

def PROTOCOL_VERSION : String := "QEV-RELAY-V1"
def MAX_ENVELOPE_BYTES : Nat := 1048576 + 4096
def ENVELOPE_ID_BYTES : Nat := 16
def MAX_LINK_PAYLOAD_BYTES : Nat := 4096

abbrev Pk := FixedBytes 32
abbrev EnvelopeId := FixedBytes ENVELOPE_ID_BYTES

inductive Error where
  | Pairing (e : Pairing.Error)
  | Cbor (msg : String)
  | Server (code msg : String)
  | Protocol (msg : String)
  | RateLimited (msg : String)
  | TooLarge (size max : Nat)
  | Internal (msg : String)
  deriving DecidableEq, Repr

def Error.display : Error → String
  | Pairing e => "pairing: " ++ e.display
  | Cbor msg => s!"cbor: {msg}"
  | Server code msg => s!"relay: {code}: {msg}"
  | Protocol msg => s!"protocol: unexpected response: {msg}"
  | RateLimited msg => s!"rate limited: {msg}"
  | TooLarge size max => s!"envelope too large: {size} bytes (max {max})"
  | Internal msg => s!"internal: {msg}"

structure WireEnvelope where
  id : Bytes
  from_ : Bytes
  envelope : Bytes
  created_at : UInt64
  deriving DecidableEq, Repr

inductive RelayMessage where
  | Deliver (to_ envelope : Bytes)
  | DeliverResult (id : Bytes)
  | Fetch (limit : UInt32)
  | FetchResult (envelopes : List WireEnvelope) (has_more : Bool)
  | Ack (ids : List Bytes)
  | AckResult (deleted : UInt32)
  | Error (code msg : String)
  | Hello (version : String) (max_envelope_bytes : UInt32)
  | LinkAttach
  | LinkAttachAck (version : String) (max_payload_bytes : UInt32)
  | LinkTunnel (to_ payload : Bytes)
  | LinkInbound (from_ payload : Bytes)
  | LinkUnreachable (to_ : Bytes)
  deriving DecidableEq, Repr

/-! ## Encoding -/

def field (name : String) (v : Cbor) : Cbor × Cbor := (.text name, v)

/-- The variants, as the `type` field names them. -/
inductive MessageType where
  | Deliver | DeliverResult | Fetch | FetchResult | Ack | AckResult | Error | Hello
  | LinkAttach | LinkAttachAck | LinkTunnel | LinkInbound | LinkUnreachable
  deriving DecidableEq, Repr

def MessageType.rename : MessageType → String
  | Deliver => "deliver-v1"
  | DeliverResult => "deliver-result-v1"
  | Fetch => "fetch-v1"
  | FetchResult => "fetch-result-v1"
  | Ack => "ack-v1"
  | AckResult => "ack-result-v1"
  | Error => "error-v1"
  | Hello => "hello-v1"
  | LinkAttach => "link-attach-v1"
  | LinkAttachAck => "link-attach-ack-v1"
  | LinkTunnel => "link-tunnel-v1"
  | LinkInbound => "link-inbound-v1"
  | LinkUnreachable => "link-unreachable-v1"

def MessageType.all : List MessageType :=
  [.Deliver, .DeliverResult, .Fetch, .FetchResult, .Ack, .AckResult, .Error,
   .Hello, .LinkAttach, .LinkAttachAck, .LinkTunnel, .LinkInbound, .LinkUnreachable]

def MessageType.ofName (s : String) : Option MessageType := all.find? (·.rename = s)

theorem MessageType.ofName_rename (t : MessageType) : ofName t.rename = some t := by
  cases t <;> decide

def tagged (type : MessageType) (fields : List (Cbor × Cbor)) : Cbor :=
  .map (field "type" (.text type.rename) :: fields)

def WireEnvelope.toCbor (e : WireEnvelope) : Cbor :=
  .map [field "id" (.bytes e.id), field "from" (.bytes e.from_),
    field "envelope" (.bytes e.envelope), field "created_at" (.uint e.created_at)]

def RelayMessage.toCbor : RelayMessage → Cbor
  | Deliver to_ envelope =>
    tagged .Deliver [field "to" (.bytes to_), field "envelope" (.bytes envelope)]
  | DeliverResult id => tagged .DeliverResult [field "id" (.bytes id)]
  | Fetch limit => tagged .Fetch [field "limit" (.uint limit.toUInt64)]
  | FetchResult envelopes has_more =>
    tagged .FetchResult [field "envelopes" (.array (envelopes.map WireEnvelope.toCbor)),
      field "has_more" (.bool has_more)]
  -- `ids` has no `serde_bytes` attribute, so each id is an array of numbers.
  | Ack ids =>
    tagged .Ack [field "ids" (.array (ids.map fun id => .array (id.map fun b => .uint b.toUInt64)))]
  | AckResult deleted => tagged .AckResult [field "deleted" (.uint deleted.toUInt64)]
  | Error code msg => tagged .Error [field "code" (.text code), field "msg" (.text msg)]
  | Hello version max_envelope_bytes =>
    tagged .Hello [field "version" (.text version),
      field "max_envelope_bytes" (.uint max_envelope_bytes.toUInt64)]
  | LinkAttach => tagged .LinkAttach []
  | LinkAttachAck version max_payload_bytes =>
    tagged .LinkAttachAck [field "version" (.text version),
      field "max_payload_bytes" (.uint max_payload_bytes.toUInt64)]
  | LinkTunnel to_ payload =>
    tagged .LinkTunnel [field "to" (.bytes to_), field "payload" (.bytes payload)]
  | LinkInbound from_ payload =>
    tagged .LinkInbound [field "from" (.bytes from_), field "payload" (.bytes payload)]
  | LinkUnreachable to_ => tagged .LinkUnreachable [field "to" (.bytes to_)]

def RelayMessage.into_writer (m : RelayMessage) : Bytes := m.toCbor.encode

def RelayMessage.encode (m : RelayMessage) : Except Relay.Error Bytes :=
  match m with
  | Deliver _ envelope =>
    if envelope.length > MAX_ENVELOPE_BYTES then
      .error (.TooLarge envelope.length MAX_ENVELOPE_BYTES)
    else .ok m.into_writer
  | LinkTunnel _ payload =>
    if payload.length > MAX_LINK_PAYLOAD_BYTES then
      .error (.TooLarge payload.length MAX_LINK_PAYLOAD_BYTES)
    else .ok m.into_writer
  | _ => .ok m.into_writer

/-! ## Decoding -/

/-- `ciborium::de::from_reader` at `RelayMessage`. It may take more than the
encodings below (other map orders, items of indefinite length). -/
structure Ciborium where
  from_reader : Bytes → Option RelayMessage
  from_reader_into_writer : ∀ m : RelayMessage, m.into_writer.length < 2 ^ 64 →
    from_reader m.into_writer = some m

def Ciborium.decode (c : Ciborium) (bytes : Bytes) : Except Relay.Error RelayMessage :=
  match c.from_reader bytes with
  | some m => .ok m
  | none => .error (.Cbor "decode")

def lookup (name : String) : List (Cbor × Cbor) → Option Cbor
  | [] => none
  | (.text k, v) :: es => if k = name then some v else lookup name es
  | _ :: es => lookup name es

def asBytes : Cbor → Option Bytes
  | .bytes b => some b
  | _ => none

def asText : Cbor → Option String
  | .text s => some s
  | _ => none

def asU64 : Cbor → Option UInt64
  | .uint n => some n
  | _ => none

def asU32 (v : Cbor) : Option UInt32 := do
  let n ← asU64 v
  if n.toNat < 2 ^ 32 then some n.toUInt32 else none

def asBool : Cbor → Option Bool
  | .bool b => some b
  | _ => none

def asItems : Cbor → Option (List Cbor)
  | .array xs => some xs
  | _ => none

/-- The bytes of an array of small numbers. -/
def asByteItems (v : Cbor) : Option Bytes := do
  let items ← asItems v
  items.mapM fun x => do
    let n ← asU64 x
    if n.toNat < 256 then some n.toUInt8 else none

def WireEnvelope.ofCbor : Cbor → Option WireEnvelope
  | .map es => do
    let id ← (lookup "id" es).bind asBytes
    let from_ ← (lookup "from" es).bind asBytes
    let envelope ← (lookup "envelope" es).bind asBytes
    let created_at ← (lookup "created_at" es).bind asU64
    return { id, from_, envelope, created_at }
  | _ => none

def bytesField (name : String) (es : List (Cbor × Cbor)) : Option Bytes :=
  (lookup name es).bind asBytes

def textField (name : String) (es : List (Cbor × Cbor)) : Option String :=
  (lookup name es).bind asText

def u32Field (name : String) (es : List (Cbor × Cbor)) : Option UInt32 :=
  (lookup name es).bind asU32

/-- A list field, each item read by `item`. -/
def itemsField {α : Type} (item : Cbor → Option α) (name : String) (es : List (Cbor × Cbor)) :
    Option (List α) := do
  let items ← (lookup name es).bind asItems
  items.mapM item

def RelayMessage.ofFields (es : List (Cbor × Cbor)) : MessageType → Option RelayMessage
  | .Deliver => do return .Deliver (← bytesField "to" es) (← bytesField "envelope" es)
  | .DeliverResult => do return .DeliverResult (← bytesField "id" es)
  | .Fetch => do return .Fetch (← u32Field "limit" es)
  | .FetchResult => do
    return .FetchResult (← itemsField WireEnvelope.ofCbor "envelopes" es)
      (← (lookup "has_more" es).bind asBool)
  | .Ack => do return .Ack (← itemsField asByteItems "ids" es)
  | .AckResult => do return .AckResult (← u32Field "deleted" es)
  | .Error => do return .Error (← textField "code" es) (← textField "msg" es)
  | .Hello => do return .Hello (← textField "version" es) (← u32Field "max_envelope_bytes" es)
  | .LinkAttach => some .LinkAttach
  | .LinkAttachAck => do
    return .LinkAttachAck (← textField "version" es) (← u32Field "max_payload_bytes" es)
  | .LinkTunnel => do return .LinkTunnel (← bytesField "to" es) (← bytesField "payload" es)
  | .LinkInbound => do return .LinkInbound (← bytesField "from" es) (← bytesField "payload" es)
  | .LinkUnreachable => do return .LinkUnreachable (← bytesField "to" es)

def RelayMessage.ofCbor : Cbor → Option RelayMessage
  | .map es => do ofFields es (← MessageType.ofName (← textField "type" es))
  | _ => none

theorem asU32_toUInt64 (n : UInt32) : asU32 (.uint n.toUInt64) = some n := by
  have h := n.toNat_lt
  simp [asU32, asU64, h]

theorem mapM_map_some {α β : Type} {f : α → β} {g : β → Option α} (h : ∀ x, g (f x) = some x)
    (xs : List α) : (xs.map f).mapM g = some xs := by
  induction xs with
  | nil => rfl
  | cons x xs ih => simp [h, ih]

theorem asByteItems_bytes (b : Bytes) :
    asByteItems (.array (b.map fun b => .uint b.toUInt64)) = some b := by
  simp only [asByteItems, asItems, Option.bind_eq_bind, Option.bind_some]
  apply mapM_map_some
  intro x
  have h := x.toNat_lt
  simp [asU64, h]

theorem WireEnvelope.ofCbor_toCbor (e : WireEnvelope) : ofCbor e.toCbor = some e := by
  simp [ofCbor, toCbor, lookup, field, asBytes, asU64]

theorem ofCbor_tagged (type : MessageType) (es : List (Cbor × Cbor)) :
    RelayMessage.ofCbor (tagged type es) =
      RelayMessage.ofFields (field "type" (.text type.rename) :: es) type := by
  simp [RelayMessage.ofCbor, tagged, field, textField, lookup, asText, MessageType.ofName_rename]

theorem RelayMessage.ofCbor_toCbor (m : RelayMessage) : ofCbor m.toCbor = some m := by
  cases m with
  | FetchResult envelopes has_more =>
    simp [toCbor, ofCbor_tagged, ofFields, field, lookup, itemsField, asItems, asBool,
      mapM_map_some WireEnvelope.ofCbor_toCbor]
  | Ack ids =>
    simp [toCbor, ofCbor_tagged, ofFields, field, lookup, itemsField, asItems,
      mapM_map_some asByteItems_bytes]
  | _ =>
    simp [toCbor, ofCbor_tagged, ofFields, field, lookup, textField, bytesField, u32Field, asText,
      asBytes, asU32_toUInt64]

/-- The reader of definite-length items in place of `ciborium`'s. -/
def Ciborium.definite : Ciborium where
  from_reader bytes := (Cbor.decode bytes).bind RelayMessage.ofCbor
  from_reader_into_writer m short := by
    rw [RelayMessage.into_writer, Cbor.decode_encode short, Option.bind_some,
      RelayMessage.ofCbor_toCbor]

/-! ## Checked fields -/

def check_pk_bytes (field : String) (bytes : Bytes) : Except Relay.Error Pk :=
  if h : bytes.length = 32 then .ok ⟨bytes, h⟩
  else .error (.Internal s!"{field} must be 32 bytes (got {bytes.length})")

def check_id_bytes (field : String) (bytes : Bytes) : Except Relay.Error EnvelopeId :=
  if h : bytes.length = ENVELOPE_ID_BYTES then .ok ⟨bytes, h⟩
  else .error (.Internal s!"{field} must be {ENVELOPE_ID_BYTES} bytes (got {bytes.length})")

@[simp] theorem check_pk_bytes_pk (f : String) (pk : Pk) : check_pk_bytes f pk.val = .ok pk := by
  simp [check_pk_bytes, pk.property]

@[simp] theorem check_id_bytes_id (f : String) (id : EnvelopeId) :
    check_id_bytes f id.val = .ok id := by
  simp [check_id_bytes, id.property]

/-! ## Sizes on the wire -/

/-- Bytes one envelope takes in a `FetchResult`. -/
def WireEnvelope.wireSize (e : WireEnvelope) : Nat := e.toCbor.encode.length

theorem field_size (name : String) (v : Cbor) :
    (field name v).1.encode.length + (field name v).2.encode.length =
      (Cbor.text name).encode.length + v.encode.length := rfl

theorem Deliver_size (to_ : Pk) (envelope : Bytes) :
    (RelayMessage.Deliver to_.val envelope).into_writer.length =
      63 + Cbor.headSize envelope.length + envelope.length := by
  have names : (Cbor.text "type").encode.length = 5 ∧
      (Cbor.text MessageType.Deliver.rename).encode.length = 11 ∧
      (Cbor.text "to").encode.length = 3 ∧ (Cbor.text "envelope").encode.length = 9 := by decide
  have heads : Cbor.headSize 3 = 1 ∧ Cbor.headSize 32 = 2 := by decide
  simp only [RelayMessage.into_writer, RelayMessage.toCbor, tagged, Cbor.length_map, List.map_cons,
    List.map_nil, List.sum_cons, List.sum_nil, field_size, names, List.length_cons, List.length_nil,
    heads, Cbor.length_bytes, to_.property]
  omega

theorem DeliverResult_size (id : EnvelopeId) :
    (RelayMessage.DeliverResult id.val).into_writer.length = 44 := by
  have names : (Cbor.text "type").encode.length = 5 ∧
      (Cbor.text MessageType.DeliverResult.rename).encode.length = 18 ∧
      (Cbor.text "id").encode.length = 3 := by decide
  have heads : Cbor.headSize 2 = 1 ∧ Cbor.headSize ENVELOPE_ID_BYTES = 1 := by decide
  simp only [RelayMessage.into_writer, RelayMessage.toCbor, tagged, Cbor.length_map, List.map_cons,
    List.map_nil, List.sum_cons, List.sum_nil, field_size, names, List.length_cons, List.length_nil,
    heads, Cbor.length_bytes, id.property]
  rfl

theorem WireEnvelope.wireSize_eq (e : WireEnvelope) (hid : e.id.length = 16)
    (hfrom : e.from_.length = 32) :
    e.wireSize = 80 + Cbor.headSize e.envelope.length + e.envelope.length +
      Cbor.headSize e.created_at.toNat := by
  have names : (Cbor.text "id").encode.length = 3 ∧ (Cbor.text "from").encode.length = 5 ∧
      (Cbor.text "envelope").encode.length = 9 ∧ (Cbor.text "created_at").encode.length = 11 := by
    decide
  have heads : Cbor.headSize 4 = 1 ∧ Cbor.headSize 16 = 1 ∧ Cbor.headSize 32 = 2 := by decide
  simp only [WireEnvelope.wireSize, WireEnvelope.toCbor, Cbor.length_map, List.map_cons,
    List.map_nil, List.sum_cons, List.sum_nil, field_size, names, List.length_cons, List.length_nil,
    heads, Cbor.length_bytes, Cbor.length_uint, hid, hfrom]
  omega

theorem FetchResult_size (envelopes : List WireEnvelope) (has_more : Bool) :
    (RelayMessage.FetchResult envelopes has_more).into_writer.length =
      42 + Cbor.headSize envelopes.length + (envelopes.map WireEnvelope.wireSize).sum := by
  have names : (Cbor.text "type").encode.length = 5 ∧
      (Cbor.text MessageType.FetchResult.rename).encode.length = 16 ∧
      (Cbor.text "envelopes").encode.length = 10 ∧ (Cbor.text "has_more").encode.length = 9 := by
    decide
  have three : Cbor.headSize 3 = 1 := by decide
  simp only [RelayMessage.into_writer, RelayMessage.toCbor, tagged, Cbor.length_map, List.map_cons,
    List.map_nil, List.sum_cons, List.sum_nil, field_size, names, List.length_cons, List.length_nil,
    three, Cbor.length_array, Cbor.length_bool, List.map_map, List.length_map]
  have items : (fun x => x.encode.length) ∘ WireEnvelope.toCbor = WireEnvelope.wireSize := rfl
  rw [items]
  omega

theorem LinkInbound_size_le (from_ : Pk) (payload : Bytes) :
    (RelayMessage.LinkInbound from_.val payload).into_writer.length ≤ 88 + payload.length := by
  have names : (Cbor.text "type").encode.length = 5 ∧
      (Cbor.text MessageType.LinkInbound.rename).encode.length = 16 ∧
      (Cbor.text "from").encode.length = 5 ∧ (Cbor.text "payload").encode.length = 8 := by decide
  have heads : Cbor.headSize 3 = 1 ∧ Cbor.headSize 32 = 2 := by decide
  have number := Cbor.headSize_le payload.length
  simp only [RelayMessage.into_writer, RelayMessage.toCbor, tagged, Cbor.length_map, List.map_cons,
    List.map_nil, List.sum_cons, List.sum_nil, field_size, names, List.length_cons, List.length_nil,
    heads, Cbor.length_bytes, from_.property]
  omega

theorem Fetch_size_le (limit : UInt32) : (RelayMessage.Fetch limit).into_writer.length ≤ 30 := by
  have names : (Cbor.text "type").encode.length = 5 ∧
      (Cbor.text MessageType.Fetch.rename).encode.length = 9 ∧
      (Cbor.text "limit").encode.length = 6 := by decide
  have heads : Cbor.headSize 2 = 1 := by decide
  have number := Cbor.headSize_le limit.toUInt64.toNat
  simp only [RelayMessage.into_writer, RelayMessage.toCbor, tagged, Cbor.length_map, List.map_cons,
    List.map_nil, List.sum_cons, List.sum_nil, field_size, names, List.length_cons, List.length_nil,
    heads, Cbor.length_uint]
  omega

theorem AckResult_size_le (deleted : UInt32) :
    (RelayMessage.AckResult deleted).into_writer.length ≤ 38 := by
  have names : (Cbor.text "type").encode.length = 5 ∧
      (Cbor.text MessageType.AckResult.rename).encode.length = 14 ∧
      (Cbor.text "deleted").encode.length = 8 := by decide
  have heads : Cbor.headSize 2 = 1 := by decide
  have number := Cbor.headSize_le deleted.toUInt64.toNat
  simp only [RelayMessage.into_writer, RelayMessage.toCbor, tagged, Cbor.length_map, List.map_cons,
    List.map_nil, List.sum_cons, List.sum_nil, field_size, names, List.length_cons, List.length_nil,
    heads, Cbor.length_uint]
  omega

/-- An id takes at most two bytes for each of its own in an `Ack`. -/
theorem id_size_le (id : EnvelopeId) :
    (Cbor.array (id.val.map fun b => .uint b.toUInt64)).encode.length ≤ 33 := by
  have each : ∀ b ∈ id.val, (Cbor.uint b.toUInt64).encode.length ≤ 2 := by
    intro b _
    have byte := b.toNat_lt
    rw [Cbor.length_uint, UInt8.toNat_toUInt64, Cbor.headSize]
    repeat' split
    all_goals omega
  have sum := List.sum_le_card_nsmul (id.val.map fun b => (Cbor.uint b.toUInt64).encode.length) 2
    (by simpa using each)
  have sixteen : id.val.length = 16 := id.property
  have head : Cbor.headSize 16 = 1 := by decide
  rw [Cbor.length_array, List.map_map, List.length_map, sixteen, head]
  rw [List.length_map, sixteen] at sum
  simpa [Function.comp_def, Nat.add_comm] using Nat.add_le_add_left sum 1

theorem Ack_size_le (ids : List EnvelopeId) :
    (RelayMessage.Ack (ids.map Subtype.val)).into_writer.length ≤ 26 + 33 * ids.length := by
  have names : (Cbor.text "type").encode.length = 5 ∧
      (Cbor.text MessageType.Ack.rename).encode.length = 7 ∧
      (Cbor.text "ids").encode.length = 4 := by decide
  have heads : Cbor.headSize 2 = 1 := by decide
  have number := Cbor.headSize_le ids.length
  have items : (Cbor.array ((ids.map Subtype.val).map fun id : Bytes =>
      .array (id.map fun b => .uint b.toUInt64))).encode.length ≤ 9 + 33 * ids.length := by
    rw [Cbor.length_array, List.map_map, List.map_map, List.length_map]
    have sum := List.sum_le_card_nsmul
      (ids.map fun id => (Cbor.array (id.val.map fun b => .uint b.toUInt64)).encode.length) 33
      (List.forall_mem_map.mpr fun id _ => id_size_le id)
    rw [nsmul_eq_mul, Nat.cast_id, List.length_map, Nat.mul_comm] at sum
    exact Nat.add_le_add number sum
  simp only [RelayMessage.into_writer, RelayMessage.toCbor, tagged, Cbor.length_map, List.map_cons,
    List.map_nil, List.sum_cons, List.sum_nil, field_size, names, List.length_cons, List.length_nil,
    heads]
  omega

end Qev.Relay
