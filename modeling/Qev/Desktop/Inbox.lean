import Qev.Desktop.ChatStore
import Qev.Desktop.Serde
import Qev.Lib.Hex
import Qev.Relay.Client

/-! The two readers of the desktop's relay inbox: the chat poller
(`chat_fetch_relay_messages` of `lib.rs`) and the inbox refresh
(`relay_fetch_inbox`, `renderInbox` of `pairing.js`, `relay_ack_envelopes`). -/

namespace Qev.Desktop

open Relay (Envelope EnvelopeId FetchedEnvelope InMemoryStore Pk)

/-! ## Commands -/

/-- How many envelopes either reader asks for. -/
def FETCH_LIMIT : Nat := 50

def from_utf8_lossy (bytes : Bytes) : String := String.ofList (Utf8.decodeLossy bytes)

/-- The JSON of an envelope that the chat poller takes for its own. -/
def chat_value (serde : SerdeJson) (bytes : Bytes) : Option Value := do
  let v ← serde.from_str (from_utf8_lossy bytes)
  if (v.get "type").bind Value.as_str = some "chat-v1" then some v else none

def IsChat (serde : SerdeJson) (env : FetchedEnvelope) : Prop :=
  (chat_value serde env.bytes).isSome

instance (serde : SerdeJson) (env : FetchedEnvelope) : Decidable (IsChat serde env) :=
  inferInstanceAs (Decidable (Option.isSome _ = true))

/-- The message that the poller appends; `new_id` and `now_ms` stand in for the
fields that are missing. -/
def chat_message (v : Value) (new_id : String) (now_ms : UInt64) : ChatMessage where
  id := ((v.get "msg_id").bind Value.as_str).getD new_id
  direction := "incoming"
  text := ((v.get "text").bind Value.as_str).getD ""
  timestamp := ((v.get "timestamp").bind Value.as_u64).getD now_ms
  status := "delivered"

structure RelayEnvelope where
  id : String
  from_hex : String
  payload : String
  created_at : UInt64
  deriving DecidableEq, Repr

def relay_envelope (env : FetchedEnvelope) : RelayEnvelope where
  id := Hex.hex env.id.val
  from_hex := Hex.hex env.from_.val
  payload := from_utf8_lossy env.bytes
  created_at := env.created_at

inductive Failure where
  | panic
  | err (msg : String)
  deriving DecidableEq, Repr

/-- The bytes of a hexadecimal id, from byte number `i` on. Slicing inside a
character panics. -/
def parse_hex (label : String) : Nat → Bytes → Except Failure Bytes
  | i, a :: b :: rest =>
    if Utf8.isTail a ∨ rest.head?.any Utf8.isTail then .error .panic
    else match Hex.from_str_radix [a, b] with
      | .error e => .error (.err (label ++ " " ++ toString i ++ ": " ++ e.display))
      | .ok v => do
        let vs ← parse_hex label (i + 1) rest
        return v :: vs
  | _, _ => .ok []

def parse_envelope_id (hex : String) : Except Failure EnvelopeId :=
  let bytes := Utf8.encode hex.toList
  if bytes.length ≠ 32 then
    .error (.err ("envelope id hex wrong length: " ++ toString bytes.length))
  else do
    let id ← parse_hex "hex id byte" 0 bytes
    if h : id.length = Relay.ENVELOPE_ID_BYTES then .ok ⟨id, h⟩ else .error .panic

theorem not_isTail {b : UInt8} (ascii : b.toNat < 128) : Utf8.isTail b = false := by
  simp only [Utf8.isTail, Bool.and_eq_false_iff, decide_eq_false_iff_not, UInt8.not_le]
  exact .inl (UInt8.lt_iff_toNat_lt.mpr ascii)

theorem parse_hex_hex (label : String) (i : Nat) (bs : Bytes) :
    parse_hex label i (bs.flatMap fun b =>
      [Hex.digitByte (b.toNat / 16), Hex.digitByte (b.toNat % 16)]) = .ok bs := by
  induction bs generalizing i with
  | nil => rfl
  | cons b bs ih =>
    have bound := b.toNat_lt
    have high := Hex.digitByte_ascii (show b.toNat / 16 < 16 by omega)
    have plain : ¬ (Utf8.isTail (Hex.digitByte (b.toNat / 16)) ∨
        (bs.flatMap fun b => [Hex.digitByte (b.toNat / 16), Hex.digitByte (b.toNat % 16)]).head?.any
          Utf8.isTail) := by
      rintro (tail | tail)
      · rw [not_isTail high.1] at tail
        cases tail
      · cases bs with
        | nil => cases tail
        | cons b' bs =>
          have bound' := b'.toNat_lt
          have next := Hex.digitByte_ascii (show b'.toNat / 16 < 16 by omega)
          simp only [List.flatMap_cons, List.cons_append, List.head?_cons, Option.any_some,
            not_isTail next.1] at tail
          cases tail
    simp only [List.flatMap_cons, List.cons_append, List.nil_append]
    rw [parse_hex, if_neg plain, Hex.from_str_radix_digits]
    simp only [ih, ok_bind]
    rfl

theorem parse_envelope_id_hex (id : EnvelopeId) :
    parse_envelope_id (Hex.hex id.val) = .ok id := by
  have sixteen : id.val.length = 16 := id.property
  have length : (Utf8.encode (Hex.hex id.val).toList).length = 32 := by
    rw [Hex.encode_hex, List.length_flatMap]
    simp [sixteen]
  rw [parse_envelope_id, if_neg (not_not.mpr length), Hex.encode_hex, parse_hex_hex]
  simp [id.property]

/-! ## The two readers at work -/

/-- A call of `chat_fetch_relay_messages` after its fetch. -/
structure ChatCall where
  /-- Envelopes of the page that the loop has not come to. -/
  todo : List FetchedEnvelope
  /-- An envelope whose message is appended and whose save is still to come. -/
  saving : Option FetchedEnvelope
  to_ack : List FetchedEnvelope

/-- The desktop and the relay's queue for it. The last three fields only record
what happened. -/
structure App where
  relay : InMemoryStore
  chat : ChatStore
  calls : List ChatCall
  /-- Pages that `relay_fetch_inbox` returned and `renderInbox` has not shown. -/
  refreshes : List (List FetchedEnvelope)
  inbox_list : List RelayEnvelope
  /-- Ack requests on their way to the relay. -/
  acks : List (List EnvelopeId)
  appended : List FetchedEnvelope
  persisted : List FetchedEnvelope
  shown : List RelayEnvelope
  acked : List FetchedEnvelope

inductive Event where
  | deliver (env : Envelope) (drawn : EnvelopeId)
  | evict (now_ms max_age_ms : UInt64)
  | chatFetch
  | chatNext (call : Nat) (new_id : String) (now_ms : UInt64)
  | chatSave (call : Nat) (saves : Bool)
  | chatAck (call : Nat)
  | inboxFetch
  | render (refresh : Nat)
  | ackArrives (request : Nat)
  | ackLost (request : Nat)

namespace App

variable (serde : SerdeJson) (own : Pk)

/-- What a fetch returns now. -/
def page (s : App) : List FetchedEnvelope :=
  (s.relay.get_pending own FETCH_LIMIT).1.map Relay.RelayClient.toFetched

/-- One turn of the poller's loop: skip the envelope, or append its message. -/
def next (s : App) (k : Nat) (call : ChatCall) (new_id : String) (now_ms : UInt64) : App :=
  match call.saving, call.todo with
  | none, env :: todo =>
    match chat_value serde env.bytes with
    | none => { s with calls := s.calls.set k { call with todo } }
    | some v =>
      { s with
        chat := s.chat.add_message (Hex.hex env.from_.val) (chat_message v new_id now_ms)
        calls := s.calls.set k { call with todo, saving := some env }
        appended := s.appended ++ [env] }
  | _, _ => s

/-- The save after an append. When it fails the call returns the error. -/
def save (s : App) (k : Nat) (call : ChatCall) (saves : Bool) : App :=
  match call.saving with
  | none => s
  | some env =>
    if saves then
      { s with
        calls := s.calls.set k { call with saving := none, to_ack := call.to_ack ++ [env] }
        persisted := s.appended }
    else { s with calls := s.calls.eraseIdx k }

/-- The end of a call: it acks what it appended and returns. -/
def finish (s : App) (k : Nat) (call : ChatCall) : App :=
  match call.saving, call.todo with
  | none, [] =>
    let s := { s with calls := s.calls.eraseIdx k }
    if call.to_ack = [] then s
    else
      { s with
        acks := s.acks ++ [call.to_ack.map FetchedEnvelope.id]
        acked := s.acked ++ call.to_ack }
  | _, _ => s

/-- `relay_ack_envelopes` of the ids that `renderInbox` passes. -/
def ackHex (s : App) (envelopes : List FetchedEnvelope) : App :=
  match (envelopes.map relay_envelope).mapM fun e => parse_envelope_id e.id with
  | .error _ => s
  | .ok ids => { s with acks := s.acks ++ [ids], acked := s.acked ++ envelopes }

/-- `renderInbox`: show the page in place of the last one, then ack all of it. -/
def render (s : App) (k : Nat) (envelopes : List FetchedEnvelope) : App :=
  let s := { s with refreshes := s.refreshes.eraseIdx k }
  match envelopes with
  | [] => { s with inbox_list := [] }
  | _ :: _ =>
    let rows := envelopes.map relay_envelope
    ackHex { s with inbox_list := rows, shown := s.shown ++ rows } envelopes

def step (s : App) : Event → App
  | .deliver env drawn => { s with relay := (s.relay.put env drawn).1 }
  | .evict now_ms max_age_ms => { s with relay := (s.relay.evict_older_than now_ms max_age_ms).1 }
  | .chatFetch => { s with calls := s.calls ++ [⟨s.page own, none, []⟩] }
  | .chatNext k new_id now_ms =>
    match s.calls[k]? with
    | some call => s.next serde k call new_id now_ms
    | none => s
  | .chatSave k saves =>
    match s.calls[k]? with
    | some call => s.save k call saves
    | none => s
  | .chatAck k =>
    match s.calls[k]? with
    | some call => s.finish k call
    | none => s
  | .inboxFetch => { s with refreshes := s.refreshes ++ [s.page own] }
  | .render k =>
    match s.refreshes[k]? with
    | some envelopes => s.render k envelopes
    | none => s
  | .ackArrives k =>
    match s.acks[k]? with
    | some ids => { s with relay := (s.relay.delete own ids).1, acks := s.acks.eraseIdx k }
    | none => s
  | .ackLost k => { s with acks := s.acks.eraseIdx k }

def run (s : App) (events : List Event) : App := events.foldl (step serde own) s

/-- A desktop that has just started, and whatever chat history it loaded. -/
def start (relay : InMemoryStore) (chat : ChatStore) : App :=
  ⟨relay, chat, [], [], [], [], [], [], [], []⟩

end App

end Qev.Desktop
