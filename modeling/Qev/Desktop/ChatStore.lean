import Qev.Lib.HashMap
import Qev.Lib.Keyed

/-! The chat history of the desktop (`chat_store.rs`). -/

namespace Qev.Desktop

def MAX_MESSAGES_PER_PEER : Nat := 500

structure ChatMessage where
  id : String
  direction : String
  text : String
  timestamp : UInt64
  status : String
  deriving DecidableEq, Repr

structure ChatStore where
  conversations : HashMap String (List ChatMessage)

namespace ChatStore

def empty : ChatStore := ⟨.empty⟩

/-- The loop that removes the oldest message while there are too many. -/
def trim : List ChatMessage → List ChatMessage
  | [] => []
  | m :: convo => if (m :: convo).length > MAX_MESSAGES_PER_PEER then trim convo else m :: convo

def add_message (s : ChatStore) (peer_id : String) (msg : ChatMessage) : ChatStore :=
  let convo := (s.conversations.get peer_id).getD []
  { s with conversations := s.conversations.insert peer_id (trim (convo ++ [msg])) }

def get_messages (s : ChatStore) (peer_id : String) : List ChatMessage :=
  (s.conversations.get peer_id).getD []

/-- A conversation that is there, in its place. -/
def set_conversation (s : ChatStore) (peer_id : String) (convo : List ChatMessage) : ChatStore :=
  ⟨⟨s.conversations.toAList.replace peer_id convo⟩⟩

/-- Whether the message was found, with the store. -/
def update_status (s : ChatStore) (peer_id msg_id status : String) : ChatStore × Bool :=
  match s.conversations.get peer_id with
  | none => (s, false)
  | some convo =>
    (s.set_conversation peer_id (Keyed.modify ChatMessage.id msg_id ({ · with status }) convo),
      (Keyed.find ChatMessage.id msg_id convo).isSome)

def mark_read (m : ChatMessage) : ChatMessage :=
  if m.direction = "incoming" ∧ m.status ≠ "read" then { m with status := "read" } else m

def mark_all_read (s : ChatStore) (peer_id : String) : ChatStore :=
  match s.conversations.get peer_id with
  | none => s
  | some convo => s.set_conversation peer_id (convo.map mark_read)

def is_unread (m : ChatMessage) : Bool := m.direction = "incoming" ∧ m.status ≠ "read"

def unread_count (s : ChatStore) (peer_id : String) : Nat :=
  ((s.conversations.get peer_id).map (List.countP is_unread)).getD 0

end ChatStore

end Qev.Desktop
