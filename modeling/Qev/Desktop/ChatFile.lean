import Qev.Desktop.ChatStore
import Qev.Desktop.SerdePretty
import Qev.Lib.FileSystem
import Qev.Pairing.PeerStore

/-! The file of the chat history: `load_or_empty` and `save` of `chat_store.rs`. -/

namespace Qev.Desktop

open Pairing (as_items text_field plain_strings)

def CHAT_SCHEMA : String := "QEV-CHAT-V1"

/-- The chat store with the schema tag that stands before it in the file. -/
structure ChatFile where
  schema : String
  store : ChatStore

def ChatMessage.to_value (m : ChatMessage) : Value :=
  .obj [("id", .str m.id), ("direction", .str m.direction), ("text", .str m.text),
    ("timestamp", .num (.u64 m.timestamp)), ("status", .str m.status)]

def ChatStore.entries (s : ChatStore) : List (String × List ChatMessage) :=
  s.conversations.toAList.entries.map fun e => (e.1, e.2)

def ChatFile.to_value (file : ChatFile) : Value :=
  .obj [("schema", .str file.schema),
    ("conversations", .obj (file.store.entries.map fun e =>
      (e.1, .arr (e.2.map ChatMessage.to_value))))]

def chat_store_path (app_data_dir : String) : Path := ⟨app_data_dir, "chat-messages", "json"⟩

namespace ChatStore

def to_json (s : ChatStore) : Bytes := (ChatFile.to_value ⟨CHAT_SCHEMA, s⟩).to_vec_pretty

/-- `chmod`: whether the permissions can be set; the save goes on if not. -/
def save_ops (s : ChatStore) (path : Path) (chmod : Bool) : List (FsOp Path) :=
  FileSystem.replace (path.with_extension "json.tmp") path s.to_json
    (if chmod then some 0o600#9 else none)

def save_failure : FsOp Path → String
  | .create_dir_all => "mkdir"
  | .rename _ _ => "rename"
  | _ => "write"

def save (s : ChatStore) (umask : Mode) (fs : FileSystem Path) (path : Path) (chmod : Bool)
    (stop : Option Nat) : FileSystem Path × Except String Unit :=
  FileSystem.attempt umask save_failure fs (s.save_ops path chmod) stop

def load_or_empty (reader : Reader ChatFile.to_value) (fs : FileSystem Path) (path : Path)
    (readable : Bool) : Except String ChatStore :=
  if readable then
    match fs path with
    | none => .ok empty
    | some file =>
      match reader.from_slice file.content with
      | none => .error "chat store decode"
      | some file =>
        if file.schema ≠ CHAT_SCHEMA then
          .error ("unsupported chat schema: " ++ file.schema ++ " (expected " ++ CHAT_SCHEMA ++ ")")
        else .ok file.store
  else .error "chat store read"

variable {s : ChatStore} {umask : Mode} {fs : FileSystem Path} {app_data_dir : String}
  {chmod : Bool} {stop : Option Nat}

theorem tmp_ne :
    (chat_store_path app_data_dir).with_extension "json.tmp" ≠ chat_store_path app_data_dir :=
  Path.with_extension_ne (show "json" ≠ "json.tmp" by decide)

theorem save_ok {path : Path} (h : (s.save umask fs path chmod stop).2 = .ok ()) :
    ∃ mode, (s.save umask fs path chmod stop).1 path = some ⟨s.to_json, mode⟩ :=
  ⟨_, FileSystem.attempt_ok h⟩

theorem save_error {e : String}
    (h : (s.save umask fs (chat_store_path app_data_dir) chmod stop).2 = .error e) :
    (s.save umask fs (chat_store_path app_data_dir) chmod stop).1 (chat_store_path app_data_dir) =
      fs (chat_store_path app_data_dir) :=
  FileSystem.attempt_error tmp_ne h

/-- A save fails where a system call fails. -/
def SaveFails (s : ChatStore) (path : Path) (chmod : Bool) (stop : Option Nat) : Prop :=
  ∃ n, stop = some n ∧ n < (s.save_ops path chmod).length

theorem save_fails {path : Path} : (∃ e, (s.save umask fs path chmod stop).2 = .error e) ↔
    s.SaveFails path chmod stop :=
  FileSystem.attempt_fails

end ChatStore

/-! ## A reader to run the model with -/

def ChatMessage.of_value (v : Value) : Option ChatMessage := do
  return {
    id := ← text_field v "id"
    direction := ← text_field v "direction"
    text := ← text_field v "text"
    timestamp := ← (v.get "timestamp").bind Value.as_u64
    status := ← text_field v "status" }

def conversation_of_field (f : String × Value) : Option ((_ : String) × List ChatMessage) := do
  let items ← as_items f.2
  let convo ← items.mapM ChatMessage.of_value
  return ⟨f.1, convo⟩

def ChatStore.of_entries (entries : List ((_ : String) × List ChatMessage)) : Option ChatStore :=
  if h : entries.keys.Nodup then some ⟨⟨⟨entries, h⟩⟩⟩ else none

def as_fields : Value → Option (List (String × Value))
  | .obj fields => some fields
  | _ => none

def ChatFile.of_value (v : Value) : Option ChatFile := do
  let fields ← (v.get "conversations").bind as_fields
  let entries ← fields.mapM conversation_of_field
  return {
    schema := ← text_field v "schema"
    store := ← ChatStore.of_entries entries }

theorem ChatMessage.of_value_to_value (m : ChatMessage) : of_value m.to_value = some m := by
  simp [of_value, to_value, Value.as_str, Json.get, Value.as_u64]

theorem ChatFile.of_value_to_value (file : ChatFile) : of_value file.to_value = some file := by
  obtain ⟨schema, ⟨⟨⟨entries, nodup⟩⟩⟩⟩ := file
  have each (e : (_ : String) × List ChatMessage) :
      conversation_of_field (e.1, .arr (e.2.map ChatMessage.to_value)) = some e := by
    have convo := Relay.mapM_map_some ChatMessage.of_value_to_value e.2
    simp [conversation_of_field, as_items, convo]
  have all := Relay.mapM_map_some each entries
  simp [of_value, to_value, Json.get, as_fields, Value.as_str, ChatStore.entries,
    Function.comp_def, all, ChatStore.of_entries, show entries.keys.Nodup from nodup]

theorem ChatFile.plain (file : ChatFile) : file.to_value.Plain := by
  have message (m : ChatMessage) : m.to_value.Plain :=
    ⟨trivial, trivial, trivial, ⟨_, rfl⟩, trivial, trivial⟩
  have conversations (entries : List (String × List ChatMessage)) : Value.Plain
      (.obj (entries.map fun e => (e.1, .arr (e.2.map ChatMessage.to_value)))) := by
    induction entries with
    | nil => trivial
    | cons e entries ih => exact ⟨plain_strings message e.2, ih⟩
  exact ⟨trivial, conversations file.store.entries, trivial⟩

def ChatFile.reader : Reader ChatFile.to_value :=
  .spaced ChatFile.of_value ChatFile.of_value_to_value ChatFile.plain

end Qev.Desktop
