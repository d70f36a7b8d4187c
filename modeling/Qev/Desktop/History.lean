import Qev.Desktop.WithWrite
import Qev.Lib.BoundedLog

/-! What a conversation of the chat store holds after any writes to the store:
the end of everything that was added, each message with the status it was given
last. -/

namespace Qev.Desktop

/-- What was added for a peer, in order. -/
def added (peer_id : String) : List ChatWrite → List ChatMessage :=
  List.filterMap fun
    | .add_message p msg => if p = peer_id then some msg else none
    | _ => none

/-- What does not change when a message is given a status. -/
def ChatMessage.content (m : ChatMessage) : ChatMessage := { m with status := "" }

/-! ## The history of everything -/

/-- A message that was added, with the statuses that it was given since. -/
structure Entry where
  message : ChatMessage
  given : List String
  deriving DecidableEq, Repr

namespace Entry

def give (status : String) (e : Entry) : Entry := { e with given := e.given ++ [status] }

def incoming (e : Entry) : Bool := e.message.direction = "incoming"

/-- The status given last, or else the one that the message came with. -/
def status (e : Entry) : String := e.given.getLastD e.message.status

def current (e : Entry) : ChatMessage := { e.message with status := e.status }

theorem status_give (e : Entry) (status : String) : (e.give status).status = status := by
  simp [Entry.status, give]

theorem current_give (e : Entry) (status : String) :
    (e.give status).current = { e.current with status } := by
  rw [current, status_give]
  rfl

end Entry

/-- What a write does to the history of a peer, of which nothing is ever dropped.
A status is given to the first message of those kept that has the id. -/
def History.step (peer_id : String) (log : List Entry) : ChatWrite → List Entry
  | .add_message p msg => if p = peer_id then log ++ [⟨msg, []⟩] else log
  | .update_status p msg_id status =>
    if p = peer_id then
      BoundedLog.modifyKept MAX_MESSAGES_PER_PEER
        (Keyed.modify (·.message.id) msg_id (Entry.give status)) log
    else log
  | .mark_all_read p =>
    if p = peer_id then log.map fun e => if e.incoming then e.give "read" else e else log

def history (peer_id : String) (writes : List ChatWrite) : List Entry :=
  run (History.step peer_id) [] writes

/-- What is left of it in the store. -/
def keptHistory (peer_id : String) (writes : List ChatWrite) : List Entry :=
  (history peer_id writes).rtake MAX_MESSAGES_PER_PEER

def ChatStore.after (writes : List ChatWrite) : ChatStore :=
  run (fun s w => (w.run s).1) .empty writes

/-! ## One write -/

namespace ChatStore

variable (s : ChatStore) (peer_id : String)

theorem trim_eq_rtake (convo : List ChatMessage) :
    trim convo = convo.rtake MAX_MESSAGES_PER_PEER := by
  induction convo with
  | nil => rw [trim, List.rtake_nil]
  | cons m convo ih => rw [trim, BoundedLog.rtake_cons, ih]

theorem get_messages_eq {convo : List ChatMessage}
    (there : s.conversations.get peer_id = some convo) : s.get_messages peer_id = convo := by
  rw [get_messages, there, Option.getD_some]

theorem get_messages_none (absent : s.conversations.get peer_id = none) :
    s.get_messages peer_id = [] := by
  rw [get_messages, absent, Option.getD_none]

theorem get_set_conversation (p : String) (convo : List ChatMessage) :
    (s.set_conversation p convo).conversations.get peer_id =
      if peer_id = p then (s.conversations.get p).map fun _ => convo
      else s.conversations.get peer_id :=
  HashMap.get_replace s.conversations p peer_id convo

theorem get_messages_add (msg : ChatMessage) :
    (s.add_message peer_id msg).get_messages peer_id =
      (s.get_messages peer_id ++ [msg]).rtake MAX_MESSAGES_PER_PEER := by
  rw [add_message, get_messages, HashMap.get_insert_self, Option.getD_some, trim_eq_rtake]
  rfl

theorem get_messages_update (msg_id status : String) :
    (s.update_status peer_id msg_id status).1.get_messages peer_id =
      Keyed.modify ChatMessage.id msg_id ({ · with status }) (s.get_messages peer_id) := by
  cases there : s.conversations.get peer_id with
  | none =>
    simp only [update_status, there, s.get_messages_none peer_id there]
    rfl
  | some convo =>
    rw [s.get_messages_eq peer_id there]
    simp only [update_status, there]
    apply get_messages_eq
    rw [get_set_conversation, if_pos rfl, there]
    rfl

theorem get_messages_mark :
    (s.mark_all_read peer_id).get_messages peer_id = (s.get_messages peer_id).map mark_read := by
  cases there : s.conversations.get peer_id with
  | none =>
    simp only [mark_all_read, there, s.get_messages_none peer_id there]
    rfl
  | some convo =>
    rw [s.get_messages_eq peer_id there]
    simp only [mark_all_read, there]
    apply get_messages_eq
    rw [get_set_conversation, if_pos rfl, there]
    rfl

theorem unread_count_eq :
    s.unread_count peer_id = (s.get_messages peer_id).countP is_unread := by
  rw [unread_count, get_messages]
  cases s.conversations.get peer_id with
  | none => rfl
  | some convo => rfl

theorem mark_read_twice (m : ChatMessage) : mark_read (mark_read m) = mark_read m := by
  by_cases unread : m.direction = "incoming" ∧ m.status ≠ "read"
  · simp [mark_read, unread]
  · simp [mark_read, unread]

theorem is_unread_mark_read (m : ChatMessage) : is_unread (mark_read m) = false := by
  by_cases unread : m.direction = "incoming" ∧ m.status ≠ "read"
  · simp [mark_read, is_unread, unread]
  · rw [mark_read, if_neg unread, is_unread]
    exact decide_eq_false unread

theorem mark_all_read_twice :
    (s.mark_all_read peer_id).mark_all_read peer_id = s.mark_all_read peer_id := by
  cases there : s.conversations.get peer_id with
  | none => simp only [mark_all_read, there]
  | some convo =>
    have marked : (s.mark_all_read peer_id).conversations.get peer_id =
        some (convo.map mark_read) := by
      simp only [mark_all_read, there]
      rw [get_set_conversation, if_pos rfl, there]
      rfl
    rw [mark_all_read, marked]
    have same : (convo.map mark_read).map mark_read = convo.map mark_read := by
      rw [List.map_map]
      exact List.map_congr_left fun m _ => mark_read_twice m
    simp only [same]
    exact congrArg ChatStore.mk (HashMap.replace_self marked)

theorem unread_count_mark_all_read : (s.mark_all_read peer_id).unread_count peer_id = 0 := by
  rw [unread_count_eq, get_messages_mark, List.countP_eq_zero]
  intro m mem
  obtain ⟨m', -, rfl⟩ := List.mem_map.mp mem
  rw [is_unread_mark_read]
  exact Bool.false_ne_true

end ChatStore

/-- The peer whose conversation a write is about. -/
def ChatWrite.peer_id : ChatWrite → String
  | .add_message peer_id _ => peer_id
  | .update_status peer_id _ _ => peer_id
  | .mark_all_read peer_id => peer_id

/-- The conversations of all other peers are as they were. -/
theorem ChatWrite.get_of_ne (s : ChatStore) {w : ChatWrite} {peer_id : String}
    (other : w.peer_id ≠ peer_id) :
    (w.run s).1.conversations.get peer_id = s.conversations.get peer_id := by
  cases w with
  | add_message p msg =>
    have other : peer_id ≠ p := Ne.symm other
    simp only [run, ChatStore.add_message]
    rw [HashMap.get_insert, if_neg other]
  | update_status p msg_id status =>
    have other : peer_id ≠ p := Ne.symm other
    simp only [run, ChatStore.update_status]
    split
    · rfl
    · rw [ChatStore.get_set_conversation, if_neg other]
  | mark_all_read p =>
    have other : peer_id ≠ p := Ne.symm other
    simp only [run, ChatStore.mark_all_read]
    split
    · rfl
    · rw [ChatStore.get_set_conversation, if_neg other]

theorem added_of_ne {w : ChatWrite} {peer_id : String} (other : w.peer_id ≠ peer_id) :
    added peer_id [w] = [] := by
  cases w with
  | add_message p msg =>
    have other : ¬ p = peer_id := other
    simp [added, other]
  | update_status p msg_id status => rfl
  | mark_all_read p => rfl

theorem ChatWrite.get_messages_of_ne (s : ChatStore) {w : ChatWrite} {peer_id : String}
    (other : w.peer_id ≠ peer_id) : (w.run s).1.get_messages peer_id = s.get_messages peer_id := by
  rw [ChatStore.get_messages, ChatStore.get_messages, get_of_ne s other]

/-! ## The store keeps the end of the history -/

namespace History

theorem step_of_ne {w : ChatWrite} {peer_id : String} (other : w.peer_id ≠ peer_id)
    (log : List Entry) : step peer_id log w = log := by
  cases w with
  | add_message p msg => exact if_neg other
  | update_status p msg_id status => exact if_neg other
  | mark_all_read p => exact if_neg other

theorem map_current_give (msg_id status : String) (log : List Entry) :
    (Keyed.modify (·.message.id) msg_id (Entry.give status) log).map Entry.current =
      Keyed.modify ChatMessage.id msg_id ({ · with status }) (log.map Entry.current) := by
  apply Keyed.map_modify
  · intro e
    rfl
  · intro e
    exact e.current_give status

/-- A read mark on an entry is one on the message as it stands. -/
theorem current_mark (e : Entry) :
    (if e.incoming then e.give "read" else e).current = ChatStore.mark_read e.current := by
  by_cases incoming : e.message.direction = "incoming"
  · have here : e.incoming = true := decide_eq_true incoming
    rw [if_pos here, Entry.current_give, ChatStore.mark_read]
    split
    · rfl
    · rename_i marked
      have read : e.current.status = "read" := by
        by_contra unread
        exact marked ⟨incoming, unread⟩
      rw [← read]
  · have there : ¬ e.incoming = true := by
      rw [Entry.incoming, decide_eq_true_eq]
      exact incoming
    have outgoing : ¬ (e.current.direction = "incoming" ∧ e.current.status ≠ "read") :=
      fun unread => incoming unread.1
    rw [if_neg there, ChatStore.mark_read, if_neg outgoing]

/-- One write to the store is one to the history of which it holds the end. -/
theorem step_kept (s : ChatStore) (w : ChatWrite) (peer_id : String) (log : List Entry)
    (holds : s.get_messages peer_id = (log.rtake MAX_MESSAGES_PER_PEER).map Entry.current) :
    (w.run s).1.get_messages peer_id =
      ((step peer_id log w).rtake MAX_MESSAGES_PER_PEER).map Entry.current := by
  by_cases here : w.peer_id = peer_id
  · subst here
    cases w with
    | add_message p msg =>
      have added : step p log (.add_message p msg) = log ++ [⟨msg, []⟩] := if_pos rfl
      have last : msg = Entry.current ⟨msg, []⟩ := rfl
      simp only [ChatWrite.peer_id, ChatWrite.run] at holds ⊢
      rw [s.get_messages_add, holds, added, BoundedLog.map_rtake, BoundedLog.map_rtake,
        BoundedLog.rtake_append, List.map_append, List.map_singleton, ← last]
    | update_status p msg_id status =>
      have given : step p log (.update_status p msg_id status) =
          BoundedLog.modifyKept MAX_MESSAGES_PER_PEER
            (Keyed.modify (·.message.id) msg_id (Entry.give status)) log := if_pos rfl
      simp only [ChatWrite.peer_id, ChatWrite.run] at holds ⊢
      rw [s.get_messages_update, holds, given, BoundedLog.rtake_modifyKept, map_current_give]
      intro l
      exact Keyed.length_modify
    | mark_all_read p =>
      have marked : step p log (.mark_all_read p) =
          log.map fun e => if e.incoming then e.give "read" else e := if_pos rfl
      simp only [ChatWrite.peer_id, ChatWrite.run] at holds ⊢
      rw [s.get_messages_mark, holds, marked, ← BoundedLog.map_rtake, List.map_map, List.map_map]
      exact List.map_congr_left fun e _ => (current_mark e).symm
  · rw [ChatWrite.get_messages_of_ne s here, step_of_ne here, holds]

theorem get_messages_after (writes : List ChatWrite) (peer_id : String) :
    (ChatStore.after writes).get_messages peer_id =
      (keptHistory peer_id writes).map Entry.current := by
  induction writes using List.reverseRecOn with
  | nil =>
    rw [keptHistory, history, Run.nil, List.rtake_nil]
    rfl
  | append_singleton writes w ih =>
    rw [ChatStore.after, keptHistory, history, Run.snoc, Run.snoc]
    exact step_kept _ w peer_id _ ih

/-- Nothing but an added message changes what the history consists of. -/
theorem messages_step (peer_id : String) (log : List Entry) (w : ChatWrite) :
    (step peer_id log w).map Entry.message = log.map Entry.message ++ added peer_id [w] := by
  by_cases here : w.peer_id = peer_id
  · subst here
    cases w with
    | add_message p msg => simp [step, added, ChatWrite.peer_id]
    | update_status p msg_id status =>
      have nothing : added p [.update_status p msg_id status] = [] := rfl
      have given : step p log (.update_status p msg_id status) =
          BoundedLog.modifyKept MAX_MESSAGES_PER_PEER
            (Keyed.modify (·.message.id) msg_id (Entry.give status)) log := if_pos rfl
      rw [ChatWrite.peer_id, given, nothing, List.append_nil, BoundedLog.map_modifyKept]
      intro l
      exact Keyed.map_modify_of_keeps fun e => rfl
    | mark_all_read p =>
      have nothing : added p [.mark_all_read p] = [] := rfl
      have marked : step p log (.mark_all_read p) =
          log.map fun e => if e.incoming then e.give "read" else e := if_pos rfl
      rw [ChatWrite.peer_id, marked, nothing, List.append_nil, List.map_map]
      apply List.map_congr_left
      intro e mem
      rw [Function.comp_apply]
      split
      · rfl
      · rfl
  · rw [step_of_ne here, added_of_ne here, List.append_nil]

theorem messages_history (peer_id : String) (writes : List ChatWrite) :
    (history peer_id writes).map Entry.message = added peer_id writes := by
  induction writes using List.reverseRecOn with
  | nil => rfl
  | append_singleton writes w ih =>
    rw [history, Run.snoc, messages_step, added, List.filterMap_append]
    exact congrArg (· ++ _) ih

end History

/-- After any writes to a store that was empty, on any peers. A conversation is
the last of what was added for the peer; what counts as unread is what was
incoming and was given, last, another status than `read`; reading everything
leaves nothing unread, and once is enough; and a write is about one peer only. -/
theorem chat_history (writes : List ChatWrite) (peer_id : String) :
    ((ChatStore.after writes).get_messages peer_id).map ChatMessage.content =
        ((added peer_id writes).rtake MAX_MESSAGES_PER_PEER).map ChatMessage.content ∧
      (ChatStore.after writes).unread_count peer_id = (keptHistory peer_id writes).countP
        (fun e => e.message.direction = "incoming" ∧ e.status ≠ "read") ∧
      (keptHistory peer_id writes).map Entry.message =
        (added peer_id writes).rtake MAX_MESSAGES_PER_PEER ∧
      ((ChatStore.after writes).mark_all_read peer_id).mark_all_read peer_id =
        (ChatStore.after writes).mark_all_read peer_id ∧
      ((ChatStore.after writes).mark_all_read peer_id).unread_count peer_id = 0 ∧
      ∀ w : ChatWrite, w.peer_id ≠ peer_id →
        (ChatStore.after (writes ++ [w])).conversations.get peer_id =
          (ChatStore.after writes).conversations.get peer_id := by
  have kept : (keptHistory peer_id writes).map Entry.message =
      (added peer_id writes).rtake MAX_MESSAGES_PER_PEER := by
    rw [keptHistory, BoundedLog.map_rtake, History.messages_history]
  refine ⟨?_, ?_, kept, ?_, ?_, ?_⟩
  · rw [History.get_messages_after, ← kept, List.map_map, List.map_map]
    rfl
  · rw [ChatStore.unread_count_eq, History.get_messages_after, List.countP_map]
    rfl
  · exact ChatStore.mark_all_read_twice _ peer_id
  · exact ChatStore.unread_count_mark_all_read _ peer_id
  · intro w other
    rw [ChatStore.after, Run.snoc]
    exact ChatWrite.get_of_ne _ other

/-- A message that is read, and whose status is set again. -/
def redelivered : List ChatWrite :=
  [.add_message "p" ⟨"m", "incoming", "hello", 1, "delivered"⟩, .mark_all_read "p",
    .update_status "p" "m" "delivered"]

/-- It is unread again, although a read mark covered it. -/
theorem redelivered_unread : ¬ ∀ (writes : List ChatWrite) (peer_id : String),
    (ChatStore.after writes).unread_count peer_id = (keptHistory peer_id writes).countP
      (fun e => e.message.direction = "incoming" ∧ "read" ∉ e.given) := by
  intro all
  have unread : (ChatStore.after redelivered).unread_count "p" = 1 := by decide
  have covered : (keptHistory "p" redelivered).countP
      (fun e => e.message.direction = "incoming" ∧ "read" ∉ e.given) = 0 := by decide
  rw [all redelivered "p", covered] at unread
  cases unread

end Qev.Desktop
