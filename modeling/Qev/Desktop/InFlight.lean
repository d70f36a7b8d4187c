import Qev.Desktop.ChatSend
import Qev.Desktop.Inbox

/-! Calls of `chat_send` that wait for their delivery while other calls and the
poller write to the chat store: which message each of them settles. -/

namespace Qev.Desktop

open Relay (EnvelopeId Pk)

/-! ## The machine -/

/-- A call that has stored its message, with the number of messages that were
added to the conversation since. -/
structure InFlight where
  peer_id : String
  msg_id : String
  since : Nat
  deriving DecidableEq, Repr

def InFlight.after (c : InFlight) : ChatWrite → InFlight
  | .add_message peer_id _ => if c.peer_id = peer_id then { c with since := c.since + 1 } else c
  | _ => c

structure Chats where
  store : ChatStore
  calls : List InFlight

inductive ChatEvent where
  /-- A call stores its message. -/
  | send (peer_id text msg_id : String) (ts : UInt64)
  /-- The call learns what became of the delivery. -/
  | settle (k : Nat) (send_result : Except String EnvelopeId)
  /-- The call ends before the delivery. -/
  | give_up (k : Nat)
  /-- The poller appends an envelope; the two last values stand in for what is
  missing in it. -/
  | ingest (from_ : Pk) (v : Value) (new_id : String) (now_ms : UInt64)
  | mark_read (peer_id : String)

def outgoing (text msg_id : String) (ts : UInt64) : ChatMessage :=
  ⟨msg_id, "outgoing", text, ts, "sending"⟩

namespace Chats

def write (s : Chats) (w : ChatWrite) : Chats :=
  ⟨(w.run s.store).1, s.calls.map (·.after w)⟩

def step (s : Chats) : ChatEvent → Chats
  | .send peer_id text msg_id ts =>
    let s := s.write (.add_message peer_id (outgoing text msg_id ts))
    { s with calls := s.calls ++ [⟨peer_id, msg_id, 0⟩] }
  | .settle k send_result =>
    match s.calls[k]? with
    | none => s
    | some c =>
      let s := s.write (.update_status c.peer_id c.msg_id (delivery_status send_result))
      { s with calls := s.calls.eraseIdx k }
  | .give_up k => { s with calls := s.calls.eraseIdx k }
  | .ingest from_ v new_id now_ms =>
    s.write (.add_message (Hex.hex from_.val) (chat_message v new_id now_ms))
  | .mark_read peer_id => s.write (.mark_all_read peer_id)

end Chats

/-- A whole call of `chat_send` with nothing in between. -/
theorem chat_send_events {Addr : Type} {app_data_dir : String} {s : States} {peer_id text : String}
    {at_ : SendMoment Addr} (saves : at_.ChatSaves) :
    ∃ ending, (ending = .give_up 0 ∨ ∃ send_result, ending = .settle 0 send_result) ∧
      (chat_send app_data_dir s peer_id text at_).states.chat = (run Chats.step ⟨s.chat, []⟩
        [.send peer_id text at_.new_message_id at_.now_ms, ending]).store := by
  rcases chat_send_cases saves with ⟨-, r, -, held, -⟩ | ⟨-, -, held, -⟩
  · exact ⟨_, .inr ⟨r, rfl⟩, held⟩
  · exact ⟨_, .inl rfl, held⟩

/-! ## Where the message of a call is -/

/-- The message of a call is no longer kept, or stands where it was added. Until
it is given a status it is `sending`, and it cannot be given one while a message
before it has its id. -/
def Placed (c : InFlight) (convo : List ChatMessage) : Prop :=
  convo.length ≤ c.since ∨ ∃ before own after, convo = before ++ own :: after ∧
    after.length = c.since ∧ own.id = c.msg_id ∧ own.direction = "outgoing" ∧
    (own.status = "sending" ∨ Keyed.find ChatMessage.id c.msg_id before = none)

variable {c : InFlight} {convo : List ChatMessage}

theorem placed_new (convo : List ChatMessage) (peer_id text msg_id : String) (ts : UInt64) :
    Placed ⟨peer_id, msg_id, 0⟩
      ((convo ++ [outgoing text msg_id ts]).rtake MAX_MESSAGES_PER_PEER) := by
  rw [BoundedLog.rtake_concat (by decide)]
  exact .inr ⟨_, _, [], rfl, rfl, rfl, rfl, .inl rfl⟩

theorem placed_add (placed : Placed c convo) (msg : ChatMessage) :
    Placed { c with since := c.since + 1 }
      ((convo ++ [msg]).rtake MAX_MESSAGES_PER_PEER) := by
  rcases placed with gone | ⟨before, own, after, rfl, later, same, out, first⟩
  · left
    rw [BoundedLog.length_rtake, List.length_append, List.length_singleton]
    exact (Nat.min_le_right _ _).trans (Nat.succ_le_succ gone)
  · rw [List.append_assoc, List.cons_append, List.rtake]
    by_cases kept :
        (before ++ own :: (after ++ [msg])).length - MAX_MESSAGES_PER_PEER ≤ before.length
    · right
      rw [List.drop_append_of_le_length kept]
      refine ⟨_, own, after ++ [msg], rfl, by simp [later], same, out, ?_⟩
      refine first.imp id fun none => ?_
      rw [Keyed.find_eq_none] at none ⊢
      exact fun mem => none (List.map_subset _ (List.drop_subset _ _) mem)
    · left
      rw [List.length_drop]
      simp only [List.length_append, List.length_cons, List.length_nil] at kept ⊢
      omega

/-- A status that any call gives. -/
theorem placed_update (placed : Placed c convo) (msg_id status : String) :
    Placed c (Keyed.modify ChatMessage.id msg_id ({ · with status }) convo) := by
  rcases placed with gone | ⟨before, own, after, rfl, later, same, out, first⟩
  · left
    rwa [Keyed.length_modify]
  · right
    rw [Keyed.modify_append]
    split
    · have ids : (Keyed.modify ChatMessage.id msg_id ({ · with status }) before).map
          ChatMessage.id = before.map ChatMessage.id := Keyed.map_modify_of_keeps fun _ => rfl
      refine ⟨_, own, after, rfl, later, same, out, first.imp id fun none => ?_⟩
      rw [Keyed.find_eq_none] at none ⊢
      rwa [ids]
    · rename_i absent
      by_cases here : own.id = msg_id
      · -- The message itself is given the status: none before it has the id.
        rw [Keyed.modify, if_pos here]
        refine ⟨before, _, after, rfl, later, same, out, .inr ?_⟩
        rw [← same, here]
        simpa using absent
      · rw [Keyed.modify, if_neg here]
        exact ⟨before, own, _, rfl, Keyed.length_modify.trans later, same, out, first⟩

theorem id_mark_read (m : ChatMessage) : (ChatStore.mark_read m).id = m.id := by
  rw [ChatStore.mark_read]
  split
  · rfl
  · rfl

theorem placed_mark (placed : Placed c convo) : Placed c (convo.map ChatStore.mark_read) := by
  rcases placed with gone | ⟨before, own, after, rfl, later, same, out, first⟩
  · left
    rwa [List.length_map]
  · right
    have unmarked : ChatStore.mark_read own = own := by
      rw [ChatStore.mark_read, if_neg]
      rintro ⟨incoming, -⟩
      rw [out] at incoming
      exact absurd incoming (by decide)
    have ids : (before.map ChatStore.mark_read).map ChatMessage.id =
        before.map ChatMessage.id := by
      rw [List.map_map]
      exact List.map_congr_left fun m _ => id_mark_read m
    rw [List.map_append, List.map_cons, unmarked]
    refine ⟨_, own, _, rfl, by rw [List.length_map, later], same, out, first.imp id fun none => ?_⟩
    rw [Keyed.find_eq_none] at none ⊢
    rwa [ids]

theorem placed_write {s : ChatStore} (placed : Placed c (s.get_messages c.peer_id))
    (w : ChatWrite) : Placed (c.after w) ((w.run s).1.get_messages c.peer_id) := by
  by_cases here : w.peer_id = c.peer_id
  · cases w with
    | add_message peer_id msg =>
      obtain rfl : peer_id = c.peer_id := here
      rw [InFlight.after, if_pos rfl, ChatWrite.run, ChatStore.get_messages_add]
      exact placed_add placed msg
    | update_status peer_id msg_id status =>
      obtain rfl : peer_id = c.peer_id := here
      rw [ChatWrite.run, ChatStore.get_messages_update]
      exact placed_update placed msg_id status
    | mark_all_read peer_id =>
      obtain rfl : peer_id = c.peer_id := here
      rw [ChatWrite.run, ChatStore.get_messages_mark]
      exact placed_mark placed
  · rw [ChatWrite.get_messages_of_ne s here]
    cases w with
    | add_message peer_id msg =>
      have other : c.peer_id ≠ peer_id := Ne.symm here
      rw [InFlight.after, if_neg other]
      exact placed
    | update_status peer_id msg_id status => exact placed
    | mark_all_read peer_id => exact placed

/-- The conversation of a call is the same one all along. -/
theorem InFlight.peer_id_after (c : InFlight) (w : ChatWrite) :
    (c.after w).peer_id = c.peer_id := by
  cases w with
  | add_message peer_id msg =>
    rw [after]
    split
    · rfl
    · rfl
  | update_status peer_id msg_id status => rfl
  | mark_all_read peer_id => rfl

namespace Chats

/-- Every call's message is where the call's record says. -/
def Inv (s : Chats) : Prop := ∀ c ∈ s.calls, Placed c (s.store.get_messages c.peer_id)

variable {s : Chats}

theorem inv_write (inv : Inv s) (w : ChatWrite) : Inv (s.write w) := by
  intro c mem
  obtain ⟨c, old, rfl⟩ := List.mem_map.mp mem
  rw [InFlight.peer_id_after]
  exact placed_write (inv c old) w

theorem inv_erase (inv : Inv s) (k : Nat) : Inv { s with calls := s.calls.eraseIdx k } :=
  fun c mem => inv c (List.mem_of_mem_eraseIdx mem)

theorem inv_step (inv : Inv s) (event : ChatEvent) : Inv (s.step event) := by
  cases event with
  | send peer_id text msg_id ts =>
    intro c mem
    rcases List.mem_append.mp mem with old | new
    · exact inv_write inv _ c old
    · obtain rfl := List.mem_singleton.mp new
      change Placed _ ((s.store.add_message peer_id _).get_messages peer_id)
      rw [ChatStore.get_messages_add]
      exact placed_new _ peer_id text msg_id ts
  | settle k send_result =>
    rw [step]
    cases s.calls[k]? with
    | none => exact inv
    | some c =>
      exact inv_erase (inv_write inv
        (.update_status c.peer_id c.msg_id (delivery_status send_result))) k
  | give_up k => exact inv_erase inv k
  | ingest from_ v new_id now_ms => exact inv_write inv _
  | mark_read peer_id => exact inv_write inv _

end Chats

/-! ## What a status falls on -/

/-- The change of a store that a call makes falls on the message of the call, if
that is still there, and on nothing else. -/
def TouchesOwn (s s' : ChatStore) (c : InFlight) (status : String) : Prop :=
  ∀ peer_id i, (s'.get_messages peer_id)[i]? =
    if peer_id = c.peer_id ∧ i + c.since + 1 = (s.get_messages peer_id).length then
      (s.get_messages peer_id)[i]?.map ({ · with status })
    else (s.get_messages peer_id)[i]?

/-- The first message that has the id is the message of the call, or else that
is no longer there and the first that has its id has the status already. -/
def FindsOwn (s : ChatStore) (c : InFlight) (status : String) : Prop :=
  ∀ i m, (s.get_messages c.peer_id).findIdx? (·.id = c.msg_id) = some i →
    (s.get_messages c.peer_id)[i]? = some m →
    i + c.since + 1 = (s.get_messages c.peer_id).length ∨
      (s.get_messages c.peer_id).length ≤ c.since ∧ m.status = status

theorem findIdx?_eq_none {k : String} : convo.findIdx? (·.id = k) = none ↔
    Keyed.find ChatMessage.id k convo = none := by
  rw [List.findIdx?_eq_none_iff, Keyed.find, List.find?_eq_none]
  simp

/-- Where a call's message is, it is found by its id unless one before it is. -/
theorem findIdx?_own {before after : List ChatMessage} {own : ChatMessage}
    (same : own.id = c.msg_id) :
    (before ++ own :: after).findIdx? (·.id = c.msg_id) =
      some ((before.findIdx? (·.id = c.msg_id)).getD before.length) := by
  rw [List.findIdx?_append, List.findIdx?_cons, if_pos (decide_eq_true same)]
  cases before.findIdx? (·.id = c.msg_id) with
  | none => simp
  | some i => simp

/-- One message of the conversation after the change. -/
theorem getElem?_update (s : ChatStore) (peer_id msg_id status : String) (i : Nat) :
    ((s.update_status peer_id msg_id status).1.get_messages peer_id)[i]? =
      if (s.get_messages peer_id).findIdx? (·.id = msg_id) = some i then
        (s.get_messages peer_id)[i]?.map ({ · with status })
      else (s.get_messages peer_id)[i]? := by
  rw [ChatStore.get_messages_update]
  exact Keyed.getElem?_modify i

theorem TouchesOwn.findsOwn {s : ChatStore} (placed : Placed c (s.get_messages c.peer_id))
    {status : String} (settles : status ≠ "sending")
    (touches : TouchesOwn s (s.update_status c.peer_id c.msg_id status).1 c status) :
    FindsOwn s c status := by
  intro i m found here
  by_contra! other
  obtain ⟨not_own, gone⟩ := other
  have at_ (j : Nat) := (getElem?_update s c.peer_id c.msg_id status j).symm.trans
    (touches c.peer_id j)
  -- The message that was found has not changed, so that it had the status.
  have unchanged := at_ i
  rw [if_pos found, if_neg (fun own => not_own own.2), here, Option.map_some] at unchanged
  have had : m.status = status := by rw [← Option.some.inj unchanged]
  -- Then the call's own message is there, and has not been given it.
  rcases placed with past | ⟨before, own, after, split, later, same, out, first⟩
  · exact gone past had
  · have length : (s.get_messages c.peer_id).length = before.length + c.since + 1 := by
      rw [split, List.length_append, List.length_cons, later, Nat.add_assoc]
    have stands : (s.get_messages c.peer_id)[before.length]? = some own := by
      rw [split, List.getElem?_append_right (Nat.le_refl _), Nat.sub_self]
      rfl
    have elsewhere : i ≠ before.length := by
      rintro rfl
      exact not_own length.symm
    have missed := at_ before.length
    rw [if_neg (fun found' => elsewhere (Option.some.inj (found.symm.trans found'))),
      if_pos ⟨rfl, length.symm⟩, stands, Option.map_some] at missed
    have given : own.status = status := by rw [Option.some.inj missed]
    rcases first with sending | none
    · exact settles (given.symm.trans sending)
    · rw [split, findIdx?_own same, findIdx?_eq_none.mpr none] at found
      exact elsewhere (Option.some.inj found).symm

theorem FindsOwn.touchesOwn {s : ChatStore} (placed : Placed c (s.get_messages c.peer_id))
    {status : String} (finds : FindsOwn s c status) :
    TouchesOwn s (s.update_status c.peer_id c.msg_id status).1 c status := by
  intro peer_id i
  by_cases here : peer_id = c.peer_id
  · subst here
    rw [getElem?_update]
    by_cases found : (s.get_messages c.peer_id).findIdx? (·.id = c.msg_id) = some i
    · obtain ⟨bound, -⟩ := List.findIdx?_eq_some_iff_findIdx_eq.mp found
      have stands := List.getElem?_eq_getElem bound
      rw [if_pos found]
      rcases finds i _ found stands with own | ⟨gone, had⟩
      · rw [if_pos ⟨rfl, own⟩]
      · rw [if_neg (fun own => by omega), stands, Option.map_some, ← had]
    · rw [if_neg found, if_neg]
      rintro ⟨-, own⟩
      rcases placed with past | ⟨before, m, after, split, later, same, -, -⟩
      · omega
      · have length : (s.get_messages c.peer_id).length = before.length + c.since + 1 := by
          rw [split, List.length_append, List.length_cons, later, Nat.add_assoc]
        -- Some message is found by the id, and that is the call's own.
        have first := @findIdx?_own c before after m same
        rw [← split] at first
        obtain ⟨bound, -⟩ := List.findIdx?_eq_some_iff_findIdx_eq.mp first
        rcases finds _ _ first (List.getElem?_eq_getElem bound) with own' | ⟨gone, -⟩
        · apply found
          rw [first]
          congr 1
          omega
        · omega
  · have kept := ChatWrite.get_messages_of_ne s
      (w := .update_status c.peer_id c.msg_id status) (Ne.symm here)
    rw [if_neg (fun both => here both.1)]
    exact congrArg (·[i]?) kept

theorem touchesOwn_iff {s : ChatStore} (placed : Placed c (s.get_messages c.peer_id))
    {status : String} (settles : status ≠ "sending") :
    TouchesOwn s (s.update_status c.peer_id c.msg_id status).1 c status ↔ FindsOwn s c status :=
  ⟨TouchesOwn.findsOwn placed settles, FindsOwn.touchesOwn placed⟩

theorem delivery_status_ne (send_result : Except String EnvelopeId) :
    delivery_status send_result ≠ "sending" := by
  cases send_result with
  | error e => exact show "failed" ≠ "sending" by decide
  | ok id => exact show "sent" ≠ "sending" by decide

/-! ## Runs -/

namespace Chats

/-- Where a call learns what became of its delivery, its message is what is
found by its id. -/
def Meets (s : Chats) : ChatEvent → Prop
  | .settle k send_result => ∀ c, s.calls[k]? = some c →
      FindsOwn s.store c (delivery_status send_result)
  | _ => True

/-- The change that a call makes when it learns what became of its delivery. -/
def SettlesOwn (s : Chats) : ChatEvent → Prop
  | .settle k send_result => ∀ c, s.calls[k]? = some c →
      TouchesOwn s.store (s.step (.settle k send_result)).store c (delivery_status send_result)
  | _ => True

theorem settlesOwn_iff {s : Chats} (inv : Inv s) (event : ChatEvent) :
    s.SettlesOwn event ↔ s.Meets event := by
  cases event with
  | settle k send_result =>
    apply forall_congr'
    intro c
    apply imp_congr_right
    intro waiting
    have settled : (s.step (.settle k send_result)).store =
        (s.store.update_status c.peer_id c.msg_id (delivery_status send_result)).1 := by
      rw [step, waiting]
      rfl
    rw [settled, touchesOwn_iff (inv c (List.mem_of_getElem? waiting))
      (delivery_status_ne send_result)]
  | send peer_id text msg_id ts => rfl
  | give_up k => rfl
  | ingest from_ v new_id now_ms => rfl
  | mark_read peer_id => rfl

theorem inv_run (store : ChatStore) (events : List ChatEvent) :
    Inv (run step ⟨store, []⟩ events) :=
  Run.invariant (P := fun _ s => Inv s) (fun _ mem => absurd mem List.not_mem_nil)
    (fun _ event inv => inv_step inv event) events

end Chats

/-- Any calls of `chat_send` between any appends of the poller, from any store.
Every status falls on the message of the call that gives it, and on nothing
else, if and only if at each of these moments the first message with the id is
the call's own, or that is gone and the status changes nothing. -/
theorem status_updates_own_iff (store : ChatStore) (events : List ChatEvent) :
    (∀ before event, before ++ [event] <+: events →
      (run Chats.step ⟨store, []⟩ before).SettlesOwn event) ↔
    Run.Along Chats.step Chats.Meets ⟨store, []⟩ events := by
  rw [Run.along_iff]
  simp only [Chats.settlesOwn_iff (Chats.inv_run store _)]

/-- Nanoseconds and a process, in digits. -/
def next_id : String := "18c3f2a1b4d5e60700001a2b"

/-- A peer that has guessed the id of the next message. -/
def guessed_id : List ChatEvent :=
  [.ingest (FixedBytes.fill 32 3) (.json [("msg_id", .str next_id), ("text", .str "hello")]) "n" 0,
    .send (Hex.hex (FixedBytes.fill 32 3).val) "hi" next_id 0,
    .settle 0 (.ok (FixedBytes.fill _ 7))]

/-- Its message is marked as sent, in place of the one that was. -/
theorem guessed_id_marked : ¬ ∀ before event, before ++ [event] <+: guessed_id →
    (run Chats.step ⟨.empty, []⟩ before).SettlesOwn event := by
  intro own
  have touched := own (guessed_id.take 2) _ List.prefix_rfl _ rfl
    (Hex.hex (FixedBytes.fill 32 3).val) 0
  have before : (run Chats.step ⟨.empty, []⟩ (guessed_id.take 2)).store.get_messages
      (Hex.hex (FixedBytes.fill 32 3).val) =
      [⟨next_id, "incoming", "hello", 0, "delivered"⟩, outgoing "hi" next_id 0] := by decide
  have after : (((run Chats.step ⟨.empty, []⟩ (guessed_id.take 2)).step
      (.settle 0 (.ok (FixedBytes.fill _ 7)))).store.get_messages
        (Hex.hex (FixedBytes.fill 32 3).val)) =
      [⟨next_id, "incoming", "hello", 0, "sent"⟩, outgoing "hi" next_id 0] := by decide
  rw [before, after] at touched
  revert touched
  decide

end Qev.Desktop
