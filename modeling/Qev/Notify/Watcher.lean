import Mathlib.Data.List.DropRight
import Mathlib.Order.MinMax
import Qev.Lib.Js
import Qev.Lib.Run

/-! The inbox of the notify page (`notify.js`): watching a topic is started and
stopped while polls are in flight, and every poll reads and writes what is
watched when it goes on. -/

namespace Qev.Notify

open Js (JsString js)

/-! ## Messages -/

/-- A message of the relay. Its body may be missing. -/
structure Message (ι ν β : Type) where
  id : ι
  ts : ν
  body : Option β
  deriving DecidableEq, Repr

/-- How a message was unlocked, or why it was not. -/
inductive Pill where
  | locked
  | wrong_phrase
  | unlocked (phrase plain : JsString)
  deriving DecidableEq, Repr

/-- An element of the list, with the topic that its message was fetched for. -/
structure Row (ι ν β : Type) where
  message : Message ι ν β
  pill : Pill
  topic : JsString
  deriving DecidableEq, Repr

/-! ## State -/

/-- Where a poll stands. `landed` is how often watching had been started when
its response came. -/
inductive Stage (ι ν β : Type) where
  | fetching
  | rendering (landed : Nat) (m : Message ι ν β) (body : β) (phrase : JsString)
      (rest : List (Message ι ν β))
  | looping (landed : Nat) (rest : List (Message ι ν β))
  | done

structure Poll (ι ν β : Type) where
  topic : JsString
  stage : Stage ι ν β

/-- A request, with the topic watched when it was sent and the messages received
for that topic until then. -/
structure Request (ι ν β : Type) where
  topic : JsString
  after_ts : Option ν
  watched : Option JsString
  received : List (Message ι ν β)

/-- The last four fields are read by no step but to keep them: the requests that
were sent, the topic of the latest start, how many starts there were, and what
was received since for that topic. -/
structure Watcher (ι ν β : Type) where
  currentTopic : Option JsString
  currentPhrase : Option JsString
  lastSeenTs : ν
  seenIds : List ι
  inbox : List (Row ι ν β)
  pollTimer : Bool
  polls : List (Poll ι ν β)
  requests : List (Request ι ν β)
  watched : Option JsString
  starts : Nat
  received : List (Message ι ν β)

def initial (ι ν β : Type) [Zero ν] : Watcher ι ν β :=
  ⟨none, none, 0, [], [], false, [], [], none, 0, []⟩

/-! ## Topics -/

/-- White space and line ends of ECMAScript. -/
def isStrSpace (u : UInt16) : Bool :=
  (9 ≤ u && u ≤ 13) || u ∈ [0x20, 0xA0, 0x1680, 0x2028, 0x2029, 0x202F, 0x205F, 0x3000, 0xFEFF] ||
    (0x2000 ≤ u && u ≤ 0x200A)

def trim (s : JsString) : JsString := (s.dropWhile isStrSpace).rdropWhile isStrSpace

def isTopicUnit (u : UInt16) : Bool :=
  (48 ≤ u && u ≤ 57) || (65 ≤ u && u ≤ 90) || (97 ≤ u && u ≤ 122) || u = 95 || u = 45

def validTopic (t : JsString) : Bool := 3 ≤ t.length && t.length ≤ 64 && t.all isTopicUnit

/-! ## Steps -/

/-- A call, or what a poll was waiting for. -/
inductive Event (ι ν β : Type) where
  | startWatching (topic phrase : JsString)
  | stopWatching
  | tick
  | responded (i : Nat) (messages : List (Message ι ν β))
  | failed (i : Nat)
  | decrypted (i : Nat)
  | resumed (i : Nat)

section Steps

variable {ι ν β : Type} [DecidableEq ι] [LinearOrder ν] [Zero ν]

namespace Watcher

def setStage (w : Watcher ι ν β) (i : Nat) (stage : Stage ι ν β) : Watcher ι ν β :=
  { w with polls := w.polls.modify i fun poll => { poll with stage } }

def prepend (w : Watcher ι ν β) (row : Row ι ν β) : Watcher ι ν β :=
  { w with inbox := row :: w.inbox }

/-- The message is noted as seen, before it is rendered. -/
def note (w : Watcher ι ν β) (m : Message ι ν β) : Watcher ι ν β :=
  { w with seenIds := m.id :: w.seenIds, lastSeenTs := max w.lastSeenTs m.ts }

/-- The request of `fetchInbox`, which has no time in it where that is zero. -/
def fetchInbox (w : Watcher ι ν β) (topic : JsString) : Watcher ι ν β :=
  let after_ts := if w.lastSeenTs = 0 then none else some w.lastSeenTs
  { w with
    polls := w.polls ++ [⟨topic, .fetching⟩]
    requests := ⟨topic, after_ts, w.watched, w.received⟩ :: w.requests }

/-- `pollOnce` up to its request. -/
def pollOnce (w : Watcher ι ν β) : Watcher ι ν β :=
  match w.currentTopic with
  | none => w
  | some topic => w.fetchInbox topic

/-- The loop of `pollOnce`, up to where rendering a message waits: for its text
where there is a phrase, and else for the next turn. A message without a body
ends the poll. -/
def loop (i : Nat) (topic : JsString) (landed : Nat) :
    List (Message ι ν β) → Watcher ι ν β → Watcher ι ν β
  | [], w => w.setStage i .done
  | m :: rest, w =>
    if m.id ∈ w.seenIds then loop i topic landed rest w
    else
      let w := w.note m
      match m.body, w.currentPhrase with
      | none, _ => w.setStage i .done
      | some body, some phrase => w.setStage i (.rendering landed m body phrase rest)
      | some _, none => (w.prepend ⟨m, .locked, topic⟩).setStage i (.looping landed rest)

def stopWatching (w : Watcher ι ν β) : Watcher ι ν β :=
  { w with pollTimer := false, currentTopic := none, currentPhrase := none }

/-- The input fields are read as they stand. -/
def startWatching (w : Watcher ι ν β) (topic phrase : JsString) : Watcher ι ν β :=
  let topic := trim topic
  if !validTopic topic then w
  else
    let w := { w.stopWatching with
      currentTopic := some topic
      currentPhrase := if phrase = [] then none else some phrase
      lastSeenTs := 0
      seenIds := []
      inbox := []
      watched := some topic
      starts := w.starts + 1
      received := [] }
    { w.pollOnce with pollTimer := true }

/-- The messages of a response count as received for the topic that is watched. -/
def receive (w : Watcher ι ν β) (topic : JsString) (messages : List (Message ι ν β)) :
    Watcher ι ν β :=
  if w.watched = some topic then { w with received := w.received ++ messages } else w

variable (decrypt : β → JsString → Option JsString)

def step (w : Watcher ι ν β) : Event ι ν β → Watcher ι ν β
  | .startWatching topic phrase => w.startWatching topic phrase
  | .stopWatching => w.stopWatching
  | .tick => if w.pollTimer then w.pollOnce else w
  | .responded i messages =>
    match w.polls[i]? with
    | some ⟨topic, .fetching⟩ => loop i topic w.starts messages (w.receive topic messages)
    | _ => w
  | .failed i =>
    match w.polls[i]? with
    | some ⟨_, .fetching⟩ => w.setStage i .done
    | _ => w
  | .decrypted i =>
    match w.polls[i]? with
    | some ⟨topic, .rendering landed m body phrase rest⟩ =>
      let pill := match decrypt body phrase with
        | some plain => .unlocked phrase plain
        | none => .wrong_phrase
      (w.prepend ⟨m, pill, topic⟩).setStage i (.looping landed rest)
    | _ => w
  | .resumed i =>
    match w.polls[i]? with
    | some ⟨topic, .looping landed rest⟩ => loop i topic landed rest w
    | _ => w

end Watcher

end Steps

end Qev.Notify
