import Qev.Notify.Watcher

/-! What the notify page shows and asks for, over every order of starts, stops
and answers: that it follows the topic watched, as long as nothing that belongs
to an earlier topic is taken up again. -/

namespace Qev.Notify

open Js (JsString js)

variable {ι ν β : Type}

/-- A response is taken up while its topic is watched, and what is left of it is
gone on with before watching is started again. Where every message that is left
was seen, nothing is done with them. -/
def Fresh (w : Watcher ι ν β) : Event ι ν β → Prop
  | .responded i messages =>
    match w.polls[i]? with
    | some ⟨topic, .fetching⟩ => w.watched = some topic ∨ ∀ m ∈ messages, m.id ∈ w.seenIds
    | _ => True
  | .decrypted i =>
    match w.polls[i]? with
    | some ⟨_, .rendering landed _ _ _ _⟩ => landed = w.starts
    | _ => True
  | .resumed i =>
    match w.polls[i]? with
    | some ⟨_, .looping landed rest⟩ => landed = w.starts ∨ ∀ m ∈ rest, m.id ∈ w.seenIds
    | _ => True
  | _ => True

/-! ## What polls have left -/

/-- What is left of a response, with the start it landed after. -/
def Stage.left : Stage ι ν β → Option (Nat × List (Message ι ν β))
  | .rendering landed _ _ _ rest | .looping landed rest => some (landed, rest)
  | .fetching | .done => none

/-- The message whose text is waited for, where it came after the latest start. -/
def Stage.waiting (starts : Nat) : Stage ι ν β → Option ι
  | .rendering landed m _ _ _ => if landed = starts then some m.id else none
  | _ => none

def Watcher.waitingAt (w : Watcher ι ν β) (i : Nat) : Option ι :=
  w.polls[i]?.bind (·.stage.waiting w.starts)

/-- A message that is new to the list and that no poll is about to show. -/
def Watcher.Unshown (w : Watcher ι ν β) (id : ι) : Prop :=
  (∀ row ∈ w.inbox, row.message.id ≠ id) ∧ ∀ j, w.waitingAt j ≠ some id

theorem waitingAt_setStage (w : Watcher ι ν β) (i j : Nat) (stage : Stage ι ν β) :
    (w.setStage i stage).waitingAt j =
      if i = j ∧ j < w.polls.length then stage.waiting w.starts else w.waitingAt j := by
  simp only [Watcher.waitingAt, Watcher.setStage, List.getElem?_modify]
  by_cases here : i = j
  · subst here
    by_cases inside : i < w.polls.length
    · simp [inside]
    · simp [inside]
  · simp [here]

theorem getElem?_concat {polls : List (Poll ι ν β)} {next poll : Poll ι ν β} {i : Nat}
    (h : (polls ++ [next])[i]? = some poll) : polls[i]? = some poll ∨ poll = next := by
  rw [List.getElem?_append] at h
  split at h
  · exact .inl h
  · exact .inr (List.mem_singleton.mp (List.mem_of_getElem? h))

/-- A request that was just sent waits for no text. -/
theorem waiting_concat {w : Watcher ι ν β} (v : Watcher ι ν β) {topic : JsString} {i : Nat} {id : ι}
    (polls : v.polls = w.polls ++ [⟨topic, .fetching⟩]) (starts : v.starts = w.starts)
    (h : v.waitingAt i = some id) : w.waitingAt i = some id := by
  rw [Watcher.waitingAt, polls, starts] at h
  obtain ⟨poll, at_i, waits⟩ := Option.bind_eq_some_iff.mp h
  rcases getElem?_concat at_i with at_i | rfl
  · exact Option.bind_eq_some_iff.mpr ⟨poll, at_i, waits⟩
  · cases waits

theorem waiting_left {starts : Nat} {stage : Stage ι ν β} {id : ι}
    (h : stage.waiting starts = some id) : ∃ rest, stage.left = some (starts, rest) := by
  cases stage with
  | rendering landed m body phrase rest =>
    simp only [Stage.waiting, Option.ite_none_right_eq_some] at h
    obtain ⟨rfl, -⟩ := h
    exact ⟨rest, rfl⟩
  | fetching | looping | done => cases h

theorem unshown_looping {w : Watcher ι ν β} {i : Nat} {id : ι} {landed : Nat}
    {rest : List (Message ι ν β)}
    (rows : ∀ row ∈ w.inbox, row.message.id ≠ id) (others : ∀ j ≠ i, w.waitingAt j ≠ some id) :
    (w.setStage i (.looping landed rest)).Unshown id := by
  refine ⟨rows, ?_⟩
  intro j waits
  rw [waitingAt_setStage] at waits
  split at waits
  · cases waits
  · rename_i elsewhere
    by_cases here : j = i
    · subst here
      simp only [true_and, not_lt] at elsewhere
      simp [Watcher.waitingAt, elsewhere] at waits
    · exact others j here waits

/-- Nothing is done with messages that were all seen. -/
theorem loop_seen [DecidableEq ι] [LinearOrder ν] {w : Watcher ι ν β} {i landed : Nat}
    {topic : JsString}
    {messages : List (Message ι ν β)} (seen : ∀ m ∈ messages, m.id ∈ w.seenIds) :
    Watcher.loop i topic landed messages w = w.setStage i .done := by
  induction messages with
  | nil => rfl
  | cons m rest ih =>
    rw [Watcher.loop, if_pos (seen m List.mem_cons_self)]
    exact ih fun m' mem => seen m' (List.mem_cons_of_mem _ mem)

/-! ## The invariant -/

variable [LinearOrder ν]

/-- The list and the requests follow the topic of the latest start. -/
structure Follows (w : Watcher ι ν β) : Prop where
  topic_watched : ∀ row ∈ w.inbox, w.watched = some row.topic
  once : (w.inbox.map (·.message.id)).Nodup
  asked : ∀ request ∈ w.requests, request.watched = some request.topic ∧
    ∀ t, request.after_ts = some t → ∃ m ∈ request.received, t ≤ m.ts
  seen : ∀ id ∈ w.seenIds, ∃ m ∈ w.received, m.id = id

variable [Zero ν]

structure Inv (w : Watcher ι ν β) : Prop where
  current : ∀ topic, w.currentTopic = some topic → w.watched = some topic
  left : ∀ (i : Nat) (poll : Poll ι ν β), w.polls[i]? = some poll →
    ∀ landed rest, poll.stage.left = some (landed, rest) → landed ≤ w.starts ∧
      (landed = w.starts → w.watched = some poll.topic ∧ ∀ m ∈ rest, m ∈ w.received)
  waiting_seen : ∀ i id, w.waitingAt i = some id → id ∈ w.seenIds
  waiting_unshown : ∀ i id, w.waitingAt i = some id → ∀ row ∈ w.inbox, row.message.id ≠ id
  waiting_once : ∀ i j id, w.waitingAt i = some id → w.waitingAt j = some id → i = j
  shown_seen : ∀ row ∈ w.inbox, row.message.id ∈ w.seenIds
  bound : w.lastSeenTs = 0 ∨ ∃ m ∈ w.received, w.lastSeenTs ≤ m.ts
  follows : Follows w

theorem inv_initial : Inv (initial ι ν β) where
  current := by simp [initial]
  left := by simp [initial]
  waiting_seen := by simp [initial, Watcher.waitingAt]
  waiting_unshown := by simp [initial]
  waiting_once := by simp [initial, Watcher.waitingAt]
  shown_seen := by simp [initial]
  bound := .inl rfl
  follows := ⟨by simp [initial], by simp [initial], by simp [initial], by simp [initial]⟩

namespace Inv

variable {w : Watcher ι ν β} (inv : Inv w)

include inv

/-- A poll that has nothing left of an earlier response may be moved on. -/
theorem setStage {i : Nat} {poll : Poll ι ν β} {stage : Stage ι ν β}
    (at_i : w.polls[i]? = some poll)
    (left : ∀ landed rest, stage.left = some (landed, rest) → landed ≤ w.starts ∧
      (landed = w.starts → w.watched = some poll.topic ∧ ∀ m ∈ rest, m ∈ w.received))
    (waits : ∀ id, stage.waiting w.starts = some id → id ∈ w.seenIds ∧
      (∀ row ∈ w.inbox, row.message.id ≠ id) ∧ ∀ j ≠ i, w.waitingAt j ≠ some id) :
    Inv (w.setStage i stage) := by
  have inside : i < w.polls.length := (List.getElem?_eq_some_iff.mp at_i).1
  refine ⟨inv.current, ?_, ?_, ?_, ?_, inv.shown_seen, inv.bound, ?_⟩
  · intro j other at_j landed rest is_left
    simp only [Watcher.setStage, List.getElem?_modify] at at_j
    by_cases here : i = j
    · subst here
      simp only [↓reduceIte, at_i, Option.map_eq_map, Option.map_some, Option.some.injEq] at at_j
      subst at_j
      exact left landed rest is_left
    · simp only [here, ↓reduceIte, Option.map_eq_map, Option.map_id_fun', id_eq] at at_j
      exact inv.left j other at_j landed rest is_left
  · intro j id at_j
    rw [waitingAt_setStage] at at_j
    split at at_j
    · exact (waits id at_j).1
    · exact inv.waiting_seen j id at_j
  · intro j id at_j
    rw [waitingAt_setStage] at at_j
    split at at_j
    · exact (waits id at_j).2.1
    · exact inv.waiting_unshown j id at_j
  · intro j k id at_j at_k
    rw [waitingAt_setStage] at at_j at_k
    by_cases hj : i = j <;> by_cases hk : i = k
    · exact hj.symm.trans hk
    · subst hj
      simp only [inside, and_self, ↓reduceIte, hk, false_and] at at_j at_k
      exact absurd at_k ((waits id at_j).2.2 k (Ne.symm hk))
    · subst hk
      simp only [inside, and_self, ↓reduceIte, hj, false_and] at at_j at_k
      exact absurd at_j ((waits id at_k).2.2 j (Ne.symm hj))
    · simp only [hj, hk, false_and, ↓reduceIte] at at_j at_k
      exact inv.waiting_once j k id at_j at_k
  · exact ⟨inv.follows.topic_watched, inv.follows.once, inv.follows.asked, inv.follows.seen⟩

theorem setStage_done (i : Nat) : Inv (w.setStage i .done) := by
  cases at_i : w.polls[i]? with
  | none =>
    have same : w.setStage i .done = w := by
      simp only [Watcher.setStage]
      rw [List.modify_eq_self (List.getElem?_eq_none_iff.mp at_i)]
    rwa [same]
  | some poll =>
    refine inv.setStage at_i ?_ ?_
    · intro landed rest h
      cases h
    · intro id h
      cases h

/-- A row may be put first for a message of the topic watched that was seen and is
not shown. -/
theorem prepend {row : Row ι ν β} (topic : w.watched = some row.topic)
    (seen : row.message.id ∈ w.seenIds) (unshown : w.Unshown row.message.id) :
    Inv (w.prepend row) where
  current := inv.current
  left := inv.left
  waiting_seen := inv.waiting_seen
  waiting_unshown := by
    intro i id at_i other mem
    rcases List.mem_cons.mp mem with rfl | mem
    · intro same
      exact unshown.2 i (same ▸ at_i)
    · exact inv.waiting_unshown i id at_i other mem
  waiting_once := inv.waiting_once
  shown_seen := by
    intro other mem
    rcases List.mem_cons.mp mem with rfl | mem
    · exact seen
    · exact inv.shown_seen other mem
  bound := inv.bound
  follows := by
    refine ⟨?_, ?_, inv.follows.asked, inv.follows.seen⟩
    · intro other mem
      rcases List.mem_cons.mp mem with rfl | mem
      · exact topic
      · exact inv.follows.topic_watched other mem
    · refine List.nodup_cons.mpr ⟨?_, inv.follows.once⟩
      intro mem
      obtain ⟨other, shown, same⟩ := List.mem_map.mp mem
      exact unshown.1 other shown same

/-- Noting a message that was received. -/
theorem note {m : Message ι ν β} (received : m ∈ w.received) : Inv (w.note m) where
  current := inv.current
  left := inv.left
  waiting_seen := fun i id h => List.mem_cons_of_mem _ (inv.waiting_seen i id h)
  waiting_unshown := inv.waiting_unshown
  waiting_once := inv.waiting_once
  shown_seen := fun row mem => List.mem_cons_of_mem _ (inv.shown_seen row mem)
  bound := by
    rcases le_total w.lastSeenTs m.ts with le | le
    · refine .inr ⟨m, received, ?_⟩
      exact (max_eq_right le).le
    · have kept : max w.lastSeenTs m.ts = w.lastSeenTs := max_eq_left le
      simpa only [Watcher.note, kept] using inv.bound
  follows := by
    refine ⟨inv.follows.topic_watched, inv.follows.once, inv.follows.asked, ?_⟩
    intro id mem
    rcases List.mem_cons.mp mem with rfl | mem
    · exact ⟨m, received, rfl⟩
    · exact inv.follows.seen id mem

/-- What was not seen is neither shown nor about to be. -/
theorem unshown {id : ι} (new : id ∉ w.seenIds) : w.Unshown id := by
  constructor
  · rintro row mem rfl
    exact new (inv.shown_seen row mem)
  · intro j waits
    exact new (inv.waiting_seen j id waits)

/-- A poll goes on with the rest of a response for the topic watched. -/
theorem setStage_looping {i : Nat} {poll : Poll ι ν β} {rest : List (Message ι ν β)}
    (at_i : w.polls[i]? = some poll) (topic : w.watched = some poll.topic)
    (received : ∀ m ∈ rest, m ∈ w.received) : Inv (w.setStage i (.looping w.starts rest)) := by
  refine inv.setStage at_i ?_ ?_
  · intro landed left h
    cases h
    exact ⟨le_rfl, fun _ => ⟨topic, received⟩⟩
  · intro id h
    cases h

variable [DecidableEq ι]

/-- Going on with messages received for the topic watched. -/
theorem loop {i : Nat} {poll : Poll ι ν β} (messages : List (Message ι ν β))
    (at_i : w.polls[i]? = some poll) (topic : w.watched = some poll.topic)
    (received : ∀ m ∈ messages, m ∈ w.received) :
    Inv (Watcher.loop i poll.topic w.starts messages w) := by
  induction messages with
  | nil => exact inv.setStage_done i
  | cons m rest ih =>
    have later : ∀ m' ∈ rest, m' ∈ w.received := fun m' mem =>
      received m' (List.mem_cons_of_mem _ mem)
    rw [Watcher.loop]
    split
    · exact ih later
    · rename_i new
      have noted : Inv (w.note m) := inv.note (received m List.mem_cons_self)
      have unshown : w.Unshown m.id := inv.unshown new
      have seen : m.id ∈ (w.note m).seenIds := List.mem_cons_self
      dsimp only
      cases body : m.body with
      | none => exact noted.setStage_done i
      | some body =>
        cases phrase : (w.note m).currentPhrase with
        | none =>
          -- without a phrase the row is put first at once
          let row : Row ι ν β := ⟨m, .locked, poll.topic⟩
          have moved : Inv ((w.note m).setStage i (.looping w.starts rest)) :=
            noted.setStage_looping at_i topic later
          have still : ((w.note m).setStage i (.looping w.starts rest)).Unshown row.message.id :=
            unshown_looping (w := w.note m) unshown.1 (fun j _ => unshown.2 j)
          have shown : Inv (((w.note m).setStage i (.looping w.starts rest)).prepend row) :=
            moved.prepend topic seen still
          exact shown
        | some phrase' =>
          refine noted.setStage at_i ?_ ?_
          · intro landed left h
            cases h
            exact ⟨le_rfl, fun _ => ⟨topic, later⟩⟩
          · intro id h
            simp only [Stage.waiting, Option.ite_none_right_eq_some, Option.some.injEq] at h
            obtain ⟨-, rfl⟩ := h
            exact ⟨seen, unshown.1, fun j _ => unshown.2 j⟩

end Inv

namespace Inv

variable {w : Watcher ι ν β} (inv : Inv w)

include inv

theorem stopWatching : Inv w.stopWatching := by
  refine ⟨?_, inv.left, inv.waiting_seen, inv.waiting_unshown, inv.waiting_once, inv.shown_seen,
    inv.bound, inv.follows.1, inv.follows.2, inv.follows.3, inv.follows.4⟩
  intro topic h
  cases h

/-- A request is made for the topic watched, with the bound that is kept. -/
theorem fetchInbox {topic : JsString} (watched : w.watched = some topic) :
    Inv (w.fetchInbox topic) := by
  have waits (i : Nat) (id : ι) (h : (w.fetchInbox topic).waitingAt i = some id) :
      w.waitingAt i = some id := waiting_concat (w.fetchInbox topic) rfl rfl h
  refine ⟨inv.current, ?_, ?_, ?_, ?_, inv.shown_seen, inv.bound, inv.follows.topic_watched,
    inv.follows.once, ?_, inv.follows.seen⟩
  · intro i poll at_i landed rest is_left
    rcases getElem?_concat at_i with at_i | rfl
    · exact inv.left i poll at_i landed rest is_left
    · cases is_left
  · intro i id h
    exact inv.waiting_seen i id (waits i id h)
  · intro i id h
    exact inv.waiting_unshown i id (waits i id h)
  · intro i j id at_i at_j
    exact inv.waiting_once i j id (waits i id at_i) (waits j id at_j)
  · intro request mem
    rcases List.mem_cons.mp mem with rfl | mem
    · refine ⟨watched, ?_⟩
      intro t is_after
      simp only [Option.ite_none_left_eq_some, Option.some.injEq] at is_after
      obtain ⟨moved, rfl⟩ := is_after
      exact inv.bound.resolve_left moved
    · exact inv.follows.asked request mem

theorem pollOnce : Inv w.pollOnce := by
  unfold Watcher.pollOnce
  cases current : w.currentTopic with
  | none => exact inv
  | some topic => exact inv.fetchInbox (inv.current topic current)

theorem receive (topic : JsString) (messages : List (Message ι ν β)) :
    Inv (w.receive topic messages) := by
  unfold Watcher.receive
  split
  · have more : ∀ m ∈ w.received, m ∈ w.received ++ messages := fun m mem =>
      List.mem_append_left _ mem
    refine ⟨inv.current, ?_, inv.waiting_seen, inv.waiting_unshown, inv.waiting_once,
      inv.shown_seen, ?_, inv.follows.topic_watched, inv.follows.once, inv.follows.asked, ?_⟩
    · intro i poll at_i landed rest is_left
      obtain ⟨le, same⟩ := inv.left i poll at_i landed rest is_left
      exact ⟨le, fun now => ⟨(same now).1, fun m mem => more m ((same now).2 m mem)⟩⟩
    · rcases inv.bound with zero | ⟨m, mem, le⟩
      · exact .inl zero
      · exact .inr ⟨m, more m mem, le⟩
    · intro id mem
      obtain ⟨m, mem, same⟩ := inv.follows.seen id mem
      exact ⟨m, more m mem, same⟩
  · exact inv

theorem pollTimer (on : Bool) : Inv { w with pollTimer := on } :=
  ⟨inv.current, inv.left, inv.waiting_seen, inv.waiting_unshown, inv.waiting_once, inv.shown_seen,
    inv.bound, inv.follows.1, inv.follows.2, inv.follows.3, inv.follows.4⟩

/-- A start takes nothing over but the polls, which all landed before it. -/
theorem startWatching (topic phrase : JsString) : Inv (w.startWatching topic phrase) := by
  unfold Watcher.startWatching
  dsimp only
  split
  · exact inv
  · refine (pollOnce ?_).pollTimer true
    -- what polls have left landed after fewer starts
    have waits {i : Nat} {id : ι}
        (h : (w.polls[i]?).bind (·.stage.waiting (w.starts + 1)) = some id) : False := by
      obtain ⟨poll, at_i, waiting⟩ := Option.bind_eq_some_iff.mp h
      obtain ⟨rest, is_left⟩ := waiting_left waiting
      have le := (inv.left i poll at_i _ rest is_left).1
      omega
    refine ⟨fun _ h => h, ?_, ?_, ?_, ?_, ?_, .inl rfl, ?_, ?_, inv.follows.asked, ?_⟩
    · intro i poll at_i landed rest is_left
      have le := (inv.left i poll at_i landed rest is_left).1
      refine ⟨Nat.le_succ_of_le le, ?_⟩
      intro now
      dsimp only at now
      omega
    · intro i id h
      exact (waits h).elim
    · intro i id h
      exact (waits h).elim
    · intro i j id h
      exact (waits h).elim
    · intro row mem
      cases mem
    · intro row mem
      cases mem
    · exact List.nodup_nil
    · intro id mem
      cases mem

end Inv

/-! ## Runs -/

variable [DecidableEq ι] {decrypt : β → JsString → Option JsString}

theorem step_inv {w : Watcher ι ν β} (inv : Inv w) {e : Event ι ν β} (fresh : Fresh w e) :
    Inv (w.step decrypt e) := by
  cases e with
  | startWatching topic phrase => exact inv.startWatching topic phrase
  | stopWatching => exact inv.stopWatching
  | tick =>
    simp only [Watcher.step]
    split
    · exact inv.pollOnce
    · exact inv
  | responded i messages =>
    simp only [Watcher.step]
    split
    · rename_i topic at_i
      simp only [Fresh, at_i] at fresh
      by_cases watched : w.watched = some topic
      · have received := inv.receive topic messages
        rw [Watcher.receive, if_pos watched] at received ⊢
        exact received.loop messages at_i watched fun m mem => List.mem_append_right _ mem
      · rw [Watcher.receive, if_neg watched, loop_seen (fresh.resolve_left watched)]
        exact inv.setStage_done i
    · exact inv
  | failed i =>
    simp only [Watcher.step]
    split
    · exact inv.setStage_done i
    · exact inv
  | decrypted i =>
    simp only [Watcher.step]
    split
    · rename_i topic landed m body phrase rest at_i
      simp only [Fresh, at_i] at fresh
      subst fresh
      obtain ⟨watched, later⟩ := (inv.left i _ at_i _ rest rfl).2 rfl
      have waits : w.waitingAt i = some m.id := by
        simp [Watcher.waitingAt, at_i, Stage.waiting]
      have rows := inv.waiting_unshown i m.id waits
      have others : ∀ j ≠ i, w.waitingAt j ≠ some m.id := by
        intro j ne at_j
        exact ne (inv.waiting_once j i m.id at_j waits)
      exact (inv.setStage_looping at_i watched later).prepend watched (inv.waiting_seen i _ waits)
        (unshown_looping rows others)
    · exact inv
  | resumed i =>
    simp only [Watcher.step]
    split
    · rename_i topic landed rest at_i
      simp only [Fresh, at_i] at fresh
      rcases fresh with rfl | seen
      · obtain ⟨watched, later⟩ := (inv.left i _ at_i _ rest rfl).2 rfl
        exact inv.loop rest at_i watched later
      · rw [loop_seen seen]
        exact inv.setStage_done i
    · exact inv

/-- In every run whose steps are fresh, what is shown and asked for follows the
topic watched. -/
theorem watcher_follows {events : List (Event ι ν β)}
    (fresh : Run.Along (Watcher.step decrypt) Fresh (initial ι ν β) events) :
    ∀ before, before <+: events → Follows (run (Watcher.step decrypt) (initial ι ν β) before) := by
  intro before early
  exact (fresh.invariant inv_initial (fun _ _ inv meets => step_inv inv meets) before early).follows

/-- One topic is watched with a phrase and then another without. -/
theorem watcher_follows_switch :
    Follows (run (Watcher.step fun (body phrase : JsString) => some (body ++ phrase))
      (initial Nat Nat JsString)
      [.startWatching (js "alarms") (js "pass"), .tick, .responded 0 [⟨7, 40, some (js "x")⟩],
        .decrypted 0, .resumed 0, .responded 1 [⟨7, 40, some (js "x")⟩], .stopWatching,
        .startWatching (js " doors") [], .responded 2 [⟨3, 9, some (js "y")⟩], .tick]) := by
  refine watcher_follows ?_ _ List.prefix_rfl
  exact ⟨trivial, trivial, .inl (by decide), rfl, .inl (by decide),
    .inl (by decide), trivial, trivial, .inl (by decide), trivial, trivial⟩

/-- The answer for the topic watched before is shown under the next one. -/
theorem stale_response_shown :
    ¬ Follows (run (Watcher.step fun (body phrase : JsString) => some (body ++ phrase))
      (initial Nat Nat JsString)
      [.startWatching (js "alarms") [], .startWatching (js "doors") [],
        .responded 0 [⟨7, 40, some (js "x")⟩]]) := by
  intro follows
  have mixed := follows.topic_watched ⟨⟨7, 40, some (js "x")⟩, .locked, js "alarms"⟩
    (by decide)
  revert mixed
  decide

end Qev.Notify
