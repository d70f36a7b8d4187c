import Qev.Lib.Run
import Qev.Ui.Chat

/-! The open thread (`chat-ui.js`): threads are opened and left, locked and
unlocked while replies to `chat_get_history` are on their way, and a dialog and
the pane read which thread is open only when they go on. -/

namespace Qev.Ui

open Js (JsString js)
open Cli (get)
open Notify (trim)

/-! ## State -/

/-- What was rendered last: whose messages, and their bubbles. -/
structure Pane where
  peerId : Option PublicHex
  msgs : List ChatMessage
  bubbles : List Bubble

/-- A key that a dialog's phrase was made into, and for whom the dialog had been
opened. -/
structure Keyed where
  opened_for : PublicHex
  peerId : PublicHex
  phrase : JsString

/-- `pending` is a dialog that waits. The peer in it and the last field are read by
no step but to keep them. -/
structure Thread where
  session : Session
  active : Option (PublicHex × JsString)
  pending : Option PublicHex
  outstanding : List (Option PublicHex)
  pane : Option Pane
  keyed : List Keyed

/-- `sent` is the end of a call of `chat_send`, `fetched` that of a poll with new
messages; a reply comes to any of the requests, with the history or without. -/
inductive Event where
  | openChat (peerId : PublicHex) (peerName : JsString)
  | back
  | promptUnlock
  | submit (typed : JsString)
  | cancel
  | doLock
  | sent
  | fetched
  | reply (index : Nat) (msgs : Option (List ChatMessage))

namespace Thread

/-- No key is in memory, and no thread open. -/
def start (ownPkHex : Option PublicHex) : Thread :=
  ⟨⟨ownPkHex, fun _ => none⟩, none, none, [], none, []⟩

def activePeerId (t : Thread) : Option PublicHex := t.active.map Prod.fst

def loadMessages (t : Thread) (peerId : Option PublicHex) : Thread :=
  { t with outstanding := t.outstanding ++ [peerId] }

def keep (t : Thread) (session : Session) (k : Keyed) : Thread :=
  { t with session, keyed := t.keyed ++ [k] }

/-- The phrase goes to whoever is active now; without a peer, no key is derived. -/
def unlock (t : Thread) (hash : Generichash) (opened_for : PublicHex) (phrase : JsString) :
    Thread :=
  match t.activePeerId with
  | none => t
  | some peerId =>
    match t.session.setPhraseKey hash peerId phrase with
    | (session, true) => (t.keep session ⟨opened_for, peerId, phrase⟩).loadMessages peerId
    | (_, false) => t

section Step

variable (hash : Generichash) (decrypt : (key nonce aad ciphertext : Bytes) → Option Bytes)

/-- A request without a peer is refused. -/
def render (t : Thread) (msgs : List ChatMessage) : Option PublicHex → Pane
  | some peerId => ⟨some peerId, msgs, t.session.renderMessages decrypt msgs peerId⟩
  | none => ⟨none, [], []⟩

def step (t : Thread) : Event → Thread
  | .openChat peerId peerName => { t with active := some (peerId, peerName) }.loadMessages peerId
  | .back => { t with active := none }
  | .promptUnlock =>
    match t.active with
    | none => t
    | some (peerId, peerName) => if peerName = [] then t else { t with pending := some peerId }
  | .submit typed =>
    match t.pending with
    | none => t
    | some opened_for =>
      let t := { t with pending := none }
      if trim typed = [] then t else t.unlock hash opened_for (trim typed)
  | .cancel => { t with pending := none }
  | .doLock =>
    match t.activePeerId with
    | none => t
    | some peerId => { t with session := t.session.wipePhraseKey peerId }.loadMessages peerId
  | .sent => t.loadMessages t.activePeerId
  | .fetched => if t.activePeerId.isSome then t.loadMessages t.activePeerId else t
  | .reply index msgs =>
    match t.outstanding[index]? with
    | none => t
    | some peerId =>
      { t with
        outstanding := t.outstanding.eraseIdx index,
        pane := some (t.render decrypt (msgs.getD []) peerId) }

end Step

end Thread

/-! ## What a step can do to what is displayed -/

section Steps

variable {hash : Generichash} {decrypt : (key nonce aad ciphertext : Bytes) → Option Bytes}
  {t : Thread} {e : Event}

/-- A phrase is used for who is active, whose history is asked for, where the own
key is known. -/
theorem unlock_cases (hash : Generichash) (t : Thread) (opened_for : PublicHex)
    (phrase : JsString) :
    (t.activePeerId = none ∨ t.session.ownPkHex = none) ∧ t.unlock hash opened_for phrase = t ∨
    ∃ own peerId, t.session.ownPkHex = some own ∧ t.activePeerId = some peerId ∧
      t.unlock hash opened_for phrase = (t.keep (t.session.setPhraseKey hash peerId phrase).1
        ⟨opened_for, peerId, phrase⟩).loadMessages (some peerId) := by
  rw [Thread.unlock]
  cases active : t.activePeerId with
  | none => exact .inl ⟨.inl rfl, rfl⟩
  | some peerId =>
    cases loaded : t.session.ownPkHex with
    | none =>
      left
      simp [Session.setPhraseKey, Session.deriveKey, loaded]
    | some own =>
      right
      refine ⟨own, peerId, rfl, rfl, ?_⟩
      simp only [Session.setPhraseKey, Session.deriveKey, loaded]

/-- A step asks for the history of whom it leaves active, or it is a reply, or it
leaves the keys, the requests and the pane as they were. -/
theorem step_cases (hash : Generichash)
    (decrypt : (key nonce aad ciphertext : Bytes) → Option Bytes) (t : Thread) (e : Event) :
    (∃ s : Thread, t.step hash decrypt e = s.loadMessages s.activePeerId ∧
      s.outstanding = t.outstanding) ∨
    (∃ index msgs peerId, e = .reply index msgs ∧ t.outstanding[index]? = some peerId ∧
      t.step hash decrypt e = { t with
        outstanding := t.outstanding.eraseIdx index,
        pane := some (t.render decrypt (msgs.getD []) peerId) }) ∨
    ((t.step hash decrypt e).session = t.session ∧
      (t.step hash decrypt e).outstanding = t.outstanding ∧
      (t.step hash decrypt e).pane = t.pane ∧
      ((t.step hash decrypt e).active = t.active ∨ (t.step hash decrypt e).active = none)) := by
  cases e with
  | openChat peerId peerName => exact .inl ⟨{ t with active := some (peerId, peerName) }, rfl, rfl⟩
  | back => exact .inr (.inr ⟨rfl, rfl, rfl, .inr rfl⟩)
  | promptUnlock =>
    right; right
    rw [Thread.step]
    cases active : t.active with
    | none => simp [active]
    | some peer =>
      dsimp only
      split <;> simp [active]
  | submit typed =>
    rw [Thread.step]
    cases pending : t.pending with
    | none => simp
    | some opened_for =>
      dsimp only
      split
      · simp
      · rcases unlock_cases hash { t with pending := none } opened_for (trim typed) with
          ⟨-, same⟩ | used
        · rw [same]
          simp
        · obtain ⟨own, peerId, -, active, unlocked⟩ := used
          left
          rw [unlocked]
          exact ⟨_, congrArg _ active.symm, rfl⟩
  | cancel => exact .inr (.inr ⟨rfl, rfl, rfl, .inl rfl⟩)
  | doLock =>
    rw [Thread.step]
    cases active : t.activePeerId with
    | none => simp
    | some peerId =>
      refine .inl ⟨{ t with session := t.session.wipePhraseKey peerId }, ?_, rfl⟩
      exact congrArg (Thread.loadMessages _) active.symm
  | sent => exact .inl ⟨t, rfl, rfl⟩
  | fetched =>
    rw [Thread.step]
    split
    · exact .inl ⟨t, rfl, rfl⟩
    · simp
  | reply index msgs =>
    rw [Thread.step]
    cases requested : t.outstanding[index]? with
    | none => simp
    | some peerId => exact .inr (.inl ⟨index, msgs, peerId, rfl, requested, rfl⟩)

/-! ## When no reply is outstanding -/

/-- The pane is what would be rendered now. -/
def Current (decrypt : (key nonce aad ciphertext : Bytes) → Option Bytes) (t : Thread) : Prop :=
  ∀ pane ∈ t.pane, pane = t.render decrypt pane.msgs pane.peerId

theorem render_current (decrypt : (key nonce aad ciphertext : Bytes) → Option Bytes) (t : Thread)
    (msgs : List ChatMessage) (peerId : Option PublicHex) :
    t.render decrypt msgs peerId = t.render decrypt (t.render decrypt msgs peerId).msgs
      (t.render decrypt msgs peerId).peerId := by
  cases peerId with
  | none => rfl
  | some peerId => rfl

theorem render_congr {s t : Thread} (session : s.session = t.session) {msgs : List ChatMessage}
    {peerId : Option PublicHex} : s.render decrypt msgs peerId = t.render decrypt msgs peerId := by
  cases peerId with
  | none => rfl
  | some peerId => rw [Thread.render, Thread.render, session]

theorem peerId_render (msgs : List ChatMessage) (peerId : Option PublicHex) :
    (t.render decrypt msgs peerId).peerId = peerId := by
  cases peerId with
  | none => rfl
  | some peerId => rfl

/-- What a locked thread shows of a text: the ciphertext that is in it. -/
def ciphertext (rawText : JsString) : JsString :=
  match envelopeOf rawText with
  | none => rawText
  | some env => (get env "ct").elim [] Js.display

/-- While no reply is outstanding, the pane shows the messages of the peer that is
active, as they are rendered now, and as ciphertext where that peer is locked. -/
def Shown (decrypt : (key nonce aad ciphertext : Bytes) → Option Bytes) (t : Thread) : Prop :=
  t.outstanding = [] → ∀ peerId, t.activePeerId = some peerId →
    ∃ msgs, t.pane = some ⟨some peerId, msgs, t.session.renderMessages decrypt msgs peerId⟩ ∧
      (t.session.phraseKeys peerId = none →
        (t.session.renderMessages decrypt msgs peerId).map Bubble.displayText =
          msgs.map fun msg => ciphertext msg.text)

/-- While no reply is outstanding, the pane is of the peer that is active. -/
def Selected (t : Thread) : Prop :=
  t.outstanding = [] → ∀ peerId, t.activePeerId = some peerId →
    t.pane.bind Pane.peerId = some peerId

/-- The reply that leaves none outstanding is to the request for the active peer. -/
def Answers (t : Thread) : Event → Prop
  | .reply index _ => ∀ asked peerId, t.outstanding = [asked] → index = 0 →
      t.activePeerId = some peerId → asked = some peerId
  | _ => True

/-- Each reply is to the request that was made first of those outstanding. -/
def InOrder : Event → Prop
  | .reply index _ => index = 0
  | _ => True

/-- Who is active was asked for last, or is in the pane. -/
def Led (t : Thread) : Prop :=
  ∀ peerId, t.activePeerId = some peerId →
    t.outstanding.getLast? = some (some peerId) ∨
      t.outstanding = [] ∧ t.pane.bind Pane.peerId = some peerId

theorem loadMessages_ne_nil (s : Thread) (peerId : Option PublicHex) :
    (s.loadMessages peerId).outstanding ≠ [] :=
  List.append_ne_nil_of_right_ne_nil _ (List.cons_ne_nil _ _)

theorem displayText_locked {s : Session} {peerId : PublicHex} (locked : s.phraseKeys peerId = none)
    (decrypt : (key nonce aad ciphertext : Bytes) → Option Bytes) (msgs : List ChatMessage) :
    (s.renderMessages decrypt msgs peerId).map Bubble.displayText =
      msgs.map fun msg => ciphertext msg.text := by
  rw [Session.renderMessages, List.map_map]
  apply List.map_congr_left
  intro msg _
  change (s.displayed decrypt msg.text peerId).1 = ciphertext msg.text
  rw [Session.displayed, ciphertext, locked]
  cases envelopeOf msg.text with
  | none => rfl
  | some env => rfl

theorem shown_of_selected (current : t.outstanding = [] → Current decrypt t)
    (selected : Selected t) : Shown decrypt t := by
  intro quiet peerId active
  obtain ⟨pane, here, shown⟩ := Option.bind_eq_some_iff.mp (selected quiet peerId active)
  refine ⟨pane.msgs, ?_, fun locked => displayText_locked locked decrypt pane.msgs⟩
  rw [here, current quiet pane here, shown]
  rfl

theorem Shown.selected (shown : Shown decrypt t) : Selected t := by
  intro quiet peerId active
  obtain ⟨msgs, pane, -⟩ := shown quiet peerId active
  rw [pane]
  rfl

theorem step_current (quiet : t.outstanding = [] → Current decrypt t)
    (none : (t.step hash decrypt e).outstanding = []) :
    Current decrypt (t.step hash decrypt e) := by
  rcases step_cases hash decrypt t e with ⟨s, asked, -⟩ | replied | same
  · rw [asked] at none
    exact absurd none (loadMessages_ne_nil s _)
  · obtain ⟨index, msgs, peerId, -, -, replied⟩ := replied
    rw [replied]
    intro pane here
    obtain rfl := Option.some.inj here
    exact render_current decrypt t _ peerId
  · obtain ⟨session, outstanding, pane, -⟩ := same
    have before := quiet (outstanding ▸ none)
    intro shown here
    rw [pane] at here
    rw [render_congr session]
    exact before shown here

/-- The request that is left over, if the reply to the only one leaves none. -/
theorem eq_singleton_of_eraseIdx {asked : Option PublicHex} {index : Nat}
    {outstanding : List (Option PublicHex)} (requested : outstanding[index]? = some asked)
    (none : outstanding.eraseIdx index = []) : outstanding = [asked] ∧ index = 0 := by
  cases outstanding with
  | nil => cases requested
  | cons first rest =>
    cases index with
    | zero =>
      rw [List.eraseIdx_cons_zero] at none
      rw [List.getElem?_cons_zero] at requested
      exact ⟨by rw [none, Option.some.inj requested], rfl⟩
    | succ index => cases none

theorem step_selected (selected : Selected t) (answers : Answers t e) :
    Selected (t.step hash decrypt e) := by
  rcases step_cases hash decrypt t e with ⟨s, asked, -⟩ | replied | same
  · intro none
    rw [asked] at none
    exact absurd none (loadMessages_ne_nil s _)
  · obtain ⟨index, msgs, asked, rfl, requested, replied⟩ := replied
    rw [replied]
    intro none peerId active
    obtain ⟨only, first⟩ := eq_singleton_of_eraseIdx requested none
    obtain rfl := answers asked peerId only first active
    exact peerId_render _ _
  · obtain ⟨session, outstanding, pane, active⟩ := same
    intro none peerId here
    rw [outstanding] at none
    rw [pane]
    rcases active with kept | left
    · exact selected none peerId ((congrArg _ kept).symm.trans here)
    · rw [Thread.activePeerId, left] at here
      cases here

theorem answers_of_selected (selected : Selected (t.step hash decrypt e)) : Answers t e := by
  cases e with
  | reply index msgs =>
    intro asked peerId only first active
    subst first
    have replied : t.step hash decrypt (.reply 0 msgs) = { t with
        outstanding := [],
        pane := some (t.render decrypt (msgs.getD []) asked) } := by
      rw [Thread.step, only]
      rfl
    rw [replied] at selected
    exact (peerId_render _ _).symm.trans (selected rfl peerId active)
  | openChat | back | promptUnlock | submit | cancel | doLock | sent | fetched => trivial

theorem step_led (led : Led t) (in_order : InOrder e) : Led (t.step hash decrypt e) := by
  rcases step_cases hash decrypt t e with ⟨s, asked, -⟩ | replied | same
  · intro peerId active
    left
    rw [asked] at active ⊢
    rw [← active]
    exact List.getLast?_concat
  · obtain ⟨index, msgs, peerId, rfl, requested, replied⟩ := replied
    obtain rfl : index = 0 := in_order
    intro active here
    rw [replied] at here ⊢
    cases waiting : t.outstanding with
    | nil => simp [waiting] at requested
    | cons first rest =>
      rw [waiting, List.getElem?_cons_zero] at requested
      obtain rfl := Option.some.inj requested
      rcases led active here with last | ⟨none, -⟩
      · rw [waiting] at last
        cases rest with
        | nil =>
          obtain rfl := Option.some.inj last
          exact .inr ⟨rfl, peerId_render _ _⟩
        | cons second rest =>
          left
          rw [List.eraseIdx_cons_zero, ← last, List.getLast?_cons_cons]
      · rw [waiting] at none
        cases none
  · obtain ⟨session, outstanding, pane, active⟩ := same
    intro peerId here
    rw [outstanding, pane]
    rcases active with kept | left
    · exact led peerId ((congrArg _ kept).symm.trans here)
    · rw [Thread.activePeerId, left] at here
      cases here

theorem Led.answers (led : Led t) : Answers t e := by
  cases e with
  | reply index msgs =>
    intro asked peerId only first active
    rcases led peerId active with last | ⟨none, -⟩
    · rw [only] at last
      exact Option.some.inj last
    · rw [only] at none
      cases none
  | openChat | back | promptUnlock | submit | cancel | doLock | sent | fetched => trivial

end Steps

/-! ## Whose key a phrase becomes -/

/-- Every key in memory is of a phrase that was typed while its peer was active. -/
def Derived (hash : Generichash) (t : Thread) : Prop :=
  ∀ peerId key, t.session.phraseKeys peerId = some key →
    ∃ own, t.session.ownPkHex = some own ∧ ∃ k ∈ t.keyed, k.peerId = peerId ∧
      key = hash (combined k.phrase (own.ids peerId))

/-- The phrase goes to the peer that its dialog was opened for, or to none. -/
def Meant (t : Thread) : Event → Prop
  | .submit typed => trim typed = [] ∨ t.session.ownPkHex = none ∨
      ∀ opened_for peerId, t.pending = some opened_for → t.activePeerId = some peerId →
        opened_for = peerId
  | _ => True

/-- The dialog is closed before another thread is opened or this one left. -/
def Modal (t : Thread) : Event → Prop
  | .openChat peerId _ => ∀ opened_for, t.pending = some opened_for → opened_for = peerId
  | _ => True

section Keys

variable {hash : Generichash} {decrypt : (key nonce aad ciphertext : Bytes) → Option Bytes}
  {t : Thread} {e : Event}

/-- A step keys the active peer, wipes its key, or leaves the keys as they were. -/
theorem keys_cases (hash : Generichash)
    (decrypt : (key nonce aad ciphertext : Bytes) → Option Bytes) (t : Thread) (e : Event) :
    (∃ typed own opened_for peerId, e = .submit typed ∧ trim typed ≠ [] ∧
      t.session.ownPkHex = some own ∧ t.pending = some opened_for ∧
      t.activePeerId = some peerId ∧
      (t.step hash decrypt e).session = (t.session.setPhraseKey hash peerId (trim typed)).1 ∧
      (t.step hash decrypt e).keyed = t.keyed ++ [⟨opened_for, peerId, trim typed⟩]) ∨
    (t.step hash decrypt e).keyed = t.keyed ∧ Meant t e ∧
      ((t.step hash decrypt e).session = t.session ∨
        ∃ peerId, (t.step hash decrypt e).session = t.session.wipePhraseKey peerId) := by
  cases e with
  | openChat peerId peerName => exact .inr ⟨rfl, trivial, .inl rfl⟩
  | back => exact .inr ⟨rfl, trivial, .inl rfl⟩
  | promptUnlock =>
    right
    rw [Thread.step]
    cases t.active with
    | none => exact ⟨rfl, trivial, .inl rfl⟩
    | some peer =>
      dsimp only
      split <;> exact ⟨rfl, trivial, .inl rfl⟩
  | submit typed =>
    rw [Thread.step, Meant]
    cases pending : t.pending with
    | none =>
      refine .inr ⟨rfl, .inr (.inr ?_), .inl rfl⟩
      intro opened_for peerId none
      cases none
    | some opened_for =>
      dsimp only
      split
      · rename_i empty
        exact .inr ⟨rfl, .inl empty, .inl rfl⟩
      · rename_i some_phrase
        rcases unlock_cases hash { t with pending := none } opened_for (trim typed) with
          ⟨unused, same⟩ | used
        · rw [same]
          refine .inr ⟨rfl, ?_, .inl rfl⟩
          rcases unused with left | unloaded
          · refine .inr (.inr ?_)
            intro _ peerId _ active
            exact absurd (active.symm.trans left) (Option.some_ne_none peerId)
          · exact .inr (.inl unloaded)
        · obtain ⟨own, peerId, loaded, active, unlocked⟩ := used
          rw [unlocked]
          exact .inl ⟨typed, own, opened_for, peerId, rfl, some_phrase, loaded, rfl, active, rfl,
            rfl⟩
  | cancel => exact .inr ⟨rfl, trivial, .inl rfl⟩
  | doLock =>
    right
    rw [Thread.step]
    cases t.activePeerId with
    | none => exact ⟨rfl, trivial, .inl rfl⟩
    | some peerId => exact ⟨rfl, trivial, .inr ⟨peerId, rfl⟩⟩
  | sent => exact .inr ⟨rfl, trivial, .inl rfl⟩
  | fetched =>
    right
    rw [Thread.step]
    split <;> exact ⟨rfl, trivial, .inl rfl⟩
  | reply index msgs =>
    right
    rw [Thread.step]
    cases t.outstanding[index]? with
    | none => exact ⟨rfl, trivial, .inl rfl⟩
    | some peerId => exact ⟨rfl, trivial, .inl rfl⟩

theorem step_derived (derived : Derived hash t) : Derived hash (t.step hash decrypt e) := by
  intro peerId key here
  rcases keys_cases hash decrypt t e with used | ⟨keyed, -, session⟩
  · obtain ⟨typed, own, opened_for, active, -, -, loaded, -, -, session, keyed⟩ := used
    rw [session, setPhraseKey_loaded loaded] at here
    dsimp only at here
    rw [keyed, session, setPhraseKey_loaded loaded]
    refine ⟨own, loaded, ?_⟩
    by_cases same : peerId = active
    · subst same
      rw [Function.update_self] at here
      have last := List.mem_append_right t.keyed (List.mem_singleton_self
        (⟨opened_for, peerId, trim typed⟩ : Keyed))
      exact ⟨_, last, rfl, (Option.some.inj here).symm⟩
    · rw [Function.update_of_ne same] at here
      obtain ⟨own', loaded', k, mem, rest⟩ := derived peerId key here
      obtain rfl := Option.some.inj (loaded.symm.trans loaded')
      exact ⟨k, List.mem_append_left _ mem, rest⟩
  · rw [keyed]
    rcases session with same | ⟨wiped, session⟩
    · rw [same] at here ⊢
      exact derived peerId key here
    · rw [session, Session.wipePhraseKey] at here ⊢
      dsimp only at here
      by_cases same : peerId = wiped
      · subst same
        rw [Function.update_self] at here
        cases here
      · rw [Function.update_of_ne same] at here
        exact derived peerId key here

/-- No key was made for another peer than its dialog's. -/
def ForItsPeer (t : Thread) : Prop := ∀ k ∈ t.keyed, k.opened_for = k.peerId

theorem step_forItsPeer (kept : ForItsPeer t) (meant : Meant t e) :
    ForItsPeer (t.step hash decrypt e) := by
  rcases keys_cases hash decrypt t e with used | ⟨keyed, -, -⟩
  · obtain ⟨typed, own, opened_for, peerId, rfl, some_phrase, loaded, pending, active, -, keyed⟩ :=
      used
    rw [ForItsPeer, keyed, List.forall_mem_append]
    refine ⟨kept, List.forall_mem_singleton.mpr ?_⟩
    rcases meant with empty | unloaded | same
    · exact absurd empty some_phrase
    · rw [loaded] at unloaded
      cases unloaded
    · exact same opened_for peerId pending active
  · rw [ForItsPeer, keyed]
    exact kept

theorem meant_of_forItsPeer (kept : ForItsPeer (t.step hash decrypt e)) : Meant t e := by
  rcases keys_cases hash decrypt t e with used | ⟨-, meant, -⟩
  · obtain ⟨typed, own, opened_for, peerId, rfl, -, -, pending, active, -, keyed⟩ := used
    rw [ForItsPeer, keyed, List.forall_mem_append] at kept
    have last := List.forall_mem_singleton.mp kept.2
    refine .inr (.inr ?_)
    intro opened_for' peerId' pending' active'
    obtain rfl := Option.some.inj (pending.symm.trans pending')
    obtain rfl := Option.some.inj (active.symm.trans active')
    exact last
  · exact meant

/-- The dialog is of the peer that is active. -/
def Attended (t : Thread) : Prop :=
  ∀ opened_for peerId, t.pending = some opened_for → t.activePeerId = some peerId →
    opened_for = peerId

theorem step_attended (attended : Attended t) (modal : Modal t e) :
    Attended (t.step hash decrypt e) := by
  cases e with
  | openChat peerId peerName =>
    intro opened_for active pending here
    obtain rfl := Option.some.inj here
    exact modal opened_for pending
  | back =>
    intro opened_for active pending here
    cases here
  | promptUnlock =>
    rw [Thread.step]
    cases active : t.active with
    | none => exact attended
    | some peer =>
      dsimp only
      split
      · exact attended
      · intro opened_for peerId pending here
        exact Option.some.inj (pending.symm.trans here)
  | submit typed =>
    intro opened_for active pending
    exfalso
    rw [Thread.step] at pending
    cases waiting : t.pending with
    | none =>
      rw [waiting] at pending
      exact Option.some_ne_none opened_for (pending.symm.trans waiting)
    | some peerId =>
      rw [waiting] at pending
      dsimp only at pending
      split at pending
      · cases pending
      · rcases unlock_cases hash { t with pending := none } peerId (trim typed) with
          ⟨-, same⟩ | used
        · rw [same] at pending
          cases pending
        · obtain ⟨own, active, -, -, unlocked⟩ := used
          rw [unlocked] at pending
          cases pending
  | cancel =>
    intro opened_for active pending
    cases pending
  | doLock =>
    rw [Thread.step]
    cases t.activePeerId with
    | none => exact attended
    | some peerId => exact attended
  | sent => exact attended
  | fetched =>
    rw [Thread.step]
    split <;> exact attended
  | reply index msgs =>
    rw [Thread.step]
    cases t.outstanding[index]? with
    | none => exact attended
    | some peerId => exact attended

theorem Attended.meant (attended : Attended t) : Meant t e := by
  cases e with
  | submit typed => exact .inr (.inr attended)
  | openChat | back | promptUnlock | cancel | doLock | sent | fetched | reply => trivial

end Keys

def carol : PublicHex := samplePk (Js.ascii 'c') (by decide)

end Qev.Ui
