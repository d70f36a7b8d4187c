import Qev.Desktop.Inbox

/-! Whether an envelope is handed over before the client acks it away. -/

namespace Qev.Desktop

open Relay (FetchedEnvelope Pk)

/-- The interface was given the envelope with its whole payload. -/
def ShownWhole (s : App) (env : FetchedEnvelope) : Prop :=
  ∃ row ∈ s.shown, row.id = Hex.hex env.id.val ∧ Utf8.encode row.payload.toList = env.bytes

/-- A chat envelope is in the saved history, any other was shown whole. -/
def HandedOver (serde : SerdeJson) (s : App) (env : FetchedEnvelope) : Prop :=
  if IsChat serde env then env ∈ s.persisted else ShownWhole s env

/-- Everything the client has acked was handed over. -/
def AcksSafe (serde : SerdeJson) (s : App) : Prop := ∀ env ∈ s.acked, HandedOver serde s env

/-- Where `renderInbox` is about to show a page and ack it: the poller has
saved the chat envelopes on it, and the others are well-formed text. -/
def Careful (serde : SerdeJson) (s : App) : Event → Prop
  | .render k => ∀ envelopes, s.refreshes[k]? = some envelopes → ∀ env ∈ envelopes,
      if IsChat serde env then env ∈ s.persisted else Utf8.Valid env.bytes
  | _ => True

/-- What the poller's calls hold: they save what they append and ack what they
saved, chat envelopes all. -/
structure Inv (serde : SerdeJson) (s : App) : Prop where
  to_ack : ∀ call ∈ s.calls, ∀ env ∈ call.to_ack, IsChat serde env ∧ env ∈ s.persisted
  saving : ∀ call ∈ s.calls, ∀ env, call.saving = some env → IsChat serde env ∧ env ∈ s.appended
  persisted : ∀ env ∈ s.persisted, env ∈ s.appended

variable {serde : SerdeJson} {own : Pk} {s : App}

theorem inv_start (relay : Relay.InMemoryStore) (chat : ChatStore) :
    Inv serde (.start relay chat) where
  to_ack := nofun
  saving := nofun
  persisted := nofun

/-- The calls of a step's outcome are old ones, apart from one that is known. -/
theorem mem_set_cases {calls : List ChatCall} {k : Nat} {new call : ChatCall}
    (h : call ∈ calls.set k new) : call = new ∨ call ∈ calls :=
  (List.mem_or_eq_of_mem_set h).symm

theorem inv_next (inv : Inv serde s) {k : Nat} {call : ChatCall} (mem : s.calls[k]? = some call)
    (new_id : String) (now_ms : UInt64) : Inv serde (s.next serde k call new_id now_ms) := by
  have here : call ∈ s.calls := List.mem_of_getElem? mem
  unfold App.next
  split
  · rename_i env todo idle listed
    split
    · refine ⟨?_, ?_, inv.persisted⟩
      · intro c hc env' henv
        rcases mem_set_cases hc with rfl | old
        · exact inv.to_ack call here env' henv
        · exact inv.to_ack c old env' henv
      · intro c hc env' henv
        rcases mem_set_cases hc with rfl | old
        · exact inv.saving call here env' henv
        · exact inv.saving c old env' henv
    · rename_i v chat
      refine ⟨?_, ?_, ?_⟩
      · intro c hc env' henv
        rcases mem_set_cases hc with rfl | old
        · exact inv.to_ack call here env' henv
        · exact inv.to_ack c old env' henv
      · intro c hc env' henv
        rcases mem_set_cases hc with rfl | old
        · cases henv
          exact ⟨by simp [IsChat, chat], by simp⟩
        · obtain ⟨isChat, old⟩ := inv.saving c old env' henv
          exact ⟨isChat, List.mem_append_left _ old⟩
      · intro env' henv
        exact List.mem_append_left _ (inv.persisted env' henv)
  · exact inv

theorem inv_save (inv : Inv serde s) {k : Nat} {call : ChatCall} (mem : s.calls[k]? = some call)
    (saves : Bool) : Inv serde (s.save k call saves) := by
  have here : call ∈ s.calls := List.mem_of_getElem? mem
  unfold App.save
  split
  · exact inv
  · rename_i env saving
    split
    · refine ⟨?_, ?_, fun _ h => h⟩
      · intro c hc env' henv
        rcases mem_set_cases hc with rfl | old
        · rcases List.mem_append.mp henv with earlier | last
          · obtain ⟨isChat, kept⟩ := inv.to_ack call here env' earlier
            exact ⟨isChat, inv.persisted env' kept⟩
          · obtain rfl := List.mem_singleton.mp last
            exact inv.saving call here env' saving
        · obtain ⟨isChat, kept⟩ := inv.to_ack c old env' henv
          exact ⟨isChat, inv.persisted env' kept⟩
      · intro c hc env' henv
        rcases mem_set_cases hc with rfl | old
        · cases henv
        · exact inv.saving c old env' henv
    · refine ⟨?_, ?_, inv.persisted⟩
      · intro c hc
        exact inv.to_ack c (List.mem_of_mem_eraseIdx hc)
      · intro c hc
        exact inv.saving c (List.mem_of_mem_eraseIdx hc)

theorem inv_finish (inv : Inv serde s) (k : Nat) (call : ChatCall) :
    Inv serde (s.finish k call) := by
  have erased : Inv serde { s with calls := s.calls.eraseIdx k } :=
    ⟨fun c hc => inv.to_ack c (List.mem_of_mem_eraseIdx hc),
      fun c hc => inv.saving c (List.mem_of_mem_eraseIdx hc), inv.persisted⟩
  unfold App.finish
  split
  · dsimp only
    split
    · exact erased
    · exact { erased with }
  · exact inv

theorem parse_ids (envelopes : List FetchedEnvelope) :
    ((envelopes.map relay_envelope).mapM fun e => parse_envelope_id e.id) =
      .ok (envelopes.map FetchedEnvelope.id) := by
  induction envelopes with
  | nil => rfl
  | cons env envelopes ih =>
    rw [List.map_cons, List.mapM_cons, ih, relay_envelope, parse_envelope_id_hex]
    rfl

/-- `renderInbox` shows the page and acks all of it. -/
theorem render_eq (s : App) (k : Nat) (envelopes : List FetchedEnvelope) :
    ∃ acks, s.render k envelopes =
      { s with
        refreshes := s.refreshes.eraseIdx k
        inbox_list := envelopes.map relay_envelope
        shown := s.shown ++ envelopes.map relay_envelope
        acks := acks
        acked := s.acked ++ envelopes } := by
  cases envelopes with
  | nil => exact ⟨s.acks, by simp [App.render]⟩
  | cons env envelopes =>
    refine ⟨s.acks ++ [(env :: envelopes).map FetchedEnvelope.id], ?_⟩
    simp only [App.render, App.ackHex, parse_ids]

theorem inv_step (inv : Inv serde s) (event : Event) : Inv serde (s.step serde own event) := by
  unfold App.step
  split
  · exact { inv with }
  · exact { inv with }
  · refine ⟨?_, ?_, inv.persisted⟩
    · intro c hc env henv
      rcases List.mem_append.mp hc with old | new
      · exact inv.to_ack c old env henv
      · obtain rfl := List.mem_singleton.mp new
        cases henv
    · intro c hc env henv
      rcases List.mem_append.mp hc with old | new
      · exact inv.saving c old env henv
      · obtain rfl := List.mem_singleton.mp new
        cases henv
  · split
    · exact inv_next inv ‹_› _ _
    · exact inv
  · split
    · exact inv_save inv ‹_› _
    · exact inv
  · split
    · exact inv_finish inv _ _
    · exact inv
  · exact { inv with }
  · split
    · obtain ⟨acks, render⟩ := render_eq s _ ‹_›
      rw [render]
      exact { inv with }
    · exact inv
  · split
    · exact { inv with }
    · exact inv
  · exact { inv with }

/-! ## Acks -/

theorem HandedOver.mono {s s' : App} {env : FetchedEnvelope} (h : HandedOver serde s env)
    (persisted : ∀ e ∈ s.persisted, e ∈ s'.persisted) (shown : ∀ r ∈ s.shown, r ∈ s'.shown) :
    HandedOver serde s' env := by
  unfold HandedOver at h ⊢
  split
  · rename_i chat
    rw [if_pos chat] at h
    exact persisted env h
  · rename_i other
    rw [if_neg other] at h
    obtain ⟨row, mem, whole⟩ := h
    exact ⟨row, shown row mem, whole⟩

theorem AcksSafe.mono {s s' : App} (safe : AcksSafe serde s) (acked : s'.acked = s.acked)
    (persisted : ∀ e ∈ s.persisted, e ∈ s'.persisted) (shown : ∀ r ∈ s.shown, r ∈ s'.shown) :
    AcksSafe serde s' := by
  intro env h
  rw [acked] at h
  exact (safe env h).mono persisted shown

theorem acksSafe_next (safe : AcksSafe serde s) (k : Nat) (call : ChatCall) (new_id : String)
    (now_ms : UInt64) : AcksSafe serde (s.next serde k call new_id now_ms) := by
  unfold App.next
  split
  · split
    · exact safe.mono rfl (fun _ h => h) (fun _ h => h)
    · exact safe.mono rfl (fun _ h => h) (fun _ h => h)
  · exact safe

theorem acksSafe_save (inv : Inv serde s) (safe : AcksSafe serde s) (k : Nat) (call : ChatCall)
    (saves : Bool) : AcksSafe serde (s.save k call saves) := by
  unfold App.save
  split
  · exact safe
  · split
    · exact safe.mono rfl inv.persisted (fun _ h => h)
    · exact safe.mono rfl (fun _ h => h) (fun _ h => h)

/-- The poller acks only what it has saved. -/
theorem acksSafe_finish (inv : Inv serde s) (safe : AcksSafe serde s) {k : Nat} {call : ChatCall}
    (mem : s.calls[k]? = some call) : AcksSafe serde (s.finish k call) := by
  have here : call ∈ s.calls := List.mem_of_getElem? mem
  unfold App.finish
  split
  · dsimp only
    split
    · exact safe.mono rfl (fun _ h => h) (fun _ h => h)
    · intro env h
      rcases List.mem_append.mp h with old | new
      · exact (safe env old).mono (fun _ h => h) (fun _ h => h)
      · obtain ⟨chat, saved⟩ := inv.to_ack call here env new
        rw [HandedOver, if_pos chat]
        exact saved
  · exact safe

/-- A row shows its envelope whole where the bytes are well-formed UTF-8. -/
theorem relay_envelope_whole (env : FetchedEnvelope) :
    Utf8.encode (relay_envelope env).payload.toList = env.bytes ↔ Utf8.Valid env.bytes := by
  rw [relay_envelope, from_utf8_lossy, String.toList_ofList, Utf8.encode_decodeLossy_iff]

theorem shownWhole_iff {env : FetchedEnvelope} (shown : relay_envelope env ∈ s.shown) :
    ShownWhole s env ↔ Utf8.Valid env.bytes := by
  constructor
  · rintro ⟨row, -, -, whole⟩
    exact ⟨_, whole⟩
  · intro valid
    exact ⟨_, shown, rfl, (relay_envelope_whole env).mpr valid⟩

theorem acksSafe_render_iff (safe : AcksSafe serde s) (k : Nat) (envelopes : List FetchedEnvelope) :
    AcksSafe serde (s.render k envelopes) ↔ ∀ env ∈ envelopes,
      if IsChat serde env then env ∈ s.persisted else Utf8.Valid env.bytes := by
  obtain ⟨acks, render⟩ := render_eq s k envelopes
  rw [render]
  have page (env : FetchedEnvelope) (mem : env ∈ envelopes) :
      HandedOver serde { s with
          refreshes := s.refreshes.eraseIdx k
          inbox_list := envelopes.map relay_envelope
          shown := s.shown ++ envelopes.map relay_envelope
          acks := acks
          acked := s.acked ++ envelopes } env ↔
        if IsChat serde env then env ∈ s.persisted else Utf8.Valid env.bytes := by
    unfold HandedOver
    split
    · rfl
    · exact shownWhole_iff (List.mem_append_right _ (List.mem_map_of_mem mem))
  constructor
  · intro after env mem
    exact (page env mem).mp (after env (List.mem_append_right _ mem))
  · intro careful env h
    rcases List.mem_append.mp h with old | new
    · exact (safe env old).mono (fun _ h => h) (fun _ h => List.mem_append_left _ h)
    · exact (page env new).mpr (careful env new)

/-- One step keeps the acks safe exactly where it is careful. -/
theorem acksSafe_step_iff (inv : Inv serde s) (safe : AcksSafe serde s) (event : Event) :
    AcksSafe serde (s.step serde own event) ↔ Careful serde s event := by
  cases event with
  | render k =>
    simp only [App.step, Careful]
    cases page : s.refreshes[k]? with
    | none => exact ⟨fun _ => nofun, fun _ => safe⟩
    | some envelopes =>
      rw [acksSafe_render_iff safe]
      constructor
      · rintro careful _ ⟨⟩
        exact careful
      · intro careful
        exact careful envelopes rfl
  | chatNext k new_id now_ms =>
    refine iff_of_true ?_ trivial
    simp only [App.step]
    split
    · exact acksSafe_next safe _ _ _ _
    · exact safe
  | chatSave k saves =>
    refine iff_of_true ?_ trivial
    simp only [App.step]
    split
    · exact acksSafe_save inv safe _ _ _
    · exact safe
  | chatAck k =>
    refine iff_of_true ?_ trivial
    simp only [App.step]
    split
    · exact acksSafe_finish inv safe ‹_›
    · exact safe
  | ackArrives k =>
    refine iff_of_true ?_ trivial
    simp only [App.step]
    split <;> exact safe
  | _ => exact iff_of_true safe trivial

/-! ## Runs -/

theorem run_append (s : App) (events : List Event) (event : Event) :
    s.run serde own (events ++ [event]) = (s.run serde own events).step serde own event := by
  simp [App.run]

theorem inv_run (relay : Relay.InMemoryStore) (chat : ChatStore) (events : List Event) :
    Inv serde ((App.start relay chat).run serde own events) := by
  induction events using List.reverseRecOn with
  | nil => exact inv_start relay chat
  | append_singleton events event ih =>
    rw [run_append]
    exact inv_step ih event

theorem acksSafe_run (relay : Relay.InMemoryStore) (chat : ChatStore) (events : List Event)
    (careful : ∀ before event, before ++ [event] <+: events →
      Careful serde ((App.start relay chat).run serde own before) event) :
    AcksSafe serde ((App.start relay chat).run serde own events) := by
  induction events using List.reverseRecOn with
  | nil => exact nofun
  | append_singleton events event ih =>
    rw [run_append]
    have safe := ih fun before e early => careful before e (early.trans (List.prefix_append _ _))
    exact (acksSafe_step_iff (inv_run relay chat events) safe event).mpr
      (careful events event (List.prefix_refl _))

/-- Every ack of a run is safe exactly where every page was shown with care. -/
theorem acksSafe_iff (relay : Relay.InMemoryStore) (chat : ChatStore) (events : List Event) :
    (∀ before, before <+: events →
        AcksSafe serde ((App.start relay chat).run serde own before)) ↔
      ∀ before event, before ++ [event] <+: events →
        Careful serde ((App.start relay chat).run serde own before) event := by
  constructor
  · intro safe before event early
    have after := safe _ early
    rw [run_append] at after
    exact (acksSafe_step_iff (inv_run relay chat before)
      (safe before ((List.prefix_append _ _).trans early)) event).mp after
  · intro careful before early
    exact acksSafe_run relay chat before fun b e h => careful b e (h.trans early)

/-! ## A chat envelope that the refresh comes to first -/

theorem not_safe_of_unsaved (safe : AcksSafe serde s) {env : FetchedEnvelope}
    (acked : env ∈ s.acked)
    (chat : IsChat serde env) (unsaved : s.persisted = []) : False := by
  have saved := safe env acked
  rw [HandedOver, if_pos chat, unsaved] at saved
  cases saved

def sampleOwn : Pk := FixedBytes.fill _ 1

/-- A chat envelope as another client delivers it. -/
def sampleChat : Relay.Envelope where
  id := Relay.InMemoryStore.zeroId
  to_ := sampleOwn
  from_ := FixedBytes.fill _ 2
  bytes := Utf8.encode "\x7b\"type\":\"chat-v1\",\"text\":\"hi\"\x7d".toList
  created_at := 0

def sampleId : Relay.EnvelopeId := FixedBytes.fill _ 7

def sampleEvents : List Event := [.deliver sampleChat sampleId, .inboxFetch, .render 0]

/-- It is shown as an inbox row and acked, and never enters the history. -/
theorem unread_chat_acked : ¬ ∀ (serde : SerdeJson) (own : Pk) (relay : Relay.InMemoryStore)
    (chat : ChatStore) (events : List Event),
    AcksSafe serde ((App.start relay chat).run serde own events) := by
  intro all
  have safe := all .compact sampleOwn (.new 100) .empty sampleEvents
  have acked : ⟨sampleId, sampleChat.from_, sampleChat.bytes, 0⟩ ∈
      ((App.start (.new 100) .empty).run .compact sampleOwn sampleEvents).acked := by
    decide
  have chat : IsChat .compact ⟨sampleId, sampleChat.from_, sampleChat.bytes, 0⟩ := by
    decide +kernel
  have unsaved : ((App.start (.new 100) .empty).run .compact sampleOwn sampleEvents).persisted =
      [] := by
    decide
  exact not_safe_of_unsaved safe acked chat unsaved

end Qev.Desktop
