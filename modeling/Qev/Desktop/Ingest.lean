import Qev.Desktop.Handover

/-! How often the poller appends one envelope. -/

namespace Qev.Desktop

open Relay (Envelope EnvelopeId FetchedEnvelope InMemoryStore Pk)

/-- The ids of the chat envelopes among these. -/
def chatIds (serde : SerdeJson) (envelopes : List FetchedEnvelope) : List EnvelopeId :=
  (envelopes.filter fun env => IsChat serde env).map FetchedEnvelope.id

/-- The ids of the chat envelopes that running calls have still to append. -/
def ahead (serde : SerdeJson) (calls : List ChatCall) : List EnvelopeId :=
  calls.flatMap fun call => chatIds serde call.todo

/-- No envelope was appended twice. -/
def AppendedOnce (s : App) : Prop := (s.appended.map FetchedEnvelope.id).Nodup

/-- A fetch of the poller starts while none of the chat envelopes it gets was
appended before or waits in a call that is still running. -/
def Apart (serde : SerdeJson) (own : Pk) (s : App) : Event → Prop
  | .chatFetch => ∀ id ∈ chatIds serde (s.page own),
      id ∉ s.appended.map FetchedEnvelope.id ∧ id ∉ ahead serde s.calls
  | _ => True

/-- The relay draws an id that none of its pending envelopes has. -/
def Fresh (s : App) : Event → Prop
  | .deliver env drawn => env.id = InMemoryStore.zeroId ∧
      ∀ e ∈ s.relay.pending env.to_, e.id ≠ drawn
  | _ => True

/-- Every chat envelope that was appended or is to be appended counts once. -/
structure Once (serde : SerdeJson) (s : App) : Prop where
  once : (s.appended.map FetchedEnvelope.id ++ ahead serde s.calls).Nodup
  ids : s.relay.IdsNodup

variable {serde : SerdeJson} {own : Pk} {s : App}

/-- A call in its place among the others. -/
theorem exists_split {calls : List ChatCall} {k : Nat} {call : ChatCall}
    (h : calls[k]? = some call) : ∃ before after, calls = before ++ call :: after ∧
      (∀ new, calls.set k new = before ++ new :: after) ∧ calls.eraseIdx k = before ++ after := by
  obtain ⟨bound, here⟩ := List.getElem?_eq_some_iff.mp h
  refine ⟨calls.take k, calls.drop (k + 1), ?_, ?_, ?_⟩
  · rw [← here, List.getElem_cons_drop, List.take_append_drop]
  · intro new
    exact List.set_eq_take_append_cons_drop.trans (if_pos bound)
  · exact List.eraseIdx_eq_take_drop_succ calls k

theorem ahead_append (calls calls' : List ChatCall) :
    ahead serde (calls ++ calls') = ahead serde calls ++ ahead serde calls' :=
  List.flatMap_append

theorem ahead_cons (call : ChatCall) (calls : List ChatCall) :
    ahead serde (call :: calls) = chatIds serde call.todo ++ ahead serde calls :=
  List.flatMap_cons

theorem once_next (once : Once serde s) {k : Nat} {call : ChatCall}
    (mem : s.calls[k]? = some call) (new_id : String) (now_ms : UInt64) :
    Once serde (s.next serde k call new_id now_ms) := by
  obtain ⟨before, after, calls, set, -⟩ := exists_split mem
  have counted := once.once
  unfold App.next
  split
  · rename_i env todo idle listed
    rw [calls, ahead_append, ahead_cons, listed] at counted
    split
    · rename_i other
      have skipped : chatIds serde (env :: todo) = chatIds serde todo := by
        simp [chatIds, IsChat, other]
      refine ⟨?_, once.ids⟩
      dsimp only
      rw [set, ahead_append, ahead_cons]
      rwa [skipped] at counted
    · rename_i v chat
      have first : chatIds serde (env :: todo) = env.id :: chatIds serde todo := by
        simp [chatIds, IsChat, chat]
      refine ⟨?_, once.ids⟩
      dsimp only
      rw [set, ahead_append, ahead_cons, List.map_append]
      rw [first] at counted
      refine (List.Perm.nodup_iff ?_).mp counted
      simp only [List.map_cons, List.map_nil, List.append_assoc, List.cons_append, List.nil_append]
      exact List.Perm.append_left _ List.perm_middle
  · exact once

/-- Ending a call leaves fewer envelopes to append. -/
theorem once_erase (once : Once serde s) {k : Nat} {call : ChatCall}
    (mem : s.calls[k]? = some call) : Once serde { s with calls := s.calls.eraseIdx k } := by
  obtain ⟨before, after, calls, -, erase⟩ := exists_split mem
  refine ⟨?_, once.ids⟩
  have counted := once.once
  dsimp only
  rw [calls, ahead_append, ahead_cons] at counted
  rw [erase, ahead_append]
  refine counted.sublist (List.Sublist.append_left ?_ _)
  exact List.Sublist.append_left (List.sublist_append_right _ _) _

theorem once_save (once : Once serde s) {k : Nat} {call : ChatCall}
    (mem : s.calls[k]? = some call) (saves : Bool) : Once serde (s.save k call saves) := by
  unfold App.save
  split
  · exact once
  · split
    · obtain ⟨before, after, calls, set, -⟩ := exists_split mem
      refine ⟨?_, once.ids⟩
      have counted := once.once
      dsimp only
      rw [calls, ahead_append, ahead_cons] at counted
      rwa [set, ahead_append, ahead_cons]
    · exact once_erase once mem

theorem once_finish (once : Once serde s) {k : Nat} {call : ChatCall}
    (mem : s.calls[k]? = some call) : Once serde (s.finish k call) := by
  have erased := once_erase once mem
  unfold App.finish
  split
  · dsimp only
    split
    · exact erased
    · exact ⟨erased.once, erased.ids⟩
  · exact once

theorem nodup_page (once : Once serde s) : (chatIds serde (s.page own)).Nodup := by
  have pending := once.ids own
  have front : ((s.page own).map FetchedEnvelope.id).Sublist
      ((s.relay.pending own).map Envelope.id) := by
    rw [App.page, InMemoryStore.get_pending_eq, List.map_map]
    exact (List.take_sublist _ _).map _
  exact pending.sublist ((List.filter_sublist.map _).trans front)

theorem once_fetch (once : Once serde s) (apart : Apart serde own s .chatFetch) :
    Once serde (s.step serde own .chatFetch) := by
  refine ⟨?_, once.ids⟩
  simp only [App.step]
  rw [ahead_append, ahead_cons, ← List.append_assoc, List.nodup_append]
  refine ⟨once.once, ?_, ?_⟩
  · simpa [ahead] using nodup_page once
  · rintro id old _ new rfl
    have fetched : id ∈ chatIds serde (s.page own) := by simpa [ahead] using new
    obtain ⟨appended, waiting⟩ := apart id fetched
    rcases List.mem_append.mp old with h | h
    · exact appended h
    · exact waiting h

theorem once_step (once : Once serde s) {event : Event} (apart : Apart serde own s event)
    (fresh : Fresh s event) : Once serde (s.step serde own event) := by
  cases event with
  | chatFetch => exact once_fetch once apart
  | deliver env drawn =>
    exact ⟨once.once, InMemoryStore.idsNodup_put once.ids fresh.1 fresh.2⟩
  | evict now_ms max_age_ms => exact ⟨once.once, InMemoryStore.idsNodup_evict once.ids _ _⟩
  | chatNext k new_id now_ms =>
    simp only [App.step]
    split
    · exact once_next once ‹_› _ _
    · exact once
  | chatSave k saves =>
    simp only [App.step]
    split
    · exact once_save once ‹_› _
    · exact once
  | chatAck k =>
    simp only [App.step]
    split
    · exact once_finish once ‹_›
    · exact once
  | render k =>
    simp only [App.step]
    split
    · obtain ⟨acks, render⟩ := render_eq s k ‹_›
      rw [render]
      exact ⟨once.once, once.ids⟩
    · exact once
  | ackArrives k =>
    simp only [App.step]
    split
    · exact ⟨once.once, InMemoryStore.idsNodup_delete once.ids _ _⟩
    · exact once
  | inboxFetch => exact ⟨once.once, once.ids⟩
  | ackLost k => exact ⟨once.once, once.ids⟩

theorem once_run {relay : InMemoryStore} (ids : relay.IdsNodup) (chat : ChatStore)
    (events : List Event)
    (careful : ∀ before event, before ++ [event] <+: events →
      Apart serde own ((App.start relay chat).run serde own before) event ∧
        Fresh ((App.start relay chat).run serde own before) event) :
    Once serde ((App.start relay chat).run serde own events) := by
  induction events using List.reverseRecOn with
  | nil => exact ⟨List.nodup_nil, ids⟩
  | append_singleton events event ih =>
    rw [run_append]
    have earlier := ih fun before e early => careful before e (early.trans (List.prefix_append _ _))
    obtain ⟨apart, fresh⟩ := careful events event (List.prefix_refl _)
    exact once_step earlier apart fresh

/-- In a run whose poller fetches stay apart, every envelope of the relay is
appended at most once. -/
theorem appendedOnce_run {relay : InMemoryStore} (ids : relay.IdsNodup) (chat : ChatStore)
    (events : List Event)
    (fresh : ∀ before event, before ++ [event] <+: events →
      Fresh ((App.start relay chat).run serde own before) event)
    (apart : ∀ before event, before ++ [event] <+: events →
      Apart serde own ((App.start relay chat).run serde own before) event) :
    ∀ before, before <+: events →
      AppendedOnce ((App.start relay chat).run serde own before) := by
  intro before early
  have once : Once serde ((App.start relay chat).run serde own before) := by
    apply once_run ids chat before
    intro b e h
    exact ⟨apart b e (h.trans early), fresh b e (h.trans early)⟩
  exact (List.nodup_append.mp once.once).1

/-! ## Two polls of one envelope -/

/-- What holds at every position of a run holds at every moment of it. -/
theorem forall_moments {P : List Event → Event → Prop} {events : List Event}
    (h : ∀ k, ∀ bound : k < events.length, P (events.take k) events[k]) :
    ∀ before event, before ++ [event] <+: events → P before event := by
  intro before event early
  obtain ⟨after, whole⟩ := early
  subst whole
  have here := h before.length (by simp)
  simpa using here

instance (event : Event) : Decidable (Fresh s event) := by
  cases event <;> unfold Fresh <;> infer_instance

instance (event : Event) : Decidable (Apart serde own s event) := by
  cases event <;> unfold Apart <;> infer_instance

def onePoll : List Event := [.deliver sampleChat sampleId, .chatFetch, .chatNext 0 "" 0]

theorem appendedOnce_one_poll :
    AppendedOnce ((App.start (.new 100) .empty).run .compact sampleOwn onePoll) := by
  refine appendedOnce_run (InMemoryStore.idsNodup_new 100) .empty onePoll ?_ ?_ onePoll
    (List.prefix_refl _)
  · apply forall_moments
    decide
  · apply forall_moments
    decide +kernel

/-- A second poll starts before the first has appended what it fetched. -/
def twoPolls : List Event :=
  [.deliver sampleChat sampleId, .chatFetch, .chatFetch, .chatNext 0 "" 0, .chatNext 1 "" 0]

theorem two_polls_append_twice : ¬ ∀ (serde : SerdeJson) (own : Pk) (relay : InMemoryStore)
    (chat : ChatStore) (events : List Event), relay.IdsNodup →
    (∀ before event, before ++ [event] <+: events →
      Fresh ((App.start relay chat).run serde own before) event) →
    AppendedOnce ((App.start relay chat).run serde own events) := by
  intro all
  have fresh : ∀ before event, before ++ [event] <+: twoPolls →
      Fresh ((App.start (.new 100) .empty).run .compact sampleOwn before) event := by
    apply forall_moments
    decide +kernel
  have twice : ¬ ((((App.start (.new 100) .empty).run .compact sampleOwn twoPolls).appended).map
      FetchedEnvelope.id).Nodup := by
    decide +kernel
  exact twice (all _ _ _ _ twoPolls (InMemoryStore.idsNodup_new 100) fresh)

end Qev.Desktop
