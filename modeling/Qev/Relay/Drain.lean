import Qev.Lib.Table
import Qev.Relay.Deliver

/-! Emptying an inbox: fetch a page, acknowledge everything it returned, repeat. -/

namespace Qev.Relay

open Pairing (MAX_TRANSPORT_MSG)

/-- One step of a running relay: a connection that brings some bytes, or the
age eviction. -/
inductive Step (c : Ciborium) : RelayService → RelayService → Prop
  | connection (svc : RelayService) (conn : Connection) (peer_pk : Pk) (io : Bytes) (at_ : Moment) :
      Step c svc (svc.handle_connection c peer_pk conn.server io at_).1
  | evict (svc : RelayService) (now_ms max_age_ms : UInt64) :
      Step c svc { svc with store := (svc.store.evict_older_than now_ms max_age_ms).1 }

inductive Reachable (c : Ciborium) : RelayService → Prop
  | start (max_per_recipient : Nat) : Reachable c (.new (.new max_per_recipient))
  | next {svc svc' : RelayService} : Reachable c svc → Step c svc svc' → Reachable c svc'

theorem step_max_per_minute {c : Ciborium} {svc svc' : RelayService} (h : Step c svc svc') :
    svc'.fetch_limiter.max_per_minute = svc.fetch_limiter.max_per_minute := by
  cases h with
  | connection conn peer_pk io at_ =>
    rcases RelayService.handle_connection_fst svc c peer_pk conn.server io at_ with same | ⟨m, same⟩
    · rw [same]
    · rw [same, RelayService.respond_fst, RelayService.dispatch_max_per_minute]
  | evict => rfl

theorem reachable_max_per_minute {c : Ciborium} {svc : RelayService} (h : Reachable c svc) :
    svc.fetch_limiter.max_per_minute = 60 := by
  induction h with
  | start => rfl
  | next _ step ih => rw [step_max_per_minute step, ih]

/-! ## Pages -/

/-- The bytes of the `FetchResult` that carries `envelopes`. -/
def pageBytes (envelopes : List Envelope) : Nat :=
  42 + Cbor.headSize envelopes.length + (envelopes.map fun e =>
    80 + Cbor.headSize e.bytes.length + e.bytes.length + Cbor.headSize e.created_at.toNat).sum

/-- What a full fetch returns of a queue. -/
def page (q : List Envelope) : List Envelope := q.take DEFAULT_FETCH_LIMIT.toNat

/-- What deleting the ids of that page leaves of the queue. -/
def rest (q : List Envelope) : List Envelope :=
  q.filter fun e => !((page q).map Envelope.id).contains e.id

theorem FetchResult_pageBytes (envelopes : List Envelope) (has_more : Bool) :
    (RelayMessage.FetchResult (envelopes.map RelayService.toWire) has_more).into_writer.length =
      pageBytes envelopes := by
  rw [FetchResult_size, pageBytes, List.length_map, List.map_map]
  congr 2
  apply List.map_congr_left
  intro e _
  exact WireEnvelope.wireSize_eq _ e.id.property e.from_.property

theorem page_ne_nil {q : List Envelope} (h : q ≠ []) : page q ≠ [] := by
  simp only [page, ne_eq, List.take_eq_nil_iff, not_or]
  exact ⟨by decide, h⟩

theorem rest_length_lt {q : List Envelope} (h : q ≠ []) : (rest q).length < q.length := by
  obtain ⟨e, tail, rfl⟩ := List.exists_cons_of_ne_nil h
  have gone : e ∈ page (e :: tail) := by
    have : DEFAULT_FETCH_LIMIT.toNat = 49 + 1 := by decide
    rw [page, this, List.take_succ_cons]
    exact List.mem_cons_self
  refine List.length_filter_lt_length_iff_exists.mpr ⟨e, List.mem_cons_self, ?_⟩
  simp only [List.contains_eq_mem, Bool.not_eq_true, Bool.not_eq_false', decide_eq_true_eq]
  exact List.mem_map_of_mem gone

theorem iterate_rest_nil (q : List Envelope) : ∃ n, rest^[n] q = [] := by
  induction h : q.length using Nat.strong_induction_on generalizing q with
  | _ len ih =>
    by_cases empty : q = []
    · exact ⟨0, empty⟩
    · obtain ⟨n, hn⟩ := ih (rest q).length (h ▸ rest_length_lt empty) (rest q) rfl
      exact ⟨n + 1, hn⟩

/-- With distinct ids, the pages are the consecutive blocks of the queue. -/
theorem iterate_rest_eq_drop {q : List Envelope} (h : (q.map Envelope.id).Nodup) (n : Nat) :
    rest^[n] q = q.drop (DEFAULT_FETCH_LIMIT.toNat * n) := by
  induction n generalizing q with
  | zero => simp
  | succ n ih =>
    have front : rest q = q.drop DEFAULT_FETCH_LIMIT.toNat := Table.filter_keys_take h _
    have distinct : ((rest q).map Envelope.id).Nodup :=
      h.sublist (List.filter_sublist.map _)
    rw [Function.iterate_succ_apply, ih distinct, front, List.drop_drop]
    congr 1
    ring

/-! ## One round -/

namespace RelayClient

/-- The two limits that ask for a full page. -/
def FullPage (limit : UInt32) : Prop := limit = 0 ∨ limit = 50

theorem take_fullPage {limit : UInt32} (h : FullPage limit) :
    RelayService.take limit = DEFAULT_FETCH_LIMIT.toNat := by
  rcases h with rfl | rfl <;> decide

/-- Fetch, then acknowledge everything that came. -/
def fetchThenAck (client : RelayClient) (limit : UInt32) (svc : RelayService)
    (at_ : Moment × Moment) : RelayService :=
  match client.fetch svc limit at_.1 with
  | (svc, .error _) => svc
  | (svc, .ok result) => (client.ack svc (result.envelopes.map FetchedEnvelope.id) at_.2).1

def drain (client : RelayClient) (limit : UInt32) (svc : RelayService)
    (rounds : List (Moment × Moment)) : RelayService :=
  rounds.foldl (client.fetchThenAck limit) svc

/-- The reply that the service sends to a `Fetch` reaches the client and is
not empty. -/
def Answered (client : RelayClient) (svc : RelayService) (limit : UInt32) (at_ : Moment) : Prop :=
  ∃ envelopes has_more, envelopes ≠ [] ∧
    (svc.respond client.own (.Fetch limit) at_).2 = .FetchResult envelopes has_more ∧
    ∃ bytes sent, (RelayMessage.FetchResult envelopes has_more).encode = .ok bytes ∧
      client.connection.server.send bytes = .ok sent

/-- Every fetch that the limiter admits is answered, and finitely many rounds
empty the queue. -/
structure Unwedged (client : RelayClient) (svc : RelayService) : Prop where
  answered : ∀ limit at_, FullPage limit → svc.fetch_limiter.Admits client.own at_.instant →
    client.Answered svc limit at_
  emptied : ∀ limit, FullPage limit →
    ∃ rounds, (client.drain limit svc rounds).store.pending client.own = []

variable {client : RelayClient} {svc : RelayService} {limit : UInt32} {at_ : Moment}

theorem respond_fetch (full : FullPage limit)
    (admits : svc.fetch_limiter.Admits client.own at_.instant) :
    svc.respond client.own (.Fetch limit) at_ =
      (svc.counted client.own at_,
        .FetchResult ((page (svc.store.pending client.own)).map RelayService.toWire)
          (decide ((svc.store.pending client.own).length > RelayService.take limit))) := by
  rw [RelayService.respond_ok (RelayService.dispatch_fetch admits limit), take_fullPage full]
  rfl

/-- A page that fits is answered where the queue is not empty. -/
theorem answered_iff (full : FullPage limit)
    (admits : svc.fetch_limiter.Admits client.own at_.instant)
    (some_ : svc.store.pending client.own ≠ []) :
    client.Answered svc limit at_ ↔
      pageBytes (page (svc.store.pending client.own)) ≤ MAX_TRANSPORT_MSG := by
  have response := respond_fetch full admits
  constructor
  · rintro ⟨envelopes, has_more, -, replied, bytes, sent, encoded, accepted⟩
    rw [response] at replied
    have same := replied.symm
    obtain ⟨rfl, rfl⟩ := RelayMessage.FetchResult.inj same
    cases encoded
    by_contra large
    rw [Pairing.Channel.send_too_large _ (by rw [FetchResult_pageBytes]; omega)] at accepted
    cases accepted
  · intro small
    refine ⟨_, _, ?_, by rw [response], _, _, rfl,
      Pairing.Channel.send_ok _ (by rw [FetchResult_pageBytes]; exact small)⟩
    simpa using page_ne_nil some_

theorem Fetch_fits (limit : UInt32) :
    (RelayMessage.Fetch limit).into_writer.length ≤ MAX_TRANSPORT_MSG :=
  (Fetch_size_le limit).trans (by decide)

theorem fetch_fits (full : FullPage limit)
    (admits : svc.fetch_limiter.Admits client.own at_.instant)
    (small : pageBytes (page (svc.store.pending client.own)) ≤ MAX_TRANSPORT_MSG) :
    client.fetch svc limit at_ =
      (svc.counted client.own at_,
        .ok ⟨(page (svc.store.pending client.own)).map toFetched,
          decide ((svc.store.pending client.own).length > RelayService.take limit)⟩) := by
  have response := respond_fetch full admits
  have answered := client.one_shot_fits svc at_ (by simp) rfl (Fetch_fits limit)
    (congrArg Prod.snd response) rfl (by rw [FetchResult_pageBytes]; exact small)
  simp only [fetch, answered, response, ok_bind, fetch_response, mapM_wire_to_fetched]
  rfl

/-- A fetch that the limiter refuses, or whose page is too large to come back,
fails and leaves the queues as they are. -/
theorem fetch_fails (full : FullPage limit)
    (h : ¬ (svc.fetch_limiter.Admits client.own at_.instant ∧
      pageBytes (page (svc.store.pending client.own)) ≤ MAX_TRANSPORT_MSG)) :
    ∃ e, client.fetch svc limit at_ = (svc.counted client.own at_, .error e) := by
  by_cases admits : svc.fetch_limiter.Admits client.own at_.instant
  · have large : MAX_TRANSPORT_MSG < pageBytes (page (svc.store.pending client.own)) := by
      rw [← Nat.not_le]
      exact fun small => h ⟨admits, small⟩
    have response := respond_fetch full admits
    have lost := client.one_shot_lost svc at_ (by simp) rfl (Fetch_fits limit)
      (congrArg Prod.snd response) rfl (by rw [FetchResult_pageBytes]; exact large)
    refine ⟨.Pairing .Io, ?_⟩
    simp only [fetch, lost, response, error_bind]
  · have response := RelayService.respond_error
      (RelayService.dispatch_fetch_refused admits limit)
    rcases Nat.lt_or_ge MAX_TRANSPORT_MSG
      (svc.respond client.own (.Fetch limit) at_).2.into_writer.length with large | small
    · have lost := client.one_shot_lost svc at_ (by simp) rfl (Fetch_fits limit) rfl
        (by rw [response]; rfl) large
      refine ⟨.Pairing .Io, ?_⟩
      simp only [fetch, lost, response, error_bind]
    · have answered := client.one_shot_fits svc at_ (by simp) rfl (Fetch_fits limit) rfl
        (by rw [response]; rfl) small
      refine ⟨unexpected "FetchResult" (svc.respond client.own (.Fetch limit) at_).2, ?_⟩
      simp only [fetch, answered, response, ok_bind, fetch_response]

theorem ack_page {ids : List EnvelopeId} (few : ids.length ≤ DEFAULT_FETCH_LIMIT.toNat) :
    (client.ack svc ids at_).1 = { svc with store := (svc.store.delete client.own ids).1 } := by
  have fits : (RelayMessage.Ack (ids.map Subtype.val)).into_writer.length ≤ MAX_TRANSPORT_MSG := by
    have size := Ack_size_le ids
    have fifty : DEFAULT_FETCH_LIMIT.toNat = 50 := rfl
    have limit : MAX_TRANSPORT_MSG = 65519 := rfl
    omega
  have response := RelayService.respond_ok (RelayService.dispatch_ack svc client.own ids at_)
  have answered := client.one_shot_fits svc at_ (by simp) rfl fits (congrArg Prod.snd response) rfl
    ((AckResult_size_le _).trans (by decide))
  simp only [ack, answered, response]

/-- One round takes the first page off the queue, or changes nothing there. -/
theorem pending_fetchThenAck (full : FullPage limit) (moments : Moment × Moment) :
    (client.fetchThenAck limit svc moments).store.pending client.own =
      if svc.fetch_limiter.Admits client.own moments.1.instant ∧
          pageBytes (page (svc.store.pending client.own)) ≤ MAX_TRANSPORT_MSG then
        rest (svc.store.pending client.own)
      else svc.store.pending client.own := by
  split
  · rename_i h
    have fetched := fetch_fits full h.1 h.2
    have ids : ((page (svc.store.pending client.own)).map toFetched).map FetchedEnvelope.id =
        (page (svc.store.pending client.own)).map Envelope.id := by
      rw [List.map_map]; rfl
    have few : ((page (svc.store.pending client.own)).map Envelope.id).length ≤
        DEFAULT_FETCH_LIMIT.toNat := by
      rw [List.length_map]; exact List.length_take_le _ _
    simp only [fetchThenAck, fetched, ids, ack_page few, InMemoryStore.pending_delete,
      RelayService.counted_store, ↓reduceIte]
    rfl
  · rename_i h
    obtain ⟨e, failed⟩ := fetch_fails full h
    simp only [fetchThenAck, failed, RelayService.counted_store]

theorem fetchThenAck_max_per_minute (full : FullPage limit) (moments : Moment × Moment) :
    (client.fetchThenAck limit svc moments).fetch_limiter.max_per_minute =
      svc.fetch_limiter.max_per_minute := by
  by_cases h : svc.fetch_limiter.Admits client.own moments.1.instant ∧
      pageBytes (page (svc.store.pending client.own)) ≤ MAX_TRANSPORT_MSG
  · have few : (((page (svc.store.pending client.own)).map toFetched).map
        FetchedEnvelope.id).length ≤ DEFAULT_FETCH_LIMIT.toNat := by
      rw [List.length_map, List.length_map]; exact List.length_take_le _ _
    simp only [fetchThenAck, fetch_fits full h.1 h.2, ack_page few]
    exact RelayService.counted_max_per_minute _ _ _
  · obtain ⟨e, failed⟩ := fetch_fails full h
    simp only [fetchThenAck, failed, RelayService.counted_max_per_minute]

/-! ## Whole drains -/

/-- Rounds never get past a page that is too large. -/
theorem drain_stuck (full : FullPage limit) {k : Nat} {q : List Envelope}
    (large : MAX_TRANSPORT_MSG < pageBytes (page (rest^[k] q))) (rounds : List (Moment × Moment)) :
    ∀ svc : RelayService, (∃ j ≤ k, svc.store.pending client.own = rest^[j] q) →
      ∃ j ≤ k, (client.drain limit svc rounds).store.pending client.own = rest^[j] q := by
  induction rounds with
  | nil => exact fun svc h => h
  | cons moments rounds ih =>
    rintro svc ⟨j, before, here⟩
    apply ih _
    rw [pending_fetchThenAck full]
    split
    · rename_i moved
      have strict : j ≠ k := by
        rintro rfl
        rw [here] at moved
        omega
      exact ⟨j + 1, by omega, by rw [here, Function.iterate_succ_apply']⟩
    · exact ⟨j, before, here⟩

theorem drain_empties (full : FullPage limit) {n : Nat} :
    ∀ svc : RelayService, 0 < svc.fetch_limiter.max_per_minute →
      (∀ k, pageBytes (page (rest^[k] (svc.store.pending client.own))) ≤ MAX_TRANSPORT_MSG) →
      ∃ rounds, (client.drain limit svc rounds).store.pending client.own =
        rest^[n] (svc.store.pending client.own) := by
  induction n with
  | zero => exact fun svc _ _ => ⟨[], rfl⟩
  | succ n ih =>
    intro svc allows fits
    obtain ⟨now, admits⟩ := svc.fetch_limiter.admits_later allows client.own
    let moment : Moment := ⟨now, 0, InMemoryStore.zeroId⟩
    have moved : (client.fetchThenAck limit svc (moment, moment)).store.pending client.own =
        rest (svc.store.pending client.own) := by
      rw [pending_fetchThenAck full, if_pos ⟨admits, fits 0⟩]
    obtain ⟨rounds, drained⟩ := ih (client.fetchThenAck limit svc (moment, moment))
      (by rwa [fetchThenAck_max_per_minute full])
      (fun k => by rw [moved]; exact fits (k + 1))
    exact ⟨(moment, moment) :: rounds, by rw [moved] at drained; exact drained⟩

theorem unwedged_iff_of_allows (allows : 0 < svc.fetch_limiter.max_per_minute)
    (waiting : svc.store.pending client.own ≠ []) :
    client.Unwedged svc ↔
      ∀ k, pageBytes (page (rest^[k] (svc.store.pending client.own))) ≤ MAX_TRANSPORT_MSG := by
  constructor
  · rintro ⟨-, emptied⟩ k
    by_contra large
    obtain ⟨rounds, empty⟩ := emptied 0 (.inl rfl)
    obtain ⟨j, before, here⟩ := drain_stuck (.inl rfl) (Nat.not_le.mp large) rounds svc
      ⟨0, Nat.zero_le k, rfl⟩
    have beyond : rest^[k] (svc.store.pending client.own) = [] := by
      rw [← Nat.sub_add_cancel before, Function.iterate_add_apply, ← here, empty]
      exact Function.iterate_fixed rfl _
    rw [beyond] at large
    exact large (by decide)
  · intro fits
    refine ⟨fun limit at_ full admits => (answered_iff full admits waiting).mpr (fits 0), ?_⟩
    intro limit full
    obtain ⟨n, empty⟩ := iterate_rest_nil (svc.store.pending client.own)
    obtain ⟨rounds, drained⟩ := drain_empties (n := n) full svc allows fits
    exact ⟨rounds, by rw [drained, empty]⟩

/-- The inbox of a reachable relay wedges exactly where some page of it does
not fit in one transport message. -/
theorem unwedged_iff (reachable : Reachable client.ciborium svc)
    (waiting : svc.store.pending client.own ≠ []) :
    client.Unwedged svc ↔
      ∀ k, pageBytes (page (rest^[k] (svc.store.pending client.own))) ≤ MAX_TRANSPORT_MSG :=
  unwedged_iff_of_allows (by rw [reachable_max_per_minute reachable]; decide) waiting

/-! ## One delivery -/

theorem reachable_served (reachable : Reachable client.ciborium svc) (wire : Bytes) :
    Reachable client.ciborium (client.served svc wire at_).1 := by
  have step := reachable.next (.connection svc client.connection client.own wire at_)
  rw [served]
  split <;> rename_i served
  · rwa [served] at step
  · rw [served] at step
    exact step

theorem reachable_deliver (reachable : Reachable client.ciborium svc) (to_ : Pk)
    (envelope : Bytes) :
    Reachable client.ciborium (client.deliver svc to_ envelope at_).1 := by
  rw [deliver]
  split
  · exact reachable
  · simp only [one_shot]
    split
    · exact reachable
    · split
      · exact reachable
      · split <;> exact reachable_served reachable _

/-- The fresh relay once its client has sent itself an envelope. -/
def selfSent (envelope : Bytes) : RelayService :=
  (sample.deliver sampleService sample.own envelope sampleMoment).1

theorem reachable_selfSent (envelope : Bytes) : Reachable sample.ciborium (selfSent envelope) :=
  reachable_deliver (.start 100) _ _

theorem pending_selfSent (envelope : Bytes) (small : envelope.length ≤ MAX_DELIVERED) :
    (selfSent envelope).store.pending sample.own =
      [⟨sampleMoment.drawn, sample.own, sample.own, envelope, 0⟩] := by
  have admits : sampleService.deliver_limiter.Admits sample.own sampleMoment.instant :=
    RateLimiter.admits_new 30 (by decide) _ _
  have legal : envelope.length ≤ MAX_ENVELOPE_BYTES := small.trans (by decide)
  rw [selfSent, deliver_fits admits _ small, pending_dispatch_deliver admits _ legal]
  rfl

theorem unwedged_iff_three_bytes : sample.Unwedged (selfSent [1, 2, 3]) ↔
    ∀ k, pageBytes (page (rest^[k] ((selfSent [1, 2, 3]).store.pending sample.own))) ≤
      MAX_TRANSPORT_MSG :=
  unwedged_iff (reachable_selfSent _) (by rw [pending_selfSent _ (by decide)]; simp)

/-- One envelope of 65,400 bytes is delivered and can never be fetched again. -/
theorem reachable_inbox_wedges : ¬ ∀ (client : RelayClient) (svc : RelayService),
    Reachable client.ciborium svc → svc.store.pending client.own ≠ [] → client.Unwedged svc := by
  intro all
  obtain ⟨envelope, length⟩ : ∃ b : Bytes, b.length = 65400 :=
    ⟨List.replicate 65400 0, List.length_replicate⟩
  have here := pending_selfSent envelope (by rw [length]; decide)
  have waiting : (selfSent envelope).store.pending sample.own ≠ [] := by
    rw [here]; simp
  have allows : 0 < (selfSent envelope).fetch_limiter.max_per_minute := by
    rw [reachable_max_per_minute (reachable_selfSent _)]; decide
  have fits := (unwedged_iff_of_allows allows waiting).mp (all _ _ (reachable_selfSent _) waiting) 0
  have bytes : pageBytes [⟨sampleMoment.drawn, sample.own, sample.own, envelope, 0⟩] = 65527 := by
    simp only [pageBytes, List.map_cons, List.map_nil, List.sum_cons, List.sum_nil, length,
      List.length_cons, List.length_nil]
    decide
  rw [Function.iterate_zero_apply, here] at fits
  exact absurd (bytes ▸ fits) (by decide)

end RelayClient

end Qev.Relay
