import Qev.Desktop.Handover
import Qev.Relay.Drain

/-! One call of `chat_fetch_relay_messages` against the relay, and the mail that
it does not see. -/

namespace Qev.Desktop

open Relay (Envelope EnvelopeId FetchedEnvelope InMemoryStore Moment RelayClient RelayService page
  pageBytes)

/-- What the system supplies to one turn of the loop: the id and the time for a
message that lacks them, and how the save ends. -/
structure Turn where
  new_id : String
  now_ms : UInt64
  saved : Except String Unit

/-- The loop over the envelopes fetched, from number `i` on. -/
def ingest (serde : SerdeJson) (turn : Nat → Turn) (i : Nat) (chat : ChatStore)
    (chat_ids_to_ack : List EnvelopeId) (new_count : Nat) :
    List FetchedEnvelope → ChatStore × Except String (List EnvelopeId × Nat)
  | [] => (chat, .ok (chat_ids_to_ack, new_count))
  | env :: envelopes =>
    match chat_value serde env.bytes with
    | none => ingest serde turn (i + 1) chat chat_ids_to_ack new_count envelopes
    | some v =>
      let chat := chat.add_message (Hex.hex env.from_.val)
        (chat_message v (turn i).new_id (turn i).now_ms)
      match (turn i).saved with
      | .error e => (chat, .error e)
      | .ok () =>
        ingest serde turn (i + 1) chat (chat_ids_to_ack ++ [env.id]) (new_count + 1) envelopes

/-- The command, once it has its identity and the relay's address. `meanwhile`
is what other requests make of the relay between the fetch and the ack. -/
def chat_fetch_relay_messages (serde : SerdeJson) (client : RelayClient) (svc : RelayService)
    (chat : ChatStore) (turn : Nat → Turn) (meanwhile : RelayService → RelayService)
    (fetch_at ack_at : Moment) : RelayService × ChatStore × Except String Nat :=
  match client.fetch svc 50 fetch_at with
  | (svc, .error e) => (svc, chat, .error ("relay fetch: " ++ e.display))
  | (svc, .ok fetch) =>
    match ingest serde turn 0 chat [] 0 fetch.envelopes with
    | (chat, .error e) => (meanwhile svc, chat, .error e)
    | (chat, .ok (chat_ids_to_ack, new_count)) =>
      if chat_ids_to_ack = [] then (meanwhile svc, chat, .ok new_count)
      else ((client.ack (meanwhile svc) chat_ids_to_ack ack_at).1, chat, .ok new_count)

/-- A pending envelope that the poller would take. -/
def Chat (serde : SerdeJson) (env : Envelope) : Prop := IsChat serde (RelayClient.toFetched env)

instance (serde : SerdeJson) (env : Envelope) : Decidable (Chat serde env) :=
  inferInstanceAs (Decidable (IsChat _ _))

/-- A fetch at this moment succeeds. -/
def Fetches (client : RelayClient) (svc : RelayService) (at_ : Moment) : Prop :=
  svc.fetch_limiter.Admits client.own at_.instant ∧
    pageBytes (page (svc.store.pending client.own)) ≤ Pairing.MAX_TRANSPORT_MSG

/-- Chat envelopes are pending, all of them behind a full page of others. -/
def Buried (serde : SerdeJson) (q : List Envelope) : Prop :=
  (∃ env ∈ q, Chat serde env) ∧ ∀ env ∈ page q, ¬ Chat serde env

variable {serde : SerdeJson} {turn : Nat → Turn} {client : RelayClient} {svc : RelayService}
  {fetch_at : Moment}

/-- A page of other mail goes by without a trace. -/
theorem ingest_others {i n : Nat} {chat : ChatStore} {ids : List EnvelopeId}
    {envelopes : List FetchedEnvelope} (others : ∀ env ∈ envelopes, ¬ IsChat serde env) :
    ingest serde turn i chat ids n envelopes = (chat, .ok (ids, n)) := by
  induction envelopes generalizing i with
  | nil => rfl
  | cons env envelopes ih =>
    have skipped : chat_value serde env.bytes = none := by
      simpa [IsChat] using others env List.mem_cons_self
    simp only [ingest, skipped]
    exact ih fun env later => others env (List.mem_cons_of_mem _ later)

/-- A loop that ends without an error has counted every chat envelope. -/
theorem ingest_counts {i n m : Nat} {chat chat' : ChatStore} {ids ids' : List EnvelopeId}
    {envelopes : List FetchedEnvelope}
    (done : ingest serde turn i chat ids n envelopes = (chat', .ok (ids', m))) :
    m = n + envelopes.countP fun env => IsChat serde env := by
  induction envelopes generalizing i n chat ids with
  | nil =>
    cases done
    rfl
  | cons env envelopes ih =>
    rw [ingest] at done
    rw [List.countP_cons]
    split at done
    · rename_i other
      have skipped : ¬ IsChat serde env := by simp [IsChat, other]
      rw [ih done, if_neg (by simpa using skipped)]
      rfl
    · rename_i v taken
      have chat_ : IsChat serde env := by simp [IsChat, taken]
      dsimp only at done
      split at done
      · cases done
      · rw [ih done, if_pos (by simpa using chat_)]
        omega

theorem fetched_others {q : List Envelope} (others : ∀ env ∈ page q, ¬ Chat serde env) :
    ∀ env ∈ (page q).map RelayClient.toFetched, ¬ IsChat serde env := by
  intro env mem
  obtain ⟨e, here, rfl⟩ := List.mem_map.mp mem
  exact others e here

section Call

variable (serde turn) (chat : ChatStore) (meanwhile : RelayService → RelayService) (ack_at : Moment)

theorem call_fails (fails : ¬ Fetches client svc fetch_at) : ∃ e,
    chat_fetch_relay_messages serde client svc chat turn meanwhile fetch_at ack_at =
      (svc.counted client.own fetch_at, chat, .error e) := by
  have full : RelayClient.FullPage 50 := .inr rfl
  obtain ⟨e, failed⟩ := RelayClient.fetch_fails full fails
  exact ⟨_, by rw [chat_fetch_relay_messages, failed]⟩

/-- A call whose page is other mail ingests nothing and leaves the relay's
queues as they are. -/
theorem call_others (fetches : Fetches client svc fetch_at)
    (others : ∀ env ∈ page (svc.store.pending client.own), ¬ Chat serde env) :
    chat_fetch_relay_messages serde client svc chat turn meanwhile fetch_at ack_at =
      (meanwhile (svc.counted client.own fetch_at), chat, .ok 0) := by
  have full : RelayClient.FullPage 50 := .inr rfl
  have fetched := RelayClient.fetch_fits full fetches.1 fetches.2
  simp only [chat_fetch_relay_messages, fetched, ingest_others (fetched_others others), ↓reduceIte]

theorem call_zero {svc' : RelayService} {chat' : ChatStore} (fetches : Fetches client svc fetch_at)
    (nothing : chat_fetch_relay_messages serde client svc chat turn meanwhile fetch_at ack_at =
      (svc', chat', .ok 0)) :
    ∀ env ∈ page (svc.store.pending client.own), ¬ Chat serde env := by
  have full : RelayClient.FullPage 50 := .inr rfl
  have fetched := RelayClient.fetch_fits full fetches.1 fetches.2
  rw [chat_fetch_relay_messages, fetched] at nothing
  dsimp only at nothing
  split at nothing
  · cases nothing
  · rename_i ids n ingested
    have counted := ingest_counts ingested
    have zero : n = 0 := by
      split at nothing <;> cases nothing <;> rfl
    intro env mem chat_
    have none : ((page (svc.store.pending client.own)).map RelayClient.toFetched).countP
        (fun env => IsChat serde env) = 0 := by omega
    have skipped := List.countP_eq_zero.mp none _ (List.mem_map_of_mem mem)
    exact skipped (decide_eq_true chat_)

/-- A call that ingests nothing says that no chat envelope is pending, exactly
where its fetch fails or no chat envelope waits behind a page of other mail. -/
theorem ingests_nothing_iff :
    (∀ svc' chat', chat_fetch_relay_messages serde client svc chat turn meanwhile fetch_at ack_at =
        (svc', chat', .ok 0) → ∀ env ∈ svc.store.pending client.own, ¬ Chat serde env) ↔
      ¬ (Fetches client svc fetch_at ∧ Buried serde (svc.store.pending client.own)) := by
  constructor
  · rintro clear ⟨fetches, ⟨env, mem, chat_⟩, others⟩
    exact clear _ _ (call_others serde turn chat meanwhile ack_at fetches others) env mem chat_
  · intro clear svc' chat' nothing env mem chat_
    by_cases fetches : Fetches client svc fetch_at
    · have others := call_zero serde turn chat meanwhile ack_at fetches nothing
      exact clear ⟨fetches, ⟨env, mem, chat_⟩, others⟩
    · obtain ⟨e, failed⟩ := call_fails serde turn chat meanwhile ack_at fetches
      rw [failed] at nothing
      cases nothing

end Call

/-! ## Fifty other envelopes -/

/-- Fifty empty envelopes and a chat message after them. -/
def fiftyAndChat : List Envelope :=
  (List.range 50).map (fun i =>
    ⟨FixedBytes.fill _ (UInt8.ofNat (i + 100)), RelayClient.sample.own,
      RelayClient.sample.own, [], 0⟩) ++
    [{ sampleChat with id := sampleId, to_ := RelayClient.sample.own }]

def fiftyAndChatService : RelayService :=
  .new (fiftyAndChat.foldl (fun s env => (s.put env env.id).1) (.new 100))

theorem buried_fiftyAndChat : ¬ ∀ (serde : SerdeJson) (client : RelayClient) (svc : RelayService)
    (chat : ChatStore) (turn : Nat → Turn) (meanwhile : RelayService → RelayService)
    (fetch_at ack_at : Moment) (svc' : RelayService) (chat' : ChatStore),
    chat_fetch_relay_messages serde client svc chat turn meanwhile fetch_at ack_at =
      (svc', chat', .ok 0) → ∀ env ∈ svc.store.pending client.own, ¬ Chat serde env := by
  intro all
  have queue : fiftyAndChatService.store.pending RelayClient.sample.own = fiftyAndChat := by
    decide
  have fetches : Fetches RelayClient.sample fiftyAndChatService RelayClient.sampleMoment := by
    refine ⟨Relay.RateLimiter.admits_new 60 (by decide) _ _, ?_⟩
    rw [queue]
    decide
  have others : ∀ env ∈ page (fiftyAndChatService.store.pending RelayClient.sample.own),
      ¬ Chat .compact env := by
    rw [queue]
    decide
  have waiting : ∃ env ∈ fiftyAndChatService.store.pending RelayClient.sample.own,
      Chat .compact env := by
    rw [queue]
    decide +kernel
  obtain ⟨env, mem, chat_⟩ := waiting
  have nothing := call_others .compact (fun _ => ⟨"", 0, .ok ()⟩) .empty (fun svc => svc)
    RelayClient.sampleMoment fetches others
  exact all _ _ _ _ _ _ _ _ _ _ nothing env mem chat_

end Qev.Desktop
