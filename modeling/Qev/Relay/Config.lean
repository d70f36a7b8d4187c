import Qev.Relay.Atomicity
import Qev.Relay.Deliver
import Qev.Relay.RateBound

/-! The relay's configuration (`config.rs`), the server that `main.rs` starts with
it, and which of its limits that server enforces. -/

namespace Qev.Relay

open Pairing (MAX_TRANSPORT_MSG)

structure StoreConfig where
  type : String
  max_per_recipient : UInt64
  retention_hours : UInt64

structure LimitsConfig where
  deliver_per_minute : UInt32
  fetch_per_minute : UInt32
  max_envelope_bytes : UInt64

structure Config where
  store : StoreConfig
  limits : LimitsConfig

/-- The `[store]` table of a config file, as far as it is there. -/
structure StoreTable where
  type : Option String
  max_per_recipient : Option UInt64
  retention_hours : Option UInt64

/-- The `[limits]` table of a config file, as far as it is there. -/
structure LimitsTable where
  deliver_per_minute : Option UInt32
  fetch_per_minute : Option UInt32
  max_envelope_bytes : Option UInt64

structure ConfigFile where
  store : Option StoreTable
  limits : Option LimitsTable

namespace Config

def default_store_type : String := "sqlite"

def default_max_per_recipient : UInt64 := 100

def default_retention_hours : UInt64 := 24 * 30

def default_deliver_per_minute : UInt32 := 30

def default_fetch_per_minute : UInt32 := 60

def default_max_envelope_bytes : UInt64 := .ofNat MAX_ENVELOPE_BYTES

def default_store : StoreConfig :=
  ⟨default_store_type, default_max_per_recipient, default_retention_hours⟩

def default_limits : LimitsConfig :=
  ⟨default_deliver_per_minute, default_fetch_per_minute, default_max_envelope_bytes⟩

/-- The config of a file that parses: what is not there gets its default. -/
def load (file : ConfigFile) : Config where
  store := (file.store.map fun t =>
    { type := t.type.getD default_store_type
      max_per_recipient := t.max_per_recipient.getD default_max_per_recipient
      retention_hours := t.retention_hours.getD default_retention_hours }).getD default_store
  limits := (file.limits.map fun t =>
    { deliver_per_minute := t.deliver_per_minute.getD default_deliver_per_minute
      fetch_per_minute := t.fetch_per_minute.getD default_fetch_per_minute
      max_envelope_bytes := t.max_envelope_bytes.getD default_max_envelope_bytes }).getD
    default_limits

end Config

/-! ## The running server -/

namespace SqliteService

def with_limits (store : SqliteStore) (deliver_per_min fetch_per_min : Nat) : SqliteService :=
  ⟨store, .new deliver_per_min, .new fetch_per_min⟩

def new (store : SqliteStore) : SqliteService := with_limits store 30 60

end SqliteService

/-- A service over the store that the config names. -/
inductive Service where
  | in_memory (svc : RelayService)
  | sqlite (svc : SqliteService)

/-- A request is read from one transport message. -/
def Received (c : Ciborium) (request : RelayMessage) : Prop :=
  ∃ bytes : Bytes, bytes.length ≤ MAX_TRANSPORT_MSG ∧ c.from_reader bytes = some request

/-- A request as it comes in. -/
structure Arrival (c : Ciborium) where
  requester_pk : Pk
  request : RelayMessage
  at_ : Moment
  received : Received c request

/-- What happens to a running server, with the statements of its database that
fail meanwhile. -/
inductive ServerEvent (c : Ciborium) where
  | request (a : Arrival c) (faults : Faults)
  | sweep (now_ms : UInt64) (faults : Faults)

structure Server where
  service : Service
  retention_ms : UInt64

/-- What a service does with a request as far as its limits go. -/
inductive Verdict where
  | rate_limited
  | too_large
  | passed
  deriving DecidableEq

def Verdict.of {α : Type} : Except Error α → Verdict
  | .error (.RateLimited _) => .rate_limited
  | .error (.TooLarge _ _) => .too_large
  | _ => .passed

variable {c : Ciborium}

namespace Server

/-- `main` up to the accept loop. -/
def run_server (cfg : Config) : Server where
  service :=
    if cfg.store.type = "in-memory" then
      .in_memory (RelayService.new (.new cfg.store.max_per_recipient.toNat))
    else
      .sqlite (SqliteService.new (.open_ cfg.store.max_per_recipient.toNat))
  retention_ms := cfg.store.retention_hours * 60 * 60 * 1000

def dispatch (s : Server) (o : RowOrder) (faults : Faults) (a : Arrival c) :
    Server × Except Error RelayMessage :=
  match s.service with
  | .in_memory svc =>
    let (svc, response) := svc.dispatch a.requester_pk a.request a.at_
    ({ s with service := .in_memory svc }, response)
  | .sqlite svc =>
    let (svc, response) := svc.dispatch o faults a.requester_pk a.request a.at_
    ({ s with service := .sqlite svc }, response)

/-- The eviction task. -/
def evict (s : Server) (faults : Faults) (now_ms : UInt64) : Server :=
  match s.service with
  | .in_memory svc =>
    let store := (svc.store.evict_older_than now_ms s.retention_ms).1
    { s with service := .in_memory { svc with store } }
  | .sqlite svc =>
    let store := (svc.store.evict_older_than faults now_ms s.retention_ms).1
    { s with service := .sqlite { svc with store } }

/-- The verdicts on the requests among `events`. -/
def verdicts (o : RowOrder) : Server → List (ServerEvent c) → List Verdict
  | _, [] => []
  | s, .request a faults :: events =>
    let (s, response) := s.dispatch o faults a
    .of response :: verdicts o s events
  | s, .sweep now_ms faults :: events => verdicts o (s.evict faults now_ms) events

/-! ## What the limits allow -/

def limiters (s : Server) : Limiters :=
  match s.service with
  | .in_memory svc => svc.limiters
  | .sqlite svc => svc.limiters

end Server

namespace LimitsConfig

/-- A request under limits as an operator reads them: how a service that has them
goes on and what it does with the request. -/
def judge (max_envelope_bytes : Nat) (l : Limiters) (a : Arrival c) : Limiters × Verdict :=
  match a.request with
  | .Deliver to_ envelope =>
    let (limiter, allowed) := l.deliver_limiter.check a.requester_pk a.at_.instant
    let oversize := to_.length = 32 ∧ envelope.length > max_envelope_bytes
    ({ l with deliver_limiter := limiter },
      if ¬ allowed.isOk then .rate_limited else if oversize then .too_large else .passed)
  | .Fetch _ =>
    let (limiter, allowed) := l.fetch_limiter.check a.requester_pk a.at_.instant
    ({ l with fetch_limiter := limiter }, if ¬ allowed.isOk then .rate_limited else .passed)
  | _ => (l, .passed)

def judged (max_envelope_bytes : Nat) : Limiters → List (Arrival c) → List Verdict
  | _, [] => []
  | l, a :: arrivals =>
    (judge max_envelope_bytes l a).2 ::
      judged max_envelope_bytes (judge max_envelope_bytes l a).1 arrivals

/-- The verdicts of a service that has these limits. -/
def verdicts (limits : LimitsConfig) (arrivals : List (Arrival c)) : List Verdict :=
  judged limits.max_envelope_bytes.toNat
    ⟨.new limits.deliver_per_minute.toNat, .new limits.fetch_per_minute.toNat⟩ arrivals

end LimitsConfig

/-- The requests among `events`. -/
def ServerEvent.arrivals (events : List (ServerEvent c)) : List (Arrival c) :=
  events.filterMap fun
    | .request a _ => some a
    | .sweep _ _ => none

/-! ## Failures that no limit causes -/

/-- Where this fails, it fails with an internal error. -/
def Internal {α : Type} (r : Except Error α) : Prop := ∀ e, r = .error e → ∃ msg, e = .Internal msg

theorem Internal.verdict {α : Type} {r : Except Error α} (h : Internal r) :
    Verdict.of r = .passed := by
  cases r with
  | ok a => rfl
  | error e =>
    obtain ⟨msg, rfl⟩ := h e rfl
    rfl

theorem internal_ok {α : Type} (a : α) : Internal (.ok a : Except Error α) := by
  intro e h
  cases h

theorem internal_map {α β : Type} {r : Except Error α} (h : Internal r) (f : α → β) :
    Internal (r.map f) := by
  cases r with
  | ok a => exact internal_ok (f a)
  | error e =>
    intro e' same
    cases same
    exact h e rfl

theorem internal_bind {α β : Type} {r : Except Error α} {f : α → Except Error β} (h : Internal r)
    (rest : ∀ a, Internal (f a)) : Internal (r >>= f) := by
  cases r with
  | ok a => exact rest a
  | error e =>
    intro e' same
    cases same
    exact h e rfl

theorem internal_parseIds (i : Nat) (ids : List Bytes) : Internal
    (RelayService.parseIds i ids) := by
  induction ids generalizing i with
  | nil => exact internal_ok []
  | cons id ids ih =>
    refine internal_bind ?_ fun _ => internal_bind (ih (i + 1)) fun _ => internal_ok _
    intro e failed
    rw [check_id_bytes] at failed
    split at failed
    · cases failed
    · cases failed
      exact ⟨_, rfl⟩

theorem internal_statement (faults : Faults) (n : Nat) (what : String) :
    Internal (faults.statement n what) := by
  intro e failed
  rw [Faults.statement] at failed
  split at failed
  · cases failed
  · cases failed
    exact ⟨_, rfl⟩

theorem internal_failed {α : Type} {faults : Faults} {n : Nat} {what : String} {e : Error}
    (failed : faults.statement n what = .error e) : Internal (.error e : Except Error α) := by
  intro e' same
  cases same
  exact internal_statement faults n what e failed

namespace SqliteStore

theorem internal_readRows (faults : Faults) (n : Nat) (rows : List Row) :
    Internal (readRows faults n rows) := by
  induction rows generalizing n with
  | nil => exact internal_ok []
  | cons row rows ih =>
    exact internal_bind (internal_statement faults n "row") fun _ =>
      internal_bind (ih (n + 1)) fun _ => internal_ok _

theorem internal_get_pending (s : SqliteStore) (o : RowOrder) (faults : Faults) (to_ : Pk)
    (limit : UInt64) : Internal (s.get_pending o faults to_ limit) :=
  internal_bind (internal_statement faults 0 "prepare") fun _ =>
    internal_bind (internal_statement faults 1 "query") fun _ =>
      internal_bind (internal_readRows faults 2 _) fun _ => internal_ok _

theorem internal_put (s : SqliteStore) (o : RowOrder) (faults : Faults) (env : Envelope)
    (drawn : EnvelopeId) : Internal (s.put o faults env drawn).2 := by
  unfold put
  generalize (if env.id = InMemoryStore.zeroId then { env with id := drawn } else env) = assigned
  dsimp only
  split
  · rename_i e failed
    exact internal_failed failed
  · split
    · rename_i e failed
      exact internal_failed failed
    · split
      · split
        · rename_i e failed
          exact internal_failed failed
        · exact internal_ok assigned.id
      · exact internal_ok assigned.id

theorem internal_deleteFrom (faults : Faults) (requester_pk : Pk) (n : Nat) (ids : List EnvelopeId)
    (s : SqliteStore) (deleted : Nat) :
    Internal (deleteFrom faults requester_pk n ids s deleted).2 := by
  induction ids generalizing n s deleted with
  | nil => exact internal_ok deleted
  | cons id ids ih =>
    rw [deleteFrom]
    split
    · rename_i e failed
      exact internal_failed failed
    · exact ih _ _ _

end SqliteStore

theorem internal_perform (svc : SqliteService) (o : RowOrder) (faults : Faults) (pk : Pk)
    (a : Admitted) (now_ms : UInt64) (drawn : EnvelopeId) :
    Internal (svc.perform o faults pk a now_ms drawn).2 := by
  cases a with
  | deliver to_ envelope => exact internal_map (svc.store.internal_put o faults _ drawn) _
  | fetch limit => exact internal_map (svc.store.internal_get_pending o faults pk _) _
  | ack ids => exact internal_map (SqliteStore.internal_deleteFrom faults pk 0 ids svc.store 0) _

/-! ## The limits that the server enforces -/

open LimitsConfig

theorem charge_judge (l : Limiters) (a : Arrival c) :
    judge MAX_ENVELOPE_BYTES l a =
      ((l.charge a.requester_pk a.request a.at_.instant).1,
        .of (l.charge a.requester_pk a.request a.at_.instant).2) := by
  obtain ⟨pk, request, at_, received⟩ := a
  cases request with
  | Deliver to_ envelope =>
    simp only [judge, Limiters.charge]
    cases (l.deliver_limiter.check pk at_.instant).2 with
    | error msg => rfl
    | ok _ =>
      simp only [check_pk_bytes]
      by_cases whole : to_.length = 32
      · by_cases long : envelope.length > MAX_ENVELOPE_BYTES
        · simp [whole, long, Except.isOk, Except.toBool, Verdict.of]
        · simp [whole, long, Except.isOk, Except.toBool, Verdict.of]
      · simp [whole, Except.isOk, Except.toBool, Verdict.of]
  | Fetch limit =>
    simp only [judge, Limiters.charge]
    cases (l.fetch_limiter.check pk at_.instant).2 <;> rfl
  | Ack ids =>
    simp only [judge, Limiters.charge]
    have internal := internal_parseIds 0 ids
    cases parsed : RelayService.parseIds 0 ids with
    | ok ids => rfl
    | error e =>
      obtain ⟨msg, rfl⟩ := internal e parsed
      rfl
  | _ => rfl

namespace Server

/-- The verdict on a request and what it leaves of the limiters come from the
limiters alone. -/
theorem dispatch_judge (s : Server) (o : RowOrder) (faults : Faults) (a : Arrival c) :
    ((s.dispatch o faults a).1.limiters, Verdict.of (s.dispatch o faults a).2) =
      judge MAX_ENVELOPE_BYTES s.limiters a := by
  obtain ⟨service, retention_ms⟩ := s
  rw [charge_judge]
  cases service with
  | in_memory svc =>
    simp only [dispatch, limiters, RelayService.dispatch_eq]
    rcases svc.limiters.charge a.requester_pk a.request a.at_.instant with ⟨l, (e | admitted)⟩
    · cases e <;> rfl
    · cases admitted <;> rfl
  | sqlite svc =>
    simp only [dispatch, limiters, SqliteService.dispatch]
    rcases svc.limiters.charge a.requester_pk a.request a.at_.instant with ⟨l, (e | admitted)⟩
    · cases e <;> rfl
    · have internal := internal_perform { svc with limiters := l } o faults a.requester_pk admitted
        a.at_.now_ms a.at_.drawn
      have kept : (SqliteService.perform { svc with limiters := l } o faults a.requester_pk admitted
          a.at_.now_ms a.at_.drawn).1.limiters = l := by
        cases admitted <;> rfl
      rw [kept, internal.verdict]
      rfl

theorem evict_limiters (s : Server) (faults : Faults) (now_ms : UInt64) :
    (s.evict faults now_ms).limiters = s.limiters := by
  obtain ⟨service, retention_ms⟩ := s
  cases service <;> rfl

theorem verdicts_eq (s : Server) (o : RowOrder) (events : List (ServerEvent c)) :
    s.verdicts o events = judged MAX_ENVELOPE_BYTES s.limiters (ServerEvent.arrivals events) := by
  induction events generalizing s with
  | nil => rfl
  | cons event events ih =>
    cases event with
    | request a faults =>
      simp only [verdicts, ServerEvent.arrivals, List.filterMap_cons, judged]
      rw [ih, ← dispatch_judge s o faults a]
      rfl
    | sweep now_ms faults =>
      simp only [verdicts]
      rw [ih, evict_limiters]
      rfl

@[simp] theorem run_server_limiters (cfg : Config) :
    (run_server cfg).limiters = ⟨.new 30, .new 60⟩ := by
  unfold run_server
  split <;> rfl

end Server

/-! ## Limits that differ are told apart -/

namespace LimitsConfig

/-- A request that one limiter counts and nothing else stops. -/
structure Counts (max_envelope_bytes : Nat) (limiter : Limiters → RateLimiter) (a : Arrival c) :
    Prop where
  limiter_eq : ∀ l, limiter (judge max_envelope_bytes l a).1 =
    (limiter l).call ⟨a.requester_pk, a.at_.instant⟩
  verdict_eq : ∀ l, (judge max_envelope_bytes l a).2 =
    if (limiter l).Admits a.requester_pk a.at_.instant then .passed else .rate_limited

theorem isOk_check (l : RateLimiter) (pk : Pk) (now : ℚ) :
    (l.check pk now).2.isOk = decide (l.Admits pk now) := by
  by_cases admits : l.Admits pk now
  · rw [RateLimiter.check_admits admits, decide_eq_true admits]
    rfl
  · rw [RateLimiter.check_refuses admits, decide_eq_false admits]
    rfl

theorem counts_fetch (max_envelope_bytes : Nat) (pk : Pk) (limit : UInt32) (at_ : Moment)
    (received : Received c (.Fetch limit)) :
    Counts max_envelope_bytes Limiters.fetch_limiter ⟨pk, .Fetch limit, at_, received⟩ where
  limiter_eq _ := rfl
  verdict_eq l := by simp [judge, isOk_check, ite_not]

theorem counts_deliver (max_envelope_bytes : Nat) (pk to_ : Pk) (at_ : Moment)
    (received : Received c (.Deliver to_.val [])) :
    Counts max_envelope_bytes Limiters.deliver_limiter
      ⟨pk, .Deliver to_.val [], at_, received⟩ where
  limiter_eq _ := rfl
  verdict_eq l := by simp [judge, isOk_check, ite_not]

/-- The limiters after `arrivals`. -/
def settled (max_envelope_bytes : Nat) (l : Limiters) (arrivals : List (Arrival c)) : Limiters :=
  run (fun l a => (judge max_envelope_bytes l a).1) l arrivals

theorem judged_snoc (max_envelope_bytes : Nat) (l : Limiters) (arrivals : List (Arrival c))
    (a : Arrival c) :
    judged max_envelope_bytes l (arrivals ++ [a]) = judged max_envelope_bytes l arrivals ++
      [(judge max_envelope_bytes (settled max_envelope_bytes l arrivals) a).2] := by
  induction arrivals generalizing l with
  | nil => rfl
  | cons first arrivals ih =>
    rw [List.cons_append, judged, ih, judged]
    rfl

variable {max_envelope_bytes max_envelope_bytes' : Nat} {limiter : Limiters → RateLimiter}
  {a : Arrival c}

theorem settled_replicate (counts : Counts max_envelope_bytes limiter a) (n : Nat)
    (l : Limiters) : limiter (settled max_envelope_bytes l (.replicate n a)) =
      (limiter l).after (.replicate n ⟨a.requester_pk, a.at_.instant⟩) := by
  induction n generalizing l with
  | zero => rfl
  | succ n ih =>
    have later := ih (judge max_envelope_bytes l a).1
    rw [counts.limiter_eq] at later
    exact later

/-- The request after `n` others like it at one instant. -/
theorem verdict_replicate (counts : Counts max_envelope_bytes limiter a) (start : a.at_.instant = 0)
    {l : Limiters} {max_per_minute n : Nat} (fresh : limiter l = .new max_per_minute)
    (few : n ≤ max_per_minute) :
    (judge max_envelope_bytes (settled max_envelope_bytes l (.replicate n a)) a).2 =
      if n < max_per_minute then .passed else .rate_limited := by
  rw [counts.verdict_eq, settled_replicate counts, fresh, start]
  exact if_congr (RateLimiter.admits_after_replicate a.requester_pk few) rfl rfl

/-- Limiters that give every run of such requests the same verdicts have the same
rate. -/
theorem rates_eq (counts : Counts max_envelope_bytes limiter a)
    (counts' : Counts max_envelope_bytes' limiter a) (start : a.at_.instant = 0)
    {l l' : Limiters} {max_per_minute max_per_minute' : Nat}
    (fresh : limiter l = .new max_per_minute)
    (fresh' : limiter l' = .new max_per_minute')
    (same : ∀ arrivals : List (Arrival c), judged max_envelope_bytes l arrivals =
      judged max_envelope_bytes' l' arrivals) : max_per_minute = max_per_minute' := by
  let n := min max_per_minute max_per_minute'
  have last := same (.replicate n a ++ [a])
  rw [judged_snoc, judged_snoc] at last
  have verdicts := List.singleton_inj.mp
    (List.append_inj' last (by rw [List.length_singleton, List.length_singleton])).2
  rw [verdict_replicate counts start fresh (min_le_left _ _),
    verdict_replicate counts' start fresh' (min_le_right _ _)] at verdicts
  rcases Nat.lt_trichotomy max_per_minute max_per_minute' with less | same_rate | more
  · simp [less, less.le] at verdicts
  · exact same_rate
  · simp [more, more.le] at verdicts

theorem oversize_verdict {l : Limiters} {max_per_minute : Nat} (pk : Pk) {to_ envelope : Bytes}
    (received : Received c (.Deliver to_ envelope)) (whole : to_.length = 32)
    (fresh : l.deliver_limiter = .new max_per_minute) (some_ : 0 < max_per_minute) :
    judged max_envelope_bytes l
        [⟨pk, .Deliver to_ envelope, ⟨0, 0, InMemoryStore.zeroId⟩, received⟩] =
      [if envelope.length > max_envelope_bytes then .too_large else .passed] := by
  have admits : l.deliver_limiter.Admits pk 0 := fresh ▸ RateLimiter.admits_new _ some_ pk 0
  simp [judged, judge, isOk_check, admits, whole]

/-- What a client writes into one transport message is received. -/
theorem received_writer {request : RelayMessage}
    (fits : request.into_writer.length ≤ MAX_TRANSPORT_MSG) : Received c request := by
  have short : MAX_TRANSPORT_MSG < 2 ^ 64 := by decide
  exact ⟨request.into_writer, fits, c.from_reader_into_writer request (by omega)⟩

end LimitsConfig

/-- An envelope of `n` bytes for some recipient can be received. -/
def Brings (c : Ciborium) (n : Nat) : Prop :=
  ∃ to_ envelope : Bytes, to_.length = 32 ∧ envelope.length = n ∧
    Received c (.Deliver to_ envelope)

theorem brings_delivered {n : Nat} (small : n ≤ MAX_DELIVERED) : Brings c n := by
  refine ⟨(FixedBytes.fill 32 1).val, .replicate n 0, (FixedBytes.fill 32 1).property,
    List.length_replicate, received_writer ((Deliver_fits_iff _ _).mpr ?_)⟩
  rw [List.length_replicate]
  exact small

namespace LimitsConfig

/-- Two services give all that can be received the same verdicts only if they have
the same rates and set aside the same envelopes. -/
theorem limits_eq {max_envelope_bytes max_envelope_bytes' deliver deliver' fetch fetch' : Nat}
    (same : ∀ arrivals : List (Arrival c),
      judged max_envelope_bytes ⟨.new deliver, .new fetch⟩ arrivals =
        judged max_envelope_bytes' ⟨.new deliver', .new fetch'⟩ arrivals) (some_ : 0 < deliver) :
    deliver = deliver' ∧ fetch = fetch' ∧
      ∀ n, Brings c n → (n > max_envelope_bytes' ↔ n > max_envelope_bytes) := by
  let pk : Pk := .fill _ 1
  let at_ : Moment := ⟨0, 0, InMemoryStore.zeroId⟩
  have empty : Received c (.Deliver pk.val []) :=
    received_writer ((Deliver_fits_iff pk []).mpr (Nat.zero_le _))
  have fetching : Received c (.Fetch 0) :=
    received_writer ((Fetch_size_le 0).trans (by decide))
  have delivers : deliver = deliver' := rates_eq (counts_deliver _ pk pk at_ empty)
    (counts_deliver _ pk pk at_ empty) rfl rfl rfl same
  have fetches : fetch = fetch' := rates_eq (counts_fetch _ pk 0 at_ fetching)
    (counts_fetch _ pk 0 at_ fetching) rfl rfl rfl same
  refine ⟨delivers, fetches, ?_⟩
  subst delivers
  rintro n ⟨to_, envelope, whole, rfl, received⟩
  have probe := same [⟨pk, .Deliver to_ envelope, at_, received⟩]
  rw [oversize_verdict pk received whole rfl some_, oversize_verdict pk received whole rfl some_,
    List.singleton_inj] at probe
  by_cases large : envelope.length > max_envelope_bytes
  · rw [if_pos large] at probe
    split at probe
    · rename_i large'
      exact iff_of_true large' large
    · cases probe
  · rw [if_neg large] at probe
    split at probe
    · cases probe
    · rename_i small'
      exact iff_of_false small' large

/-- And if so they do. -/
theorem judged_congr {max_envelope_bytes max_envelope_bytes' : Nat}
    (alike : ∀ n, Brings c n → (n > max_envelope_bytes' ↔ n > max_envelope_bytes))
    (l : Limiters) (arrivals : List (Arrival c)) :
    judged max_envelope_bytes l arrivals = judged max_envelope_bytes' l arrivals := by
  have each (l : Limiters) (a : Arrival c) :
      judge max_envelope_bytes l a = judge max_envelope_bytes' l a := by
    obtain ⟨pk, request, at_, received⟩ := a
    cases request with
    | Deliver to_ envelope =>
      have oversize : (to_.length = 32 ∧ envelope.length > max_envelope_bytes) ↔
          (to_.length = 32 ∧ envelope.length > max_envelope_bytes') := by
        refine and_congr_right fun whole => ?_
        exact (alike _ ⟨to_, envelope, whole, rfl, received⟩).symm
      simp only [judge, oversize]
    | _ => rfl
  induction arrivals generalizing l with
  | nil => rfl
  | cons a arrivals ih => rw [judged, judged, each, ih]

end LimitsConfig

theorem arrivals_requests (arrivals : List (Arrival c)) :
    ServerEvent.arrivals (arrivals.map (.request · noFaults)) = arrivals := by
  simp [ServerEvent.arrivals, List.filterMap_map]

/-- Every sequence of requests gets the verdicts that the configured limits give. -/
def Enforces (cfg : Config) (c : Ciborium) (o : RowOrder) : Prop :=
  ∀ events : List (ServerEvent c), (Server.run_server cfg).verdicts o events =
    cfg.limits.verdicts (ServerEvent.arrivals events)

theorem limits_of_enforces {cfg : Config} {o : RowOrder} (enforces : Enforces cfg c o) :
    30 = cfg.limits.deliver_per_minute.toNat ∧ 60 = cfg.limits.fetch_per_minute.toNat ∧
      ∀ n, Brings c n →
        (n > cfg.limits.max_envelope_bytes.toNat ↔ n > MAX_ENVELOPE_BYTES) := by
  have same (arrivals : List (Arrival c)) :
      judged MAX_ENVELOPE_BYTES ⟨.new 30, .new 60⟩ arrivals =
      judged cfg.limits.max_envelope_bytes.toNat
        ⟨.new cfg.limits.deliver_per_minute.toNat, .new cfg.limits.fetch_per_minute.toNat⟩
        arrivals := by
    have alike := enforces (arrivals.map (.request · noFaults))
    rw [Server.verdicts_eq, Server.run_server_limiters, arrivals_requests] at alike
    exact alike
  exact limits_eq same (by decide)

/-- So the maximum leaves room for all that a client can send. -/
theorem delivered_le_of_enforces {cfg : Config} {o : RowOrder} (enforces : Enforces cfg c o) :
    MAX_DELIVERED ≤ cfg.limits.max_envelope_bytes.toNat := by
  obtain ⟨-, -, alike⟩ := limits_of_enforces enforces
  by_contra low
  have oversize := (alike _ (brings_delivered le_rfl)).mp (Nat.lt_of_not_le low)
  exact absurd oversize (by decide)

/-- The server enforces the limits of its config exactly where the rates are the
built-in ones and no envelope that can be received is between the two maxima. -/
theorem configured_limits_enforced_iff (file : ConfigFile) (c : Ciborium) (o : RowOrder) :
    Enforces (.load file) c o ↔
      (Config.load file).limits.deliver_per_minute = 30 ∧
      (Config.load file).limits.fetch_per_minute = 60 ∧
      ∀ n, Brings c n →
        (n > (Config.load file).limits.max_envelope_bytes.toNat ↔ n > MAX_ENVELOPE_BYTES) := by
  constructor
  · intro enforces
    obtain ⟨delivers, fetches, envelopes⟩ := limits_of_enforces enforces
    exact ⟨UInt32.toNat_inj.mp delivers.symm, UInt32.toNat_inj.mp fetches.symm, envelopes⟩
  · intro ⟨delivers, fetches, envelopes⟩ events
    rw [Server.verdicts_eq, Server.run_server_limiters, LimitsConfig.verdicts, delivers, fetches]
    exact judged_congr envelopes _ _

/-- A file that allows one delivery a minute. -/
theorem configured_limit_not_enforced : ¬ ∀ (file : ConfigFile) (c : Ciborium) (o : RowOrder)
    (events : List (ServerEvent c)), (Server.run_server (.load file)).verdicts o events =
      (Config.load file).limits.verdicts (ServerEvent.arrivals events) := by
  intro enforced
  have enforces : Enforces (.load ⟨none, some ⟨some 1, none, none⟩⟩) .definite (.stable _) :=
    enforced _ _ _
  have delivers := (limits_of_enforces enforces).1
  exact absurd delivers (by decide)

end Qev.Relay
