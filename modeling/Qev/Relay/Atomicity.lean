import Qev.Relay.Admission
import Qev.Relay.Sqlite

/-! The relay over a `SqliteStore` whose statements may fail: what an error
reply leaves in the store. -/

namespace Qev.Relay

/-! ## The service -/

/-- `RelayService<SqliteStore>`. -/
structure SqliteService where
  store : SqliteStore
  limiters : Limiters

namespace SqliteService

/-- The call of the store and the answer built from what it returns. -/
def perform (svc : SqliteService) (o : RowOrder) (faults : Faults) (requester_pk : Pk)
    (a : Admitted) (now_ms : UInt64) (drawn : EnvelopeId) :
    SqliteService × Except Error RelayMessage :=
  match a with
  | .deliver to_ envelope =>
    let env : Envelope := ⟨InMemoryStore.zeroId, to_, requester_pk, envelope, now_ms⟩
    let (store, id) := svc.store.put o faults env drawn
    ({ svc with store }, id.map fun id => .DeliverResult id.val)
  | .fetch limit =>
    let fetched := svc.store.get_pending o faults requester_pk (.ofNat (RelayService.take limit))
    (svc, fetched.map fun r => .FetchResult (r.1.map RelayService.toWire) r.2)
  | .ack ids =>
    let (store, deleted) := svc.store.delete faults requester_pk ids
    ({ svc with store }, deleted.map fun n => .AckResult (UInt32.ofNat n))

def dispatch (svc : SqliteService) (o : RowOrder) (faults : Faults) (requester_pk : Pk)
    (request : RelayMessage) (at_ : Moment) : SqliteService × Except Error RelayMessage :=
  match svc.limiters.charge requester_pk request at_.instant with
  | (limiters, .error e) => ({ svc with limiters }, .error e)
  | (limiters, .ok a) =>
    perform { svc with limiters } o faults requester_pk a at_.now_ms at_.drawn

def respond (svc : SqliteService) (o : RowOrder) (faults : Faults) (peer_pk : Pk)
    (request : RelayMessage) (at_ : Moment) : SqliteService × RelayMessage :=
  match svc.dispatch o faults peer_pk request at_ with
  | (svc, .ok r) => (svc, r)
  | (svc, .error e) => (svc, .Error (RelayService.errorCode e) e.display)

end SqliteService

/-! ## What is pending -/

namespace SqliteStore

/-- The envelopes that the store holds for a recipient. -/
def pending (s : SqliteStore) (to_ : Pk) : List Envelope := (s.rowsOf to_).filterMap Row.envelope

/-- Every recipient has the same envelopes pending in both. -/
def SamePending (s s' : SqliteStore) : Prop := ∀ to_ e, e ∈ s'.pending to_ ↔ e ∈ s.pending to_

theorem ofEnvelope_envelope {row : Row} {e : Envelope} (h : row.envelope = some e) :
    row = .ofEnvelope e := by
  rw [Row.envelope] at h
  split at h
  · cases h
    rfl
  · cases h

theorem mem_pending {s : SqliteStore} {to_ : Pk} {e : Envelope} :
    e ∈ s.pending to_ ↔ .ofEnvelope e ∈ s.table.rows ∧ e.to_ = to_ := by
  constructor
  · intro mem
    obtain ⟨row, held, read⟩ := List.mem_filterMap.mp mem
    obtain rfl := ofEnvelope_envelope read
    obtain ⟨here, mine⟩ := List.mem_filter.mp held
    exact ⟨here, Subtype.ext (of_decide_eq_true mine)⟩
  · rintro ⟨here, rfl⟩
    refine List.mem_filterMap.mpr ⟨_, List.mem_filter.mpr ⟨here, ?_⟩, Row.envelope_ofEnvelope e⟩
    exact decide_eq_true rfl

theorem samePending_of_rows {s s' : SqliteStore}
    (h : ∀ e, Row.ofEnvelope e ∈ s'.table.rows ↔ .ofEnvelope e ∈ s.table.rows) :
    SamePending s s' := by
  intro to_ e
  rw [mem_pending, mem_pending, h e]

/-- An insertion shows exactly where the envelope is not already there. -/
theorem samePending_insert_iff (s : SqliteStore) (e : Envelope) :
    SamePending s { s with table := s.table.insertOrReplace (.ofEnvelope e) } ↔
      e ∈ s.pending e.to_ := by
  constructor
  · intro same
    rw [← same e.to_ e, mem_pending]
    exact ⟨Table.mem_insertOrReplace.mpr (.inr rfl), rfl⟩
  · intro there
    have held := (mem_pending.mp there).1
    apply samePending_of_rows
    intro other
    rw [Table.mem_insertOrReplace]
    constructor
    · rintro (⟨old, -⟩ | new)
      · exact old
      · exact new ▸ held
    · intro old
      by_cases key : (Row.ofEnvelope other).id = (Row.ofEnvelope e).id
      · exact .inr (s.table.eq_of_key old held key)
      · exact .inl ⟨old, key⟩

/-- A deletion shows exactly where it names something pending. -/
theorem samePending_delete_iff (s : SqliteStore) (requester_pk : Pk) (ids : List EnvelopeId) :
    SamePending s { s with table := (s.table.deleteWhere (named requester_pk ids)).1 } ↔
      ∀ e ∈ s.pending requester_pk, e.id ∉ ids := by
  constructor
  · intro same e held mem
    have there := (mem_pending.mp ((same requester_pk e).mpr held)).1
    have unnamed := (Table.mem_deleteWhere.mp there).2
    have mine := (mem_pending.mp held).2
    rw [(named_ofEnvelope requester_pk ids e).mpr ⟨mine, mem⟩] at unnamed
    cases unnamed
  · intro apart
    apply samePending_of_rows
    intro e
    rw [Table.mem_deleteWhere]
    constructor
    · exact And.left
    · intro held
      refine ⟨held, Bool.eq_false_iff.mpr fun mine => ?_⟩
      obtain ⟨rfl, mem⟩ := (named_ofEnvelope requester_pk ids e).mp mine
      exact apart e (mem_pending.mpr ⟨held, rfl⟩) mem

/-- Deleting stops at the first statement that fails. -/
theorem deleteFrom_cases (faults : Faults) (requester_pk : Pk) (n : Nat) (ids : List EnvelopeId)
    (s : SqliteStore) (deleted : Nat) :
    (∃ k e, k < ids.length ∧ (faults (n + k)).isSome ∧ (∀ j < k, faults (n + j) = none) ∧
      deleteFrom faults requester_pk n ids s deleted =
        ({ s with table := (s.table.deleteWhere (named requester_pk (ids.take k))).1 }, .error e)) ∨
    ((∀ k < ids.length, faults (n + k) = none) ∧
      ∃ m, (deleteFrom faults requester_pk n ids s deleted).2 = .ok m) := by
  induction ids generalizing n s deleted with
  | nil =>
    refine .inr ⟨?_, deleted, rfl⟩
    intro k short
    cases short
  | cons id ids ih =>
    simp only [deleteFrom, Faults.statement]
    cases first : faults n with
    | some e =>
      refine .inl ⟨0, .Internal s!"sqlite delete: {e}", Nat.succ_pos _,
        by rw [Nat.add_zero, first]; rfl, ?_, ?_⟩
      · intro j earlier
        cases earlier
      · simp [named, Table.deleteWhere]
        rfl
    | none =>
      have later (j : Nat) : faults (n + (j + 1)) = faults (n + 1 + j) := by
        rw [Nat.add_comm j 1, Nat.add_assoc]
      dsimp only
      rcases ih (n + 1) { s with table := (s.table.deleteWhere fun row =>
          row.id = id.val && addressed requester_pk row).1 }
          (deleted +
            s.table.rows.countP fun row => row.id = id.val && addressed requester_pk row) with
        ⟨k, e, short, fails, before, same⟩ | ⟨clean, m, same⟩
      · refine .inl ⟨k + 1, e, Nat.succ_lt_succ short, by rw [later]; exact fails, ?_, ?_⟩
        · intro j le
          cases j with
          | zero => exact first
          | succ j => rw [later]; exact before j (Nat.lt_of_succ_lt_succ le)
        · apply same.trans
          rw [Table.deleteWhere_twice, List.take_succ_cons]
          simp only [named_cons]
      · refine .inr ⟨?_, m, same⟩
        intro k short
        cases k with
        | zero => exact first
        | succ k => rw [later]; exact clean k (Nat.lt_of_succ_lt_succ short)

/-- The insertion of `put` goes through and a later statement, one that is come
to, does not. The eviction is come to where the recipient has as many other
rows as the cap allows. -/
def StopsAfterInsert (s : SqliteStore) (faults : Faults) (to_ : Pk) (id : EnvelopeId) : Prop :=
  faults 0 = none ∧ ((faults 1).isSome ∨
    (faults 2).isSome ∧ s.max_per_recipient ≤ (s.rowsOf to_).countP (·.id ≠ id.val))

theorem count_insert (s : SqliteStore) (e : Envelope) :
    ({ s with table := s.table.insertOrReplace (.ofEnvelope e) } : SqliteStore).rowsOf e.to_ =
      (s.rowsOf e.to_).filter (·.id ≠ e.id.val) ++ [.ofEnvelope e] := by
  have mine : addressed e.to_ (.ofEnvelope e) = true := decide_eq_true rfl
  simp only [rowsOf, Table.select, Table.insertOrReplace, List.filter_append, List.filter_cons,
    mine, ↓reduceIte, List.filter_nil]
  rw [List.filter_comm]
  rfl

theorem put_cases (s : SqliteStore) (o : RowOrder) (faults : Faults) {env : Envelope}
    (zero : env.id = InMemoryStore.zeroId) (drawn : EnvelopeId) :
    ((faults 0).isSome ∧ ∃ err, s.put o faults env drawn = (s, .error err)) ∨
    (StopsAfterInsert s faults env.to_ drawn ∧ ∃ err, s.put o faults env drawn =
      ({ s with table := s.table.insertOrReplace (.ofEnvelope { env with id := drawn }) },
        .error err)) ∨
    (¬ (faults 0).isSome ∧ ¬ StopsAfterInsert s faults env.to_ drawn ∧
      ∃ id, (s.put o faults env drawn).2 = .ok id) := by
  have count := congrArg List.length (count_insert s { env with id := drawn })
  rw [List.length_append, ← List.countP_eq_length_filter, List.length_singleton] at count
  simp only [put, zero, ↓reduceIte, Faults.statement]
  cases first : faults 0 with
  | some e => exact .inl ⟨rfl, _, rfl⟩
  | none =>
    apply Or.inr
    cases second : faults 1 with
    | some e => exact .inl ⟨⟨first, .inl (by rw [second]; rfl)⟩, _, rfl⟩
    | none =>
      dsimp only at count ⊢
      split
      · rename_i beyond
        have full : s.max_per_recipient ≤ (s.rowsOf env.to_).countP (·.id ≠ drawn.val) := by
          rw [count] at beyond
          exact Nat.le_of_lt_succ beyond
        cases third : faults 2 with
        | some e => exact .inl ⟨⟨first, .inr ⟨by rw [third]; rfl, full⟩⟩, _, rfl⟩
        | none => exact .inr ⟨Bool.false_ne_true, by simp [StopsAfterInsert, second, third], _, rfl⟩
      · rename_i under
        have room : ¬ s.max_per_recipient ≤ (s.rowsOf env.to_).countP (·.id ≠ drawn.val) := by
          rw [count] at under
          omega
        refine .inr ⟨Bool.false_ne_true, ?_, _, rfl⟩
        rintro ⟨-, fails | ⟨-, full⟩⟩
        · rw [second] at fails
          cases fails
        · exact room full

end SqliteStore

/-! ## Error replies -/

namespace SqliteService

open SqliteStore

/-- What keeps an error reply from leaving a change behind: a delivery whose
insertion goes through has no later statement that fails, unless the envelope
was there before; and no id that an acknowledgement deletes before the one that
fails is pending. -/
def Unspoilt (svc : SqliteService) (faults : Faults) (requester_pk : Pk) (request : RelayMessage)
    (at_ : Moment) : Prop :=
  match (svc.limiters.charge requester_pk request at_.instant).2 with
  | .ok (.deliver to_ envelope) => StopsAfterInsert svc.store faults to_ at_.drawn →
    ⟨at_.drawn, to_, requester_pk, envelope, at_.now_ms⟩ ∈ svc.store.pending to_
  | .ok (.ack ids) => ∀ k < ids.length, (faults k).isSome → (∀ j < k, faults j = none) →
    ∀ e ∈ svc.store.pending requester_pk, e.id ∉ ids.take k
  | .ok (.fetch _) | .error _ => True

/-- If the reply is an error, the store holds for everyone what it held. -/
def KeepsOnError (svc : SqliteService) (o : RowOrder) (faults : Faults) (pk : Pk)
    (request : RelayMessage) (at_ : Moment) : Prop :=
  ∀ code msg, (svc.respond o faults pk request at_).2 = .Error code msg →
    SamePending svc.store (svc.respond o faults pk request at_).1.store

variable {svc svc' : SqliteService} {o : RowOrder} {faults : Faults} {pk : Pk}
  {request : RelayMessage} {at_ : Moment}

theorem keepsOnError_of_error {e : Error}
    (failed : svc.dispatch o faults pk request at_ = (svc', .error e)) :
    KeepsOnError svc o faults pk request at_ ↔ SamePending svc.store svc'.store := by
  simp only [KeepsOnError, respond, failed]
  constructor
  · intro keeps
    exact keeps _ _ rfl
  · intro same _ _ _
    exact same

theorem keepsOnError_of_ok {r : RelayMessage}
    (served : svc.dispatch o faults pk request at_ = (svc', .ok r))
    (answer : ∀ code msg, r ≠ .Error code msg) : KeepsOnError svc o faults pk request at_ := by
  intro code msg replied
  rw [respond, served] at replied
  exact absurd replied (answer code msg)

/-- An error reply leaves every recipient's envelopes as they were exactly
where the request meets the condition. -/
theorem keepsOnError_iff (svc : SqliteService) (o : RowOrder) (faults : Faults) (pk : Pk)
    (request : RelayMessage) (at_ : Moment) :
    KeepsOnError svc o faults pk request at_ ↔ Unspoilt svc faults pk request at_ := by
  rw [Unspoilt]
  rcases admitted : svc.limiters.charge pk request at_.instant with ⟨limiters, (e | a)⟩
  · have failed : svc.dispatch o faults pk request at_ = ({ svc with limiters }, .error e) := by
      rw [dispatch, admitted]
    rw [keepsOnError_of_error failed]
    exact iff_true_intro fun _ _ => Iff.rfl
  have called : svc.dispatch o faults pk request at_ =
      perform { svc with limiters } o faults pk a at_.now_ms at_.drawn := by
    rw [dispatch, admitted]
  cases a with
  | fetch limit =>
    simp only [perform] at called
    cases fetched : svc.store.get_pending o faults pk (.ofNat (RelayService.take limit)) with
    | error e =>
      rw [fetched] at called
      rw [keepsOnError_of_error called]
      exact iff_true_intro fun _ _ => Iff.rfl
    | ok r =>
      rw [fetched] at called
      exact iff_true_intro (keepsOnError_of_ok called nofun)
  | deliver to_ envelope =>
    rw [perform] at called
    rcases put_cases svc.store o faults
      (rfl : (⟨InMemoryStore.zeroId, to_, pk, envelope, at_.now_ms⟩ : Envelope).id = _)
      at_.drawn with ⟨first, e, put⟩ | ⟨stops, e, put⟩ | ⟨first, runs, id, put⟩
    · rw [put] at called
      rw [keepsOnError_of_error called]
      apply iff_of_true (fun _ _ => Iff.rfl)
      intro stops
      rw [stops.1] at first
      cases first
    · rw [put] at called
      rw [keepsOnError_of_error called, samePending_insert_iff]
      exact ⟨fun there _ => there, fun there => there stops⟩
    · dsimp only at called
      rw [put] at called
      exact iff_of_true (keepsOnError_of_ok called nofun) fun stops => absurd stops runs
  | ack ids =>
    rw [perform, delete] at called
    rcases deleteFrom_cases faults pk 0 ids svc.store 0 with ⟨k, e, short, fails, before, same⟩ |
      ⟨clean, n, same⟩
    · simp only [Nat.zero_add] at fails before
      rw [same] at called
      rw [keepsOnError_of_error called, samePending_delete_iff]
      constructor
      · intro apart j _ fails' before' env held
        have first : j = k := by
          by_contra other
          rcases Nat.lt_or_gt_of_ne other with less | more
          · rw [before j less] at fails'
            cases fails'
          · rw [before' k more] at fails
            cases fails
        exact first ▸ apart env held
      · intro apart env held
        exact apart k short fails before env held
    · dsimp only at called
      rw [same] at called
      apply iff_of_true (keepsOnError_of_ok called nofun)
      intro k short fails
      have none := clean k short
      rw [Nat.zero_add] at none
      rw [none] at fails
      cases fails

/-- The insertion of a delivery goes through and the count after it fails: the
sender is told of an error and the recipient gets the envelope. -/
theorem delivered_with_error : ¬ ∀ (svc : SqliteService) (o : RowOrder) (faults : Faults) (pk : Pk)
    (request : RelayMessage) (at_ : Moment), KeepsOnError svc o faults pk request at_ := by
  intro all
  let svc : SqliteService := ⟨.open_ 100, .new 30, .new 60⟩
  let faults : Faults := fun n => if n = 1 then some "disk I/O error" else none
  let request : RelayMessage := .Deliver (FixedBytes.fill 32 1).val [7]
  let at_ : Moment := ⟨0, 0, FixedBytes.fill _ 9⟩
  let env : Envelope := ⟨FixedBytes.fill _ 9, FixedBytes.fill _ 1, FixedBytes.fill _ 2, [7], 0⟩
  have replied : (svc.respond (.stable Row.time) faults (FixedBytes.fill _ 2) request at_).2 =
      .Error "internal" "internal: sqlite count: disk I/O error" := by decide +kernel
  have same := all svc (.stable Row.time) faults (FixedBytes.fill _ 2) request at_ _ _ replied
  have after : env ∈ (svc.respond (.stable Row.time) faults (FixedBytes.fill _ 2) request
      at_).1.store.pending (FixedBytes.fill _ 1) := by decide +kernel
  have before := (same (FixedBytes.fill _ 1) env).mp after
  exact absurd before (by decide)

end SqliteService

end Qev.Relay
