import Qev.Lib.Table
import Qev.Relay.Accounting

/-! `SqliteStore` of `sqlite_store.rs`. A call runs its statements one after
another, each on its own: there is no transaction around them. -/

namespace Qev.Relay

/-- A row of `envelopes`. -/
structure Row where
  id : Bytes
  to_pk : Bytes
  from_pk : Bytes
  bytes : Bytes
  created_at : Int64
  deriving DecidableEq

namespace Row

/-- The row that `put` writes. -/
def ofEnvelope (e : Envelope) : Row :=
  ⟨e.id.val, e.to_.val, e.from_.val, e.bytes, e.created_at.toInt64⟩

/-- What `get_pending` makes of a row; nothing of a corrupt one. -/
def envelope (row : Row) : Option Envelope :=
  if h : row.id.length = ENVELOPE_ID_BYTES ∧ row.to_pk.length = 32 ∧ row.from_pk.length = 32 then
    some ⟨⟨row.id, h.1⟩, ⟨row.to_pk, h.2.1⟩, ⟨row.from_pk, h.2.2⟩, row.bytes,
      row.created_at.toUInt64⟩
  else none

/-- The column that both queries order by. -/
def time (row : Row) : Int := row.created_at.toInt

@[simp] theorem envelope_ofEnvelope (e : Envelope) : (ofEnvelope e).envelope = some e := by
  have lengths : e.id.val.length = ENVELOPE_ID_BYTES ∧ e.to_.val.length = 32 ∧
      e.from_.val.length = 32 := ⟨e.id.property, e.to_.property, e.from_.property⟩
  simp [envelope, ofEnvelope, lengths]

theorem ofEnvelope_injective {a b : Envelope} (same : ofEnvelope a = ofEnvelope b) : a = b := by
  have read := congrArg envelope same
  simpa using read

end Row

structure SqliteStore where
  table : Table Row.id
  max_per_recipient : Nat

/-- The orders in which the queries of a call may return rows. -/
abbrev RowOrder := OrderBy Row.time

/-- Which statements of a call fail, counted from 0, and with what message. A
statement that fails changes nothing. -/
abbrev Faults := Nat → Option String

def noFaults : Faults := fun _ => none

/-- Statement number `n` of a call. -/
def Faults.statement (faults : Faults) (n : Nat) (what : String) : Except Error Unit :=
  match faults n with
  | none => .ok ()
  | some e => .error (.Internal s!"sqlite {what}: {e}")

/-- `LIMIT`; a negative one is none. -/
def limited {ρ : Type} (n : Int64) (rows : List ρ) : List ρ :=
  if n < 0 then rows else rows.take n.toInt.toNat

namespace SqliteStore

def open_ (max_per_recipient : Nat) : SqliteStore := ⟨.empty Row.id, max_per_recipient⟩

def addressed (to_ : Pk) (row : Row) : Bool := row.to_pk = to_.val

/-- The rows of a recipient, in the order of the table. -/
def rowsOf (s : SqliteStore) (to_ : Pk) : List Row := s.table.select (addressed to_)

def put (s : SqliteStore) (o : RowOrder) (faults : Faults) (env : Envelope) (drawn : EnvelopeId) :
    SqliteStore × Except Error EnvelopeId :=
  let env := if env.id = InMemoryStore.zeroId then { env with id := drawn } else env
  match faults.statement 0 "insert" with
  | .error e => (s, .error e)
  | .ok () =>
    let s := { s with table := s.table.insertOrReplace (.ofEnvelope env) }
    match faults.statement 1 "count" with
    | .error e => (s, .error e)
    | .ok () =>
      let count := (s.rowsOf env.to_).length
      if count > s.max_per_recipient then
        let excess := count - s.max_per_recipient
        match faults.statement 2 "evict" with
        | .error e => (s, .error e)
        | .ok () =>
          let oldest := ((o.sort (s.rowsOf env.to_)).take excess).map Row.id
          ({ s with table := (s.table.deleteWhere fun row => oldest.contains row.id).1 },
            .ok env.id)
      else (s, .ok env.id)

/-- The loop over the rows of a query; corrupt ones are skipped. -/
def readRows (faults : Faults) : Nat → List Row → Except Error (List Envelope)
  | _, [] => .ok []
  | n, row :: rows => do
    faults.statement n "row"
    let envs ← readRows faults (n + 1) rows
    return row.envelope.toList ++ envs

/-- The sum `lim + 1` wraps around. -/
def get_pending (s : SqliteStore) (o : RowOrder) (faults : Faults) (to_ : Pk) (limit : UInt64) :
    Except Error (List Envelope × Bool) := do
  let lim := limit.toInt64
  faults.statement 0 "prepare"
  faults.statement 1 "query"
  let envs ← readRows faults 2 (limited (lim + 1) (o.sort (s.rowsOf to_)))
  let has_more := decide (envs.length > limit.toNat)
  return (if has_more then envs.take limit.toNat else envs, has_more)

/-- The loop over the ids, from statement `n` on. -/
def deleteFrom (faults : Faults) (requester_pk : Pk) :
    Nat → List EnvelopeId → SqliteStore → Nat → SqliteStore × Except Error Nat
  | _, [], s, deleted => (s, .ok deleted)
  | n, id :: ids, s, deleted =>
    match faults.statement n "delete" with
    | .error e => (s, .error e)
    | .ok () =>
      let (table, k) := s.table.deleteWhere fun row => row.id = id.val && addressed requester_pk row
      deleteFrom faults requester_pk (n + 1) ids { s with table } (deleted + k)

def delete (s : SqliteStore) (faults : Faults) (requester_pk : Pk) (ids : List EnvelopeId) :
    SqliteStore × Except Error Nat :=
  deleteFrom faults requester_pk 0 ids s 0

def count_pending (s : SqliteStore) (faults : Faults) (to_ : Pk) : Except Error Nat := do
  faults.statement 0 "count"
  return (s.rowsOf to_).length

def evict_older_than (s : SqliteStore) (faults : Faults) (now_ms max_age_ms : UInt64) :
    SqliteStore × Except Error Nat :=
  let cutoff := (UInt64.ofNat (now_ms.toNat - max_age_ms.toNat)).toInt64
  match faults.statement 0 "evict" with
  | .error e => (s, .error e)
  | .ok () =>
    let (table, n) := s.table.deleteWhere fun row => row.created_at < cutoff
    ({ s with table }, .ok n)

/-- One call of the store, whichever it is. -/
def call (s : SqliteStore) (o : RowOrder) (faults : Faults) :
    StoreCall → SqliteStore × Except Error StoreReply
  | .put env drawn => let (s, id) := s.put o faults env drawn; (s, id.map .id)
  | .get_pending to_ limit =>
    (s, (s.get_pending o faults to_ limit).map fun r => .pending r.1 r.2)
  | .delete requester_pk ids => let (s, n) := s.delete faults requester_pk ids; (s, n.map .deleted)
  | .count_pending to_ => (s, (s.count_pending faults to_).map .count)
  | .evict_older_than now_ms max_age_ms =>
    let (s, n) := s.evict_older_than faults now_ms max_age_ms; (s, n.map .evicted)

/-! ## The statements without faults -/

@[simp] theorem statement_noFaults (n : Nat) (what : String) :
    noFaults.statement n what = .ok () := rfl

/-- What the rows of a recipient come to after `put`, if no statement fails. -/
theorem put_noFaults (s : SqliteStore) (o : RowOrder) (env : Envelope) (drawn : EnvelopeId) :
    let row := Row.ofEnvelope (InMemoryStore.assigned env drawn)
    let inserted : SqliteStore := { s with table := s.table.insertOrReplace row }
    let excess := (inserted.rowsOf env.to_).length - s.max_per_recipient
    let oldest := ((o.sort (inserted.rowsOf env.to_)).take excess).map Row.id
    s.put o noFaults env drawn =
      ({ s with table := (inserted.table.deleteWhere fun row => oldest.contains row.id).1 },
        .ok (InMemoryStore.assigned env drawn).id) := by
  intro row inserted excess oldest
  have to_ := InMemoryStore.assigned_to env drawn
  simp only [put, statement_noFaults]
  rw [show (if env.id = InMemoryStore.zeroId then { env with id := drawn } else env) =
    InMemoryStore.assigned env drawn from rfl, to_]
  split
  · rfl
  · rename_i under
    have none : oldest = [] := by
      have zero : excess = 0 := Nat.sub_eq_zero_of_le (Nat.not_lt.mp under)
      rw [show oldest = ((o.sort (inserted.rowsOf env.to_)).take excess).map Row.id from rfl, zero]
      rfl
    have same : (inserted.table.deleteWhere fun row => oldest.contains row.id).1 =
        inserted.table := by
      simp [none, Table.deleteWhere]
    rw [same]

theorem readRows_noFaults (n : Nat) (rows : List Row) :
    readRows noFaults n rows = .ok (rows.filterMap Row.envelope) := by
  induction rows generalizing n with
  | nil => rfl
  | cons row rows ih =>
    rw [readRows, ih]
    cases h : row.envelope <;> simp [h]

/-- The rows that deleting `ids` takes. -/
def named (requester_pk : Pk) (ids : List EnvelopeId) (row : Row) : Bool :=
  addressed requester_pk row && ids.any (row.id = ·.val)

theorem named_cons (requester_pk : Pk) (id : EnvelopeId) (ids : List EnvelopeId) (row : Row) :
    (decide (row.id = id.val) && addressed requester_pk row || named requester_pk ids row) =
      named requester_pk (id :: ids) row := by
  rw [named, named, List.any_cons, Bool.and_or_distrib_left, Bool.and_comm (decide _)]

theorem named_ofEnvelope (requester_pk : Pk) (ids : List EnvelopeId) (e : Envelope) :
    named requester_pk ids (.ofEnvelope e) = true ↔ e.to_ = requester_pk ∧ e.id ∈ ids := by
  have ids_ : ids.any ((Row.ofEnvelope e).id = ·.val) = true ↔ e.id ∈ ids := by
    rw [List.any_eq_true]
    constructor
    · rintro ⟨id, mem, same⟩
      exact Subtype.ext (of_decide_eq_true same) ▸ mem
    · intro mem
      exact ⟨e.id, mem, decide_eq_true rfl⟩
  rw [named, Bool.and_eq_true, ids_, addressed, decide_eq_true_eq]
  exact and_congr_left' Subtype.ext_iff.symm

theorem deleteFrom_noFaults (requester_pk : Pk) (n : Nat) (ids : List EnvelopeId) (s : SqliteStore)
    (deleted : Nat) :
    deleteFrom noFaults requester_pk n ids s deleted =
      ({ s with table := (s.table.deleteWhere (named requester_pk ids)).1 },
        .ok (deleted + s.table.rows.countP (named requester_pk ids))) := by
  induction ids generalizing n s deleted with
  | nil => simp [deleteFrom, Table.deleteWhere, named]
  | cons id ids ih =>
    simp only [deleteFrom, statement_noFaults]
    rw [ih]
    have rest := Table.countP_twice s.table.rows
      (fun row => decide (row.id = id.val) && addressed requester_pk row) (named requester_pk ids)
    simp only [named_cons] at rest
    dsimp only
    rw [Table.deleteWhere_twice, Table.deleteWhere_snd, Nat.add_assoc, ← rest]
    simp only [named_cons]
    rfl

end SqliteStore

end Qev.Relay
