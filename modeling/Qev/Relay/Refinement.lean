import Qev.Relay.Sqlite

/-! `SqliteStore` against `InMemoryStore`: a table read in the order of its
timestamps against queues in the order of their puts. -/

namespace Qev.Relay

open InMemoryStore (assigned assigned_to)

/-- A call of the store with the orders in which its queries return rows. -/
abbrev OrderedCall := StoreCall × RowOrder

/-- The store, new with this cap, after a sequence of calls without faults. -/
def SqliteStore.after (max : Nat) (calls : List OrderedCall) : SqliteStore :=
  run (fun s c => (s.call c.2 noFaults c.1).1) (.open_ max) calls

/-- What a call has to meet for the two to stay alike: a put is later than
everything its recipient has pending, as signed numbers; the cutoff of an
eviction and the timestamps it is compared with do not lie on both sides of
2^63; and nobody with something pending asks for `usize::MAX` envelopes. -/
def Steady (s : InMemoryStore) : StoreCall → Prop
  | .put env _ => ∀ e ∈ s.pending env.to_, e.created_at.toInt64 < env.created_at.toInt64
  | .evict_older_than now_ms max_age_ms => ∀ to_, ∀ e ∈ s.pending to_,
    (e.created_at.toNat < 2 ^ 63 ↔ now_ms.toNat - max_age_ms.toNat < 2 ^ 63)
  | .get_pending to_ limit => limit.toNat = 2 ^ 64 - 1 → s.pending to_ = []
  | .delete .. | .count_pending _ => True

/-! ## One table for all the queues -/

/-- The rows of every recipient are the envelopes of its queue, in that order,
each later than the one before. -/
structure Simulates (s : InMemoryStore) (t : SqliteStore) : Prop where
  cap : t.max_per_recipient = s.max_per_recipient
  rows : ∀ to_, t.rowsOf to_ = (s.pending to_).map Row.ofEnvelope
  owned : ∀ row ∈ t.table.rows, ∃ e, row = Row.ofEnvelope e
  addressed : ∀ to_, ∀ e ∈ s.pending to_, e.to_ = to_
  increasing : ∀ to_, (s.pending to_).Pairwise fun a b =>
    a.created_at.toInt64 < b.created_at.toInt64

variable {s : InMemoryStore} {t : SqliteStore}

theorem time_increasing {q : List Envelope}
    (h : q.Pairwise fun a b => a.created_at.toInt64 < b.created_at.toInt64) :
    (q.map Row.ofEnvelope).Pairwise (Row.time · < Row.time ·) :=
  List.pairwise_map.mpr (h.imp Int64.lt_iff_toInt_lt.mp)

/-- A row of the table is a pending envelope's. -/
theorem Simulates.mem_rows (sim : Simulates s t) {row : Row} (mem : row ∈ t.table.rows) :
    ∃ e ∈ s.pending e.to_, row = Row.ofEnvelope e := by
  obtain ⟨e, rfl⟩ := sim.owned row mem
  have mine : Row.ofEnvelope e ∈ t.rowsOf e.to_ := List.mem_filter.mpr ⟨mem, decide_eq_true rfl⟩
  rw [sim.rows] at mine
  obtain ⟨e', held, same⟩ := List.mem_map.mp mine
  rw [Row.ofEnvelope_injective same] at held
  exact ⟨e, held, rfl⟩

theorem rowsOf_insert (t : SqliteStore) {e : Envelope}
    (fresh : ∀ row ∈ t.table.rows, row.id ≠ e.id.val) (to_ : Pk) :
    ({ t with table := t.table.insertOrReplace (.ofEnvelope e) } : SqliteStore).rowsOf to_ =
      if to_ = e.to_ then t.rowsOf to_ ++ [.ofEnvelope e] else t.rowsOf to_ := by
  have rows : (t.table.insertOrReplace (.ofEnvelope e)).rows = _ :=
    Table.insertOrReplace_fresh fresh
  simp only [SqliteStore.rowsOf, Table.select, rows, List.filter_append]
  by_cases same : to_ = e.to_
  · subst same
    have mine : SqliteStore.addressed e.to_ (.ofEnvelope e) = true := decide_eq_true rfl
    simp [mine]
  · have other : SqliteStore.addressed to_ (.ofEnvelope e) = false :=
      decide_eq_false fun eq => same (Subtype.ext eq.symm)
    simp [other, same]

/-- Deleting by the ids of some rows of one recipient leaves the others' rows. -/
theorem rowsOf_delete_other (t : SqliteStore) {to_ other : Pk} (apart : other ≠ to_)
    {ids : List Bytes} (mine : ∀ id ∈ ids, ∃ row ∈ t.rowsOf to_, row.id = id) :
    (t.rowsOf other).filter (fun row => !ids.contains row.id) = t.rowsOf other := by
  rw [List.filter_eq_self]
  intro row mem
  rw [Bool.not_eq_true', List.contains_eq_mem, decide_eq_false_iff_not]
  intro found
  obtain ⟨row', held, same⟩ := mine _ found
  obtain ⟨here, to_row⟩ := List.mem_filter.mp mem
  obtain ⟨here', to_row'⟩ := List.mem_filter.mp held
  obtain rfl := t.table.eq_of_key here' here same
  exact apart (Subtype.ext ((of_decide_eq_true to_row).symm.trans (of_decide_eq_true to_row')))

/-- What the cap's `DELETE` leaves where timestamps rise in the order of the
table. -/
theorem rowsOf_evict (t : SqliteStore) (o : RowOrder) (to_ : Pk) (excess : Nat)
    (rising : (t.rowsOf to_).Pairwise (Row.time · < Row.time ·)) (other : Pk) :
    let oldest := ((o.sort (t.rowsOf to_)).take excess).map Row.id
    (t.table.deleteWhere fun row => oldest.contains row.id).1.select (SqliteStore.addressed other) =
      if other = to_ then (t.rowsOf to_).drop excess else t.rowsOf other := by
  intro oldest
  have front : oldest = ((t.rowsOf to_).take excess).map Row.id := by
    rw [show oldest = ((o.sort (t.rowsOf to_)).take excess).map Row.id from rfl, o.sort_eq rising]
  rw [Table.select_deleteWhere, front]
  split
  · rename_i same
    subst same
    exact Table.filter_keys_take (t.table.keys_nodup.sublist (List.filter_sublist.map _)) excess
  · rename_i apart
    apply rowsOf_delete_other t apart
    intro id mem
    obtain ⟨row, held, same⟩ := List.mem_map.mp mem
    exact ⟨row, List.mem_of_mem_take held, same⟩

theorem Simulates.put (sim : Simulates s t) (o : RowOrder) {env : Envelope} {drawn : EnvelopeId}
    (fresh : ∀ row ∈ t.table.rows, row.id ≠ (assigned env drawn).id.val)
    (steady : Steady s (.put env drawn)) :
    Simulates (s.put env drawn).1 (t.put o noFaults env drawn).1 := by
  have stamp : (assigned env drawn).created_at = env.created_at := by
    unfold assigned
    split <;> rfl
  have inserted := rowsOf_insert t fresh
  -- The queue with the new envelope, before the cap.
  have rising : (s.pending env.to_ ++ [assigned env drawn]).Pairwise
      fun a b => a.created_at.toInt64 < b.created_at.toInt64 := by
    rw [List.pairwise_append]
    refine ⟨sim.increasing env.to_, List.pairwise_singleton _ _, ?_⟩
    intro a mem b mem'
    rw [List.mem_singleton.mp mem', stamp]
    exact steady a mem
  have mine : ({ t with table := t.table.insertOrReplace (.ofEnvelope (assigned env drawn)) } :
      SqliteStore).rowsOf env.to_ =
        (s.pending env.to_ ++ [assigned env drawn]).map Row.ofEnvelope := by
    rw [inserted, assigned_to, if_pos rfl, sim.rows, List.map_append]
    rfl
  rw [SqliteStore.put_noFaults]
  exact
    { cap := sim.cap
      rows := by
        intro to_
        apply (rowsOf_evict _ o env.to_ _ (mine ▸ time_increasing rising) to_).trans
        rw [InMemoryStore.pending_put_assigned, mine, InMemoryStore.popOver_eq]
        split
        · rw [List.map_drop, List.length_map, sim.cap]
        · rename_i apart
          rw [inserted, assigned_to, if_neg apart, sim.rows]
      owned := by
        intro row mem
        have held := (Table.mem_deleteWhere.mp mem).1
        rcases Table.mem_insertOrReplace.mp held with ⟨old, -⟩ | new
        · exact sim.owned row old
        · exact ⟨_, new⟩
      addressed := by
        intro to_ e mem
        rw [InMemoryStore.pending_put_assigned] at mem
        split at mem
        · rename_i same
          rw [InMemoryStore.popOver_eq] at mem
          rcases List.mem_append.mp (List.mem_of_mem_drop mem) with old | new
          · rw [same]
            exact sim.addressed env.to_ e old
          · rw [List.mem_singleton.mp new, assigned_to, same]
        · exact sim.addressed to_ e mem
      increasing := by
        intro to_
        rw [InMemoryStore.pending_put_assigned]
        split
        · rw [InMemoryStore.popOver_eq]
          exact rising.sublist (List.drop_sublist _ _)
        · exact sim.increasing to_ }

/-- Taking the same envelopes out of the queues and out of the table. -/
theorem Simulates.remove (sim : Simulates s t) {s' : InMemoryStore} (gone : Row → Bool)
    (cap : s'.max_per_recipient = s.max_per_recipient)
    (kept : ∀ to_, s'.pending to_ =
      (s.pending to_).filter fun e => !gone (Row.ofEnvelope e)) :
    Simulates s' { t with table := (t.table.deleteWhere gone).1 } where
  cap := sim.cap.trans cap.symm
  rows to_ := by
    have select := Table.select_deleteWhere t.table gone (SqliteStore.addressed to_)
    apply select.trans
    rw [show t.table.select (SqliteStore.addressed to_) = t.rowsOf to_ from rfl, sim.rows, kept,
      List.filter_map]
    rfl
  owned row mem := sim.owned row (Table.mem_deleteWhere.mp mem).1
  addressed to_ e mem := by
    rw [kept] at mem
    exact sim.addressed to_ e (List.mem_of_mem_filter mem)
  increasing to_ := by
    rw [kept]
    exact (sim.increasing to_).sublist List.filter_sublist

/-! ## The calls -/

theorem delete_count (s : InMemoryStore) (requester_pk : Pk) (ids : List EnvelopeId) :
    (s.delete requester_pk ids).2 = (s.pending requester_pk).countP fun e => ids.contains e.id := by
  simp only [InMemoryStore.delete, InMemoryStore.pending]
  cases s.inner.get requester_pk with
  | none => rfl
  | some q =>
    have parts := List.length_eq_countP_add_countP (fun e : Envelope => ids.contains e.id) (l := q)
    simp only [Option.getD_some, ← List.countP_eq_length_filter]
    simp only [Bool.not_eq_true, Bool.decide_eq_false] at parts
    omega

theorem Simulates.delete (sim : Simulates s t) (requester_pk : Pk) (ids : List EnvelopeId) :
    Simulates (s.delete requester_pk ids).1 (t.delete noFaults requester_pk ids).1 ∧
      (t.delete noFaults requester_pk ids).2 = .ok (s.delete requester_pk ids).2 := by
  rw [SqliteStore.delete, SqliteStore.deleteFrom_noFaults]
  constructor
  · refine sim.remove (SqliteStore.named requester_pk ids) ?_ fun to_ => ?_
    · simp only [InMemoryStore.delete]
      cases s.inner.get requester_pk <;> rfl
    · rw [InMemoryStore.pending_delete]
      split
      · rename_i same
        apply List.filter_congr
        intro e mem
        have named := SqliteStore.named_ofEnvelope requester_pk ids e
        rw [same] at mem
        rw [and_iff_right (sim.addressed requester_pk e mem), ← List.contains_iff_mem] at named
        rw [Bool.eq_iff_iff.mpr named]
      · rename_i apart
        symm
        rw [List.filter_eq_self]
        intro e mem
        rw [Bool.not_eq_true']
        refine Bool.eq_false_iff.mpr fun named => apart ?_
        rw [← sim.addressed to_ e mem]
        exact ((SqliteStore.named_ofEnvelope requester_pk ids e).mp named).1
  · have rows := congrArg (List.countP fun row : Row => ids.any (row.id = ·.val))
      (sim.rows requester_pk)
    rw [SqliteStore.rowsOf, Table.select, List.countP_filter, List.countP_map] at rows
    rw [delete_count, Nat.zero_add,
      show t.table.rows.countP (SqliteStore.named requester_pk ids) = _ from
      (List.countP_congr fun row _ => by rw [SqliteStore.named, Bool.and_comm]).trans rows]
    refine congrArg Except.ok (List.countP_congr fun e mem => ?_)
    have named := SqliteStore.named_ofEnvelope requester_pk ids e
    rw [and_iff_right (sim.addressed requester_pk e mem), ← List.contains_iff_mem] at named
    rw [← named, SqliteStore.named, SqliteStore.addressed]
    simp [Row.ofEnvelope, sim.addressed requester_pk e mem]

/-- On one side of 2^63 the order of signed numbers is that of unsigned ones. -/
theorem toInt64_lt_iff {a b : UInt64} (side : a.toNat < 2 ^ 63 ↔ b.toNat < 2 ^ 63) :
    a.toInt64 < b.toInt64 ↔ a.toNat < b.toNat := by
  have ha := a.toNat_lt
  have hb := b.toNat_lt
  rw [Int64.lt_iff_toInt_lt]
  change a.toBitVec.toInt < b.toBitVec.toInt ↔ _
  rw [BitVec.toInt_eq_toNat_cond, BitVec.toInt_eq_toNat_cond]
  simp only [UInt64.toNat_toBitVec]
  split <;> split <;> omega

theorem evict_count (s : InMemoryStore) (now_ms max_age_ms : UInt64) :
    (s.evict_older_than now_ms max_age_ms).2 = s.inner.values.flatten.countP fun e =>
      !decide (e.created_at.toNat ≥ now_ms.toNat - max_age_ms.toNat) := by
  rw [List.countP_flatten]
  refine congrArg List.sum (List.map_congr_left fun q _ => ?_)
  have parts := List.length_eq_countP_add_countP
    (fun e : Envelope => decide (e.created_at.toNat ≥ now_ms.toNat - max_age_ms.toNat)) (l := q)
  simp only [Bool.not_eq_true, Bool.decide_eq_false] at parts
  rw [← List.countP_eq_length_filter]
  omega

/-- The table holds what the queues hold. -/
theorem Simulates.perm (sim : Simulates s t) :
    t.table.rows.Perm (s.inner.values.flatten.map Row.ofEnvelope) := by
  have queue {k : Pk} {q : List Envelope} (found : s.inner.get k = some q) : s.pending k = q := by
    rw [InMemoryStore.pending, found, Option.getD_some]
  have nodup : s.inner.values.flatten.Nodup := by
    rw [List.nodup_flatten]
    constructor
    · intro q mem
      obtain ⟨k, found⟩ := HashMap.mem_values.mp mem
      rw [← queue found]
      apply (sim.increasing k).imp
      rintro a b less rfl
      exact Int64.lt_irrefl less
    · apply HashMap.pairwise_values
      intro k k' q q' apart found found' e mem mem'
      rw [← queue found] at mem
      rw [← queue found'] at mem'
      exact apart ((sim.addressed k e mem).symm.trans (sim.addressed k' e mem'))
  have injective : Function.Injective Row.ofEnvelope := fun _ _ => Row.ofEnvelope_injective
  rw [List.perm_ext_iff_of_nodup t.table.keys_nodup.of_map (nodup.map injective)]
  intro row
  rw [List.mem_map]
  constructor
  · intro mem
    obtain ⟨e, held, rfl⟩ := sim.mem_rows mem
    refine ⟨e, List.mem_flatten.mpr ?_, rfl⟩
    cases found : s.inner.get e.to_ with
    | none =>
      rw [InMemoryStore.pending, found] at held
      cases held
    | some q => exact ⟨q, HashMap.mem_values.mpr ⟨_, found⟩, queue found ▸ held⟩
  · rintro ⟨e, mem, rfl⟩
    obtain ⟨q, mem, held⟩ := List.mem_flatten.mp mem
    obtain ⟨k, found⟩ := HashMap.mem_values.mp mem
    have mine : Row.ofEnvelope e ∈ t.rowsOf k := by
      rw [sim.rows, queue found]
      exact List.mem_map_of_mem held
    exact List.mem_of_mem_filter mine

theorem Simulates.evict (sim : Simulates s t) {now_ms max_age_ms : UInt64}
    (steady : Steady s (.evict_older_than now_ms max_age_ms)) :
    Simulates (s.evict_older_than now_ms max_age_ms).1
        (t.evict_older_than noFaults now_ms max_age_ms).1 ∧
      (t.evict_older_than noFaults now_ms max_age_ms).2 =
        .ok (s.evict_older_than now_ms max_age_ms).2 := by
  have bound : now_ms.toNat - max_age_ms.toNat < 2 ^ 64 :=
    Nat.lt_of_le_of_lt (Nat.sub_le _ _) now_ms.toNat_lt
  have cutoff : (UInt64.ofNat (now_ms.toNat - max_age_ms.toNat)).toNat =
      now_ms.toNat - max_age_ms.toNat := UInt64.toNat_ofNat_of_lt' bound
  have old {to_ : Pk} {e : Envelope} (mem : e ∈ s.pending to_) :
      decide ((Row.ofEnvelope e).created_at <
        (UInt64.ofNat (now_ms.toNat - max_age_ms.toNat)).toInt64) =
      !decide (e.created_at.toNat ≥ now_ms.toNat - max_age_ms.toNat) := by
    have side := steady to_ e mem
    rw [← cutoff] at side
    have less := toInt64_lt_iff side
    rw [cutoff] at less
    rw [Row.ofEnvelope, ← decide_not, decide_eq_decide, less, Nat.not_le]
  constructor
  · refine sim.remove (fun row => decide (row.created_at < _)) rfl fun to_ => ?_
    rw [InMemoryStore.pending_evict]
    apply List.filter_congr
    intro e mem
    rw [old mem, Bool.not_not]
  · apply congrArg Except.ok
    rw [evict_count]
    apply (sim.perm.countP_eq _).trans
    rw [List.countP_map]
    apply List.countP_congr
    intro e mem
    obtain ⟨q, mem, held⟩ := List.mem_flatten.mp mem
    obtain ⟨k, found⟩ := HashMap.mem_values.mp mem
    have here : e ∈ s.pending k := by
      rw [InMemoryStore.pending, found, Option.getD_some]
      exact held
    rw [Function.comp, old here]

/-- The `LIMIT` of a fetch is one more than was asked for, or none at all. -/
theorem limit_succ {limit : UInt64} (h : limit.toNat ≠ 2 ^ 64 - 1) :
    limit.toInt64 + 1 < 0 ∨
      ¬ limit.toInt64 + 1 < 0 ∧ (limit.toInt64 + 1).toInt.toNat = limit.toNat + 1 := by
  have bound := limit.toNat_lt
  have value : (limit.toInt64 + 1).toInt = (limit.toBitVec + 1).toInt := rfl
  have sum : (limit.toBitVec + 1).toNat = limit.toNat + 1 := by
    rw [BitVec.toNat_add]
    have one : (1 : BitVec 64).toNat = 1 := rfl
    rw [one, UInt64.toNat_toBitVec]
    omega
  rw [BitVec.toInt_eq_toNat_cond, sum] at value
  rw [Int64.lt_iff_toInt_lt, value, Int64.toInt_zero]
  split <;> omega

/-- Asking for one more than a page, and cutting it off again, shows the page
and whether there is more. -/
theorem page_of_more {q more : List Envelope} {limit : Nat}
    (enough : more = q ∨ more = q.take (limit + 1)) :
    (if decide (more.length > limit) then more.take limit else more,
      decide (more.length > limit)) = (q.take limit, decide (q.length > limit)) := by
  have longer : more.length > limit ↔ q.length > limit := by
    rcases enough with rfl | rfl
    · rfl
    · rw [List.length_take]
      omega
  have front : more.take limit = q.take limit := by
    rcases enough with rfl | rfl
    · rfl
    · rw [List.take_take, Nat.min_eq_left (Nat.le_succ _)]
  simp only [longer, decide_eq_true_eq]
  split
  · rw [front]
  · rename_i short
    rw [← front, List.take_of_length_le]
    omega

theorem Simulates.get_pending (sim : Simulates s t) (o : RowOrder) {to_ : Pk} {limit : UInt64}
    (steady : Steady s (.get_pending to_ limit)) :
    t.get_pending o noFaults to_ limit = .ok (s.get_pending to_ limit.toNat) := by
  have ordered : o.sort (t.rowsOf to_) = (s.pending to_).map Row.ofEnvelope := by
    rw [sim.rows, o.sort_eq (time_increasing (sim.increasing to_))]
  have read (rows : List Envelope) : (rows.map Row.ofEnvelope).filterMap Row.envelope = rows := by
    rw [List.filterMap_map]
    simp
  simp only [SqliteStore.get_pending, SqliteStore.statement_noFaults, SqliteStore.readRows_noFaults,
    ok_bind, ordered]
  rw [InMemoryStore.get_pending_eq]
  refine congrArg Except.ok (page_of_more ?_)
  rw [limited]
  by_cases last : limit.toNat = 2 ^ 64 - 1
  · rw [steady last]
    left
    split <;> simp
  · rcases limit_succ last with negative | ⟨positive, more⟩
    · rw [if_pos negative, read]
      exact .inl rfl
    · rw [if_neg positive, more, ← List.map_take, read]
      exact .inr rfl

/-- One call keeps the two alike and gets the same reply from both. -/
theorem Simulates.call (sim : Simulates s t) (c : OrderedCall)
    (fresh : ∀ env drawn, c.1 = .put env drawn →
      ∀ row ∈ t.table.rows, row.id ≠ (assigned env drawn).id.val)
    (steady : Steady s c.1) :
    Simulates (s.call c.1).1 (t.call c.2 noFaults c.1).1 ∧
      (t.call c.2 noFaults c.1).2 = .ok (s.call c.1).2 := by
  obtain ⟨call, o⟩ := c
  cases call with
  | put env drawn =>
    refine ⟨sim.put o (fresh env drawn rfl) steady, ?_⟩
    simp only [SqliteStore.call, SqliteStore.put_noFaults]
    rfl
  | get_pending to_ limit =>
    refine ⟨sim, ?_⟩
    simp only [SqliteStore.call, sim.get_pending o steady]
    rfl
  | delete requester_pk ids =>
    obtain ⟨sim', count⟩ := sim.delete requester_pk ids
    refine ⟨sim', ?_⟩
    simp only [SqliteStore.call, count]
    rfl
  | count_pending to_ =>
    refine ⟨sim, ?_⟩
    simp only [SqliteStore.call, SqliteStore.count_pending, SqliteStore.statement_noFaults, ok_bind,
      sim.rows, List.length_map, InMemoryStore.call, InMemoryStore.count_pending_eq]
    rfl
  | evict_older_than now_ms max_age_ms =>
    obtain ⟨sim', count⟩ := sim.evict steady
    refine ⟨sim', ?_⟩
    simp only [SqliteStore.call, count]
    rfl

/-! ## Runs -/

@[simp] theorem SqliteStore.after_snoc (max : Nat) (calls : List OrderedCall) (c : OrderedCall) :
    after max (calls ++ [c]) = ((after max calls).call c.2 noFaults c.1).1 := Run.snoc calls c

theorem simulates_open (max : Nat) : Simulates (.new max) (.open_ max) where
  cap := rfl
  rows _ := by simp [SqliteStore.rowsOf, SqliteStore.open_, Table.select, Table.empty]
  owned := by simp [SqliteStore.open_, Table.empty]
  addressed := by simp
  increasing := by simp

/-- The next call of a run, if it puts something, puts it under an id that no
row has. -/
theorem fresh_id {max : Nat} {calls : List OrderedCall} {c : OrderedCall}
    (sim : Simulates (InMemoryStore.after max (calls.map Prod.fst)) t)
    (fresh : ((puts ((calls ++ [c]).map Prod.fst)).map Envelope.id).Nodup) {env : Envelope}
    {drawn : EnvelopeId} (put : c.1 = .put env drawn) :
    ∀ row ∈ t.table.rows, row.id ≠ (assigned env drawn).id.val := by
  intro row mem same
  obtain ⟨e, held, rfl⟩ := sim.mem_rows mem
  have earlier := (InMemoryStore.mem_puts_of_pending held).1
  rw [List.map_append, puts_append, List.map_append, List.nodup_append] at fresh
  have now : (assigned env drawn).id ∈ (puts ([c].map Prod.fst)).map Envelope.id := by
    simp [puts, put]
  exact fresh.2.2 _ (List.mem_map_of_mem earlier) _ now (Subtype.ext same)

theorem simulates_run (max : Nat) (calls : List OrderedCall)
    (fresh : ((puts (calls.map Prod.fst)).map Envelope.id).Nodup)
    (steady : ∀ before c, before ++ [c] <+: calls →
      Steady (InMemoryStore.after max (before.map Prod.fst)) c.1) :
    Simulates (InMemoryStore.after max (calls.map Prod.fst)) (SqliteStore.after max calls) := by
  induction calls using List.reverseRecOn with
  | nil => exact simulates_open max
  | append_singleton calls c ih =>
    have part : calls <+: calls ++ [c] := List.prefix_append _ _
    have sim := ih (fresh.sublist ((puts_mono (part.map Prod.fst)).sublist.map _))
      fun before c' early => steady before c' (early.trans part)
    have next := sim.call c (fun _ _ => fresh_id sim fresh) (steady calls c List.prefix_rfl)
    rw [List.map_append, SqliteStore.after_snoc]
    exact (InMemoryStore.after_snoc max (calls.map Prod.fst) c.1) ▸ next.1

/-- In every run whose calls are all steady, and whatever order the queries
return rows of one time in, every call gets the reply that `InMemoryStore`
gives. -/
theorem sqlite_refines (max : Nat) (calls : List OrderedCall)
    (fresh : ((puts (calls.map Prod.fst)).map Envelope.id).Nodup)
    (steady : ∀ before c, before ++ [c] <+: calls →
      Steady (InMemoryStore.after max (before.map Prod.fst)) c.1) :
    ∀ before c, before ++ [c] <+: calls →
      ((SqliteStore.after max before).call c.2 noFaults c.1).2 =
        .ok ((InMemoryStore.after max (before.map Prod.fst)).call c.1).2 := by
  intro before c early
  have fresh' : ((puts ((before ++ [c]).map Prod.fst)).map Envelope.id).Nodup :=
    fresh.sublist ((puts_mono (early.map Prod.fst)).sublist.map _)
  have part : before <+: before ++ [c] := List.prefix_append _ _
  have sim := simulates_run max before
    (fresh'.sublist ((puts_mono (part.map Prod.fst)).sublist.map _))
    fun earlier c' at_ => steady earlier c' (at_.trans (part.trans early))
  exact (sim.call c (fun _ _ => fresh_id sim fresh') (steady before c early)).2

/-! ## Two puts -/

/-- Envelopes put at `first` and `second`, and a fetch. -/
def twoPuts (first second : UInt64) : List OrderedCall :=
  let env (created_at : UInt64) : Envelope :=
    ⟨InMemoryStore.zeroId, FixedBytes.fill _ 1, FixedBytes.fill _ 2, [7], created_at⟩
  [(.put (env first) (FixedBytes.fill _ 11), .stable Row.time),
    (.put (env second) (FixedBytes.fill _ 12), .stable Row.time),
    (.get_pending (FixedBytes.fill _ 1) 1, .stable Row.time)]

theorem sqlite_refines_two_puts :
    ((SqliteStore.after 5 ((twoPuts 10 20).take 2)).call (.stable Row.time) noFaults
      (.get_pending (FixedBytes.fill _ 1) 1)).2 =
        .ok ((InMemoryStore.after 5 (((twoPuts 10 20).take 2).map Prod.fst)).call
          (.get_pending (FixedBytes.fill _ 1) 1)).2 := by
  have along : Run.Along (fun s (c : OrderedCall) => (s.call c.1).1) (fun s c => Steady s c.1)
      (.new 5) (twoPuts 10 20) := by
    refine ⟨?_, ?_, ?_, trivial⟩
    · intro e mem
      rw [InMemoryStore.pending_new] at mem
      cases mem
    · change ∀ e ∈ InMemoryStore.pending _ _, e.created_at.toInt64 < (20 : UInt64).toInt64
      decide
    · intro last
      exact absurd last (by decide)
  have steady : ∀ before c, before ++ [c] <+: twoPuts 10 20 →
      Steady (InMemoryStore.after 5 (before.map Prod.fst)) c.1 := by
    intro before c early
    rw [InMemoryStore.after, Run.map]
    exact Run.along_iff.mp along before c early
  exact sqlite_refines 5 (twoPuts 10 20) (by decide) steady ((twoPuts 10 20).take 2)
    (.get_pending (FixedBytes.fill _ 1) 1, .stable Row.time) List.prefix_rfl

/-- The clock steps back between two puts: the fetch of one envelope returns the
second from the table and the first from the queue. -/
theorem earlier_clock_reorders : ¬ ∀ (max : Nat) (calls : List OrderedCall),
    ((puts (calls.map Prod.fst)).map Envelope.id).Nodup → ∀ before c, before ++ [c] <+: calls →
      ((SqliteStore.after max before).call c.2 noFaults c.1).2 =
        .ok ((InMemoryStore.after max (before.map Prod.fst)).call c.1).2 := by
  intro all
  have same := all 5 (twoPuts 20 10) (by decide) ((twoPuts 20 10).take 2)
    (.get_pending (FixedBytes.fill _ 1) 1, .stable Row.time) List.prefix_rfl
  exact absurd same (by decide)

end Qev.Relay
