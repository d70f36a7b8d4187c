import Qev.Bry.Schedule
import Qev.Lib.PythonValue
import Qev.Lib.Run

/-! The nonce registry: one file of counts for each master key and context, that
every check reads whole and writes whole. -/

namespace Qev.Bry

open Py (Str cp getItem py setItem)
open Sha256 (sha256)

structure NonceCheckResult where
  namespace_id : Str
  packet_nonce : Str
  reused : Bool
  prior_uses : Nat
  deriving DecidableEq, Repr

/-- What the file has under one id. -/
structure Namespace where
  context : Str
  nonces : List (Str × Nat)
  deriving DecidableEq, Repr

abbrev Registry := List (Str × Namespace)

/-- The arguments of one check of the registry. -/
structure NonceCheck where
  master_key : Str
  context : Str
  packet_nonce : Str
  deriving DecidableEq, Repr

namespace NonceCheck

def namespace_preimage (c : NonceCheck) : Except Exc Bytes :=
  encode (c.master_key ++ cp '|' :: c.context)

def namespace_id (c : NonceCheck) : Except Exc Str := do
  return py (Hex.hex (sha256 (← c.namespace_preimage)))

/-- The body of `check_and_register_nonce`, between the file that it reads and
the file that it writes. -/
def register (c : NonceCheck) (store : Registry) : Except Exc (Registry × NonceCheckResult) := do
  let namespace_id ← c.namespace_id
  let space := (getItem namespace_id store).getD ⟨c.context, []⟩
  let prior_uses := (getItem c.packet_nonce space.nonces).getD 0
  let reused := 0 < prior_uses
  let nonces := setItem c.packet_nonce (prior_uses + 1) space.nonces
  return (setItem namespace_id { space with nonces } store, {
    namespace_id, packet_nonce := c.packet_nonce, reused, prior_uses })

end NonceCheck

/-- `json.loads` of `json.dumps`. -/
def Registry.reread (store : Registry) : Registry :=
  Py.dict (store.map fun (id, space) => (Py.reread id, {
    context := Py.reread space.context
    nonces := Py.dict (space.nonces.map fun (nonce, uses) => (Py.reread nonce, uses)) }))

/-- A check of the registry that no other comes in between. -/
def check_and_register_nonce (file : Option Registry) (c : NonceCheck) :
    Except Exc (Option Registry × NonceCheckResult) := do
  let (store, result) ← c.register (file.elim [] Registry.reread)
  return (some store, result)

/-! ## Checks at once -/

/-- How far a check is. `version` says how often the file had been written when
the check read it, which the check does not know. -/
inductive Phase where
  | entered
  | loaded (store : Registry) (version : Nat)
  | computed (store : Registry) (result : NonceCheckResult) (version : Nat)

structure Checks where
  file : Option Registry
  version : Nat
  running : List (NonceCheck × Phase)
  /-- What the checks have returned. -/
  results : List (NonceCheck × NonceCheckResult)

inductive CheckEvent where
  | enter (c : NonceCheck)
  | read (k : Nat)
  | compute (k : Nat)
  | write (k : Nat)

namespace Checks

def start : Checks := ⟨none, 0, [], []⟩

def store (s : Checks) : Registry := s.file.elim [] Registry.reread

def advance (s : Checks) (k : Nat) (c : NonceCheck) (phase : Phase) : Checks :=
  { s with running := s.running.set k (c, phase) }

def finish (s : Checks) (k : Nat) : Checks := { s with running := s.running.eraseIdx k }

def step (s : Checks) : CheckEvent → Checks
  | .enter c => { s with running := s.running ++ [(c, .entered)] }
  | .read k =>
    match s.running[k]? with
    | some (c, .entered) => s.advance k c (.loaded s.store s.version)
    | _ => s
  | .compute k =>
    match s.running[k]? with
    | some (c, .loaded store version) =>
      match c.register store with
      | .ok (store, result) => s.advance k c (.computed store result version)
      | .error _ => s.finish k
    | _ => s
  | .write k =>
    match s.running[k]? with
    | some (c, .computed store result _) =>
      { s.finish k with
        file := some store, version := s.version + 1, results := s.results ++ [(c, result)] }
    | _ => s

/-- No check writes over what another has written since it read the file, and
nonces are read back as they are. -/
def Undisturbed (s : Checks) : CheckEvent → Prop
  | .enter c => Py.Joined c.packet_nonce
  | .write k => ∀ c store result version,
    s.running[k]? = some (c, .computed store result version) → version = s.version
  | _ => True

end Checks

/-- A whole check with nothing in between. -/
theorem check_events {s : Checks} (idle : s.running = []) {c : NonceCheck}
    {file : Option Registry} {result : NonceCheckResult}
    (h : check_and_register_nonce s.file c = .ok (file, result)) :
    run Checks.step s [.enter c, .read 0, .compute 0, .write 0] =
      { file, version := s.version + 1, running := [], results := s.results ++ [(c, result)] } := by
  obtain ⟨⟨store, result'⟩, registered, h⟩ := bind_eq_ok.mp h
  cases h
  simp only [Run.cons, Run.nil, Checks.step, idle, List.nil_append, List.getElem?_cons_zero,
    Checks.advance, List.set_cons_zero, Checks.store, registered, Checks.finish,
    List.eraseIdx_cons_zero]

/-! ## Counting -/

namespace Registry

def uses (store : Registry) (id nonce : Str) : Nat :=
  ((getItem id store).bind fun space => getItem nonce space.nonces).getD 0

/-- A registry that is read back as it is. -/
structure Tidy (store : Registry) : Prop where
  ids : (store.map Prod.fst).Nodup
  nonces : ∀ f ∈ store, (f.2.nonces.map Prod.fst).Nodup
  joined : ∀ f ∈ store, Py.Joined f.1 ∧ Py.Joined f.2.context ∧ ∀ g ∈ f.2.nonces, Py.Joined g.1

theorem Tidy.nil : Tidy [] :=
  ⟨List.nodup_nil, List.forall_mem_nil _, List.forall_mem_nil _⟩

theorem Tidy.reread {store : Registry} (tidy : Tidy store) : store.reread = store := by
  have space : ∀ f ∈ store, (Py.reread f.1, ({
      context := Py.reread f.2.context
      nonces := Py.dict (f.2.nonces.map fun g => (Py.reread g.1, g.2)) } : Namespace)) = f := by
    intro f mem
    obtain ⟨id, context, nonces⟩ := tidy.joined f mem
    have kept : (f.2.nonces.map fun g => (Py.reread g.1, g.2)) = f.2.nonces := by
      refine (List.map_congr_left fun g here => ?_).trans (List.map_id _)
      rw [Py.reread_joined (nonces g here)]
      rfl
    rw [Py.reread_joined id, Py.reread_joined context, kept, Py.dict_of_nodup (tidy.nonces f mem)]
  rw [Registry.reread, List.map_congr_left space, List.map_id', Py.dict_of_nodup tidy.ids]

end Registry

theorem encode_eq_ok {s : Str} {bytes : Bytes} : encode s = .ok bytes ↔
    ∃ cs : List Char, s = cs.map cp ∧ bytes = Utf8.encode cs := by
  constructor
  · intro h
    rw [encode] at h
    cases encoded : Py.encode s with
    | none =>
      rw [encoded] at h
      cases h
    | some bytes' =>
      rw [encoded] at h
      cases h
      exact Py.encode_eq_some encoded
  · rintro ⟨cs, rfl, rfl⟩
    rw [encode, Py.encode_map_cp]
    rfl

theorem clean_of_encode {s : Str} {bytes : Bytes} (h : encode s = .ok bytes) : Py.Clean s := by
  obtain ⟨cs, rfl, -⟩ := encode_eq_ok.mp h
  exact Py.clean_map_cp cs

theorem hex_joined (bytes : Bytes) : Py.Joined (py (Hex.hex bytes)) := (Py.clean_py _).joined

namespace NonceCheck

variable {c : NonceCheck} {store store' : Registry} {result : NonceCheckResult}

theorem context_joined {id : Str} (h : c.namespace_id = .ok id) :
    Py.Joined id ∧ Py.Joined c.context := by
  obtain ⟨preimage, encoded, h⟩ := bind_eq_ok.mp h
  rw [← Except.ok.inj h]
  have clean := clean_of_encode encoded
  exact ⟨hex_joined _, Py.Clean.joined fun u mem =>
    clean u (List.mem_append_right _ (List.mem_cons_of_mem _ mem))⟩

/-- What a check finds, and the only count that it changes. -/
theorem register_eq_ok (h : c.register store = .ok (store', result)) :
    c.namespace_id = .ok result.namespace_id ∧ result.packet_nonce = c.packet_nonce ∧
      result.prior_uses = store.uses result.namespace_id c.packet_nonce ∧
      result.reused = decide (0 < result.prior_uses) ∧
      ∀ id nonce, store'.uses id nonce = store.uses id nonce +
        if id = result.namespace_id ∧ nonce = c.packet_nonce then 1 else 0 := by
  obtain ⟨id, derived, h⟩ := bind_eq_ok.mp h
  cases h
  have found : (getItem c.packet_nonce ((getItem id store).getD ⟨c.context, []⟩).nonces).getD 0 =
      store.uses id c.packet_nonce := by
    rw [Registry.uses]
    cases getItem id store <;> rfl
  refine ⟨derived, rfl, found, rfl, fun id' nonce => ?_⟩
  dsimp only
  rw [Registry.uses, Py.getItem_setItem]
  by_cases here : id' = id
  · subst here
    rw [if_pos rfl, Option.bind_some, Py.getItem_setItem]
    by_cases same : nonce = c.packet_nonce
    · subst same
      rw [if_pos rfl, if_pos ⟨rfl, rfl⟩, Option.getD_some, found]
    · rw [if_neg same, if_neg fun both => same both.2, Nat.add_zero, Registry.uses]
      cases getItem id' store <;> rfl
  · rw [if_neg here, if_neg fun both => here both.1, Nat.add_zero, Registry.uses]

theorem tidy_register (tidy : store.Tidy) (joined : Py.Joined c.packet_nonce)
    (h : c.register store = .ok (store', result)) : store'.Tidy := by
  obtain ⟨id, derived, h⟩ := bind_eq_ok.mp h
  cases h
  obtain ⟨id_joined, context_joined⟩ := context_joined derived
  obtain ⟨spaceNodup, spaceContext, spaceJoined⟩ :
      (((getItem id store).getD ⟨c.context, []⟩).nonces.map Prod.fst).Nodup ∧
        Py.Joined ((getItem id store).getD ⟨c.context, []⟩).context ∧
        ∀ g ∈ ((getItem id store).getD ⟨c.context, []⟩).nonces, Py.Joined g.1 := by
    cases found : getItem id store with
    | none => exact ⟨List.nodup_nil, context_joined, List.forall_mem_nil _⟩
    | some space =>
      have mem := Py.mem_of_getItem found
      exact ⟨tidy.nonces _ mem, (tidy.joined _ mem).2.1, (tidy.joined _ mem).2.2⟩
  refine ⟨Py.nodup_setItem tidy.ids, fun f mem => ?_, fun f mem => ?_⟩
  · rcases Py.mem_setItem mem with rfl | old
    · exact Py.nodup_setItem spaceNodup
    · exact tidy.nonces f old
  · rcases Py.mem_setItem mem with rfl | old
    · refine ⟨id_joined, spaceContext, fun g here => ?_⟩
      rcases Py.mem_setItem here with rfl | before
      · exact joined
      · exact spaceJoined g before
    · exact tidy.joined f old

end NonceCheck

/-! ## What the checks return -/

/-- How many checks found the nonce under the id. -/
def returned (results : List (NonceCheck × NonceCheckResult)) (id nonce : Str) : Nat :=
  (results.filter fun f => f.2.namespace_id = id ∧ f.2.packet_nonce = nonce).length

theorem returned_concat (results : List (NonceCheck × NonceCheckResult))
    (f : NonceCheck × NonceCheckResult) (id nonce : Str) :
    returned (results ++ [f]) id nonce = returned results id nonce +
      if id = f.2.namespace_id ∧ nonce = f.2.packet_nonce then 1 else 0 := by
  rw [returned, List.filter_append, List.length_append, List.filter_singleton, returned]
  by_cases here : id = f.2.namespace_id ∧ nonce = f.2.packet_nonce
  · simp [here]
  · have other : ¬ (f.2.namespace_id = id ∧ f.2.packet_nonce = nonce) := fun both =>
      here ⟨both.1.symm, both.2.symm⟩
    simp [here, other]

/-- What a check returned fits what others had returned before. -/
def Counted (before : List (NonceCheck × NonceCheckResult)) (c : NonceCheck)
    (result : NonceCheckResult) : Prop :=
  c.namespace_id = .ok result.namespace_id ∧ result.packet_nonce = c.packet_nonce ∧
    result.prior_uses = returned before result.namespace_id c.packet_nonce ∧
    result.reused = decide (0 < result.prior_uses)

/-- What a check in progress holds, unless the file was written since. -/
def Phase.Current (phase : Phase) (s : Checks) (c : NonceCheck) : Prop :=
  match phase with
  | .entered => True
  | .loaded store version => version ≤ s.version ∧ (version = s.version → store = s.store)
  | .computed store result version =>
    version ≤ s.version ∧ (version = s.version → c.register s.store = .ok (store, result))

namespace Checks

structure Inv (s : Checks) : Prop where
  tidy : (s.file.getD []).Tidy
  counted : ∀ id nonce, (s.file.getD []).uses id nonce = returned s.results id nonce
  current : ∀ f ∈ s.running, Py.Joined f.1.packet_nonce ∧ f.2.Current s f.1
  history : ∀ before c result after, s.results = before ++ (c, result) :: after →
    Counted before c result

theorem inv_start : start.Inv where
  tidy := Registry.Tidy.nil
  counted _ _ := rfl
  current := List.forall_mem_nil _
  history before c result after split := by cases before <;> cases split

variable {s : Checks}

theorem Inv.store_eq (inv : s.Inv) : s.store = s.file.getD [] := by
  have tidy := inv.tidy
  rw [store]
  cases file : s.file with
  | none => rfl
  | some store =>
    rw [file] at tidy
    exact tidy.reread

/-- Checks go on while the file and the results stay as they are. -/
theorem Inv.of_running (inv : s.Inv) {running : List (NonceCheck × Phase)}
    (current : ∀ f ∈ running, Py.Joined f.1.packet_nonce ∧ f.2.Current s f.1) :
    Inv { s with running } where
  tidy := inv.tidy
  counted := inv.counted
  current := by
    intro f mem
    obtain ⟨joined, holds⟩ := current f mem
    refine ⟨joined, ?_⟩
    cases phase : f.2 with
    | entered => trivial
    | loaded store version =>
      rw [phase] at holds
      exact holds
    | computed store result version =>
      rw [phase] at holds
      exact holds
  history := inv.history

theorem Inv.advance (inv : s.Inv) {k : Nat} {c : NonceCheck} {phase phase' : Phase}
    (here : s.running[k]? = some (c, phase)) (holds : phase'.Current s c) :
    (s.advance k c phase').Inv := by
  apply inv.of_running
  intro f mem
  rcases List.mem_or_eq_of_mem_set mem with old | rfl
  · exact inv.current f old
  · exact ⟨(inv.current _ (List.mem_of_getElem? here)).1, holds⟩

theorem Inv.finish (inv : s.Inv) (k : Nat) : (s.finish k).Inv := by
  apply inv.of_running
  exact fun f mem => inv.current f (List.mem_of_mem_eraseIdx mem)

theorem Inv.write (inv : s.Inv) {k : Nat} {c : NonceCheck} {store : Registry}
    {result : NonceCheckResult} {version : Nat}
    (here : s.running[k]? = some (c, .computed store result version))
    (undisturbed : version = s.version) :
    Inv { s.finish k with
      file := some store, version := s.version + 1, results := s.results ++ [(c, result)] } := by
  obtain ⟨joined, -, registered⟩ := inv.current _ (List.mem_of_getElem? here)
  have registered := registered undisturbed
  rw [inv.store_eq] at registered
  obtain ⟨derived, nonce, prior, reused, counts⟩ := NonceCheck.register_eq_ok registered
  refine ⟨NonceCheck.tidy_register inv.tidy joined registered, ?_, ?_, ?_⟩
  · intro id nonce'
    rw [Option.getD_some, counts, inv.counted, returned_concat, nonce]
  · -- what was read or computed before has an older version
    intro f mem
    obtain ⟨joined', holds⟩ := inv.current f (List.mem_of_mem_eraseIdx mem)
    refine ⟨joined', ?_⟩
    cases phase : f.2 with
    | entered => trivial
    | loaded store' version' =>
      rw [phase] at holds
      have older := holds.1
      exact ⟨Nat.le_succ_of_le older, fun same => absurd same (Nat.lt_succ_of_le older).ne⟩
    | computed store' result' version' =>
      rw [phase] at holds
      have older := holds.1
      exact ⟨Nat.le_succ_of_le older, fun same => absurd same (Nat.lt_succ_of_le older).ne⟩
  · intro before c' result' after split
    rcases List.eq_nil_or_concat after with rfl | ⟨after, last, rfl⟩
    · obtain ⟨rfl, last⟩ := List.append_inj' split rfl
      cases last
      exact ⟨derived, nonce, by rw [prior, inv.counted], reused⟩
    · rw [List.concat_eq_append, ← List.cons_append, ← List.append_assoc] at split
      exact inv.history before c' result' after (List.append_inj_left' split rfl)

theorem inv_step (inv : s.Inv) {e : CheckEvent} (undisturbed : s.Undisturbed e) :
    (s.step e).Inv := by
  cases e with
  | enter c =>
    apply inv.of_running
    intro f mem
    rcases List.mem_append.mp mem with old | new
    · exact inv.current f old
    · rw [List.mem_singleton.mp new]
      exact ⟨undisturbed, trivial⟩
  | read k =>
    rw [step]
    split
    · rename_i c here
      exact inv.advance here ⟨Nat.le_refl _, fun _ => rfl⟩
    · exact inv
  | compute k =>
    rw [step]
    split
    · rename_i c store version here
      obtain ⟨-, older, same⟩ := inv.current _ (List.mem_of_getElem? here)
      split
      · rename_i store' result registered
        refine inv.advance here ⟨older, fun current => ?_⟩
        rw [← same current]
        exact registered
      · exact inv.finish k
    · exact inv
  | write k =>
    rw [step]
    split
    · rename_i c store result version here
      exact inv.write here (undisturbed c store result version here)
    · exact inv

end Checks

theorem returned_eq {before : List (NonceCheck × NonceCheckResult)} {c : NonceCheck} {id : Str}
    (derived : c.namespace_id = .ok id)
    (known : ∀ f ∈ before, f.1.namespace_id = .ok f.2.namespace_id ∧
      f.2.packet_nonce = f.1.packet_nonce)
    (alone : ∀ f ∈ before, f.1.namespace_id = c.namespace_id →
      f.1.packet_nonce = c.packet_nonce → f.1 = c) :
    returned before id c.packet_nonce = (before.filter fun f => f.1 = c).length := by
  rw [returned]
  refine congrArg List.length (List.filter_congr fun f mem => decide_eq_decide.mpr ?_)
  obtain ⟨derived', nonce⟩ := known f mem
  constructor
  · rintro ⟨same, sameNonce⟩
    exact alone f mem (by rw [derived', derived, same]) (by rw [← nonce, sameNonce])
  · rintro rfl
    exact ⟨Except.ok.inj (derived'.symm.trans derived), nonce⟩

/-- Of the checks of one triple one at most is told that its nonce is fresh, and
each is told how many came before it, where every check writes on what it has
read and no other triple has its id and nonce. -/
theorem reuse_reported {events : List CheckEvent}
    (undisturbed : Run.Along Checks.step Checks.Undisturbed Checks.start events) :
    let results := (run Checks.step Checks.start events).results
    (∀ (i j : Nat) (c : NonceCheck) (r r' : NonceCheckResult), results[i]? = some (c, r) →
      results[j]? = some (c, r') → r.reused = false → r'.reused = false → i = j) ∧
    ∀ before c r after, results = before ++ (c, r) :: after →
      (∀ f ∈ before, f.1.namespace_id = c.namespace_id → f.1.packet_nonce = c.packet_nonce →
        f.1 = c) →
      r.prior_uses = (before.filter fun f => f.1 = c).length := by
  intro results
  have inv : (run Checks.step Checks.start events).Inv :=
    undisturbed.invariant Checks.inv_start
      (fun _ _ inv undisturbed => Checks.inv_step inv undisturbed) events List.prefix_rfl
  have split {i : Nat} {f : NonceCheck × NonceCheckResult} (here : results[i]? = some f) :
      results = results.take i ++ f :: results.drop (i + 1) := by
    obtain ⟨bound, value⟩ := List.getElem?_eq_some_iff.mp here
    rw [← value, List.getElem_cons_drop, List.take_append_drop]
  have known {f : NonceCheck × NonceCheckResult} (mem : f ∈ results) :
      f.1.namespace_id = .ok f.2.namespace_id ∧ f.2.packet_nonce = f.1.packet_nonce := by
    obtain ⟨before, after, parts⟩ := List.append_of_mem mem
    obtain ⟨derived, nonce, -⟩ := inv.history before f.1 f.2 after parts
    exact ⟨derived, nonce⟩
  have first {i j : Nat} {c : NonceCheck} {r r' : NonceCheckResult} (earlier : i < j)
      (hi : results[i]? = some (c, r)) (hj : results[j]? = some (c, r')) : r'.reused = true := by
    obtain ⟨derived', nonce', prior, reused⟩ := inv.history _ _ _ _ (split hj)
    obtain ⟨derived, nonce⟩ := known (List.mem_of_getElem? hi)
    have mem : (c, r) ∈ (results.take j).filter fun f =>
        f.2.namespace_id = r'.namespace_id ∧ f.2.packet_nonce = c.packet_nonce := by
      rw [List.mem_filter, decide_eq_true_eq]
      refine ⟨?_, Except.ok.inj (derived.symm.trans derived'), nonce⟩
      rw [List.mem_iff_getElem?]
      exact ⟨i, by rw [List.getElem?_take_of_lt earlier, hi]⟩
    rw [reused, decide_eq_true_eq, prior, returned]
    exact List.length_pos_of_mem mem
  refine ⟨fun i j c r r' hi hj fresh fresh' => ?_, fun before c r after parts alone => ?_⟩
  · rcases Nat.lt_trichotomy i j with earlier | same | later
    · rw [first earlier hi hj] at fresh'
      cases fresh'
    · exact same
    · rw [first later hj hi] at fresh
      cases fresh
  · obtain ⟨derived, -, prior, -⟩ := inv.history before c r after parts
    rw [prior]
    refine returned_eq derived (fun f mem => known ?_) alone
    rw [parts]
    exact List.mem_append_left _ mem

/-! ## Two checks of one triple -/

def sampleCheck : NonceCheck := ⟨py "key-123", py "ctx-a", py "packet-001"⟩

theorem sampleCheck_registers (store : Registry) : ∃ store' result,
    sampleCheck.register store = .ok (store', result) := by
  obtain ⟨preimage, encoded⟩ : ∃ preimage, sampleCheck.namespace_preimage = .ok preimage := ⟨_, rfl⟩
  simp only [NonceCheck.register, NonceCheck.namespace_id, encoded, ok_bind]
  exact ⟨_, _, rfl⟩

theorem reuse_reported_sample :
    let events : List CheckEvent := [.enter sampleCheck, .read 0, .compute 0, .write 0,
      .enter sampleCheck, .read 0, .compute 0, .write 0]
    ∀ before c r after, (run Checks.step Checks.start events).results = before ++ (c, r) :: after →
      (∀ f ∈ before, f.1.namespace_id = c.namespace_id → f.1.packet_nonce = c.packet_nonce →
        f.1 = c) →
      r.prior_uses = (before.filter fun f => f.1 = c).length := by
  obtain ⟨store, r, registered⟩ := sampleCheck_registers []
  obtain ⟨store', r', registered'⟩ := sampleCheck_registers store.reread
  have joined : Py.Joined sampleCheck.packet_nonce := by decide
  refine (reuse_reported ?_).2
  have steps : Run.Along Checks.step Checks.Undisturbed Checks.start
      [.enter sampleCheck, .read 0, .compute 0, .write 0, .enter sampleCheck, .read 0, .compute 0,
        .write 0] ↔
      (∀ c s result version, sampleCheck = c → store = s → r = result → 0 = version → version = 0) ∧
        ∀ c s result version, sampleCheck = c → store' = s → r' = result → 1 = version →
          version = 1 := by
    simp [Run.Along, Checks.step, Checks.Undisturbed, Checks.advance, Checks.finish, Checks.store,
      Checks.start, registered, registered', joined]
  rw [steps]
  exact ⟨fun _ _ _ _ _ _ _ same => same.symm, fun _ _ _ _ _ _ _ same => same.symm⟩

/-- Both read the file before either writes it. -/
theorem two_checks_both_fresh : ¬ ∀ (events : List CheckEvent) (i j : Nat) (c : NonceCheck)
    (r r' : NonceCheckResult),
    (run Checks.step Checks.start events).results[i]? = some (c, r) →
      (run Checks.step Checks.start events).results[j]? = some (c, r') →
      r.reused = false → r'.reused = false → i = j := by
  intro once
  obtain ⟨store, r, registered⟩ := sampleCheck_registers []
  obtain ⟨-, -, prior, reused, -⟩ := NonceCheck.register_eq_ok registered
  have fresh : r.reused = false := by
    rw [reused, prior]
    rfl
  have ends : (run Checks.step Checks.start [.enter sampleCheck, .enter sampleCheck, .read 0,
      .read 1, .compute 0, .compute 1, .write 0, .write 0]).results =
      [(sampleCheck, r), (sampleCheck, r)] := by
    simp [Checks.step, Checks.advance, Checks.finish, Checks.store, Checks.start, registered]
  have same := once _ 0 1 sampleCheck r r (by rw [ends]; rfl) (by rw [ends]; rfl) fresh fresh
  cases same

end Qev.Bry
