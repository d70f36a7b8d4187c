import Qev.Bry.Audit
import Qev.Bry.Packet

/-! What is hashed for a master key, a nonce and a context: in the schedule, in
the AEAD and in the nonce registry, and which of them are hashed alike. -/

namespace Qev.Bry

open Py (Clean CodePoint Str cp py)
open Sha256 (hmac hmacKey sha256)

/-! ## HMAC -/

/-- Key block and message. -/
abbrev Keyed := Bytes × Bytes

def digest (input : Keyed) : Bytes :=
  sha256 (input.1.map (· ^^^ 0x5c) ++ sha256 (input.1.map (· ^^^ 0x36) ++ input.2))

theorem hmac_eq_digest (key message : Bytes) : hmac key message = digest (hmacKey key, message) :=
  rfl

def shortened (key : Bytes) : Bytes := if 64 < key.length then sha256 key else key

/-- The keys, hashed where they are longer than a block, are equal up to zeros at
their ends. -/
def SameBlock (k k' : Bytes) : Prop :=
  ∃ i j, shortened k ++ List.replicate i 0 = shortened k' ++ List.replicate j 0

theorem length_shortened (key : Bytes) : (shortened key).length ≤ 64 := by
  rw [shortened]
  split
  · rw [Sha256.length_sha256]
    decide
  · omega

theorem hmacKey_eq_take (key : Bytes) (i : Nat) :
    hmacKey key = (shortened key ++ List.replicate i 0 ++ List.replicate 64 0).take 64 := by
  have short := length_shortened key
  rw [List.append_assoc, ← List.replicate_add, List.take_append, List.take_of_length_le short,
    List.take_replicate, Nat.min_eq_left (by omega)]
  rfl

theorem hmacKey_eq_iff (k k' : Bytes) : hmacKey k = hmacKey k' ↔ SameBlock k k' := by
  constructor
  · intro same
    exact ⟨_, _, same⟩
  · rintro ⟨i, j, same⟩
    rw [hmacKey_eq_take k i, same, ← hmacKey_eq_take]

/-! ## Bars -/

/-- A part of one text is on the other side of the bar. -/
def Shifted (a c a' c' : Str) : Prop :=
  ∃ x, a' = a ++ cp '|' :: x ∧ c = x ++ cp '|' :: c' ∨ a = a' ++ cp '|' :: x ∧ c' = x ++ cp '|' :: c

theorem Shifted.ne {a c a' c' : Str} (h : Shifted a c a' c') : a ≠ a' := by
  rintro rfl
  obtain ⟨x, ⟨longer, -⟩ | ⟨longer, -⟩⟩ := h
  all_goals
    have length := congrArg List.length longer
    rw [List.length_append, List.length_cons] at length
    omega

theorem append_bar_eq_iff {a c a' c' : Str} :
    a ++ cp '|' :: c = a' ++ cp '|' :: c' ↔ a = a' ∧ c = c' ∨ Shifted a c a' c' := by
  rw [List.append_eq_append_iff]
  constructor
  · rintro (⟨x, rfl, rest⟩ | ⟨x, rfl, rest⟩)
    · cases x with
      | nil => exact .inl ⟨(List.append_nil a).symm, (List.cons.inj rest).2⟩
      | cons d x =>
        obtain ⟨rfl, rfl⟩ := List.cons.inj rest
        exact .inr ⟨x, .inl ⟨rfl, rfl⟩⟩
    · cases x with
      | nil => exact .inl ⟨List.append_nil a', (List.cons.inj rest).2.symm⟩
      | cons d x =>
        obtain ⟨rfl, rfl⟩ := List.cons.inj rest
        exact .inr ⟨x, .inr ⟨rfl, rfl⟩⟩
  · rintro (⟨rfl, rfl⟩ | ⟨x, ⟨rfl, rfl⟩ | ⟨rfl, rfl⟩⟩)
    · exact .inl ⟨[], (List.append_nil a).symm, rfl⟩
    · exact .inl ⟨_, rfl, rfl⟩
    · exact .inr ⟨_, rfl, rfl⟩

theorem encode_injective {s s' : Str} {bytes : Bytes} (h : encode s = .ok bytes)
    (h' : encode s' = .ok bytes) : s = s' := by
  obtain ⟨cs, rfl, rfl⟩ := encode_eq_ok.mp h
  obtain ⟨ds, rfl, same⟩ := encode_eq_ok.mp h'
  rw [Utf8.encode_injective same]

theorem encode_append_bar {a c : Str} {bytes later : Bytes} (ha : encode a = .ok bytes)
    (hc : encode c = .ok later) :
    encode (a ++ cp '|' :: c) = .ok (bytes ++ b "|" ++ later) := by
  obtain ⟨cs, rfl, rfl⟩ := encode_eq_ok.mp ha
  obtain ⟨ds, rfl, rfl⟩ := encode_eq_ok.mp hc
  refine encode_eq_ok.mpr ⟨cs ++ '|' :: ds, by rw [List.map_append, List.map_cons], ?_⟩
  rw [Utf8.encode, Utf8.encode, Utf8.encode, List.flatMap_append, List.flatMap_cons,
    List.append_assoc]
  rfl

/-- Bytes around a bar are text around a bar. -/
theorem bar_bytes_eq_iff {a c a' c' : Str} {ba bc ba' bc' : Bytes} (ha : encode a = .ok ba)
    (hc : encode c = .ok bc) (ha' : encode a' = .ok ba') (hc' : encode c' = .ok bc') :
    ba ++ b "|" ++ bc = ba' ++ b "|" ++ bc' ↔ a = a' ∧ c = c' ∨ Shifted a c a' c' := by
  have left := encode_append_bar ha hc
  have right := encode_append_bar ha' hc'
  rw [← append_bar_eq_iff]
  constructor
  · intro same
    rw [← same] at right
    exact encode_injective left right
  · intro same
    rw [same] at left
    exact Except.ok.inj (left.symm.trans right)

/-! ## Triples -/

structure Triple where
  master_key : Str
  nonce : Str
  context : Str
  deriving DecidableEq, Repr

namespace Triple

/-- The input of the hash in `derive_session_key`. -/
def session_input (t : Triple) : Except Exc Keyed := do
  let master_key ← encode t.master_key
  let nonce ← encode t.nonce
  let context ← encode t.context
  return (hmacKey master_key, b "BRY-NFET-SX|SESSION|" ++ nonce ++ b "|" ++ context)

/-- The inputs of the hashes in `derive_aead_key` and, with the key that it
derives, in `derive_aead_nonce`. -/
def aead_input (master_key nonce context : Bytes) : Keyed × Keyed :=
  let key : Keyed := (hmacKey master_key, b "BRY-NFET-SX|AEAD|KEY|" ++ context)
  (key, hmacKey (digest key), b "BRY-NFET-SX|AEAD|NONCE|" ++ nonce ++ b "|" ++ context)

def aead_inputs (t : Triple) : Except Exc (Keyed × Keyed) := do
  return aead_input (← encode t.master_key) (← encode t.nonce) (← encode t.context)

/-- The check of the registry for the triple. -/
def check (t : Triple) : NonceCheck := ⟨t.master_key, t.context, t.nonce⟩

def session_key (t : Triple) : Except Exc Bytes := do
  return derive_session_key (← encode t.master_key) (← encode t.nonce) (← encode t.context)

/-- Key and nonce, as `encrypt_bytes` derives them. -/
def aead_key_and_nonce (t : Triple) : Except Exc (Bytes × Bytes) := do
  let key := derive_aead_key (← encode t.master_key) (← encode t.context)
  return (key, derive_aead_nonce key (← encode t.nonce) (← encode t.context))

/-- The input of the hash in `initialize_scheduler_state`, under the session key. -/
def schedule_input (t : Triple) : Except Exc Keyed := do
  let session_key ← t.session_key
  let nonce ← encode t.nonce
  let context ← encode t.context
  return (hmacKey session_key, b "BRY-NFET-SX|SCHED|INIT|" ++ nonce ++ b "|" ++ context)

def schedule (t : Triple) (token_count : Nat) (config : NFETConfig) :
    Except Exc NFETScheduleResult :=
  build_schedule token_count t.master_key t.nonce t.context config

def registry_entry (t : Triple) : Except Exc (Str × Str) := do
  return (← t.check.namespace_id, t.nonce)

end Triple

/-- No two results are one. -/
def Apart {α : Type} (x y : Except Exc α) : Prop := ∀ a, x = .ok a → y ≠ .ok a

/-- What is hashed differs wherever it has to. -/
structure Unambiguous (t t' : Triple) : Prop where
  session : t ≠ t' → Apart t.session_input t'.session_input
  aead : t ≠ t' → Apart t.aead_inputs t'.aead_inputs
  registry : (t.master_key, t.context) ≠ (t'.master_key, t'.context) →
    Apart t.check.namespace_preimage t'.check.namespace_preimage

/-- Two triples for which HMAC has one key block, and one text of nonce and
context; or with one text of master key and context. -/
def Confused (t t' : Triple) : Prop :=
  (t ≠ t' ∧ (∃ k k', encode t.master_key = .ok k ∧ encode t'.master_key = .ok k' ∧ SameBlock k k') ∧
    Clean t.nonce ∧ Clean t.context ∧
    (t.nonce = t'.nonce ∧ t.context = t'.context ∨ Shifted t.nonce t.context t'.nonce t'.context)) ∨
  (Clean t.master_key ∧ Clean t.context ∧
    Shifted t.master_key t.context t'.master_key t'.context)

/-- The hashes tell apart what they are given for the two triples, also where no
more than `state_bytes` of a hash are taken for the state of a schedule. -/
structure Ideal (state_bytes : ℤ) (t t' : Triple) : Prop where
  session : ∀ i i', t.session_input = .ok i → t'.session_input = .ok i' →
    digest i = digest i' → i = i'
  schedule : ∀ i i', t.schedule_input = .ok i → t'.schedule_input = .ok i' →
    (digest i).take state_bytes.toNat = (digest i').take state_bytes.toNat → i = i'
  aead : ∀ i i', t.aead_inputs = .ok i → t'.aead_inputs = .ok i' →
    digest i.1 = digest i'.1 → (digest i.2).take 12 = (digest i'.2).take 12 → i = i'
  registry : ∀ i i', t.check.namespace_preimage = .ok i → t'.check.namespace_preimage = .ok i' →
    sha256 i = sha256 i' → i = i'

section Pair

variable {t t' : Triple}

theorem session_input_eq_ok {i : Keyed} : t.session_input = .ok i ↔
    ∃ k n c, encode t.master_key = .ok k ∧ encode t.nonce = .ok n ∧ encode t.context = .ok c ∧
      i = (hmacKey k, b "BRY-NFET-SX|SESSION|" ++ n ++ b "|" ++ c) := by
  constructor
  · intro h
    obtain ⟨k, hk, h⟩ := bind_eq_ok.mp h
    obtain ⟨n, hn, h⟩ := bind_eq_ok.mp h
    obtain ⟨c, hc, h⟩ := bind_eq_ok.mp h
    exact ⟨k, n, c, hk, hn, hc, (Except.ok.inj h).symm⟩
  · rintro ⟨k, n, c, hk, hn, hc, rfl⟩
    rw [Triple.session_input, hk, ok_bind, hn, ok_bind, hc, ok_bind]
    rfl

theorem aead_inputs_eq_ok {i : Keyed × Keyed} : t.aead_inputs = .ok i ↔
    ∃ k n c, encode t.master_key = .ok k ∧ encode t.nonce = .ok n ∧ encode t.context = .ok c ∧
      i = Triple.aead_input k n c := by
  constructor
  · intro h
    obtain ⟨k, hk, h⟩ := bind_eq_ok.mp h
    obtain ⟨n, hn, h⟩ := bind_eq_ok.mp h
    obtain ⟨c, hc, h⟩ := bind_eq_ok.mp h
    exact ⟨k, n, c, hk, hn, hc, (Except.ok.inj h).symm⟩
  · rintro ⟨k, n, c, hk, hn, hc, rfl⟩
    rw [Triple.aead_inputs, hk, ok_bind, hn, ok_bind, hc, ok_bind]
    rfl

/-- The bytes hashed for the session key are the same. -/
theorem session_inputs_meet {i : Keyed} (h : t.session_input = .ok i)
    (h' : t'.session_input = .ok i) :
    (∃ k k', encode t.master_key = .ok k ∧ encode t'.master_key = .ok k' ∧ SameBlock k k') ∧
      Clean t.nonce ∧ Clean t.context ∧ (t.nonce = t'.nonce ∧ t.context = t'.context ∨
        Shifted t.nonce t.context t'.nonce t'.context) := by
  obtain ⟨k, n, c, hk, hn, hc, rfl⟩ := session_input_eq_ok.mp h
  obtain ⟨k', n', c', hk', hn', hc', same⟩ := session_input_eq_ok.mp h'
  obtain ⟨block, message⟩ := Prod.mk.inj same
  rw [List.append_assoc, List.append_assoc, List.append_assoc, List.append_assoc,
    List.append_cancel_left_eq, ← List.append_assoc, ← List.append_assoc,
    bar_bytes_eq_iff hn hc hn' hc'] at message
  exact ⟨⟨k, k', hk, hk', (hmacKey_eq_iff k k').mp block⟩, clean_of_encode hn, clean_of_encode hc,
    message⟩

theorem aead_inputs_meet {i : Keyed × Keyed} (h : t.aead_inputs = .ok i)
    (h' : t'.aead_inputs = .ok i) :
    (∃ k k', encode t.master_key = .ok k ∧ encode t'.master_key = .ok k' ∧ SameBlock k k') ∧
      Clean t.nonce ∧ Clean t.context ∧ t.nonce = t'.nonce ∧ t.context = t'.context := by
  obtain ⟨k, n, c, hk, hn, hc, rfl⟩ := aead_inputs_eq_ok.mp h
  obtain ⟨k', n', c', hk', hn', hc', same⟩ := aead_inputs_eq_ok.mp h'
  obtain ⟨key, nonce⟩ := Prod.mk.inj same
  obtain ⟨block, context⟩ := Prod.mk.inj key
  have message := (Prod.mk.inj nonce).2
  obtain rfl := List.append_cancel_left context
  obtain rfl := List.append_cancel_left (List.append_cancel_right
    (List.append_cancel_right message))
  exact ⟨⟨k, k', hk, hk', (hmacKey_eq_iff k k').mp block⟩, clean_of_encode hn, clean_of_encode hc,
    encode_injective hn hn', encode_injective hc hc'⟩

theorem preimages_meet {i : Bytes} (h : t.check.namespace_preimage = .ok i)
    (h' : t'.check.namespace_preimage = .ok i) : Clean t.master_key ∧ Clean t.context ∧
      (t.master_key = t'.master_key ∧ t.context = t'.context ∨
        Shifted t.master_key t.context t'.master_key t'.context) := by
  have clean := clean_of_encode h
  rw [Py.Clean, List.forall_mem_append, List.forall_mem_cons] at clean
  exact ⟨clean.1, clean.2.2, append_bar_eq_iff.mp (encode_injective h h')⟩

theorem encode_clean {s : Str} (clean : Clean s) : ∃ bytes, encode s = .ok bytes := by
  obtain ⟨bytes, encoded⟩ := Py.encode_of_clean clean
  exact ⟨bytes, by rw [encode, encoded]; rfl⟩

theorem Shifted.clean {a c a' c' : Str} (h : Shifted a c a' c') (ha : Clean a) (hc : Clean c) :
    Clean a' ∧ Clean c' := by
  have whole : Clean (a' ++ cp '|' :: c') := by
    rw [← append_bar_eq_iff.mpr (.inr h)]
    exact ha.append (.cons '|' hc)
  rw [Py.Clean, List.forall_mem_append, List.forall_mem_cons] at whole
  exact ⟨whole.1, whole.2.2⟩

theorem session_inputs_equal {k k' : Bytes} (hk : encode t.master_key = .ok k)
    (hk' : encode t'.master_key = .ok k') (block : SameBlock k k') (hn : Clean t.nonce)
    (hc : Clean t.context) (bars : t.nonce = t'.nonce ∧ t.context = t'.context ∨
      Shifted t.nonce t.context t'.nonce t'.context) :
    ∃ i, t.session_input = .ok i ∧ t'.session_input = .ok i := by
  have clean : Clean t'.nonce ∧ Clean t'.context := by
    rcases bars with ⟨sameNonce, sameContext⟩ | shifted
    · exact ⟨sameNonce ▸ hn, sameContext ▸ hc⟩
    · exact shifted.clean hn hc
  obtain ⟨n, hn⟩ := encode_clean hn
  obtain ⟨c, hc⟩ := encode_clean hc
  obtain ⟨n', hn'⟩ := encode_clean clean.1
  obtain ⟨c', hc'⟩ := encode_clean clean.2
  refine ⟨_, session_input_eq_ok.mpr ⟨k, n, c, hk, hn, hc, rfl⟩,
    session_input_eq_ok.mpr ⟨k', n', c', hk', hn', hc', ?_⟩⟩
  have message := (bar_bytes_eq_iff hn hc hn' hc').mpr bars
  rw [(hmacKey_eq_iff k k').mpr block, List.append_assoc, List.append_assoc, List.append_assoc,
    List.append_assoc, ← List.append_assoc n, message, List.append_assoc]

theorem unambiguous_iff (t t' : Triple) : Unambiguous t t' ↔ ¬ Confused t t' := by
  constructor
  · rintro unambiguous (⟨other, ⟨k, k', hk, hk', block⟩, hn, hc, bars⟩ | ⟨hk, hc, shifted⟩)
    · obtain ⟨i, one, two⟩ := session_inputs_equal hk hk' block hn hc bars
      exact unambiguous.session other i one two
    · obtain ⟨i, encoded⟩ := encode_clean (hk.append (hc.cons '|'))
      refine unambiguous.registry (fun same => shifted.ne (Prod.mk.inj same).1) i encoded ?_
      rw [append_bar_eq_iff.mpr (.inr shifted)] at encoded
      exact encoded
  · intro apart
    refine ⟨fun other i one two => ?_, fun other i one two => ?_, fun other i one two => ?_⟩
    · exact apart (.inl ⟨other, session_inputs_meet one two⟩)
    · obtain ⟨block, hn, hc, same⟩ := aead_inputs_meet one two
      exact apart (.inl ⟨other, block, hn, hc, .inl same⟩)
    · obtain ⟨hk, hc, same | shifted⟩ := preimages_meet one two
      · exact other (Prod.ext same.1 same.2)
      · exact apart (.inr ⟨hk, hc, shifted⟩)

end Pair

/-- Derived values are the hashes of the inputs. -/
theorem session_key_eq_ok {t : Triple} {key : Bytes} (h : t.session_key = .ok key) :
    ∃ i, t.session_input = .ok i ∧ digest i = key := by
  obtain ⟨k, hk, h⟩ := bind_eq_ok.mp h
  obtain ⟨n, hn, h⟩ := bind_eq_ok.mp h
  obtain ⟨c, hc, h⟩ := bind_eq_ok.mp h
  exact ⟨_, session_input_eq_ok.mpr ⟨k, n, c, hk, hn, hc, rfl⟩, Except.ok.inj h⟩

theorem aead_key_and_nonce_eq_ok {t : Triple} {derived : Bytes × Bytes}
    (h : t.aead_key_and_nonce = .ok derived) :
    ∃ i, t.aead_inputs = .ok i ∧ digest i.1 = derived.1 ∧ (digest i.2).take 12 = derived.2 := by
  obtain ⟨k, hk, h⟩ := bind_eq_ok.mp h
  obtain ⟨c, hc, h⟩ := bind_eq_ok.mp h
  obtain ⟨n, hn, h⟩ := bind_eq_ok.mp h
  obtain ⟨c', hc', h⟩ := bind_eq_ok.mp h
  cases hc.symm.trans hc'
  have values : (derive_aead_key k c, derive_aead_nonce (derive_aead_key k c) n c) = derived :=
    Except.ok.inj h
  rw [derive_aead_key, derive_aead_nonce, hmac_eq_digest, hmac_eq_digest] at values
  obtain ⟨key, nonce⟩ := Prod.ext_iff.mp values
  exact ⟨_, aead_inputs_eq_ok.mpr ⟨k, n, c, hk, hn, hc, rfl⟩, key, nonce⟩

theorem registry_entry_eq_ok {t : Triple} {entry : Str × Str} (h : t.registry_entry = .ok entry) :
    ∃ i, t.check.namespace_preimage = .ok i ∧ py (Hex.hex (sha256 i)) = entry.1 ∧
      t.nonce = entry.2 := by
  obtain ⟨id, derived, h⟩ := bind_eq_ok.mp h
  obtain ⟨i, encoded, derived⟩ := bind_eq_ok.mp derived
  have text : py (Hex.hex (sha256 i)) = id := Except.ok.inj derived
  have entries : (id, t.nonce) = entry := Except.ok.inj h
  rw [← entries]
  exact ⟨i, encoded, text, rfl⟩

/-- The material of a state goes on from the digest. -/
theorem prefix_extend (state_bytes fuel : Nat) (material : Bytes) :
    material <+: extend state_bytes fuel material := by
  induction fuel generalizing material with
  | zero => exact List.prefix_rfl
  | succ fuel ih =>
    rw [extend]
    split_ifs
    · exact (List.prefix_append material _).trans (ih _)
    · exact List.prefix_rfl

theorem take_initial (session_key nonce context : Bytes) (state_bytes : Nat) :
    (initialize_scheduler_state session_key nonce context state_bytes).state_bytes.take 32 =
      (digest (hmacKey session_key,
        b "BRY-NFET-SX|SCHED|INIT|" ++ nonce ++ b "|" ++ context)).take state_bytes := by
  rw [initialize_scheduler_state, ← hmac_eq_digest]
  have length := Sha256.length_hmac session_key
    (b "BRY-NFET-SX|SCHED|INIT|" ++ nonce ++ b "|" ++ context)
  generalize hmac session_key (b "BRY-NFET-SX|SCHED|INIT|" ++ nonce ++ b "|" ++ context) = init at *
  obtain ⟨more, longer⟩ := prefix_extend state_bytes state_bytes init
  rw [List.take_take, ← longer, List.take_append_of_le_length (by omega)]
  rcases Nat.le_total state_bytes 32 with narrow | wide
  · rw [Nat.min_eq_right narrow]
  · rw [Nat.min_eq_left wide, List.take_of_length_le (by omega), List.take_of_length_le (by omega)]

/-- A schedule is told from its initial state. -/
theorem schedule_input_eq_ok {t : Triple} {n : Nat} {config : NFETConfig}
    {schedule : NFETScheduleResult} (h : t.schedule n config = .ok schedule) :
    ∃ i key, t.session_key = .ok key ∧ t.schedule_input = .ok i ∧ i.1 = hmacKey key ∧
      ∃ state : Bytes, schedule.initial_state_hex = Hex.hex state ∧
        state.length = config.state_bytes.toNat ∧
        state.take 32 = (digest i).take config.state_bytes.toNat := by
  obtain ⟨-, k, n, c, hk, hn, hc, -, initial, -⟩ := schedule_eq_ok h
  have key : t.session_key = .ok (derive_session_key k n c) := by
    rw [Triple.session_key, hk, ok_bind, hn, ok_bind, hc, ok_bind]
    rfl
  have input : t.schedule_input = .ok (hmacKey (derive_session_key k n c),
      b "BRY-NFET-SX|SCHED|INIT|" ++ n ++ b "|" ++ c) := by
    rw [Triple.schedule_input, key, ok_bind, hn, ok_bind, hc, ok_bind]
    rfl
  exact ⟨_, _, key, input, rfl, _, initial, length_initial _ _ _ _, take_initial _ _ _ _⟩

/-- Keys of one length, no longer than a block, make blocks of their own. -/
theorem hmacKey_injective {k k' : Bytes} (short : k.length ≤ 64) (length : k.length = k'.length)
    (same : hmacKey k = hmacKey k') : k = k' := by
  obtain ⟨i, j, padded⟩ := (hmacKey_eq_iff k k').mp same
  rw [shortened, shortened, if_neg (by omega), if_neg (by omega)] at padded
  exact (List.append_inj padded length).1

/-- With ideal hashes, triples that are not confused share nothing. -/
theorem apart_of_ideal {state_bytes : ℤ} {t t' : Triple} (ideal : Ideal state_bytes t t')
    (unambiguous : Unambiguous t t') (other : t ≠ t') : Apart t.session_key t'.session_key ∧
      (∀ n n' config config', config.state_bytes = state_bytes →
        Apart (t.schedule n config) (t'.schedule n' config')) ∧
      Apart t.aead_key_and_nonce t'.aead_key_and_nonce ∧
      Apart t.registry_entry t'.registry_entry := by
  have session : Apart t.session_key t'.session_key := by
    intro key one two
    obtain ⟨i, input, rfl⟩ := session_key_eq_ok one
    obtain ⟨i', input', same⟩ := session_key_eq_ok two
    cases ideal.session i i' input input' same.symm
    exact unambiguous.session other i input input'
  refine ⟨session, fun n n' config config' width schedule one two => ?_,
    fun derived one two => ?_, fun entry one two => ?_⟩
  · obtain ⟨i, key, keyed, input, block, state, initial, length, start⟩ := schedule_input_eq_ok one
    obtain ⟨i', key', keyed', input', block', state', initial', length', start'⟩ :=
      schedule_input_eq_ok two
    obtain rfl : state = state' := Hex.hex_injective (initial.symm.trans initial')
    rw [← length', length] at start'
    subst width
    cases ideal.schedule i i' input input' (start.symm.trans start')
    have digests : key.length = 32 ∧ key'.length = 32 := by
      obtain ⟨j, -, rfl⟩ := session_key_eq_ok keyed
      obtain ⟨j', -, rfl⟩ := session_key_eq_ok keyed'
      exact ⟨Sha256.length_sha256 _, Sha256.length_sha256 _⟩
    obtain rfl := hmacKey_injective (by omega) (digests.1.trans digests.2.symm)
      (block.symm.trans block')
    exact session key keyed keyed'
  · obtain ⟨i, input, key, nonce⟩ := aead_key_and_nonce_eq_ok one
    obtain ⟨i', input', key', nonce'⟩ := aead_key_and_nonce_eq_ok two
    cases ideal.aead i i' input input' (key.trans key'.symm) (nonce.trans nonce'.symm)
    exact unambiguous.aead other i input input'
  · obtain ⟨i, input, id, nonce⟩ := registry_entry_eq_ok one
    obtain ⟨i', input', id', nonce'⟩ := registry_entry_eq_ok two
    have hashes : sha256 i = sha256 i' := Hex.hex_injective (Py.py_inj.mp (id.trans id'.symm))
    cases ideal.registry i i' input input' hashes
    refine unambiguous.registry (fun same => other ?_) i input input'
    obtain ⟨keys, contexts⟩ := Prod.mk.inj same
    cases t
    cases t'
    rw [Triple.mk.injEq]
    exact ⟨keys, nonce.trans nonce'.symm, contexts⟩

end Qev.Bry
