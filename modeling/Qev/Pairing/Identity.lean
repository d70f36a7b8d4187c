import Mathlib.Data.Sym.Sym2
import Qev.Desktop.Transfer

/-! The identity of a device: its keypair (`identity.rs`), the keystore of the
system (`keystore.rs`) and the record that the peer store keeps of it. Errors
are given without the detail that a library appends to them. -/

namespace Qev.Pairing

open Desktop (base64)

structure StaticKeypair where
  public_key : FixedBytes 32
  secret : FixedBytes 32
  deriving DecidableEq, Repr

def StaticKeypair.public_hex (kp : StaticKeypair) : String := Hex.hex kp.public_key.val

/-! ## Safety numbers -/

def SAFETY_GROUP_SIZE : Nat := 5

/-- One digit for each byte, in groups. -/
def safety_digits (digest : Bytes) : String :=
  String.ofList (digest.zipIdx.flatMap fun (b, i) =>
    (if i > 0 ∧ i % SAFETY_GROUP_SIZE = 0 then [' '] else []) ++ [Char.ofNat (48 + b.toNat % 10)])

/-- `blake2b` is BLAKE2b with an output of thirty bytes. -/
def safety_number (blake2b : Bytes → Bytes) (own_pk peer_pk : FixedBytes 32) : String :=
  let (lower, higher) := if own_pk.val ≤ peer_pk.val then (own_pk, peer_pk) else (peer_pk, own_pk)
  safety_digits (blake2b (lower.val ++ higher.val))

/-- What is hashed for the safety number. -/
def safety_input (own_pk peer_pk : FixedBytes 32) : Bytes :=
  if own_pk.val ≤ peer_pk.val then own_pk.val ++ peer_pk.val else peer_pk.val ++ own_pk.val

theorem safety_number_eq (blake2b : Bytes → Bytes) (a b : FixedBytes 32) :
    safety_number blake2b a b = safety_digits (blake2b (safety_input a b)) := by
  by_cases le : a.val ≤ b.val
  · simp only [safety_number, safety_input, if_pos le]
  · simp only [safety_number, safety_input, if_neg le]

theorem safety_input_comm (a b : FixedBytes 32) : safety_input a b = safety_input b a := by
  by_cases le : a.val ≤ b.val
  · by_cases ge : b.val ≤ a.val
    · rw [Subtype.ext (List.le_antisymm le ge)]
    · rw [safety_input, safety_input, if_pos le, if_neg ge]
  · have ge : b.val ≤ a.val := (List.le_total _ _).resolve_left le
    rw [safety_input, safety_input, if_neg le, if_pos ge]

theorem safety_input_eq_iff (a b c d : FixedBytes 32) :
    safety_input a b = safety_input c d ↔ s(a, b) = s(c, d) := by
  have parts (x y : FixedBytes 32) : ∃ l h : FixedBytes 32, safety_input x y = l.val ++ h.val ∧
      s(l, h) = s(x, y) := by
    rw [safety_input]
    split
    · exact ⟨x, y, rfl, rfl⟩
    · exact ⟨y, x, rfl, Sym2.eq_swap⟩
  constructor
  · intro same
    obtain ⟨l, h, input, pair⟩ := parts a b
    obtain ⟨l', h', input', pair'⟩ := parts c d
    rw [input, input'] at same
    obtain ⟨lower, higher⟩ := List.append_inj same (l.property.trans l'.property.symm)
    rw [← pair, ← pair', Subtype.ext lower, Subtype.ext higher]
  · intro same
    rcases Sym2.eq_iff.mp same with ⟨rfl, rfl⟩ | ⟨rfl, rfl⟩
    · rfl
    · exact safety_input_comm a b

theorem safety_number_comm (blake2b : Bytes → Bytes) (a b : FixedBytes 32) :
    safety_number blake2b a b = safety_number blake2b b a := by
  rw [safety_number_eq, safety_number_eq, safety_input_comm]

/-! ## The keystore -/

/-- Which calls the system lets through; the user may be asked, and refuse. -/
structure Grant where
  delete : Bool
  set : Bool
  get : Bool
  deriving DecidableEq, Repr

def Grant.all : Grant := ⟨true, true, true⟩

/-- The one item under the application's service and account. Another program
may have put anything there. -/
structure Keystore where
  is_available : Bool
  item : Option Bytes
  deriving DecidableEq, Repr

namespace Keystore

/-- The old item is deleted first, whatever becomes of that. -/
def store_secret (ks : Keystore) (grant : Grant) (secret : FixedBytes 32) :
    Keystore × Except String Unit :=
  if ks.is_available then
    if grant.set then ({ ks with item := some secret.val }, .ok ())
    else (if grant.delete then { ks with item := none } else ks, .error "keychain store")
  else (ks, .error "OS keystore not available on this platform")

def load_secret (ks : Keystore) (grant : Grant) : Except String (Option (FixedBytes 32)) :=
  if ks.is_available then
    if grant.get then
      match ks.item with
      | none => .ok none
      | some bytes =>
        if h : bytes.length = 32 then .ok (some ⟨bytes, h⟩)
        else .error s!"keychain: secret wrong length {bytes.length} (expected 32)"
    else .error "keychain load"
  else .error "OS keystore not available on this platform"

@[simp] theorem store_secret_available (ks : Keystore) (grant : Grant) (secret : FixedBytes 32) :
    (ks.store_secret grant secret).1.is_available = ks.is_available := by
  unfold store_secret
  split_ifs <;> rfl

/-- The keystore ends with the new secret, with nothing, or as it was. -/
theorem store_secret_item (ks : Keystore) (grant : Grant) (secret : FixedBytes 32) :
    (ks.store_secret grant secret).1.item =
      if ks.is_available then
        if grant.set then some secret.val else if grant.delete then none else ks.item
      else ks.item := by
  unfold store_secret
  split_ifs <;> rfl

theorem load_secret_eq_ok {ks : Keystore} {grant : Grant} {secret : FixedBytes 32} :
    ks.load_secret grant = .ok (some secret) ↔
      ks.is_available = true ∧ grant.get = true ∧ ks.item = some secret.val := by
  obtain ⟨available, item⟩ := ks
  unfold load_secret
  by_cases on : available = true
  · by_cases got : grant.get = true
    · cases item with
      | none => simp [on, got]
      | some bytes =>
        by_cases whole : bytes.length = 32
        · simp [on, got, whole, Subtype.ext_iff]
        · have other : bytes ≠ secret.val := by
            rintro rfl
            exact whole secret.property
          simp [on, got, whole, other]
    · simp [on, got]
  · simp [on]

end Keystore

/-! ## The record of the identity -/

/-- `public_key` is the field `public`. -/
structure OwnIdentity where
  public_key : String
  secret : String
  name : String
  device : String
  created_at : String
  deriving DecidableEq, Repr

namespace OwnIdentity

def decode_key (field text : String) : Except String (FixedBytes 32) :=
  match Base64.decodeCanonical text.toList with
  | none => .error ("internal bug: own_identity." ++ field ++ " base64")
  | some bytes =>
    if h : bytes.length = 32 then .ok ⟨bytes, h⟩
    else .error ("internal bug: own_identity." ++ field ++ " wrong length: " ++
      toString bytes.length)

/-- The secret of the file first; the keystore is asked where the file has none. -/
def to_keypair (id : OwnIdentity) (ks : Keystore) (grant : Grant) :
    Except String StaticKeypair := do
  let public_key ← decode_key "public" id.public_key
  if id.secret ≠ "" then
    let secret ← decode_key "secret" id.secret
    return ⟨public_key, secret⟩
  else
    match ks.load_secret grant with
    | .ok (some secret) => return ⟨public_key, secret⟩
    | _ => throw "internal bug: own_identity has no secret (file empty, keystore also empty)"

def from_keypair (kp : StaticKeypair) (name device now : String) (ks : Keystore) (grant : Grant) :
    OwnIdentity × Keystore :=
  let ks := if ks.is_available then (ks.store_secret grant kp.secret).1 else ks
  ({ public_key := base64 kp.public_key.val, secret := base64 kp.secret.val, name, device,
     created_at := now }, ks)

def with_unwrapped_secret (id : OwnIdentity) (ks : Keystore) (grant : Grant) :
    Except String OwnIdentity := do
  let kp ← id.to_keypair ks grant
  return { id with secret := base64 kp.secret.val }

/-- The record stays as it is; a copy of its secret goes to the keystore. -/
def migrate_to_keystore (id : OwnIdentity) (ks : Keystore) (grant : Grant) : Keystore :=
  if ks.is_available ∧ id.secret ≠ "" then
    match Base64.decodeCanonical id.secret.toList with
    | none => ks
    | some bytes => if h : bytes.length = 32 then (ks.store_secret grant ⟨bytes, h⟩).1 else ks
  else ks

/-- Whether the secret came back from the keystore, with the record. -/
def recover_secret_from_keystore (id : OwnIdentity) (ks : Keystore) (grant : Grant) :
    OwnIdentity × Bool :=
  if id.secret ≠ "" then (id, false)
  else if ks.is_available then
    match ks.load_secret grant with
    | .ok (some secret) => ({ id with secret := base64 secret.val }, true)
    | _ => (id, false)
  else (id, false)

/-! ## When there is a keypair -/

theorem base64_eq {text : String} {bytes : Bytes} :
    Base64.decodeCanonical text.toList = some bytes ↔ text = base64 bytes := by
  rw [Base64.decodeCanonical_eq_some, base64, ← String.toList_inj, String.toList_ofList]

theorem base64_ne_empty (key : FixedBytes 32) : base64 key.val ≠ "" := by
  intro h
  have long := Base64.length_le_encode key.val
  rw [base64, String.ofList_eq_empty_iff] at h
  rw [h, key.property] at long
  exact absurd long (by decide)

theorem decode_key_eq_ok {field text : String} {key : FixedBytes 32} :
    decode_key field text = .ok key ↔ text = base64 key.val := by
  rw [← base64_eq, decode_key]
  cases read : Base64.decodeCanonical text.toList with
  | none => simp
  | some bytes =>
    by_cases whole : bytes.length = 32
    · simp [whole, Subtype.ext_iff]
    · have other : bytes ≠ key.val := by
        rintro rfl
        exact whole key.property
      simp [whole, other]

/-- Where the secret of a keypair comes from: the file, or the keystore where
the file has none. -/
def Supplies (id : OwnIdentity) (ks : Keystore) (grant : Grant) (secret : FixedBytes 32) : Prop :=
  id.secret = base64 secret.val ∨
    id.secret = "" ∧ ks.is_available = true ∧ grant.get = true ∧ ks.item = some secret.val

theorem to_keypair_eq_ok {id : OwnIdentity} {ks : Keystore} {grant : Grant} {kp : StaticKeypair} :
    id.to_keypair ks grant = .ok kp ↔
      id.public_key = base64 kp.public_key.val ∧ id.Supplies ks grant kp.secret := by
  obtain ⟨public_key, secret⟩ := kp
  rw [to_keypair, bind_eq_ok]
  by_cases empty : id.secret = ""
  · simp only [decode_key_eq_ok, Supplies, empty, ne_eq, not_true_eq_false, if_false, true_and,
      (base64_ne_empty secret).symm, false_or]
    rw [← Keystore.load_secret_eq_ok]
    constructor
    · rintro ⟨key, here, rest⟩
      split at rest
      · rename_i stored loaded
        obtain ⟨rfl, rfl⟩ := StaticKeypair.mk.inj (Except.ok.inj rest)
        exact ⟨here, loaded⟩
      · cases rest
    · rintro ⟨here, loaded⟩
      exact ⟨public_key, here, by rw [loaded]; rfl⟩
  · simp only [decode_key_eq_ok, Supplies, empty, ne_eq, not_false_eq_true, if_true, false_and,
      or_false, bind_eq_ok]
    constructor
    · rintro ⟨key, here, stored, read, rest⟩
      obtain ⟨rfl, rfl⟩ := StaticKeypair.mk.inj (Except.ok.inj rest)
      exact ⟨here, read⟩
    · rintro ⟨here, read⟩
      exact ⟨public_key, here, secret, read, rfl⟩

@[simp] theorem migrate_available (id : OwnIdentity) (ks : Keystore) (grant : Grant) :
    (id.migrate_to_keystore ks grant).is_available = ks.is_available := by
  unfold migrate_to_keystore
  repeat' split
  all_goals simp

/-- Migration changes the keystore where the record has a secret. -/
theorem migrate_of_empty {id : OwnIdentity} (h : id.secret = "") (ks : Keystore) (grant : Grant) :
    id.migrate_to_keystore ks grant = ks := by
  simp [migrate_to_keystore, h]

theorem migrate_of_secret {id : OwnIdentity} {secret : FixedBytes 32}
    (h : id.secret = base64 secret.val) (ks : Keystore) (grant : Grant) :
    id.migrate_to_keystore ks grant =
      if ks.is_available then (ks.store_secret grant secret).1 else ks := by
  have read := base64_eq.mpr h
  have some_secret : id.secret ≠ "" := by
    rw [h]
    exact base64_ne_empty secret
  simp [migrate_to_keystore, some_secret, read, secret.property]

/-- Recovery fills in what the keystore supplies, and nothing else. -/
theorem recover_of_secret {id : OwnIdentity} (h : id.secret ≠ "") (ks : Keystore) (grant : Grant) :
    id.recover_secret_from_keystore ks grant = (id, false) := by
  simp [recover_secret_from_keystore, h]

theorem recover_eq {id : OwnIdentity} (h : id.secret = "") (ks : Keystore) (grant : Grant) :
    id.recover_secret_from_keystore ks grant = (id, false) ∨
      ∃ secret : FixedBytes 32, ks.load_secret grant = .ok (some secret) ∧
        id.recover_secret_from_keystore ks grant =
          ({ id with secret := base64 secret.val }, true) := by
  unfold recover_secret_from_keystore
  rw [if_neg (not_not.mpr h)]
  split_ifs
  · split
    · rename_i secret loaded
      exact .inr ⟨secret, loaded, rfl⟩
    · exact .inl rfl
  · exact .inl rfl

end OwnIdentity

/-! ## Halves that belong together

`pubkey` gives the public key of a secret on Curve25519. -/

section Keypair

variable (pubkey : FixedBytes 32 → FixedBytes 32)

def StaticKeypair.Valid (kp : StaticKeypair) : Prop := kp.public_key = pubkey kp.secret

/-- Whatever the keystore lets through, the halves of the keypair belong
together. -/
def OwnIdentity.Consistent (own : OwnIdentity) (ks : Keystore) : Prop :=
  ∀ grant kp, own.to_keypair ks grant = .ok kp → kp.Valid pubkey

/-- The two fields that a keypair is made of. -/
def OwnIdentity.keys (own : OwnIdentity) : String × String := (own.public_key, own.secret)

/-- The record has both halves of a keypair. -/
def OwnIdentity.Whole (own : OwnIdentity) : Prop :=
  ∃ secret : FixedBytes 32, own.public_key = base64 (pubkey secret).val ∧
    own.secret = base64 secret.val

/-- A secret in the keystore is that of the key. -/
def Keystore.Fits (ks : Keystore) (public_key : String) : Prop :=
  ∀ secret : FixedBytes 32, ks.item = some secret.val → public_key = base64 (pubkey secret).val

variable {pubkey} {own : OwnIdentity} {ks : Keystore}

theorem base64_injective {a b : Bytes} (same : base64 a = base64 b) : a = b := by
  have read := OwnIdentity.base64_eq.mpr same
  rw [OwnIdentity.base64_eq.mpr rfl] at read
  exact Option.some.inj read

theorem OwnIdentity.Whole.congr {own' : OwnIdentity} (whole : own.Whole pubkey)
    (same : own'.keys = own.keys) : own'.Whole pubkey := by
  obtain ⟨is_public, is_secret⟩ := Prod.mk.inj same
  obtain ⟨secret, here, holds⟩ := whole
  exact ⟨secret, is_public.trans here, is_secret.trans holds⟩

theorem OwnIdentity.Whole.consistent (whole : own.Whole pubkey) : own.Consistent pubkey ks := by
  intro grant kp made
  obtain ⟨secret, here, holds⟩ := whole
  obtain ⟨is_public, file | ⟨empty, -⟩⟩ := to_keypair_eq_ok.mp made
  · have one : secret = kp.secret := Subtype.ext (base64_injective (holds.symm.trans file))
    have key : kp.public_key = pubkey secret :=
      Subtype.ext (base64_injective (is_public.symm.trans here))
    rw [StaticKeypair.Valid, key, one]
  · rw [holds] at empty
    exact absurd empty (base64_ne_empty secret)

theorem OwnIdentity.consistent_of_fits (bare : own.secret = "")
    (fits : ks.Fits pubkey own.public_key) : own.Consistent pubkey ks := by
  intro grant kp made
  obtain ⟨is_public, file | ⟨-, -, -, held⟩⟩ := to_keypair_eq_ok.mp made
  · exact absurd (bare.symm.trans file).symm (base64_ne_empty kp.secret)
  · exact Subtype.ext (base64_injective (is_public.symm.trans (fits kp.secret held)))

/-- Writing a secret to the keystore keeps the fit, unless it is that of another
key and gets there. -/
theorem Keystore.Fits.store_secret {public_key : String} (fits : ks.Fits pubkey public_key)
    {grant : Grant} {secret : FixedBytes 32}
    (same : ks.is_available = true → grant.set = true → public_key = base64 (pubkey secret).val) :
    (ks.store_secret grant secret).1.Fits pubkey public_key := by
  intro held item
  rw [store_secret_item] at item
  by_cases on : ks.is_available = true
  · by_cases set : grant.set = true
    · simp only [on, set, if_true, Option.some.injEq] at item
      rw [← Subtype.ext item]
      exact same on set
    · by_cases deleted : grant.delete = true
      · simp [on, set, deleted] at item
      · simp only [on, set, deleted, if_true, if_false, Bool.false_eq_true] at item
        exact fits held item
  · simp only [on, if_false, Bool.false_eq_true] at item
    exact fits held item

/-- The record is whole, or the keystore fits its public key. -/
def OwnIdentity.Safe (pubkey : FixedBytes 32 → FixedBytes 32) (ks : Keystore) (own : OwnIdentity) :
    Prop :=
  own.Whole pubkey ∨ own.secret = "" ∧ (∃ key : FixedBytes 32, own.public_key = base64 key.val) ∧
    ks.Fits pubkey own.public_key

theorem OwnIdentity.Safe.consistent (safe : own.Safe pubkey ks) : own.Consistent pubkey ks := by
  rcases safe with whole | ⟨bare, -, fits⟩
  · exact whole.consistent
  · exact consistent_of_fits bare fits

theorem OwnIdentity.Safe.congr {own' : OwnIdentity} (safe : own.Safe pubkey ks)
    (same : own'.keys = own.keys) : own'.Safe pubkey ks := by
  obtain ⟨is_public, is_secret⟩ := Prod.mk.inj same
  rcases safe with whole | ⟨bare, ⟨key, here⟩, fits⟩
  · exact .inl (whole.congr same)
  · exact .inr ⟨is_secret.trans bare, ⟨key, is_public.trans here⟩, is_public ▸ fits⟩

/-- A record without a secret whose keystore has that of another key gives a
pair that does not belong together. -/
theorem OwnIdentity.not_consistent {key secret : FixedBytes 32} (bare : own.secret = "")
    (here : own.public_key = base64 key.val) (available : ks.is_available = true)
    (held : ks.item = some secret.val) (other : own.public_key ≠ base64 (pubkey secret).val) :
    ¬ own.Consistent pubkey ks := by
  intro consistent
  have made : own.to_keypair ks .all = .ok ⟨key, secret⟩ :=
    to_keypair_eq_ok.mpr ⟨here, .inr ⟨bare, available, rfl, held⟩⟩
  have same : key = pubkey secret := consistent .all _ made
  apply other
  rw [here, same]

/-- What is unwrapped for a backup is whole. -/
theorem OwnIdentity.whole_of_unwrapped (consistent : own.Consistent pubkey ks) {grant : Grant}
    {unwrapped : OwnIdentity} (h : own.with_unwrapped_secret ks grant = .ok unwrapped) :
    unwrapped.Whole pubkey := by
  obtain ⟨kp, made, rest⟩ := bind_eq_ok.mp h
  cases rest
  refine ⟨kp.secret, ?_, rfl⟩
  rw [(to_keypair_eq_ok.mp made).1]
  exact congrArg (fun key => base64 key.val) (consistent grant kp made)

end Keypair

end Qev.Pairing
