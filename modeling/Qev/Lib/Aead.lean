import Qev.Lib.Bytes

/-! Authenticated encryption with associated data, with a tag of sixteen bytes
after as many bytes as the plaintext has. -/

namespace Qev

/-- Encryption is a function, and what decrypts is what was encrypted under the
same key, nonce and associated data. -/
structure Aead where
  encrypt : (key nonce aad plaintext : Bytes) → Bytes
  decrypt : (key nonce aad ciphertext : Bytes) → Option Bytes
  encrypt_length : ∀ k n a p, (encrypt k n a p).length = p.length + 16
  decrypt_eq_some : ∀ k n a c p, decrypt k n a c = some p ↔ c = encrypt k n a p

namespace Aead

theorem opens_sealed (aead : Aead) (k n a p : Bytes) :
    aead.decrypt k n a (aead.encrypt k n a p) = some p :=
  (aead.decrypt_eq_some k n a _ p).mpr rfl

/-- One key, one nonce and one associated data open the ciphertext. -/
def Commits (aead : Aead) (c : Bytes) : Prop :=
  ∀ k n a p k' n' a' p', aead.decrypt k n a c = some p → aead.decrypt k' n' a' c = some p' →
    k = k' ∧ n = n' ∧ a = a'

/-- Instances to run the models with: the tag stands in front of the plaintext. -/
def ofTag (tag : (key nonce aad : Bytes) → FixedBytes 16) : Aead where
  encrypt k n a p := (tag k n a).val ++ p
  decrypt k n a c := if (tag k n a).val <+: c then some (c.drop 16) else none
  encrypt_length k n a p := by
    rw [List.length_append, (tag k n a).property, Nat.add_comm]
  decrypt_eq_some k n a c p := by
    have length := (tag k n a).property
    constructor
    · intro h
      split at h
      · rename_i tagged
        obtain ⟨rest, rfl⟩ := tagged
        rw [List.drop_left' length] at h
        cases h
        rfl
      · cases h
    · rintro rfl
      simp [List.drop_left' length]

def plain : Aead := ofTag fun _ _ _ => FixedBytes.fill _ 0

theorem tag_of_decrypt {tag : (key nonce aad : Bytes) → FixedBytes 16} {k n a k' n' a' p p' : Bytes}
    (h : (ofTag tag).decrypt k' n' a' ((ofTag tag).encrypt k n a p) = some p') :
    tag k' n' a' = tag k n a := by
  have same : (tag k n a).val ++ p = (tag k' n' a').val ++ p' :=
    ((ofTag tag).decrypt_eq_some k' n' a' _ p').mp h
  have length : (tag k n a).val.length = (tag k' n' a').val.length := by
    rw [(tag k n a).property, (tag k' n' a').property]
  exact Subtype.ext (List.append_inj_left same length).symm

/-- One tag for one key, nonce and associated data, another for all others. -/
def marking (k n a : Bytes) : Aead :=
  ofTag fun k' n' a' => FixedBytes.fill _ (if k' = k ∧ n' = n ∧ a' = a then 1 else 0)

theorem marking_commits (k n a p : Bytes) :
    (marking k n a).Commits ((marking k n a).encrypt k n a p) := by
  have only (k' n' a' p' : Bytes)
      (h : (marking k n a).decrypt k' n' a' ((marking k n a).encrypt k n a p) = some p') :
      k' = k ∧ n' = n ∧ a' = a := by
    have tags := tag_of_decrypt h
    by_contra other
    rw [if_neg other, if_pos ⟨rfl, rfl, rfl⟩] at tags
    exact absurd tags (by decide)
  intro k₁ n₁ a₁ p₁ k₂ n₂ a₂ p₂ h₁ h₂
  obtain ⟨rfl, rfl, rfl⟩ := only k₁ n₁ a₁ p₁ h₁
  obtain ⟨hk, hn, ha⟩ := only k₂ n₂ a₂ p₂ h₂
  exact ⟨hk.symm, hn.symm, ha.symm⟩

/-- The tag stands at the end, and what stands in front of it is of one plaintext
for one key, nonce and associated data. -/
def TagLast (aead : Aead) : Prop :=
  ∀ k n a p p', p.length = p'.length →
    (aead.encrypt k n a p).take p.length = (aead.encrypt k n a p').take p.length → p = p'

/-- A ciphertext of which only the tag was changed opens no more. -/
theorem TagLast.decrypt_changed {aead : Aead} (last : aead.TagLast) {k n a p c : Bytes}
    (length : c.length = p.length + 16)
    (body : c.take p.length = (aead.encrypt k n a p).take p.length)
    (changed : c ≠ aead.encrypt k n a p) : aead.decrypt k n a c = none := by
  rw [Option.eq_none_iff_forall_ne_some]
  intro p' opened
  obtain rfl := (aead.decrypt_eq_some k n a c p').mp opened
  have lengths := aead.encrypt_length k n a p'
  have same : p.length = p'.length := by omega
  exact changed (congrArg (aead.encrypt k n a) (last k n a p p' same body.symm).symm)

/-- An instance with one tag behind every plaintext. -/
def tagBehind (tag : FixedBytes 16) : Aead where
  encrypt _ _ _ p := p ++ tag.val
  decrypt _ _ _ c := if tag.val <:+ c then some (c.take (c.length - 16)) else none
  encrypt_length k n a p := by rw [List.length_append, tag.property]
  decrypt_eq_some k n a c p := by
    constructor
    · intro h
      split at h
      · rename_i tagged
        obtain ⟨front, rfl⟩ := tagged
        rw [List.length_append, tag.property, Nat.add_sub_cancel, List.take_left] at h
        cases h
        rfl
      · cases h
    · rintro rfl
      rw [if_pos (List.suffix_append _ _), List.length_append, tag.property, Nat.add_sub_cancel,
        List.take_left]

theorem tagBehind_tagLast (tag : FixedBytes 16) : (tagBehind tag).TagLast := by
  intro k n a p p' length same
  have front : ((tagBehind tag).encrypt k n a p).take p.length = p := List.take_left
  have front' : ((tagBehind tag).encrypt k n a p').take p.length = p' := by
    rw [length]
    exact List.take_left
  rw [← front, same, front']

end Aead

/-! ## An ideal scheme

It opens what has been sealed, and nothing else. -/

structure Sealed where
  key : Bytes
  nonce : Bytes
  aad : Bytes
  plaintext : Bytes
  deriving DecidableEq, Repr

structure IdealAead where
  encrypt : (key nonce aad plaintext : Bytes) → Bytes
  encrypt_injective : ∀ k n a p p', encrypt k n a p = encrypt k n a p' → p = p'

namespace IdealAead

def ciphertext (aead : IdealAead) (e : Sealed) : Bytes :=
  aead.encrypt e.key e.nonce e.aad e.plaintext

/-- `log` is all that has been sealed. -/
def decrypt (aead : IdealAead) (log : List Sealed) (k n a c : Bytes) : Option Bytes :=
  (log.find? fun e => e.key = k ∧ e.nonce = n ∧ e.aad = a ∧ aead.ciphertext e = c).map
    Sealed.plaintext

theorem decrypt_eq_some {aead : IdealAead} {log : List Sealed} {k n a c p : Bytes} :
    aead.decrypt log k n a c = some p ↔ ⟨k, n, a, p⟩ ∈ log ∧ c = aead.encrypt k n a p := by
  rw [decrypt, Option.map_eq_some_iff]
  constructor
  · rintro ⟨e, found, rfl⟩
    have matched := List.find?_some found
    rw [decide_eq_true_eq] at matched
    obtain ⟨rfl, rfl, rfl, rfl⟩ := matched
    exact ⟨List.mem_of_find?_eq_some found, rfl⟩
  · rintro ⟨mem, rfl⟩
    have exists_one : (log.find? fun e => e.key = k ∧ e.nonce = n ∧ e.aad = a ∧
        aead.ciphertext e = aead.encrypt k n a p).isSome := by
      rw [List.find?_isSome]
      exact ⟨_, mem, decide_eq_true ⟨rfl, rfl, rfl, rfl⟩⟩
    obtain ⟨e, found⟩ := Option.isSome_iff_exists.mp exists_one
    have matched := List.find?_some found
    rw [decide_eq_true_eq] at matched
    obtain ⟨rfl, rfl, rfl, same⟩ := matched
    exact ⟨e, found, aead.encrypt_injective _ _ _ _ _ same⟩

/-- A ciphertext has been made under one key, one nonce and one associated data. -/
def Exact (aead : IdealAead) (log : List Sealed) : Prop :=
  ∀ e ∈ log, ∀ e' ∈ log, aead.ciphertext e = aead.ciphertext e' →
    e.key = e'.key ∧ e.nonce = e'.nonce ∧ e.aad = e'.aad

/-- The plaintext itself, in a model where only what was sealed opens. -/
def clear : IdealAead where
  encrypt _ _ _ p := p
  encrypt_injective _ _ _ _ _ h := h

end IdealAead

/-- What a scheme encrypts, where only what has been sealed is opened. -/
def Aead.ideal (aead : Aead) : IdealAead where
  encrypt := aead.encrypt
  encrypt_injective k n a p p' same := by
    have opened := aead.opens_sealed k n a p
    rw [same, aead.opens_sealed] at opened
    exact (Option.some.inj opened).symm

end Qev
