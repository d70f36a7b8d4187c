import Qev.Desktop.PairingCommands

/-! The name and the device of a peer in the store: an invite's have passed the
checks of `invite.rs`, an `Identity` message's have not. -/

namespace Qev.Desktop.Commands

open Pairing

/-- A pairing by its path, with all that the peer sends. -/
inductive Paired where
  | responder (own_public peer_pk : FixedBytes 32) (their_identity : QevMessage)
    (paired_at last_seen_at : String)
  | initiator (qr_text : String) (now : Nat) (their_identity : QevMessage)
    (paired_at last_seen_at : String)

section

variable {Addr : Type} (parsers : Parsers Addr) (blake2b : Bytes → Bytes)

def Paired.write : Paired → Option PeerWrite
  | responder own_public peer_pk their_identity paired_at last_seen_at =>
    responder_write blake2b own_public peer_pk their_identity paired_at last_seen_at
  | initiator qr_text now their_identity paired_at last_seen_at =>
    initiator_write parsers qr_text now their_identity paired_at last_seen_at

def pair (d : Device) (e : Paired) : Device :=
  match e.write parsers blake2b with
  | none => d
  | some w => (w.run d).1

end

/-- The labels of every peer pass the checks for invites. -/
def LabelsValid (d : Device) : Prop :=
  ∀ p ∈ d.store.peers, PairingInvite.ValidLabels p.name p.device

/-- At most thirty-two bytes, at least one, and no control character. -/
def CleanLabel (s : String) : Prop :=
  s ≠ "" ∧ (utf8 s).length ≤ 32 ∧ s.toList.all fun c => !is_control c

/-- An `Identity` message to a responder has clean labels. -/
def Paired.Clean : Paired → Prop
  | responder _ _ (.Identity name device) _ _ => CleanLabel name ∧ CleanLabel device
  | _ => True

variable {Addr : Type} {parsers : Parsers Addr} {blake2b : Bytes → Bytes} {d : Device} {e : Paired}

theorem labels_of_upsert {stored : StoredPeer} (valid : LabelsValid d)
    (labels : PairingInvite.ValidLabels stored.name stored.device) :
    LabelsValid ((PeerWrite.upsert stored).run d).1 := by
  intro p mem
  rcases Keyed.mem_upsert mem with old | rfl | ⟨c, -, -, rfl⟩
  · exact valid p old
  · exact labels
  · exact labels

/-- The record that a pairing wrote is in the store with the labels it wrote. -/
theorem labels_stored {stored : StoredPeer}
    (valid : LabelsValid ((PeerWrite.upsert stored).run d).1) :
    PairingInvite.ValidLabels stored.name stored.device := by
  have found := @PeerStore.find_upsert_peer d.store stored.id stored
  rw [if_pos rfl] at found
  have labels := valid _ (Keyed.mem_of_find found)
  cases old : d.store.find stored.id with
  | none =>
    rw [old] at labels
    exact labels
  | some p =>
    rw [old] at labels
    exact labels

theorem clean_iff_write : (e.Clean ↔ ∀ w, e.write parsers blake2b = some w →
    ∃ stored, w = .upsert stored ∧ PairingInvite.ValidLabels stored.name stored.device) := by
  cases e with
  | responder own_public peer_pk their_identity paired_at last_seen_at =>
    simp only [Paired.write, responder_write_eq]
    constructor
    · rintro clean w ⟨name, device, rfl, rfl⟩
      exact ⟨_, rfl, PairingInvite.validate_name_eq_ok.mpr clean.1,
        PairingInvite.validate_name_eq_ok.mpr clean.2⟩
    · intro all
      cases their_identity with
      | Identity name device =>
        obtain ⟨stored, same, labels⟩ := all _ ⟨name, device, rfl, rfl⟩
        cases same
        exact ⟨PairingInvite.validate_name_eq_ok.mp labels.1,
          PairingInvite.validate_name_eq_ok.mp labels.2⟩
      | VaultTransfer filename vault_bytes note timestamp => trivial
      | Ping => trivial
      | Pong => trivial
  | initiator qr_text now their_identity paired_at last_seen_at =>
    refine ⟨fun _ w written => ?_, fun _ => trivial⟩
    obtain ⟨invite, rfl, -, labels⟩ := initiator_write_eq written
    exact ⟨_, rfl, labels⟩

theorem labels_pair (valid : LabelsValid d) :
    LabelsValid (pair parsers blake2b d e) ↔ e.Clean := by
  rw [@clean_iff_write Addr parsers blake2b, pair]
  cases written : e.write parsers blake2b with
  | none => simp [valid]
  | some w =>
    have upsert : ∃ stored, w = .upsert stored := by
      cases e with
      | responder own_public peer_pk their_identity paired_at last_seen_at =>
        obtain ⟨stored, rfl, -⟩ := responder_record_keyed written
        exact ⟨stored, rfl⟩
      | initiator qr_text now their_identity paired_at last_seen_at =>
        obtain ⟨stored, rfl, -⟩ := initiator_record_keyed written
        exact ⟨stored, rfl⟩
    obtain ⟨stored, rfl⟩ := upsert
    constructor
    · rintro labels w same
      cases same
      exact ⟨stored, rfl, labels_stored labels⟩
    · intro all
      obtain ⟨stored', same, labels⟩ := all _ rfl
      cases same
      exact labels_of_upsert valid labels

/-- The labels are valid in every state of a run of pairings if and only if they
are at its start and no responder is sent others. -/
theorem peer_labels_valid_iff {Addr : Type} (parsers : Parsers Addr) (blake2b : Bytes → Bytes)
    (d : Device) (events : List Paired) :
    (∀ before, before <+: events → LabelsValid (run (pair parsers blake2b) d before)) ↔
      LabelsValid d ∧ ∀ e ∈ events, e.Clean := by
  constructor
  · intro always
    refine ⟨always [] (List.nil_prefix), ?_⟩
    intro e mem
    obtain ⟨before, after, rfl⟩ := List.append_of_mem mem
    have now := always before (List.prefix_append _ _)
    have next := always (before ++ [e]) ⟨after, by simp⟩
    rw [Run.snoc] at next
    exact (labels_pair now).mp next
  · rintro ⟨start, clean⟩ before early
    induction before using List.reverseRecOn with
    | nil => exact start
    | append_singleton before e ih =>
      rw [Run.snoc]
      apply (labels_pair (ih ((List.prefix_append _ _).trans early))).mpr
      exact clean e (early.subset (by simp))

def no_parsers : Parsers Unit := ⟨fun _ => none, fun _ => none, fun _ => none⟩

/-- A stranger completes the handshake and sends an empty name. -/
theorem empty_name_stored : ¬ LabelsValid
    (pair no_parsers (fun bytes => bytes) ⟨.empty, ⟨false, none⟩⟩
      (.responder (FixedBytes.fill 32 1) (FixedBytes.fill 32 2) (.Identity "" "laptop")
        "2026-04-15" "2026-04-15")) := by
  intro valid
  have clean := (labels_pair (fun _ mem => by cases mem)).mp valid
  exact clean.1.1 rfl

end Qev.Desktop.Commands
