import Qev.Relay.Client

/-! Delivery of one envelope, from the client helper to the recipient's queue. -/

namespace Qev.Relay

open Pairing (MAX_TRANSPORT_MSG)

/-- The largest envelope whose `Deliver` request fits in a transport message. -/
def MAX_DELIVERED : Nat := 65453

/-- A `Deliver` fits in one transport message exactly up to that size. -/
theorem Deliver_fits_iff (to_ : Pk) (envelope : Bytes) :
    (RelayMessage.Deliver to_.val envelope).into_writer.length ≤ MAX_TRANSPORT_MSG ↔
      envelope.length ≤ MAX_DELIVERED := by
  rw [Deliver_size, MAX_TRANSPORT_MSG, MAX_DELIVERED, Cbor.headSize]
  repeat' split
  all_goals omega

namespace RelayClient

/-- `deliver` succeeds and the recipient's queue holds the envelope under the
id it returns. -/
def Stores (client : RelayClient) (svc : RelayService) (to_ : Pk) (envelope : Bytes)
    (at_ : Moment) : Prop :=
  ∃ svc' id, client.deliver svc to_ envelope at_ = (svc', .ok id) ∧
    ⟨id, to_, client.own, envelope, at_.now_ms⟩ ∈ svc'.store.pending to_

variable {client : RelayClient} {svc : RelayService} {at_ : Moment}

theorem deliver_fits (admits : svc.deliver_limiter.Admits client.own at_.instant) (to_ : Pk)
    {envelope : Bytes} (small : envelope.length ≤ MAX_DELIVERED) :
    client.deliver svc to_ envelope at_ =
      ((svc.dispatch client.own (.Deliver to_.val envelope) at_).1, .ok at_.drawn) := by
  have legal : envelope.length ≤ MAX_ENVELOPE_BYTES := by
    have : MAX_DELIVERED ≤ MAX_ENVELOPE_BYTES := by decide
    omega
  have response := RelayService.respond_ok (RelayService.dispatch_deliver admits to_ legal)
  have encodes : (RelayMessage.Deliver to_.val envelope).encode =
      .ok (RelayMessage.Deliver to_.val envelope).into_writer := by
    simp [RelayMessage.encode, Nat.not_lt.mpr legal]
  have reply : (RelayMessage.DeliverResult at_.drawn.val).into_writer.length ≤
      MAX_TRANSPORT_MSG := by
    rw [DeliverResult_size]; decide
  have answered := client.one_shot_fits svc at_ (by simp) encodes
    ((Deliver_fits_iff to_ envelope).mpr small) (congrArg Prod.snd response) rfl reply
  simp only [deliver, Nat.not_lt.mpr legal, ↓reduceIte, answered, RelayService.respond_fst]
  exact congrArg (Prod.mk _) (check_id_bytes_id _ _)

theorem deliver_too_large (to_ : Pk) {envelope : Bytes} (large : MAX_DELIVERED < envelope.length)
    (legal : envelope.length ≤ MAX_ENVELOPE_BYTES) :
    client.deliver svc to_ envelope at_ = (svc, .error (.Pairing (.TransportTooLarge
      (RelayMessage.Deliver to_.val envelope).into_writer.length MAX_TRANSPORT_MSG))) := by
  have encodes : (RelayMessage.Deliver to_.val envelope).encode =
      .ok (RelayMessage.Deliver to_.val envelope).into_writer := by
    simp [RelayMessage.encode, Nat.not_lt.mpr legal]
  have exceeds : MAX_TRANSPORT_MSG <
      (RelayMessage.Deliver to_.val envelope).into_writer.length := by
    rw [← Nat.not_le, Deliver_fits_iff]; omega
  have lost := client.one_shot_too_large svc at_ encodes exceeds
  simp only [deliver, Nat.not_lt.mpr legal, ↓reduceIte, lost]
  rfl

theorem mem_popOver_append {max : Nat} (room : 0 < max) (q : List Envelope) (e : Envelope) :
    e ∈ InMemoryStore.popOver max (q ++ [e]) := by
  have keep : (q ++ [e]).length - max ≤ q.length := by simp; omega
  rw [InMemoryStore.popOver_eq, List.drop_append_of_le_length keep]
  simp

theorem pending_dispatch_deliver (admits : svc.deliver_limiter.Admits client.own at_.instant)
    (to_ : Pk) {envelope : Bytes} (legal : envelope.length ≤ MAX_ENVELOPE_BYTES) :
    (svc.dispatch client.own (.Deliver to_.val envelope) at_).1.store.pending to_ =
      InMemoryStore.popOver svc.store.max_per_recipient
        (svc.store.pending to_ ++ [⟨at_.drawn, to_, client.own, envelope, at_.now_ms⟩]) := by
  rw [RelayService.dispatch_deliver admits to_ legal, InMemoryStore.pending_put _ _ _ rfl]
  exact if_pos rfl

/-- A `Deliver` that the rate limiter refuses fails at the client. -/
theorem deliver_refused (refused : ¬ svc.deliver_limiter.Admits client.own at_.instant) (to_ : Pk)
    {envelope : Bytes} (small : envelope.length ≤ MAX_DELIVERED) :
    ∃ svc' e, client.deliver svc to_ envelope at_ = (svc', .error e) := by
  have legal : envelope.length ≤ MAX_ENVELOPE_BYTES := by
    have : MAX_DELIVERED ≤ MAX_ENVELOPE_BYTES := by decide
    omega
  have response := RelayService.respond_error (RelayService.dispatch_deliver_refused refused
    to_.val envelope)
  have encodes : (RelayMessage.Deliver to_.val envelope).encode =
      .ok (RelayMessage.Deliver to_.val envelope).into_writer := by
    simp [RelayMessage.encode, Nat.not_lt.mpr legal]
  have fits := (Deliver_fits_iff to_ envelope).mpr small
  rw [deliver, if_neg (Nat.not_lt.mpr legal)]
  rcases Nat.lt_or_ge MAX_TRANSPORT_MSG
    (svc.respond client.own (.Deliver to_.val envelope) at_).2.into_writer.length with large | short
  · rw [client.one_shot_lost svc at_ (by simp) encodes fits rfl (by rw [response]; rfl) large]
    exact ⟨_, _, rfl⟩
  · rw [client.one_shot_fits svc at_ (by simp) encodes fits rfl (by rw [response]; rfl) short,
      response]
    exact ⟨_, _, rfl⟩

/-- What a delivery that succeeds leaves in the recipient's queue. -/
theorem deliver_eq_ok {svc' : RelayService} {to_ : Pk} {envelope : Bytes} {id : EnvelopeId}
    (delivered : client.deliver svc to_ envelope at_ = (svc', .ok id)) :
    id = at_.drawn ∧ svc'.store.pending to_ =
      InMemoryStore.popOver svc.store.max_per_recipient
        (svc.store.pending to_ ++ [⟨at_.drawn, to_, client.own, envelope, at_.now_ms⟩]) := by
  have legal : envelope.length ≤ MAX_ENVELOPE_BYTES := by
    by_contra large
    rw [deliver, if_pos (by omega)] at delivered
    cases delivered
  have small : envelope.length ≤ MAX_DELIVERED := by
    by_contra large
    rw [deliver_too_large to_ (by omega) legal] at delivered
    cases delivered
  have admits : svc.deliver_limiter.Admits client.own at_.instant := by
    by_contra refused
    obtain ⟨svc'', e, failed⟩ := deliver_refused refused to_ small
    rw [failed] at delivered
    cases delivered
  rw [deliver_fits admits to_ small] at delivered
  cases delivered
  exact ⟨rfl, pending_dispatch_deliver admits to_ legal⟩

/-- Within the declared maximum, delivery works exactly where the request fits
in one transport message and the store keeps at least one envelope. -/
theorem stores_iff {to_ : Pk} {envelope : Bytes} (legal : envelope.length ≤ MAX_ENVELOPE_BYTES)
    (admits : svc.deliver_limiter.Admits client.own at_.instant) :
    client.Stores svc to_ envelope at_ ↔
      envelope.length ≤ MAX_DELIVERED ∧ 0 < svc.store.max_per_recipient := by
  constructor
  · rintro ⟨svc', id, delivered, stored⟩
    have small : envelope.length ≤ MAX_DELIVERED := by
      by_contra large
      rw [deliver_too_large to_ (by omega) legal] at delivered
      cases delivered
    refine ⟨small, ?_⟩
    rw [deliver_fits admits to_ small] at delivered
    cases delivered
    rw [pending_dispatch_deliver admits to_ legal, InMemoryStore.popOver_eq] at stored
    by_contra none
    rw [show svc.store.max_per_recipient = 0 by omega, Nat.sub_zero, List.drop_length] at stored
    cases stored
  · rintro ⟨small, room⟩
    refine ⟨_, _, deliver_fits admits to_ small, ?_⟩
    rw [pending_dispatch_deliver admits to_ legal]
    exact mem_popOver_append room _ _

/-- A fresh relay with the default cap, and a client of it. -/
def sample : RelayClient := ⟨.definite, ⟨.counting, .counting⟩, FixedBytes.fill _ 1⟩

def sampleService : RelayService := .new (.new 100)

def sampleMoment : Moment := ⟨0, 0, FixedBytes.fill _ 7⟩

theorem stores_iff_sample : sample.Stores sampleService (FixedBytes.fill _ 2)
    [1, 2, 3] sampleMoment ↔
    [1, 2, 3].length ≤ MAX_DELIVERED ∧ 0 < sampleService.store.max_per_recipient :=
  stores_iff (by decide) (RateLimiter.admits_new 30 (by decide) _ _)

/-- An envelope of 65,454 bytes, far below the declared maximum, is not delivered. -/
theorem legal_envelope_not_stored : ¬ ∀ (client : RelayClient) (svc : RelayService) (to_ : Pk)
    (envelope : Bytes) (at_ : Moment), envelope.length ≤ MAX_ENVELOPE_BYTES →
    svc.deliver_limiter.Admits client.own at_.instant → 0 < svc.store.max_per_recipient →
    client.Stores svc to_ envelope at_ := by
  intro all
  obtain ⟨envelope, length⟩ : ∃ b : Bytes, b.length = 65454 :=
    ⟨List.replicate 65454 0, List.length_replicate⟩
  have legal : envelope.length ≤ MAX_ENVELOPE_BYTES := by rw [length]; decide
  obtain ⟨svc', id, delivered, -⟩ := all sample sampleService (FixedBytes.fill _ 2) envelope
    sampleMoment legal (RateLimiter.admits_new 30 (by decide) _ _) (by decide)
  rw [deliver_too_large _ (by rw [length]; decide) legal] at delivered
  cases delivered

end RelayClient

end Qev.Relay
