import Qev.Bry.Packet

/-! What comes out of a packet: for the sender's own configuration, and for any
other that a receiver may have. -/

namespace Qev.Bry

open Py (CodePoint Str py)

variable {aead : Aead} {plaintext master_key packet_nonce context : Str} {config : NFETConfig}
  {built : PacketBuildResult}

/-! ## The sender's configuration -/

/-- A packet opens to the plaintext in canonical form exactly where no token of
it, in front of the next, starts a longer token. -/
theorem packet_round_trip_iff {normalized : Str}
    (made : build_packet_from_plaintext aead plaintext master_key packet_nonce context config =
      .ok built)
    (canonical : normalize_plaintext plaintext = .ok normalized) :
    (∃ opened, open_packet_to_plaintext aead built.packet master_key config = .ok opened ∧
      opened.recovered_plaintext = normalized) ↔ normalized.IsChain fun a b => ¬ Merges a b := by
  obtain ⟨trace, traced, opens⟩ := open_built_iff made
  obtain ⟨entries, all, canonical', flat, -, spelled_, scheduled⟩ := trace_spelled traced
  cases canonical.symm.trans canonical'
  rw [opens, ← decode_encoded_iff all]
  have undone := drifted_self spelled_ (length_trace traced)
  constructor
  · rintro ⟨schedule, there, decoded⟩
    cases scheduled.symm.trans there
    rw [undone, flat] at decoded
    exact decoded
  · intro decoded
    refine ⟨_, scheduled, ?_⟩
    rw [undone, flat]
    exact decoded

/-- A packet of `text` under the default configuration. -/
def packetOf (text : String) : Except Exc PacketBuildResult :=
  build_packet_from_plaintext .plain (py text) (py "key") (py "nonce") (py "context") {}

/-- What it opens to. -/
def opens (text : String) (receiver : NFETConfig) : Except Exc Str := do
  let built ← packetOf text
  let opened ← open_packet_to_plaintext .plain built.packet (py "key") receiver
  return opened.recovered_plaintext

theorem exists_opened {text : String} {receiver : NFETConfig} {recovered : Str}
    (h : opens text receiver = .ok recovered) : ∃ built opened, packetOf text = .ok built ∧
      open_packet_to_plaintext .plain built.packet (py "key") receiver = .ok opened ∧
      opened.recovered_plaintext = recovered := by
  obtain ⟨built, made, h⟩ := bind_eq_ok.mp h
  obtain ⟨opened, done, h⟩ := bind_eq_ok.mp h
  exact ⟨built, opened, made, done, Except.ok.inj h⟩

theorem opens_greeting : opens "HI U" {} = .ok (py "HI U") := by decide +kernel

theorem opens_greeting_otherwise : opens "HI U" { state_bytes := 16 } = .ok (py "XX S") := by
  decide +kernel

theorem packet_round_trip_four_tokens : ∃ built opened, packetOf "HI U" = .ok built ∧
    open_packet_to_plaintext .plain built.packet (py "key") {} = .ok opened ∧
    opened.recovered_plaintext = py "HI U" := by
  obtain ⟨built, -, made, -⟩ := exists_opened opens_greeting
  obtain ⟨opened, done, same⟩ := (packet_round_trip_iff made (by decide)).mpr
    (show (py "HI U").IsChain fun a b => ¬ Merges a b by decide)
  exact ⟨built, opened, made, done, same⟩

/-- The token of J before that of A is the token of K. -/
theorem ja_opens_as_k : ¬ ∀ (aead : Aead)
    (plaintext master_key packet_nonce context normalized : Str)
    (config : NFETConfig) (built : PacketBuildResult),
    build_packet_from_plaintext aead plaintext master_key packet_nonce context config = .ok built →
    normalize_plaintext plaintext = .ok normalized →
    ∃ opened, open_packet_to_plaintext aead built.packet master_key config = .ok opened ∧
      opened.recovered_plaintext = normalized := by
  intro all
  have wrong : opens "JA" {} = .ok (py "K") := by decide +kernel
  obtain ⟨built, opened, made, done, recovered⟩ := exists_opened wrong
  obtain ⟨opened', done', same⟩ := all _ _ _ _ _ (py "JA") _ built made (by decide +kernel)
  cases done.symm.trans done'
  exact absurd (recovered.symm.trans same) (by decide)

/-! ## Token for token -/

theorem reversed_tokens {trace : NFETTraceResult}
    (traced : build_trace plaintext master_key packet_nonce context config = .ok trace) :
    ∃ back, reverse_transform_from_bry
        (Py.join HUMAN_SEPARATOR (turned trace.tokens trace.rows)) master_key packet_nonce context
        config = .ok back ∧
      render_human_bry trace.tokens = .ok back.original_human := by
  obtain ⟨-, -, -, -, -, spelled_, scheduled⟩ := trace_spelled traced
  have known := spelled_turned spelled_ trace.rows
  have length : (turned trace.tokens trace.rows).length = trace.tokens.length := by
    rw [turned, List.length_map, List.length_zip, length_trace traced, Nat.min_self]
  rw [← length] at scheduled
  obtain ⟨back, reversed, human, -⟩ := reverse_transform_rendered known scheduled
  rw [turnedBack_turned spelled_, drifted_self spelled_ (length_trace traced)] at human
  exact ⟨back, reversed, human ▸ render_spelled spelled_⟩

/-- One row turns a token and turns it back, within its ring, and moves all but the
space; and whatever a plaintext was turned into, reversed as it is or through a
packet, becomes the tokens that were turned. -/
theorem transform_undone :
    (∀ t ∈ TOKEN_ORDER, ∀ sched : NFETScheduleRow,
      (∃ u, transform_token t sched = .ok u ∧ inverse_transform_token u sched = .ok t ∧
        token_ring u = token_ring t ∧ (t ≠ SPACE_TOKEN → u ≠ t)) ∧
      ∃ u, inverse_transform_token t sched = .ok u ∧ transform_token u sched = .ok t ∧
        token_ring u = token_ring t ∧ (t ≠ SPACE_TOKEN → u ≠ t)) ∧
    (∀ (plaintext master_key nonce context : Str) (config : NFETConfig) (result : TransformResult),
      apply_transform_from_plaintext plaintext master_key nonce context config = .ok result →
      ∃ trace back, build_trace plaintext master_key nonce context config = .ok trace ∧
        reverse_transform_from_bry result.transformed_human master_key nonce context config =
          .ok back ∧
        render_human_bry trace.tokens = .ok back.original_human ∧
        parse_bry_input back.original_human = .ok trace.tokens) ∧
    ∀ (aead : Aead) (plaintext master_key packet_nonce context : Str) (config : NFETConfig)
      (built : PacketBuildResult),
      build_packet_from_plaintext aead plaintext master_key packet_nonce context config =
        .ok built →
      ∃ trace opened, build_trace plaintext master_key packet_nonce context config = .ok trace ∧
        open_packet_to_plaintext aead built.packet master_key config = .ok opened ∧
        render_human_bry trace.tokens = .ok opened.recovered_human ∧
        parse_bry_input opened.recovered_human = .ok trace.tokens := by
  have parsed {trace : NFETTraceResult} {plaintext master_key nonce context human : Str}
      {config : NFETConfig}
      (traced : build_trace plaintext master_key nonce context config = .ok trace)
      (rendered : render_human_bry trace.tokens = .ok human) :
      parse_bry_input human = .ok trace.tokens := by
    obtain ⟨-, -, -, -, -, spelled_, -⟩ := trace_spelled traced
    rw [render_spelled spelled_] at rendered
    cases rendered
    exact parse_rendered spelled_
  refine ⟨fun t mem sched => ⟨turned_token mem sched, turnedBack_token mem sched⟩, ?_, ?_⟩
  · intro plaintext master_key nonce context config result applied
    obtain ⟨trace, traced, human⟩ := apply_transform_eq_ok applied
    obtain ⟨back, reversed, rendered⟩ := reversed_tokens traced
    rw [human]
    exact ⟨trace, back, traced, reversed, rendered, parsed traced rendered⟩
  · intro aead plaintext master_key packet_nonce context config built made
    obtain ⟨trace, traced, -, human, opens⟩ := open_built made
    obtain ⟨back, reversed, rendered⟩ := reversed_tokens traced
    rw [← human] at reversed
    have opened := opens config
    rw [reversed, ok_bind] at opened
    exact ⟨trace, _, traced, opened, rendered, parsed traced rendered⟩

theorem transform_undone_four_tokens : ∃ built trace opened, packetOf "HI U" = .ok built ∧
    build_trace (py "HI U") (py "key") (py "nonce") (py "context") {} = .ok trace ∧
    open_packet_to_plaintext .plain built.packet (py "key") {} = .ok opened ∧
    parse_bry_input opened.recovered_human = .ok trace.tokens := by
  obtain ⟨built, -, made, -⟩ := exists_opened opens_greeting
  obtain ⟨trace, opened, traced, done, -, parsed⟩ := transform_undone.2.2 _ _ _ _ _ _ _ made
  exact ⟨built, trace, opened, made, traced, done, parsed⟩

/-! ## Another configuration -/

/-- Two configurations spell a message alike: its tokens, moved by the differences
of the turns of the two schedules, make the same Bry text. -/
def SpellAlike (plaintext master_key nonce context : Str) (config other : NFETConfig) : Prop :=
  ∃ trace schedule, build_trace plaintext master_key nonce context config = .ok trace ∧
    build_schedule trace.tokens.length master_key nonce context other = .ok schedule ∧
    (drifted trace.tokens trace.rows schedule.rows).flatten = trace.tokens.flatten

/-- A receiver's configuration opens a packet to what the sender's own does, or
not at all, exactly where it is not valid or spells the message alike. -/
theorem receiver_agrees_iff
    (made : build_packet_from_plaintext aead plaintext master_key packet_nonce context config =
      .ok built) (receiver : NFETConfig) :
    (∀ opened, open_packet_to_plaintext aead built.packet master_key receiver = .ok opened →
      ∃ own, open_packet_to_plaintext aead built.packet master_key config = .ok own ∧
        opened.recovered_plaintext = own.recovered_plaintext) ↔
    ¬ receiver.Valid ∨ SpellAlike plaintext master_key packet_nonce context config receiver := by
  obtain ⟨trace, traced, opens⟩ := open_built_iff made
  obtain ⟨-, -, -, -, -, spelled_, scheduled⟩ := trace_spelled traced
  have undone := drifted_self spelled_ (length_trace traced)
  constructor
  · intro agrees
    by_cases valid : receiver.Valid
    · apply Or.inr
      obtain ⟨schedule, there⟩ := schedule_of_valid scheduled valid
      have known := spelled_drifted spelled_ trace.rows schedule.rows
      obtain ⟨read, -, -, -, decoded⟩ := exists_read known
      obtain ⟨opened, done, recovered⟩ := (opens receiver _).mpr ⟨schedule, there, decoded⟩
      obtain ⟨own, done', same⟩ := agrees opened done
      obtain ⟨schedule', there', decoded'⟩ := (opens config _).mp ⟨own, done', rfl⟩
      cases scheduled.symm.trans there'
      rw [undone, ← same, recovered] at decoded'
      exact ⟨trace, schedule, traced, there,
        (decode_eq_iff known spelled_).mp (decoded.trans decoded'.symm)⟩
    · exact .inl valid
  · rintro (invalid | ⟨trace', schedule, traced', there, alike⟩) opened done
    · obtain ⟨schedule, there, -⟩ := (opens receiver _).mp ⟨opened, done, rfl⟩
      obtain ⟨⟨⟩, valid, -⟩ := bind_eq_ok.mp there
      exact absurd (validate_eq_ok.mp valid) invalid
    · cases traced.symm.trans traced'
      obtain ⟨schedule', there', decoded⟩ := (opens receiver _).mp ⟨opened, done, rfl⟩
      cases there.symm.trans there'
      rw [alike] at decoded
      rw [← undone] at decoded
      obtain ⟨own, done', same⟩ := (opens config _).mpr ⟨_, scheduled, decoded⟩
      exact ⟨own, done', same.symm⟩

/-- A scheduler state half as long turns the tokens otherwise. -/
theorem receiver_agrees_four_tokens :
    ¬ SpellAlike (py "HI U") (py "key") (py "nonce") (py "context") {} { state_bytes := 16 } := by
  intro alike
  obtain ⟨built, own, made, done, recovered⟩ := exists_opened opens_greeting
  obtain ⟨built', opened, made', done', recovered'⟩ := exists_opened opens_greeting_otherwise
  cases made.symm.trans made'
  obtain ⟨own', done'', same⟩ := (receiver_agrees_iff made _).mpr (.inr alike) opened done'
  cases done.symm.trans done''
  rw [recovered, recovered'] at same
  exact absurd same (by decide)

/-- It opens the packet to another text, without an error. -/
theorem greeting_opens_otherwise : ¬ ∀ (aead : Aead)
    (plaintext master_key packet_nonce context : Str)
    (config receiver : NFETConfig) (built : PacketBuildResult),
    build_packet_from_plaintext aead plaintext master_key packet_nonce context config = .ok built →
    ∀ opened, open_packet_to_plaintext aead built.packet master_key receiver = .ok opened →
    ∃ own, open_packet_to_plaintext aead built.packet master_key config = .ok own ∧
      opened.recovered_plaintext = own.recovered_plaintext := by
  intro all
  obtain ⟨built, own, made, done, recovered⟩ := exists_opened opens_greeting
  obtain ⟨built', opened, made', done', recovered'⟩ := exists_opened opens_greeting_otherwise
  cases made.symm.trans made'
  obtain ⟨own', done'', same⟩ := all _ _ _ _ _ _ _ built made opened done'
  cases done.symm.trans done''
  rw [recovered, recovered'] at same
  exact absurd same (by decide)

end Qev.Bry
