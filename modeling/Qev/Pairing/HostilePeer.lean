import Qev.Pairing.Reassembly

/-! What `recv_msg` makes of the frames of any peer. A fragment without a payload
is accepted, and the counter of the fragments is a `u32` that wraps. -/

namespace Qev.Pairing

variable {ciborium : QevMessage.Ciborium} {frags payloads : List Bytes} {total_len : Nat}

/-! ## Fragments that are accepted -/

theorem carries_mod (few : frags.length ≤ 2 ^ 32) :
    Carries (· % 2 ^ 32) total_len payloads frags ↔ Carries id total_len payloads frags := by
  by_cases lengths : payloads.length = frags.length
  · have same : (payloads.mapIdx fun i payload =>
        (.ok (total_len, i % 2 ^ 32, payload) : Except String (Nat × Nat × Bytes))) =
          payloads.mapIdx fun i payload => .ok (total_len, id i, payload) := by
      apply List.ext_getElem
      · simp
      · intro i here _
        rw [List.length_mapIdx] at here
        simp only [List.getElem_mapIdx, id_eq]
        rw [Nat.mod_eq_of_lt (by omega)]
    rw [Carries, Carries, same]
  · exact ⟨fun h => absurd h.length lengths, fun h => absurd h.length lengths⟩

theorem Carries.take {number : Nat → Nat} {more : List Bytes}
    (h : Carries number total_len payloads (frags ++ more)) :
    Carries number total_len (payloads.take frags.length) frags := by
  induction more using List.reverseRecOn generalizing payloads with
  | nil =>
    rw [List.append_nil] at h
    rwa [← h.length, List.take_length]
  | append_singleton more frag ih =>
    rw [← List.append_assoc] at h
    obtain ⟨init, last, rfl, earlier, -⟩ := carries_snoc.mp h
    have fits : frags.length ≤ init.length := by
      rw [earlier.length, List.length_append]
      omega
    rw [List.take_append_of_le_length fits]
    exact ih earlier

theorem parse_fragment_payload {frag payload : Bytes} {seq : Nat}
    (short : frag.length ≤ MAX_TRANSPORT_MSG)
    (parsed : parse_fragment frag = .ok (total_len, seq, payload)) :
    payload.length ≤ FRAG_PAYLOAD_MAX := by
  unfold parse_fragment at parsed
  split at parsed
  · cases parsed
  · cases parsed
    rw [List.length_drop, FRAG_PAYLOAD_MAX]
    omega

namespace Receiving

/-- A message is returned with the fragment that completes it. -/
theorem returns_ok {msg : QevMessage} : first.Returns ciborium frags (.ok msg) ↔
    frags ≠ [] ∧ ∃ total_len payloads, total_len ≤ MAX_MESSAGE_BYTES ∧
      Carries (· % 2 ^ 32) total_len payloads frags ∧
      (frags.length = 1 ∨ payloads.dropLast.flatten.length < total_len) ∧
      payloads.flatten.length = total_len ∧
      QevMessage.decode ciborium payloads.flatten = .ok msg := by
  rw [returns_iff]
  constructor
  · rintro ⟨result, running⟩
    cases at_ : run step first frags with
    | first =>
      rw [at_] at result
      cases result
    | failed e =>
      rw [at_] at result
      cases result
    | loop total_len next_seq buf =>
      obtain ⟨some_frag, small, -, payloads, carries, rfl, needed⟩ :=
        after_eq_loop.mp ⟨at_, running⟩
      rw [at_, returned] at result
      split_ifs at result with less differs
      · cases result
      · exact ⟨some_frag, total_len, payloads, small, carries, needed, not_not.mp differs,
          Option.some.inj result⟩
  · rintro ⟨some_frag, total_len, payloads, small, carries, needed, whole, decoded⟩
    have entered : _ ∧ Running ciborium frags :=
      after_eq_loop.mpr ⟨some_frag, small, rfl, payloads, carries, rfl, needed⟩
    obtain ⟨at_, running⟩ := entered
    refine ⟨?_, running⟩
    change (after frags).returned ciborium = _
    rw [at_, returned, if_neg (by omega), if_neg (by omega), decoded]

/-- The buffer holds less than a whole message and one more fragment. -/
theorem buf_bound (short : ∀ frag ∈ frags, frag.length ≤ MAX_TRANSPORT_MSG) {next_seq : Nat}
    {buf : Bytes} (at_ : after frags = loop total_len next_seq buf) :
    buf.length ≤ total_len + FRAG_PAYLOAD_MAX := by
  induction frags using List.reverseRecOn generalizing next_seq buf with
  | nil => cases at_
  | append_singleton frags frag ih =>
    have here := short frag (by simp)
    rw [after_snoc] at at_
    cases before : after frags with
    | first =>
      rw [before] at at_
      obtain ⟨-, -, parsed⟩ := step_first_eq_loop.mp at_
      have payload := parse_fragment_payload here parsed
      omega
    | failed e =>
      rw [before] at at_
      cases at_
    | loop total next held =>
      rw [before] at at_
      by_cases less : held.length < total
      · obtain ⟨rfl, -, payload, parsed, rfl⟩ := (step_loop_eq_loop less).mp at_
        have bound := parse_fragment_payload here parsed
        rw [List.length_append]
        omega
      · rw [step, if_neg less] at at_
        cases at_
        exact ih (fun frag mem => short frag (List.mem_append_left _ mem)) before

end Receiving

/-! ## Soundness -/

/-- The frames are the fragments of one message, numbered in order, whose payloads
make up the declared total and decode to `msg`. -/
def Genuine (ciborium : QevMessage.Ciborium) (frags : List Bytes) (msg : QevMessage) : Prop :=
  frags ≠ [] ∧ ∃ total_len payloads, total_len ≤ MAX_MESSAGE_BYTES ∧
    Carries id total_len payloads frags ∧ (payloads.map List.length).sum = total_len ∧
    QevMessage.decode ciborium payloads.flatten = .ok msg

/-- A message that is received comes from the frames that were consumed for it;
and the buffer never outgrows the declared total by more than one payload. -/
def ReassemblySound (ciborium : QevMessage.Ciborium) (frags : List Bytes) : Prop :=
  (∀ (ch ch' : Channel) (io : Bytes) (msg : QevMessage),
    ch.recv_msg ciborium (ch.receiving.frames ch.receiving_nonce frags) = .ok (ch', io, msg) →
      ∃ used left, frags = used ++ left ∧ ch' = ch.received used.length ∧
        io = ch.receiving.frames (ch.receiving_nonce + used.length) left ∧
        Genuine ciborium used msg) ∧
  ∀ before, before <+: frags → ∀ total_len next_seq buf,
    Receiving.after before = .loop total_len next_seq buf →
      buf.length ≤ total_len + FRAG_PAYLOAD_MAX

/-- The frames begin with more than 2^32 fragments of one message, numbered modulo
2^32, of which only the last completes it. -/
def Wraps (ciborium : QevMessage.Ciborium) (frags : List Bytes) : Prop :=
  ∃ used left total_len payloads msg, frags = used ++ left ∧ 2 ^ 32 < used.length ∧
    total_len ≤ MAX_MESSAGE_BYTES ∧ Carries (· % 2 ^ 32) total_len payloads used ∧
    payloads.dropLast.flatten.length < total_len ∧ payloads.flatten.length = total_len ∧
    QevMessage.decode ciborium payloads.flatten = .ok msg

theorem not_genuine_of_many {msg : QevMessage} (many : 2 ^ 32 < frags.length)
    (carries : Carries (· % 2 ^ 32) total_len payloads frags) : ¬ Genuine ciborium frags msg := by
  rintro ⟨-, total_len', payloads', -, numbered, -⟩
  have here : 2 ^ 32 < payloads.length := by rwa [carries.length]
  have here' : 2 ^ 32 < payloads'.length := by rwa [numbered.length]
  have same : (payloads.mapIdx fun i payload =>
      (.ok (total_len, i % 2 ^ 32, payload) : Except String (Nat × Nat × Bytes)))[2 ^ 32]? =
        (payloads'.mapIdx fun i payload => .ok (total_len', id i, payload))[2 ^ 32]? :=
    congrArg (·[2 ^ 32]?) (carries.symm.trans numbered)
  rw [List.getElem?_mapIdx, List.getElem?_mapIdx, List.getElem?_eq_getElem here,
    List.getElem?_eq_getElem here'] at same
  simp at same

theorem not_sound_of_wraps (short : ∀ frag ∈ frags, frag.length ≤ MAX_TRANSPORT_MSG)
    (wraps : Wraps ciborium frags) : ¬ ReassemblySound ciborium frags := by
  rintro ⟨sound, -⟩
  obtain ⟨used, left, total_len, payloads, msg, whole, many, small, carries, needed, length,
    decoded⟩ := wraps
  have some_frag : used ≠ [] := List.ne_nil_of_length_pos (by omega)
  have returns : Receiving.first.Returns ciborium used (.ok msg) :=
    Receiving.returns_ok.mpr
      ⟨some_frag, total_len, payloads, small, carries, .inr needed, length, decoded⟩
  have received := (Channel.recv_msg_eq_ok .sample short).mpr
    ⟨used, left, whole, returns, rfl, rfl⟩
  obtain ⟨used', left', whole', same, -, genuine⟩ := sound _ _ _ _ received
  have lengths : used.length = used'.length := by
    have nonces := congrArg Channel.receiving_nonce same
    simpa [Channel.received] using nonces
  obtain ⟨rfl, -⟩ := List.append_inj (whole.symm.trans whole') lengths
  exact not_genuine_of_many many carries genuine

/-- Reassembly is sound but for messages of more than 2^32 fragments. -/
theorem reassembly_sound_iff (ciborium : QevMessage.Ciborium) {frags : List Bytes}
    (short : ∀ frag ∈ frags, frag.length ≤ MAX_TRANSPORT_MSG) :
    ReassemblySound ciborium frags ↔ ¬ Wraps ciborium frags := by
  constructor
  · intro sound wraps
    exact not_sound_of_wraps short wraps sound
  · intro unwrapped
    constructor
    · intro ch ch' io msg received
      obtain ⟨used, left, whole, returns, rfl, rfl⟩ := (ch.recv_msg_eq_ok short).mp received
      refine ⟨used, left, whole, rfl, rfl, ?_⟩
      obtain ⟨some_frag, total_len, payloads, small, carries, needed, length, decoded⟩ :=
        Receiving.returns_ok.mp returns
      have few : used.length ≤ 2 ^ 32 := by
        by_contra many
        apply unwrapped
        exact ⟨used, left, total_len, payloads, msg, whole, by omega, small, carries,
          needed.resolve_left (by omega), length, decoded⟩
      refine ⟨some_frag, total_len, payloads, small, (carries_mod few).mp carries, ?_, decoded⟩
      rw [← List.length_flatten, length]
    · intro before early total_len next_seq buf at_
      exact Receiving.buf_bound (fun frag mem => short frag (early.subset mem)) at_

theorem not_wraps_of_few (few : frags.length ≤ 2 ^ 32) : ¬ Wraps ciborium frags := by
  rintro ⟨used, left, -, -, -, rfl, many, -⟩
  rw [List.length_append] at few
  omega

theorem reassembly_sound_of_two :
    ReassemblySound .definite (fragments large_vault.into_writer) := by
  have short : ∀ frag ∈ fragments large_vault.into_writer, frag.length ≤ MAX_TRANSPORT_MSG := by
    intro frag mem
    obtain ⟨i, -, rfl⟩ := List.mem_map.mp mem
    exact fragment_length _ i
  apply (reassembly_sound_iff .definite short).mpr
  apply not_wraps_of_few
  rw [fragments_length, n_frags, length_large_vault]
  decide

/-! ## Termination -/

/-- The first `n` frames that the peer sends. -/
def first_frames (frame : Nat → Bytes) (n : Nat) : List Bytes := (List.range n).map frame

/-- The call returns with one of so many frames, and its counter never comes round
to zero. -/
def Terminates (ciborium : QevMessage.Ciborium) (frame : Nat → Bytes) : Prop :=
  (∃ n ≤ MAX_MESSAGE_BYTES + 1,
    ((Receiving.after (first_frames frame n)).returned ciborium).isSome) ∧
  ∀ n total_len next_seq buf,
    Receiving.after (first_frames frame n) = .loop total_len next_seq buf → next_seq ≠ 0

/-- The first `MAX_MESSAGE_BYTES + 1` frames are fragments of one message, and the
message is not complete. -/
def Stalls (frame : Nat → Bytes) : Prop :=
  ∃ total_len payloads, total_len ≤ MAX_MESSAGE_BYTES ∧
    Carries id total_len payloads (first_frames frame (MAX_MESSAGE_BYTES + 1)) ∧
    payloads.flatten.length < total_len

section Streams

variable {frame : Nat → Bytes}

@[simp] theorem first_frames_length (n : Nat) : (first_frames frame n).length = n := by
  simp [first_frames]

theorem first_frames_front {m n : Nat} (le : m ≤ n) :
    first_frames frame m <+: first_frames frame n := by
  obtain ⟨k, rfl⟩ := Nat.exists_eq_add_of_le le
  rw [first_frames, first_frames, List.range_add, List.map_append]
  exact List.prefix_append _ _

/-- A call that waits has got fragments of less than the total. -/
theorem waiting_iff {n : Nat} (some_in : 0 < n) (few : n ≤ 2 ^ 32) :
    (Receiving.after (first_frames frame n)).returned ciborium = none ↔
      ∃ total_len payloads, total_len ≤ MAX_MESSAGE_BYTES ∧
        Carries id total_len payloads (first_frames frame n) ∧
        payloads.flatten.length < total_len := by
  have some_frag : first_frames frame n ≠ [] := List.ne_nil_of_length_pos (by simpa using some_in)
  have counted : (first_frames frame n).length ≤ 2 ^ 32 := by simpa using few
  constructor
  · intro waiting
    have running := Receiving.running_of_waiting waiting
    rcases Receiving.returned_eq_none.mp waiting with start | ⟨total_len, next_seq, buf, at_, less⟩
    · exact absurd start (Receiving.after_ne_first some_frag)
    · obtain ⟨-, small, -, payloads, carries, rfl, -⟩ := Receiving.after_eq_loop.mp ⟨at_, running⟩
      exact ⟨total_len, payloads, small, (carries_mod counted).mp carries, less⟩
  · rintro ⟨total_len, payloads, small, carries, less⟩
    have fewer : payloads.dropLast.flatten.length ≤ payloads.flatten.length :=
      ((List.dropLast_prefix payloads).flatten).length_le
    have entered : _ ∧ Receiving.Running ciborium (first_frames frame n) :=
      Receiving.after_eq_loop.mpr ⟨some_frag, small, rfl, payloads,
        (carries_mod counted).mpr carries, rfl, .inr (by omega)⟩
    obtain ⟨at_, -⟩ := entered
    exact Receiving.returned_eq_none.mpr (.inr ⟨_, _, _, at_, less⟩)

/-- The frames up to the one with which the call returned, or all of them. -/
theorem exists_running (ciborium : QevMessage.Ciborium) (frags : List Bytes) :
    ∃ used, used <+: frags ∧ Receiving.after frags = Receiving.after used ∧
      Receiving.Running ciborium used := by
  rcases Receiving.returns_or_waiting ciborium .first frags with
    ⟨used, left, r, rfl, returns⟩ | waiting
  · obtain ⟨result, running⟩ := Receiving.returns_iff.mp returns
    exact ⟨used, List.prefix_append _ _, Receiving.after_append_of_returned result left, running⟩
  · exact ⟨frags, List.prefix_rfl, rfl, fun before early _ => waiting before early⟩

theorem not_terminates_of_stalls (stalls : Stalls frame) : ¬ Terminates ciborium frame := by
  rintro ⟨⟨n, le, returned⟩, -⟩
  have waiting :
      (Receiving.after (first_frames frame (MAX_MESSAGE_BYTES + 1))).returned ciborium = none :=
    (waiting_iff (Nat.succ_pos MAX_MESSAGE_BYTES) (by decide)).mpr stalls
  obtain ⟨r, result⟩ := Option.isSome_iff_exists.mp returned
  have front : first_frames frame n <+: first_frames frame (MAX_MESSAGE_BYTES + 1) :=
    first_frames_front le
  obtain ⟨more, whole⟩ := front
  rw [← whole, Receiving.after_append_of_returned result, result] at waiting
  cases waiting

/-- The call returns in time, with its counter intact, unless the peer sends so many
fragments that do not complete the message. -/
theorem recv_msg_terminates_iff (ciborium : QevMessage.Ciborium) (frame : Nat → Bytes) :
    Terminates ciborium frame ↔ ¬ Stalls frame := by
  constructor
  · intro terminates stalls
    exact not_terminates_of_stalls stalls terminates
  · intro flowing
    have returned : ((Receiving.after (first_frames frame (MAX_MESSAGE_BYTES + 1))).returned
        ciborium).isSome := by
      rw [Option.isSome_iff_ne_none]
      intro waiting
      exact flowing ((waiting_iff (Nat.succ_pos _) (by decide)).mp waiting)
    refine ⟨⟨_, Nat.le_refl _, returned⟩, ?_⟩
    intro n total_len next_seq buf at_ wrapped
    obtain ⟨used, early, same, running⟩ := exists_running ciborium (first_frames frame n)
    obtain ⟨some_frag, -, counter, -⟩ := Receiving.after_eq_loop.mp ⟨same ▸ at_, running⟩
    have long := List.length_pos_of_ne_nil some_frag
    have few : used.length ≤ MAX_MESSAGE_BYTES + 1 := by
      by_contra many
      have fits : used.length ≤ n := by simpa using early.length_le
      have inside : first_frames frame (MAX_MESSAGE_BYTES + 1) <+: used :=
        List.prefix_of_prefix_length_le (first_frames_front (by omega)) early
          (by simpa using Nat.le_of_not_le many)
      have waiting := running _ inside (by
        intro same
        have lengths := congrArg List.length same
        rw [first_frames_length] at lengths
        omega)
      rw [waiting] at returned
      cases returned
    rw [wrapped, Nat.mod_eq_of_lt (Nat.lt_of_le_of_lt few (by decide))] at counter
    omega

/-- Fragments that all have a payload do not stall. -/
theorem not_stalls_of_payload (carry : ∀ i total_len seq payload,
    parse_fragment (frame i) = .ok (total_len, seq, payload) → payload ≠ []) : ¬ Stalls frame := by
  rintro ⟨total_len, payloads, small, carries, short⟩
  have each (n : Nat) (payloads : List Bytes)
      (carries : Carries id total_len payloads (first_frames frame n)) :
      n ≤ payloads.flatten.length := by
    induction n generalizing payloads with
    | zero => exact Nat.zero_le _
    | succ n ih =>
      rw [first_frames, List.range_succ, List.map_append, List.map_singleton] at carries
      obtain ⟨init, last, rfl, earlier, parsed⟩ := carries_snoc.mp carries
      have some_byte := List.length_pos_of_ne_nil (carry n _ _ _ parsed)
      have before := ih init earlier
      rw [List.flatten_append, List.flatten_singleton, List.length_append]
      omega
  have many := each _ payloads carries
  omega

end Streams

/-! ## Fragments without a payload -/

theorem parse_framed {total_len i : Nat} (short : total_len < 2 ^ 32) (few : i < 2 ^ 32)
    (payload : Bytes) : parse_fragment (framed total_len i payload) =
      .ok (total_len, i, payload) := by
  have whole : ¬ (framed total_len i payload).length < FRAG_HEADER_BYTES := by
    simp only [framed, List.length_append, beBytes_length, FRAG_HEADER_BYTES]
    omega
  have total : (framed total_len i payload).take 4 = beBytes 4 total_len := by
    rw [framed, List.append_assoc, List.take_left' (beBytes_length 4 total_len)]
  have after_total : (framed total_len i payload).drop 4 = beBytes 4 i ++ payload := by
    rw [framed, List.append_assoc, List.drop_left' (beBytes_length 4 total_len)]
  rw [parse_fragment, if_neg whole, total, show FRAG_HEADER_BYTES = 4 + 4 from rfl,
    ← List.drop_drop, after_total, List.take_left' (beBytes_length 4 i),
    List.drop_left' (beBytes_length 4 i), beNat_beBytes 4 _ (by omega),
      beNat_beBytes 4 _ (by omega)]

/-- A peer announces a message of one byte and never sends it. -/
def endless (i : Nat) : Bytes := framed 1 i []

theorem carries_empty {total_len n : Nat} (short : total_len < 2 ^ 32) (few : n ≤ 2 ^ 32) :
    Carries id total_len (List.replicate n [])
      ((List.range n).map fun i => framed total_len i []) := by
  induction n with
  | zero => rfl
  | succ n ih =>
    rw [List.range_succ, List.map_append, List.replicate_succ']
    exact carries_snoc.mpr ⟨_, _, rfl, ih (by omega), by
      simpa using parse_framed short (show n < 2 ^ 32 by omega) []⟩

theorem flatten_empty (n : Nat) : (List.replicate n ([] : Bytes)).flatten = [] := by
  rw [List.flatten_eq_nil_iff]
  intro payload mem
  exact List.eq_of_mem_replicate mem

theorem endless_not_terminates : ¬ Terminates .definite endless := by
  apply not_terminates_of_stalls
  refine ⟨1, List.replicate (MAX_MESSAGE_BYTES + 1) [], by decide,
    carries_empty (by decide) (by decide), ?_⟩
  rw [flatten_empty]
  exact Nat.zero_lt_one

/-- After 2^32 such fragments the number of the last one is 0 again. -/
def wrapped (body : Bytes) : List Bytes :=
  (List.range (2 ^ 32)).map (fun i => framed body.length i []) ++ [framed body.length 0 body]

theorem wraps_wrapped {msg : QevMessage} (small : msg.into_writer.length ≤ MAX_MESSAGE_BYTES)
    (some_byte : 0 < msg.into_writer.length) : Wraps ciborium (wrapped msg.into_writer) := by
  have short : msg.into_writer.length < 2 ^ 32 := Nat.lt_of_le_of_lt small (by decide)
  have count : ((List.range (2 ^ 32)).map fun i =>
      framed msg.into_writer.length i []).length = 2 ^ 32 := by
    rw [List.length_map, List.length_range]
  refine ⟨_, [], msg.into_writer.length, List.replicate (2 ^ 32) [] ++ [msg.into_writer], msg,
    (List.append_nil _).symm, ?_, small, ?_, ?_, ?_, ?_⟩
  · rw [wrapped, List.length_append, count]
    exact Nat.lt_succ_self _
  · refine carries_snoc.mpr ⟨_, _, rfl, ?_, ?_⟩
    · exact (carries_mod (Nat.le_of_eq count)).mpr (carries_empty short (Nat.le_refl _))
    · rw [count]
      exact parse_framed short (by decide) _
  · rwa [List.dropLast_concat, flatten_empty]
  · rw [List.flatten_append, flatten_empty, List.flatten_singleton, List.nil_append]
  · rw [List.flatten_append, flatten_empty, List.flatten_singleton, List.nil_append,
      QevMessage.decode, if_neg (Nat.not_lt.mpr small), ciborium.from_reader_into_writer msg small]

theorem ping_after_wrap : ¬ ReassemblySound .definite (wrapped QevMessage.Ping.into_writer) := by
  have small : QevMessage.Ping.into_writer.length ≤ 16 := by decide
  apply not_sound_of_wraps
  · intro frag mem
    rcases List.mem_append.mp mem with early | last
    · obtain ⟨i, -, rfl⟩ := List.mem_map.mp early
      simp only [framed, List.length_append, beBytes_length, List.length_nil, MAX_TRANSPORT_MSG]
      omega
    · rw [List.mem_singleton.mp last]
      simp only [framed, List.length_append, beBytes_length, MAX_TRANSPORT_MSG]
      omega
  · apply wraps_wrapped
    · exact Nat.le_trans small (by decide)
    · decide

end Qev.Pairing
