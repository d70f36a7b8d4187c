import Qev.Lib.Run
import Qev.Pairing.Fragments

/-! `recv_msg` as a machine that is given a frame at a time. -/

namespace Qev.Pairing

/-! ## Frames and their payloads -/

/-- The frames carry these payloads, under one total and the numbers that their
places have. -/
def Carries (number : Nat → Nat) (total_len : Nat) (payloads frags : List Bytes) : Prop :=
  frags.map parse_fragment = payloads.mapIdx fun i payload => .ok (total_len, number i, payload)

theorem Carries.length {number : Nat → Nat} {total_len : Nat} {payloads frags : List Bytes}
    (h : Carries number total_len payloads frags) : payloads.length = frags.length := by
  have lengths := congrArg List.length h
  rwa [List.length_map, List.length_mapIdx, eq_comm] at lengths

theorem carries_snoc {number : Nat → Nat} {total_len : Nat} {payloads frags : List Bytes}
    {frag : Bytes} : Carries number total_len payloads (frags ++ [frag]) ↔
      ∃ init last, payloads = init ++ [last] ∧ Carries number total_len init frags ∧
        parse_fragment frag = .ok (total_len, number frags.length, last) := by
  constructor
  · intro h
    have long : payloads ≠ [] := by
      intro none
      have length := h.length
      rw [none, List.length_append] at length
      cases length
    obtain ⟨init, last, rfl⟩ := (List.eq_nil_or_concat' payloads).resolve_left long
    rw [Carries, List.map_append, List.mapIdx_concat] at h
    obtain ⟨earlier, here⟩ := List.append_inj' h rfl
    refine ⟨init, last, rfl, earlier, ?_⟩
    rw [← Carries.length earlier]
    exact List.singleton_inj.mp here
  · rintro ⟨init, last, rfl, earlier, here⟩
    rw [Carries, List.map_append, List.mapIdx_concat, earlier, earlier.length, List.map_singleton,
      here]

/-! ## The machine -/

/-- Where `recv_msg` stands: before its first frame, at the head of its loop, or
at an error. -/
inductive Receiving where
  | first
  | loop (total_len next_seq : Nat) (buf : Bytes)
  | failed (e : String)
  deriving DecidableEq, Repr

namespace Receiving

/-- A frame is decrypted. The loop reads one only while the message is short. -/
def step : Receiving → Bytes → Receiving
  | first, frag =>
    match parse_fragment frag with
    | .error e => failed e
    | .ok (total_len, seq0, payload) =>
      if seq0 ≠ 0 then
        failed s!"transport message decrypt failed: expected fragment 0, got {seq0}"
      else if total_len > MAX_MESSAGE_BYTES then
        failed (Error.TransportTooLarge total_len MAX_MESSAGE_BYTES).display
      else loop total_len 1 payload
  | loop total_len next_seq buf, frag =>
    if buf.length < total_len then
      match parse_fragment frag with
      | .error e => failed e
      | .ok (this_total, this_seq, payload) =>
        if this_total ≠ total_len then
          failed
            (s!"transport message decrypt failed: fragment total_len mismatch: {this_total} " ++
              s!"vs {total_len}")
        else if this_seq ≠ next_seq then
          failed (s!"transport message decrypt failed: out-of-order fragment: got {this_seq}, " ++
            s!"expected {next_seq}")
        else loop total_len ((next_seq + 1) % 2 ^ 32) (buf ++ payload)
    else loop total_len next_seq buf
  | failed e, _ => failed e

/-- What the call returns, where it does not need another frame. -/
def returned (ciborium : QevMessage.Ciborium) : Receiving → Option (Except String QevMessage)
  | first => none
  | loop total_len _ buf =>
    if buf.length < total_len then none
    else if buf.length ≠ total_len then
      some (.error
        (s!"transport message decrypt failed: reassembled length {buf.length} != expected " ++
          s!"{total_len}"))
    else some (QevMessage.decode ciborium buf)
  | failed e => some (.error e)

/-- The state after these frames. -/
def after (frags : List Bytes) : Receiving := run step first frags

variable {ciborium : QevMessage.Ciborium} {frags : List Bytes} {frag buf buf' : Bytes}
  {total_len total_len' next_seq next_seq' : Nat} {st : Receiving}

theorem step_first_eq_loop : first.step frag = loop total_len next_seq buf ↔
    total_len ≤ MAX_MESSAGE_BYTES ∧ next_seq = 1 ∧
      parse_fragment frag = .ok (total_len, 0, buf) := by
  simp only [step]
  cases parsed : parse_fragment frag with
  | error e => simp
  | ok parts =>
    obtain ⟨total, seq, payload⟩ := parts
    dsimp only
    split_ifs with other large
    · simp [other]
    · simp only [Except.ok.injEq, Prod.mk.injEq, false_iff, not_and]
      omega
    · simp only [loop.injEq, Except.ok.injEq, Prod.mk.injEq]
      constructor
      · rintro ⟨rfl, rfl, rfl⟩
        exact ⟨Nat.not_lt.mp large, rfl, rfl, not_not.mp other, rfl⟩
      · rintro ⟨-, rfl, rfl, -, rfl⟩
        exact ⟨rfl, rfl, rfl⟩

theorem step_loop_eq_loop (short : buf.length < total_len) :
    (loop total_len next_seq buf).step frag = loop total_len' next_seq' buf' ↔
      total_len' = total_len ∧ next_seq' = (next_seq + 1) % 2 ^ 32 ∧
        ∃ payload, parse_fragment frag = .ok (total_len, next_seq, payload) ∧
          buf' = buf ++ payload := by
  simp only [step, if_pos short]
  cases parsed : parse_fragment frag with
  | error e => simp
  | ok parts =>
    obtain ⟨total, seq, payload⟩ := parts
    dsimp only
    split_ifs with other skipped
    · simp [other]
    · simp [skipped]
    · obtain rfl := not_not.mp other
      obtain rfl := not_not.mp skipped
      simp only [loop.injEq, Except.ok.injEq, Prod.mk.injEq, true_and]
      constructor
      · rintro ⟨rfl, rfl, rfl⟩
        exact ⟨rfl, rfl, payload, rfl, rfl⟩
      · rintro ⟨rfl, rfl, payload', rfl, rfl⟩
        exact ⟨rfl, rfl, rfl⟩

theorem step_ne_first : st.step frag ≠ first := by
  unfold step
  split
  · split
    · exact nofun
    · split_ifs <;> exact nofun
  · split
    · split
      · exact nofun
      · split_ifs <;> exact nofun
    · exact nofun
  · exact nofun

theorem returned_eq_none : st.returned ciborium = none ↔
    st = first ∨ ∃ total_len next_seq buf, st = loop total_len next_seq buf ∧
      buf.length < total_len := by
  cases st with
  | first => simp [returned]
  | failed e => simp [returned]
  | loop total_len next_seq buf =>
    by_cases short : buf.length < total_len
    · simp [returned, short]
    · simp only [returned, if_neg short]
      split_ifs <;> simpa using Nat.not_lt.mp short

/-- A call that has returned reads no more. -/
theorem step_of_returned {r : Except String QevMessage} (h : st.returned ciborium = some r)
    (frag : Bytes) : st.step frag = st := by
  cases st with
  | first => cases h
  | failed e => rfl
  | loop total_len next_seq buf =>
    by_cases short : buf.length < total_len
    · rw [returned, if_pos short] at h
      cases h
    · rw [step, if_neg short]

theorem after_snoc (frags : List Bytes) (frag : Bytes) :
    after (frags ++ [frag]) = (after frags).step frag := Run.snoc frags frag

theorem after_ne_first (some_frag : frags ≠ []) : after frags ≠ first := by
  obtain ⟨init, last, rfl⟩ := (List.eq_nil_or_concat' frags).resolve_left some_frag
  rw [after_snoc]
  exact step_ne_first

theorem after_append_of_returned {r : Except String QevMessage}
    (h : (after frags).returned ciborium = some r) (more : List Bytes) :
    after (frags ++ more) = after frags := by
  induction more using List.reverseRecOn with
  | nil => rw [List.append_nil]
  | append_singleton more frag ih =>
    rw [← List.append_assoc, after_snoc, ih]
    exact step_of_returned h frag

/-- No call has returned before the last of these frames. -/
def Running (ciborium : QevMessage.Ciborium) (frags : List Bytes) : Prop :=
  ∀ before, before <+: frags → before ≠ frags → (after before).returned ciborium = none

theorem running_snoc : Running ciborium (frags ++ [frag]) ↔
    (after frags).returned ciborium = none := by
  constructor
  · intro running
    exact running frags (List.prefix_append _ _) (by simp)
  · intro waiting before early other
    obtain ⟨more, rfl⟩ := (List.prefix_concat_iff.mp early).resolve_left other
    cases result : (after before).returned ciborium with
    | none => rfl
    | some r =>
      rw [after_append_of_returned result, result] at waiting
      cases waiting

theorem running_of_waiting (waiting : (after frags).returned ciborium = none) :
    Running ciborium frags := by
  intro before early other
  obtain ⟨more, rfl⟩ := early
  cases result : (after before).returned ciborium with
  | none => rfl
  | some r =>
    rw [after_append_of_returned result, result] at waiting
    cases waiting

/-- The head of the loop is reached by fragments of one message, numbered as the
counter of the source counts, of which the last one was still needed. -/
theorem after_eq_loop : after frags = loop total_len next_seq buf ∧ Running ciborium frags ↔
    frags ≠ [] ∧ total_len ≤ MAX_MESSAGE_BYTES ∧ next_seq = frags.length % 2 ^ 32 ∧
      ∃ payloads, Carries (· % 2 ^ 32) total_len payloads frags ∧ buf = payloads.flatten ∧
        (frags.length = 1 ∨ payloads.dropLast.flatten.length < total_len) := by
  induction frags using List.reverseRecOn generalizing total_len next_seq buf with
  | nil => simp [after]
  | append_singleton frags frag ih =>
    rw [after_snoc, running_snoc, returned_eq_none, List.length_append, List.length_singleton]
    have some_frag : frags ++ [frag] ≠ [] := by simp
    by_cases none : frags = []
    · subst none
      constructor
      · rintro ⟨here, -⟩
        obtain ⟨small, rfl, parsed⟩ := step_first_eq_loop.mp here
        exact ⟨some_frag, small, rfl, [buf], carries_snoc.mpr ⟨[], buf, rfl, rfl, parsed⟩,
          List.flatten_singleton.symm, .inl rfl⟩
      · rintro ⟨-, small, rfl, payloads, carries, rfl, -⟩
        obtain ⟨init, last, rfl, earlier, parsed⟩ := carries_snoc.mp carries
        obtain rfl := List.eq_nil_of_length_eq_zero earlier.length
        exact ⟨step_first_eq_loop.mpr ⟨small, rfl, by simpa using parsed⟩, .inl rfl⟩
    · have long := List.length_pos_of_ne_nil none
      constructor
      · rintro ⟨here, start | ⟨total, next, held, at_, short⟩⟩
        · exact absurd start (after_ne_first none)
        · have running : Running ciborium frags :=
            running_of_waiting (returned_eq_none.mpr (.inr ⟨total, next, held, at_, short⟩))
          obtain ⟨-, small, rfl, init, earlier, rfl, -⟩ := ih.mp ⟨at_, running⟩
          rw [at_, step_loop_eq_loop short] at here
          obtain ⟨rfl, rfl, last, parsed, rfl⟩ := here
          refine ⟨some_frag, small, Nat.mod_add_mod _ _ _, init ++ [last],
            carries_snoc.mpr ⟨init, last, rfl, earlier, parsed⟩, ?_, .inr ?_⟩
          · rw [List.flatten_append, List.flatten_singleton]
          · rwa [List.dropLast_concat]
      · rintro ⟨-, small, rfl, payloads, carries, rfl, one | short⟩
        · omega
        · obtain ⟨init, last, rfl, earlier, parsed⟩ := carries_snoc.mp carries
          rw [List.dropLast_concat] at short
          have less : init.dropLast.flatten.length ≤ init.flatten.length :=
            ((List.dropLast_prefix init).flatten).length_le
          obtain ⟨at_, -⟩ := ih.mpr ⟨none, small, rfl, init, earlier, rfl, .inr (by omega)⟩
          rw [at_]
          refine ⟨(step_loop_eq_loop short).mpr ⟨rfl, (Nat.mod_add_mod _ _ _).symm, last, parsed,
            ?_⟩, .inr ⟨_, _, _, rfl, short⟩⟩
          rw [List.flatten_append, List.flatten_singleton]

/-- The call, where it stands so, returns `r` with the last of these frames. -/
def Returns (ciborium : QevMessage.Ciborium) :
    Receiving → List Bytes → Except String QevMessage → Prop
  | st, [], r => st.returned ciborium = some r
  | st, frag :: frags, r => st.returned ciborium = none ∧ (st.step frag).Returns ciborium frags r

theorem returns_iff {r : Except String QevMessage} : st.Returns ciborium frags r ↔
    (run step st frags).returned ciborium = some r ∧
      ∀ before, before <+: frags → before ≠ frags →
        (run step st before).returned ciborium = none := by
  induction frags generalizing st with
  | nil =>
    rw [Returns]
    refine ⟨fun here => ⟨here, ?_⟩, And.left⟩
    intro before early other
    exact absurd (List.prefix_nil.mp early) other
  | cons frag frags ih =>
    rw [Returns, ih]
    constructor
    · rintro ⟨waiting, here, earlier⟩
      refine ⟨here, ?_⟩
      intro before early other
      cases before with
      | nil => exact waiting
      | cons frag' before =>
        obtain ⟨rfl, inner⟩ := List.cons_prefix_cons.mp early
        exact earlier before inner fun same => other (congrArg (frag' :: ·) same)
    · rintro ⟨here, earlier⟩
      refine ⟨earlier [] List.nil_prefix (List.cons_ne_nil _ _).symm, here, ?_⟩
      intro before early other
      exact earlier (frag :: before) (List.cons_prefix_cons.mpr ⟨rfl, early⟩)
        fun same => other (List.cons.inj same).2

theorem returns_failed {e : String} {r : Except String QevMessage} :
    (failed e).Returns ciborium frags r ↔ frags = [] ∧ r = .error e := by
  cases frags with
  | nil =>
    rw [Returns, returned, Option.some.injEq, eq_comm]
    simp
  | cons frag frags => simp [Returns, returned]

/-- With these frames the call returns, or it waits for another one. -/
theorem returns_or_waiting (ciborium : QevMessage.Ciborium) (st : Receiving) (frags : List Bytes) :
    (∃ used left r, frags = used ++ left ∧ st.Returns ciborium used r) ∨
      ∀ before, before <+: frags → (run step st before).returned ciborium = none := by
  induction frags generalizing st with
  | nil =>
    cases result : st.returned ciborium with
    | some r => exact .inl ⟨[], [], r, rfl, result⟩
    | none =>
      right
      intro before early
      rw [List.prefix_nil.mp early]
      exact result
  | cons frag frags ih =>
    cases result : st.returned ciborium with
    | some r => exact .inl ⟨[], frag :: frags, r, rfl, result⟩
    | none =>
      rcases ih (st.step frag) with ⟨used, left, r, rfl, returns⟩ | waiting
      · exact .inl ⟨frag :: used, left, r, rfl, result, returns⟩
      · right
        intro before early
        cases before with
        | nil => exact result
        | cons frag' before =>
          obtain ⟨rfl, inner⟩ := List.cons_prefix_cons.mp early
          exact waiting before inner

end Receiving

/-! ## The call reads its frames off the stream -/

namespace Channel

variable {ciborium : QevMessage.Ciborium} {frag buf : Bytes} {total_len next_seq fuel : Nat}

/-- What follows the loop of `recv_msg`. -/
def finish (ciborium : QevMessage.Ciborium) (total_len : Nat) :
    Channel × Bytes × Bytes → Except String (Channel × Bytes × QevMessage) :=
  fun (ch, io, buf) => do
  if buf.length ≠ total_len then
    throw (s!"transport message decrypt failed: reassembled length {buf.length} != expected " ++
      s!"{total_len}")
  let msg ← QevMessage.decode ciborium buf
  return (ch, io, msg)

theorem recv_fragment_of_frame (ch : Channel) (short : frag.length ≤ MAX_TRANSPORT_MSG)
    (io : Bytes) : ch.recv_fragment (ch.receiving.frame ch.receiving_nonce frag ++ io) =
      (parse_fragment frag).map fun (total_len, seq, payload) =>
        (ch.received 1, io, total_len, seq, payload) := by
  simp only [recv_fragment, ch.recv_frame io short]
  cases parse_fragment frag with
  | error e => rfl
  | ok parts => rfl

theorem recv_msg_frame (ch : Channel) (short : frag.length ≤ MAX_TRANSPORT_MSG) (io : Bytes) :
    ch.recv_msg ciborium (ch.receiving.frame ch.receiving_nonce frag ++ io) =
      match Receiving.first.step frag with
      | .loop total_len next_seq buf =>
        Channel.recv_rest total_len (io.length + 1) (ch.received 1) io buf next_seq >>=
          finish ciborium total_len
      | .failed e => .error e
      | .first => .error "" := by
  rw [recv_msg, ch.recv_fragment_of_frame short]
  simp only [Receiving.step]
  cases parse_fragment frag with
  | error e => rfl
  | ok parts =>
    obtain ⟨total, seq, payload⟩ := parts
    simp only [Except.map, ok_bind]
    by_cases other : seq = 0
    · by_cases large : total > MAX_MESSAGE_BYTES
      · simp only [other, large, ne_eq, not_true_eq_false, if_false, if_true]
        rfl
      · simp only [other, large, ne_eq, not_true_eq_false, if_false]
        rfl
    · simp only [other, ne_eq, not_false_eq_true, if_true]
      rfl

theorem recv_rest_frame (ch : Channel) (short : frag.length ≤ MAX_TRANSPORT_MSG)
    (more : buf.length < total_len) (io : Bytes) :
    Channel.recv_rest total_len (fuel + 1) ch
        (ch.receiving.frame ch.receiving_nonce frag ++ io) buf next_seq =
      match (Receiving.loop total_len next_seq buf).step frag with
      | .loop total_len next_seq buf =>
        Channel.recv_rest total_len fuel (ch.received 1) io buf next_seq
      | .failed e => .error e
      | .first => .error "" := by
  rw [recv_rest, if_pos more, ch.recv_fragment_of_frame short]
  simp only [Receiving.step, if_pos more]
  cases parse_fragment frag with
  | error e => rfl
  | ok parts =>
    obtain ⟨total, seq, payload⟩ := parts
    simp only [Except.map, ok_bind]
    by_cases other : total = total_len
    · by_cases skipped : seq = next_seq
      · simp only [other, skipped, ne_eq, not_true_eq_false, if_false]
      · simp only [other, skipped, ne_eq, not_true_eq_false, not_false_eq_true, if_false, if_true]
        rfl
    · simp only [other, ne_eq, not_false_eq_true, if_true]
      rfl

/-- The loop reads the frames that it needs and leaves the rest of the stream. -/
theorem recv_rest_reads (ch : Channel) {more : List Bytes} {r : Except String QevMessage}
    (short : ∀ frag ∈ more, frag.length ≤ MAX_TRANSPORT_MSG)
    (returns : (Receiving.loop total_len next_seq buf).Returns ciborium more r)
    (enough : more.length ≤ fuel) (rest : Bytes) :
    (Channel.recv_rest total_len fuel ch (ch.receiving.frames ch.receiving_nonce more ++ rest) buf
        next_seq >>= finish ciborium total_len) =
      r.map fun msg => (ch.received more.length, rest, msg) := by
  induction more generalizing ch next_seq buf fuel with
  | nil =>
    have whole : ¬ buf.length < total_len := by
      intro less
      rw [Receiving.Returns, Receiving.returned, if_pos less] at returns
      cases returns
    have stops : Channel.recv_rest total_len fuel ch
        (ch.receiving.frames ch.receiving_nonce [] ++ rest) buf next_seq = .ok (ch, rest, buf) := by
      cases fuel with
      | zero => rfl
      | succ fuel => rw [recv_rest, if_neg whole]; rfl
    rw [stops, ok_bind, finish]
    rw [Receiving.Returns, Receiving.returned, if_neg whole] at returns
    by_cases differs : buf.length ≠ total_len
    · rw [if_pos differs, Option.some.injEq] at returns
      rw [if_pos differs, ← returns]
      rfl
    · rw [if_neg differs, Option.some.injEq] at returns
      rw [if_neg differs, returns]
      cases r with
      | error e => rfl
      | ok msg => rfl
  | cons frag more ih =>
    obtain ⟨fuel, rfl⟩ :=
      Nat.exists_eq_add_of_le' (show 1 ≤ fuel from Nat.le_trans (by simp) enough)
    obtain ⟨waiting, later⟩ := returns
    obtain ⟨⟨⟩⟩ | ⟨_, _, _, ⟨⟩, less⟩ := Receiving.returned_eq_none.mp waiting
    rw [Cipher.frames, List.append_assoc,
      ch.recv_rest_frame (short frag List.mem_cons_self) less]
    cases stepped : (Receiving.loop total_len next_seq buf).step frag with
    | first => exact absurd stepped Receiving.step_ne_first
    | failed e =>
      rw [stepped] at later
      obtain ⟨rfl, rfl⟩ := Receiving.returns_failed.mp later
      rfl
    | loop total next_seq' buf' =>
      obtain ⟨rfl, -⟩ := (Receiving.step_loop_eq_loop less).mp stepped
      rw [stepped] at later
      have enough' : more.length ≤ fuel := by simpa using enough
      have inner := ih (ch.received 1) (fun frag' mem => short frag' (List.mem_cons_of_mem _ mem))
        later enough'
      refine inner.trans ?_
      simp only [received, List.length_cons, Nat.add_assoc, Nat.add_comm 1]

/-- The call reads the frames with the last of which it returns. -/
theorem recv_msg_reads (ch : Channel) {used : List Bytes} {r : Except String QevMessage}
    (short : ∀ frag ∈ used, frag.length ≤ MAX_TRANSPORT_MSG)
    (returns : Receiving.first.Returns ciborium used r) (rest : Bytes) :
    ch.recv_msg ciborium (ch.receiving.frames ch.receiving_nonce used ++ rest) =
      r.map fun msg => (ch.received used.length, rest, msg) := by
  cases used with
  | nil => cases returns
  | cons frag more =>
    obtain ⟨-, later⟩ := returns
    rw [Cipher.frames, List.append_assoc, ch.recv_msg_frame (short frag List.mem_cons_self)]
    cases stepped : Receiving.first.step frag with
    | first => exact absurd stepped Receiving.step_ne_first
    | failed e =>
      rw [stepped] at later
      obtain ⟨rfl, rfl⟩ := Receiving.returns_failed.mp later
      rfl
    | loop total_len next_seq buf =>
      rw [stepped] at later
      have enough : more.length ≤
          (ch.receiving.frames (ch.receiving_nonce + 1) more ++ rest).length + 1 := by
        have frames := ch.receiving.length_le_frames (ch.receiving_nonce + 1) more
        rw [List.length_append]
        omega
      refine ((ch.received 1).recv_rest_reads
        (fun frag' mem => short frag' (List.mem_cons_of_mem _ mem)) later enough rest).trans ?_
      simp only [received, List.length_cons, Nat.add_assoc, Nat.add_comm 1]

theorem recv_fragment_nil (ch : Channel) : ∃ e, ch.recv_fragment [] = .error e := ⟨_, rfl⟩

/-- Where the frames are not enough, the call comes to the end of the stream. -/
theorem recv_rest_waits (ch : Channel) {more : List Bytes}
    (short : ∀ frag ∈ more, frag.length ≤ MAX_TRANSPORT_MSG)
    (waiting : ∀ before, before <+: more →
      (run Receiving.step (.loop total_len next_seq buf) before).returned ciborium = none)
    (enough : more.length < fuel) :
    ∃ e, Channel.recv_rest total_len fuel ch (ch.receiving.frames ch.receiving_nonce more) buf
      next_seq = .error e := by
  obtain ⟨⟨⟩⟩ | ⟨_, _, _, ⟨⟩, less⟩ := Receiving.returned_eq_none.mp (waiting [] List.nil_prefix)
  obtain ⟨fuel, rfl⟩ := Nat.exists_eq_add_of_le' (show 1 ≤ fuel by omega)
  induction more generalizing ch next_seq buf fuel with
  | nil =>
    obtain ⟨e, ended⟩ := ch.recv_fragment_nil
    rw [Cipher.frames, recv_rest, if_pos less, ended]
    exact ⟨e, rfl⟩
  | cons frag more ih =>
    rw [Cipher.frames, ch.recv_rest_frame (short frag List.mem_cons_self) less]
    have later (before : List Bytes) (early : before <+: more) :=
      waiting (frag :: before) (List.cons_prefix_cons.mpr ⟨rfl, early⟩)
    simp only [Run.cons] at later
    cases stepped : (Receiving.loop total_len next_seq buf).step frag with
    | first => exact absurd stepped Receiving.step_ne_first
    | failed e => exact ⟨e, rfl⟩
    | loop total next_seq' buf' =>
      obtain ⟨rfl, -⟩ := (Receiving.step_loop_eq_loop less).mp stepped
      rw [stepped] at later
      obtain ⟨⟨⟩⟩ | ⟨_, _, _, ⟨⟩, less'⟩ :=
        Receiving.returned_eq_none.mp (later [] List.nil_prefix)
      obtain ⟨fuel, rfl⟩ := Nat.exists_eq_add_of_le' (show 1 ≤ fuel by simp at enough; omega)
      exact ih (ch.received 1) (fun frag' mem => short frag' (List.mem_cons_of_mem _ mem)) later
        less' fuel (by simpa using enough)

theorem recv_msg_waits (ch : Channel) {frags : List Bytes}
    (short : ∀ frag ∈ frags, frag.length ≤ MAX_TRANSPORT_MSG)
    (waiting : ∀ before, before <+: frags → (Receiving.after before).returned ciborium = none) :
    ∃ e, ch.recv_msg ciborium (ch.receiving.frames ch.receiving_nonce frags) = .error e := by
  cases frags with
  | nil =>
    obtain ⟨e, ended⟩ := ch.recv_fragment_nil
    rw [Cipher.frames, recv_msg, ended]
    exact ⟨e, rfl⟩
  | cons frag more =>
    rw [Cipher.frames, ch.recv_msg_frame (short frag List.mem_cons_self)]
    have later (before : List Bytes) (early : before <+: more) :=
      waiting (frag :: before) (List.cons_prefix_cons.mpr ⟨rfl, early⟩)
    simp only [Receiving.after, Run.cons] at later
    cases stepped : Receiving.first.step frag with
    | first => exact absurd stepped Receiving.step_ne_first
    | failed e => exact ⟨e, rfl⟩
    | loop total_len next_seq buf =>
      rw [stepped] at later
      have frames := ch.receiving.length_le_frames (ch.receiving_nonce + 1) more
      obtain ⟨e, ended⟩ := (ch.received 1).recv_rest_waits
        (fun frag' mem => short frag' (List.mem_cons_of_mem _ mem)) later
        (show more.length < _ + 1 from Nat.lt_succ_of_le frames)
      refine ⟨e, ?_⟩
      refine (congrArg (· >>= _) ended).trans ?_
      rfl

/-- On a stream of whole frames the call succeeds exactly where it returns a
message with one of them. -/
theorem recv_msg_eq_ok (ch : Channel) {frags : List Bytes} {ch' : Channel} {io : Bytes}
    {msg : QevMessage} (short : ∀ frag ∈ frags, frag.length ≤ MAX_TRANSPORT_MSG) :
    ch.recv_msg ciborium (ch.receiving.frames ch.receiving_nonce frags) = .ok (ch', io, msg) ↔
      ∃ used left, frags = used ++ left ∧ Receiving.first.Returns ciborium used (.ok msg) ∧
        ch' = ch.received used.length ∧
        io = ch.receiving.frames (ch.receiving_nonce + used.length) left := by
  have reads {used left : List Bytes} {r : Except String QevMessage} (whole : frags = used ++ left)
      (returns : Receiving.first.Returns ciborium used r) :
      ch.recv_msg ciborium (ch.receiving.frames ch.receiving_nonce frags) =
        r.map fun msg => (ch.received used.length,
          ch.receiving.frames (ch.receiving_nonce + used.length) left, msg) := by
    rw [whole, Cipher.frames_append]
    apply ch.recv_msg_reads _ returns
    intro frag mem
    exact short frag (whole ▸ List.mem_append_left _ mem)
  constructor
  · intro received
    rcases Receiving.returns_or_waiting ciborium .first frags with
      ⟨used, left, r, whole, returns⟩ | waiting
    · rw [reads whole returns] at received
      cases r with
      | error e => cases received
      | ok msg =>
        cases received
        exact ⟨used, left, whole, returns, rfl, rfl⟩
    · obtain ⟨e, ended⟩ := ch.recv_msg_waits short waiting
      rw [ended] at received
      cases received
  · rintro ⟨used, left, whole, returns, rfl, rfl⟩
    rw [reads whole returns]
    rfl

end Channel

end Qev.Pairing
