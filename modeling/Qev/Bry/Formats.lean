import Qev.Bry.Reading

/-! The spellings of a list of tokens, between bars and in bytes, read back; and
the answer of `/bry/decode`, which goes through the compact text. -/

namespace Qev.Bry

open Py (Blank CodePoint Pads Str cp py)

/-! ## Between bars -/

/-- Tokens between bars, each with white space around it. -/
def Separated (text : Str) (tokens : List Str) : Prop :=
  ∃ parts, List.Forall₂ Pads tokens parts ∧ text = Py.join HUMAN_SEPARATOR parts

theorem separator_solid : Py.isSpace HUMAN_SEPARATOR = false := by decide

theorem strip_spelled {tokens : List Str} (h : Spelled tokens) : tokens.map Py.strip = tokens := by
  refine (List.map_congr_left fun t here => ?_).trans (List.map_id _)
  exact Py.strip_eq_self fun c inside => (mem_token (h t here) inside).1

theorem map_strip {parts parts' : List Str} (h : List.Forall₂ Pads parts parts') :
    parts'.map Py.strip = parts.map Py.strip := by
  induction h with
  | nil => rfl
  | cons first _ ih => rw [List.map_cons, List.map_cons, Py.strip_pads first, ih]

/-- The items of a text, whether or not it is stripped first. -/
theorem items_strip (text : Str) :
    (Py.split HUMAN_SEPARATOR (Py.strip text)).map Py.strip =
      (Py.split HUMAN_SEPARATOR text).map Py.strip :=
  (map_strip (Py.split_pads separator_solid (Py.pads_strip text))).symm

/-- Tokens with white space around them have no bars. -/
theorem barless {tokens parts : List Str} (h : Spelled tokens)
    (padded : List.Forall₂ Pads tokens parts) : ∀ part ∈ parts, HUMAN_SEPARATOR ∉ part := by
  induction padded with
  | nil => exact List.forall_mem_nil _
  | @cons t part tokens parts first _ ih =>
    obtain ⟨mem, later⟩ := spelled_cons.mp h
    refine List.forall_mem_cons.mpr ⟨?_, ih later⟩
    obtain ⟨l, r, left, right, rfl⟩ := first
    have solid {s : Str} (blank : Blank s) : HUMAN_SEPARATOR ∉ s := by
      intro inside
      exact Bool.false_ne_true (separator_solid.symm.trans (blank _ inside))
    intro inside
    rcases List.mem_append.mp inside with front | back
    · rcases List.mem_append.mp front with before | here
      · exact solid left before
      · exact (mem_token mem here).2 rfl
    · exact solid right back

/-- The items are the tokens that a text separates. -/
theorem items_eq_iff {text : Str} {tokens : List Str} (h : Spelled tokens)
    (nonempty : tokens ≠ []) :
    (Py.split HUMAN_SEPARATOR text).map Py.strip = tokens ↔ Separated text tokens := by
  constructor
  · rintro rfl
    refine ⟨Py.split HUMAN_SEPARATOR text, ?_, ?_⟩
    · rw [List.forall₂_map_left_iff, List.forall₂_same]
      intro part _
      exact Py.pads_strip part
    · exact (List.intercalate_splitOn HUMAN_SEPARATOR).symm
  · rintro ⟨parts, padded, rfl⟩
    have some_part : parts ≠ [] := by
      rintro rfl
      exact nonempty (List.forall₂_nil_right_iff.mp padded)
    rw [Py.split_join (barless h padded) some_part, map_strip padded, strip_spelled h]

/-- What is accepted between bars: blank text, as no tokens, and tokens with white
space around them. -/
theorem parse_human_iff {text : Str} {tokens : List Str} :
    parse_human_bry text = .ok tokens ↔
      Blank text ∧ tokens = [] ∨ tokens ≠ [] ∧ Spelled tokens ∧ Separated text tokens := by
  rw [parse_human_bry]
  by_cases blank : Py.strip text = []
  · rw [if_pos blank, Except.ok.injEq]
    constructor
    · rintro rfl
      exact .inl ⟨Py.strip_eq_nil_iff.mp blank, rfl⟩
    · rintro (⟨-, rfl⟩ | ⟨nonempty, spelled_, separated⟩)
      · rfl
      · -- The one item of a blank text is empty.
        have items := (items_eq_iff spelled_ nonempty).mpr separated
        rw [← items_strip, blank] at items
        exact absurd rfl (spelled [] (spelled_ [] (items ▸ List.mem_cons_self))).1
  · rw [if_neg blank, items_strip]
    constructor
    · intro parsed
      dsimp only at parsed
      split at parsed
      · cases parsed
      · obtain ⟨⟨⟩, known_, parsed⟩ := bind_eq_ok.mp parsed
        obtain rfl := Except.ok.inj parsed
        have some_item : (Py.split HUMAN_SEPARATOR text).map Py.strip ≠ [] := by
          rw [ne_eq, List.map_eq_nil_iff]
          exact List.splitOn_ne_nil _ _
        have spelled_ := known_eq_ok.mp known_
        exact .inr ⟨some_item, spelled_, (items_eq_iff spelled_ some_item).mp rfl⟩
    · rintro (⟨white, -⟩ | ⟨nonempty, spelled_, separated⟩)
      · exact absurd (Py.strip_eq_nil_iff.mpr white) blank
      · have full : [] ∉ tokens := by
          intro mem
          exact (spelled [] (spelled_ [] mem)).1 rfl
        rw [(items_eq_iff spelled_ nonempty).mpr separated, if_neg full, known_eq_ok.mpr spelled_]
        rfl

/-! ## Bytes -/

theorem nodup_order : TOKEN_ORDER.Nodup := by decide

/-- What is read from bytes is written as the same bytes. -/
theorem tokens_to_bytes_of {data : Bytes} {tokens : List Str}
    (h : bytes_to_tokens data = .ok tokens) : tokens_to_bytes tokens = .ok data := by
  rw [bytes_to_tokens] at h
  split at h
  · cases h
  · rename_i valid
    rw [not_not, List.filter_eq_nil_iff] at valid
    obtain rfl := Except.ok.inj h
    have place : ∀ value ∈ data, ∃ t, TOKEN_ORDER[value.toNat]? = some t ∧ t ∈ TOKEN_ORDER ∧
        UInt8.ofNat (TOKEN_ORDER.idxOf t) = value := by
      intro value mem
      have found := valid value mem
      rw [Option.isNone_iff_eq_none] at found
      obtain ⟨t, here⟩ := Option.ne_none_iff_exists'.mp found
      obtain ⟨bound, rfl⟩ := List.getElem?_eq_some_iff.mp here
      refine ⟨_, here, List.getElem_mem bound, ?_⟩
      rw [nodup_order.idxOf_getElem, UInt8.ofNat_toNat]
    clear valid h
    have spelled_ : Spelled (data.filterMap fun value => TOKEN_ORDER[value.toNat]?) := by
      intro t mem
      obtain ⟨value, here, found⟩ := List.mem_filterMap.mp mem
      obtain ⟨t', found', known', -⟩ := place value here
      cases found.symm.trans found'
      exact known'
    rw [tokens_to_bytes, known_eq_ok.mpr spelled_, ok_bind]
    refine congrArg Except.ok ?_
    clear spelled_
    induction data with
    | nil => rfl
    | cons value data ih =>
      obtain ⟨first, later⟩ := List.forall_mem_cons.mp place
      obtain ⟨t, found, -, same⟩ := first
      rw [List.filterMap_cons, found, List.map_cons, same, ih later]

theorem spelled_to_bytes {tokens : List Str} (h : Spelled tokens) :
    ∃ bytes, tokens_to_bytes tokens = .ok bytes := by
  rw [tokens_to_bytes, known_eq_ok.mpr h]
  exact ⟨_, rfl⟩

/-- Lists of tokens come back from their text and from their bytes, and bytes from
the tokens read in them; and the text between bars that is accepted is blank or
separates the tokens that are returned. -/
theorem token_encodings_lossless :
    (∀ tokens, Spelled tokens →
      (∃ text, render_human_bry tokens = .ok text ∧ parse_bry_input text = .ok tokens) ∧
      ∃ bytes, tokens_to_bytes tokens = .ok bytes ∧ bytes_to_tokens bytes = .ok tokens) ∧
    (∀ data tokens, bytes_to_tokens data = .ok tokens → tokens_to_bytes tokens = .ok data) ∧
    ∀ text tokens, parse_human_bry text = .ok tokens ↔
      Blank text ∧ tokens = [] ∨ tokens ≠ [] ∧ Spelled tokens ∧ Separated text tokens := by
  refine ⟨fun tokens h => ⟨⟨_, render_spelled h, parse_rendered h⟩, ?_⟩,
    fun _ _ => tokens_to_bytes_of, fun _ _ => parse_human_iff⟩
  obtain ⟨bytes, written⟩ := spelled_to_bytes h
  exact ⟨bytes, written, bytes_to_tokens_of written⟩

theorem token_encodings_lossless_ja :
    ∃ text, render_human_bry [py "+", py "1"] = .ok text ∧
      parse_bry_input text = .ok [py "+", py "1"] :=
  (token_encodings_lossless.1 [py "+", py "1"] (by unfold Spelled; decide)).1

/-! ## The answer of `/bry/decode` -/

structure DecodeResponse where
  plaintext : Str
  canonical_bry_compact : Str
  canonical_bry_human : Str
  tokens : List Str

def canonicalize_bry_input (text : Str) : Except Exc Str := do
  untokenize_bry (← parse_bry_input text)

def bry_decode (bry : Str) : Except Exc DecodeResponse := do
  let tokens ← parse_bry_input bry
  let compact ← canonicalize_bry_input bry
  let decoded ← decode_from_bry compact
  let human ← render_human_bry tokens
  return ⟨decoded, compact, human, tokens⟩

/-- Any tokens are answered: with themselves, and with what the longest match makes
of their compact text. -/
theorem bry_decode_spelled {tokens : List Str} (h : Spelled tokens) :
    ∃ answer, bry_decode (Py.join HUMAN_SEPARATOR tokens) = .ok answer ∧ answer.tokens = tokens ∧
      decode_from_bry tokens.flatten = .ok answer.plaintext := by
  obtain ⟨read, -, -, -, decoded⟩ := exists_read h
  have parsed := parse_rendered h
  rw [bry_decode, parsed, ok_bind, canonicalize_bry_input, parsed, ok_bind, untokenize_spelled h,
    ok_bind, decoded, ok_bind, render_spelled h]
  exact ⟨_, rfl, rfl, rfl⟩

/-- Any tokens between bars are answered with themselves as the tokens and with the
string of their characters as the plaintext, if and only if no two neighbours merge. -/
theorem human_decoding_exact_iff (tokens : List Str) (known : Spelled tokens) :
    (∃ human answer, render_human_bry tokens = .ok human ∧ bry_decode human = .ok answer ∧
      answer.tokens = tokens ∧ answer.plaintext = tokens.map charOf) ↔
    (tokens.map charOf).IsChain fun a b => ¬ Merges a b := by
  obtain ⟨answer, answered, same, decoded⟩ := bry_decode_spelled known
  have entries : Entries (tokens.map fun t => (t, charOf t)) := by
    intro p mem
    obtain ⟨t, here, rfl⟩ := List.mem_map.mp mem
    obtain ⟨p, entry_, rfl⟩ := List.mem_map.mp (known t here)
    rw [(entry p entry_).2.1]
    exact entry_
  have exact_ := decode_encoded_iff entries
  rw [List.map_map, List.map_map] at exact_
  have firsts : tokens.map (Prod.fst ∘ fun t => (t, charOf t)) = tokens := List.map_id tokens
  rw [firsts, decoded, Except.ok.injEq] at exact_
  rw [← show (Prod.snd ∘ fun t => (t, charOf t)) = charOf from rfl, ← exact_]
  constructor
  · rintro ⟨human, answer', rendered, answered', -, plain⟩
    rw [render_spelled known] at rendered
    cases rendered
    cases answered.symm.trans answered'
    exact plain
  · intro plain
    exact ⟨_, answer, render_spelled known, answered, same, plain⟩

theorem human_decoding_exact_hi :
    ∃ human answer, render_human_bry [py "8", py "9"] = .ok human ∧ bry_decode human = .ok answer ∧
      answer.tokens = [py "8", py "9"] ∧ answer.plaintext = [py "8", py "9"].map charOf :=
  (human_decoding_exact_iff [py "8", py "9"] (by unfold Spelled; decide)).mpr (by decide)

/-- The tokens of J and A are answered with K. -/
theorem ja_between_bars_as_k : ¬ ∀ tokens, Spelled tokens → 2 ≤ tokens.length →
    ∃ human answer, render_human_bry tokens = .ok human ∧ bry_decode human = .ok answer ∧
      answer.tokens = tokens ∧ answer.plaintext = tokens.map charOf := by
  intro all
  obtain ⟨human, answer, rendered, answered, -, plain⟩ :=
    all [py "+", py "1"] (by unfold Spelled; decide) (by decide)
  have bars : render_human_bry [py "+", py "1"] = .ok (py "+|1") := by decide
  cases bars.symm.trans rendered
  have k : (bry_decode (py "+|1")).map DecodeResponse.plaintext = .ok (py "K") := by decide
  rw [answered] at k
  exact absurd (plain.symm.trans (Except.ok.inj k)) (by decide)

end Qev.Bry
