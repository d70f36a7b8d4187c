import Mathlib.Data.List.Chain
import Mathlib.Data.List.Infix
import Qev.Bry.Tokens
import Qev.Lib.Except

/-! What the longest match makes of compact Bry text: which plaintexts are read
back, and that nothing spelled in tokens is refused. -/

namespace Qev.Bry

open LongestMatch (Aligned first scan)
open Py (CodePoint Str cp py)

/-- The token of the first character and the start of the token of the second
make a longer token. -/
def Merges (a b : CodePoint) : Prop :=
  (a = cp 'J' ∧ cp 'A' ≤ b ∧ b ≤ cp 'Z') ∨ (a = cp 'T' ∧ cp 'A' ≤ b ∧ b ≤ cp 'F')

instance : DecidableRel Merges := fun _ _ => inferInstanceAs (Decidable (_ ∨ _))

/-- What the token of a character goes on with in a longer token, besides the
letters of a mark. -/
def follow (a : CodePoint) : Str :=
  if a = cp 'J' then py "123456789+" else if a = cp 'T' then py "123456" else []

def markLetters : Str := py "pcqea"

theorem follow_token : ∀ p ∈ TOKEN_TO_CHAR,
    (follow p.2).all (fun c => p.1 ++ [c] ∈ TOKEN_ORDER) = true := by
  decide

theorem follow_iff : ∀ p ∈ TOKEN_TO_CHAR, ∀ q ∈ TOKEN_TO_CHAR,
    q.1.head?.any (· ∈ follow p.2) = true ↔ Merges p.2 q.2 := by
  decide +kernel

/-- What stands after a token in a longer one. -/
theorem longer_token : ∀ p ∈ TOKEN_TO_CHAR, ∀ v ∈ TOKEN_ORDER, p.1 <+: v → p.1 ≠ v →
    ((v.drop p.1.length).take 2).any (· ∈ markLetters) = true ∨
      ((v.drop p.1.length).head?.any (· ∈ follow p.2) = true ∧
        (v.drop p.1.length).all (· ≠ cp '-') = true) := by
  decide +kernel

theorem front_unmarked : ∀ t ∈ TOKEN_ORDER, (t.take 2).any (· ∈ markLetters) = false := by
  decide

theorem tail_token : ∀ t ∈ TOKEN_ORDER, t.head? ≠ some (cp '-') → t.tail =
    [] ∨ t.tail ∈ TOKEN_ORDER := by
  decide

/-! ## What stands in front of a spelled text -/

/-- Texts spelled in tokens. -/
def Spelled (tokens : List Str) : Prop := ∀ t ∈ tokens, t ∈ TOKEN_ORDER

theorem spelled_cons {t : Str} {tokens : List Str} :
    Spelled (t :: tokens) ↔ t ∈ TOKEN_ORDER ∧ Spelled tokens :=
  List.forall_mem_cons

/-- A mark's letter is never among the first two characters. -/
theorem unmarked {tokens : List Str} (h : Spelled tokens) {s : Str} (front : s <+: tokens.flatten) :
    (s.take 2).any (· ∈ markLetters) = false := by
  have whole : (tokens.flatten.take 2).any (· ∈ markLetters) = false := by
    clear front
    induction tokens with
    | nil => rfl
    | cons t tokens ih =>
      obtain ⟨mem, h⟩ := spelled_cons.mp h
      have some_char := List.length_pos_of_ne_nil (spelled t mem).1
      rw [List.flatten_cons, List.take_append, List.any_append, front_unmarked t mem,
        Bool.false_or, List.any_eq_false]
      intro c here
      exact List.any_eq_false.mp (ih h) c
        ((List.take_sublist_take_left (by omega)).subset here)
  rw [List.any_eq_false] at whole ⊢
  intro c here
  have shorter : s.take 2 <+: tokens.flatten.take 2 := List.IsPrefix.take front 2
  exact whole c (shorter.subset here)

/-- Without its first characters, where none is a dash, a spelled text is still
one. -/
theorem spelled_drop {s rest : Str} (dashless : s.all (· ≠ cp '-') = true) {tokens : List Str}
    (h : Spelled tokens) (same : tokens.flatten = s ++ rest) :
    ∃ tokens', Spelled tokens' ∧ tokens'.flatten = rest := by
  induction s generalizing tokens with
  | nil => exact ⟨tokens, h, same⟩
  | cons c s ih =>
    rw [List.all_cons, Bool.and_eq_true, decide_eq_true_eq] at dashless
    cases tokens with
    | nil => cases same
    | cons t tokens =>
      obtain ⟨mem, later⟩ := spelled_cons.mp h
      obtain ⟨d, tail, rfl⟩ := List.exists_cons_of_ne_nil (spelled t mem).1
      rw [List.flatten_cons, List.cons_append, List.cons_append, List.cons.injEq] at same
      obtain ⟨rfl, same⟩ := same
      rcases tail_token _ mem (by simpa using dashless.1) with empty | token
      · have gone : tail = [] := empty
        rw [gone, List.nil_append] at same
        exact ih dashless.2 later same
      · exact ih dashless.2 (spelled_cons.mpr ⟨token, later⟩) same

/-! ## The longest match -/

theorem nonempty_sorted : ∀ w ∈ SORTED_TOKENS, w ≠ [] := fun w mem =>
  (spelled w (mem_sorted.mp mem)).1

/-- A token is found in front of the next, unless the two merge. -/
theorem first_token_iff {p q : Str × CodePoint} (hp : p ∈ TOKEN_TO_CHAR) (hq : q ∈ TOKEN_TO_CHAR)
    {tokens : List Str} (h : Spelled tokens) :
    first SORTED_TOKENS (p.1 ++ (q.1 ++ tokens.flatten)) = some p.1 ↔ ¬ Merges p.2 q.2 := by
  have mem : p.1 ∈ TOKEN_ORDER := List.mem_map_of_mem hp
  have mem' : q.1 ∈ TOKEN_ORDER := List.mem_map_of_mem hq
  obtain ⟨c, tail, head⟩ := List.exists_cons_of_ne_nil (spelled q.1 mem').1
  rw [LongestMatch.first_append_iff sorted_pairwise (mem_sorted.mpr mem), ← follow_iff p hp q hq,
    head, List.head?_cons, Option.any_some, decide_eq_true_eq]
  constructor
  · intro alone followed
    have longer := List.all_eq_true.mp (follow_token p hp) c followed
    exact alone [c] (List.cons_ne_nil c []) (mem_sorted.mpr (of_decide_eq_true longer))
      ⟨tail ++ tokens.flatten, rfl⟩
  · intro other s nonempty longer front
    have apart : p.1 ≠ p.1 ++ s := fun same => nonempty (List.self_eq_append_right.mp same)
    have cases_ := longer_token p hp _ (mem_sorted.mp longer) (List.prefix_append p.1 s) apart
    rw [List.drop_left] at cases_
    rcases cases_ with marked | ⟨followed, -⟩
    · have plain := unmarked (spelled_cons.mpr ⟨mem', h⟩) (s := s) (by
        rw [List.flatten_cons, head]
        exact front)
      rw [marked] at plain
      cases plain
    · obtain ⟨d, s, rfl⟩ := List.exists_cons_of_ne_nil nonempty
      rw [List.cons_append, List.cons_prefix_cons] at front
      rw [List.head?_cons, Option.any_some, decide_eq_true_eq, front.1] at followed
      exact other followed

/-- Tokens are read back from their text where no two neighbours merge. -/
theorem aligned_iff {entries : List (Str × CodePoint)} (all : ∀ p ∈ entries, p ∈ TOKEN_TO_CHAR) :
    Aligned SORTED_TOKENS (entries.map Prod.fst) ↔
      (entries.map Prod.snd).IsChain fun a b => ¬ Merges a b := by
  induction entries with
  | nil => simp [Aligned]
  | cons p entries ih =>
    rw [List.forall_mem_cons] at all
    have mem : p.1 ∈ SORTED_TOKENS := mem_sorted.mpr (List.mem_map_of_mem all.1)
    cases entries with
    | nil =>
      have alone : first SORTED_TOKENS (p.1 ++ []) = some p.1 := by
        rw [LongestMatch.first_append_iff sorted_pairwise mem]
        intro s nonempty _ front
        exact nonempty (List.prefix_nil.mp front)
      rw [List.append_nil] at alone
      simp [Aligned, alone]
    | cons q entries =>
      have later : Spelled (entries.map Prod.fst) := by
        intro t here
        obtain ⟨r, there, rfl⟩ := List.mem_map.mp here
        exact List.mem_map_of_mem (all.2 r (List.mem_cons_of_mem q there))
      have pair := first_token_iff all.1 (all.2 q List.mem_cons_self) later
      simp only [List.map_cons] at ih ⊢
      rw [List.isChain_cons_cons, ← pair, Aligned, ih all.2, List.flatten_cons]

/-- Whatever is spelled in tokens is read. -/
theorem scan_spelled {tokens : List Str} (h : Spelled tokens) :
    ∃ read, scan SORTED_TOKENS 0 0 tokens.flatten = .ok read := by
  apply LongestMatch.scan_total nonempty_sorted
    (P := fun code => ∃ tokens, Spelled tokens ∧ tokens.flatten = code)
  · rintro c code ⟨tokens, h, same⟩
    cases tokens with
    | nil => cases same
    | cons t tokens =>
      obtain ⟨mem, later⟩ := spelled_cons.mp h
      obtain ⟨p, entry, rfl⟩ := List.mem_map.mp mem
      have front : p.1 <+: c :: code := ⟨tokens.flatten, same⟩
      obtain ⟨w, found⟩ := LongestMatch.exists_first (mem_sorted.mpr mem) front
      obtain ⟨here, ⟨rest, whole⟩, longest⟩ :=
        (LongestMatch.first_eq_some_iff sorted_pairwise).mp found
      refine ⟨w, rest, whole.symm, whole.symm ▸ found, ?_⟩
      obtain ⟨s, rfl⟩ := List.prefix_of_prefix_length_le front ⟨rest, whole⟩
        (longest _ (mem_sorted.mpr mem) front)
      rw [← same, List.flatten_cons, List.append_assoc, List.append_cancel_left_eq] at whole
      by_cases empty : s = []
      · exact ⟨tokens, later, by rw [← whole, empty]; rfl⟩
      · have apart : p.1 ≠ p.1 ++ s := fun same => empty (List.self_eq_append_right.mp same)
        have cases_ := longer_token p entry _ (mem_sorted.mp here) (List.prefix_append _ s) apart
        rw [List.drop_left] at cases_
        rcases cases_ with marked | ⟨-, dashless⟩
        · rw [unmarked later ⟨rest, whole⟩] at marked
          cases marked
        · exact spelled_drop dashless later whole.symm
  · exact ⟨tokens, h, rfl⟩

/-! ## The functions -/

theorem known_eq_ok {message : String} {tokens : List Str} :
    known message tokens = .ok () ↔ Spelled tokens := by
  have none : tokens.filter (· ∉ TOKEN_ORDER) = [] ↔ Spelled tokens := by
    rw [List.filter_eq_nil_iff]
    simp [Spelled]
  rw [known, ← none]
  by_cases empty : tokens.filter (· ∉ TOKEN_ORDER) = [] <;> simp

theorem untokenize_spelled {tokens : List Str} (h : Spelled tokens) :
    untokenize_bry tokens = .ok tokens.flatten := by
  rw [untokenize_bry, known_eq_ok.mpr h]
  rfl

theorem render_spelled {tokens : List Str} (h : Spelled tokens) :
    render_human_bry tokens = .ok (Py.join HUMAN_SEPARATOR tokens) := by
  rw [render_human_bry, known_eq_ok.mpr h]
  rfl

/-- Serialized tokens are read back. -/
theorem bytes_to_tokens_of {tokens : List Str} {bytes : Bytes}
    (h : tokens_to_bytes tokens = .ok bytes) : bytes_to_tokens bytes = .ok tokens := by
  obtain ⟨⟨⟩, valid, same⟩ := bind_eq_ok.mp h
  have spelled_ := known_eq_ok.mp valid
  cases same
  have back : ∀ t ∈ tokens,
      TOKEN_ORDER[(UInt8.ofNat (TOKEN_ORDER.idxOf t)).toNat]? = some t := by
    intro t mem
    have bound : TOKEN_ORDER.idxOf t < 32 := List.idxOf_lt_length_of_mem (spelled_ t mem)
    rw [UInt8.toNat_ofNat', Nat.mod_eq_of_lt (by omega)]
    exact List.getElem?_idxOf (spelled_ t mem)
  rw [bytes_to_tokens, if_neg, List.filterMap_map]
  · congr 1
    exact (List.filterMap_congr back).trans List.filterMap_some
  · rw [not_not, List.filter_eq_nil_iff]
    intro value here
    obtain ⟨t, mem, rfl⟩ := List.mem_map.mp here
    rw [back t mem]
    exact Bool.false_ne_true

/-- Whatever is spelled has no white space. -/
theorem compact_spelled {tokens : List Str} (h : Spelled tokens) :
    tokens.flatten.filter (!Py.isSpace ·) = tokens.flatten := by
  rw [List.filter_eq_self]
  intro c mem
  obtain ⟨t, here, inside⟩ := List.mem_flatten.mp mem
  have solid := List.all_eq_true.mp (spelled t (h t here)).2 c inside
  exact (Bool.and_eq_true_iff.mp solid).1

theorem longestMatch_spelled {tokens read : List Str} (h : Spelled tokens) (message : String) :
    longestMatch message tokens.flatten = .ok read ↔
      scan SORTED_TOKENS 0 0 tokens.flatten = .ok read := by
  rw [longestMatch, compact_spelled h]
  cases scan SORTED_TOKENS 0 0 tokens.flatten <;> simp

theorem mem_token {t : Str} (mem : t ∈ TOKEN_ORDER) {c : CodePoint} (inside : c ∈ t) :
    Py.isSpace c = false ∧ c ≠ HUMAN_SEPARATOR := by
  simpa using List.all_eq_true.mp (spelled t mem).2 c inside

/-- What is rendered is parsed back: as nothing, as one token, or as several between
bars. -/
theorem parse_rendered {tokens : List Str} (h : Spelled tokens) :
    parse_bry_input (Py.join HUMAN_SEPARATOR tokens) = .ok tokens := by
  cases tokens with
  | nil => decide
  | cons t tokens =>
    have mem := (spelled_cons.mp h).1
    cases tokens with
    | nil =>
      obtain ⟨p, entry, rfl⟩ := List.mem_map.mp mem
      have whole : Py.join HUMAN_SEPARATOR [p.1] = [p.1].flatten := by
        rw [Py.join, List.intercalate_singleton, List.flatten_cons, List.flatten_nil,
          List.append_nil]
      have alone : Aligned SORTED_TOKENS ([p].map Prod.fst) := by
        rw [aligned_iff (List.forall_mem_singleton.mpr entry)]
        exact .singleton p.2
      have read := (LongestMatch.scan_flatten_iff nonempty_sorted 0 fun w here =>
        mem_sorted.mpr (h w here)).mpr alone
      rw [parse_bry_input, if_neg, tokenize_bry, whole]
      · exact (longestMatch_spelled h _).mpr read
      · intro bar
        rw [Py.join, List.intercalate_singleton] at bar
        exact (mem_token mem bar).2 rfl
    | cons t' tokens =>
      have bar : HUMAN_SEPARATOR ∈ Py.join HUMAN_SEPARATOR (t :: t' :: tokens) := by
        rw [Py.join_cons_cons]
        exact List.mem_append_right t List.mem_cons_self
      have solid : ∀ c ∈ Py.join HUMAN_SEPARATOR (t :: t' :: tokens), Py.isSpace c = false := by
        intro c inside
        rcases Py.mem_join inside with rfl | ⟨u, here, inside⟩
        · decide
        · exact (mem_token (h u here) inside).1
      have items : (t :: t' :: tokens).map Py.strip = t :: t' :: tokens := by
        refine (List.map_congr_left fun u here => ?_).trans (List.map_id _)
        exact Py.strip_eq_self fun c inside => (mem_token (h u here) inside).1
      rw [parse_bry_input, if_pos bar, parse_human_bry, Py.strip_eq_self solid,
        if_neg (List.ne_nil_of_mem bar), Py.split_join _ (List.cons_ne_nil t _), items, if_neg,
        known_eq_ok.mpr h]
      · rfl
      · intro empty
        exact (spelled [] (h [] empty)).1 rfl
      · intro u here inside
        exact (mem_token (h u here) inside).2 rfl

/-! ## Plaintext -/

/-- A plaintext in canonical form, as entries of the table. -/
def Entries (entries : List (Str × CodePoint)) : Prop := ∀ p ∈ entries, p ∈ TOKEN_TO_CHAR

theorem Entries.spelled {entries : List (Str × CodePoint)} (h : Entries entries) :
    Spelled (entries.map Prod.fst) := by
  intro t here
  obtain ⟨p, mem, rfl⟩ := List.mem_map.mp here
  exact List.mem_map_of_mem (h p mem)

theorem normalize_known {ch c : CodePoint} (h : normalize ch = .ok c) :
    ∃ p ∈ TOKEN_TO_CHAR, p.2 = c := by
  rw [normalize] at h
  split at h
  · cases h
    exact ⟨(py "-", cp ' '), by decide, rfl⟩
  · split at h
    · rename_i found
      cases h
      obtain ⟨token, found⟩ := Option.isSome_iff_exists.mp found
      obtain ⟨front, rest, whole, -⟩ := List.lookup_eq_some_iff.mp found
      have here : (upper ch, token) ∈ TOKEN_TO_CHAR.map Prod.swap := by
        rw [← CHAR_TO_TOKEN, whole]
        exact List.mem_append_right front List.mem_cons_self
      obtain ⟨p, mem, same⟩ := List.mem_map.mp here
      exact ⟨p, mem, congrArg Prod.fst same⟩
    · cases h

theorem exists_entries {text normalized : Str} (h : normalize_plaintext text = .ok normalized) :
    ∃ entries, Entries entries ∧ entries.map Prod.snd = normalized := by
  have turns := mapM_eq_ok.mp h
  clear h
  induction turns with
  | nil => exact ⟨[], nofun, rfl⟩
  | cons first _ ih =>
    obtain ⟨p, mem, rfl⟩ := normalize_known first
    obtain ⟨entries, all, rfl⟩ := ih
    exact ⟨p :: entries, List.forall_mem_cons.mpr ⟨mem, all⟩, rfl⟩

theorem encode_entries {entries : List (Str × CodePoint)} (h : Entries entries) :
    encode_to_bry (entries.map Prod.snd) = .ok (entries.map Prod.fst).flatten := by
  have canonical : normalize_plaintext (entries.map Prod.snd) = .ok (entries.map Prod.snd) := by
    rw [normalize_plaintext, mapM_eq_ok, List.forall₂_same]
    intro c here
    obtain ⟨p, mem, rfl⟩ := List.mem_map.mp here
    exact (entry p (h p mem)).2.2
  have tokens : (entries.map Prod.snd).map tokenOf = entries.map Prod.fst := by
    rw [List.map_map]
    exact List.map_congr_left fun p mem => (entry p (h p mem)).1
  rw [encode_to_bry, canonical, ok_bind, List.flatMap, tokens]
  rfl

theorem tokens_of_chars {tokens : List Str} (h : Spelled tokens) :
    (tokens.map charOf).map tokenOf = tokens := by
  rw [List.map_map]
  refine (List.map_congr_left fun t mem => ?_).trans (List.map_id tokens)
  obtain ⟨p, here, rfl⟩ := List.mem_map.mp (h t mem)
  rw [Function.comp_apply, (entry p here).2.1, (entry p here).1]
  rfl

/-- Reading a spelled text. -/
theorem exists_read {tokens : List Str} (h : Spelled tokens) : ∃ read, Spelled read ∧
    read.flatten = tokens.flatten ∧ scan SORTED_TOKENS 0 0 tokens.flatten = .ok read ∧
    decode_from_bry tokens.flatten = .ok (read.map charOf) := by
  obtain ⟨read, found⟩ := scan_spelled h
  obtain ⟨same, mem, -⟩ := LongestMatch.scan_eq_ok nonempty_sorted found
  refine ⟨read, fun t here => mem_sorted.mp (mem t here), same, found, ?_⟩
  rw [decode_from_bry, (longestMatch_spelled h _).mpr found]
  rfl

/-- Texts that decode to the same plaintext are the same. -/
theorem decode_eq_iff {tokens tokens' : List Str} (h : Spelled tokens) (h' : Spelled tokens') :
    decode_from_bry tokens.flatten = decode_from_bry tokens'.flatten ↔
      tokens.flatten = tokens'.flatten := by
  constructor
  · intro same
    obtain ⟨read, known, flat, -, decoded⟩ := exists_read h
    obtain ⟨read', known', flat', -, decoded'⟩ := exists_read h'
    rw [decoded, decoded', Except.ok.injEq] at same
    rw [← flat, ← flat', ← tokens_of_chars known, ← tokens_of_chars known', same]
  · intro same
    rw [same]

/-- The text of a plaintext decodes to it where no two neighbours merge. -/
theorem decode_encoded_iff {entries : List (Str × CodePoint)} (h : Entries entries) :
    decode_from_bry (entries.map Prod.fst).flatten = .ok (entries.map Prod.snd) ↔
      (entries.map Prod.snd).IsChain fun a b => ¬ Merges a b := by
  obtain ⟨read, known, flat, found, decoded⟩ := exists_read h.spelled
  have chars : (entries.map Prod.fst).map charOf = entries.map Prod.snd := by
    rw [List.map_map]
    exact List.map_congr_left fun p mem => (entry p (h p mem)).2.1
  rw [← aligned_iff h, ← LongestMatch.scan_flatten_iff nonempty_sorted 0 fun w mem =>
    mem_sorted.mpr (h.spelled w mem), found, decoded, Except.ok.injEq, Except.ok.injEq]
  constructor
  · intro same
    rw [← tokens_of_chars known, same, ← chars, tokens_of_chars h.spelled]
  · rintro rfl
    exact chars

/-! ## Unique decoding -/

/-- The compact text of a plaintext decodes to it and falls into the tokens of its
characters exactly where no two neighbours merge. -/
theorem compact_code_decodes_iff {text normalized : Str}
    (h : normalize_plaintext text = .ok normalized) :
    (∃ code, encode_to_bry text = .ok code ∧ decode_from_bry code = .ok normalized ∧
      tokenize_bry code = .ok (normalized.map tokenOf)) ↔
    normalized.IsChain fun a b => ¬ Merges a b := by
  obtain ⟨entries, all, rfl⟩ := exists_entries h
  have tokens : (entries.map Prod.snd).map tokenOf = entries.map Prod.fst := by
    rw [List.map_map]
    exact List.map_congr_left fun p mem => (entry p (all p mem)).1
  have encoded : encode_to_bry text = .ok (entries.map Prod.fst).flatten := by
    rw [encode_to_bry, h, ok_bind, List.flatMap, tokens]
    rfl
  rw [← decode_encoded_iff all, encoded, tokens]
  constructor
  · rintro ⟨code, same, decoded, -⟩
    cases same
    exact decoded
  · intro decoded
    refine ⟨_, rfl, decoded, ?_⟩
    rw [tokenize_bry, longestMatch_spelled all.spelled, LongestMatch.scan_flatten_iff
      nonempty_sorted 0 fun w mem => mem_sorted.mpr (all.spelled w mem), aligned_iff all]
    exact (decode_encoded_iff all).mp decoded

theorem compact_code_decodes_hello :
    ∃ code, encode_to_bry (py "Hello, Tom") = .ok code ∧
      decode_from_bry code = .ok (py "HELLO, TOM") ∧
      tokenize_bry code = .ok ((py "HELLO, TOM").map tokenOf) :=
  (compact_code_decodes_iff (by decide)).mpr
    (show (py "HELLO, TOM").IsChain fun a b => ¬ Merges a b by decide)

/-- The code of JA is that of K. -/
theorem ja_decodes_as_k : ¬ ∀ text normalized, normalize_plaintext text = .ok normalized →
    ∃ code, encode_to_bry text = .ok code ∧ decode_from_bry code = .ok normalized ∧
      tokenize_bry code = .ok (normalized.map tokenOf) := by
  intro all
  obtain ⟨code, encoded, decoded, -⟩ := all (py "JA") (py "JA") (by decide)
  have same : encode_to_bry (py "JA") = .ok (py "+1") := by decide
  cases encoded.symm.trans same
  have other : decode_from_bry (py "+1") = .ok (py "K") := by decide
  exact absurd (decoded.symm.trans other) (by decide)

end Qev.Bry
