import Qev.Ui.Decrypt
import Qev.Web.Decrypt

/-! Base64url as the three copies of `decryptVaultV2` read it: the desktop reads
least, the command line most, and nobody reads anything differently. -/

namespace Qev

open Js (JsString)

/-- The padding character is not of the alphabet. -/
theorem not_isB64url_padding : Cli.isB64url (Js.ascii '=') = false := by decide

theorem rdropWhile_append_padding (s : JsString) (n : Nat) :
    (s ++ List.replicate n (Js.ascii '=')).rdropWhile (· = Js.ascii '=') =
      s.rdropWhile (· = Js.ascii '=') := by
  induction n with
  | zero => rw [List.replicate_zero, List.append_nil]
  | succ n ih =>
    rw [List.replicate_succ', ← List.append_assoc, List.rdropWhile_concat_pos _ _ _ (by simp), ih]

theorem rdropWhile_alphabet {s : JsString} (h : s.all Cli.isB64url = true) :
    s.rdropWhile (· = Js.ascii '=') = s := by
  rw [List.rdropWhile_eq_self_iff]
  intro nonempty
  have last := List.all_eq_true.mp h _ (List.getLast_mem nonempty)
  simp only [decide_eq_true_eq]
  intro padding
  rw [padding, not_isB64url_padding] at last
  cases last

theorem dropPadding_spec (data : JsString) :
    ∃ n, data = Web.dropPadding data ++ List.replicate n (Js.ascii '=') := by
  rw [Web.dropPadding]
  split
  · rename_i last
    obtain ⟨front, rfl⟩ := List.getLast?_eq_some_iff.mp last
    exact ⟨1, by rw [List.dropLast_concat]; rfl⟩
  · exact ⟨0, by simp⟩

theorem rdropWhile_dropPadding (data : JsString) :
    (Web.dropPadding data).rdropWhile (· = Js.ascii '=') =
      data.rdropWhile (· = Js.ascii '=') := by
  obtain ⟨n, same⟩ := dropPadding_spec data
  conv_rhs => rw [same, rdropWhile_append_padding]

/-- What the web decodes, the command line decodes to the same bytes. -/
theorem cli_of_web {s : JsString} {bytes : Bytes} (h : Web.b64urlDecode (.str s) = .ok bytes) :
    Cli.b64urlDecode s = .ok bytes := by
  rw [Web.b64urlDecode] at h
  split at h
  · cases h
  split at h
  · cases h
  rename_i decoded
  cases h
  have body : ∀ data : JsString,
      data.rdropWhile (· = Js.ascii '=') = s.rdropWhile (· = Js.ascii '=') →
      (Cli.b64urlChars data).bind Base64.decode = some bytes →
      Cli.b64urlDecode s = .ok bytes := by
    intro data same found
    obtain ⟨cs, chars, read⟩ := Option.bind_eq_some_iff.mp found
    have plain : data.all Cli.isB64url = true := by
      rw [Cli.b64urlChars] at chars
      split at chars
      · assumption
      · cases chars
    rw [Cli.b64urlDecode, ← same, rdropWhile_alphabet plain, found]
  have stripped : (Web.padded s).rdropWhile (· = Js.ascii '=') =
      s.rdropWhile (· = Js.ascii '=') := by
    rw [Web.padded]
    split
    · rfl
    · exact rdropWhile_append_padding _ _
  by_cases whole : (Web.padded s).length % 4 = 0
  · simp only [Web.atob, whole, if_true] at decoded
    split at decoded
    · cases decoded
    · exact body _ (by rw [rdropWhile_dropPadding, rdropWhile_dropPadding, stripped]) decoded
  · simp only [Web.atob, whole, if_false] at decoded
    split at decoded
    · cases decoded
    · exact body _ stripped decoded

theorem dropPadding_alphabet {s : JsString} (h : s.all Cli.isB64url = true) :
    Web.dropPadding s = s := by
  rw [Web.dropPadding, if_neg]
  intro last
  have plain := List.all_eq_true.mp h _ (List.mem_of_getLast? last)
  rw [not_isB64url_padding] at plain
  cases plain

theorem dropPadding_concat (s : JsString) : Web.dropPadding (s ++ [Js.ascii '=']) = s := by
  rw [Web.dropPadding, if_pos List.getLast?_concat, List.dropLast_concat]

/-- Text of the alphabet with a possible length is read without its padding. -/
theorem atob_padded {s : JsString} (h : s.all Cli.isB64url = true) (length : s.length % 4 ≠ 1) :
    Web.atob (Web.padded s) = (Cli.b64urlChars s).bind Base64.decode := by
  have plain := dropPadding_alphabet h
  have once := dropPadding_concat s
  have twice : Web.dropPadding (Web.dropPadding (s ++ [Js.ascii '=', Js.ascii '='])) = s := by
    have two := dropPadding_concat (s ++ [Js.ascii '='])
    rw [List.append_assoc] at two
    rw [List.cons_append, List.nil_append] at two
    rw [two, once]
  have cases_ : s.length % 4 = 0 ∨ s.length % 4 = 2 ∨ s.length % 4 = 3 := by omega
  rcases cases_ with whole | two | three
  · rw [Web.padded, if_pos whole, Web.atob]
    simp only [whole, if_true, plain, if_false, zero_ne_one]
  · have pad : Web.padded s = s ++ [Js.ascii '=', Js.ascii '='] := by
      rw [Web.padded, if_neg (by omega), two]
      rfl
    have whole : (s ++ [Js.ascii '=', Js.ascii '=']).length % 4 = 0 := by
      simp only [List.length_append, List.length_cons, List.length_nil]
      omega
    rw [pad, Web.atob]
    simp only [whole, if_true, twice, length, if_false]
  · have pad : Web.padded s = s ++ [Js.ascii '='] := by
      rw [Web.padded, if_neg (by omega), three]
      rfl
    have whole : (s ++ [Js.ascii '=']).length % 4 = 0 := by
      simp only [List.length_append, List.length_cons, List.length_nil]
      omega
    rw [pad, Web.atob]
    simp only [whole, if_true, once, plain, length, if_false]

/-- What the desktop decodes, the web decodes to the same bytes. -/
theorem web_of_ui {s : JsString} {bytes : Bytes} (h : Ui.b64urlDecode s = .ok bytes) :
    Web.b64urlDecode (.str s) = .ok bytes := by
  simp only [Ui.b64urlDecode] at h
  split at h
  · cases h
  rename_i decoded
  split at h
  · rename_i length
    cases h
    have body : s.takeWhile Cli.isB64url = s :=
      (List.takeWhile_prefix _).eq_of_length length
    rw [body, Base64.decodeCanonical_eq_some] at decoded
    have plain : s.all Cli.isB64url = true := by
      rw [← body]
      exact List.all_takeWhile
    have possible : s.length % 4 ≠ 1 := by
      have mod := Base64.length_encode_mod bytes
      rwa [← decoded, List.length_map] at mod
    have tested : Web.allowed s = true := by rw [Web.allowed, rdropWhile_alphabet plain, plain]
    have shown : Js.display (.str s) = s := by rw [Js.display]
    have read : Web.atob (Web.padded s) = some bytes := by
      rw [atob_padded plain possible, Cli.b64urlChars, if_pos plain, Option.bind_some, decoded,
        Base64.decode_encode]
    rw [Web.b64urlDecode, shown, if_neg (not_not.mpr tested)]
    simp only [read]
  · cases h

theorem string_of_web {value : Js.Value} {bytes : Bytes} (h : Web.b64urlDecode value = .ok bytes) :
    ∃ s, value = .str s := by
  unfold Web.b64urlDecode at h
  split at h
  · cases h
  · split at h
    · exact ⟨_, rfl⟩
    · cases h

end Qev
