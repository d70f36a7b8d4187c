import Qev.Lib.JsSort
import Qev.Site.Manifest

/-! What a browser makes of the published record to check its signature, and
when these are the bytes that were signed. -/

namespace Qev.Site

open Js (JsString Value js)
open Py (Str cp py units)

/-! ## site-verify.js -/

/-- No string is longer. -/
def maxLength : Nat := 2 ^ 53 - 1

/-- The text of a response. -/
def responseText (body : Bytes) : JsString := Utf16.encode (Js.dropBom (Utf8.decodeLossy body))

/-- `Response.json`. -/
def responseJson (body : Bytes) : Option Value :=
  if (responseText body).length ≤ maxLength then Js.parseJson (responseText body) else none

mutual
def deepSortKeys : Value → Value
  | .arr items => .arr (deepSortItems items)
  | .obj fields => .obj (Js.putAll (deepSortFields fields))
  | v => v
def deepSortItems : List Value → List Value
  | [] => []
  | x :: xs => deepSortKeys x :: deepSortItems xs
/-- The sorted values in the order of their keys. -/
def deepSortFields : List (JsString × Value) → List (JsString × Value)
  | [] => []
  | (k, v) :: es => Json.insertField (k, deepSortKeys v) (deepSortFields es)
end

def canonicalJsonBytes (obj : Value) : Bytes :=
  Js.textEncode (Json.print Js.printer (deepSortKeys obj))

/-- A copy of the manifest with its signature deleted. -/
def manifestForSig (manifest : List (JsString × Value)) : List (JsString × Value) :=
  (Js.putAll manifest).filter fun f => f.1 ≠ js "signature"

/-- The bytes that the published file is rebuilt to. -/
def manifestBytes (file : Bytes) : Option Bytes :=
  match responseJson file with
  | some (.obj manifest) => some (canonicalJsonBytes (.obj (manifestForSig manifest)))
  | _ => none

/-! ## The record as it is read -/

theorem deepSortFields_eq (fields : List (JsString × Value)) :
    deepSortFields fields = Json.sorted (fields.map fun f => (f.1, deepSortKeys f.2)) := by
  induction fields with
  | nil => rfl
  | cons f fields ih => rw [deepSortFields, ih, List.map_cons, Json.sorted_cons]

theorem map_strings {σ ν : Type} {fields : List (σ × Json σ ν)} {g : Json σ ν → Json σ ν}
    (keeps : ∀ s, g (.str s) = .str s) (strings : ∀ f ∈ fields, ∃ s, f.2 = .str s) :
    fields.map (fun f => (f.1, g f.2)) = fields := by
  have each : ∀ f ∈ fields, (f.1, g f.2) = id f := by
    intro f mem
    obtain ⟨s, value⟩ := strings f mem
    rw [value, keeps, ← value]
    rfl
  rw [List.map_congr_left each, List.map_id]

section Record

variable {items : List (Str × Py.Value)} {public_key signed_at : Str}

/-- The fields of the manifest in the order in which they are signed. -/
def sortedManifest (files : Py.Value) (count : ℤ) (public_key signed_at : Str) : Py.Value := .obj [
  (py "file_count", .num count),
  (py "files", files),
  (py "schema", .str (py MANIFEST_SCHEMA)),
  (py "signed_at", .str signed_at),
  (py "signer", .obj [
    (py "domain", .str (py SIGNATURE_DOMAIN)),
    (py "public_key_hex", .str public_key),
    (py "public_key_url", .str (py "https://" ++ py SITE_NAME ++ py "/site-signer.ed25519.pub")),
    (py "scheme", .str (py SIGNATURE_SCHEME))]),
  (py "site", .str (py SITE_NAME))]

/-- The same fields as they are read. -/
def shownManifest (files : Value) (count : ℤ) (public_key signed_at : Str) : Value := .obj [
  (js "file_count", Py.toJs (.num count)),
  (js "files", files),
  (js "schema", .str (js MANIFEST_SCHEMA)),
  (js "signed_at", .str (units signed_at)),
  (js "signer", .obj [
    (js "domain", .str (js SIGNATURE_DOMAIN)),
    (js "public_key_hex", .str (units public_key)),
    (js "public_key_url",
      .str (units (py "https://" ++ py SITE_NAME ++ py "/site-signer.ed25519.pub"))),
    (js "scheme", .str (js SIGNATURE_SCHEME))]),
  (js "site", .str (js SITE_NAME))]

theorem sortKeys_manifest_of (strings : ∀ f ∈ items, ∃ hash, f.2 = .str hash) :
    Json.sortKeys (.obj (manifest_of items public_key signed_at)) =
      sortedManifest (.obj (Json.sorted items)) items.length public_key signed_at := by
  have files : Json.sortFields items = Json.sorted items := by
    rw [Json.sortFields_eq, map_strings (fun _ => rfl) strings]
  rw [← files]
  rfl

theorem toJs_sortedManifest (files : Py.Value) (count : ℤ) :
    Py.toJs (sortedManifest files count public_key signed_at) =
      shownManifest (Py.toJs files) count public_key signed_at := by
  rfl

/-- Reading the record and deleting its signature leaves the manifest. -/
theorem manifestForSig_record (signature : Py.Value) :
    manifestForSig (Js.assignAll (Js.objectsFields (Py.toJsFields
      (Py.setItem (py "signature") signature (manifest_of items public_key signed_at))))) =
      Js.objectsFields (Py.toJsFields (manifest_of items public_key signed_at)) := by
  rfl

theorem deepSortKeys_manifest :
    deepSortKeys
      (.obj (Js.objectsFields (Py.toJsFields (manifest_of items public_key signed_at)))) =
      shownManifest (deepSortKeys (Js.objects (Py.toJs (.obj items)))) items.length public_key
        signed_at := by
  rfl

end Record

/-! ## The files -/

section Files

variable {items : List (Str × Py.Value)} (strings : ∀ f ∈ items, ∃ hash, f.2 = .str hash)

include strings

theorem toJs_strings : ∀ f ∈ Py.toJsFields items, ∃ s, f.2 = .str s := by
  intro f mem
  rw [Py.toJsFields_eq] at mem
  obtain ⟨g, inside, rfl⟩ := List.mem_map.mp mem
  obtain ⟨hash, value⟩ := strings g inside
  exact ⟨units hash, by rw [value]; rfl⟩

theorem deepSortKeys_files : deepSortKeys (Js.objects (Py.toJs (.obj items))) =
    .obj (Js.putAll (Json.sorted (Js.assignAll (Py.toJsFields items)))) := by
  have read := toJs_strings strings
  have made : ∀ f ∈ Js.assignAll (Py.toJsFields items), ∃ s, f.2 = .str s := fun f mem =>
    read f (Js.mem_assignAll mem)
  rw [Py.toJs, Js.objects, Js.objectsFields_eq, map_strings (fun _ => rfl) read, deepSortKeys,
    deepSortFields_eq, map_strings (fun _ => rfl) made]

variable (increasing : (items.map Prod.fst).Pairwise (· < ·))
  (clean : ∀ name ∈ items.map Prod.fst, Py.Clean name)

include increasing clean

/-- When the browser has the files in the order in which they were signed. -/
theorem deepSortKeys_files_eq_iff :
    deepSortKeys (Js.objects (Py.toJs (.obj items))) = Py.toJs (.obj (Json.sorted items)) ↔
      py "__proto__" ∉ items.map Prod.fst ∧
        ((items.map Prod.fst).map units).Pairwise Js.Before := by
  have nodup : (items.map Prod.fst).Nodup := increasing.imp ne_of_lt
  have keys : (Py.toJsFields items).map Prod.fst = (items.map Prod.fst).map units := by
    rw [Py.toJsFields_eq, List.map_map, List.map_map]
    rfl
  have nodup' : ((Py.toJsFields items).map Prod.fst).Nodup := by
    rw [keys]
    exact nodup.map_on fun a ha b hb => Py.units_injective (clean a ha) (clean b hb)
  have once : ((Js.assignAll (Py.toJsFields items)).map Prod.fst).Nodup :=
    (Js.ordered_assignAll _).imp And.left
  have same : ∀ f, f ∈ Json.sorted (Js.assignAll (Py.toJsFields items)) ↔
      f ∈ Py.toJsFields items := by
    intro f
    rw [Json.mem_sorted, Js.mem_assignAll_iff nodup']
  have proto : (∀ f ∈ Py.toJsFields items, f.1 ≠ js "__proto__") ↔
      py "__proto__" ∉ items.map Prod.fst := by
    have plain : Py.Clean (py "__proto__") := Py.clean_map_cp _
    have spelt : units (py "__proto__") = js "__proto__" := Py.units_map_cp _
    rw [← List.forall_mem_map (P := fun k => k ≠ js "__proto__"), keys, ← spelt]
    constructor
    · exact fun h mem => h _ (List.mem_map_of_mem mem) rfl
    · intro h k mem same
      obtain ⟨name, inside, rfl⟩ := List.mem_map.mp mem
      exact h (Py.units_injective (clean name inside) plain same ▸ inside)
  rw [deepSortKeys_files strings, Json.sorted_eq nodup increasing fun _ => Iff.rfl, Py.toJs,
    Json.obj.injEq, Js.putAll_eq_iff (Json.pairwise_sorted once) same, proto, keys]

end Files

/-! ## The bytes -/

theorem shownManifest_inj {files files' : Value} {count : ℤ} {public_key signed_at : Str} :
    shownManifest files count public_key signed_at =
      shownManifest files' count public_key signed_at ↔ files = files' := by
  simp [shownManifest]

theorem numbers_of_strings {fields : List (JsString × Value)}
    (strings : ∀ f ∈ fields, ∃ s, f.2 = .str s) : Json.NumbersFields Js.Plain fields := by
  induction fields with
  | nil => trivial
  | cons f fields ih =>
    rw [List.forall_mem_cons] at strings
    obtain ⟨s, value⟩ := strings.1
    refine ⟨?_, ih strings.2⟩
    rw [value]
    trivial

/-- The numbers of a manifest are those beside its files. -/
theorem numbers_shownManifest {files files' : Value} {count : ℤ} {public_key signed_at : Str}
    (numbers : (shownManifest files count public_key signed_at).Numbers Js.Plain)
    (plain : files'.Numbers Js.Plain) :
    (shownManifest files' count public_key signed_at).Numbers Js.Plain :=
  ⟨numbers.1, plain, numbers.2.2⟩

section Bytes

variable {items : List (Str × Py.Value)} {public_key signed_at : Str} {bytes file : Bytes}
  {sign : Bytes → Bytes}

/-- The text of a published record is that of its fields, and a line end. -/
theorem responseText_published {record : List (Str × Py.Value)}
    (published : Py.encode (Py.dumpsIndented (.obj record) ++ py "\n") = some file) :
    responseText file = units (Py.dumpsIndented (.obj record)) ++ [0x0A] := by
  obtain ⟨cs, text, rfl⟩ := Py.encode_eq_some published
  have brace : cs.head? = some '\x7b' := by
    have first := congrArg List.head? text
    rw [List.head?_map] at first
    obtain ⟨c, here, same⟩ := Option.map_eq_some_iff.mp first.symm
    rw [here, Py.cp_injective same]
  have whole : Js.dropBom cs = cs := by
    cases cs with
    | nil => cases brace
    | cons c cs =>
      cases brace
      rfl
  rw [responseText, Utf8.decodeLossy_encode, whole, ← Py.units_map_cp, ← text, Py.units_append]
  rfl

/-- The strings of a manifest that is encoded, which is encoded by its fields
in order. -/
theorem clean_of_canonical (strings : ∀ f ∈ items, ∃ hash, f.2 = .str hash)
    (canonical : canonical_manifest_bytes (manifest_of items public_key signed_at) = some bytes) :
    (sortedManifest (.obj (Json.sorted items)) items.length public_key signed_at).Strings
      Py.Clean ∧
    bytes = Js.textEncode (units (Json.print Py.rawPrinter
      (sortedManifest (.obj (Json.sorted items)) items.length public_key signed_at))) := by
  rw [canonical_manifest_bytes, Py.dumpsRaw, sortKeys_manifest_of strings] at canonical
  obtain ⟨cs, text, rfl⟩ := Py.encode_eq_some canonical
  constructor
  · apply Py.clean_of_print
    rw [text]
    exact Py.clean_map_cp cs
  · rw [text, Py.units_map_cp, Js.textEncode, Utf16.decodeLossy_encode]

/-- The strings of a manifest and its numbers are written alike in both languages. -/
theorem legible_sortedManifest
    (clean : (sortedManifest (.obj items) items.length public_key signed_at).Strings Py.Clean)
    (strings : ∀ f ∈ items, ∃ hash, f.2 = .str hash) (few : items.length < 2 ^ 53) :
    Py.Legible (sortedManifest (.obj items) items.length public_key signed_at) := by
  have files : Json.NumbersFields Py.Exact items := by
    clear clean few
    induction items with
    | nil => trivial
    | cons f items ih =>
      rw [List.forall_mem_cons] at strings
      obtain ⟨hash, value⟩ := strings.1
      exact ⟨by rw [value]; trivial, ih strings.2⟩
  have count : Py.Exact items.length := ⟨by omega, by exact_mod_cast few⟩
  exact ⟨clean, count, files, trivial, trivial, ⟨trivial, trivial, trivial, trivial, trivial⟩,
    trivial, trivial⟩

theorem clean_signedRecord {count : ℤ} (signature : Bytes)
    (clean : (sortedManifest (.obj items) count public_key signed_at).Strings Py.Clean) :
    (Json.obj (signedRecord (manifest_of items public_key signed_at) (.str public_key)
      signature)).Strings Py.Clean := by
  obtain ⟨-, -, files, hashes, schema, schema', at_key, time, signer, identity, site, site', -⟩ :=
    clean
  obtain ⟨domain, domain', key, key', url, url', scheme, scheme', -⟩ := identity
  have note : Py.Clean canonical_json_note :=
    ((((Py.clean_py _).append (Py.clean_py _)).append (Py.clean_py _)).append
      (Py.clean_py _)).append (Py.clean_py _)
  exact ⟨schema, schema', site, site', at_key, time, Py.clean_py _, trivial, files, hashes, signer,
    ⟨scheme, scheme', key, key', url, url', domain, domain', trivial⟩, Py.clean_py _,
    ⟨Py.clean_py _, scheme', domain, domain', key, key', Py.clean_py _, Py.clean_py _,
      Py.clean_py _, note, trivial⟩, trivial⟩

/-- So is the record. -/
theorem legible_signedRecord (signature : Bytes)
    (legible : Py.Legible (sortedManifest (.obj items) items.length public_key signed_at)) :
    Py.Legible (.obj (signedRecord (manifest_of items public_key signed_at) (.str public_key)
      signature)) := by
  obtain ⟨clean, count, numbers, -⟩ := legible
  exact ⟨clean_signedRecord signature clean, trivial, trivial, trivial, count, numbers,
    ⟨trivial, trivial, trivial, trivial, trivial⟩,
    ⟨trivial, trivial, trivial, trivial, trivial, trivial⟩, trivial⟩

/-- A published file that is a string has fewer files than its text has units. -/
theorem length_lt_of_text {record : List (Str × Py.Value)}
    (files : (py "files", Json.obj items) ∈ record)
    (short : (units (Py.dumpsIndented (.obj record)) ++ [0x0A]).length ≤ maxLength) :
    items.length < 2 ^ 53 := by
  have inner : items.length ≤ (Py.pretty 1 (.obj items)).length := by
    have fields := Py.length_le_prettyFields 2 items
    simp only [Py.pretty, List.length_append, List.length_cons, Nat.reduceAdd]
    omega
  have outer : (Py.pretty 1 (.obj items)).length ≤ (Py.dumpsIndented (.obj record)).length := by
    have fields : (Py.pretty 1 (.obj items)).length ≤ (Py.prettyFields 1 record).length :=
      Py.length_pretty_le files
    simp only [Py.dumpsIndented, Py.pretty, List.length_append, List.length_cons,
      Nat.reduceAdd] at fields ⊢
    omega
  have wide := Py.length_le_units (Py.dumpsIndented (.obj record))
  rw [List.length_append, maxLength] at short
  omega

/-- The record as a browser reads it. -/
theorem responseJson_published {record : List (Str × Py.Value)}
    (published : Py.encode (Py.dumpsIndented (.obj record) ++ py "\n") = some file)
    (legible : Py.Legible (.obj record)) (short : (responseText file).length ≤ maxLength) :
    responseJson file = some (.obj (Js.assignAll (Js.objectsFields (Py.toJsFields record)))) := by
  have newline : ∀ u ∈ [(0x0A : UInt16)], Js.isSpace u = true := by
    intro u last
    obtain rfl := List.mem_singleton.mp last
    decide
  have read := Py.parseJson_dumpsIndented legible newline
  rw [← responseText_published published, Py.toJs, Js.objects] at read
  rw [responseJson, if_pos short, read]

/-- The browser rebuilds the manifest with its files as it sorts them. -/
theorem manifestBytes_published {record : List (Str × Py.Value)} {signature : Bytes}
    (is_record : record = signedRecord (manifest_of items public_key signed_at) (.str public_key)
      signature)
    (published : Py.encode (Py.dumpsIndented (.obj record) ++ py "\n") = some file)
    (legible : Py.Legible (.obj record)) (short : (responseText file).length ≤ maxLength) :
    manifestBytes file = some (Js.textEncode (Json.print Js.printer (shownManifest
      (deepSortKeys (Js.objects (Py.toJs (.obj items)))) items.length public_key signed_at))) := by
  rw [manifestBytes, responseJson_published published legible short, is_record,
    signedRecord]
  dsimp only
  rw [manifestForSig_record, canonicalJsonBytes, deepSortKeys_manifest]

/-- The record has the key of the signer that the manifest names. -/
theorem write_signed_manifest_eq (sign : Bytes → Bytes) :
    write_signed_manifest sign (manifest_of items public_key signed_at) =
      (canonical_manifest_bytes (manifest_of items public_key signed_at)).bind fun canonical =>
        Py.encode (Py.dumpsIndented (.obj (signedRecord (manifest_of items public_key signed_at)
          (.str public_key) (sign (signed_bytes canonical)))) ++ py "\n") := by
  simp [write_signed_manifest, manifest_of, Json.get]

theorem write_signed_manifest_of
    (canonical : canonical_manifest_bytes (manifest_of items public_key signed_at) = some bytes)
    (published : write_signed_manifest sign (manifest_of items public_key signed_at) = some file) :
    Py.encode (Py.dumpsIndented (.obj (signedRecord (manifest_of items public_key signed_at)
      (.str public_key) (sign (signed_bytes bytes)))) ++ py "\n") = some file := by
  rwa [write_signed_manifest_eq, canonical, Option.bind_some] at published

/-- Manifests without surrogates are signed and published. -/
theorem published_of_clean (sign : Bytes → Bytes) (strings : ∀ f ∈ items, ∃ hash, f.2 = .str hash)
    (increasing : (items.map Prod.fst).Pairwise (· < ·))
    (hashes : ∀ f ∈ items, Py.Clean f.1 ∧ f.2.Strings Py.Clean) (key : Py.Clean public_key)
    (time : Py.Clean signed_at) : ∃ bytes file,
    canonical_manifest_bytes (manifest_of items public_key signed_at) = some bytes ∧
      write_signed_manifest sign (manifest_of items public_key signed_at) = some file := by
  have in_order : Json.sorted items = items :=
    Json.sorted_eq (increasing.imp ne_of_lt) increasing fun _ => Iff.rfl
  have url : Py.Clean (py "https://" ++ py SITE_NAME ++ py "/site-signer.ed25519.pub") :=
    ((Py.clean_py _).append (Py.clean_py _)).append (Py.clean_py _)
  have clean : (sortedManifest (.obj items) items.length public_key signed_at).Strings Py.Clean :=
    ⟨Py.clean_py _, trivial, Py.clean_py _, Json.stringsFields_iff.mpr hashes, Py.clean_py _,
      Py.clean_py _, Py.clean_py _, time, Py.clean_py _, ⟨Py.clean_py _, Py.clean_py _,
        Py.clean_py _, key, Py.clean_py _, url, Py.clean_py _, Py.clean_py _, trivial⟩,
      Py.clean_py _, Py.clean_py _, trivial⟩
  obtain ⟨bytes, canonical⟩ := Py.encode_of_clean (Py.clean_print _ clean)
  have signed : Json.sortKeys (.obj (manifest_of items public_key signed_at)) =
      sortedManifest (.obj items) items.length public_key signed_at := by
    rw [sortKeys_manifest_of strings, in_order]
  rw [← signed] at canonical
  obtain ⟨file, written⟩ := Py.encode_of_clean ((Py.clean_pretty 0 _
    (clean_signedRecord (sign (signed_bytes bytes)) clean)).append (Py.clean_py "\n"))
  refine ⟨bytes, file, canonical, ?_⟩
  rw [write_signed_manifest_eq, canonical_manifest_bytes, Py.dumpsRaw, canonical, Option.bind_some,
    Py.dumpsIndented, written]

section Signed

variable (strings : ∀ f ∈ items, ∃ hash, f.2 = .str hash)
  (increasing : (items.map Prod.fst).Pairwise (· < ·))
  (canonical : canonical_manifest_bytes (manifest_of items public_key signed_at) = some bytes)
  (published : write_signed_manifest sign (manifest_of items public_key signed_at) = some file)

include strings increasing canonical

/-- The bytes that are signed, whose strings are all encoded. -/
theorem canonical_in_order :
    (sortedManifest (.obj items) items.length public_key signed_at).Strings Py.Clean ∧
      bytes = Js.textEncode (units (Json.print Py.rawPrinter
        (sortedManifest (.obj items) items.length public_key signed_at))) := by
  have nodup : (items.map Prod.fst).Nodup := increasing.imp ne_of_lt
  have in_order : Json.sorted items = items := Json.sorted_eq nodup increasing fun _ => Iff.rfl
  have signed := clean_of_canonical strings canonical
  rwa [in_order] at signed

include published

theorem legible_of_published (short : (responseText file).length ≤ maxLength) :
    Py.Legible (sortedManifest (.obj items) items.length public_key signed_at) := by
  have written := write_signed_manifest_of canonical published
  have few : items.length < 2 ^ 53 := by
    rw [responseText_published written] at short
    have files : (py "files", Json.obj items) ∈ signedRecord
        (manifest_of items public_key signed_at) (.str public_key) (sign (signed_bytes bytes)) :=
      .tail _ (.tail _ (.tail _ (.tail _ (.head _))))
    exact length_lt_of_text files short
  exact legible_sortedManifest (canonical_in_order strings increasing canonical).1 strings few

/-- A record is rebuilt to the bytes that were signed exactly where it is a
string and the browser has the files in order. -/
theorem manifestBytes_eq_iff :
    manifestBytes file = some bytes ↔ (responseText file).length ≤ maxLength ∧
      py "__proto__" ∉ items.map Prod.fst ∧
        ((items.map Prod.fst).map units).Pairwise Js.Before := by
  obtain ⟨clean, same⟩ := canonical_in_order strings increasing canonical
  have names : ∀ name ∈ items.map Prod.fst, Py.Clean name := by
    intro name mem
    obtain ⟨f, inside, rfl⟩ := List.mem_map.mp mem
    exact (Json.stringsFields_iff.mp clean.2.2.2.1 f inside).1
  have agree := deepSortKeys_files_eq_iff strings increasing names
  rw [Json.sorted_eq (increasing.imp ne_of_lt) increasing fun _ => Iff.rfl] at agree
  rcases Nat.lt_or_ge maxLength (responseText file).length with long | short
  · have unread : manifestBytes file = none := by
      rw [manifestBytes, responseJson, if_neg (Nat.not_le.mpr long)]
    rw [unread]
    constructor
    · intro h
      cases h
    · exact fun h => absurd h.1 (Nat.not_le.mpr long)
  · have legible := legible_of_published strings increasing canonical published short
    have record := legible_signedRecord (sign (signed_bytes bytes)) legible
    have written := write_signed_manifest_of canonical published
    rw [manifestBytes_published rfl written record short, Option.some_inj, same,
      Py.units_print _ legible, toJs_sortedManifest, ← agree]
    constructor
    · intro equal
      have text := Js.textEncode_injective (Js.wellFormed_print _) (Js.wellFormed_print _) equal
      have signed := Py.numbers_toJs _ legible.2
      rw [toJs_sortedManifest] at signed
      have plain : (deepSortKeys (Js.objects (Py.toJs (.obj items)))).Numbers Js.Plain := by
        rw [deepSortKeys_files strings]
        exact numbers_of_strings fun f mem =>
          toJs_strings strings f (Js.mem_assignAll (Json.mem_sorted.mp (Js.mem_of_mem_putAll mem)))
      have rebuilt := numbers_shownManifest signed plain
      exact ⟨short, shownManifest_inj.mp (Json.print_injective Js.format rebuilt signed text)⟩
    · rintro ⟨-, files⟩
      rw [files]

end Signed

end Bytes

/-- The bytes that a browser rebuilds from a published manifest are those that
were signed exactly where the file is no longer than a string can be, no file
has the name of the setter, and a browser has the names in the order of their
code points. -/
theorem canonical_bytes_agree_iff {landing : Landing} {names : List Str}
    {public_key signed_at : Str} {manifest : List (Str × Py.Value)} {bytes file : Bytes}
    {sign : Bytes → Bytes} (discovered : discover_site_files landing = .ok names)
    (built : build_manifest landing names public_key signed_at = some manifest)
    (canonical : canonical_manifest_bytes manifest = some bytes)
    (published : write_signed_manifest sign manifest = some file) :
    manifestBytes file = some bytes ↔ (responseText file).length ≤ maxLength ∧
      py "__proto__" ∉ names ∧ (names.map units).Pairwise Js.Before := by
  have increasing := discovered_increasing discovered
  obtain ⟨items, rfl, strings, rfl⟩ := build_manifest_eq_some (increasing.imp ne_of_lt) built
  exact manifestBytes_eq_iff strings increasing canonical published

/-- A site of empty files in its directory. -/
def flatSite (names : List Str) (nodup : names.Nodup)
    (named : ∀ name ∈ names, name ≠ [] ∧ cp '/' ∉ name) : Landing where
  is_dir := true
  entries := names.map fun name => ⟨[name], true, []⟩
  apart := by
    rw [List.map_map]
    exact nodup.map fun _ _ same => (List.cons.inj same).1
  named := by
    intro e mem
    obtain ⟨name, inside, rfl⟩ := List.mem_map.mp mem
    exact ⟨List.cons_ne_nil _ _, List.forall_mem_singleton.mpr (named name inside)⟩

/-- The manifest of a site of empty files. -/
def flatItems (names : List Str) : List (Str × Py.Value) :=
  names.map fun name => (name, .str (py (Hex.hex (Sha256.sha256 []))))

theorem keys_flatItems (names : List Str) : (flatItems names).map Prod.fst = names := by
  rw [flatItems, List.map_map]
  exact List.map_id names

theorem strings_flatItems (names : List Str) : ∀ f ∈ flatItems names, ∃ hash, f.2 = .str hash := by
  intro f mem
  obtain ⟨name, -, rfl⟩ := List.mem_map.mp mem
  exact ⟨_, rfl⟩

/-- Its names of characters, it is signed and published. -/
theorem published_flat (sign : Bytes → Bytes) {names : List Str}
    (increasing : names.Pairwise (· < ·))
    (clean : ∀ name ∈ names, Py.Clean name) (public_key signed_at : String) : ∃ bytes file,
    canonical_manifest_bytes (manifest_of (flatItems names) (py public_key) (py signed_at)) =
        some bytes ∧
      write_signed_manifest sign (manifest_of (flatItems names) (py public_key) (py signed_at)) =
        some file := by
  apply published_of_clean sign (strings_flatItems names)
  · rwa [keys_flatItems]
  · intro f mem
    obtain ⟨name, inside, rfl⟩ := List.mem_map.mp mem
    exact ⟨clean name inside, Py.clean_py _⟩
  · exact Py.clean_py _
  · exact Py.clean_py _

def pages : Landing := flatSite [py "index.html", py "styles.css"] (by decide)
  (by decide)

theorem canonical_bytes_agree_pages : ∃ names manifest bytes file,
    discover_site_files pages = .ok names ∧
      build_manifest pages names (py "88") (py "2026") = some manifest ∧
      canonical_manifest_bytes manifest = some bytes ∧
      write_signed_manifest (fun _ => []) manifest = some file ∧
      (manifestBytes file = some bytes ↔ (responseText file).length ≤ maxLength ∧
        py "__proto__" ∉ names ∧ (names.map units).Pairwise Js.Before) := by
  have discovered : discover_site_files pages = .ok [py "index.html", py "styles.css"] :=
    discover_of_increasing rfl (by decide) (List.cons_ne_nil _ _) (by decide)
  have built : build_manifest pages [py "index.html", py "styles.css"] (py "88") (py "2026") =
      some (manifest_of (flatItems [py "index.html", py "styles.css"]) (py "88") (py "2026")) := rfl
  obtain ⟨bytes, file, canonical, published⟩ := published_flat (fun _ => [])
    (discovered_increasing discovered) (by simp [Py.clean_py]) "88" "2026"
  exact ⟨_, _, bytes, file, discovered, built, canonical, published,
    canonical_bytes_agree_iff discovered built canonical published⟩

/-- Two files with numbers for their names, which a browser has the other way
round than they are signed. -/
def numbered : Landing := flatSite [py "10", py "9"] (by decide) (by decide)

/-- A record that a browser rebuilds to other bytes than were signed. -/
theorem canonical_bytes_of_numbered : ∃ names manifest bytes file,
    discover_site_files numbered = .ok names ∧
      build_manifest numbered names (py "88") (py "2026") = some manifest ∧
      canonical_manifest_bytes manifest = some bytes ∧
      write_signed_manifest (fun _ => []) manifest = some file ∧
      manifestBytes file ≠ some bytes := by
  have discovered : discover_site_files numbered = .ok [py "10", py "9"] :=
    discover_of_increasing rfl (by decide) (List.cons_ne_nil _ _) (by decide)
  have built : build_manifest numbered [py "10", py "9"] (py "88") (py "2026") =
      some (manifest_of (flatItems [py "10", py "9"]) (py "88") (py "2026")) := rfl
  have increasing := discovered_increasing discovered
  obtain ⟨bytes, file, canonical, published⟩ := published_flat (fun _ => []) increasing
    (by simp [Py.clean_py]) "88" "2026"
  refine ⟨_, _, bytes, file, discovered, built, canonical, published, fun same => ?_⟩
  rw [← keys_flatItems [py "10", py "9"]] at increasing
  have ordered := ((manifestBytes_eq_iff (strings_flatItems _) increasing canonical published).mp
    same).2.2
  exact absurd ordered (by decide)

end Qev.Site
