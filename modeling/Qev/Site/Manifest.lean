import Qev.Lib.PythonJson
import Qev.Lib.Sha256

/-! The signer of the site: the files it finds below its directory, the manifest
it builds of them, and the record it publishes. -/

namespace Qev.Site

open Py (CodePoint Str cp py)

/-- What `rglob` finds below the directory. -/
structure Entry where
  parts : List Str
  is_file : Bool
  content : Bytes

namespace Entry

/-- The path relative to the directory. -/
def as_posix (e : Entry) : Str := Py.join (cp '/') e.parts

def name (e : Entry) : Str := e.parts.getLastD []

end Entry

structure Landing where
  is_dir : Bool
  entries : List Entry
  apart : (entries.map Entry.parts).Nodup
  /-- No name is empty or has a slash in it. -/
  named : ∀ e ∈ entries, e.parts ≠ [] ∧ ∀ part ∈ e.parts, part ≠ [] ∧ cp '/' ∉ part

/-! ## discover_site_files -/

def EXCLUDED_RELATIVE_PATHS : List Str := [py "site-integrity.json"]

def IGNORED_NAMES : List Str := [py ".DS_Store"]

def IGNORED_SUFFIXES : List Str := [py ".tmp", py ".swp", py ".bak"]

/-- The last dot of a name and what follows it, where neither comes first or last. -/
def suffix (name : Str) : Str :=
  let tail := name.rtakeWhile (· ≠ cp '.')
  if tail.length + 1 < name.length ∧ tail ≠ [] then cp '.' :: tail else []

/-- The lower case as far as it is a letter of the ignored suffixes: beside
those of ASCII the sign of kelvin has one. -/
def lower (c : CodePoint) : CodePoint :=
  if h : 65 ≤ c.val ∧ c.val ≤ 90 then ⟨c.val + 32, by omega⟩
  else if c.val = 0x212A then cp 'k'
  else c

/-- Whether the file is among those that are deployed. -/
def Entry.deployable (e : Entry) : Bool :=
  e.is_file && e.as_posix ∉ EXCLUDED_RELATIVE_PATHS &&
    !e.parts.any (fun part => part.head? = some (cp '.')) &&
    e.name ∉ IGNORED_NAMES && (suffix e.name).map lower ∉ IGNORED_SUFFIXES

def discover_site_files (landing : Landing) : Except String (List Str) :=
  if !landing.is_dir then .error "ERROR: landing directory not found: landing"
  else
    let discovered := (landing.entries.filter Entry.deployable).map Entry.as_posix
    if discovered = [] then .error "ERROR: no deployable files found under landing/"
    else .ok (discovered.mergeSort fun a b => !decide (b < a))

/-! ## build_manifest -/

def SIGNATURE_SCHEME : String := "ed25519"

/-- The text of the domain, which is signed in ASCII. -/
def SIGNATURE_DOMAIN : String := "BRY-NFET-SX|SITE-INTEGRITY|V2"

def MANIFEST_SCHEMA : String := "BRY-NFET-SX-SITE-INTEGRITY-V2"

def SITE_NAME : String := "secure.imagineqira.com"

/-- There is none where the file does not exist. -/
def sha256_file (landing : Landing) (path : Str) : Option Str :=
  (landing.entries.find? fun e => e.is_file && e.as_posix = path).map fun e =>
    py (Hex.hex (Sha256.sha256 e.content))

/-- The fields of the manifest. -/
def manifest_of (file_hashes : List (Str × Py.Value)) (public_key signed_at : Str) :
    List (Str × Py.Value) := [
  (py "schema", .str (py MANIFEST_SCHEMA)),
  (py "site", .str (py SITE_NAME)),
  (py "signed_at", .str signed_at),
  (py "file_count", .num file_hashes.length),
  (py "files", .obj file_hashes),
  (py "signer", .obj [
    (py "scheme", .str (py SIGNATURE_SCHEME)),
    (py "public_key_hex", .str public_key),
    (py "public_key_url", .str (py "https://" ++ py SITE_NAME ++ py "/site-signer.ed25519.pub")),
    (py "domain", .str (py SIGNATURE_DOMAIN))])]

/-- The manifest that is signed at the given time. -/
def build_manifest (landing : Landing) (file_names : List Str) (public_key signed_at : Str) :
    Option (List (Str × Py.Value)) := do
  let items ← file_names.mapM fun name =>
    (sha256_file landing name).map fun hash => (name, Json.str hash)
  return manifest_of (Py.dict items) public_key signed_at

/-! ## write_signed_manifest -/

def canonical_manifest_bytes (manifest : List (Str × Py.Value)) : Option Bytes :=
  Py.encode (Py.dumpsRaw (.obj manifest))

def canonical_json_note : Str :=
  py "The signed bytes are: " ++ py SIGNATURE_DOMAIN ++
    py " || json.dumps(manifest_without_signature, sort_keys=True, separators=(',', ':'), " ++
    py "ensure_ascii=False).encode('utf-8'). JavaScript verifiers recursively sort object keys " ++
    py "and call JSON.stringify with no indentation."

/-- The record of a manifest with its signature. -/
def signedRecord (manifest : List (Str × Py.Value)) (public_key : Py.Value) (signature : Bytes) :
    List (Str × Py.Value) :=
  Py.setItem (py "signature") (.obj [
    (py "algorithm", .str (py SIGNATURE_SCHEME)),
    (py "domain", .str (py SIGNATURE_DOMAIN)),
    (py "public_key_hex", public_key),
    (py "signature_hex", .str (py (Hex.hex signature))),
    (py "canonical_json_note", .str canonical_json_note)]) manifest

/-- The bytes that `sign` signs for a manifest. -/
def signed_bytes (canonical : Bytes) : Bytes := Utf8.encode SIGNATURE_DOMAIN.toList ++ canonical

/-- The bytes of the published file. -/
def write_signed_manifest (sign : Bytes → Bytes) (manifest : List (Str × Py.Value)) :
    Option Bytes := do
  let canonical ← canonical_manifest_bytes manifest
  let signer ← Json.get (py "signer") (.obj manifest)
  let public_key ← Json.get (py "public_key_hex") signer
  let record := signedRecord manifest public_key (sign (signed_bytes canonical))
  Py.encode (Py.dumpsIndented (.obj record) ++ py "\n")

/-! ## The names -/

theorem as_posix_inj (landing : Landing) : ∀ e ∈ landing.entries, ∀ e' ∈ landing.entries,
    e.as_posix = e'.as_posix → e.parts = e'.parts := by
  intro e mem e' mem' same
  obtain ⟨nonempty, solid⟩ := landing.named e mem
  obtain ⟨nonempty', solid'⟩ := landing.named e' mem'
  have back := Py.split_join (fun part h => (solid part h).2) nonempty
  have back' := Py.split_join (fun part h => (solid' part h).2) nonempty'
  rw [← back, ← back']
  exact congrArg (Py.split (cp '/')) same

/-- The names come in the order of their code points, each once. -/
theorem discovered_increasing {landing : Landing} {names : List Str}
    (discovered : discover_site_files landing = .ok names) : names.Pairwise (· < ·) := by
  rw [discover_site_files] at discovered
  dsimp only at discovered
  split_ifs at discovered
  cases discovered
  have nodup : ((landing.entries.filter Entry.deployable).map Entry.as_posix).Nodup := by
    have apart := (List.pairwise_map.mp landing.apart).filter Entry.deployable
    refine List.pairwise_map.mpr (apart.imp_of_mem fun mem mem' distinct same => distinct ?_)
    exact as_posix_inj landing _ (List.mem_of_mem_filter mem) _ (List.mem_of_mem_filter mem') same
  generalize (landing.entries.filter Entry.deployable).map Entry.as_posix = found at nodup
  have sorted : (found.mergeSort fun a b => !decide (b < a)).Pairwise fun a b =>
      (!decide (b < a)) = true := by
    apply List.pairwise_mergeSort
    · intro a b c ab bc
      simp only [Bool.not_eq_true', decide_eq_false_iff_not, not_lt] at ab bc ⊢
      exact ab.trans bc
    · intro a b
      simp only [Bool.or_eq_true, Bool.not_eq_true', decide_eq_false_iff_not, not_lt]
      exact le_total a b
  have once : (found.mergeSort fun a b => !decide (b < a)).Nodup :=
    (List.mergeSort_perm found _).nodup_iff.mpr nodup
  refine (sorted.and once).imp fun ⟨upto, distinct⟩ => ?_
  simp only [Bool.not_eq_true', decide_eq_false_iff_not, not_lt] at upto
  exact lt_of_le_of_ne upto distinct

/-- Files that are found in order. -/
theorem discover_of_increasing {landing : Landing} (is_dir : landing.is_dir = true)
    {names : List Str}
    (found : (landing.entries.filter Entry.deployable).map Entry.as_posix = names)
    (nonempty : names ≠ []) (increasing : names.Pairwise (· < ·)) :
    discover_site_files landing = .ok names := by
  have ordered : names.Pairwise fun a b => (!decide (b < a)) = true := increasing.imp fun less => by
    simp [less.le]
  simp only [discover_site_files, found, is_dir, nonempty, Bool.not_true, Bool.false_eq_true,
    if_false, List.mergeSort_of_pairwise ordered]

/-- A manifest has an item for each name, with the digits of a hash. -/
theorem build_manifest_eq_some {landing : Landing} {names : List Str} {public_key signed_at : Str}
    {manifest : List (Str × Py.Value)} (nodup : names.Nodup)
    (built : build_manifest landing names public_key signed_at = some manifest) :
    ∃ items, items.map Prod.fst = names ∧ (∀ f ∈ items, ∃ hash, f.2 = .str hash) ∧
      manifest = manifest_of items public_key signed_at := by
  rw [build_manifest, Option.bind_eq_bind, Option.bind_eq_some_iff] at built
  obtain ⟨items, each, same⟩ := built
  have shape : items.map Prod.fst = names ∧ ∀ f ∈ items, ∃ hash, f.2 = .str hash := by
    clear same nodup
    induction names generalizing items with
    | nil =>
      cases each
      exact ⟨rfl, List.forall_mem_nil _⟩
    | cons name names ih =>
      rw [List.mapM_cons, Option.bind_eq_bind, Option.bind_eq_some_iff] at each
      obtain ⟨item, here, each⟩ := each
      obtain ⟨rest, later, same⟩ := Option.bind_eq_some_iff.mp each
      cases same
      obtain ⟨hash, -, rfl⟩ := Option.map_eq_some_iff.mp here
      obtain ⟨keys, strings⟩ := ih rest later
      exact ⟨by rw [List.map_cons, keys], List.forall_mem_cons.mpr ⟨⟨hash, rfl⟩, strings⟩⟩
  cases same
  refine ⟨items, shape.1, shape.2, ?_⟩
  rw [Py.dict_of_nodup (by rw [shape.1]; exact nodup)]

end Qev.Site
