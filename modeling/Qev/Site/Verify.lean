import Qev.Site.Canonical
import Qev.Site.Nginx

/-! The check that every page of the site runs on itself (`site-verify.js`), and
when it warns of a page that is not the one that was signed. -/

namespace Qev.Site

open Js (JsString Value ascii js)
open Py (Str cp py units)

def PINNED_SIGNER_PUBKEY_HEX : String :=
  "881de4e7616992f92013b84ba1bbd08280a007b491bde28a46d8a15612d1d326"

/-- The key of the manifest for the path of a page. -/
def manifestKeyForLocation (pathname : JsString) : JsString :=
  if pathname = js "/" ∨ pathname = [] then js "index.html"
  else
    let stripped := if pathname.head? = some (ascii '/') then pathname.tail else pathname
    if stripped.getLast? = some (ascii '/') then stripped ++ js "index.html"
    else if ascii '.' ∉ stripped then stripped ++ js ".html"
    else stripped

/-! ## Hexadecimal digits of a signature -/

/-- White space and line ends of ECMAScript. -/
def isStrSpace (u : UInt16) : Bool :=
  (9 ≤ u && u ≤ 13) || u ∈ [0x20, 0xA0, 0x1680, 0x2028, 0x2029, 0x202F, 0x205F, 0x3000, 0xFEFF] ||
    (0x2000 ≤ u && u ≤ 0x200A)

/-- `parseInt` in radix sixteen, of which a byte is kept; no digits make a zero. -/
def parseByte (s : JsString) : UInt8 :=
  let s := s.dropWhile isStrSpace
  let negative := s.head? = some (ascii '-')
  let s := if negative ∨ s.head? = some (ascii '+') then s.tail else s
  let s := if s.take 2 = js "0x" ∨ s.take 2 = js "0X" then s.drop 2 else s
  let digits := (s.takeWhile fun u => (Js.hexVal u).isSome).filterMap Js.hexVal
  let n := digits.foldl (fun n d => 16 * n + d) 0
  if negative then UInt8.ofNat (256 - n % 256) else UInt8.ofNat n

/-- The first of every two, and the one after. -/
def pairs {α : Type} : List α → List (List α)
  | a :: b :: rest => [a, b] :: pairs rest
  | _ => []

def textBytes (s : JsString) : Bytes := (pairs s).map parseByte

/-- The digits, the point and the exponent of a number in a text. -/
def readDecimal (cs : List Char) : Option ℚ :=
  let int := cs.takeWhile Char.isDigit
  let rest := cs.dropWhile Char.isDigit
  let (frac, rest) := match rest with
    | '.' :: rest => (rest.takeWhile Char.isDigit, rest.dropWhile Char.isDigit)
    | rest => ([], rest)
  if int = [] ∧ frac = [] then none
  else (Double.readExponent rest).map fun e => Double.numeral (int ++ frac) (e - frac.length)

def readSigned (negative : Bool) (cs : List Char) : Double :=
  if cs = "Infinity".toList then .infinity negative
  else (readDecimal cs).elim .nan (Double.ofMagnitude negative)

/-- The number of a text in radix sixteen, eight or two. -/
def readRadix (radix : Nat) (digits : JsString) : Double :=
  if digits ≠ [] ∧ digits.all fun u => (Js.hexVal u).any (· < radix) then
    .ofNat ((digits.filterMap Js.hexVal).foldl (fun n d => radix * n + d) 0)
  else .nan

/-- `ToNumber` of a text. -/
def textToNumber (s : JsString) : Double :=
  let s := (s.dropWhile isStrSpace).rdropWhile isStrSpace
  if s.take 2 = js "0x" ∨ s.take 2 = js "0X" then readRadix 16 (s.drop 2)
  else if s.take 2 = js "0o" ∨ s.take 2 = js "0O" then readRadix 8 (s.drop 2)
  else if s.take 2 = js "0b" ∨ s.take 2 = js "0B" then readRadix 2 (s.drop 2)
  else
    match Utf16.decodeLossy s with
    | [] => .ofNat 0
    | '-' :: cs => readSigned true cs
    | '+' :: cs => readSigned false cs
    | cs => readSigned false cs

def toNumber : Option Value → Double
  | some .null => .ofNat 0
  | some (.bool b) => .ofNat b.toNat
  | some (.num x) => x
  | some (.str s) => textToNumber s
  | some (.arr items) => textToNumber (Js.display (.arr items))
  | some (.obj _) | none => .nan

/-- Of what is neither text nor a list no bytes come; where an object has a length
that makes one, it throws, for it has no `slice`. -/
def hexToBytes : Value → Option Bytes
  | .str s => some (textBytes s)
  | .arr items => some ((pairs items).map fun pair => parseByte (Js.display (.arr pair)))
  | .obj fields =>
    let length := toNumber (Json.get (js "length") (.obj fields))
    if length = .nan ∨ length.gt (-2) ∧ length.lt 2 then some [] else none
  | _ => some []

/-! ## What is shown -/

/-- A message is given unless it is the engine's own. -/
inductive Banner where
  | no_manifest (message : Option JsString)
  | unknown_schema (schema : Option Value)
  | other_signer
  | no_ed25519
  | bad_signature
  | no_page (message : JsString)
  | other_hash (expected : Value) (actual : JsString)

/-- The reason that a banner gives. -/
def Banner.reason : Banner → JsString
  | .no_manifest _ => js "Could not fetch /site-integrity.json"
  | .unknown_schema schema =>
    js "Manifest schema unknown: " ++ (schema.elim (js "undefined") Js.display)
  | .other_signer => js "Manifest signer key doesn't match the pinned key."
  | .no_ed25519 => js "Browser doesn't support Ed25519 signature verification."
  | .bad_signature => js "Manifest signature verification FAILED."
  | .no_page _ => js "Could not fetch this page for self-hash check."
  | .other_hash _ _ => js "Page hash mismatch."

/-- How a run of `verify` ends. `badge` says whether the verified badge shows. -/
inductive Outcome where
  | strict_csp_notice
  | tampered (banner : Banner)
  | skipped (key : JsString) (badge : Bool)
  | verified (key : JsString) (badge : Bool)
  | threw

/-- A path without the slash at its end. -/
def withoutSlash (pathname : JsString) : JsString :=
  if pathname.getLast? = some (ascii '/') then pathname.dropLast else pathname

def STRICT_CSP_PREFIXES : List JsString := []

def hasStrictCsp (pathname : JsString) : Bool :=
  let p := withoutSlash pathname
  STRICT_CSP_PREFIXES.any fun pfx => p = pfx || (pfx ++ js "/").isPrefixOf p

def showVerifiedBadge (pathname : JsString) : Bool := withoutSlash pathname = js "/verify"

/-! ## verify -/

/-- `crypto.subtle.verify` with Ed25519, of a key, a signature and what it
signs. There is no answer where the browser does not support it. -/
abbrev Ed25519 := Bytes → Bytes → Bytes → Option Bool

def prop (key : String) (v : Value) : Option Value := Json.get (js key) v

def isText (v : Option Value) (text : String) : Bool :=
  match v with
  | some (.str s) => s = js text
  | _ => false

def httpError (res : Response) : JsString :=
  js "HTTP " ++ Utf16.encode (Nat.toDigits 10 res.status)

/-- The steps up to the signature: the manifest where it is validly signed. -/
def checkManifest (ed25519 : Ed25519) (response : Except JsString Response) :
    Except Outcome (List (JsString × Value)) :=
  match response with
  | .error message => .error (.tampered (.no_manifest (some message)))
  | .ok res =>
    if !res.ok then
      .error (.tampered (.no_manifest (some (httpError res))))
    else
      match responseJson res.body with
      | none => .error (.tampered (.no_manifest none))
      | some .null => .error .threw
      | some manifest =>
        let signature := prop "signature" manifest
        let signer := prop "signer" manifest
        if !isText (prop "schema" manifest) MANIFEST_SCHEMA then
          .error (.tampered (.unknown_schema (prop "schema" manifest)))
        else if !Js.truthy signature || !isText (signature.bind (prop "algorithm")) "ed25519" ||
            !Js.truthy (signature.bind (prop "signature_hex")) || !Js.truthy signer ||
            !isText (signer.bind (prop "public_key_hex")) PINNED_SIGNER_PUBKEY_HEX then
          .error (.tampered .other_signer)
        else
          match manifest, signature.bind (prop "signature_hex") with
          | .obj fields, some signature_hex =>
            let manifestBytes := canonicalJsonBytes (.obj (manifestForSig fields))
            let signedBytes := Js.textEncode (js SIGNATURE_DOMAIN) ++ manifestBytes
            match hexToBytes signature_hex with
            | none => .error .threw
            | some sigBytes =>
              match ed25519 (textBytes (js PINNED_SIGNER_PUBKEY_HEX)) sigBytes signedBytes with
              | none => .error (.tampered .no_ed25519)
              | some false => .error (.tampered .bad_signature)
              | some true => .ok fields
          | _, _ => .error (.tampered .other_signer)

/-- `manifest.files && manifest.files[key]`. -/
def expectedHash (manifest : List (JsString × Value)) (key : JsString) : Option Value :=
  (prop "files" (.obj manifest)).bind (Json.get key)

def manifestUrl (now : Nat) : JsString :=
  js "/site-integrity.json?_=" ++ Utf16.encode (Nat.toDigits 10 now)

/-- The check of one page, which asks for the manifest at a time of day. -/
def verify (ed25519 : Ed25519) (fetch : JsString → Except JsString Response) (now : Nat)
    (pathname : JsString) : Outcome :=
  if hasStrictCsp pathname then .strict_csp_notice
  else
    let key := manifestKeyForLocation pathname
    match checkManifest ed25519 (fetch (manifestUrl now)) with
    | .error outcome => outcome
    | .ok manifest =>
      match expectedHash manifest key with
      | none => .skipped key (showVerifiedBadge pathname)
      | some expected =>
        if !Js.truthy (some expected) then .skipped key (showVerifiedBadge pathname)
        else
          match fetch pathname with
          | .error message => .tampered (.no_page message)
          | .ok pageRes =>
            if !pageRes.ok then
              .tampered (.no_page (httpError pageRes))
            else
              let actualHash := js (Hex.hex (Sha256.sha256 pageRes.body))
              match expected with
              | .str hash =>
                if actualHash = hash then .verified key (showVerifiedBadge pathname)
                else .tampered (.other_hash expected actualHash)
              | _ => .tampered (.other_hash expected actualHash)

/-! ## Pages that are not those that were signed -/

/-- The paths for which the check knows the file: of an index file its directory
with the slash, of a page without a dot in its path all but the extension, of
another file the path itself. -/
def Addresses (pathname name : JsString) : Prop :=
  ∃ rest, pathname = ascii '/' :: rest ∧
    ((rest = [] ∨ rest.getLast? = some (ascii '/')) ∧ name = rest ++ js "index.html" ∨
      rest ≠ [] ∧ rest.getLast? ≠ some (ascii '/') ∧ ascii '.' ∉ rest ∧ name = rest ++ js ".html" ∨
      rest.getLast? ≠ some (ascii '/') ∧ ascii '.' ∈ rest ∧ name = rest)

theorem manifestKey_slash (rest : JsString) : manifestKeyForLocation (ascii '/' :: rest) =
    if rest = [] ∨ rest.getLast? = some (ascii '/') then rest ++ js "index.html"
    else if ascii '.' ∉ rest then rest ++ js ".html"
    else rest := by
  have slash : js "/" = [ascii '/'] := rfl
  rcases rest with _ | ⟨u, rest⟩
  · rfl
  · simp [manifestKeyForLocation, slash]

theorem manifestKey_eq_iff {rest name : JsString} :
    manifestKeyForLocation (ascii '/' :: rest) = name ↔ Addresses (ascii '/' :: rest) name := by
  have spelt : Addresses (ascii '/' :: rest) name ↔
      ((rest = [] ∨ rest.getLast? = some (ascii '/')) ∧ name = rest ++ js "index.html" ∨
        rest ≠ [] ∧ rest.getLast? ≠ some (ascii '/') ∧ ascii '.' ∉ rest ∧
          name = rest ++ js ".html" ∨
        rest.getLast? ≠ some (ascii '/') ∧ ascii '.' ∈ rest ∧ name = rest) := by
    constructor
    · rintro ⟨rest', same, h⟩
      rw [(List.cons.inj same).2]
      exact h
    · exact fun h => ⟨rest, rfl, h⟩
  rw [spelt, manifestKey_slash]
  by_cases directory : rest = [] ∨ rest.getLast? = some (ascii '/')
  · rcases directory with rfl | last
    · simp [eq_comm]
    · simp [last, eq_comm]
  · obtain ⟨nonempty, last⟩ := not_or.mp directory
    by_cases dot : ascii '.' ∈ rest
    · simp [nonempty, last, dot, eq_comm]
    · simp [nonempty, last, dot, eq_comm]

section Served

variable {server : Server} {ed25519 : Ed25519} {failure : JsString} {now : Nat}
  {rest : JsString} {path : List Bytes} {content : Bytes} {manifest : List (JsString × Value)}

/-- What the check of a page comes to, once the manifest is found to be signed. -/
theorem verify_eq (served : request server (ascii '/' :: rest) = .page path content)
    (signed : checkManifest ed25519 (fetch server failure (manifestUrl now)) = .ok manifest) :
    (∃ banner, verify ed25519 (fetch server failure) now (ascii '/' :: rest) = .tampered banner) ↔
      ∃ expected, expectedHash manifest (manifestKeyForLocation (ascii '/' :: rest)) =
        some expected ∧ Js.truthy (some expected) = true ∧
          expected ≠ .str (js (Hex.hex (Sha256.sha256 content))) := by
  have plain : hasStrictCsp (ascii '/' :: rest) = false := rfl
  have good : Response.ok ⟨200, content⟩ = true := rfl
  rw [verify, plain, if_neg Bool.false_ne_true, signed]
  dsimp only
  cases found : expectedHash manifest (manifestKeyForLocation (ascii '/' :: rest)) with
  | none => simp
  | some expected =>
    cases truth : Js.truthy (some expected) with
    | false => simp [truth]
    | true =>
      rw [fetch_page served]
      dsimp only
      rw [good]
      simp only [truth, Bool.not_true, Bool.false_eq_true, if_false]
      cases expected with
      | str hash =>
        dsimp only
        by_cases same : js (Hex.hex (Sha256.sha256 content)) = hash
        · simp [same, truth]
        · have other : ¬ hash = js (Hex.hex (Sha256.sha256 content)) := fun h => same h.symm
          simp [same, other, truth]
      | _ => simp [truth]

end Served

/-! ## What the signer publishes -/

theorem parseByte_digits : ∀ n < 256,
    parseByte (Utf16.encode [Hex.digit (n / 16), Hex.digit (n % 16)]) = UInt8.ofNat n := by
  decide +kernel

/-- The digits of bytes are read back. -/
theorem textBytes_hex (bs : Bytes) : textBytes (js (Hex.hex bs)) = bs := by
  have small (n : Nat) (h : n < 16) : (Hex.digit n).toNat < 0x10000 := by
    interval_cases n <;> decide
  have digit (n : Nat) (h : n < 16) :
      Utf16.encodeChar (Hex.digit n) = [UInt16.ofNat (Hex.digit n).toNat] := by
    rw [Utf16.encodeChar, if_pos (small n h)]
  rw [textBytes, js, Hex.hex, String.toList_ofList]
  induction bs with
  | nil => rfl
  | cons b bs ih =>
    have bound := b.toNat_lt
    have two : Utf16.encode ((b :: bs).flatMap fun b =>
        [Hex.digit (b.toNat / 16), Hex.digit (b.toNat % 16)]) =
        UInt16.ofNat (Hex.digit (b.toNat / 16)).toNat ::
          UInt16.ofNat (Hex.digit (b.toNat % 16)).toNat ::
            Utf16.encode (bs.flatMap fun b =>
              [Hex.digit (b.toNat / 16), Hex.digit (b.toNat % 16)]) := by
      simp only [Utf16.encode, List.flatMap_cons, List.cons_append, List.nil_append,
        digit (b.toNat / 16) (by omega), digit (b.toNat % 16) (by omega)]
    have one := parseByte_digits b.toNat bound
    simp only [Utf16.encode, List.flatMap_cons, List.flatMap_nil, List.append_nil,
      digit (b.toNat / 16) (by omega), digit (b.toNat % 16) (by omega), List.cons_append,
      List.nil_append, UInt8.ofNat_toNat] at one
    rw [two, pairs, List.map_cons, one, ih]

theorem truthy_text {s : JsString} : Js.truthy (some (.str s)) = true ↔ s ≠ [] :=
  decide_eq_true_iff

/-- The field of a key that no other field has. -/
theorem get_of_mem {fields : List (JsString × Value)} (nodup : (fields.map Prod.fst).Nodup)
    {f : JsString × Value} (mem : f ∈ fields) : Json.get f.1 (.obj fields) = some f.2 := by
  rw [Json.get]
  induction fields with
  | nil => cases mem
  | cons g fields ih =>
    rw [List.map_cons, List.nodup_cons] at nodup
    rcases List.mem_cons.mp mem with rfl | later
    · simp
    · have other : g.1 ≠ f.1 := fun same => nodup.1 (same ▸ List.mem_map_of_mem later)
      simpa [other] using ih nodup.2 later

section Published

variable {items : List (Str × Py.Value)} {signed_at : Str}

/-- The record of the pinned signer, as a browser has it. -/
def shownRecord (items : List (Str × Py.Value)) (signed_at : Str) (signature : Bytes) :
    List (JsString × Value) :=
  Js.assignAll (Js.objectsFields (Py.toJsFields (signedRecord
    (manifest_of items (py PINNED_SIGNER_PUBKEY_HEX) signed_at)
    (.str (py PINNED_SIGNER_PUBKEY_HEX)) signature)))

theorem expectedHash_shown (strings : ∀ f ∈ items, ∃ hash, f.2 = .str hash)
    (increasing : (items.map Prod.fst).Pairwise (· < ·))
    (clean : ∀ name ∈ items.map Prod.fst, Py.Clean name) (signature : Bytes) {name hash : Str}
    (mem : (name, .str hash) ∈ items) :
    expectedHash (shownRecord items signed_at signature) (units name) =
      some (.str (units hash)) := by
  have files : prop "files" (.obj (shownRecord items signed_at signature)) =
      some (.obj (Js.assignAll (Js.objectsFields (Py.toJsFields items)))) := rfl
  have nodup : ((Py.toJsFields items).map Prod.fst).Nodup := by
    rw [Py.toJsFields_eq, List.map_map]
    have once : (items.map Prod.fst).Nodup := increasing.imp ne_of_lt
    have units_nodup := once.map_on fun a ha b hb => Py.units_injective (clean a ha) (clean b hb)
    rwa [List.map_map] at units_nodup
  have inside : (units name, .str (units hash)) ∈ Py.toJsFields items := by
    rw [Py.toJsFields_eq]
    exact List.mem_map_of_mem (f := fun f : Str × Py.Value => (units f.1, Py.toJs f.2)) mem
  rw [expectedHash, files, Option.bind_some, Js.objectsFields_eq,
    map_strings (fun _ => rfl) (toJs_strings strings)]
  exact get_of_mem ((Js.ordered_assignAll _).imp And.left) ((Js.mem_assignAll_iff nodup).mpr inside)

/-- What the signer publishes passes the check of a browser that rebuilds the
bytes that were signed. -/
theorem checkManifest_published {sign : Bytes → Bytes} {bytes file : Bytes} {ed25519 : Ed25519}
    (strings : ∀ f ∈ items, ∃ hash, f.2 = .str hash)
    (increasing : (items.map Prod.fst).Pairwise (· < ·))
    (canonical : canonical_manifest_bytes
      (manifest_of items (py PINNED_SIGNER_PUBKEY_HEX) signed_at) = some bytes)
    (published : write_signed_manifest sign
      (manifest_of items (py PINNED_SIGNER_PUBKEY_HEX) signed_at) = some file)
    (agree : manifestBytes file = some bytes) (signature : sign (signed_bytes bytes) ≠ [])
    (genuine : ed25519 (textBytes (js PINNED_SIGNER_PUBKEY_HEX))
      (sign (signed_bytes bytes)) (signed_bytes bytes) = some true) :
    checkManifest ed25519 (.ok ⟨200, file⟩) =
      .ok (shownRecord items signed_at (sign (signed_bytes bytes))) := by
  have short : (responseText file).length ≤ maxLength := by
    by_contra long
    rw [manifestBytes, responseJson, if_neg long] at agree
    cases agree
  have legible := legible_of_published strings increasing canonical published short
  have record := legible_signedRecord (sign (signed_bytes bytes)) legible
  have written := write_signed_manifest_of canonical published
  have read := responseJson_published written record short
  have shown : responseJson file =
      some (.obj (shownRecord items signed_at (sign (signed_bytes bytes)))) := read
  rw [manifestBytes, shown] at agree
  have rebuilt : canonicalJsonBytes (.obj (manifestForSig
      (shownRecord items signed_at (sign (signed_bytes bytes))))) = bytes := Option.some.inj agree
  have good : Response.ok ⟨200, file⟩ = true := rfl
  have schema : isText (prop "schema" (.obj (shownRecord items signed_at
      (sign (signed_bytes bytes))))) MANIFEST_SCHEMA = true := rfl
  have algorithm : isText ((prop "signature" (.obj (shownRecord items signed_at
      (sign (signed_bytes bytes))))).bind (prop "algorithm")) "ed25519" = true := rfl
  have signer : isText ((prop "signer" (.obj (shownRecord items signed_at
      (sign (signed_bytes bytes))))).bind (prop "public_key_hex")) PINNED_SIGNER_PUBKEY_HEX =
        true := rfl
  have hex : (prop "signature" (.obj (shownRecord items signed_at
      (sign (signed_bytes bytes))))).bind (prop "signature_hex") =
      some (.str (js (Hex.hex (sign (signed_bytes bytes))))) := by
    rw [js, ← Py.units_map_cp]
    rfl
  have some_signature : Js.truthy (prop "signature" (.obj (shownRecord items signed_at
      (sign (signed_bytes bytes))))) = true := rfl
  have some_signer : Js.truthy (prop "signer" (.obj (shownRecord items signed_at
      (sign (signed_bytes bytes))))) = true := rfl
  have some_hex : Js.truthy (some (.str (js (Hex.hex (sign (signed_bytes bytes)))))) = true := by
    rw [truthy_text]
    intro empty
    apply signature
    rw [← textBytes_hex (sign (signed_bytes bytes)), empty]
    rfl
  have domain : Js.textEncode (js SIGNATURE_DOMAIN) = Utf8.encode SIGNATURE_DOMAIN.toList := by
    rw [Js.textEncode, js, Utf16.decodeLossy_encode]
  rw [checkManifest]
  dsimp only
  rw [good, shown]
  simp only [schema, algorithm, signer, hex, some_signature, some_signer, some_hex, rebuilt, domain,
    hexToBytes, textBytes_hex, Bool.not_true, Bool.false_eq_true, if_false, Bool.or_self]
  rw [← signed_bytes, genuine]

end Published

/-- The server answers the path with the file of a name. -/
def Serves (server : Server) (pathname : JsString) (name : List Char) (content : Bytes) : Prop :=
  ∃ path, request server pathname = .page path content ∧
    [0x2F].intercalate path = Utf8.encode name

/-- The manifest has a hash for the file of a name. -/
def Lists (manifest : List (JsString × Value)) (name : List Char) (hash : JsString) : Prop :=
  expectedHash manifest (Utf16.encode name) = some (.str hash) ∧ hash ≠ []

/-- Where the manifest is validly signed and a listed file is served with other
bytes, the check warns exactly of the paths that it knows the file by, and of
those it takes for another file with another hash. -/
theorem verify_fails_closed_iff {server : Server} {ed25519 : Ed25519} {failure : JsString}
    {now : Nat} {rest : JsString} {name : List Char} {content : Bytes}
    {manifest : List (JsString × Value)} {hash : JsString}
    (served : Serves server (ascii '/' :: rest) name content)
    (signed : checkManifest ed25519 (fetch server failure (manifestUrl now)) = .ok manifest)
    (listed : Lists manifest name hash)
    (altered : js (Hex.hex (Sha256.sha256 content)) ≠ hash) :
    (∃ banner, verify ed25519 (fetch server failure) now (ascii '/' :: rest) = .tampered banner) ↔
      Addresses (ascii '/' :: rest) (Utf16.encode name) ∨
      ∃ other expected, other ≠ Utf16.encode name ∧ Addresses (ascii '/' :: rest) other ∧
        expectedHash manifest other = some expected ∧ Js.truthy (some expected) = true ∧
        expected ≠ .str (js (Hex.hex (Sha256.sha256 content))) := by
  obtain ⟨path, answered, -⟩ := served
  rw [verify_eq answered signed]
  constructor
  · rintro ⟨expected, found, truth, differs⟩
    by_cases known : manifestKeyForLocation (ascii '/' :: rest) = Utf16.encode name
    · exact .inl (manifestKey_eq_iff.mp known)
    · exact .inr ⟨_, expected, known, manifestKey_eq_iff.mp rfl, found, truth, differs⟩
  · rintro (known | ⟨other, expected, -, known, found, truth, differs⟩)
    · rw [manifestKey_eq_iff.mpr known]
      refine ⟨.str hash, listed.1, ?_, ?_⟩
      · exact decide_eq_true listed.2
      · exact fun same => altered (Json.str.inj same).symm
    · rw [manifestKey_eq_iff.mpr known]
      exact ⟨expected, found, truth, differs⟩

/-- A site with one page. -/
def downloads : Landing := flatSite [py "downloads.html"] (by decide +kernel) (by decide)

/-- A signature that is the same for everything, and the check of it. -/
def sameSignature : Ed25519 := fun _ signature _ => some (signature = [1])

/-- A server that has another page in its place. -/
def otherPage (file : Bytes) : Server where
  file path :=
    if path = [octets "site-integrity.json"] then some file
    else if path = [octets "downloads.html"] then some [33]
    else none
  dir path := path = [] || path = [octets "downloads"]
  acme _ := ⟨404, []⟩

/-- Its manifest, signed and read. -/
def signedDownloads : List (JsString × Value) :=
  shownRecord (flatItems [py "downloads.html"]) (py "2026") [1]

/-- The manifest is validly signed and lists the page. -/
theorem signed_downloads :
    (∃ file, checkManifest sameSignature (fetch (otherPage file) [] (manifestUrl 0)) =
      .ok signedDownloads) ∧
    Lists signedDownloads "downloads.html".toList (js (Hex.hex (Sha256.sha256 []))) := by
  have strings := strings_flatItems [py "downloads.html"]
  have increasing : ((flatItems [py "downloads.html"]).map Prod.fst).Pairwise (· < ·) :=
    List.pairwise_singleton _ _
  have clean : ∀ name ∈ [py "downloads.html"], Py.Clean name := by simp [Py.clean_py]
  constructor
  · obtain ⟨bytes, file, canonical, published⟩ := published_flat (fun _ => [1])
      (List.pairwise_singleton _ _) clean PINNED_SIGNER_PUBKEY_HEX "2026"
    have names : py "__proto__" ∉ (flatItems [py "downloads.html"]).map Prod.fst ∧
        (((flatItems [py "downloads.html"]).map Prod.fst).map units).Pairwise Js.Before :=
      ⟨by decide, List.pairwise_singleton _ _⟩
    have short : (units (Py.dumpsIndented (.obj (signedRecord (manifest_of
        (flatItems [py "downloads.html"]) (py PINNED_SIGNER_PUBKEY_HEX) (py "2026"))
        (.str (py PINNED_SIGNER_PUBKEY_HEX)) [1]))) ++ [0x0A]).length ≤ maxLength := by
      decide +kernel
    rw [← responseText_published (write_signed_manifest_of canonical published)] at short
    have agree := (manifestBytes_eq_iff strings increasing canonical published).mpr ⟨short, names⟩
    have answered : request (otherPage file) (manifestUrl 0) =
        .page [octets "site-integrity.json"] file := rfl
    have genuine : sameSignature (textBytes (js PINNED_SIGNER_PUBKEY_HEX)) [1]
        (signed_bytes bytes) = some true := rfl
    refine ⟨file, ?_⟩
    rw [fetch_page answered]
    have checked := checkManifest_published strings increasing canonical published agree
      (List.cons_ne_nil _ _) genuine
    rw [checked]
    rfl
  · have found : expectedHash signedDownloads (units (py "downloads.html")) =
        some (.str (units (py (Hex.hex (Sha256.sha256 []))))) :=
      expectedHash_shown strings increasing clean [1] (List.mem_singleton_self _)
    rw [Py.units_py, Py.units_py] at found
    refine ⟨found, ?_⟩
    decide +kernel

/-- The check knows the page by its own name, and warns. -/
theorem verify_fails_closed_at_name : ∃ file,
    (∃ banner, verify sameSignature (fetch (otherPage file) []) 0 (js "/downloads.html") =
      .tampered banner) ↔
      Addresses (js "/downloads.html") (Utf16.encode "downloads.html".toList) ∨
      ∃ other expected, other ≠ Utf16.encode "downloads.html".toList ∧
        Addresses (js "/downloads.html") other ∧
        expectedHash signedDownloads other = some expected ∧ Js.truthy (some expected) = true ∧
        expected ≠ .str (js (Hex.hex (Sha256.sha256 [33]))) := by
  obtain ⟨⟨file, signed⟩, listed⟩ := signed_downloads
  exact ⟨file, verify_fails_closed_iff ⟨[octets "downloads.html"], rfl, rfl⟩ signed listed
    (by decide +kernel)⟩

/-- The page is served for a directory too, of which the check knows no file: it
is skipped. -/
theorem verify_skips_downloads : ∃ server manifest hash,
    Serves server (js "/downloads/") "downloads.html".toList [33] ∧
      checkManifest sameSignature (fetch server [] (manifestUrl 0)) = .ok manifest ∧
      Lists manifest "downloads.html".toList hash ∧
      js (Hex.hex (Sha256.sha256 [33])) ≠ hash ∧
      verify sameSignature (fetch server []) 0 (js "/downloads/") =
        .skipped (js "downloads/index.html") false := by
  obtain ⟨⟨file, signed⟩, listed⟩ := signed_downloads
  refine ⟨otherPage file, signedDownloads, _, ⟨[octets "downloads.html"], rfl, rfl⟩, signed, listed,
    by decide +kernel, ?_⟩
  have unlisted : expectedHash signedDownloads (manifestKeyForLocation (js "/downloads/")) = none :=
    rfl
  have plain : hasStrictCsp (js "/downloads/") = false := rfl
  rw [verify, plain, if_neg Bool.false_ne_true, signed]
  dsimp only
  rw [unlisted]
  rfl

end Qev.Site
