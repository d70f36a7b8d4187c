import Qev.Lib.JsonSize
import Qev.Notify.Watcher
import Qev.Web.Encrypt

/-! The page of the web lock (`App.tsx`): a text or a file is locked, a vault is
opened, and a vault is changed to see that it does not open any more. -/

namespace Qev.Web

open Js (JsString js)
open Cli (Draw KEY_BYTES MAX_PLAINTEXT_BYTES Settings Sodium Vault b64urlEncode displayed fromUtf8
  get utf8)
open Notify (isStrSpace trim)
open Utf16 (WellFormed)

def MIN_PHRASE_CHARS : Nat := 12
def MAX_FILE_BYTES : Nat := 180 * 1024

/-- What the browser says in its own words. -/
structure Engine where
  toLocaleString : Nat → JsString
  syntaxError : JsString → JsString
  typeError : JsString → JsString

structure File where
  name : JsString
  type : JsString
  bytes : Bytes

inductive Kind where
  | idle
  | ok
  | bad
  deriving DecidableEq

structure Status where
  kind : Kind
  text : JsString

def bad (text : JsString) : Status := ⟨.bad, text⟩

/-- A file is the whole object, of which only the bytes are known to be text. -/
inductive Payload where
  | file (obj : Js.Value) (bytes : JsString)
  | text (text : JsString)

/-- The text of a property, where it is one. -/
def stringField (obj : Js.Value) (name : String) : Option JsString :=
  match get obj name with
  | some (.str s) => some s
  | _ => none

def parsePayload (text : JsString) : Option Payload :=
  (Js.parseJson text).bind fun obj =>
    if stringField obj "kind" = some (js "file") then (stringField obj "bytes").map (.file obj)
    else if stringField obj "kind" = some (js "text") then (stringField obj "text").map .text
    else none

/-- A unit of `[a-z0-9._-]`, in either case. -/
def isSafeUnit (u : UInt16) : Bool :=
  (97 ≤ u && u ≤ 122) || (65 ≤ u && u ≤ 90) || (48 ≤ u && u ≤ 57) || u = 46 || u = 95 || u = 45

def safeFileName (name : Option Js.Value) : JsString :=
  let name := if Js.truthy name then displayed name else js "qev-file"
  (name.map fun u => if isSafeUnit u then u else 95).take 90

inductive InputMode where
  | text
  | file
  deriving DecidableEq

/-- The page, as far as locking and opening read and write it. -/
structure ToolPage where
  plain : JsString
  inputMode : InputMode
  pickedFile : Option File
  lockPhrase : JsString
  openPhrase : JsString
  preset : PresetKey
  vaultText : JsString
  status : Status
  decrypted : JsString
  openedFile : Option (Js.Value × JsString)

structure Download where
  name : JsString
  bytes : Bytes
  type : Option Js.Value

/-- `pickedFile.type || "application/octet-stream"`. -/
def fileType (file : File) : JsString :=
  if file.type = [] then js "application/octet-stream" else file.type

namespace ToolPage

def payloadOf (file : File) : Js.Value :=
  .obj [
    (js "kind", .str (js "file")),
    (js "name", .str file.name),
    (js "type", .str (fileType file)),
    (js "bytes", .str (b64urlEncode file.bytes))]

def buildPlaintext (page : ToolPage) : Except JsString JsString :=
  match page.inputMode with
  | .text => .ok page.plain
  | .file =>
    match page.pickedFile with
    | none => .error (js "Choose a file to lock first.")
    | some file =>
      if file.bytes.length > MAX_FILE_BYTES then
        .error (js ("File too large for the browser tool (max ~" ++
          toString (MAX_FILE_BYTES / 1024) ++
          " KB). Use the CLI or the desktop app for bigger files."))
      else .ok (Json.print Js.printer (payloadOf file))

/-- The vault that is made of what is on the page. -/
def create (page : ToolPage) (sodium : Sodium) (draw : Draw) : Except JsString Js.Value := do
  let plaintext ← page.buildPlaintext
  encryptVaultV2 sodium ⟨.text plaintext, page.lockPhrase, some .self, some page.preset⟩ draw

/-- The page once `lockVault` is done. -/
def lockVault (page : ToolPage) (sodium : Sodium) (draw : Draw) : ToolPage :=
  let page := { page with decrypted := [], openedFile := none }
  if page.lockPhrase.length < MIN_PHRASE_CHARS then
    { page with status := bad (js ("Use a longer passphrase (at least " ++
        toString MIN_PHRASE_CHARS ++ " characters), or click Generate.")) }
  else
    match page.create sodium draw with
    | .error e => { page with status := bad e }
    | .ok created =>
      { page with
        vaultText := Js.stringify created
        openPhrase := page.lockPhrase
        status := ⟨.ok, js "Vault created. Download it, copy it, or open it to verify."⟩ }

/-- What is shown of the text that was inside. -/
def showOpened (page : ToolPage) (engine : Engine) (text : JsString) : ToolPage :=
  let matched : Status := ⟨.ok, js "Opened. Passphrase matched and the vault was not changed."⟩
  match parsePayload text with
  | some (.file obj bytes) =>
    -- The file is already set where its bytes turn out to be none.
    let page := { page with openedFile := some (obj, bytes) }
    match b64urlDecode (.str bytes) with
    | .error e => { page with status := bad e }
    | .ok decoded =>
      { page with
        status := ⟨.ok, js "Opened. File \"" ++ displayed (get obj "name") ++ js "\" (" ++
          engine.toLocaleString decoded.length ++ js " bytes) unlocked — download it below."⟩ }
  | some (.text shown) => { page with decrypted := shown, status := matched }
  | none => { page with decrypted := text, status := matched }

/-- The page once `openVault` is done. -/
def openVault (page : ToolPage) (engine : Engine) (sodium : Sodium) : ToolPage :=
  let page := { page with decrypted := [], openedFile := none }
  if trim page.vaultText = [] then
    { page with status := bad (js "Paste, drop, upload, or create a vault first.") }
  else
    match Js.parseJson page.vaultText with
    | none => { page with status := bad (engine.syntaxError page.vaultText) }
    | some vault =>
      match decryptVaultV2 sodium vault page.openPhrase with
      | .error e => { page with status := bad e }
      | .ok text => page.showOpened engine text

/-- Bytes that are no base64url leave the click without effect. -/
def downloadOpenedFile (page : ToolPage) : Option Download :=
  page.openedFile.bind fun (obj, bytes) =>
    match b64urlDecode (.str bytes) with
    | .error _ => none
    | .ok decoded => some ⟨safeFileName (get obj "name"), decoded, get obj "type"⟩

end ToolPage

/-- `ciphertext.slice(0, -4) + "AAAA"`, of what has a `slice`. -/
def changed : Js.Value → Option JsString
  | .str s => some (s.take (s.length - 4) ++ js "AAAA")
  | .arr items => some (Js.display (.arr (items.take (items.length - 4))) ++ js "AAAA")
  | _ => none

/-- `vault.content.ciphertext = ciphertext`. -/
def setCiphertext (ciphertext : JsString) : Js.Value → Js.Value
  | .obj fields => .obj (fields.map fun f =>
      if f.1 = js "content" then
        match f.2 with
        | .obj content => (f.1, .obj (Js.assign (js "ciphertext") (.str ciphertext) content))
        | other => (f.1, other)
      else f)
  | v => v

namespace ToolPage

def tamperVault (page : ToolPage) (engine : Engine) : ToolPage :=
  if trim page.vaultText = [] then
    { page with status := bad (js "Create or load a vault first.") }
  else
    match Js.parseJson page.vaultText with
    | none => { page with status := bad (engine.syntaxError page.vaultText) }
    | some vault =>
      match ((get vault "content").bind fun content => get content "ciphertext").bind changed with
      | none => { page with status := bad (engine.typeError page.vaultText) }
      | some ciphertext =>
        { page with
          vaultText := Js.stringify (setCiphertext ciphertext vault)
          decrypted := []
          status := ⟨.bad, js "One part of the vault was changed. Opening should now fail."⟩ }

end ToolPage

/-! ## A file as text -/

theorem isB64url_plain {u : UInt16} (h : Cli.isB64url u = true) :
    0x20 ≤ u.toNat ∧ u.toNat < 0x80 ∧ u ≠ 0x22 ∧ u ≠ 0x5C := by
  have each : ∀ n < 128, Cli.isB64url (UInt16.ofNat n) = true →
      0x20 ≤ n ∧ UInt16.ofNat n ≠ 0x22 ∧ UInt16.ofNat n ≠ 0x5C := by
    decide
  have small : u.toNat < 128 := by
    rw [Cli.isB64url, Bool.and_eq_true, decide_eq_true_eq] at h
    exact h.1
  have here := each u.toNat small
  rw [UInt16.ofNat_toNat] at here
  obtain ⟨low, mark, slash⟩ := here h
  exact ⟨low, small, mark, slash⟩

theorem length_textEncode_b64url (bytes : Bytes) :
    (Js.textEncode (Js.quote (b64urlEncode bytes))).length = (bytes.length * 4 + 2) / 3 + 2 := by
  have plain : ∀ u ∈ b64urlEncode bytes, 0x20 ≤ u.toNat ∧ u.toNat < 0x80 ∧ u ≠ 0x22 ∧ u ≠ 0x5C := by
    intro u mem
    exact isB64url_plain (Cli.b64urlEncode_alphabet mem).1
  have ascii : ∀ u ∈ 0x22 :: b64urlEncode bytes ++ [0x22], u.toNat < 0x80 := by
    intro u mem
    rcases List.mem_cons.mp mem with rfl | mem
    · decide
    · rcases List.mem_append.mp mem with inside | last
      · exact (plain u inside).2.1
      · obtain rfl := List.mem_singleton.mp last
        decide
  rw [Js.quote_plain plain, Js.textEncode_ascii ascii, List.length_map, List.length_append,
    List.length_cons, List.length_singleton, b64urlEncode, List.length_map, Base64.encode,
    List.length_map, Base64.sextets_length]

theorem print_payloadOf (file : File) : Json.print Js.printer (ToolPage.payloadOf file) =
    js "\x7b\"kind\":\"file\",\"name\":" ++ (Js.quote file.name ++ (js ",\"type\":" ++
      (Js.quote (fileType file) ++ (js ",\"bytes\":" ++ (Js.quote (b64urlEncode file.bytes) ++
        js "\x7d"))))) := by
  simp only [ToolPage.payloadOf, Json.print, Json.printFields, List.append_assoc, List.cons_append]
  rfl

/-- What the cap on files leaves room for. -/
theorem payload_fits {file : File} (small : file.bytes.length ≤ MAX_FILE_BYTES)
    (name : file.name.length ≤ 2048) (type : file.type.length ≤ 512) :
    (utf8 (Json.print Js.printer (ToolPage.payloadOf file))).length ≤ MAX_PLAINTEXT_BYTES := by
  have type_length : (fileType file).length ≤ 512 := by
    rw [fileType]
    split
    · decide
    · exact type
  have literal (s : String) (ascii : (js s).all (·.toNat < 0x80) = true) :
      WellFormed (js s) ∧ (Js.textEncode (js s)).length = (js s).length := by
    refine ⟨⟨_, rfl⟩, ?_⟩
    have each : ∀ u ∈ js s, u.toNat < 0x80 := fun u mem =>
      of_decide_eq_true (List.all_eq_true.mp ascii u mem)
    rw [Js.textEncode_ascii each, List.length_map]
  obtain ⟨first, first_length⟩ := literal "\x7b\"kind\":\"file\",\"name\":" (by decide)
  obtain ⟨second, second_length⟩ := literal ",\"type\":" (by decide)
  obtain ⟨third, third_length⟩ := literal ",\"bytes\":" (by decide)
  obtain ⟨-, last_length⟩ := literal "\x7d" (by decide)
  have lengths : (js "\x7b\"kind\":\"file\",\"name\":").length = 22 ∧
      (js ",\"type\":").length = 8 ∧ (js ",\"bytes\":").length = 9 ∧ (js "\x7d").length = 1 := by
    decide
  have names := Js.length_textEncode_quote file.name
  have types := Js.length_textEncode_quote (fileType file)
  have bytes := length_textEncode_b64url file.bytes
  have quoted (s : JsString) := Js.wellFormed_quote s
  rw [utf8, print_payloadOf, Js.textEncode_append first, Js.textEncode_append (quoted _),
    Js.textEncode_append second, Js.textEncode_append (quoted _), Js.textEncode_append third,
    Js.textEncode_append (quoted _)]
  simp only [List.length_append]
  simp only [MAX_FILE_BYTES, MAX_PLAINTEXT_BYTES] at *
  omega

theorem parsePayload_payloadOf (file : File) :
    parsePayload (Json.print Js.printer (ToolPage.payloadOf file)) =
      some (.file (ToolPage.payloadOf file) (b64urlEncode file.bytes)) := by
  have keys : Js.Ordered [js "kind", js "name", js "type", js "bytes"] := by decide
  have ordered : Json.Keys Js.Ordered (ToolPage.payloadOf file) :=
    ⟨keys, trivial, trivial, trivial, trivial, trivial⟩
  have plain : Json.Numbers Js.Plain (ToolPage.payloadOf file) :=
    ⟨trivial, trivial, trivial, trivial, trivial⟩
  have kind : stringField (ToolPage.payloadOf file) "kind" = some (js "file") := rfl
  have bytes : stringField (ToolPage.payloadOf file) "bytes" = some (b64urlEncode file.bytes) := rfl
  rw [parsePayload, Js.parseJson_print ordered, Js.written_eq_self _ plain, Option.bind_some,
    if_pos kind, bytes, Option.map_some]

/-- A text in JSON text is shorter. -/
theorem parsePayload_text {t shown : JsString} (h : parsePayload t = some (.text shown)) :
    shown.length < t.length := by
  obtain ⟨obj, parsed, h⟩ := Option.bind_eq_some_iff.mp h
  split_ifs at h
  · obtain ⟨bytes, -, h⟩ := Option.map_eq_some_iff.mp h
    cases h
  · obtain ⟨inside, found, h⟩ := Option.map_eq_some_iff.mp h
    cases h
    rw [stringField] at found
    split at found
    · rename_i s field
      cases found
      exact Js.get_str_length parsed field
    · cases found

/-! ## Locked, then opened -/

theorem trim_stringify (fields : List (JsString × Js.Value)) :
    trim (Js.stringify (.obj fields)) ≠ [] := by
  have first : isStrSpace (Js.ascii '\x7b') = false := by decide
  obtain ⟨rest, text⟩ : ∃ rest, Js.stringify (.obj fields) = Js.ascii '\x7b' :: rest := ⟨_, rfl⟩
  rw [trim, text, List.dropWhile_cons_of_neg (by rw [first]; exact Bool.false_ne_true), ne_eq,
    List.rdropWhile_eq_nil_iff]
  intro all
  rw [all _ List.mem_cons_self] at first
  cases first

section Locking

variable {sodium : Sodium} {page : ToolPage} {draw : Draw} {text t : JsString} {vault : Js.Value}
  {bytes : Bytes}

/-- The key of the locking phrase, with the salt that is drawn. -/
def ToolPage.stretch (page : ToolPage) (sodium : Sodium) (draw : Draw) : Except JsString Bytes :=
  sodium.crypto_pwhash KEY_BYTES (utf8 page.lockPhrase) draw.salt.val
    (.ofNat (LOCK_PRESETS page.preset).opslimit) (.ofNat (LOCK_PRESETS page.preset).memlimit)

theorem create_eq_ok (built : page.buildPlaintext = .ok text) (phrase : page.lockPhrase ≠ [])
    (some_text : text ≠ []) (small : (utf8 text).length ≤ MAX_PLAINTEXT_BYTES) {key : Bytes}
    (stretched : page.stretch sodium draw = .ok key) : ∃ vault,
      page.create sodium draw = .ok vault ∧ Made sodium vault page.lockPhrase (utf8 text) := by
  let opts : EncryptOptions := ⟨.text text, page.lockPhrase, some .self, some page.preset⟩
  obtain ⟨s, accepted⟩ : ∃ s, settings opts draw = .ok s :=
    settings_isOk draw phrase (Cli.utf8_length_ne_zero some_text) small
  obtain ⟨password, -, salt, opslimit, memlimit⟩ := settings_eq_ok accepted
  have own : s.stretch sodium s.password = .ok key := by
    rw [← stretched, Settings.stretch, password, salt, opslimit, memlimit]
    rfl
  have encrypted : encryptVaultV2 sodium opts draw = .ok (s.lock sodium.aead key).toValue := by
    rw [encryptVaultV2, accepted, ok_bind, own, ok_bind]
    rfl
  refine ⟨_, ?_, .web encrypted⟩
  rw [ToolPage.create, built, ok_bind]
  exact encrypted

/-- A vault that was made opens to the text that its bytes are. -/
theorem openVault_made (made : Made sodium vault page.openPhrase bytes)
    (vaultText : page.vaultText = Js.stringify vault) (read : fromUtf8 bytes = some t)
    (engine : Engine) : page.openVault engine sodium =
      { page with decrypted := [], openedFile := none }.showOpened engine t := by
  obtain ⟨s, wrapKey, password, rfl, ops, mem, stretched, rfl⟩ := made.settings
  have some_text : trim page.vaultText ≠ [] := by
    rw [vaultText]
    exact trim_stringify _
  have opened : decryptVaultV2 sodium (s.lock sodium.aead wrapKey).toValue page.openPhrase =
      .ok t := by
    rw [← toOption_eq_some, (lock_agree s wrapKey page.openPhrase).2, ← password,
      Cli.decrypt_lock stretched, Cli.readPlaintext, read]
    rfl
  rw [ToolPage.openVault]
  dsimp only
  rw [if_neg some_text, vaultText, (parseJson_toValue (v := s.lock sodium.aead wrapKey) ops mem).2]
  dsimp only
  rw [opened]

/-- The page after Lock and then Open. -/
def ToolPage.reopened (page : ToolPage) (engine : Engine) (sodium : Sodium) (draw : Draw) :
    ToolPage :=
  (page.lockVault sodium draw).openVault engine sodium

theorem reopened_eq (built : page.buildPlaintext = .ok text)
    (long : MIN_PHRASE_CHARS ≤ page.lockPhrase.length) (some_text : text ≠ [])
    (small : (utf8 text).length ≤ MAX_PLAINTEXT_BYTES) {key : Bytes}
    (stretched : page.stretch sodium draw = .ok key) (read : fromUtf8 (utf8 text) = some t)
    (engine : Engine) : ∃ page' : ToolPage, page'.decrypted = [] ∧ page'.openedFile = none ∧
      page.reopened engine sodium draw = page'.showOpened engine t := by
  have phrase : page.lockPhrase ≠ [] := by
    intro none
    rw [none] at long
    cases long
  obtain ⟨vault, created, made⟩ := create_eq_ok built phrase some_text small stretched
  have again : ToolPage.create { page with decrypted := [], openedFile := none } sodium draw =
      .ok vault := created
  rw [ToolPage.reopened, ToolPage.lockVault]
  dsimp only
  rw [if_neg (Nat.not_lt.mpr long), again]
  dsimp only
  refine ⟨_, ?_, ?_, openVault_made made rfl read engine⟩
  · rfl
  · rfl

end Locking

/-- Text comes back as it is encoded. -/
theorem fromUtf8_utf8_eq (s : JsString) :
    fromUtf8 (utf8 s) = some (Utf16.encode (Js.dropBom (Utf16.decodeLossy s))) := by
  rw [fromUtf8, Js.textDecode, utf8, Js.textEncode, Utf8.decode_encode, Option.map_some]

theorem length_encode_decodeLossy (s : JsString) :
    (Utf16.encode (Utf16.decodeLossy s)).length ≤ s.length := by
  have cons (c : Char) (cs : List Char) :
      (Utf16.encode (c :: cs)).length = (Utf16.encodeChar c).length + (Utf16.encode cs).length := by
    rw [Utf16.encode, List.flatMap_cons, List.length_append, Utf16.encode]
  have one (u : UInt16) : (Utf16.encodeChar (Utf16.decodeUnit u)).length = 1 := by
    rw [Utf16.encodeChar, if_pos (Js.decodeUnit_basic u), List.length_singleton]
  fun_induction Utf16.decodeLossy s with
  | case1 a b rest pair ih =>
    have two : (Utf16.encodeChar (Utf16.decodePair a b)).length ≤ 2 := by
      rw [Utf16.encodeChar]
      split
      · exact Nat.le_succ 1
      · exact Nat.le_refl 2
    rw [cons, List.length_cons, List.length_cons]
    omega
  | case2 a b rest alone ih =>
    rw [cons, one, List.length_cons]
    omega
  | case3 a =>
    rw [cons, one]
    exact Nat.le_refl 1
  | case4 => exact Nat.le_refl 0

/-- What comes back of a text is that text just where no half of a pair stands
alone and no byte order mark stands in front; and it is never longer. -/
theorem text_back (s : JsString) : ∃ t, fromUtf8 (utf8 s) = some t ∧ t.length ≤ s.length ∧
    (t = s ↔ WellFormed s ∧ s.head? ≠ some 0xFEFF) := by
  refine ⟨_, fromUtf8_utf8_eq s, ?_, ?_⟩
  · have whole := length_encode_decodeLossy s
    have fewer : (Utf16.encode (Js.dropBom (Utf16.decodeLossy s))).length ≤
        (Utf16.encode (Utf16.decodeLossy s)).length := by
      unfold Js.dropBom
      split
      · rename_i cs chars
        rw [chars]
        exact (List.sublist_append_right (Utf16.encodeChar _) (Utf16.encode cs)).length_le
      · exact Nat.le_refl _
    exact fewer.trans whole
  · constructor
    · intro same
      have wf : WellFormed s := ⟨_, same⟩
      refine ⟨wf, fun mark => ?_⟩
      cases s with
      | nil => cases mark
      | cons u rest =>
        obtain rfl := Option.some.inj mark
        have chars : Utf16.decodeLossy (0xFEFF :: rest) = '\uFEFF' :: Utf16.decodeLossy rest :=
          Utf16.decodeLossy_single rfl rest
        have shorter := length_encode_decodeLossy rest
        have dropped : Js.dropBom ('\uFEFF' :: Utf16.decodeLossy rest) = Utf16.decodeLossy rest :=
          rfl
        rw [chars, dropped] at same
        rw [same, List.length_cons] at shorter
        omega
    · rintro ⟨wf, mark⟩
      have back := Cli.fromUtf8_utf8 wf mark
      rw [fromUtf8_utf8_eq] at back
      exact Option.some.inj back

theorem safeFileName_safe (name : Option Js.Value) :
    (safeFileName name).length ≤ 90 ∧ ∀ u ∈ safeFileName name, isSafeUnit u = true := by
  refine ⟨List.length_take_le _ _, ?_⟩
  intro u mem
  obtain ⟨v, -, rfl⟩ := List.mem_map.mp (List.mem_of_mem_take mem)
  split
  · rename_i safe
    exact safe
  · rfl

section Locked

variable {engine : Engine} {sodium : Sodium} {page : ToolPage} {draw : Draw} {key : Bytes}
  {file : File}

/-- The payload of a file is read again as that file. -/
theorem reopened_file (stretched : page.stretch sodium draw = .ok key)
    (long : MIN_PHRASE_CHARS ≤ page.lockPhrase.length) (mode : page.inputMode = .file)
    (picked : page.pickedFile = some file) (small : file.bytes.length ≤ MAX_FILE_BYTES)
    (name : file.name.length ≤ 2048) (type : file.type.length ≤ 512) :
    (page.reopened engine sodium draw).status.kind = .ok ∧
    (page.reopened engine sodium draw).decrypted = [] ∧
    (page.reopened engine sodium draw).downloadOpenedFile =
      some ⟨safeFileName (some (.str file.name)), file.bytes, some (.str (fileType file))⟩ := by
  have built : page.buildPlaintext = .ok (Json.print Js.printer (ToolPage.payloadOf file)) := by
    rw [ToolPage.buildPlaintext, mode, picked]
    exact if_neg (Nat.not_lt.mpr small)
  have some_text : Json.print Js.printer (ToolPage.payloadOf file) ≠ [] := List.cons_ne_nil _ _
  have mark : (Json.print Js.printer (ToolPage.payloadOf file)).head? ≠ some 0xFEFF := by
    have first : (Json.print Js.printer (ToolPage.payloadOf file)).head? =
        some (Js.ascii '\x7b') := rfl
    rw [first]
    decide
  have back := Cli.fromUtf8_utf8 (Js.wellFormed_print (ToolPage.payloadOf file)) mark
  obtain ⟨page', empty, -, opened⟩ := reopened_eq built long some_text
    (payload_fits small name type) stretched back engine
  have decoded : b64urlDecode (.str (b64urlEncode file.bytes)) = .ok file.bytes :=
    web_of_ui (Ui.b64urlDecode_b64urlEncode _)
  rw [opened, ToolPage.showOpened, parsePayload_payloadOf]
  dsimp only
  rw [decoded]
  refine ⟨rfl, empty, ?_⟩
  rw [ToolPage.downloadOpenedFile, Option.bind_some]
  dsimp only
  rw [decoded]
  rfl

/-- A text is shown as what its bytes are read as, unless that is read further. -/
theorem reopened_text_iff (stretched : page.stretch sodium draw = .ok key)
    (long : MIN_PHRASE_CHARS ≤ page.lockPhrase.length) (mode : page.inputMode = .text)
    (some_text : page.plain ≠ []) (small : (utf8 page.plain).length ≤ MAX_PLAINTEXT_BYTES) :
    (page.reopened engine sodium draw).status.kind = .ok ∧
      (page.reopened engine sodium draw).openedFile = none ∧
      (page.reopened engine sodium draw).decrypted = page.plain ↔
      WellFormed page.plain ∧ page.plain.head? ≠ some 0xFEFF ∧
        parsePayload page.plain = none := by
  have built : page.buildPlaintext = .ok page.plain := by rw [ToolPage.buildPlaintext, mode]
  obtain ⟨t, read, shorter, same⟩ := text_back page.plain
  obtain ⟨page', empty, none, opened⟩ :=
    reopened_eq built long some_text small stretched read engine
  have condition : (WellFormed page.plain ∧ page.plain.head? ≠ some 0xFEFF ∧
      parsePayload page.plain = Option.none) ↔
      t = page.plain ∧ parsePayload page.plain = Option.none := by
    rw [same, and_assoc]
  rw [opened, condition, ToolPage.showOpened]
  cases payload : parsePayload t with
  | none =>
    dsimp only
    constructor
    · rintro ⟨-, -, rfl⟩
      exact ⟨rfl, payload⟩
    · rintro ⟨rfl, -⟩
      exact ⟨rfl, none, rfl⟩
  | some p =>
    have other : ¬ (t = page.plain ∧ parsePayload page.plain = Option.none) := by
      rintro ⟨rfl, no⟩
      rw [payload] at no
      cases no
    cases p with
    | file obj bytes =>
      refine iff_of_false ?_ other
      dsimp only
      rintro ⟨-, no, -⟩
      split at no <;> cases no
    | text shown =>
      refine iff_of_false ?_ other
      rintro ⟨-, -, rfl⟩
      have less := parsePayload_text payload
      omega

end Locked

/-- A file up to the cap comes back byte for byte under a safe name; a text comes
back as it was just where it has no lone surrogate, no byte order mark in front,
and is not itself read as a file or a text. -/
theorem locked_opens (engine : Engine) (sodium : Sodium) (page : ToolPage) (draw : Draw)
    (key : Bytes) (stretched : page.stretch sodium draw = .ok key)
    (long : MIN_PHRASE_CHARS ≤ page.lockPhrase.length) :
    (∀ name, (safeFileName name).length ≤ 90 ∧ ∀ u ∈ safeFileName name, isSafeUnit u = true) ∧
    (∀ file, page.inputMode = .file → page.pickedFile = some file →
      file.bytes.length ≤ MAX_FILE_BYTES → file.name.length ≤ 2048 → file.type.length ≤ 512 →
        (page.reopened engine sodium draw).status.kind = .ok ∧
        (page.reopened engine sodium draw).decrypted = [] ∧
        (page.reopened engine sodium draw).downloadOpenedFile =
          some ⟨safeFileName (some (.str file.name)), file.bytes, some (.str (fileType file))⟩) ∧
    (page.inputMode = .text → page.plain ≠ [] → (utf8 page.plain).length ≤ MAX_PLAINTEXT_BYTES →
      ((page.reopened engine sodium draw).status.kind = .ok ∧
        (page.reopened engine sodium draw).openedFile = none ∧
        (page.reopened engine sodium draw).decrypted = page.plain ↔
        WellFormed page.plain ∧ page.plain.head? ≠ some 0xFEFF ∧
          parsePayload page.plain = none)) :=
  ⟨safeFileName_safe, fun _ => reopened_file stretched long, reopened_text_iff stretched long⟩

/-! ## Changed, then opened -/

theorem changed_b64url {c : Bytes} (enough : 17 ≤ c.length) : ∃ c' : Bytes,
    changed (.str (b64urlEncode c)) = some (b64urlEncode c') ∧ c'.length = c.length ∧
      c'.take (c.length - 5) = c.take (c.length - 5) := by
  have four : 4 ≤ (Base64.sextets c).length := by
    rw [Base64.sextets_length]
    omega
  obtain ⟨c', zeroed, length, body⟩ := Base64.sextets_zeroed four
  refine ⟨c', ?_, length, body⟩
  have zeros : js "AAAA" = ([0, 0, 0, 0].map Base64.char64).map Js.ascii := by decide
  rw [changed, b64urlEncode, b64urlEncode, Base64.encode, Base64.encode, zeroed, List.map_append,
    List.map_append, ← zeros, List.length_map, List.length_map, List.map_take, List.map_take]

def withCiphertext (v : Vault) (ciphertext : JsString) : Vault :=
  { v with content := { v.content with ciphertext } }

theorem setCiphertext_toValue (v : Vault) (ciphertext : JsString) :
    setCiphertext ciphertext v.toValue = (withCiphertext v ciphertext).toValue := by
  have other : js "algorithm" ≠ js "ciphertext" ∧ js "nonce" ≠ js "ciphertext" := by decide +kernel
  have place : Js.place (js "algorithm") = Js.place (js "ciphertext") ∧
      Js.place (js "nonce") = Js.place (js "ciphertext") := by
    decide +kernel
  simp only [setCiphertext, Vault.toValue, withCiphertext, List.map_cons, List.map_nil, Js.js_inj,
    String.reduceEq, if_false, if_true, Js.assign, other, place, lt_irrefl]

section Tampering

variable {sodium : Sodium} {s : Settings} {wrapKey c : Bytes} {t : JsString}

/-- The key is unwrapped as ever, and does not open what was changed. -/
theorem decrypt_withCiphertext (last : sodium.aead.TagLast)
    (stretched : s.stretch sodium s.password = .ok wrapKey)
    (length : c.length = (s.decoded sodium.aead wrapKey).contentCt.length)
    (body : c.take (c.length - 5) = (s.decoded sodium.aead wrapKey).contentCt.take (c.length - 5))
    (other : c ≠ (s.decoded sodium.aead wrapKey).contentCt) :
    decryptVaultV2 sodium (withCiphertext (s.lock sodium.aead wrapKey) (b64urlEncode c)).toValue
      s.password ≠ .ok t := by
  intro opened
  obtain ⟨v, d, reads, -, -, decodes, key, vaultKey, bytes, again, unwrapped, content, -⟩ :=
    web_decrypts.mp opened
  cases (reads_toValue _).unique reads
  have decoded (bytes : Bytes) : b64urlDecode (.str (b64urlEncode bytes)) = .ok bytes :=
    web_of_ui (Ui.b64urlDecode_b64urlEncode bytes)
  have salt := Except.ok.inj ((decoded _).symm.trans decodes.salt)
  have wrapNonce := Except.ok.inj ((decoded _).symm.trans decodes.wrapNonce)
  have wrappedKey := Except.ok.inj ((decoded _).symm.trans decodes.wrappedKey)
  have contentNonce := Except.ok.inj ((decoded _).symm.trans decodes.contentNonce)
  have contentCt := Except.ok.inj ((decoded _).symm.trans decodes.contentCt)
  rw [← salt] at again
  cases again.symm.trans stretched
  rw [← wrapNonce, ← wrappedKey] at unwrapped
  have own := sodium.aead.opens_sealed wrapKey s.wrapNonce.val (Cli.buildAADV2 s.skeleton)
    s.vaultKey.val
  cases Option.some.inj (unwrapped.symm.trans own)
  rw [← contentNonce, ← contentCt] at content
  have lengths := sodium.aead.encrypt_length s.vaultKey.val s.contentNonce.val
    (Cli.buildAADV2 s.skeleton) s.ptBytes
  have front : c.take s.ptBytes.length =
      (s.decoded sodium.aead wrapKey).contentCt.take s.ptBytes.length := by
    have shorter : s.ptBytes.length ≤ c.length - 5 := by
      rw [length]
      exact Nat.le_sub_of_add_le (lengths ▸ Nat.add_le_add_left (by decide) _)
    have parts := congrArg (List.take s.ptBytes.length) body
    rwa [List.take_take, List.take_take, Nat.min_eq_left shorter] at parts
  have failed := last.decrypt_changed (length.trans lengths) front other
  cases content.symm.trans failed

end Tampering

theorem changed_eq_self_iff {s : JsString} (four : 4 ≤ s.length) :
    changed (.str s) = some s ↔ js "AAAA" <:+ s := by
  rw [changed, Option.some_inj]
  constructor
  · intro same
    exact ⟨_, same⟩
  · rintro ⟨front, rfl⟩
    have end_length : (js "AAAA").length = 4 := by decide
    rw [List.length_append, end_length, Nat.add_sub_cancel, List.take_left]

/-- What was shown before is not looked at. -/
theorem openVault_shown (page : ToolPage) (status : Status) (engine : Engine) (sodium : Sodium) :
    ToolPage.openVault { page with status, decrypted := [] } engine sodium =
      page.openVault engine sodium := by
  rw [ToolPage.openVault, ToolPage.openVault]
  split
  · rfl
  · cases Js.parseJson page.vaultText with
    | none => rfl
    | some vault =>
      dsimp only
      cases decryptVaultV2 sodium vault page.openPhrase with
      | error e => rfl
      | ok text =>
        dsimp only
        rw [ToolPage.showOpened, ToolPage.showOpened]

def ciphertextOf (vault : Js.Value) : Option JsString :=
  (get vault "content").bind fun content => stringField content "ciphertext"

/-- A vault that does not open leaves nothing shown. -/
theorem openVault_refused (engine : Engine) {sodium : Sodium} {page : ToolPage} {vault : Js.Value}
    (some_text : trim page.vaultText ≠ []) (parsed : Js.parseJson page.vaultText = some vault)
    (refused : ∀ t, decryptVaultV2 sodium vault page.openPhrase ≠ .ok t) :
    ∃ e, page.openVault engine sodium =
      { page with decrypted := [], openedFile := none, status := bad e } := by
  cases opened : decryptVaultV2 sodium vault page.openPhrase with
  | ok t => exact absurd opened (refused t)
  | error e =>
    refine ⟨e, ?_⟩
    rw [ToolPage.openVault]
    dsimp only
    rw [if_neg some_text, parsed]
    dsimp only
    rw [opened]

/-- The vault is written again with what its ciphertext was changed to. -/
theorem tamperVault_eq (engine : Engine) {sodium : Sodium} {s : Settings} {wrapKey c : Bytes}
    {page : ToolPage} (ops : Js.Plain s.opslimit) (mem : Js.Plain s.memlimit)
    (vaultText : page.vaultText = Js.stringify (s.lock sodium.aead wrapKey).toValue)
    (ciphertext : changed (.str (b64urlEncode (s.decoded sodium.aead wrapKey).contentCt)) =
      some (b64urlEncode c)) :
    page.tamperVault engine =
      { page with
        vaultText := Js.stringify
          (withCiphertext (s.lock sodium.aead wrapKey) (b64urlEncode c)).toValue
        decrypted := []
        status := ⟨.bad, js "One part of the vault was changed. Opening should now fail."⟩ } := by
  have some_text : trim page.vaultText ≠ [] := by
    rw [vaultText]
    exact trim_stringify _
  have field : ((get (s.lock sodium.aead wrapKey).toValue "content").bind fun content =>
      get content "ciphertext") =
        some (.str (b64urlEncode (s.decoded sodium.aead wrapKey).contentCt)) := rfl
  rw [ToolPage.tamperVault, if_neg some_text, vaultText,
    (parseJson_toValue (v := s.lock sodium.aead wrapKey) ops mem).2]
  dsimp only
  rw [field, Option.bind_some, ciphertext]
  dsimp only
  rw [setCiphertext_toValue]

/-- After the tamper test a vault does not open with its phrase, and nothing is
shown, unless its ciphertext ended in four letters A: then it is what it was. -/
theorem tampered_opens (engine : Engine) (sodium : Sodium) (last : sodium.aead.TagLast)
    (page : ToolPage) (vault : Js.Value) (bytes : Bytes)
    (made : Made sodium vault page.openPhrase bytes)
    (vaultText : page.vaultText = Js.stringify vault) :
    ∃ ciphertext, ciphertextOf vault = some ciphertext ∧
      (js "AAAA" <:+ ciphertext →
        (page.tamperVault engine).openVault engine sodium = page.openVault engine sodium) ∧
      (¬ js "AAAA" <:+ ciphertext →
        ((page.tamperVault engine).openVault engine sodium).status.kind = .bad ∧
        ((page.tamperVault engine).openVault engine sodium).decrypted = [] ∧
        ((page.tamperVault engine).openVault engine sodium).openedFile = none) := by
  obtain ⟨s, wrapKey, password, -, ops, mem, stretched, rfl⟩ := made.settings
  have length : 17 ≤ (s.decoded sodium.aead wrapKey).contentCt.length := by
    have tagged : (s.decoded sodium.aead wrapKey).contentCt.length = s.ptBytes.length + 16 :=
      sodium.aead.encrypt_length _ _ _ _
    have some_bytes := s.ptBytes_nonempty
    omega
  obtain ⟨c, ciphertext, lengths, body⟩ := changed_b64url length
  have four : 4 ≤ (b64urlEncode (s.decoded sodium.aead wrapKey).contentCt).length := by
    have longer := Base64.length_le_encode (s.decoded sodium.aead wrapKey).contentCt
    rw [b64urlEncode, List.length_map]
    omega
  have suffix_iff := changed_eq_self_iff four
  rw [ciphertext, Option.some_inj] at suffix_iff
  have tampered := tamperVault_eq engine ops mem vaultText ciphertext
  refine ⟨_, rfl, ?_, ?_⟩
  · intro suffix
    have same : withCiphertext (s.lock sodium.aead wrapKey) (b64urlEncode c) =
        s.lock sodium.aead wrapKey := by
      rw [suffix_iff.mpr suffix]
      rfl
    rw [tampered, same, ← vaultText]
    exact openVault_shown page _ engine sodium
  · intro other
    have differs : c ≠ (s.decoded sodium.aead wrapKey).contentCt := by
      rintro same
      rw [same] at suffix_iff
      exact other (suffix_iff.mp rfl)
    rw [← lengths] at body
    have refused (t : JsString) := decrypt_withCiphertext last stretched lengths body differs
      (t := t)
    rw [password] at refused
    have pasted : (page.tamperVault engine).vaultText = Js.stringify
        (withCiphertext (s.lock sodium.aead wrapKey) (b64urlEncode c)).toValue := by
      rw [tampered]
    have phrase : (page.tamperVault engine).openPhrase = page.openPhrase := by
      rw [tampered]
    have parsed := (parseJson_toValue
      (v := withCiphertext (s.lock sodium.aead wrapKey) (b64urlEncode c)) ops mem).2
    rw [← phrase] at refused
    rw [← pasted] at parsed
    obtain ⟨e, failed⟩ := openVault_refused engine (pasted ▸ trim_stringify _) parsed refused
    rw [failed]
    exact ⟨rfl, rfl, rfl⟩

/-! ## One page -/

def sampleEngine : Engine :=
  ⟨fun n => js (toString n), fun _ => js "not valid JSON", fun _ => js "not a vault"⟩

def sampleFile : File := ⟨js "notes/a b.txt", [], [0xFF, 0x00, 0x41]⟩

/-- One key for every phrase, and one tag. -/
def sampleSodium : Sodium :=
  ⟨fun n _ _ _ _ => .ok (.replicate n 0), .tagBehind (FixedBytes.fill _ 7)⟩

def samplePage (mode : InputMode) : ToolPage where
  plain := js "hello"
  inputMode := mode
  pickedFile := some sampleFile
  lockPhrase := js "correct horse"
  openPhrase := []
  preset := .quick
  vaultText := []
  status := ⟨.idle, js "Ready."⟩
  decrypted := []
  openedFile := none

theorem sample_opens :
    ((samplePage .file).reopened sampleEngine sampleSodium Cli.sampleDraw).downloadOpenedFile =
      some ⟨js "notes_a_b.txt", [0xFF, 0x00, 0x41], some (.str (js "application/octet-stream"))⟩ ∧
    ((samplePage .text).reopened sampleEngine sampleSodium Cli.sampleDraw).decrypted =
      js "hello" := by
  have file := (locked_opens sampleEngine sampleSodium (samplePage .file) Cli.sampleDraw
    (.replicate KEY_BYTES 0) rfl (by decide)).2.1 sampleFile rfl rfl (by decide) (by decide)
      (by decide)
  have text := (locked_opens sampleEngine sampleSodium (samplePage .text) Cli.sampleDraw
    (.replicate KEY_BYTES 0) rfl (by decide)).2.2 rfl (by decide) (by decide)
  have name : safeFileName (some (.str sampleFile.name)) = js "notes_a_b.txt" := by decide
  refine ⟨?_, ?_⟩
  · rw [file.2.2, name]
    rfl
  · exact (text.mpr ⟨⟨_, rfl⟩, by decide, by decide⟩).2.2

theorem sample_changed : ∃ vault, Made sampleSodium vault (js "correct horse") (utf8 (js "hello")) ∧
    ((ToolPage.tamperVault { samplePage .text with
        openPhrase := js "correct horse", vaultText := Js.stringify vault } sampleEngine).openVault
      sampleEngine sampleSodium).status.kind = .bad := by
  obtain ⟨vault, encrypted⟩ := exists_of_isOk (x := encryptVaultV2 sampleSodium sampleLock
    Cli.sampleDraw) (by decide +kernel)
  have ending : ∀ ciphertext, ((encryptVaultV2 sampleSodium sampleLock
      Cli.sampleDraw).toOption.bind ciphertextOf) = some ciphertext →
        ¬ js "AAAA" <:+ ciphertext := by
    intro ciphertext field
    have text : ((encryptVaultV2 sampleSodium sampleLock Cli.sampleDraw).toOption.bind
        ciphertextOf) = some (js "aGVsbG8HBwcHBwcHBwcHBwcHBwcH") := by
      decide +kernel
    cases field.symm.trans text
    decide
  rw [encrypted] at ending
  have made : Made sampleSodium vault (js "correct horse") (utf8 (js "hello")) := .web encrypted
  obtain ⟨ciphertext, field, -, refused⟩ := tampered_opens sampleEngine sampleSodium
    (Aead.tagBehind_tagLast _) { samplePage .text with
      openPhrase := js "correct horse", vaultText := Js.stringify vault } vault _ made rfl
  exact ⟨vault, made, (refused (ending _ field)).1⟩

end Qev.Web
