import Qev.Ui.Chat

/-! A chat message that is copied and opened as a vault (`chat.js`), against the
thread that it was copied from (`chat-ui.js`). -/

namespace Qev.Ui

open Js (JsString js)
open Cli (KEY_BYTES b64urlEncode get utf8)
open Notify (from_base64 isStrSpace trim)

/-! ## The form -/

/-- `String.prototype.toLowerCase`, which takes of ASCII the letters. -/
structure LowerCase where
  apply : JsString → JsString
  ascii : ∀ s, (∀ u ∈ s, u.toNat < 0x80) → apply s = s.map lowerUnit

structure ChatResult where
  plaintext : JsString
  info : JsString
  deriving DecidableEq

def isChatSchema : Option Js.Value → Bool
  | some (.str s) => s = CHAT_SCHEMA
  | _ => false

/-- An array of two, each as a string. -/
def idsOf (ids : Option Js.Value) : Except JsString (JsString × JsString) :=
  match ids with
  | some (.arr [a, b]) => .ok (Js.display a, Js.display b)
  | _ => .error (js "Chat envelope missing 'ids' pair")

def textsOf (nonce ct : Option Js.Value) : Except JsString (JsString × JsString) :=
  match nonce, ct with
  | some (.str nonce), some (.str ct) => .ok (nonce, ct)
  | _, _ => .error (js "Chat envelope missing 'nonce' or 'ct'")

/-- The two texts, and the decryption under the key. -/
def openTexts (decrypt : (key nonce aad ciphertext : Bytes) → Option Bytes) (nonce ct : JsString)
    (key : Bytes) : Except JsString JsString :=
  match b64urlDecode nonce, b64urlDecode ct with
  | .ok nonceBytes, .ok ctBytes =>
    match decrypt key nonceBytes [] ctBytes with
    | none => .error (js "Wrong phrase (AEAD auth tag mismatch)")
    | some ptBytes => .ok (Js.textDecodeLossy ptBytes)
  | _, _ => .error (js "Chat envelope base64 malformed")

def decryptParsed (lower : LowerCase) (hash : Generichash)
    (decrypt : (key nonce aad ciphertext : Bytes) → Option Bytes) (parsed : Js.Value)
    (phrase : JsString) : Except JsString ChatResult := do
  let ids ← idsOf (get parsed "ids")
  let texts ← textsOf (get parsed "nonce") (get parsed "ct")
  if phrase = [] then throw (js "Type the shared phrase to decrypt the chat message")
  else
    let ids := sort (lower.apply ids.1) (lower.apply ids.2)
    let plaintext ← openTexts decrypt texts.1 texts.2 (hash (combined phrase ids)).val
    return {
      plaintext
      info := js "Schema: QEV-CHAT-ENVELOPE-V1  |  Participants: " ++ ids.1.take 8 ++ js "… ↔ " ++
        ids.2.take 8 ++ js "…" }

/-- `null` is what no chat envelope is. -/
def tryDecryptChatEnvelope (lower : LowerCase) (hash : Generichash)
    (decrypt : (key nonce aad ciphertext : Bytes) → Option Bytes) (raw phrase : JsString) :
    Except JsString (Option ChatResult) :=
  let trimmed := trim raw
  if trimmed.head? ≠ some (Js.ascii '\x7b') then .ok none
  else
    match Js.parseJson trimmed with
    | none => .ok none
    | some parsed =>
      if isChatSchema (get parsed "schema") then
        (decryptParsed lower hash decrypt parsed phrase).map some
      else .ok none

/-- The plaintext that the form shows for a chat envelope. -/
def formShows (lower : LowerCase) (hash : Generichash)
    (decrypt : (key nonce aad ciphertext : Bytes) → Option Bytes) (raw phrase : JsString) :
    Option JsString :=
  (tryDecryptChatEnvelope lower hash decrypt raw phrase).toOption.bind fun result =>
    result.map ChatResult.plaintext

/-! ## The thread -/

namespace Session

/-- The dialog, where nothing is done without a phrase. -/
def afterDialog (s : Session) (hash : Generichash) (peerId : PublicHex) (typed : JsString) :
    Session :=
  if trim typed = [] then s else (s.setPhraseKey hash peerId (trim typed)).1

/-- The plaintext that the thread shows of an envelope. -/
def threadShows (s : Session) (decrypt : (key nonce aad ciphertext : Bytes) → Option Bytes)
    (rawText : JsString) (peerId : PublicHex) : Option JsString := do
  let env ← envelopeOf rawText
  let key ← s.phraseKeys peerId
  (openMessage decrypt (get env "nonce") (get env "ct") key.val).toOption

theorem threadShows_eq {s : Session} {peerId : PublicHex} {key : FixedBytes KEY_BYTES}
    {rawText : JsString} {env : Js.Value} (unlocked : s.phraseKeys peerId = some key)
    (read : envelopeOf rawText = some env)
    (decrypt : (key nonce aad ciphertext : Bytes) → Option Bytes) :
    s.threadShows decrypt rawText peerId =
      (openMessage decrypt (get env "nonce") (get env "ct") key.val).toOption := by
  rw [threadShows, read, Option.bind_eq_bind, Option.bind_some, unlocked, Option.bind_eq_bind,
    Option.bind_some]

/-- It is what is displayed; where there is none, the display says so. -/
theorem displayed_unlocked {s : Session} {peerId : PublicHex} {key : FixedBytes KEY_BYTES}
    {rawText : JsString} {env : Js.Value} (unlocked : s.phraseKeys peerId = some key)
    (read : envelopeOf rawText = some env)
    (decrypt : (key nonce aad ciphertext : Bytes) → Option Bytes) :
    s.displayed decrypt rawText peerId =
      ((s.threadShows decrypt rawText peerId).getD cannot_decrypt, false, none) := by
  rw [threadShows_eq unlocked read, displayed, read]
  dsimp only
  rw [unlocked]
  dsimp only
  rw [decryptMessage]
  cases openMessage decrypt (get env "nonce") (get env "ct") key.val with
  | error e => rfl
  | ok text => rfl

end Session

/-! ## White space of phrases -/

/-- White space, of a character. -/
def isSpaceChar (c : Char) : Bool := c.toNat < 0x10000 && isStrSpace (UInt16.ofNat c.toNat)

theorem space_unit {u : UInt16} (space : isStrSpace u = true) :
    Utf16.isHigh u = false ∧ Utf16.isLow u = false := by
  have small : u.toNat < 0xD800 ∨ u.toNat = 0xFEFF := by
    simp only [isStrSpace, Bool.or_eq_true, Bool.and_eq_true, decide_eq_true_eq,
      UInt16.le_iff_toNat_le, List.mem_cons, List.not_mem_nil, or_false] at space
    rcases space with (⟨-, le⟩ | listed) | ⟨-, le⟩
    · exact .inl (lt_of_le_of_lt le (by decide))
    · rcases listed with rfl | rfl | rfl | rfl | rfl | rfl | rfl | rfl | rfl <;> decide
    · exact .inl (lt_of_le_of_lt le (by decide))
  simp only [Utf16.isHigh, Utf16.isLow, Bool.and_eq_false_iff, decide_eq_false_iff_not]
  omega

theorem isSpaceChar_decodeUnit (u : UInt16) : isSpaceChar (Utf16.decodeUnit u) = isStrSpace u := by
  rw [Utf16.decodeUnit]
  split
  · rename_i surrogate
    have other : isStrSpace u = false := by
      by_contra space
      obtain ⟨high, low⟩ := space_unit (Bool.not_eq_false _ ▸ space)
      rw [high, low] at surrogate
      exact absurd surrogate (by decide)
    rw [other]
    decide
  · rename_i plain
    rw [not_or, Bool.not_eq_true, Bool.not_eq_true] at plain
    rw [isSpaceChar, Utf16.toNat_unit plain.1 plain.2, UInt16.ofNat_toNat,
      decide_eq_true u.toNat_lt, Bool.true_and]

theorem isSpaceChar_decodePair {a b : UInt16} (high : Utf16.isHigh a = true)
    (low : Utf16.isLow b = true) : isSpaceChar (Utf16.decodePair a b) = false := by
  have large : ¬ (Utf16.decodePair a b).toNat < 0x10000 := by
    rw [Utf16.toNat_decodePair high low]
    omega
  rw [isSpaceChar, decide_eq_false large, Bool.false_and]

theorem decodeLossy_dropWhile (s : JsString) : Utf16.decodeLossy (s.dropWhile isStrSpace) =
    (Utf16.decodeLossy s).dropWhile isSpaceChar := by
  induction s with
  | nil => rfl
  | cons u s ih =>
    by_cases space : isStrSpace u = true
    · rw [List.dropWhile_cons_of_pos space, ih, Utf16.decodeLossy_single (space_unit space).1,
        List.dropWhile_cons_of_pos ((isSpaceChar_decodeUnit u).trans space)]
    · have kept : isSpaceChar (Utf16.decodeUnit u) ≠ true := by
        rwa [isSpaceChar_decodeUnit]
      rw [List.dropWhile_cons_of_neg space]
      cases s with
      | nil => exact (List.dropWhile_cons_of_neg kept).symm
      | cons v s =>
        rw [Utf16.decodeLossy]
        split
        · rename_i pair
          have other := isSpaceChar_decodePair pair.1 pair.2
          rw [List.dropWhile_cons_of_neg (by rw [other]; exact Bool.false_ne_true)]
        · rw [List.dropWhile_cons_of_neg kept]

/-- The last unit, where it is white space, is a character of its own. -/
theorem decodeLossy_concat_space {u : UInt16} (space : isStrSpace u = true) (s : JsString) :
    Utf16.decodeLossy (s ++ [u]) = Utf16.decodeLossy s ++ [Utf16.decodeUnit u] := by
  have low := (space_unit space).2
  fun_induction Utf16.decodeLossy s with
  | case1 a b rest pair ih =>
    rw [List.cons_append, List.cons_append, Utf16.decodeLossy, if_pos pair, ih, List.cons_append]
  | case2 a b rest alone ih =>
    rw [List.cons_append, List.cons_append, Utf16.decodeLossy, if_neg alone, ← List.cons_append, ih,
      List.cons_append]
  | case3 a =>
    rw [List.singleton_append, Utf16.decodeLossy, low, if_neg (by simp)]
    rfl
  | case4 => rfl

theorem decodeLossy_concat {u : UInt16} (other : isStrSpace u = false) (s : JsString) :
    ∃ cs c, Utf16.decodeLossy (s ++ [u]) = cs ++ [c] ∧ isSpaceChar c = false := by
  have last := (isSpaceChar_decodeUnit u).trans other
  fun_induction Utf16.decodeLossy s with
  | case1 a b rest pair ih =>
    obtain ⟨cs, c, chars, kept⟩ := ih
    refine ⟨Utf16.decodePair a b :: cs, c, ?_, kept⟩
    rw [List.cons_append, List.cons_append, Utf16.decodeLossy, if_pos pair, chars, List.cons_append]
  | case2 a b rest alone ih =>
    obtain ⟨cs, c, chars, kept⟩ := ih
    refine ⟨Utf16.decodeUnit a :: cs, c, ?_, kept⟩
    rw [List.cons_append, List.cons_append, Utf16.decodeLossy, if_neg alone, ← List.cons_append,
      chars, List.cons_append]
  | case3 a =>
    rw [List.singleton_append, Utf16.decodeLossy]
    split
    · rename_i pair
      exact ⟨[], _, rfl, isSpaceChar_decodePair pair.1 pair.2⟩
    · exact ⟨[Utf16.decodeUnit a], _, rfl, last⟩
  | case4 => exact ⟨[], _, rfl, last⟩

theorem decodeLossy_rdropWhile (s : JsString) : Utf16.decodeLossy (s.rdropWhile isStrSpace) =
    (Utf16.decodeLossy s).rdropWhile isSpaceChar := by
  induction s using List.reverseRecOn with
  | nil => rfl
  | append_singleton s u ih =>
    by_cases space : isStrSpace u = true
    · rw [List.rdropWhile_concat_pos _ _ _ space, ih, decodeLossy_concat_space space,
        List.rdropWhile_concat_pos _ _ _ ((isSpaceChar_decodeUnit u).trans space)]
    · obtain ⟨cs, c, chars, kept⟩ := decodeLossy_concat (Bool.not_eq_true _ ▸ space) s
      rw [List.rdropWhile_concat_neg _ _ _ space, chars,
        List.rdropWhile_concat_neg _ _ _ (by rw [kept]; exact Bool.false_ne_true)]

/-- Trimming goes by characters, so that of two texts of one encoding both are
trimmed to one again. -/
theorem utf8_trim {s t : JsString} (same : utf8 s = utf8 t) : utf8 (trim s) = utf8 (trim t) := by
  have chars : Utf16.decodeLossy s = Utf16.decodeLossy t := Utf8.encode_injective same
  rw [utf8, utf8, Js.textEncode, Js.textEncode, trim, trim, decodeLossy_rdropWhile,
    decodeLossy_rdropWhile, decodeLossy_dropWhile, decodeLossy_dropWhile, chars]

/-! ## What is copied -/

theorem trim_eq_self {s : JsString} {u v : UInt16} (first : s.head? = some u)
    (last : s.getLast? = some v) (hu : isStrSpace u = false) (hv : isStrSpace v = false) :
    trim s = s := by
  have front : s.dropWhile isStrSpace = s := by
    cases s with
    | nil => rfl
    | cons x s =>
      obtain rfl := Option.some.inj first
      rw [List.dropWhile_cons_of_neg (by rw [hu]; exact Bool.false_ne_true)]
  obtain ⟨init, rfl⟩ : ∃ init, s = init ++ [v] := List.getLast?_eq_some_iff.mp last
  rw [trim, front, List.rdropWhile_concat_neg _ _ _ (by rw [hv]; exact Bool.false_ne_true)]

/-- The text of an object has braces at its ends. -/
theorem trim_print (fields : List (JsString × Js.Value)) :
    trim (Json.print Js.printer (.obj fields)) = Json.print Js.printer (.obj fields) ∧
      (Json.print Js.printer (.obj fields)).head? = some (Js.ascii '\x7b') := by
  have first : (Json.print Js.printer (.obj fields)).head? = some (Js.ascii '\x7b') := rfl
  have last : (Json.print Js.printer (.obj fields)).getLast? = some (Js.ascii '\x7d') := by
    rw [Json.print]
    exact List.getLast?_concat
  exact ⟨trim_eq_self first last (by decide) (by decide), first⟩

theorem lowerUnit_lowerUnit (u : UInt16) : lowerUnit (lowerUnit u) = lowerUnit u := by
  rw [lowerUnit, lowerUnit]
  split_ifs with upper again
  · have low : 65 ≤ u.toNat := upper.1
    have high : u.toNat ≤ 90 := upper.2
    have bound : (u + 32).toNat ≤ 90 := again.2
    rw [UInt16.toNat_add] at bound
    change (u.toNat + 32) % _ ≤ _ at bound
    omega
  · rfl
  · rfl

/-- Identifiers that were sorted and in lower case stay so. -/
theorem lower_ids (lower : LowerCase) (own peer : PublicHex) :
    sort (lower.apply (own.ids peer).1) (lower.apply (own.ids peer).2) = own.ids peer := by
  have each (pk : PublicHex) : lower.apply pk.toLowerCase = pk.toLowerCase := by
    rw [lower.ascii _ pk.toLowerCase_ascii, PublicHex.toLowerCase, List.map_map]
    exact List.map_congr_left fun u _ => lowerUnit_lowerUnit u
  rw [PublicHex.ids]
  rcases sort_cases own.toLowerCase peer.toLowerCase with h | h
  · rw [h, each, each, h]
  · rw [h, each, each, sort_comm, h]

theorem keys_get {P : List JsString → Prop} {v w : Js.Value} {key : JsString}
    (keys : Json.Keys P v) (found : Json.get key v = some w) : Json.Keys P w := by
  cases v with
  | obj fields =>
    obtain ⟨f, here, rfl⟩ := Option.map_eq_some_iff.mp found
    exact Json.keysFields_iff.mp keys.2 f (List.mem_of_find?_eq_some here)
  | null | bool | num | str | arr => cases found

theorem exists_of_truthy {v : Option Js.Value} (truthy : Js.truthy v = true) : ∃ w, v = some w := by
  cases v with
  | none => cases truthy
  | some w => exact ⟨w, rfl⟩

/-- What is in an envelope, as `JSON.parse` made it. -/
theorem envelopeOf_fields {rawText : JsString} {env : Js.Value}
    (read : envelopeOf rawText = some env) : ∃ nonce ct, get env "nonce" = some nonce ∧
      get env "ct" = some ct ∧ Json.Keys Js.Ordered nonce ∧ Json.Keys Js.Ordered ct := by
  rw [envelopeOf] at read
  split at read
  · obtain ⟨parsed, fields⟩ := Option.filter_eq_some_iff.mp read
    rw [Bool.and_eq_true, Bool.and_eq_true] at fields
    obtain ⟨v, -, rfl⟩ := Option.map_eq_some_iff.mp parsed
    have ordered := Js.ordered_objects v
    obtain ⟨nonce, some_nonce⟩ := exists_of_truthy fields.1.2
    obtain ⟨ct, some_ct⟩ := exists_of_truthy fields.2
    exact ⟨nonce, ct, some_nonce, some_ct, keys_get ordered some_nonce, keys_get ordered some_ct⟩
  · cases read

/-- A text is read again as it was, and what is none is none again. -/
theorem written_cases (v : Js.Value) : (∃ s, v = .str s ∧ Js.written v = .str s) ∨
    (∀ s, v ≠ .str s) ∧ ∀ s, Js.written v ≠ .str s := by
  cases v with
  | str s => exact .inl ⟨s, rfl, rfl⟩
  | num x =>
    right
    constructor
    · intro s same
      cases same
    · intro s same
      cases x with
      | nan | infinity => cases same
      | finite negative bits =>
        rw [Js.written, Js.writtenNumber] at same
        split at same <;> cases same
  | null | bool | arr | obj =>
    right
    constructor <;>
    · intro s same
      cases same

theorem from_base64_other {v : Js.Value} (other : ∀ s, v ≠ .str s) :
    from_base64 (some v) = .error (js "unsupported input type for input") := by
  cases v with
  | str s => exact absurd rfl (other s)
  | null | bool | num | arr | obj => rfl

theorem textsOf_other {nonce ct : Js.Value} (other : (∀ s, nonce ≠ .str s) ∨ ∀ s, ct ≠ .str s) :
    textsOf (some nonce) (some ct) = .error (js "Chat envelope missing 'nonce' or 'ct'") := by
  rw [textsOf]
  intro nonce' ct' first second
  obtain rfl := Option.some.inj first
  obtain rfl := Option.some.inj second
  rcases other with other | other
  · exact other nonce' rfl
  · exact other ct' rfl

def portableValue (ids : JsString × JsString) (nonce ct : Js.Value) : Js.Value :=
  .obj [(js "schema", .str CHAT_SCHEMA), (js "ids", .arr [.str ids.1, .str ids.2]),
    (js "nonce", nonce), (js "ct", ct), (js "v", .num (.ofNat 1))]

theorem parseJson_portable (ids : JsString × JsString) {nonce ct : Js.Value}
    (nonceKeys : Json.Keys Js.Ordered nonce) (ctKeys : Json.Keys Js.Ordered ct) :
    Js.parseJson (Json.print Js.printer (portableValue ids nonce ct)) =
      some (Js.written (portableValue ids nonce ct)) := by
  have order : Js.Ordered [js "schema", js "ids", js "nonce", js "ct", js "v"] := by decide
  apply Js.parseJson_print
  exact ⟨order, trivial, ⟨trivial, trivial, trivial⟩, nonceKeys, ctKeys, trivial, trivial⟩

theorem trim_portable (ids : JsString × JsString) (nonce ct : Js.Value) :
    trim (Json.print Js.printer (portableValue ids nonce ct)) =
        Json.print Js.printer (portableValue ids nonce ct) ∧
      (Json.print Js.printer (portableValue ids nonce ct)).head? = some (Js.ascii '\x7b') :=
  trim_print _

/-- Two texts open in the form as in the thread. -/
theorem openTexts_toOption (decrypt : (key nonce aad ciphertext : Bytes) → Option Bytes)
    (nonce ct : JsString) (key : Bytes) : (openTexts decrypt nonce ct key).toOption =
      (openMessage decrypt (some (.str nonce)) (some (.str ct)) key).toOption := by
  rw [openTexts, openMessage, from_base64, from_base64]
  cases b64urlDecode nonce with
  | error e => rfl
  | ok nonceBytes =>
    cases b64urlDecode ct with
    | error e => rfl
    | ok ctBytes =>
      rw [ok_bind, ok_bind]
      dsimp only
      cases decrypt key nonceBytes [] ctBytes with
      | none => rfl
      | some pt => rfl

/-- The form opens what the thread would open with the text that was typed. -/
theorem formShows_portable (lower : LowerCase) (hash : Generichash)
    (decrypt : (key nonce aad ciphertext : Bytes) → Option Bytes) (own peer : PublicHex)
    {rawText : JsString} {env : Js.Value} (read : envelopeOf rawText = some env)
    (typed : JsString) :
    formShows lower hash decrypt (portable (own.ids peer) env) typed =
      if typed = [] then none
      else (openMessage decrypt (get env "nonce") (get env "ct")
        (hash (combined typed (own.ids peer))).val).toOption := by
  obtain ⟨nonce, ct, some_nonce, some_ct, nonceKeys, ctKeys⟩ := envelopeOf_fields read
  have copied : portable (own.ids peer) env =
      Json.print Js.printer (portableValue (own.ids peer) nonce ct) := by
    rw [portable, some_nonce, some_ct]
    rfl
  have fields : isChatSchema (get (Js.written (portableValue (own.ids peer) nonce ct)) "schema") ∧
      idsOf (get (Js.written (portableValue (own.ids peer) nonce ct)) "ids") = .ok (own.ids peer) ∧
      get (Js.written (portableValue (own.ids peer) nonce ct)) "nonce" = some (Js.written nonce) ∧
      get (Js.written (portableValue (own.ids peer) nonce ct)) "ct" = some (Js.written ct) :=
    ⟨rfl, rfl, rfl, rfl⟩
  obtain ⟨trimmed, brace⟩ := trim_portable (own.ids peer) nonce ct
  have parsed : tryDecryptChatEnvelope lower hash decrypt (portable (own.ids peer) env) typed =
      (decryptParsed lower hash decrypt (Js.written (portableValue (own.ids peer) nonce ct))
        typed).map some := by
    rw [copied, tryDecryptChatEnvelope, trimmed, brace, parseJson_portable _ nonceKeys ctKeys]
    dsimp only
    rw [if_neg (not_not_intro rfl), if_pos fields.1]
  rw [formShows, parsed, decryptParsed, fields.2.1, fields.2.2.1, fields.2.2.2, ok_bind, some_nonce,
    some_ct]
  rcases written_cases nonce with ⟨n, rfl, written⟩ | other
  · rcases written_cases ct with ⟨c, rfl, written'⟩ | other
    · rw [written, written', textsOf, ok_bind, ← openTexts_toOption, lower_ids]
      split
      · rfl
      · dsimp only
        cases openTexts decrypt n c (hash (combined typed (own.ids peer))).val with
        | error e => rfl
        | ok text => rfl
    · rw [textsOf_other (.inr other.2), openMessage, from_base64_other other.1]
      cases from_base64 (some (.str n)) with
      | error e => exact (ite_self _).symm
      | ok bytes => exact (ite_self _).symm
  · rw [textsOf_other (.inl other.2), openMessage, from_base64_other other.1]
    exact (ite_self _).symm

/-! ## Typed here and there -/

section Typed

variable {hash : Generichash} {aead : Aead} {sendings : List Sending} {own peer : PublicHex}
  {env : Js.Value} {phrase : JsString}

/-- The envelope is of a message that was sent under the phrase between the two. -/
def SentUnder (hash : Generichash) (aead : Aead) (sendings : List Sending) (own peer : PublicHex)
    (env : Js.Value) (phrase : JsString) : Prop :=
  ∃ x ∈ sendings, trim x.value ≠ [] ∧ Agree x.phrase x.own x.peer phrase own peer ∧
    from_base64 (get env "nonce") = .ok x.nonce.val ∧
    from_base64 (get env "ct") = .ok (aead.ideal.ciphertext (x.sealed_ hash))

theorem openMessage_eq_ok {decrypt : (key nonce aad ciphertext : Bytes) → Option Bytes}
    {nonce ct : Option Js.Value} {key : Bytes} {text : JsString} :
    openMessage decrypt nonce ct key = .ok text ↔ ∃ nonceBytes ctBytes pt,
      from_base64 nonce = .ok nonceBytes ∧ from_base64 ct = .ok ctBytes ∧
      decrypt key nonceBytes [] ctBytes = some pt ∧ text = Js.textDecodeLossy pt := by
  rw [openMessage, bind_eq_ok]
  simp only [bind_eq_ok]
  constructor
  · rintro ⟨nonceBytes, first, ctBytes, second, opened⟩
    cases decrypted : decrypt key nonceBytes [] ctBytes with
    | none =>
      rw [decrypted] at opened
      cases opened
    | some pt =>
      rw [decrypted] at opened
      exact ⟨nonceBytes, ctBytes, pt, first, second, decrypted, (Except.ok.inj opened).symm⟩
  · rintro ⟨nonceBytes, ctBytes, pt, first, second, decrypted, rfl⟩
    refine ⟨nonceBytes, first, ctBytes, second, ?_⟩
    rw [decrypted]
    rfl

theorem opens_iff (ideal : Ideal hash aead sendings (combined phrase (own.ids peer))) :
    (openMessage (aead.ideal.decrypt (Sending.log hash sendings)) (get env "nonce") (get env "ct")
      (hash (combined phrase (own.ids peer))).val).toOption.isSome ↔
      SentUnder hash aead sendings own peer env phrase := by
  simp only [Option.isSome_iff_exists, toOption_eq_some, openMessage_eq_ok,
    IdealAead.decrypt_eq_some]
  constructor
  · rintro ⟨text, nonce, ct, pt, first, second, ⟨logged, rfl⟩, -⟩
    obtain ⟨x, mem, same⟩ := List.mem_map.mp logged
    obtain ⟨mem, some_text⟩ := List.mem_filter.mp mem
    have keys : (hash x.input).val = (hash (combined phrase (own.ids peer))).val :=
      congrArg Sealed.key same
    have inputs := ideal.collision_free x mem (Subtype.ext keys)
    have nonces : x.nonce.val = nonce := congrArg Sealed.nonce same
    have agree := (combined_ids_eq_iff _ _ _ _ _ _).mp inputs
    refine ⟨x, mem, of_decide_eq_true some_text, agree, ?_, ?_⟩
    · rw [first, nonces]
    · rw [second, same]
      rfl
  · rintro ⟨x, mem, some_text, agree, first, second⟩
    have inputs : x.input = combined phrase (own.ids peer) :=
      (combined_ids_eq_iff _ _ _ _ _ _).mpr agree
    refine ⟨_, x.nonce.val, _, utf8 (trim x.value), first, second, ?_, rfl⟩
    rw [← inputs]
    exact ⟨Sending.mem_log mem some_text, rfl⟩

theorem SentUnder.congr {phrase' : JsString} (same : utf8 phrase = utf8 phrase')
    (sent : SentUnder hash aead sendings own peer env phrase) :
    SentUnder hash aead sendings own peer env phrase' := by
  obtain ⟨x, mem, some_text, ⟨phrases, pair⟩, rest⟩ := sent
  exact ⟨x, mem, some_text, ⟨phrases.trans same, pair⟩, rest⟩

/-- Sent phrases are trimmed, so that one that was typed in full is one that was trimmed. -/
theorem SentUnder.trimmed (dialogs : ∀ x ∈ sendings, trim x.phrase = x.phrase)
    (sent : SentUnder hash aead sendings own peer env phrase) :
    utf8 (trim phrase) = utf8 phrase := by
  obtain ⟨x, mem, -, ⟨phrases, -⟩, -⟩ := sent
  rw [← utf8_trim phrases, dialogs x mem, phrases]

theorem SentUnder.nonempty (dialogs : ∀ x ∈ sendings, x.phrase ≠ [])
    (sent : SentUnder hash aead sendings own peer env phrase) : utf8 phrase ≠ [] := by
  obtain ⟨x, mem, -, ⟨phrases, -⟩, -⟩ := sent
  intro empty
  apply Cli.utf8_length_ne_zero (dialogs x mem)
  rw [phrases, empty, List.length_nil]

end Typed

/-- A message is copied from a locked thread, and a text is typed, in the dialog of
the thread or in the form: both open the same of it exactly if trimming changes
nothing of the text's encoding, or no message under the trimmed text was sent. -/
theorem copied_opens_alike_iff (lower : LowerCase) (hash : Generichash) (aead : Aead)
    (sendings : List Sending) (dialogs : ∀ x ∈ sendings, trim x.phrase = x.phrase ∧ x.phrase ≠ [])
    (s : Session) (own peer : PublicHex) (loaded : s.ownPkHex = some own)
    (locked : s.phraseKeys peer = none) (rawText : JsString) (env : Js.Value)
    (read : envelopeOf rawText = some env) (typed : JsString)
    (ideal : ∀ phrase, phrase = typed ∨ phrase = trim typed →
      Ideal hash aead sendings (combined phrase (own.ids peer))) :
    ∃ copied, (s.displayed (aead.ideal.decrypt (Sending.log hash sendings)) rawText peer).2.2 =
        some copied ∧
      (trim typed ≠ [] → (s.afterDialog hash peer typed).displayed
        (aead.ideal.decrypt (Sending.log hash sendings)) rawText peer =
          (((s.afterDialog hash peer typed).threadShows
            (aead.ideal.decrypt (Sending.log hash sendings)) rawText peer).getD cannot_decrypt,
            false, none)) ∧
      ((s.afterDialog hash peer typed).threadShows (aead.ideal.decrypt (Sending.log hash sendings))
          rawText peer =
        formShows lower hash (aead.ideal.decrypt (Sending.log hash sendings)) copied typed ↔
      utf8 (trim typed) = utf8 typed ∨
        ¬ SentUnder hash aead sendings own peer env (trim typed)) := by
  have copied : (s.displayed (aead.ideal.decrypt (Sending.log hash sendings)) rawText peer).2.2 =
      some (portable (own.ids peer) env) := by
    rw [Session.displayed, read, locked, loaded]
  refine ⟨_, copied, ?_, ?_⟩
  · intro some_phrase
    rw [Session.afterDialog, if_neg some_phrase]
    exact Session.displayed_unlocked (phraseKeys_setPhraseKey loaded hash peer (trim typed)) read _
  have trimmed (sent : SentUnder hash aead sendings own peer env typed) :
      utf8 (trim typed) = utf8 typed := sent.trimmed fun x mem => (dialogs x mem).1
  have each (phrase : JsString) (known : phrase = typed ∨ phrase = trim typed) :
      (openMessage (aead.ideal.decrypt (Sending.log hash sendings)) (get env "nonce")
        (get env "ct") (hash (combined phrase (own.ids peer))).val).toOption.isSome ↔
        SentUnder hash aead sendings own peer env phrase :=
    opens_iff (ideal phrase known)
  have form_opens := each typed (.inl rfl)
  have thread_opens := each (trim typed) (.inr rfl)
  have closed {opened : Option JsString} {phrase : JsString}
      (opens : opened.isSome ↔ SentUnder hash aead sendings own peer env phrase)
      (unsent : ¬ SentUnder hash aead sendings own peer env phrase) : opened = none := by
    rwa [← opens, Option.not_isSome_iff_eq_none] at unsent
  rw [formShows_portable lower hash _ own peer read, Session.afterDialog]
  by_cases empty : trim typed = []
  · have never : ¬ SentUnder hash aead sendings own peer env (trim typed) := by
      intro sent
      apply sent.nonempty fun x mem => (dialogs x mem).2
      rw [empty]
      rfl
    have never' : ¬ SentUnder hash aead sendings own peer env typed := fun sent =>
      never (sent.congr (trimmed sent).symm)
    refine iff_of_true ?_ (.inr never)
    rw [if_pos empty, Session.threadShows, read, locked, closed form_opens never', ite_self]
    rfl
  · have some_phrase : typed ≠ [] := by
      rintro rfl
      exact empty rfl
    rw [if_neg empty, if_neg some_phrase,
      Session.threadShows_eq (phraseKeys_setPhraseKey loaded hash peer (trim typed)) read]
    constructor
    · intro same
      rw [or_iff_not_imp_right, not_not]
      intro sent
      rw [same, form_opens] at thread_opens
      exact trimmed (thread_opens.mpr sent)
    · rintro (same | unsent)
      · rw [combined, combined, same]
      · have unsent' : ¬ SentUnder hash aead sendings own peer env typed := fun sent =>
          unsent (sent.congr (trimmed sent).symm)
        rw [closed thread_opens unsent, closed form_opens unsent']

def asciiLower : LowerCase := ⟨List.map lowerUnit, fun _ _ => rfl⟩

def helloEnvelope : Js.Value :=
  (encryptMessage .plain (trim hello.value) (firstBytes hello.input).val hello.nonce).toValue

theorem hello_read : envelopeOf (Json.print Js.printer helloEnvelope) = some helloEnvelope := by
  apply envelopeOf_encrypted <;> decide +kernel

theorem hello_alike : ∃ copied,
    ((Session.mk (some bob) fun _ => none).displayed (Aead.plain.ideal.decrypt
      (Sending.log firstBytes [hello])) (Json.print Js.printer helloEnvelope) alice).2.2 =
        some copied ∧
    ((Session.mk (some bob) fun _ => none).afterDialog firstBytes alice
        (js "correct horse")).threadShows (Aead.plain.ideal.decrypt
          (Sending.log firstBytes [hello])) (Json.print Js.printer helloEnvelope) alice =
      formShows asciiLower firstBytes (Aead.plain.ideal.decrypt (Sending.log firstBytes [hello]))
        copied (js "correct horse") := by
  have dialogs : ∀ x ∈ [hello], trim x.phrase = x.phrase ∧ x.phrase ≠ [] := by
    intro x mem
    obtain rfl := List.mem_singleton.mp mem
    decide
  obtain ⟨copied, some_copied, -, alike⟩ := copied_opens_alike_iff asciiLower firstBytes .plain
    [hello] dialogs ⟨some bob, fun _ => none⟩ bob alice rfl rfl _ _ hello_read
    (js "correct horse") (by
      rintro phrase (rfl | rfl)
      · exact ideal_one fun _ => by decide +kernel
      · exact ideal_one fun _ => by decide +kernel)
  exact ⟨copied, some_copied, alike.mpr (.inl (by decide +kernel))⟩

/-- A space after the phrase is nothing to the dialog, and another phrase to the form. -/
theorem hello_copied : ∃ copied,
    ((Session.mk (some bob) fun _ => none).displayed (Aead.plain.ideal.decrypt
      (Sending.log firstBytes [hello])) (Json.print Js.printer helloEnvelope) alice).2.2 =
        some copied ∧
    (((Session.mk (some bob) fun _ => none).afterDialog firstBytes alice
        (js "correct horse ")).threadShows (Aead.plain.ideal.decrypt
          (Sending.log firstBytes [hello])) (Json.print Js.printer helloEnvelope) alice).isSome ∧
    formShows asciiLower firstBytes (Aead.plain.ideal.decrypt (Sending.log firstBytes [hello]))
      copied (js "correct horse ") = none := by
  have sent : SentUnder firstBytes .plain [hello] bob alice helloEnvelope
      (trim (js "correct horse ")) := by
    have fields : get helloEnvelope "nonce" = some (.str (b64urlEncode hello.nonce.val)) ∧
        get helloEnvelope "ct" = some (.str (b64urlEncode
          (Aead.plain.ideal.ciphertext (hello.sealed_ firstBytes)))) := ⟨rfl, rfl⟩
    refine ⟨hello, List.mem_singleton_self _, by decide, by decide +kernel, ?_, ?_⟩
    · rw [fields.1, from_base64, b64urlDecode_b64urlEncode]
    · rw [fields.2, from_base64, b64urlDecode_b64urlEncode]
  have unsent : ¬ SentUnder firstBytes .plain [hello] bob alice helloEnvelope
      (js "correct horse ") := by
    rintro ⟨x, mem, -, agree, -⟩
    obtain rfl := List.mem_singleton.mp mem
    exact absurd agree (by decide +kernel)
  have some_phrase : trim (js "correct horse ") ≠ [] := by decide
  have loaded : (Session.mk (some bob) fun _ => none).ownPkHex = some bob := rfl
  refine ⟨portable (bob.ids alice) helloEnvelope, ?_, ?_, ?_⟩
  · rw [Session.displayed, hello_read]
  · rw [Session.afterDialog, if_neg some_phrase,
      Session.threadShows_eq (phraseKeys_setPhraseKey loaded firstBytes alice _) hello_read]
    exact (opens_iff (ideal_one fun _ => by decide +kernel)).mpr sent
  · rw [formShows_portable asciiLower firstBytes _ bob alice hello_read, if_neg (by decide),
      ← Option.not_isSome_iff_eq_none]
    exact mt (opens_iff (ideal_one fun same => absurd same (by decide +kernel))).mp unsent

end Qev.Ui
