import Mathlib.Data.Sym.Sym2
import Qev.Notify.Separation
import Qev.Notify.Watcher
import Qev.Pairing.Identity

/-! Chat messages under a shared phrase (`chat-ui.js`): the key that two devices
derive of it, what is sent, and what is rendered of a stored message. -/

namespace Qev.Ui

open Js (JsString js)
open Cli (KEY_BYTES NONCE_BYTES b64urlEncode get utf8)
open Notify (from_base64 trim)
open Pairing (safety_digits safety_input safety_input_eq_iff safety_number safety_number_comm
  safety_number_eq)

/-! ## The key of a phrase -/

/-- A public key in hexadecimal digits, of either case. -/
structure PublicHex where
  text : JsString
  length_eq : text.length = 64
  digits : ∀ u ∈ text, (Js.hexVal u).isSome
  deriving DecidableEq

/-- `toLowerCase` of a letter of ASCII. -/
def lowerUnit (u : UInt16) : UInt16 := if 65 ≤ u ∧ u ≤ 90 then u + 32 else u

def PublicHex.toLowerCase (pk : PublicHex) : JsString := pk.text.map lowerUnit

/-- `[a, b].sort()`. -/
def sort (a b : JsString) : JsString × JsString := if a ≤ b then (a, b) else (b, a)

def context (ids : JsString × JsString) : JsString :=
  js "QEV-CHAT-V1:" ++ ids.1 ++ js ":" ++ ids.2

/-- What is hashed: nothing stands between the phrase and the context. -/
def combined (phrase : JsString) (ids : JsString × JsString) : Bytes :=
  utf8 phrase ++ utf8 (context ids)

def PublicHex.ids (own peer : PublicHex) : JsString × JsString :=
  sort own.toLowerCase peer.toLowerCase

/-- `sodium.crypto_generichash` with an output of 32 bytes. -/
abbrev Generichash := Bytes → FixedBytes KEY_BYTES

/-- What the script keeps in memory. -/
structure Session where
  ownPkHex : Option PublicHex
  phraseKeys : PublicHex → Option (FixedBytes KEY_BYTES)

namespace Session

def deriveKey (s : Session) (hash : Generichash) (phrase : JsString) (peerId : PublicHex) :
    Except JsString (FixedBytes KEY_BYTES) :=
  match s.ownPkHex with
  | none => .error (js "Own public key not loaded yet. Try again in a moment.")
  | some own => .ok (hash (combined phrase (own.ids peerId)))

/-- The key is kept where it could be derived, which is what is returned. -/
def setPhraseKey (s : Session) (hash : Generichash) (peerId : PublicHex) (phrase : JsString) :
    Session × Bool :=
  match s.deriveKey hash phrase peerId with
  | .ok key => ({ s with phraseKeys := Function.update s.phraseKeys peerId (some key) }, true)
  | .error _ => (s, false)

def wipePhraseKey (s : Session) (peerId : PublicHex) : Session :=
  { s with phraseKeys := Function.update s.phraseKeys peerId none }

end Session

/-! ## Messages -/

def cannot_decrypt : JsString := js "[can't decrypt — wrong phrase or different device]"

/-- What `encryptMessage` returns. -/
structure Encrypted where
  nonce : JsString
  ct : JsString
  deriving DecidableEq

def encryptMessage (aead : Aead) (text : JsString) (key : Bytes)
    (nonce : FixedBytes NONCE_BYTES) : Encrypted :=
  ⟨b64urlEncode nonce.val, b64urlEncode (aead.encrypt key nonce.val [] (utf8 text))⟩

/-- The fields of what is sent and stored. -/
def Encrypted.toValue (e : Encrypted) : Js.Value :=
  .obj [(js "v", .num (.ofNat 1)), (js "nonce", .str e.nonce), (js "ct", .str e.ct)]

/-- The decryption of the two texts, which throws what cannot be decrypted. -/
def openMessage (decrypt : (key nonce aad ciphertext : Bytes) → Option Bytes)
    (nonceB64 ctB64 : Option Js.Value) (key : Bytes) : Except JsString JsString := do
  let nonce ← from_base64 nonceB64
  let ct ← from_base64 ctB64
  match decrypt key nonce [] ct with
  | none => throw (js "ciphertext cannot be decrypted using that key")
  | some pt => return Js.textDecodeLossy pt

def decryptMessage (decrypt : (key nonce aad ciphertext : Bytes) → Option Bytes)
    (nonceB64 ctB64 : Option Js.Value) (key : Bytes) : JsString :=
  match openMessage decrypt nonceB64 ctB64 key with
  | .ok text => text
  | .error _ => cannot_decrypt

/-- A message of the history. -/
structure ChatMessage where
  direction : JsString
  status : JsString
  text : JsString

/-- What is shown of a message; `fullEnvelope` is what its button copies. -/
structure Bubble where
  isOut : Bool
  statusIcon : JsString
  displayText : JsString
  isCipher : Bool
  fullEnvelope : Option JsString
  deriving DecidableEq

/-- `env.v === 1`. -/
def isVersionOne : Option Js.Value → Bool
  | some (.num x) => x = .ofNat 1
  | _ => false

/-- The envelope that the text of a message is. -/
def envelopeOf (rawText : JsString) : Option Js.Value :=
  if rawText.head? = some (Js.ascii '\x7b') then
    (Js.parseJson rawText).filter fun env =>
      isVersionOne (get env "v") && Js.truthy (get env "nonce") && Js.truthy (get env "ct")
  else none

def CHAT_SCHEMA : JsString := js "QEV-CHAT-ENVELOPE-V1"

/-- `JSON.stringify`, which leaves out a property that is undefined. -/
def stringify (fields : List (JsString × Option Js.Value)) : JsString :=
  Json.print Js.printer (.obj (fields.filterMap fun (key, v) => v.map (key, ·)))

/-- The envelope to be opened elsewhere, with the pair of keys. -/
def portable (ids : JsString × JsString) (inner : Js.Value) : JsString :=
  stringify [
    (js "schema", some (.str CHAT_SCHEMA)),
    (js "ids", some (.arr [.str ids.1, .str ids.2])),
    (js "nonce", get inner "nonce"),
    (js "ct", get inner "ct"),
    (js "v", some (.num (.ofNat 1)))]

def statusIcon (msg : ChatMessage) : JsString :=
  if msg.direction ≠ js "outgoing" then []
  else if msg.status = js "sending" then js "..."
  else if msg.status = js "sent" then js "✓"
  else if msg.status = js "failed" then js "Failed"
  else []

namespace Session

/-- What is displayed of a text, whether as ciphertext, and what can be copied. -/
def displayed (s : Session) (decrypt : (key nonce aad ciphertext : Bytes) → Option Bytes)
    (rawText : JsString) (peerId : PublicHex) : JsString × Bool × Option JsString :=
  match envelopeOf rawText with
  | none => (rawText, false, none)
  | some env =>
    match s.phraseKeys peerId with
    | some key => (decryptMessage decrypt (get env "nonce") (get env "ct") key.val, false, none)
    | none =>
      let fullEnvelope := match s.ownPkHex with
        | some own => portable (own.ids peerId) env
        | none => rawText
      ((get env "ct").elim [] Js.display, true, some fullEnvelope)

/-- The pane, whose times are left out. -/
def renderMessages (s : Session) (decrypt : (key nonce aad ciphertext : Bytes) → Option Bytes)
    (msgs : List ChatMessage) (peerId : PublicHex) : List Bubble :=
  msgs.map fun msg =>
    let (displayText, isCipher, fullEnvelope) := s.displayed decrypt msg.text peerId
    { isOut := msg.direction = js "outgoing", statusIcon := statusIcon msg, displayText, isCipher,
      fullEnvelope }

end Session

/-! ## Sending -/

/-- What a click on the button comes to: nothing, an alert, or a call of
`chat_send`. -/
inductive Click where
  | idle
  | locked
  | chat_send (peerId : PublicHex) (text : JsString)
  deriving DecidableEq

def Session.doSend (s : Session) (aead : Aead) (activePeerId : Option PublicHex)
    (value : JsString) (nonce : FixedBytes NONCE_BYTES) : Click :=
  match activePeerId with
  | none => .idle
  | some peerId =>
    if trim value = [] then .idle
    else
      match s.phraseKeys peerId with
      | none => .locked
      | some key =>
        let encrypted := encryptMessage aead (trim value) key.val nonce
        .chat_send peerId (Json.print Js.printer encrypted.toValue)

/-- A message on its way: the device, whom the thread is with, and what was typed
to unlock it and to be sent. -/
structure Sending where
  session : Session
  own : PublicHex
  loaded : session.ownPkHex = some own
  peer : PublicHex
  phrase : JsString
  value : JsString
  nonce : FixedBytes NONCE_BYTES

namespace Sending

def input (x : Sending) : Bytes := combined x.phrase (x.own.ids x.peer)

def click (x : Sending) (hash : Generichash) (aead : Aead) : Click :=
  (x.session.setPhraseKey hash x.peer x.phrase).1.doSend aead (some x.peer) x.value x.nonce

def sealed_ (x : Sending) (hash : Generichash) : Sealed :=
  ⟨(hash x.input).val, x.nonce.val, [], utf8 (trim x.value)⟩

/-- All that was encrypted. -/
def log (hash : Generichash) (sendings : List Sending) : List Sealed :=
  (sendings.filter fun x => trim x.value ≠ []).map (·.sealed_ hash)

end Sending

/-! ## The two sides sort alike -/

theorem sort_comm (a b : JsString) : sort a b = sort b a := by
  rw [sort, sort]
  by_cases le : a ≤ b
  · by_cases ge : b ≤ a
    · rw [List.le_antisymm le ge]
    · rw [if_pos le, if_neg ge]
  · have ge : b ≤ a := (List.le_total a b).resolve_left le
    rw [if_neg le, if_pos ge]

theorem sort_cases (a b : JsString) : sort a b = (a, b) ∨ sort a b = (b, a) := by
  rw [sort]
  split
  · exact .inl rfl
  · exact .inr rfl

theorem sort_eq_iff {a b c d : JsString} : sort a b = sort c d ↔ s(a, b) = s(c, d) := by
  constructor
  · intro same
    have pair (x y : JsString) : s((sort x y).1, (sort x y).2) = s(x, y) := by
      rcases sort_cases x y with h | h
      · rw [h]
      · rw [h, Sym2.eq_swap]
    rw [← pair a b, same, pair]
  · intro same
    rcases Sym2.eq_iff.mp same with ⟨rfl, rfl⟩ | ⟨rfl, rfl⟩
    · rfl
    · exact sort_comm a b

theorem ids_comm (a b : PublicHex) : a.ids b = b.ids a := sort_comm _ _

/-! ## What is hashed -/

theorem hexVal_ascii {u : UInt16} (digit : (Js.hexVal u).isSome) : u.toNat < 0x80 := by
  rw [Js.hexVal] at digit
  split_ifs at digit
  all_goals first | omega | cases digit

theorem lowerUnit_ascii {u : UInt16} (ascii : u.toNat < 0x80) : (lowerUnit u).toNat < 0x80 := by
  rw [lowerUnit]
  split
  · rename_i upper
    have bound : u.toNat ≤ 90 := upper.2
    rw [UInt16.toNat_add]
    change (u.toNat + 32) % _ < _
    omega
  · exact ascii

namespace PublicHex

theorem length_toLowerCase (pk : PublicHex) : pk.toLowerCase.length = 64 := by
  rw [toLowerCase, List.length_map, pk.length_eq]

theorem toLowerCase_ascii (pk : PublicHex) : ∀ u ∈ pk.toLowerCase, u.toNat < 0x80 := by
  intro u mem
  obtain ⟨v, here, rfl⟩ := List.mem_map.mp mem
  exact lowerUnit_ascii (hexVal_ascii (pk.digits v here))

end PublicHex

/-- Two identifiers of one length, in ASCII. -/
structure Fixed (ids : JsString × JsString) : Prop where
  first : ids.1.length = 64
  second : ids.2.length = 64
  ascii : ∀ u ∈ context ids, u.toNat < 0x80

theorem fixed_ids (own peer : PublicHex) : Fixed (own.ids peer) := by
  have ascii (a b : PublicHex) : ∀ u ∈ context (a.toLowerCase, b.toLowerCase), u.toNat < 0x80 := by
    simp only [context, List.forall_mem_append]
    have text {s : JsString} (all : s.all (·.toNat < 0x80) = true) : ∀ u ∈ s, u.toNat < 0x80 :=
      fun u mem => of_decide_eq_true (List.all_eq_true.mp all u mem)
    exact ⟨⟨⟨text (by decide), a.toLowerCase_ascii⟩, text (by decide)⟩, b.toLowerCase_ascii⟩
  rcases sort_cases own.toLowerCase peer.toLowerCase with h | h
  · rw [PublicHex.ids, h]
    exact ⟨own.length_toLowerCase, peer.length_toLowerCase, ascii own peer⟩
  · rw [PublicHex.ids, h]
    exact ⟨peer.length_toLowerCase, own.length_toLowerCase, ascii peer own⟩

theorem length_context {ids : JsString × JsString} (fixed : Fixed ids) :
    (utf8 (context ids)).length = 141 := by
  rw [utf8, Js.textEncode_ascii fixed.ascii, List.length_map, context]
  simp only [List.length_append, fixed.first, fixed.second]
  decide

theorem context_injective {ids ids' : JsString × JsString} (fixed : Fixed ids) (fixed' : Fixed ids')
    (same : utf8 (context ids) = utf8 (context ids')) : ids = ids' := by
  have wellFormed {ids : JsString × JsString} (fixed : Fixed ids) :
      Utf16.WellFormed (context ids) :=
    Js.wellFormed_ascii fun u mem => (fixed.ascii u mem).trans (by decide)
  have texts := Js.textEncode_injective (wellFormed fixed) (wellFormed fixed') same
  rw [context, context, List.append_assoc, List.append_assoc, List.append_assoc,
    List.append_assoc] at texts
  have rest := List.append_cancel_left texts
  obtain ⟨first, rest⟩ := List.append_inj rest (fixed.first.trans fixed'.first.symm)
  exact Prod.ext first (List.append_cancel_left rest)

/-- Whatever the phrases are: the context has one length, and ends the input. -/
theorem combined_eq_iff {phrase phrase' : JsString} {ids ids' : JsString × JsString}
    (fixed : Fixed ids) (fixed' : Fixed ids') :
    combined phrase ids = combined phrase' ids' ↔ utf8 phrase = utf8 phrase' ∧ ids = ids' := by
  constructor
  · intro same
    obtain ⟨phrases, contexts⟩ := List.append_inj' same
      ((length_context fixed).trans (length_context fixed').symm)
    exact ⟨phrases, context_injective fixed fixed' contexts⟩
  · rintro ⟨phrases, rfl⟩
    rw [combined, combined, phrases]

/-- Two devices with the same phrase and each other's key, up to the case of the
digits. -/
def Agree (phrase : JsString) (own peer : PublicHex) (phrase' : JsString) (own' peer' : PublicHex) :
    Prop :=
  utf8 phrase = utf8 phrase' ∧
    s(own.toLowerCase, peer.toLowerCase) = s(own'.toLowerCase, peer'.toLowerCase)

instance (phrase : JsString) (own peer : PublicHex) (phrase' : JsString) (own' peer' : PublicHex) :
    Decidable (Agree phrase own peer phrase' own' peer') :=
  inferInstanceAs (Decidable (_ ∧ _))

theorem combined_ids_eq_iff (phrase : JsString) (own peer : PublicHex) (phrase' : JsString)
    (own' peer' : PublicHex) :
    combined phrase (own.ids peer) = combined phrase' (own'.ids peer') ↔
      Agree phrase own peer phrase' own' peer' := by
  rw [combined_eq_iff (fixed_ids own peer) (fixed_ids own' peer'), PublicHex.ids, PublicHex.ids,
    sort_eq_iff, Agree]

/-! ## What is read on the other side -/

theorem trim_head {s : JsString} {u : UInt16} (head : (trim s).head? = some u) :
    Notify.isStrSpace u = false := by
  obtain ⟨tail, parts⟩ : ∃ tail, trim s ++ tail = s.dropWhile Notify.isStrSpace :=
    List.rdropWhile_prefix _ _
  have first : (s.dropWhile Notify.isStrSpace).head? = some u := by
    rw [← parts, List.head?_append, head]
    rfl
  have kept := List.head?_dropWhile_not Notify.isStrSpace s
  rw [first] at kept
  exact kept

theorem trim_mark (s : JsString) : (trim s).head? ≠ some 0xFEFF := by
  intro head
  exact absurd (trim_head head) (by decide)

theorem plain_one : Js.Plain (.ofNat 1) := by
  have bits : Double.ofNat 1 = .finite false ⟨0x3FF0000000000000, by decide⟩ := by decide +kernel
  exact ⟨false, _, bits, fun _ => rfl⟩

/-- An envelope that is sent is read as what was put in it. -/
theorem envelopeOf_encrypted (e : Encrypted) (some_nonce : e.nonce ≠ []) (some_ct : e.ct ≠ []) :
    envelopeOf (Json.print Js.printer e.toValue) = some e.toValue := by
  have keys : Js.Ordered [js "v", js "nonce", js "ct"] := by decide
  have ordered : Json.Keys Js.Ordered e.toValue := ⟨keys, trivial, trivial, trivial, trivial⟩
  have plain : Json.Numbers Js.Plain e.toValue := ⟨plain_one, trivial, trivial, trivial⟩
  have read : Js.parseJson (Json.print Js.printer e.toValue) = some e.toValue := by
    rw [Js.parseJson_print ordered, Js.written_eq_self _ plain]
  rw [envelopeOf, if_pos (by rfl), read]
  apply Option.filter_eq_some_iff.mpr
  have some_nonce : Js.truthy (some (.str e.nonce)) = true := decide_eq_true some_nonce
  have some_ct : Js.truthy (some (.str e.ct)) = true := decide_eq_true some_ct
  have fields : get e.toValue "nonce" = some (.str e.nonce) ∧
      get e.toValue "ct" = some (.str e.ct) ∧ get e.toValue "v" = some (.num (.ofNat 1)) :=
    ⟨rfl, rfl, rfl⟩
  refine ⟨rfl, ?_⟩
  rw [fields.1, fields.2.1, fields.2.2, some_nonce, some_ct, isVersionOne]
  simp

section Reading

variable {hash : Generichash} {aead : Aead} {sendings : List Sending} {x : Sending}

theorem setPhraseKey_loaded {s : Session} {own : PublicHex} (loaded : s.ownPkHex = some own)
    (hash : Generichash) (peerId : PublicHex) (phrase : JsString) :
    (s.setPhraseKey hash peerId phrase).1 = { s with
      phraseKeys := Function.update s.phraseKeys peerId
        (some (hash (combined phrase (own.ids peerId)))) } := by
  rw [Session.setPhraseKey, Session.deriveKey, loaded]

theorem phraseKeys_setPhraseKey {s : Session} {own : PublicHex} (loaded : s.ownPkHex = some own)
    (hash : Generichash) (peerId : PublicHex) (phrase : JsString) :
    (s.setPhraseKey hash peerId phrase).1.phraseKeys peerId =
      some (hash (combined phrase (own.ids peerId))) := by
  rw [setPhraseKey_loaded loaded]
  exact Function.update_self _ _ _

theorem Sending.click_eq (some_text : trim x.value ≠ []) :
    x.click hash aead = .chat_send x.peer (Json.print Js.printer
      (encryptMessage aead (trim x.value) (hash x.input).val x.nonce).toValue) := by
  rw [Sending.click, Session.doSend, if_neg some_text, phraseKeys_setPhraseKey x.loaded]
  rfl

theorem openMessage_b64url (decrypt : (key nonce aad ciphertext : Bytes) → Option Bytes)
    (nonce ct key : Bytes) :
    openMessage decrypt (some (.str (b64urlEncode nonce))) (some (.str (b64urlEncode ct))) key =
      (decrypt key nonce [] ct).elim (.error (js "ciphertext cannot be decrypted using that key"))
        fun pt => .ok (Js.textDecodeLossy pt) := by
  rw [openMessage, from_base64, from_base64, b64urlDecode_b64urlEncode, b64urlDecode_b64urlEncode,
    ok_bind, ok_bind]
  cases decrypt key nonce [] ct with
  | none => rfl
  | some pt => rfl

theorem b64urlEncode_ne_nil {bytes : Bytes} (some_bytes : bytes ≠ []) :
    b64urlEncode bytes ≠ [] := by
  intro none
  have empty : b64urlDecode [] = .ok [] := b64urlDecode_b64urlEncode []
  have back := b64urlDecode_b64urlEncode bytes
  rw [none, empty] at back
  exact some_bytes (Except.ok.inj back).symm

/-- What a device with a key shows of a message that was sent. -/
theorem displayed_encrypted {s : Session} {peerId : PublicHex} {key : FixedBytes KEY_BYTES}
    (unlocked : s.phraseKeys peerId = some key)
    (decrypt : (key nonce aad ciphertext : Bytes) → Option Bytes) (text : JsString)
    (sent : Bytes) (nonce : FixedBytes NONCE_BYTES) :
    s.displayed decrypt (Json.print Js.printer (encryptMessage aead text sent nonce).toValue)
        peerId = ((decrypt key.val nonce.val [] (aead.encrypt sent nonce.val [] (utf8 text))).elim
        cannot_decrypt Js.textDecodeLossy, false, none) := by
  have some_nonce : nonce.val ≠ [] := List.ne_nil_of_length_pos (by rw [nonce.property]; decide)
  have some_ct : aead.encrypt sent nonce.val [] (utf8 text) ≠ [] := by
    apply List.ne_nil_of_length_pos
    rw [aead.encrypt_length]
    omega
  have read := envelopeOf_encrypted (encryptMessage aead text sent nonce)
    (b64urlEncode_ne_nil some_nonce) (b64urlEncode_ne_nil some_ct)
  have fields : get (encryptMessage aead text sent nonce).toValue "nonce" =
        some (.str (b64urlEncode nonce.val)) ∧
      get (encryptMessage aead text sent nonce).toValue "ct" =
        some (.str (b64urlEncode (aead.encrypt sent nonce.val [] (utf8 text)))) := ⟨rfl, rfl⟩
  rw [Session.displayed, read]
  dsimp only
  rw [unlocked]
  dsimp only
  rw [fields.1, fields.2, decryptMessage, openMessage_b64url]
  cases decrypt key.val nonce.val [] (aead.encrypt sent nonce.val [] (utf8 text)) with
  | none => rfl
  | some pt => rfl

/-- The primitives are ideal, for all that was sent and for one reader: no other
input has the hash of theirs, and no ciphertext was made under two keys. -/
structure Ideal (hash : Generichash) (aead : Aead) (sendings : List Sending) (input : Bytes) :
    Prop where
  collision_free : ∀ x ∈ sendings, hash x.input = hash input → x.input = input
  exact_ : aead.ideal.Exact (Sending.log hash sendings)

theorem Sending.mem_log (mem : x ∈ sendings) (some_text : trim x.value ≠ []) :
    x.sealed_ hash ∈ log hash sendings :=
  List.mem_map_of_mem (List.mem_filter.mpr ⟨mem, decide_eq_true some_text⟩)

/-- The key of the reader opens the ciphertext exactly if it is of the same input. -/
theorem decrypt_sent {input : Bytes} (ideal : Ideal hash aead sendings input) (mem : x ∈ sendings)
    (some_text : trim x.value ≠ []) :
    aead.ideal.decrypt (Sending.log hash sendings) (hash input).val x.nonce.val []
        (aead.encrypt (hash x.input).val x.nonce.val [] (utf8 (trim x.value))) =
      if x.input = input then some (utf8 (trim x.value)) else none := by
  have logged : x.sealed_ hash ∈ Sending.log hash sendings := Sending.mem_log mem some_text
  split
  · rename_i same
    rw [← same]
    exact IdealAead.decrypt_eq_some.mpr ⟨logged, rfl⟩
  · rename_i other
    rw [Option.eq_none_iff_forall_ne_some]
    intro p opened
    obtain ⟨mem', ciphertexts⟩ := IdealAead.decrypt_eq_some.mp opened
    have keys := (ideal.exact_ _ logged _ mem' ciphertexts).1
    exact other (ideal.collision_free x mem (Subtype.ext keys))

/-- What a reader with a phrase shows of a message that was sent. -/
theorem displayText_sent {reader : Session} {own peer : PublicHex} {phrase : JsString}
    {m : ChatMessage} (loaded : reader.ownPkHex = some own)
    (ideal : Ideal hash aead sendings (combined phrase (own.ids peer))) (mem : x ∈ sendings)
    (some_text : trim x.value ≠ [])
    (sent : x.click hash aead = .chat_send x.peer m.text) :
    ((reader.setPhraseKey hash peer phrase).1.renderMessages
      (aead.ideal.decrypt (Sending.log hash sendings)) [m] peer).map Bubble.displayText =
      [if Agree x.phrase x.own x.peer phrase own peer then Js.toWellFormed (trim x.value)
        else cannot_decrypt] := by
  have shown := @displayed_encrypted aead _ _ _ (phraseKeys_setPhraseKey loaded hash peer phrase)
    (aead.ideal.decrypt (Sending.log hash sendings)) (trim x.value) (hash x.input).val x.nonce
  have text := (Click.chat_send.inj ((Sending.click_eq some_text).symm.trans sent)).2
  rw [decrypt_sent ideal mem some_text, text] at shown
  rw [Session.renderMessages, List.map_singleton, List.map_singleton, shown]
  have inputs := combined_ids_eq_iff x.phrase x.own x.peer phrase own peer
  by_cases agree : Agree x.phrase x.own x.peer phrase own peer
  · rw [if_pos agree, if_pos (show x.input = _ from inputs.mpr agree), ←
      Js.textDecodeLossy_textEncode (trim_mark x.value)]
    rfl
  · rw [if_neg agree, if_neg (show ¬ x.input = _ from fun same => agree (inputs.mp same))]
    rfl

end Reading

/-- Two devices hash the same for each other, and nothing else hashes the same
but the phrase's encoding with the two keys, as for the safety number. What one
sends is opened by another exactly if it has that phrase and that pair, lone
surrogates replaced: it is the same text unless it has any. -/
theorem chat_keys_agree (hash : Generichash) (aead : Aead) (sendings : List Sending) :
    (∀ (phrase : JsString) (a b : PublicHex),
      combined phrase (a.ids b) = combined phrase (b.ids a)) ∧
    (∀ (phrase phrase' : JsString) (a b c d : PublicHex),
      combined phrase (a.ids b) = combined phrase' (c.ids d) ↔ Agree phrase a b phrase' c d) ∧
    (∀ (blake2b : Bytes → Bytes) (a b c d : FixedBytes 32),
      safety_number blake2b a b = safety_number blake2b b a ∧
      safety_number blake2b a b = safety_digits (blake2b (safety_input a b)) ∧
      (safety_input a b = safety_input c d ↔ s(a, b) = s(c, d))) ∧
    ∀ x ∈ sendings, trim x.value ≠ [] → ∃ text, x.click hash aead = .chat_send x.peer text ∧
      ∀ (reader : Session) (own peer : PublicHex) (phrase : JsString), reader.ownPkHex = some own →
        Ideal hash aead sendings (combined phrase (own.ids peer)) →
        ∀ m : ChatMessage, m.text = text →
          ∃ shown, ((reader.setPhraseKey hash peer phrase).1.renderMessages
              (aead.ideal.decrypt (Sending.log hash sendings)) [m] peer).map Bubble.displayText =
                [shown] ∧
            shown = (if Agree x.phrase x.own x.peer phrase own peer
              then Js.toWellFormed (trim x.value) else cannot_decrypt) ∧
            (shown = (if Agree x.phrase x.own x.peer phrase own peer then trim x.value
                else cannot_decrypt) ↔
              (Agree x.phrase x.own x.peer phrase own peer →
                Utf16.WellFormed (trim x.value))) := by
  refine ⟨fun phrase a b => by rw [ids_comm],
    fun phrase phrase' a b c d => combined_ids_eq_iff phrase a b phrase' c d,
    fun blake2b a b c d => ⟨safety_number_comm blake2b a b, safety_number_eq blake2b a b,
      safety_input_eq_iff a b c d⟩, ?_⟩
  intro x mem some_text
  have sent : x.click hash aead = _ := Sending.click_eq some_text
  refine ⟨_, sent, ?_⟩
  intro reader own peer phrase loaded ideal m text
  refine ⟨_, displayText_sent loaded ideal mem some_text (text ▸ sent), rfl, ?_⟩
  split
  · rename_i agree
    rw [Js.toWellFormed_eq_iff]
    exact ⟨fun wf _ => wf, fun wf => wf agree⟩
  · rename_i other
    exact iff_of_true rfl fun agree => absurd agree other

/-! ## Two devices -/

def samplePk (digit : UInt16) (isDigit : (Js.hexVal digit).isSome) : PublicHex where
  text := .replicate 64 digit
  length_eq := List.length_replicate
  digits _ mem := List.eq_of_mem_replicate mem ▸ isDigit

def alice : PublicHex := samplePk (Js.ascii 'a') (by decide)
def bob : PublicHex := samplePk (Js.ascii 'B') (by decide)

/-- The first bytes, filled up with zeros. -/
def firstBytes : Generichash := fun bytes =>
  ⟨(bytes ++ .replicate KEY_BYTES 0).take KEY_BYTES, by
    rw [List.length_take, List.length_append, List.length_replicate]
    omega⟩

def hello : Sending where
  session := ⟨some alice, fun _ => none⟩
  own := alice
  loaded := rfl
  peer := bob
  phrase := js "correct horse"
  value := js " hi "
  nonce := FixedBytes.fill _ 5

/-- What the other device shows after a phrase is typed there. -/
def shownToBob (x : Sending) (text phrase : JsString) : List JsString :=
  (((Session.mk (some bob) fun _ => none).setPhraseKey firstBytes alice phrase).1.renderMessages
    (Aead.plain.ideal.decrypt (Sending.log firstBytes [x])) [⟨js "incoming", [], text⟩]
    alice).map Bubble.displayText

theorem ideal_one {x : Sending} {input : Bytes}
    (free : firstBytes x.input = firstBytes input → x.input = input) :
    Ideal firstBytes .plain [x] input := by
  have only {e : Sealed} (mem : e ∈ Sending.log firstBytes [x]) : e = x.sealed_ firstBytes := by
    obtain ⟨y, sent, rfl⟩ := List.mem_map.mp mem
    obtain rfl := List.mem_singleton.mp (List.mem_filter.mp sent).1
    rfl
  refine ⟨fun y mem => ?_, fun e mem e' mem' _ => ?_⟩
  · obtain rfl := List.mem_singleton.mp mem
    exact free
  · rw [only mem, only mem']
    exact ⟨rfl, rfl, rfl⟩

theorem hello_is_read : ∃ text, hello.click firstBytes .plain = .chat_send bob text ∧
    shownToBob hello text (js "correct horse") = [js "hi"] ∧
    shownToBob hello text (js "guess") = [cannot_decrypt] := by
  obtain ⟨text, sent, read⟩ := (chat_keys_agree firstBytes .plain [hello]).2.2.2 hello
    (List.mem_singleton_self _) (by decide)
  have reader := read ⟨some bob, fun _ => none⟩ bob alice
  refine ⟨text, sent, ?_, ?_⟩
  · obtain ⟨shown, displayed, same, -⟩ := reader (js "correct horse") rfl
      (ideal_one fun _ => by decide +kernel) ⟨js "incoming", [], text⟩ rfl
    rw [shownToBob, displayed, same]
    decide +kernel
  · have other : firstBytes hello.input ≠ firstBytes (combined (js "guess") (bob.ids alice)) := by
      decide +kernel
    obtain ⟨shown, displayed, same, -⟩ := reader (js "guess") rfl
      (ideal_one fun same => absurd same other) ⟨js "incoming", [], text⟩ rfl
    rw [shownToBob, displayed, same]
    decide +kernel

/-- A message of one surrogate that is alone. -/
def half : Sending := { hello with value := [0xD800] }

theorem half_is_replaced : ∃ text, half.click firstBytes .plain = .chat_send bob text ∧
    shownToBob half text (js "correct horse") = [[0xFFFD]] := by
  have some_text : trim half.value ≠ [] := by decide
  have sent : half.click firstBytes .plain = _ := Sending.click_eq some_text
  have loaded : (Session.mk (some bob) fun _ => none).ownPkHex = some bob := rfl
  refine ⟨_, sent, ?_⟩
  rw [shownToBob, displayText_sent loaded (ideal_one fun _ => by decide +kernel)
    (List.mem_singleton_self half) some_text sent]
  decide +kernel

end Qev.Ui
