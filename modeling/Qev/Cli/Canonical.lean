import Mathlib.Data.List.DropRight
import Qev.Lib.Base64
import Qev.Lib.Js

/-! `canonical.js`: canonical JSON, base64url and the associated data of a V2
vault. -/

namespace Qev.Cli

open Js (JsString js)

/-- Sorting the keys first writes what sorting them at each level does. -/
def canonicalJSON (value : Js.Value) : JsString := Json.print Js.printer value.sortKeys

def utf8 (s : JsString) : Bytes := Js.textEncode s

def fromUtf8 (bytes : Bytes) : Option JsString := Js.textDecode bytes

def b64urlEncode (bytes : Bytes) : JsString := (Base64.encode bytes).map Js.ascii

/-- The characters of `[A-Za-z0-9_-]`. -/
def isB64url (u : UInt16) : Bool := u.toNat < 128 && (Base64.val64 (Char.ofNat u.toNat)).isSome

def b64urlChars (s : JsString) : Option (List Char) :=
  if s.all isB64url then some (s.map fun u => Char.ofNat u.toNat) else none

/-- Any padding at the end is dropped, and so are bits that fill no byte. -/
def b64urlDecode (str : JsString) : Except JsString Bytes :=
  match (b64urlChars (str.rdropWhile (· = Js.ascii '='))).bind Base64.decode with
  | some bytes => .ok bytes
  | none => .error (js "b64urlDecode: invalid character in input")

/-! ## Vaults -/

@[ext] structure Kdf where
  algorithm : JsString
  opslimit : Double
  memlimit : Double
  salt : JsString
  deriving DecidableEq, Repr

structure Wrap where
  algorithm : JsString
  nonce : JsString
  wrapped_key : JsString
  deriving DecidableEq, Repr

structure Content where
  algorithm : JsString
  nonce : JsString
  ciphertext : JsString
  deriving DecidableEq, Repr

/-- The fields that the code reads of a vault. -/
structure Vault where
  schema : JsString
  version : JsString
  created_at : JsString
  mode : JsString
  kdf : Kdf
  wrap : Wrap
  content : Content
  deriving DecidableEq, Repr

def aadObj (vault : Vault) : Js.Value :=
  .obj [
    (js "content", .obj [
      (js "algorithm", .str vault.content.algorithm),
      (js "nonce", .str vault.content.nonce)]),
    (js "created_at", .str vault.created_at),
    (js "kdf", .obj [
      (js "algorithm", .str vault.kdf.algorithm),
      (js "memlimit", .num vault.kdf.memlimit),
      (js "opslimit", .num vault.kdf.opslimit),
      (js "salt", .str vault.kdf.salt)]),
    (js "mode", .str vault.mode),
    (js "schema", .str vault.schema),
    (js "version", .str vault.version),
    (js "wrap", .obj [
      (js "algorithm", .str vault.wrap.algorithm),
      (js "nonce", .str vault.wrap.nonce)])]

def buildAADV2 (vault : Vault) : Bytes := utf8 (canonicalJSON (aadObj vault))

/-! ## Base64url reads back -/

theorem val64_char64_ascii {n : Nat} (h : n < 64) :
    isB64url (Js.ascii (Base64.char64 n)) = true ∧ Base64.char64 n ≠ '=' := by
  interval_cases n <;> decide

theorem b64urlEncode_alphabet {bytes : Bytes} {u : UInt16} (mem : u ∈ b64urlEncode bytes) :
    isB64url u = true ∧ u ≠ Js.ascii '=' := by
  obtain ⟨c, here, rfl⟩ := List.mem_map.mp mem
  obtain ⟨n, sextet, rfl⟩ := List.mem_map.mp here
  obtain ⟨allowed, other⟩ := val64_char64_ascii (Base64.sextets_lt bytes n sextet)
  refine ⟨allowed, fun same => other ?_⟩
  have chars := congrArg (fun u => Char.ofNat u.toNat) same
  simpa only [Js.ofNat_ascii (Base64.char64_mem (Base64.sextets_lt bytes n sextet)),
    Js.ofNat_ascii (show '='.toNat < 128 by decide)] using chars

theorem b64urlEncode_chars (bytes : Bytes) :
    (b64urlEncode bytes).map (fun u => Char.ofNat u.toNat) = Base64.encode bytes := by
  have each : ∀ c ∈ Base64.encode bytes, ((fun u => Char.ofNat u.toNat) ∘ Js.ascii) c = id c :=
    fun c mem => Js.ofNat_ascii (Base64.encode_ascii bytes c mem)
  rw [b64urlEncode, List.map_map, List.map_congr_left each, List.map_id]

theorem b64urlDecode_b64urlEncode (bytes : Bytes) : b64urlDecode
    (b64urlEncode bytes) = .ok bytes := by
  have body : (b64urlEncode bytes).rdropWhile (· = Js.ascii '=') = b64urlEncode bytes := by
    rw [List.rdropWhile_eq_self_iff]
    intro nonempty
    simpa using (b64urlEncode_alphabet (List.getLast_mem nonempty)).2
  have all : (b64urlEncode bytes).all isB64url = true :=
    List.all_eq_true.mpr fun u mem => (b64urlEncode_alphabet mem).1
  rw [b64urlDecode, body, b64urlChars, if_pos all, b64urlEncode_chars, Option.bind_some,
    Base64.decode_encode]

end Qev.Cli
