import Qev.Cli.Prompt
import Qev.Lib.JsonText

/-! `qev lock` and `qev unlock` (`qev.js`). What a command writes to standard error
is left out, except for the error that it ends with. -/

namespace Qev.Cli

open Js (JsString js)

/-! ## Commands -/

structure Preset where
  opslimit : Option Double
  memlimit : Option Double

def LOCK_PRESETS : List (JsString × Preset) :=
  [(js "quick", ⟨some (.ofNat 1), some (.ofNat (32 * 1024 * 1024))⟩),
    (js "strong", ⟨some (.ofNat 4), some (.ofNat (96 * 1024 * 1024))⟩),
    (js "vault", ⟨some (.ofNat 6), some (.ofNat (128 * 1024 * 1024))⟩)]

def DEFAULT_PRESET_KEY : JsString := js "strong"

/-- What every object has besides its own properties; none of it has limits. -/
def inherited : List JsString :=
  ["constructor", "hasOwnProperty", "isPrototypeOf", "propertyIsEnumerable", "toLocaleString",
    "toString", "valueOf", "__proto__", "__defineGetter__", "__defineSetter__", "__lookupGetter__",
    "__lookupSetter__"].map js

/-- `LOCK_PRESETS[strengthKey]`. -/
def lockPreset (strengthKey : JsString) : Option Preset :=
  match LOCK_PRESETS.find? fun p => p.1 = strengthKey with
  | some (_, preset) => some preset
  | none => if strengthKey ∈ inherited then some ⟨none, none⟩ else none

structure LockArgs where
  help : Bool
  positionals : List JsString
  out : Option JsString
  mode : Option JsString
  strength : Option JsString

structure UnlockArgs where
  help : Bool
  positionals : List JsString

/-- `die(err.message || fallback)`. -/
def orDie (fallback : String) : Halt → Halt
  | .die message => .die (if message = [] then js fallback else message)
  | .pending => .pending

def noPositionals : List JsString → Except JsString Unit
  | [] => .ok ()
  | p :: _ => .error (js "lock: unexpected positional argument '" ++ p ++ js "'")

def lockMode (args : LockArgs) : Except JsString JsString :=
  let mode := stringOr args.mode (js "self")
  if mode ≠ js "self" ∧ mode ≠ js "share" then
    .error (js "lock: --mode must be 'self' or 'share' (got '" ++ mode ++ js "')")
  else .ok mode

def lockStrength (args : LockArgs) : Except JsString Preset :=
  match lockPreset (stringOr args.strength DEFAULT_PRESET_KEY) with
  | none => .error (js "lock: --strength must be one of quick, strong, vault")
  | some preset => .ok preset

def lockOptions (plaintext phrase mode : JsString) (preset : Preset) : EncryptOptions where
  plaintext := .text plaintext
  password := phrase
  mode := some mode
  opslimit := preset.opslimit
  memlimit := preset.memlimit
  salt := none
  wrapNonce := none
  contentNonce := none
  vaultKey := none
  createdAt := none
  version := none

/-- The vault goes to the file of `--out`, or else to standard output. `saved`
is how writing to the file ends. -/
def writeVault (out : Option JsString) (saved : Except JsString Unit) (json : JsString) :
    Except JsString Bytes :=
  if stringOr out [] = [] then .ok (utf8 json)
  else
    match saved with
    | .error e => .error (js "lock: could not write " ++ stringOr out [] ++ js ": " ++ e)
    | .ok () => .ok (utf8 json)

/-- The bytes of the vault that the command writes. `bytes` is standard input up to
its end, and `stdin` what there is of it after that. -/
def cmdLock (sodium : Sodium) (args : LockArgs) (bytes : Bytes) (stdin : Stdin) (draw : Draw)
    (saved : Except JsString Unit) : Except Halt Bytes := do
  if args.help then
    throw (.die
      (js "usage: qev lock [--out FILE] [--mode self|share] [--strength quick|strong|vault]"))
  (noPositionals args.positionals).mapError .die
  let mode ← (lockMode args).mapError .die
  let preset ← (lockStrength args).mapError .die
  let plaintext := promptPlaintext stdin.isTTY bytes
  if plaintext = [] then throw (.die (js "lock: empty plaintext — nothing to encrypt"))
  let phrase ← (promptPhraseConfirmed stdin).mapError (orDie "phrase prompt failed")
  let vault ← (encryptVaultV2 sodium (lockOptions plaintext phrase mode preset) draw).mapError
    fun e => orDie "encryption failed" (.die e)
  (writeVault args.out saved (Js.stringify vault ++ js "\n")).mapError .die

/-- `JSON.parse` of the file's text. -/
def parseVault (vaultText : JsString) : Except JsString Js.Value :=
  match Js.parse vaultText with
  | none => .error (js "not valid JSON")
  | some vault => .ok vault

/-- What the command writes to standard output. A failure to unlock is given
without its category. -/
def cmdUnlock (sodium : Sodium) (args : UnlockArgs) (readFile : JsString → Except JsString Bytes)
    (stdin : Stdin) (stdoutTTY : Bool) : Except Halt Bytes := do
  if args.help then throw (.die (js "usage: qev unlock VAULT_FILE"))
  match args.positionals with
  | [vaultPath] =>
    let bytes ← (readFile vaultPath).mapError fun e =>
      .die (js "unlock: could not read " ++ vaultPath ++ js ": " ++ e)
    let vault ← (parseVault (Utf16.encode (Utf8.decodeLossy bytes))).mapError .die
    let (phrase, _) ← (promptPhrase stdin).mapError (orDie "phrase prompt failed")
    let plaintext ← (decryptVaultV2 sodium vault phrase).mapError .die
    return utf8 plaintext ++
      if !endsWithNewline plaintext && stdoutTTY then utf8 (js "\n") else []
  | _ => throw (.die (js "unlock: expected exactly one VAULT_FILE argument"))

/-- Every preset keeps to the limits of a vault. -/
theorem preset_in_range {key : JsString} {preset : Preset} (h : lockPreset key = some preset) :
    (¬ outOfRange (numberOr preset.opslimit DEFAULT_OPSLIMIT) MIN_OPSLIMIT MAX_OPSLIMIT ∧
      numberOr preset.opslimit DEFAULT_OPSLIMIT ≠ .nan) ∧
    ¬ outOfRange (numberOr preset.memlimit DEFAULT_MEMLIMIT) MIN_MEMLIMIT MAX_MEMLIMIT ∧
      numberOr preset.memlimit DEFAULT_MEMLIMIT ≠ .nan := by
  have listed : ∀ p ∈ LOCK_PRESETS,
      (¬ outOfRange (numberOr p.2.opslimit DEFAULT_OPSLIMIT) MIN_OPSLIMIT MAX_OPSLIMIT ∧
        numberOr p.2.opslimit DEFAULT_OPSLIMIT ≠ .nan) ∧
      ¬ outOfRange (numberOr p.2.memlimit DEFAULT_MEMLIMIT) MIN_MEMLIMIT MAX_MEMLIMIT ∧
        numberOr p.2.memlimit DEFAULT_MEMLIMIT ≠ .nan := by
    decide +kernel
  rw [lockPreset] at h
  split at h
  · rename_i found
    cases h
    exact listed _ (List.mem_of_find?_eq_some found)
  · split at h
    · cases h
      decide +kernel
    · cases h

/-! ## Both commands halt -/

theorem bind_halts {ε α β : Type} {x : Except ε α} {f : α → Except ε β}
    (halts : ∀ a, ∃ halt, f a = .error halt) : ∃ halt, (x >>= f) = .error halt := by
  cases x with
  | error e => exact ⟨e, rfl⟩
  | ok a => exact halts a

theorem mapError_bind_halts {ε ε' α β : Type} {x : Except ε α} {g : ε → ε'}
    {f : α → Except ε' β} (halts : ∃ halt, x = .error halt) :
    ∃ halt, (x.mapError g >>= f) = .error halt := by
  obtain ⟨halt, rfl⟩ := halts
  exact ⟨g halt, rfl⟩

/-- Whatever is on standard input and whatever is typed at the prompts, `lock`
writes no vault: no phrase is read from a pipe, and the prompt at a terminal takes
none of the strings that it is given for a key. -/
theorem lock_writes_none (sodium : Sodium) (args : LockArgs) (bytes : Bytes) (stdin : Stdin)
    (draw : Draw) (saved : Except JsString Unit) :
    ∃ halt, cmdLock sodium args bytes stdin draw saved = .error halt := by
  unfold cmdLock
  split
  · exact ⟨_, rfl⟩
  refine bind_halts fun _ => bind_halts fun mode => bind_halts fun preset => ?_
  dsimp only
  split
  · exact ⟨_, rfl⟩
  · exact mapError_bind_halts (promptPhraseConfirmed_halts stdin)

theorem cmdUnlock_halts (sodium : Sodium) (args : UnlockArgs)
    (readFile : JsString → Except JsString Bytes) (stdin : Stdin) (stdoutTTY : Bool) :
    ∃ halt, cmdUnlock sodium args readFile stdin stdoutTTY = .error halt := by
  rw [cmdUnlock]
  split_ifs
  · exact ⟨_, rfl⟩
  split
  · exact bind_halts fun _ => bind_halts fun _ => mapError_bind_halts (promptPhrase_halts stdin)
  · exact ⟨_, rfl⟩

/-! ## The phrase that is typed -/

/-- For all keys ended by Enter and all chunks in which they may be handed out:
the prompt does not give the phrase that they spell, and no vault is unlocked. -/
theorem phrase_never_typed (keys : List Key) (lf : Bool) (handed : Handed (typed keys lf))
    (setRawMode : Except JsString Unit) :
    (∀ later, promptPhrase ⟨true, setRawMode, handed.chunks⟩ ≠ .ok (spelled keys, later)) ∧
      ∀ (sodium : Sodium) (args : UnlockArgs) (readFile : JsString → Except JsString Bytes)
        (stdoutTTY : Bool), ∃ halt, cmdUnlock sodium args readFile
          ⟨true, setRawMode, handed.chunks⟩ stdoutTTY = .error halt := by
  refine ⟨fun later typed => ?_, fun sodium args readFile => cmdUnlock_halts sodium args readFile _⟩
  obtain ⟨halt, halts⟩ := promptPhrase_halts ⟨true, setRawMode, handed.chunks⟩
  cases halts.symm.trans typed

/-- `ab` and Enter, handed out as one string. -/
theorem ab_not_typed : ∃ (keys : List Key) (handed : Handed (typed keys false)),
    handed.chunks = [['a', 'b', '\r']] ∧ spelled keys = js "ab" ∧
    promptPhrase ⟨true, .ok (), handed.chunks⟩ = .error .pending := by
  exact ⟨[.char 'a' (by decide), .char 'b' (by decide)], ⟨[['a', 'b', '\r']], by decide⟩, rfl,
    by decide, rfl⟩

end Qev.Cli
