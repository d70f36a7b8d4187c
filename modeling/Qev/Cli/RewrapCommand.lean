import Qev.Cli.Command
import Qev.Cli.Rewrap
import Qev.Lib.FileSystem

/-! `qev rewrap` (`qev.js`), which writes over the file, stopped at any call. -/

namespace Qev.Cli

open Js (JsString js)

structure RewrapArgs where
  help : Bool
  positionals : List JsString
  out : Option JsString

/-- The path that is written, and what is written there. `readFile` may fail. -/
def rewrapText (sodium : Sodium) (args : RewrapArgs) (readFile : JsString → Except JsString Bytes)
    (stdin : Stdin) : Except Halt (JsString × JsString) := do
  if args.help then throw (.die (js "usage: qev rewrap [--out FILE] VAULT_FILE"))
  match args.positionals with
  | [vaultPath] =>
    let outPath := stringOr args.out vaultPath
    let bytes ← (readFile vaultPath).mapError fun e =>
      .die (js "rewrap: could not read " ++ vaultPath ++ js ": " ++ e)
    let vault ← (jsonParse (Utf16.encode (Utf8.decodeLossy bytes))).mapError fun e =>
      .die (js "rewrap: " ++ vaultPath ++ js " is not valid JSON: " ++ e)
    let (oldPhrase, stdin) ← (promptPhrase stdin).mapError (orDie "phrase prompt failed")
    let newPhrase ← (promptPhraseConfirmed stdin).mapError (orDie "phrase prompt failed")
    let rewrapped ← (rewrapVaultV2 sodium vault oldPhrase newPhrase).mapError .die
    return (outPath, Js.stringify rewrapped ++ js "\n")
  | _ => throw (.die (js "rewrap: expected exactly one VAULT_FILE argument"))

variable {π : Type} [DecidableEq π]

/-- The files after the command, which may be stopped at a call of its write.
Names that resolve to one file are those of that file. -/
def cmdRewrap (sodium : Sodium) (args : RewrapArgs) (readFile : JsString → Except JsString Bytes)
    (stdin : Stdin) (resolve : JsString → π) (umask : Mode) (failure : FsOp π → String)
    (stop : Option Nat) (fs : FileSystem π) : FileSystem π × Except Halt Unit :=
  match rewrapText sodium args readFile stdin with
  | .error halt => (fs, .error halt)
  | .ok (outPath, json) =>
    let done := FileSystem.attempt umask failure fs
      (FileSystem.write (resolve outPath) (utf8 json)) stop
    (done.1, done.2.mapError fun e =>
      .die (js "rewrap: could not write " ++ outPath ++ js (": " ++ e)))

/-- What a phrase opens the file at a path to. -/
def opens (sodium : Sodium) (resolve : JsString → π) (fs : FileSystem π) (path phrase : JsString) :
    Except JsString JsString := do
  match fs (resolve path) with
  | none => throw (js "ENOENT: no such file or directory, open '" ++ path ++ js "'")
  | some file =>
    let vault ← jsonParse (Utf16.encode (Utf8.decodeLossy file.content))
    decryptVaultV2 sodium vault phrase

theorem rewrapText_halts (sodium : Sodium) (args : RewrapArgs)
    (readFile : JsString → Except JsString Bytes) (stdin : Stdin) :
    ∃ halt, rewrapText sodium args readFile stdin = .error halt := by
  rw [rewrapText]
  split_ifs
  · exact ⟨_, rfl⟩
  split
  · exact bind_halts fun _ => bind_halts fun _ => mapError_bind_halts (promptPhrase_halts stdin)
  · exact ⟨_, rfl⟩

/-- Whatever is typed and wherever the command may be stopped: it ends before it
writes, and every file opens with every phrase as it did before. -/
theorem rewrap_keeps (sodium : Sodium) (args : RewrapArgs)
    (readFile : JsString → Except JsString Bytes) (stdin : Stdin) (resolve : JsString → π)
    (umask : Mode) (failure : FsOp π → String) (stop : Option Nat) (fs : FileSystem π) :
    let run := cmdRewrap sodium args readFile stdin resolve umask failure stop fs
    (∃ halt, run.2 = .error halt) ∧ run.1 = fs ∧
      ∀ path phrase, opens sodium resolve run.1 path phrase =
        opens sodium resolve fs path phrase := by
  intro run
  obtain ⟨halt, halts⟩ := rewrapText_halts sodium args readFile stdin
  have ended : run = (fs, .error halt) := by
    rw [show run = cmdRewrap sodium args readFile stdin resolve umask failure stop fs from rfl,
      cmdRewrap, halts]
  rw [ended]
  exact ⟨⟨halt, rfl⟩, rfl, fun path phrase => rfl⟩

end Qev.Cli
