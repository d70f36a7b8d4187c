import Qev.Cli.Binding

/-! The prompts of the CLI (`prompt.js`), and the keys of a phrase. -/

namespace Qev.Cli

open Js (JsString js)

/-! ## A phrase -/

/-- What a loop over a chunk goes through. A chunk is a string: `setEncoding` puts
a decoder on the input, also where it is called with `undefined`. -/
inductive Item where
  | number (n : Nat)
  | string (c : Char)
  deriving DecidableEq, Repr

abbrev Chunk := List Char

def ETX : Nat := 0x03
def EOT : Nat := 0x04
def LF : Nat := 0x0A
def CR : Nat := 0x0D
def BS : Nat := 0x08
def DEL : Nat := 0x7F

/-- White space and line ends of ECMAScript. -/
def isStrSpace (c : Char) : Bool :=
  (9 ≤ c.toNat && c.toNat ≤ 13) ||
    c.toNat ∈ [0x20, 0xA0, 0x1680, 0x2028, 0x2029, 0x202F, 0x205F, 0x3000, 0xFEFF] ||
    (0x2000 ≤ c.toNat && c.toNat ≤ 0x200A)

/-- As a number a character is the value of a digit, or zero if it is white space,
or `NaN`. -/
def Item.toNumber : Item → Option Nat
  | number n => some n
  | string c =>
    if c.isDigit then some (c.toNat - '0'.toNat) else if isStrSpace c then some 0 else none

def Item.atLeast (n : Nat) (byte : Item) : Bool := byte.toNumber.any (n ≤ ·)

def Item.fromCharCode (byte : Item) : JsString := [UInt16.ofNat (byte.toNumber.getD 0)]

inductive Prompt where
  | reading (buf : JsString)
  | resolved (phrase : JsString)
  | rejected (message : JsString)
  deriving DecidableEq, Repr

namespace Prompt

/-- One turn of the loop. After Enter or an abort the listener is removed. -/
def onItem : Prompt → Item → Prompt
  | reading buf, byte =>
    if byte = .number CR ∨ byte = .number LF then resolved buf
    else if byte = .number ETX then rejected (js "aborted")
    else if byte = .number EOT then
      if buf.length = 0 then rejected (js "aborted (Ctrl-D)") else resolved buf
    else if byte = .number BS ∨ byte = .number DEL then
      if buf.length > 0 then reading buf.dropLast else reading buf
    else if byte.atLeast 0x20 then reading (buf ++ byte.fromCharCode)
    else reading buf
  | done, _ => done

def onData (s : Prompt) (chunk : Chunk) : Prompt := (chunk.map Item.string).foldl onItem s

/-- What the prompt comes to, with the chunks that it leaves. -/
def listen : Prompt → List Chunk → Prompt × List Chunk
  | reading buf, chunk :: chunks => listen (onData (reading buf) chunk) chunks
  | s, chunks => (s, chunks)

end Prompt

/-- How a command ends without a result: with a message, or waiting for what
never comes. -/
inductive Halt where
  | die (message : JsString)
  | pending
  deriving DecidableEq, Repr

/-- Standard input, with what is handed out from now on. `setRawMode` may throw at
an input that has ended. -/
structure Stdin where
  isTTY : Bool
  setRawMode : Except JsString Unit
  chunks : List Chunk

def promptPhrase (stdin : Stdin) : Except Halt (JsString × Stdin) := do
  if ¬ stdin.isTTY then
    throw (.die (js ("refusing to read a phrase from a non-TTY stdin — phrases must be typed " ++
      "interactively")))
  stdin.setRawMode.mapError .die
  match Prompt.listen (.reading []) stdin.chunks with
  | (.resolved phrase, chunks) => return (phrase, { stdin with chunks })
  | (.rejected message, _) => throw (.die message)
  | (.reading _, _) => throw .pending

def promptPhraseConfirmed (stdin : Stdin) : Except Halt JsString := do
  let (a, stdin) ← promptPhrase stdin
  let (b, _) ← promptPhrase stdin
  if a ≠ b then throw (.die (js "Phrases do not match — nothing was written. Try again."))
  return a

/-! ## A text -/

def endsWithNewline (s : JsString) : Bool := s.getLast? = some 0x0A

/-- What standard input has up to its end, as text. Neither decoder is fatal,
and that of a terminal's input leaves the byte order mark in place. -/
def promptPlaintext (isTTY : Bool) (bytes : Bytes) : JsString :=
  if isTTY then
    let buf := Utf16.encode (Utf8.decodeLossy bytes)
    if endsWithNewline buf then buf.dropLast else buf
  else Utf16.encode (Js.dropBom (Utf8.decodeLossy bytes))

/-! ## Keys -/

/-- A key of a phrase: a printable character, or either of the two backspaces. -/
inductive Key where
  | char (c : Char) (printable : 0x20 ≤ c.toNat ∧ c.toNat ≠ 0x7F)
  | backspace (del : Bool)

namespace Key

def toChar : Key → Char
  | char c _ => c
  | backspace del => if del then '\x7F' else '\x08'

/-- The phrase after a key: a backspace takes the last character away. -/
def press (cs : List Char) : Key → List Char
  | char c _ => cs ++ [c]
  | backspace _ => cs.dropLast

end Key

/-- The characters that are left of what was typed. -/
def remaining (keys : List Key) : List Char := keys.foldl Key.press []

/-- The phrase that the keys spell. -/
def spelled (keys : List Key) : JsString := Utf16.encode (remaining keys)

/-- What the terminal sends for the keys and Enter. -/
def typed (keys : List Key) (lf : Bool) : Bytes :=
  Utf8.encode (keys.map Key.toChar ++ [if lf then '\n' else '\r'])

/-- An input in the chunks in which it is handed out: whichever bytes arrive
together, the strings of the decoder make up the text. -/
structure Handed (input : Bytes) where
  chunks : List Chunk
  whole : chunks.flatten = Utf8.decodeLossy input

/-! ## What the loop makes of a string -/

/-- No string is any of the bytes that are waited for, and none is large enough. -/
theorem onItem_string (buf : JsString) (c : Char) :
    Prompt.onItem (.reading buf) (.string c) = .reading buf := by
  have small : (Item.string c).atLeast 0x20 = false := by
    simp only [Item.atLeast, Item.toNumber]
    split_ifs with digit
    · have bound := (Bool.and_eq_true_iff.mp digit).2
      have bound : c.toNat ≤ 57 := of_decide_eq_true bound
      have zero : '0'.toNat = 48 := rfl
      simp only [Option.any_some, decide_eq_false_iff_not]
      omega
    · rfl
    · rfl
  simp [Prompt.onItem, small]

theorem onData_reading (buf : JsString) (chunk : Chunk) :
    Prompt.onData (.reading buf) chunk = .reading buf := by
  induction chunk with
  | nil => rfl
  | cons c chunk ih => exact (congrArg (List.foldl _ · _) (onItem_string buf c)).trans ih

/-- A prompt goes on reading, whatever is typed. -/
theorem listen_reading (buf : JsString) (chunks : List Chunk) :
    Prompt.listen (.reading buf) chunks = (.reading buf, []) := by
  induction chunks with
  | nil => rfl
  | cons chunk chunks ih => rw [Prompt.listen, onData_reading, ih]

/-- No prompt gives a phrase. -/
theorem promptPhrase_halts (stdin : Stdin) : ∃ halt, promptPhrase stdin = .error halt := by
  rw [promptPhrase, listen_reading]
  by_cases terminal : stdin.isTTY = true
  · rw [if_neg (not_not.mpr terminal)]
    cases stdin.setRawMode with
    | error e => exact ⟨.die e, rfl⟩
    | ok raw => exact ⟨.pending, rfl⟩
  · rw [if_pos terminal]
    exact ⟨_, rfl⟩

theorem promptPhraseConfirmed_halts (stdin : Stdin) :
    ∃ halt, promptPhraseConfirmed stdin = .error halt := by
  obtain ⟨halt, first⟩ := promptPhrase_halts stdin
  rw [promptPhraseConfirmed, first]
  exact ⟨halt, rfl⟩

end Qev.Cli
