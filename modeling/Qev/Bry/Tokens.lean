import Mathlib.Data.List.Sort
import Qev.Lib.LongestMatch
import Qev.Lib.Python

/-! Bry text: the alphabet, plaintext in canonical form, and the three spellings
of a message (compact text, tokens between bars, a byte for each token). -/

namespace Qev.Bry

open Py (CodePoint Str cp py)

def TOKEN_TO_CHAR : List (Str × CodePoint) := [
  (py "1", cp 'A'), (py "2", cp 'B'), (py "3", cp 'C'), (py "4", cp 'D'), (py "5", cp 'E'),
  (py "6", cp 'F'), (py "7", cp 'G'), (py "8", cp 'H'), (py "9", cp 'I'), (py "+", cp 'J'),
  (py "+1", cp 'K'), (py "+2", cp 'L'), (py "+3", cp 'M'), (py "+4", cp 'N'), (py "+5", cp 'O'),
  (py "+6", cp 'P'), (py "+7", cp 'Q'), (py "+8", cp 'R'), (py "+9", cp 'S'), (py "++", cp 'T'),
  (py "++1", cp 'U'), (py "++2", cp 'V'), (py "++3", cp 'W'), (py "++4", cp 'X'),
  (py "++5", cp 'Y'), (py "++6", cp 'Z'), (py "-", cp ' '), (py "--p", cp '.'),
  (py "--c", cp ','), (py "--q", cp '?'), (py "--e", cp '!'), (py "--a", cp '\'')]

def CHAR_TO_TOKEN : List (CodePoint × Str) := TOKEN_TO_CHAR.map Prod.swap

def TOKEN_ORDER : List Str := TOKEN_TO_CHAR.map Prod.fst

/-- Longest first, in the order of the table where equally long. -/
def SORTED_TOKENS : List Str := TOKEN_ORDER.insertionSort fun a b => b.length ≤ a.length

def HUMAN_SEPARATOR : CodePoint := cp '|'

inductive Exc where
  | BryEncodingError (ch : CodePoint)
  | BryDecodingError (message : String) (position : Nat) (near : Str)
  | UnknownTokens (message : String) (invalid : List Str)
  | UnknownTokenIds (invalid : Bytes)
  | EmptySegment
  | ValueError (message : String)
  | UnsupportedTokenClass (token : Str)
  | UnsupportedHeader (field : String) (value : Str)
  | TokenCountMismatch (header : ℤ) (payload : Nat)
  | UnicodeEncodeError
  | OverflowError
  | Base64Error (e : Py.Base64Error)
  | InvalidTag
  deriving DecidableEq, Repr

/-! ## Canonical text -/

/-- `str.upper` of one character, as far as the alphabet goes: no other character
has one of its letters as upper case, and its marks have no case. -/
def upper (c : CodePoint) : CodePoint :=
  if cp 'a' ≤ c ∧ c ≤ cp 'z' then c - 32
  else if c.val = 0x131 then cp 'I'
  else if c.val = 0x17F then cp 'S'
  else c

/-- The loop body of `normalize_plaintext`. -/
def normalize (ch : CodePoint) : Except Exc CodePoint :=
  if ch ∈ py "\t\r\n" then .ok (cp ' ')
  else if (CHAR_TO_TOKEN.lookup (upper ch)).isSome then .ok (upper ch)
  else .error (.BryEncodingError ch)

def normalize_plaintext (text : Str) : Except Exc Str := text.mapM normalize

def tokenOf (ch : CodePoint) : Str := (CHAR_TO_TOKEN.lookup ch).getD []

def charOf (token : Str) : CodePoint := (TOKEN_TO_CHAR.lookup token).getD 0

def encode_to_bry (text : Str) : Except Exc Str := do
  let normalized ← normalize_plaintext text
  return normalized.flatMap tokenOf

/-- The loop of `decode_from_bry` and of `tokenize_bry`. -/
def longestMatch (message : String) (code : Str) : Except Exc (List Str) :=
  match LongestMatch.scan SORTED_TOKENS 0 0 (code.filter (!Py.isSpace ·)) with
  | .error (i, rest) => .error (.BryDecodingError message i (rest.take 12))
  | .ok tokens => .ok tokens

def decode_from_bry (code : Str) : Except Exc Str := do
  let tokens ← longestMatch "Invalid Bry stream near position" code
  return tokens.map charOf

/-! ## Tokens -/

def tokenize_bry (code : Str) : Except Exc (List Str) :=
  longestMatch "Invalid Bry token stream near position" code

/-- Every token is one of the table. -/
def known (message : String) (tokens : List Str) : Except Exc Unit :=
  let invalid := tokens.filter (· ∉ TOKEN_ORDER)
  if invalid ≠ [] then .error (.UnknownTokens message invalid) else .ok ()

def untokenize_bry (tokens : List Str) : Except Exc Str := do
  known "Unknown Bry tokens" tokens
  return tokens.flatten

def render_human_bry (tokens : List Str) : Except Exc Str := do
  known "Unknown Bry tokens" tokens
  return Py.join HUMAN_SEPARATOR tokens

def parse_human_bry (text : Str) : Except Exc (List Str) :=
  let stripped := Py.strip text
  if stripped = [] then .ok []
  else do
    let raw_items := (Py.split HUMAN_SEPARATOR stripped).map Py.strip
    if [] ∈ raw_items then throw .EmptySegment
    known "Unknown Bry tokens in human-safe input" raw_items
    return raw_items

def parse_bry_input (text : Str) : Except Exc (List Str) :=
  if HUMAN_SEPARATOR ∈ text then parse_human_bry text else tokenize_bry text

/-! ## Bytes -/

def tokens_to_bytes (tokens : List Str) : Except Exc Bytes := do
  known "Unknown tokens for binary serialization" tokens
  return tokens.map fun tok => UInt8.ofNat (TOKEN_ORDER.idxOf tok)

def bytes_to_tokens (data : Bytes) : Except Exc (List Str) :=
  let invalid := data.filter fun value => TOKEN_ORDER[value.toNat]?.isNone
  if invalid ≠ [] then .error (.UnknownTokenIds invalid)
  else .ok (data.filterMap fun value => TOKEN_ORDER[value.toNat]?)

/-! ## The table -/

theorem mem_sorted {token : Str} : token ∈ SORTED_TOKENS ↔ token ∈ TOKEN_ORDER :=
  List.mem_insertionSort _

theorem sorted_pairwise : SORTED_TOKENS.Pairwise fun v w => w.length ≤ v.length := by
  decide

/-- Each entry reads in both directions, and its character is in canonical form. -/
theorem entry : ∀ p ∈ TOKEN_TO_CHAR, tokenOf p.2 = p.1 ∧ charOf p.1 = p.2 ∧
    normalize p.2 = .ok p.2 := by
  decide

/-- Tokens are not empty and have neither white space nor bars. -/
theorem spelled : ∀ t ∈ TOKEN_ORDER, t ≠ [] ∧
    t.all (fun c => !Py.isSpace c && c != HUMAN_SEPARATOR) = true := by
  decide

end Qev.Bry
