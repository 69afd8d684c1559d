import Mathlib.Data.Int.Basic
import GrpcMtk.Core.Proto

/-!
# C strings and numbers

What the http parser does with the text of a line.  A C string is the list of
its bytes up to the terminating NUL.  A `char` is a byte; the comparisons of
the source treat the bytes from 0x80 on, which are negative as `char`, like
any other byte that is no letter, digit or blank.
-/

namespace GrpcMtk.Http

open GrpcMtk.Proto

def ascii (text : String) : Bytes :=
  text.toList.map fun char => UInt8.ofNat char.toNat

def cr : UInt8 := 13
def lf : UInt8 := 10
def space : UInt8 := 32
def colon : UInt8 := 58
def semicolon : UInt8 := 59

def crlf : Bytes := [cr, lf]

def tolower (byte : UInt8) : UInt8 :=
  if 65 ≤ byte ∧ byte ≤ 90 then byte + 32 else byte

/-- The value an `int` takes when the exact result does not fit. -/
def toInt (value : ℤ) : ℤ := value.bmod (2 ^ 32)

/-- The value a `uint32_t` takes. -/
def toUInt32 (value : ℤ) : ℕ := (value % 2 ^ 32).toNat

def decimalDigit (byte : UInt8) : Option ℕ :=
  if 48 ≤ byte ∧ byte ≤ 57 then some (byte.toNat - 48) else none

def hexDigit (byte : UInt8) : Option ℕ :=
  if 48 ≤ byte ∧ byte ≤ 57 then some (byte.toNat - 48)
  else if 97 ≤ byte ∧ byte ≤ 102 then some (byte.toNat - 97 + 10)
  else if 65 ≤ byte ∧ byte ≤ 70 then some (byte.toNat - 65 + 10)
  else none

section Numbers

variable (base : ℤ) (digit : UInt8 → Option ℕ) (max : ℕ)

/-- The loop of `htoi` and `atoi`, of which `read` bytes are behind. -/
def digits : ℕ → ℤ → Bytes → Option ℤ
  | _, value, [] => some value
  | read, value, byte :: rest =>
      match digit byte with
      | none => none
      | some num =>
          if read + 1 ≥ max then none
          else digits (read + 1) (toInt (value * base + num)) rest

def number (text : Bytes) : Option ℤ :=
  match text with
  | 45 :: rest => (digits base digit max 1 0 rest).map fun value => toInt (-value)
  | _ => digits base digit max 0 0 text

end Numbers

/-- `HttpFSM::htoi`. -/
def htoi (text : Bytes) (max : ℕ) : Option ℤ := number 16 hexDigit max text

/-- `HttpFSM::atoi`. -/
def atoi (text : Bytes) (max : ℕ) : Option ℤ :=
  number 10 decimalDigit max text

def isspace (byte : UInt8) : Bool := byte = 32 ∨ 9 ≤ byte ∧ byte ≤ 13

def isdigit (byte : UInt8) : Bool := 48 ≤ byte ∧ byte ≤ 57

def sign : Bytes → Bool × Bytes
  | 45 :: rest => (true, rest)
  | 43 :: rest => (false, rest)
  | text => (false, text)

/-- `std::stoi`: the number and the text after it; `none` if it throws. -/
def stoi (text : Bytes) : Option (ℤ × Bytes) :=
  let (minus, text) := sign (text.dropWhile isspace)
  let read := text.takeWhile isdigit
  let value : ℤ := read.foldl (fun value byte => value * 10 + (byte.toNat - 48)) 0
  let value := if minus then -value else value
  if read = [] then none
  else if -2 ^ 31 ≤ value ∧ value < 2 ^ 31 then
    some (value, text.dropWhile isdigit)
  else none

/-! ## Header lines -/

inductive KeyMatch where
  | mismatch
  /-- More bytes match than the line is said to have. -/
  | tooLong
  | found (rest : Bytes)
  deriving DecidableEq, Repr

/-- The comparison of a key with the start of a line of length `hl`. -/
def matchKey (hl : ℕ) : ℕ → Bytes → Bytes → KeyMatch
  | _, [], text => .found text
  | _, _ :: _, [] => .mismatch
  | matched, k :: key, p :: text =>
      if tolower k = tolower p then
        if matched > hl then .tooLong else matchKey hl (matched + 1) key text
      else .mismatch

def isBlank (byte : UInt8) : Bool := byte = space ∨ byte = colon

/-- `HttpFSM::hdrstr` over the lines, each with its stored length.  The check
inside the loop over blanks compares a pointer with a later one and never
fires. -/
def findKey (key : Bytes) (l : ℕ) : List (Bytes × ℕ) → Option Bytes
  | [] => none
  | (line, hl) :: rest =>
      match matchKey hl 0 key line with
      | .mismatch => findKey key l rest
      | .tooLong => none
      | .found text =>
          let value := text.dropWhile isBlank
          if value.length ≥ l then none else some value

/-- `putrc` from the end of the version to the token after it. -/
def skipToToken (hl : ℕ) : ℕ → Bytes → Option (ℕ × Bytes)
  | read, [] => some (read, [])
  | read, [_] => some (read + 1, [])
  | read, _ :: byte :: rest =>
      if byte ≠ space then some (read + 1, byte :: rest)
      else if read + 1 > hl then none
      else skipToToken hl (read + 1) (byte :: rest)

/-- `putrc` over the token, which goes into a buffer of 256 bytes. -/
def takeToken (hl : ℕ) : ℕ → Bytes → Bytes → Option Bytes
  | _, tok, [] => some tok
  | read, tok, byte :: rest =>
      if byte = space then some tok
      else if read + 1 > hl then none
      else if tok.length + 1 ≥ 256 then none
      else takeToken hl (read + 1) (tok ++ [byte]) rest

end GrpcMtk.Http
