import Mathlib.Algebra.Ring.Nat
import Mathlib.Data.Char
import Mathlib.Data.Nat.Notation

/-!
# C strings

What `isp_control.c` uses of the C library: `strtok_r`, `strtoull` and `snprintf`.
-/

namespace Sg200x.Isp

/-- A string without its terminator, one character for each byte. -/
abbrev Text := List Char

/-- `isspace` -/
def isSpace (c : Char) : Bool := c = ' ' || (9 ≤ c.toNat && c.toNat ≤ 13)

/-- The string at the start of a buffer. -/
def cString (buffer : Text) : Text := buffer.takeWhile (· ≠ '\x00')

def isDelimiter (c : Char) : Bool := c = ' ' || c = '\t' || c = '\r' || c = '\n'

/-- The tokens of `strtok_r(command, " \t\r\n", &saveptr)`. -/
def tokens (command : Text) : List Text :=
  ((cString command).splitOnP isDelimiter).filter (· ≠ [])

def digitValue (c : Char) : Option ℕ :=
  if '0' ≤ c ∧ c ≤ '9' then some (c.toNat - '0'.toNat)
  else if 'a' ≤ c ∧ c ≤ 'z' then some (c.toNat - 'a'.toNat + 10)
  else if 'A' ≤ c ∧ c ≤ 'Z' then some (c.toNat - 'A'.toNat + 10)
  else none

def isDigitOf (base : ℕ) (c : Char) : Bool := (digitValue c).any (· < base)

def digitsValue (base : ℕ) (digits : Text) : ℕ :=
  digits.foldl (fun value c => value * base + (digitValue c).getD 0) 0

/-- The value, what follows the number, and whether `errno` is `ERANGE`. -/
structure Parsed where
  value : ℕ
  rest : Text
  outOfRange : Bool

def ulonglongMax : ℕ := 2 ^ 64 - 1

/-- `strtoull(text, &end, 0)` -/
def strtoull (text : Text) : Parsed :=
  let signed := text.dropWhile isSpace
  let negative := signed.head? = some '-'
  let number := if negative ∨ signed.head? = some '+' then signed.tail else signed
  let hex := (number.take 2 = "0x".toList ∨ number.take 2 = "0X".toList) ∧
    (number.drop 2).head?.any (isDigitOf 16)
  let base := if hex then 16 else if number.head? = some '0' then 8 else 10
  let body := if hex then number.drop 2 else number
  let digits := body.takeWhile (isDigitOf base)
  let value := digitsValue base digits
  if digits = [] then ⟨0, text, false⟩
  else if ulonglongMax < value then ⟨ulonglongMax, body.dropWhile (isDigitOf base), true⟩
  else ⟨if negative then (2 ^ 64 - value) % 2 ^ 64 else value, body.dropWhile (isDigitOf base), false⟩

/-- `%u` -/
def decimal (n : ℕ) : Text := Nat.toDigits 10 n

/-- `%d` -/
def signedDecimal (z : ℤ) : Text :=
  if z < 0 then '-' :: decimal z.natAbs else decimal z.natAbs

/-- What `snprintf` leaves in a buffer. -/
def snprintf (size : ℕ) (text : Text) : Text := text.take (size - 1)

example : tokens "noise set\ttnr 0 24\r\n".toList =
    ["noise".toList, "set".toList, "tnr".toList, "0".toList, "24".toList] := by decide

example : (strtoull "0x400".toList).value = 0x400 := by decide

end Sg200x.Isp
