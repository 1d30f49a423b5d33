import Conveyor.Text
import Mathlib.Algebra.Group.Int.Defs
import Mathlib.Algebra.Group.Nat.Defs

/-!
# Numbers in JSON text

`parse_number` copies at most 63 bytes that may belong to a number, hands them
to `strtod` and converts the double to an `int` with saturation.  A number is
kept as the decimal that was written; `valueint` rounds it to the nearest
double, ties to even, before it truncates.
-/

namespace Conveyor.Json

def isDigit (character : UInt8) : Bool :=
  byte '0' ≤ character && character ≤ byte '9'

/-- The bytes `parse_number` copies. -/
def isNumberByte (character : UInt8) : Bool :=
  isDigit character || character = byte '+' || character = byte '-' ||
    character = byte 'e' || character = byte 'E' || character = byte '.'

/-- A decimal `mantissa * 10 ^ exponent` with its sign. -/
structure Decimal where
  negative : Bool
  mantissa : ℕ
  exponent : ℤ
  deriving DecidableEq, Repr

/-- The number a list of digits denotes. -/
def digitsValue (digits : Text) : ℕ :=
  digits.foldl (fun value digit => 10 * value + (digit - byte '0').toNat) 0

/-- An optional sign and what follows it. -/
def splitSign : Text → Bool × Text
  | [] => (false, [])
  | first :: rest =>
      if first = byte '-' then (true, rest)
      else if first = byte '+' then (false, rest)
      else (false, first :: rest)

/-- An optional fraction and what follows it. -/
def splitFraction : Text → Text × Text
  | [] => ([], [])
  | first :: rest =>
      if first = byte '.' then (rest.takeWhile isDigit, rest.dropWhile isDigit)
      else ([], first :: rest)

/-- An optional exponent and what follows it; without digits there is none. -/
def splitExponent : Text → ℤ × Text
  | [] => (0, [])
  | first :: rest =>
      if first = byte 'e' ∨ first = byte 'E' then
        let (negative, unsigned) := splitSign rest
        let digits := unsigned.takeWhile isDigit
        if digits = [] then (0, first :: rest)
        else (if negative then -digitsValue digits else digitsValue digits,
          unsigned.dropWhile isDigit)
      else (0, first :: rest)

/-- `strtod` on text made of number bytes: the decimal and how many bytes it
takes. -/
def strtod (number : Text) : Option (Decimal × ℕ) :=
  let (negative, unsigned) := splitSign number
  let whole := unsigned.takeWhile isDigit
  let (fraction, afterFraction) := splitFraction (unsigned.dropWhile isDigit)
  if whole ++ fraction = [] then none
  else
    let (exponent, rest) := splitExponent afterFraction
    some (⟨negative, digitsValue (whole ++ fraction),
      exponent - fraction.length⟩, number.length - rest.length)

/-- How many bits a number has. -/
def bitLength (number : ℕ) : ℕ :=
  if number = 0 then 0 else number.log2 + 1

/-- The magnitude of the nearest double, truncated, or `2 ^ 31` if it is at
least that.  A mantissa comes from at most 63 digits, so the exponents cut off
here decide the result. -/
def Decimal.truncated (decimal : Decimal) : ℕ :=
  if decimal.mantissa = 0 ∨ decimal.exponent < -400 then 0
  else if 400 < decimal.exponent then 2 ^ 31
  else
    let numerator := decimal.mantissa * 10 ^ decimal.exponent.toNat
    let denominator := 10 ^ (-decimal.exponent).toNat
    let whole := numerator / denominator
    if 2 ^ 31 ≤ whole then 2 ^ 31
    else
      let scale := 2 ^ (53 - bitLength whole)
      let quotient := numerator * scale / denominator
      let remainder := numerator * scale % denominator
      let rounded :=
        if 2 * remainder < denominator ∨
            2 * remainder = denominator ∧ quotient % 2 = 0 then quotient
        else quotient + 1
      rounded / scale

/-- `valueint`: the double as an `int`, saturated. -/
def Decimal.valueint (decimal : Decimal) : ℤ :=
  if decimal.negative then -(min decimal.truncated (2 ^ 31) : ℕ)
  else (min decimal.truncated (2 ^ 31 - 1) : ℕ)

theorem Decimal.valueint_range (decimal : Decimal) :
    -2 ^ 31 ≤ decimal.valueint ∧ decimal.valueint < 2 ^ 31 := by
  unfold Decimal.valueint
  split <;> omega

example : (strtod (text "2147483647.9")).map (fun parsed =>
    parsed.1.valueint) = some 2147483647 := by decide

example : (strtod (text "-1.25e1,")).map (fun parsed =>
    (parsed.1.valueint, parsed.2)) = some (-12, 7) := by decide

end Conveyor.Json
