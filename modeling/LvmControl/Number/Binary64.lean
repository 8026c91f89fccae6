import LvmControl.Number.Whole

/-!
# Decimal fractions and the binary64 number nearest to them

An amount such as `1.5` or `2e3` is taken to be the binary64 number nearest to what is written, a
tie going to the even significand. That number is a whole significand times a power of two, so it is
represented and computed exactly, without any floating-point operation.

## Main definitions

* `Decimal`: a signed decimal number `±digits · 10 ^ exponent`.
* `Decimal.read?`: the grammar: a sign, digits with at most one point among or around them, and
  possibly an exponent; at least one digit before the exponent and one in it.
* `Dyadic`: a number `significand · 2 ^ exponent`.
* `nearest`: the binary64 number nearest to a fraction.
* `Decimal.magnitude?`: the binary64 number nearest to the magnitude of a decimal number, or `none`
  when it is too large for binary64.
* `Dyadic.scaled`: a dyadic number times a power of two, rounded to a whole number, a half going up.

## Design notes

**Extreme exponents.** A number whose digits put it far outside the range of binary64 is answered
without computing its power of ten: above `10 ^ 310` it is too large, below `10 ^ (-400)` it is
zero, and both agree with the exact rule, since the range of binary64 ends below `10 ^ 309` and half
of its least positive number is above `10 ^ (-324)`.
-/

namespace LvmControl.Number

/-- The number `digits · 10 ^ exponent`, negated if `negative`. -/
structure Decimal where
  negative : Bool
  digits : Nat
  exponent : Int
deriving DecidableEq, Repr

/-- The number `significand · 2 ^ exponent`. -/
structure Dyadic where
  significand : Nat
  exponent : Int
deriving DecidableEq, Repr

/-- The sign in front of a text, and the text after it. -/
def takeSign : List Char → Bool × List Char
  | '-' :: cs => (true, cs)
  | '+' :: cs => (false, cs)
  | cs => (false, cs)

/-- The value of the digits of an exponent. Digits after the value has reached 65536 do not count:
the number is out of range long before that. -/
def exponentValue (cs : List Char) : Nat :=
  cs.foldl (fun n c => if n < 65536 then 10 * n + digitValue c else n) 0

/-- Reads what follows the digits of a number: nothing, or an exponent. -/
def readExponent? : List Char → Option Int
  | [] => some 0
  | c :: cs =>
    let (negative, ds) := takeSign cs
    if (c = 'e' || c = 'E') && !ds.isEmpty && ds.all Char.isDigit then
      some (if negative then -(exponentValue ds : Int) else exponentValue ds)
    else none

/-- The fraction digits after a point, and the text after them. -/
def takeFraction : List Char → List Char × List Char
  | '.' :: cs => (cs.takeWhile Char.isDigit, cs.dropWhile Char.isDigit)
  | cs => ([], cs)

namespace Decimal

/-- Reads a decimal number. -/
def read? (cs : List Char) : Option Decimal :=
  let (negative, unsigned) := takeSign cs
  let whole := unsigned.takeWhile Char.isDigit
  let (fraction, rest) := takeFraction (unsigned.dropWhile Char.isDigit)
  if whole.isEmpty && fraction.isEmpty then none
  else (readExponent? rest).map fun e =>
    ⟨negative, foldDigits 0 (whole ++ fraction), e - fraction.length⟩

end Decimal

/-- Numerator and denominator of `(num / den) / 2 ^ e`. -/
def shiftDown (num den : Nat) (e : Int) : Nat × Nat :=
  (num * Nat.pow 2 (-e).toNat, den * Nat.pow 2 e.toNat)

/-- The quotient rounded to the nearest whole number, a tie going to the even one. -/
def roundHalfEven (num den : Nat) : Nat :=
  let q := num / den
  let twice := 2 * (num % den)
  if twice < den then q
  else if den < twice then q + 1
  else if q % 2 = 0 then q else q + 1

/-- The exponent of the unit in the last place of the binary64 numbers around a positive fraction:
significands there have fifty-three bits, and the unit is never below `2 ^ (-1074)`. -/
def unitExponent (num den : Nat) : Int :=
  let k : Int := (Nat.log2 num : Int) - Nat.log2 den
  let (n, d) := shiftDown num den k
  max (-1074) (if n < d then k - 53 else k - 52)

/-- The binary64 number nearest to the fraction `num / den`, with no bound on its exponent above. -/
def nearest (num den : Nat) : Dyadic :=
  if num = 0 then ⟨0, 0⟩
  else
    let e := unitExponent num den
    let (n, d) := shiftDown num den e
    ⟨roundHalfEven n d, e⟩

/-- The number times `2 ^ k`, rounded to the nearest whole number, a half going up. -/
def Dyadic.scaled (x : Dyadic) (k : Nat) : Nat :=
  let e := x.exponent + k
  (2 * x.significand * Nat.pow 2 e.toNat + Nat.pow 2 (-e).toNat) / (2 * Nat.pow 2 (-e).toNat)

/-- Whether the number is below `2 ^ 1024`, where the range of binary64 ends. -/
def Dyadic.inRange (x : Dyadic) : Bool :=
  x.significand * Nat.pow 2 x.exponent.toNat < Nat.pow 2 1024 * Nat.pow 2 (-x.exponent).toNat

namespace Decimal

/-- How many decimal digits the number has before its point, less those missing. -/
def size (x : Decimal) : Int := (decimalDigits x.digits).length + x.exponent

/-- The binary64 number nearest to the magnitude, or `none` when it would be out of range. -/
def magnitude? (x : Decimal) : Option Dyadic :=
  if x.digits = 0 || x.size < -400 then some ⟨0, 0⟩
  else if 310 < x.size then none
  else
    some (nearest (x.digits * Nat.pow 10 x.exponent.toNat)
      (Nat.pow 10 (-x.exponent).toNat)) |>.filter Dyadic.inRange

end Decimal

/-- One half is a number of binary64, and so is the least positive one. -/
example : nearest 1 2 = ⟨2 ^ 52, -53⟩ := by decide
example : (Decimal.read? "1.5e1".toList).bind Decimal.magnitude? = some ⟨15 * 2 ^ 49, -49⟩ := by
  decide +kernel

end LvmControl.Number
