import LvmControl.Number.Binary64
import LvmControl.Text.Split

/-!
# Sizes in bytes

A size is a count of bytes below `2 ^ 64`. It is written as a number with the unit `b` and read from
a number with any of the units the tools know, units being powers of 1024 whatever their case, and a
bare number a count of mebibytes.

## Main definitions

* `Size`: the count with its bound.
* `Size.read?`: reads a size.
* `Size.text`: writes a size.

## Design notes

**Two ways to read the number.** A whole number is multiplied exactly and refused when the product
does not fit. Only a text that is not a whole number below `2 ^ 64` is taken as a decimal fraction,
that is, as the binary64 number nearest to it; the product with the unit is then rounded to whole
bytes, a half going up. A minus sign is refused unless the number nearest to the text is zero.
-/

namespace LvmControl

open Number

/-- A count of bytes that fits in sixty-four bits. -/
structure Size where
  bytes : Nat
  fits : bytes < wordBound

namespace Size

/-- A size is its count of bytes. -/
theorem eq_of_bytes_eq {s t : Size} (h : s.bytes = t.bytes) : s = t := by
  cases s
  cases t
  cases h
  rfl

/-- Sizes are compared by their counts. -/
instance instDecidableEq : DecidableEq Size := fun s t =>
  if h : s.bytes = t.bytes then isTrue (eq_of_bytes_eq h)
  else isFalse fun e => h (congrArg Size.bytes e)

/-- The size of so many bytes, if it fits. -/
def ofBytes? (n : Nat) : Option Size := if h : n < wordBound then some ⟨n, h⟩ else none

/-- The size of so many mebibytes, if it fits. -/
def ofMebibytes? (n : Nat) : Option Size := ofBytes? (n * Nat.pow 2 20)

/-- The unit of a letter, as the power of two it stands for. -/
def unitPower? (letter : Char) : Option Nat :=
  match letter.toLower with
  | 'b' => some 0
  | 's' => some 9
  | 'k' => some 10
  | 'm' => some 20
  | 'g' => some 30
  | 't' => some 40
  | 'p' => some 50
  | 'e' => some 60
  | _ => none

/-- A decimal fraction of a unit, rounded to whole bytes. -/
def ofFraction? (power : Nat) (number : Decimal) : Option Size :=
  number.magnitude?.bind fun x =>
    if number.negative && x.significand ≠ 0 then none else ofBytes? (x.scaled power)

/-- So many of the unit `2 ^ power`, the number being given as text. -/
def amount? (number : List Char) (power : Nat) : Option Size :=
  match readBelow? wordBound number with
  | some n => ofBytes? (n * Nat.pow 2 power)
  | none => (Decimal.read? number).bind (ofFraction? power)

/-- Reads a size between blanks. -/
def read? (text : List Char) : Option Size :=
  let t := Text.trim text
  match t.getLast? with
  | none => none
  | some c => if c.isAlpha then (unitPower? c).bind (amount? t.dropLast) else amount? t 20

/-- The count of bytes followed by the unit of bytes. -/
def text (s : Size) : String := decimal s.bytes ++ "b"

end Size

/-- A bare number counts mebibytes, and a fraction of a unit is rounded. -/
example : (Size.read? "3".toList).map Size.bytes = some (3 * 2 ^ 20) := by decide +kernel
example : (Size.read? " 1.5k ".toList).map Size.bytes = some 1536 := by decide +kernel
example : (Size.read? "0.0005k".toList).map Size.bytes = some 1 := by decide +kernel

end LvmControl
