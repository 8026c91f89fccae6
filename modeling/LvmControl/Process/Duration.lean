import LvmControl.Number.Whole

/-!
# Durations

Lengths of time, counted in nanoseconds.

## Main definitions

* `Duration`: the count.
* `Duration.ofMillis`, `Duration.millis`: milliseconds, in which settings and answers give
  durations.
* `Duration.text`: a duration in the largest unit that is not larger than it, with as many decimals
  as it needs.
-/

namespace LvmControl

open Number

/-- A length of time. -/
structure Duration where
  nanos : Nat
deriving DecidableEq, Repr

namespace Duration

/-- No time. Where a duration bounds a wait, it means that there is no bound. -/
def zero : Duration := ⟨0⟩

/-- So many milliseconds. -/
def ofMillis (n : Nat) : Duration := ⟨n * 1000000⟩

/-- The whole milliseconds of a duration. -/
def millis (d : Duration) : Nat := d.nanos / 1000000

@[simp] theorem millis_ofMillis (n : Nat) : (ofMillis n).millis = n :=
  Nat.mul_div_cancel n (by decide)

/-- Digits with zeros in front, up to a width. -/
def padded (width : Nat) (digits : List Char) : List Char :=
  List.replicate (width - digits.length) '0' ++ digits

/-- The digits of a fraction of `10 ^ places`, without the zeros at the end. -/
def fractionDigits (places n : Nat) : List Char :=
  ((padded places (decimalDigits n)).reverse.dropWhile (· = '0')).reverse

/-- A number of nanoseconds in a unit of `10 ^ places` nanoseconds. -/
def inUnit (places nanos : Nat) (unit : String) : String :=
  let fraction := if nanos % Nat.pow 10 places = 0 then []
    else '.' :: fractionDigits places (nanos % Nat.pow 10 places)
  decimal (nanos / Nat.pow 10 places) ++ String.ofList fraction ++ unit

/-- A duration in seconds, milliseconds, microseconds or nanoseconds. -/
def text (d : Duration) : String :=
  if 1000000000 ≤ d.nanos then inUnit 9 d.nanos "s"
  else if 1000000 ≤ d.nanos then inUnit 6 d.nanos "ms"
  else if 1000 ≤ d.nanos then inUnit 3 d.nanos "\u00b5s"
  else inUnit 0 d.nanos "ns"

end Duration

end LvmControl
