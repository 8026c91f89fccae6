/-!
# Whole numbers in decimal

Reading and writing of whole numbers, and the bounds of the fixed-width numbers that the tools
exchange.

## Main definitions

* `digitsValue?`: the value of a non-empty run of decimal digits.
* `readWhole?`: a run of digits after at most one plus sign. Leading zeros are allowed and a minus
  sign is not.
* `readBelow?`: the same, refusing values from a bound on.
* `decimal`: the digits of a number, without leading zeros.

## Main statements

* `digitsValue?_decimalDigits`: writing and reading a number gives the number back.
-/

namespace LvmControl.Number

/-- One more than the largest count of bytes or extents that the tools exchange: `2 ^ 64`. -/
def wordBound : Nat := 0x10000000000000000

/-- One more than the largest partition number: `2 ^ 32`. -/
def halfWordBound : Nat := 0x100000000

/-- The value of a decimal digit; of no interest for other characters. -/
def digitValue (c : Char) : Nat := c.toNat - 48

/-- The value of a run of digits read after digits of value `acc`. -/
def foldDigits (acc : Nat) (cs : List Char) : Nat :=
  cs.foldl (fun n c => 10 * n + digitValue c) acc

/-- The value of a text that holds digits only and at least one of them. -/
def digitsValue? (cs : List Char) : Option Nat :=
  if cs.isEmpty || !cs.all Char.isDigit then none else some (foldDigits 0 cs)

/-- A text without the plus sign in front, if it has one. -/
def dropPlus : List Char → List Char
  | '+' :: cs => cs
  | cs => cs

/-- The value of a whole number, with a plus sign allowed in front. -/
def readWhole? (cs : List Char) : Option Nat := digitsValue? (dropPlus cs)

/-- The value of a whole number below `bound`. -/
def readBelow? (bound : Nat) (cs : List Char) : Option Nat :=
  (readWhole? cs).filter (· < bound)

/-- The character of a digit below ten. -/
def digitChar (d : Nat) : Char := Char.ofNat (48 + d)

/-- The decimal digits of a number, most significant first. -/
def decimalDigits (n : Nat) : List Char :=
  if n < 10 then [digitChar n] else decimalDigits (n / 10) ++ [digitChar (n % 10)]

/-- A number in decimal. -/
def decimal (n : Nat) : String := String.ofList (decimalDigits n)

theorem toNat_digitChar {d : Nat} (h : d < 10) : (digitChar d).toNat = 48 + d := by
  revert d
  decide

theorem isDigit_digitChar {d : Nat} (h : d < 10) : (digitChar d).isDigit = true := by
  revert d
  decide

theorem digitValue_digitChar {d : Nat} (h : d < 10) : digitValue (digitChar d) = d := by
  simp [digitValue, toNat_digitChar h]

theorem decimalDigits_ne_nil (n : Nat) : decimalDigits n ≠ [] := by
  unfold decimalDigits
  split <;> simp

theorem all_isDigit_decimalDigits (n : Nat) : (decimalDigits n).all Char.isDigit = true := by
  induction n using Nat.strongRecOn with
  | ind n ih =>
    unfold decimalDigits
    split
    · rename_i h
      simp [isDigit_digitChar h]
    · rename_i h
      simp only [List.all_append, ih (n / 10) (by omega), Bool.true_and, List.all_cons,
        List.all_nil, Bool.and_true]
      exact isDigit_digitChar (Nat.mod_lt _ (by decide))

theorem foldDigits_append (acc : Nat) (cs ds : List Char) :
    foldDigits acc (cs ++ ds) = foldDigits (foldDigits acc cs) ds := by
  simp [foldDigits]

theorem foldDigits_decimalDigits (n : Nat) : foldDigits 0 (decimalDigits n) = n := by
  induction n using Nat.strongRecOn with
  | ind n ih =>
    unfold decimalDigits
    split
    · rename_i h
      simp [foldDigits, digitValue_digitChar h]
    · rename_i h
      rw [foldDigits_append, ih (n / 10) (by omega)]
      simp only [foldDigits, List.foldl_cons, List.foldl_nil,
        digitValue_digitChar (Nat.mod_lt n (show 0 < 10 by decide))]
      omega

/-- Reading the digits of a number gives the number back. -/
theorem digitsValue?_decimalDigits (n : Nat) : digitsValue? (decimalDigits n) = some n := by
  simp [digitsValue?, decimalDigits_ne_nil, all_isDigit_decimalDigits, foldDigits_decimalDigits]

end LvmControl.Number
