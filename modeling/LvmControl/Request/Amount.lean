import LvmControl.Quantity.Size
import LvmControl.Request.Fault

/-!
# Amounts that callers give

A caller gives a size or a number of extents as text, or a size as a count of mebibytes. What is no
amount, or does not fit, is refused like any other value that no command could use, and the refusal
quotes what was given.

## Main definitions

* `orInvalid`: what was read of a value, or the refusal.
* `Size.parse`, `Extents.parse`: the amount that a text gives, or the refusal.
* `Size.ofMib`: the size of so many mebibytes, or the refusal.
-/

namespace LvmControl

/-- What was read of a value, or the refusal of the value. -/
def orInvalid {α : Type} (value : InvalidValue) : Option α → Except ValidationError α
  | some a => .ok a
  | none => .error (.invalid value)

@[simp] theorem toOption_orInvalid {α : Type} (value : InvalidValue) (read? : Option α) :
    (orInvalid value read?).toOption = read? := by
  cases read? <;> rfl

namespace Size

/-- The size that a text gives. -/
def parse (text : String) : Except ValidationError Size :=
  orInvalid (.size text) (read? text.toList)

/-- The size of so many mebibytes. -/
def ofMib (n : Nat) : Except ValidationError Size := orInvalid (.mebibytes n) (ofMebibytes? n)

/-- Reading settles what a text gives. -/
theorem parse_of_read? {text : String} {s : Size} (h : read? text.toList = some s) :
    parse text = .ok s := by
  rw [parse, h, orInvalid]

theorem parse_of_read?_eq_none {text : String} (h : read? text.toList = none) :
    parse text = .error (.invalid (.size text)) := by
  rw [parse, h, orInvalid]

end Size

namespace Extents

/-- The number of extents that a text gives. -/
def parse (text : String) : Except ValidationError Extents :=
  orInvalid (.extents text) (read? text.toList)

theorem parse_of_read? {text : String} {e : Extents} (h : read? text.toList = some e) :
    parse text = .ok e := by
  rw [parse, h, orInvalid]

end Extents

end LvmControl
