/-!
# Blank and control characters

Two character classes decide how text from outside is cut up: *blank* characters, which separate
words and are trimmed from the ends of values, and *control* characters, which no device path may
hold.

## Main definitions

* `isBlank`: the Unicode property `White_Space`, twenty-five characters in ten ranges.
* `isControl`: the Unicode general category `Cc`.

## Design notes

**Whole property, not its ASCII part.** The tools echo user text, so a no-break space or an
ideographic space does turn up; both classes are therefore the full Unicode ones. The ASCII class of
the core library is contained in `isBlank`, see `isBlank_of_isWhitespace`.
-/

namespace LvmControl.Text

/-- The ranges of code points with the property `White_Space`, in ascending order. -/
def blankRanges : List (Nat × Nat) :=
  [(0x9, 0xd), (0x20, 0x20), (0x85, 0x85), (0xa0, 0xa0), (0x1680, 0x1680), (0x2000, 0x200a),
   (0x2028, 0x2029), (0x202f, 0x202f), (0x205f, 0x205f), (0x3000, 0x3000)]

/-- Whether a character has the property `White_Space`. -/
def isBlank (c : Char) : Bool :=
  blankRanges.any fun (low, high) => low ≤ c.toNat && c.toNat ≤ high

/-- Whether a character is of the category `Cc`: the two blocks of control codes and the delete
code between them. -/
def isControl (c : Char) : Bool :=
  c.toNat ≤ 0x1f || (0x7f ≤ c.toNat && c.toNat ≤ 0x9f)

/-- The property has twenty-five characters. -/
example : (blankRanges.map fun (low, high) => high - low + 1).sum = 25 := by decide

/-- Whatever core calls whitespace is blank. -/
theorem isBlank_of_isWhitespace {c : Char} (h : c.isWhitespace = true) : isBlank c = true := by
  simp only [Char.isWhitespace, Bool.or_eq_true, decide_eq_true_eq] at h
  rcases h with ((rfl | rfl) | rfl) | rfl <;> decide

end LvmControl.Text
