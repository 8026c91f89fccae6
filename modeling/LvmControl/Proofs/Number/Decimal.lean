import LvmControl.Number.Binary64
import LvmControl.Proofs.Text.Cutting
import Mathlib.Data.List.Induction
import Mathlib.Data.Nat.Digits.Defs

/-!
# Decimal numbers in texts

A text is a decimal number by the places of its digits. The readers of whole numbers go through the
digits from the first to the last, with or without a bound; here they are described by the places.

## Main definitions

* `IsDecimal`, `Spells`: the texts that are a decimal number, and those that hold one among blanks,
  each with the number.

## Main statements

* `readWhole?_eq_some_iff`, `readBelow?_eq_some_iff`: a whole number is read exactly from a decimal
  number.
* `Decimal.read?_of_isDigit`: digits alone are a decimal fraction without sign, point and exponent.
-/

namespace LvmControl.Number

/-- A text that is a decimal number: digits, at least one of them, after at most one plus sign. Its
value is that of the digits by their places. -/
def IsDecimal (cs : List Char) (n : Nat) : Prop :=
  ∃ sign digits, (sign = [] ∨ sign = ['+']) ∧ digits ≠ [] ∧ (∀ c ∈ digits, c.isDigit = true) ∧
    cs = sign ++ digits ∧ n = Nat.ofDigits 10 (digits.map digitValue).reverse

/-- A text that holds a decimal number and apart from it only blanks, before and after it. -/
def Spells (cs : List Char) (n : Nat) : Prop :=
  ∃ before number after, Text.AllBlank before ∧ Text.AllBlank after ∧ IsDecimal number n ∧
    cs = before ++ number ++ after

/-- Reading digits from the first to the last gives each the weight of its place. -/
theorem foldDigits_eq_ofDigits (cs : List Char) :
    foldDigits 0 cs = Nat.ofDigits 10 (cs.map digitValue).reverse := by
  induction cs using List.reverseRecOn with
  | nil => rfl
  | append_singleton cs c ih =>
    rw [foldDigits_append, ih]
    simp only [foldDigits, List.foldl_cons, List.foldl_nil, List.map_append, List.map_cons,
      List.map_nil, List.reverse_append, List.reverse_cons, List.reverse_nil, List.nil_append,
      List.singleton_append, Nat.ofDigits_cons]
    omega

/-- A digit is no letter. -/
theorem isAlpha_of_isDigit {c : Char} (h : c.isDigit = true) : c.isAlpha = false := by
  have hdigit := toNat_of_isDigit h
  refine Bool.eq_false_iff.mpr fun halpha => ?_
  rcases Bool.or_eq_true_iff.mp halpha with hupper | hlower
  · have hlow : 65 ≤ c.toNat :=
      UInt32.le_iff_toNat_le.mp (of_decide_eq_true hupper).1
    omega
  · have hlow : 97 ≤ c.toNat :=
      UInt32.le_iff_toNat_le.mp (of_decide_eq_true (Bool.and_eq_true_iff.mp hlower).1)
    omega

theorem dropPlus_of_isDigit {cs : List Char} (h : ∀ c ∈ cs, c.isDigit = true) :
    dropPlus cs = cs := by
  cases cs with
  | nil => rfl
  | cons c cs =>
    have hne : c ≠ '+' := by
      rintro rfl
      exact absurd (h '+' List.mem_cons_self) (by decide)
    simp [dropPlus, hne]

theorem digitsValue?_eq_some_iff {cs : List Char} {n : Nat} :
    digitsValue? cs = some n ↔
      cs ≠ [] ∧ (∀ c ∈ cs, c.isDigit = true) ∧
        n = Nat.ofDigits 10 (cs.map digitValue).reverse := by
  rw [← foldDigits_eq_ofDigits, digitsValue?]
  split
  · next hcs =>
    simp only [Bool.or_eq_true, List.isEmpty_iff, Bool.not_eq_true', List.all_eq_false] at hcs
    constructor
    · rintro ⟨⟩
    · rintro ⟨hne, hall, -⟩
      obtain hnil | ⟨c, hc, hdigit⟩ := hcs
      · exact absurd hnil hne
      · exact absurd (hall c hc) hdigit
  · next hcs =>
    simp only [Bool.or_eq_true, List.isEmpty_iff, Bool.not_eq_true', not_or, Bool.not_eq_false,
      List.all_eq_true] at hcs
    constructor
    · intro h
      exact ⟨hcs.1, hcs.2, (Option.some.inj h).symm⟩
    · rintro ⟨-, -, rfl⟩
      rfl

theorem readWhole?_eq_some_iff {cs : List Char} {n : Nat} :
    readWhole? cs = some n ↔ IsDecimal cs n := by
  rw [readWhole?, digitsValue?_eq_some_iff]
  constructor
  · rintro ⟨hne, hdigits, hvalue⟩
    obtain hsame | ⟨ds, rfl⟩ : dropPlus cs = cs ∨ ∃ ds, cs = '+' :: ds := by
      unfold dropPlus
      split
      · exact .inr ⟨_, rfl⟩
      · exact .inl rfl
    · exact ⟨[], cs, .inl rfl, hsame ▸ hne, hsame ▸ hdigits, rfl, hsame ▸ hvalue⟩
    · exact ⟨['+'], ds, .inr rfl, hne, hdigits, rfl, hvalue⟩
  · rintro ⟨sign, digits, rfl | rfl, hne, hdigits, rfl, hvalue⟩
    · rw [dropPlus_of_isDigit hdigits]
      exact ⟨hne, hdigits, hvalue⟩
    · exact ⟨hne, hdigits, hvalue⟩

theorem readBelow?_eq_some_iff {bound : Nat} {cs : List Char} {n : Nat} :
    readBelow? bound cs = some n ↔ IsDecimal cs n ∧ n < bound := by
  rw [readBelow?, Option.filter_eq_some_iff, readWhole?_eq_some_iff, decide_eq_true_eq]

/-- There are no blanks within a decimal number. -/
theorem IsDecimal.noBlank {cs : List Char} {n : Nat} (h : IsDecimal cs n) : Text.NoBlank cs := by
  obtain ⟨sign, digits, hsign, -, hdigits, rfl, -⟩ := h
  refine Text.NoBlank.append ?_ fun c hc => Text.isBlank_eq_false_of_printable ?_
  · rcases hsign with rfl | rfl
    · exact fun c hc => absurd hc List.not_mem_nil
    · decide
  · have := toNat_of_isDigit (hdigits c hc)
    omega

/-- What a decimal number among blanks is trimmed to. -/
theorem spells_iff {cs : List Char} {n : Nat} : Spells cs n ↔ IsDecimal (Text.trim cs) n := by
  constructor
  · rintro ⟨before, number, after, hbefore, hafter, hnumber, rfl⟩
    rwa [Text.trim_append hbefore hnumber.noBlank hafter]
  · intro h
    obtain ⟨before, after, hbefore, hafter, heq⟩ := Text.exists_eq_append_trim_append cs
    exact ⟨before, _, after, hbefore, hafter, h, heq⟩

theorem isDecimal_decimalDigits (n : Nat) : IsDecimal (decimalDigits n) n :=
  readWhole?_eq_some_iff.mp (readWhole?_decimalDigits n)

/-- Digits alone are a decimal fraction, of the same value as the whole number. -/
theorem Decimal.read?_of_isDigit {cs : List Char} (hne : cs ≠ [])
    (h : ∀ c ∈ cs, c.isDigit = true) :
    Decimal.read? cs = some ⟨false, Nat.ofDigits 10 (cs.map digitValue).reverse, 0⟩ := by
  have hsign : takeSign cs = (false, cs) := by
    cases cs with
    | nil => rfl
    | cons c cs =>
      have hc := h c List.mem_cons_self
      have hminus : c ≠ '-' := by
        rintro rfl
        exact absurd hc (by decide)
      have hplus : c ≠ '+' := by
        rintro rfl
        exact absurd hc (by decide)
      simp [takeSign, hminus, hplus]
  have hwhole : cs.takeWhile Char.isDigit = cs := List.takeWhile_eq_self_iff.mpr h
  have hrest : cs.dropWhile Char.isDigit = [] := List.dropWhile_eq_nil_iff.mpr h
  simp [Decimal.read?, hsign, hwhole, hrest, takeFraction, readExponent?, hne,
    foldDigits_eq_ofDigits]

end LvmControl.Number
