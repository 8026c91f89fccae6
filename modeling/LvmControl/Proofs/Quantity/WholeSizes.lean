import LvmControl.Proofs.Number.Decimal
import LvmControl.Request.Amount

/-!
# Whole sizes are exact

A size that is given as a whole number of a unit is the number times the unit, or it is refused.
There are two ways to read the number. One multiplies exactly and answers for every number below
`2 ^ 64`. The other goes by way of binary64 and is reached by the numbers that do not fit, which may
have any number of digits. A number that does not fit stays at or above `2 ^ 64` when it is rounded,
since `2 ^ 64` is itself a number of binary64, so the second way refuses all of them and never
answers with a rounded size.

## Main definitions

* `Size.units`, `Size.Denotes`: the units, and how they are written.
* `Size.WholeText`: a text that gives a whole number of a unit.

## Main statements

* `Number.le_scaled_nearest`: rounding a number that does not fit gives none that fits.
* `Size.amount?_of_isDigit`: the two ways to read a number are together exact on digits.
* `Size.WholeText.parsed_exactly`: a text with a whole number is read as the product, or refused.
-/

namespace LvmControl

namespace Number

/-! ## Numbers that do not fit -/

variable {n : Nat}

theorem ne_zero_of_wordBound_le (h : wordBound ≤ n) : n ≠ 0 := by
  rintro rfl
  exact absurd h (by decide)

theorem ne_zero_of_le_log2 (h : 52 ≤ n.log2) : n ≠ 0 := by
  rintro rfl
  exact absurd h (by decide)

/-- Rounding goes down to the whole part at most. -/
theorem div_le_roundHalfEven (num den : Nat) : num / den ≤ roundHalfEven num den := by
  simp only [roundHalfEven]
  split_ifs <;> omega

/-- The unit in the last place of a whole number of fifty-three bits or more is fifty-two places
below its first bit. -/
theorem unitExponent_of_le_log2 (h : 52 ≤ n.log2) : unitExponent n 1 = (n.log2 - 52 : Nat) := by
  have hne := ne_zero_of_le_log2 h
  have hself : Nat.pow 2 n.log2 ≤ n := Nat.log2_self_le hne
  have hshift : shiftDown n 1 n.log2 = (n, Nat.pow 2 n.log2) := by
    simp [shiftDown]
  have hone : Nat.log2 1 = 0 := by decide
  simp only [unitExponent, hone, Nat.cast_zero, sub_zero, hshift, if_neg (Nat.not_lt.mpr hself)]
  omega

/-- The binary64 number nearest to such a whole number has its first bit in the same place, or in
the next one. -/
theorem exists_nearest_eq (h : 52 ≤ n.log2) :
    ∃ significand, nearest n 1 = ⟨significand, (n.log2 - 52 : Nat)⟩ ∧ 2 ^ 52 ≤ significand := by
  have hne := ne_zero_of_le_log2 h
  refine ⟨roundHalfEven n (2 ^ (n.log2 - 52)), ?_, ?_⟩
  · simp [nearest, hne, unitExponent_of_le_log2 h, shiftDown]
  · refine le_trans ?_ (div_le_roundHalfEven ..)
    rw [Nat.le_div_iff_mul_le (Nat.two_pow_pos _), ← Nat.pow_add, Nat.add_sub_cancel' h]
    exact Nat.log2_self_le hne

/-- A whole number times a power of two is not rounded. -/
theorem scaled_of_natCast (significand e k : Nat) :
    Dyadic.scaled ⟨significand, e⟩ k = significand * 2 ^ (e + k) := by
  have hexponent : ((e : Int) + k).toNat = e + k := by omega
  have hnegative : (-((e : Int) + k)).toNat = 0 := by omega
  have hhalf : ∀ m : Nat, (2 * m + 1) / 2 = m := by omega
  simp only [Dyadic.scaled, hexponent, hnegative, Nat.pow_eq, pow_zero, mul_one, mul_assoc, hhalf]

/-- A number that does not fit in sixty-four bits gives no size that fits, in any unit. -/
theorem le_scaled_nearest (h : wordBound ≤ n) (k : Nat) : wordBound ≤ (nearest n 1).scaled k := by
  have hne := ne_zero_of_wordBound_le h
  have hbound : wordBound = 2 ^ 64 := by decide
  rw [hbound] at h ⊢
  have hlog : 64 ≤ n.log2 := (Nat.le_log2 hne).mpr h
  obtain ⟨significand, hnearest, hsignificand⟩ := exists_nearest_eq (n := n) (by omega)
  rw [hnearest, scaled_of_natCast]
  calc 2 ^ 64 ≤ 2 ^ (52 + (n.log2 - 52 + k)) := Nat.pow_le_pow_right (by decide) (by omega)
    _ = 2 ^ 52 * 2 ^ (n.log2 - 52 + k) := Nat.pow_add ..
    _ ≤ significand * 2 ^ (n.log2 - 52 + k) := Nat.mul_le_mul_right _ hsignificand

/-- A whole number has the binary64 number nearest to it, or is too large for binary64. -/
theorem magnitude?_of_whole (hne : n ≠ 0) {x : Dyadic}
    (h : Decimal.magnitude? ⟨false, n, 0⟩ = some x) : x = nearest n 1 := by
  have hsize : ¬ Decimal.size ⟨false, n, 0⟩ < -400 := by
    simp only [Decimal.size]
    omega
  have hcond : (n = 0 || Decimal.size ⟨false, n, 0⟩ < -400) = false := by simp [hne, hsize]
  simp only [Decimal.magnitude?, hcond, Bool.false_eq_true, if_false] at h
  split at h
  · cases h
  · obtain ⟨hx, -⟩ := Option.filter_eq_some_iff.mp h
    simpa using (Option.some.inj hx).symm

end Number

open Number

namespace Size

/-! ## Numbers of a unit -/

/-- A number that does not fit is refused as a fraction of a unit. -/
theorem ofFraction?_of_whole {n : Nat} (h : wordBound ≤ n) (power : Nat) :
    ofFraction? power ⟨false, n, 0⟩ = none := by
  have hne := ne_zero_of_wordBound_le h
  refine Option.bind_eq_none_iff.mpr fun x hx => ?_
  have hlarge : wordBound ≤ x.scaled power := by
    rw [magnitude?_of_whole hne hx]
    exact le_scaled_nearest h power
  simp [ofBytes?, Nat.not_lt.mpr hlarge]

/-- **Digits are read exactly**, however many there are: as the product with the unit if it fits. -/
theorem amount?_of_isDigit {digits : List Char} (hne : digits ≠ [])
    (h : ∀ c ∈ digits, c.isDigit = true) (power : Nat) :
    amount? digits power =
      ofBytes? (Nat.ofDigits 10 (digits.map digitValue).reverse * 2 ^ power) := by
  have hdecimal : IsDecimal digits (Nat.ofDigits 10 (digits.map digitValue).reverse) :=
    ⟨[], digits, .inl rfl, hne, h, rfl, rfl⟩
  generalize hvalue : Nat.ofDigits 10 (digits.map digitValue).reverse = value at hdecimal ⊢
  by_cases hfits : value < wordBound
  · rw [amount?, readBelow?_eq_some_iff.mpr ⟨hdecimal, hfits⟩]
    rfl
  · have hlarge : wordBound ≤ value := Nat.not_lt.mp hfits
    have hwhole : readBelow? wordBound digits = none := by
      rw [readBelow?, readWhole?_eq_some_iff.mpr hdecimal]
      simp [Option.filter, hfits]
    have hproduct : wordBound ≤ value * 2 ^ power :=
      hlarge.trans (Nat.le_mul_of_pos_right _ (Nat.two_pow_pos _))
    simp [amount?, hwhole, Decimal.read?_of_isDigit hne h, hvalue, ofFraction?_of_whole hlarge,
      ofBytes?, Nat.not_lt.mpr hproduct]

/-! ## Texts -/

/-- The units: the letter of each, and how many bytes it stands for. -/
def units : List (Char × Nat) :=
  [('b', 1), ('s', 512), ('k', 1024), ('m', 1024 ^ 2), ('g', 1024 ^ 3), ('t', 1024 ^ 4),
   ('p', 1024 ^ 5), ('e', 1024 ^ 6)]

/-- What stands behind a number for a unit of so many bytes: its letter in either case, and nothing
for mebibytes. -/
inductive Denotes : List Char → Nat → Prop
  | bare : Denotes [] (1024 ^ 2)
  | lower {letter : Char} {bytes : Nat} (h : (letter, bytes) ∈ units) : Denotes [letter] bytes
  | upper {letter : Char} {bytes : Nat} (h : (letter, bytes) ∈ units) :
    Denotes [letter.toUpper] bytes

/-- A text that gives a whole number of a unit, with blanks around it. -/
structure WholeText where
  before : List Char
  digits : List Char
  suffix : List Char
  after : List Char
  /-- How many bytes the unit has. -/
  unit : Nat
  blank_before : Text.AllBlank before
  blank_after : Text.AllBlank after
  digits_ne_nil : digits ≠ []
  isDigit_of_mem : ∀ c ∈ digits, c.isDigit = true
  denotes : Denotes suffix unit

/-- The letter of a unit is known in either case, as the power of two that the unit is. -/
theorem unitPower?_of_mem_units {u : Char × Nat} (h : u ∈ units) :
    ∀ letter ∈ [u.1, u.1.toUpper], Text.isBlank letter = false ∧ letter.isAlpha = true ∧
      (unitPower? letter).map (2 ^ ·) = some u.2 := by
  have hall : units.all (fun u => [u.1, u.1.toUpper].all fun letter =>
      !Text.isBlank letter && letter.isAlpha &&
        (unitPower? letter).map (2 ^ ·) == some u.2) = true := by decide
  intro letter hletter
  have hknown := List.all_eq_true.mp (List.all_eq_true.mp hall u h) letter hletter
  simpa [and_assoc] using hknown

/-- A suffix is nothing, or a letter that is known. -/
theorem Denotes.cases {suffix : List Char} {unit : Nat} (h : Denotes suffix unit) :
    suffix = [] ∧ unit = 2 ^ 20 ∨
      ∃ letter power, suffix = [letter] ∧ Text.isBlank letter = false ∧ letter.isAlpha = true ∧
        unitPower? letter = some power ∧ unit = 2 ^ power := by
  have hletter : ∀ {letter : Char} {u : Char × Nat}, u ∈ units → letter ∈ [u.1, u.1.toUpper] →
      ∃ power, Text.isBlank letter = false ∧ letter.isAlpha = true ∧
        unitPower? letter = some power ∧ u.2 = 2 ^ power := by
    intro letter u hu hmem
    obtain ⟨hblank, halpha, hpower⟩ := unitPower?_of_mem_units hu letter hmem
    obtain ⟨power, hpower, hunit⟩ := Option.map_eq_some_iff.mp hpower
    exact ⟨power, hblank, halpha, hpower, hunit.symm⟩
  cases h with
  | bare => exact .inl ⟨rfl, by decide⟩
  | lower h =>
    obtain ⟨power, hpower⟩ := hletter h List.mem_cons_self
    exact .inr ⟨_, power, rfl, hpower⟩
  | upper h =>
    obtain ⟨power, hpower⟩ := hletter h (List.mem_cons_of_mem _ List.mem_cons_self)
    exact .inr ⟨_, power, rfl, hpower⟩

namespace WholeText

/-- The text itself. -/
def text (t : WholeText) : String := String.ofList (t.before ++ (t.digits ++ t.suffix) ++ t.after)

/-- The number that the digits give by their places. -/
def value (t : WholeText) : Nat := Nat.ofDigits 10 (t.digits.map digitValue).reverse

variable (t : WholeText)

/-- There are no blanks between the blanks. -/
theorem noBlank : Text.NoBlank (t.digits ++ t.suffix) := by
  have hdigits : IsDecimal t.digits t.value :=
    ⟨[], t.digits, .inl rfl, t.digits_ne_nil, t.isDigit_of_mem, rfl, rfl⟩
  refine hdigits.noBlank.append ?_
  obtain ⟨hsuffix, -⟩ | ⟨letter, -, hsuffix, hblank, -⟩ := t.denotes.cases
  · rw [hsuffix]
    exact fun c hc => absurd hc List.not_mem_nil
  · rw [hsuffix]
    exact fun c hc => List.mem_singleton.mp hc ▸ hblank

/-- The text is read as the product of the number and the unit, if the product fits. -/
theorem read?_text : read? t.text.toList = ofBytes? (t.value * t.unit) := by
  have htrim : Text.trim t.text.toList = t.digits ++ t.suffix := by
    rw [text, String.toList_ofList, Text.trim_append t.blank_before t.noBlank t.blank_after]
  have hamount := amount?_of_isDigit t.digits_ne_nil t.isDigit_of_mem
  rw [read?, htrim]
  obtain ⟨hsuffix, hunit⟩ | ⟨letter, power, hsuffix, -, halpha, hpower, hunit⟩ := t.denotes.cases
  · have hlast : (t.digits.getLast t.digits_ne_nil).isAlpha = false :=
      isAlpha_of_isDigit (t.isDigit_of_mem _ (List.getLast_mem t.digits_ne_nil))
    simp [hsuffix, List.getLast?_eq_some_getLast t.digits_ne_nil, hlast, hamount, hunit, value]
  · simp [hsuffix, halpha, hpower, hamount, hunit, value]

/-- **Whole sizes are exact.** A whole number of a unit is read as the number times the unit if this
is below `2 ^ 64`, and is refused otherwise. Without a unit it is taken as the same count of
mebibytes is. -/
theorem parsed_exactly :
    (t.value * t.unit < 2 ^ 64 → ∃ s, parse t.text = .ok s ∧ s.bytes = t.value * t.unit) ∧
      (2 ^ 64 ≤ t.value * t.unit → parse t.text = .error (.invalid (.size t.text))) ∧
      (t.suffix = [] → (parse t.text).toOption = (ofMib t.value).toOption) := by
  have hbound : wordBound = 2 ^ 64 := by decide
  have hread := t.read?_text
  refine ⟨fun hfits => ?_, fun hlarge => ?_, fun hbare => ?_⟩
  · rw [← hbound] at hfits
    refine ⟨⟨_, hfits⟩, parse_of_read? ?_, rfl⟩
    rw [hread, ofBytes?, dif_pos hfits]
  · rw [← hbound] at hlarge
    refine parse_of_read?_eq_none ?_
    rw [hread, ofBytes?, dif_neg (Nat.not_lt.mpr hlarge)]
  · have hunit : t.unit = Nat.pow 2 20 := by
      obtain ⟨-, hunit⟩ | ⟨letter, -, hsuffix, -⟩ := t.denotes.cases
      · exact hunit.trans (by decide)
      · rw [hbare] at hsuffix
        cases hsuffix
    have hmebibytes : read? t.text.toList = ofMebibytes? t.value := by
      rw [hread, hunit, ofMebibytes?]
    rw [parse, ofMib, toOption_orInvalid, toOption_orInvalid, hmebibytes]

/-- The last whole number of exbibytes that fits, with a zero in front and blanks around it. -/
def fifteenExbibytes : WholeText where
  before := [' ']
  digits := ['0', '1', '5']
  suffix := ['e'.toUpper]
  after := ['\t']
  unit := 1024 ^ 6
  blank_before := by decide
  blank_after := by decide
  digits_ne_nil := by decide
  isDigit_of_mem := List.all_eq_true.mp (by decide)
  denotes := .upper (by decide)

/-- The first number of bytes that does not fit. -/
def wordBytes : WholeText where
  before := []
  digits := "18446744073709551616".toList
  suffix := ['b']
  after := []
  unit := 1
  blank_before := by decide
  blank_after := by decide
  digits_ne_nil := by decide
  isDigit_of_mem := List.all_eq_true.mp (by decide)
  denotes := .lower (by decide)

/-- The first of them is read as what it says and the second, which is read as a fraction, is
refused. -/
theorem fifteenExbibytes_read_wordBytes_refused :
    (∃ s, parse " 015E\t" = .ok s ∧ s.bytes = 17293822569102704640) ∧
      parse "18446744073709551616b" = .error (.invalid (.size "18446744073709551616b")) := by
  have hfits : fifteenExbibytes.text = " 015E\t" ∧
      fifteenExbibytes.value * fifteenExbibytes.unit = 17293822569102704640 := by decide +kernel
  have hlarge : wordBytes.text = "18446744073709551616b" ∧
      2 ^ 64 ≤ wordBytes.value * wordBytes.unit := by decide +kernel
  refine ⟨?_, ?_⟩
  · rw [← hfits.1, ← hfits.2]
    exact fifteenExbibytes.parsed_exactly.1 (by rw [hfits.2]; decide)
  · rw [← hlarge.1]
    exact wordBytes.parsed_exactly.2.1 hlarge.2

end WholeText

end Size

end LvmControl
