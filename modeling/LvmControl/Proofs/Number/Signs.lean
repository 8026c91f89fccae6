import LvmControl.Proofs.Number.Underflow

/-!
# Signs in front of numbers

The readers of numbers take a sign themselves: that of whole numbers takes a plus sign, and that of
decimal numbers either sign. Behind the sign must stand a number without one, and what such a number
begins with is a digit or a point, so no reader takes two signs.

## Main definitions

* `Opens`: a text begins as a number without sign does.
* `Decimal.readUnsigned?`: what is read behind the sign.

## Main statements

* `readBelow?_plus`, `readBelow?_minus`: whole numbers with a sign.
* `Decimal.read?_plus`, `Decimal.read?_minus`: decimal numbers with a sign.
* `Decimal.isAlpha_getLast_of_read?`: what a decimal number ends with.
-/

namespace LvmControl.Number

variable {c : Char} {cs : List Char}

/-! ## The beginning of a number -/

/-- The text begins as a number without sign does: with a digit or with a point. -/
def Opens : List Char → Prop
  | [] => False
  | c :: _ => c.isDigit = true ∨ c = '.'

/-- What a number without sign begins with is no sign. -/
theorem Opens.not_sign (h : Opens (c :: cs)) : c ≠ '+' ∧ c ≠ '-' := by
  constructor
  all_goals
    rintro rfl
    exact absurd h (by simp [Opens])

/-- Nor is it a blank or a letter. -/
theorem Opens.isBlank_eq_false (h : Opens (c :: cs)) : Text.isBlank c = false := by
  refine Text.isBlank_eq_false_of_printable ?_
  rcases h with h | rfl
  · have := toNat_of_isDigit h
    omega
  · decide

theorem isAlpha_of_opens (h : c.isDigit = true ∨ c = '.') : c.isAlpha = false := by
  rcases h with h | rfl
  · exact isAlpha_of_isDigit h
  · decide

theorem opens_of_isDigit (hne : cs ≠ []) (h : ∀ c ∈ cs, c.isDigit = true) : Opens cs := by
  cases cs with
  | nil => exact absurd rfl hne
  | cons c cs => exact .inl (h c List.mem_cons_self)

theorem takeSign_of_opens (h : Opens cs) : takeSign cs = (false, cs) := by
  cases cs with
  | nil => rfl
  | cons c cs => simp [takeSign, h.not_sign]

/-- A text is what stands behind its sign, with the sign in front. -/
theorem exists_eq_append_takeSign (cs : List Char) : ∃ sign, cs = sign ++ (takeSign cs).2 := by
  unfold takeSign
  split
  · exact ⟨['-'], rfl⟩
  · exact ⟨['+'], rfl⟩
  · exact ⟨[], rfl⟩

theorem dropPlus_of_opens (h : Opens cs) : dropPlus cs = cs := by
  cases cs with
  | nil => rfl
  | cons c cs => simp [dropPlus, h.not_sign]

/-! ## Whole numbers -/

/-- A plus sign does not count in front of a number without one. -/
theorem readBelow?_plus (h : Opens cs) (bound : Nat) :
    readBelow? bound ('+' :: cs) = readBelow? bound cs := by
  rw [readBelow?, readBelow?, readWhole?, readWhole?, dropPlus_of_opens h]
  rfl

theorem opens_of_readBelow?_plus {bound n : Nat} (h : readBelow? bound ('+' :: cs) = some n) :
    Opens cs := by
  obtain ⟨hne, hdigits, -⟩ := digitsValue?_eq_some_iff.mp (Option.filter_eq_some_iff.mp h).1
  exact opens_of_isDigit hne hdigits

/-- No whole number has a minus sign. -/
theorem readBelow?_minus (bound : Nat) : readBelow? bound ('-' :: cs) = none := by
  refine Option.eq_none_iff_forall_ne_some.mpr fun n h => ?_
  obtain ⟨-, hdigits, -⟩ := digitsValue?_eq_some_iff.mp (Option.filter_eq_some_iff.mp h).1
  exact absurd (hdigits '-' List.mem_cons_self) (by decide)

namespace Decimal

/-! ## Decimal numbers -/

/-- Reads a decimal number without sign. -/
def readUnsigned? (cs : List Char) : Option Decimal :=
  let whole := cs.takeWhile Char.isDigit
  let (fraction, rest) := takeFraction (cs.dropWhile Char.isDigit)
  if whole.isEmpty && fraction.isEmpty then none
  else (readExponent? rest).map fun e =>
    ⟨false, foldDigits 0 (whole ++ fraction), e - fraction.length⟩

/-- A number is read behind its sign, and negated if that is a minus sign. -/
theorem read?_eq (cs : List Char) :
    read? cs =
      (readUnsigned? (takeSign cs).2).map fun x => { x with negative := (takeSign cs).1 } := by
  simp only [read?, readUnsigned?]
  split
  · rfl
  · rw [Option.map_map]
    rfl

/-- A number without sign begins as one. -/
theorem opens_of_readUnsigned? {x : Decimal} (h : readUnsigned? cs = some x) : Opens cs := by
  by_contra hopens
  have hnone : readUnsigned? cs = none := by
    cases cs with
    | nil => rfl
    | cons c cs =>
      obtain ⟨hdigit, hpoint⟩ := not_or.mp hopens
      simp [readUnsigned?, takeFraction, hdigit, hpoint]
  rw [hnone] at h
  cases h

theorem opens_of_read? {x : Decimal} (h : read? cs = some x) : Opens (takeSign cs).2 := by
  rw [read?_eq] at h
  obtain ⟨y, hy, -⟩ := Option.map_eq_some_iff.mp h
  exact opens_of_readUnsigned? hy

/-- A plus sign does not count in front of a number without one. -/
theorem read?_plus (h : Opens cs) : read? ('+' :: cs) = read? cs := by
  rw [read?_eq, read?_eq cs, takeSign_of_opens h]
  rfl

/-- A minus sign negates a number without one. -/
theorem read?_minus (h : Opens cs) :
    read? ('-' :: cs) = (read? cs).map fun x => { x with negative := true } := by
  rw [read?_eq, read?_eq cs, takeSign_of_opens h, Option.map_map]
  rfl

/-! ## The end of a decimal number -/

/-- What stands before the exponent is digits and a point. -/
theorem exists_mantissa (cs : List Char) :
    ∃ mantissa, (∀ c ∈ mantissa, c.isDigit = true ∨ c = '.') ∧
      cs = mantissa ++ (takeFraction (cs.dropWhile Char.isDigit)).2 := by
  have hfraction : ∀ ds, ∃ fraction, (∀ c ∈ fraction, c.isDigit = true ∨ c = '.') ∧
      ds = fraction ++ (takeFraction ds).2 := by
    intro ds
    unfold takeFraction
    split
    · next rest =>
      refine ⟨'.' :: rest.takeWhile Char.isDigit, List.forall_mem_cons.mpr ⟨.inr rfl, ?_⟩, ?_⟩
      · exact fun c hc => .inl (List.mem_takeWhile_imp hc)
      · rw [List.cons_append, List.takeWhile_append_dropWhile]
    · exact ⟨[], fun c hc => absurd hc List.not_mem_nil, rfl⟩
  obtain ⟨fraction, hall, heq⟩ := hfraction (cs.dropWhile Char.isDigit)
  refine ⟨cs.takeWhile Char.isDigit ++ fraction, fun c hc => ?_, ?_⟩
  · exact (List.mem_append.mp hc).elim (fun hc => .inl (List.mem_takeWhile_imp hc)) (hall c)
  · rw [List.append_assoc, ← heq, List.takeWhile_append_dropWhile]

/-- An exponent ends with a digit. -/
theorem isDigit_getLast_of_readExponent? {e : Int} (h : readExponent? cs = some e) :
    ∀ c ∈ cs.getLast?, c.isDigit = true := by
  cases cs with
  | nil => exact fun c hc => nomatch hc
  | cons mark cs =>
    have hdigits : (takeSign cs).2 ≠ [] ∧ ∀ c ∈ (takeSign cs).2, c.isDigit = true := by
      simp only [readExponent?, Option.ite_none_right_eq_some, Bool.and_eq_true] at h
      simpa using And.intro h.1.1.2 h.1.2
    obtain ⟨sign, hsign⟩ := exists_eq_append_takeSign cs
    intro c hc
    rw [hsign, ← List.cons_append, List.getLast?_append_of_ne_nil _ hdigits.1] at hc
    exact hdigits.2 c (List.mem_of_getLast? hc)

theorem isAlpha_getLast_of_readUnsigned? {x : Decimal} (h : readUnsigned? cs = some x) :
    ∀ c ∈ cs.getLast?, c.isAlpha = false := by
  obtain ⟨mantissa, hmantissa, heq⟩ := exists_mantissa cs
  obtain ⟨e, he⟩ : ∃ e, readExponent? (takeFraction (cs.dropWhile Char.isDigit)).2 = some e := by
    simp only [readUnsigned?, Option.ite_none_left_eq_some, Option.map_eq_some_iff] at h
    obtain ⟨-, e, he, -⟩ := h
    exact ⟨e, he⟩
  generalize (takeFraction (cs.dropWhile Char.isDigit)).2 = rest at heq he
  intro c hc
  rw [heq, List.getLast?_append] at hc
  rcases Option.or_eq_some_iff.mp hc with hc | ⟨-, hc⟩
  · exact isAlpha_of_isDigit (isDigit_getLast_of_readExponent? he c hc)
  · exact isAlpha_of_opens (hmantissa c (List.mem_of_getLast? hc))

/-- A decimal number does not end with a letter. -/
theorem isAlpha_getLast_of_read? {x : Decimal} (h : read? cs = some x) :
    ∀ c ∈ cs.getLast?, c.isAlpha = false := by
  rw [read?_eq] at h
  obtain ⟨y, hy, -⟩ := Option.map_eq_some_iff.mp h
  obtain ⟨sign, hsign⟩ := exists_eq_append_takeSign cs
  have hne : (takeSign cs).2 ≠ [] := fun hnil => (hnil ▸ opens_of_readUnsigned? hy : Opens []).elim
  intro c hc
  rw [hsign, List.getLast?_append_of_ne_nil _ hne] at hc
  exact isAlpha_getLast_of_readUnsigned? hy c hc

end Decimal

end LvmControl.Number
