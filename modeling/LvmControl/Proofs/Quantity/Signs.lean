import LvmControl.Proofs.Number.Signs
import Mathlib.Tactic.IntervalCases

/-!
# Signs in front of amounts

Where a size or a number of extents is read, a sign is meant to make a difference: a plus sign in
front of a number of extents asks for an increase, and a size is an amount, which has no sign. But
the number is left to readers that take a sign themselves. So a plus sign in front of a size is
dropped, one more plus sign in front of a number of extents is dropped behind the one that asks for
an increase, and a minus sign is dropped in front of a size that rounds to zero. Here is what is
read with a sign, for all texts.

## Main definitions

* `Size.Suffixed`: a number and what stands behind it for its unit.
* `Size.TakesSigns`: what the sizes are that a text with a sign gives.
* `Extents.SpelledWith`: a text that gives a number of extents, by how many plus signs it begins
  with.

## Main statements

* `Size.takesSigns`, `Extents.read?_eq_some_iff`: the amounts that are read from texts with signs.
* `signs_of_amounts`: both, for what is given by callers.
* `swallowed_signs`: texts with a sign that makes no difference.
-/

namespace LvmControl

open Number

theorem orInvalid_eq_ok_iff {α : Type} {value : InvalidValue} {read? : Option α} {a : α} :
    orInvalid value read? = .ok a ↔ read? = some a := by
  cases read? <;> simp [orInvalid]

/-! ## Sizes -/

namespace Size

variable {text number suffix rest : List Char} {power : Nat} {s : Size}

/-- There is one size without bytes. -/
theorem ofBytes?_zero_eq_some_iff : ofBytes? 0 = some s ↔ s.bytes = 0 := by
  have hzero : ofBytes? 0 = some ⟨0, by decide⟩ := dif_pos _
  rw [hzero, Option.some_inj]
  exact ⟨fun h => h ▸ rfl, fun h => eq_of_bytes_eq h.symm⟩

/-- A number with a minus sign gives no bytes if it rounds to zero, and is refused otherwise. -/
theorem ofFraction?_of_negative {x : Decimal} :
    ofFraction? power { x with negative := true } = some s ↔ s.bytes = 0 ∧ x.IsNegligible := by
  rw [← Decimal.magnitude?_eq_zero_iff, ofFraction?, Option.bind_eq_some_iff]
  constructor
  · rintro ⟨z, hz, hbytes⟩
    simp only [Bool.true_and, decide_eq_true_eq, Option.ite_none_left_eq_some, not_not] at hbytes
    rw [Dyadic.scaled_of_significand_eq_zero hbytes.1] at hbytes
    exact ⟨ofBytes?_zero_eq_some_iff.mp hbytes.2, z, hz, hbytes.1⟩
  · rintro ⟨hs, z, hz, hsignificand⟩
    refine ⟨z, hz, ?_⟩
    simpa [hsignificand, Dyadic.scaled_of_significand_eq_zero] using
      ofBytes?_zero_eq_some_iff.mpr hs

/-- A plus sign in front of a number does not count, and there is no second sign behind it. -/
theorem amount?_plus :
    amount? ('+' :: number) power = some s ↔ Opens number ∧ amount? number power = some s := by
  by_cases h : Opens number
  · rw [amount?, amount?, readBelow?_plus h, Decimal.read?_plus h]
    exact (and_iff_right h).symm
  · have hwhole : readBelow? wordBound ('+' :: number) = none :=
      Option.eq_none_iff_forall_ne_some.mpr fun n hn => h (opens_of_readBelow?_plus hn)
    have hdecimal : Decimal.read? ('+' :: number) = none :=
      Option.eq_none_iff_forall_ne_some.mpr fun x hx => h (Decimal.opens_of_read? hx)
    have hnone : amount? ('+' :: number) power = none := by
      rw [amount?, hwhole, hdecimal]
      rfl
    rw [hnone]
    exact iff_of_false (Option.some_ne_none s).symm fun hboth => h hboth.1

/-- A minus sign in front of a number is accepted if the number rounds to zero. -/
theorem amount?_minus :
    amount? ('-' :: number) power = some s ↔
      s.bytes = 0 ∧ Opens number ∧ ∃ x, Decimal.read? number = some x ∧ x.IsNegligible := by
  rw [amount?, readBelow?_minus, Option.bind_eq_some_iff]
  by_cases h : Opens number
  · rw [Decimal.read?_minus h]
    constructor
    · rintro ⟨_, hnegated, hbytes⟩
      obtain ⟨x, hx, rfl⟩ := Option.map_eq_some_iff.mp hnegated
      obtain ⟨hs, hnegligible⟩ := ofFraction?_of_negative.mp hbytes
      exact ⟨hs, h, x, hx, hnegligible⟩
    · rintro ⟨hs, -, x, hx, hnegligible⟩
      exact ⟨_, Option.map_eq_some_iff.mpr ⟨x, hx, rfl⟩,
        ofFraction?_of_negative.mpr ⟨hs, hnegligible⟩⟩
  · refine iff_of_false ?_ fun hall => h hall.2.1
    rintro ⟨x, hx, -⟩
    exact h (Decimal.opens_of_read? hx)

/-! ### Numbers and units -/

/-- A number with what stands behind it for its unit, and the power of two that the unit is: a
letter that is known, or nothing for mebibytes, where the number does not end with a letter
itself. -/
inductive Suffixed (number : List Char) : List Char → Nat → Prop
  | bare (h : ∀ c ∈ number.getLast?, c.isAlpha = false) : Suffixed number [] 20
  | unit {letter : Char} {power : Nat} (halpha : letter.isAlpha = true)
    (h : unitPower? letter = some power) : Suffixed number [letter] power

/-- A text between blanks is read as the amount of its number. -/
theorem read?_of_suffixed (ht : Text.trim text = number ++ suffix)
    (h : Suffixed number suffix power) : read? text = amount? number power := by
  cases h with
  | bare h =>
    rcases List.eq_nil_or_concat number with rfl | ⟨front, c, rfl⟩
    · rw [read?, ht]
      decide
    · have hc : c.isAlpha = false := h c (by simp)
      simp [read?, ht, hc]
  | unit halpha h => simp [read?, ht, halpha, h]

theorem read?_eq_some_iff :
    read? text = some s ↔ ∃ number suffix power, Text.trim text = number ++ suffix ∧
      Suffixed number suffix power ∧ amount? number power = some s := by
  constructor
  · intro h
    obtain ⟨number, suffix, power, ht, hsuffix⟩ : ∃ number suffix power,
        Text.trim text = number ++ suffix ∧ Suffixed number suffix power := by
      rcases List.eq_nil_or_concat (Text.trim text) with ht | ⟨front, c, ht⟩
      · exact ⟨[], [], 20, ht, .bare fun c hc => nomatch hc⟩
      · cases halpha : c.isAlpha with
        | false => exact ⟨_, [], 20, (List.append_nil _).symm, .bare (by simp [ht, halpha])⟩
        | true =>
          simp only [read?, ht, List.concat_eq_append, List.getLast?_concat, halpha, if_true] at h
          obtain ⟨power, hpower, -⟩ := Option.bind_eq_some_iff.mp h
          exact ⟨front, [c], power, by simpa using ht, .unit halpha hpower⟩
    exact ⟨number, suffix, power, ht, hsuffix, read?_of_suffixed ht hsuffix ▸ h⟩
  · rintro ⟨number, suffix, power, ht, hsuffix, hamount⟩
    rw [read?_of_suffixed ht hsuffix, hamount]

/-- A sign belongs to the number. -/
theorem exists_suffixed_cons_iff {sign : Char} (hsign : sign.isAlpha = false) :
    (sign :: rest = number ++ suffix ∧ Suffixed number suffix power) ↔
      ∃ unsigned, number = sign :: unsigned ∧ rest = unsigned ++ suffix ∧
        Suffixed unsigned suffix power := by
  constructor
  · rintro ⟨heq, h⟩
    cases h with
    | bare h =>
      rw [List.append_nil] at heq
      refine ⟨rest, heq.symm, (List.append_nil rest).symm, .bare fun c hc => h c ?_⟩
      rw [← heq, List.getLast?_cons, Option.mem_def.mp hc]
      rfl
    | unit halpha h =>
      rcases List.cons_eq_append_iff.mp heq with ⟨-, hletter⟩ | ⟨unsigned, hnumber, hrest⟩
      · cases hletter
        rw [hsign] at halpha
        cases halpha
      · exact ⟨unsigned, hnumber, hrest, .unit halpha h⟩
  · rintro ⟨unsigned, rfl, rfl, h⟩
    refine ⟨rfl, ?_⟩
    cases h with
    | bare h =>
      refine .bare fun c hc => ?_
      rw [List.getLast?_cons, Option.mem_def, Option.some_inj] at hc
      cases hlast : unsigned.getLast? with
      | none => rwa [← hc, hlast]
      | some d => exact h c (by rw [← hc, hlast]; rfl)
    | unit halpha h => exact .unit halpha h

/-- The letter of a unit is known by its lower case. -/
theorem mem_units_of_unitPower? {letter : Char} (h : unitPower? letter = some power) :
    (letter.toLower, 2 ^ power) ∈ units := by
  unfold unitPower? at h
  split at h
  case h_9 => cases h
  all_goals
    next hletter =>
      cases h
      rw [hletter]
      decide

/-- A character that has a lower case is the upper case of that. -/
theorem eq_toLower_or_eq_toUpper (c : Char) : c = c.toLower ∨ c = c.toLower.toUpper := by
  by_cases hcase : c.val ≥ 'A'.val ∧ c.val ≤ 'Z'.val
  · have hall : ∀ n < 26, Char.ofNat (65 + n) = (Char.ofNat (65 + n)).toLower.toUpper := by decide
    have hlow : 65 ≤ c.toNat := UInt32.le_iff_toNat_le.mp hcase.1
    have hhigh : c.toNat ≤ 90 := UInt32.le_iff_toNat_le.mp hcase.2
    have hletter := hall (c.toNat - 65) (by omega)
    rw [Nat.add_sub_cancel' hlow, Char.ofNat_toNat] at hletter
    exact .inr hletter
  · have hsame : c.toLower = c := dif_neg hcase
    exact .inl hsame.symm

namespace Suffixed

/-- A text begins as a number if its number does. -/
theorem opens_iff (h : Suffixed number suffix power) :
    Opens (number ++ suffix) ↔ Opens number := by
  cases number with
  | cons c number => exact Iff.rfl
  | nil =>
    cases h with
    | bare => exact Iff.rfl
    | unit halpha =>
      refine iff_of_false (fun hopens => ?_) id
      rw [isAlpha_of_opens hopens] at halpha
      exact Bool.false_ne_true halpha

/-- A letter that is known is that of a unit in either case. -/
theorem exists_denotes (h : Suffixed number suffix power) : ∃ unit, Denotes suffix unit := by
  cases h with
  | bare => exact ⟨_, .bare⟩
  | @unit letter power halpha h =>
    have hmem := mem_units_of_unitPower? h
    rcases eq_toLower_or_eq_toUpper letter with hlower | hupper
    · rw [hlower]
      exact ⟨_, .lower hmem⟩
    · rw [hupper]
      exact ⟨_, .upper hmem⟩

end Suffixed

theorem Denotes.exists_suffixed {unit : Nat} (h : Denotes suffix unit)
    (hnumber : ∀ c ∈ number.getLast?, c.isAlpha = false) :
    ∃ power, Suffixed number suffix power := by
  obtain ⟨rfl, -⟩ | ⟨letter, power, rfl, -, halpha, hpower, -⟩ := h.cases
  · exact ⟨20, .bare hnumber⟩
  · exact ⟨power, .unit halpha hpower⟩

/-! ### Texts -/

theorem parse_eq_ok_iff {text : String} : parse text = .ok s ↔ read? text.toList = some s :=
  orInvalid_eq_ok_iff

/-- A text with a sign in front is read by the number behind the sign. -/
theorem read?_of_trim_eq_cons {sign : Char} (hsign : sign.isAlpha = false)
    (h : Text.trim text = sign :: rest) :
    read? text = some s ↔ ∃ unsigned suffix power, rest = unsigned ++ suffix ∧
      Suffixed unsigned suffix power ∧ amount? (sign :: unsigned) power = some s := by
  rw [read?_eq_some_iff, h]
  constructor
  · rintro ⟨number, suffix, power, ht, hsuffix, hamount⟩
    obtain ⟨unsigned, rfl, hrest, hunsigned⟩ :=
      (exists_suffixed_cons_iff hsign).mp ⟨ht, hsuffix⟩
    exact ⟨unsigned, suffix, power, hrest, hunsigned, hamount⟩
  · rintro ⟨unsigned, suffix, power, hrest, hunsigned, hamount⟩
    obtain ⟨ht, hsuffix⟩ :=
      (exists_suffixed_cons_iff hsign).mpr ⟨unsigned, rfl, hrest, hunsigned⟩
    exact ⟨_, suffix, power, ht, hsuffix, hamount⟩

/-- With a plus sign in front the same is read as without it, unless another sign or a blank is
behind it. -/
theorem read?_of_trim_eq_plus (h : Text.trim text = '+' :: rest) :
    read? text = some s ↔ Opens rest ∧ read? rest = some s := by
  have htrim : Opens rest → Text.trim rest = rest := by
    cases rest with
    | nil => exact fun hopens => hopens.elim
    | cons c rest => exact fun hopens => Text.trim_of_trim_eq_cons h hopens.isBlank_eq_false
  rw [read?_of_trim_eq_cons (by decide) h]
  constructor
  · rintro ⟨unsigned, suffix, power, hrest, hsuffix, hamount⟩
    obtain ⟨hnumber, hamount⟩ := amount?_plus.mp hamount
    have hopens : Opens rest := hrest ▸ hsuffix.opens_iff.mpr hnumber
    exact ⟨hopens, read?_eq_some_iff.mpr
      ⟨unsigned, suffix, power, (htrim hopens).trans hrest, hsuffix, hamount⟩⟩
  · rintro ⟨hopens, hread⟩
    obtain ⟨unsigned, suffix, power, ht, hsuffix, hamount⟩ := read?_eq_some_iff.mp hread
    have hrest : rest = unsigned ++ suffix := (htrim hopens).symm.trans ht
    have hnumber : Opens unsigned := hsuffix.opens_iff.mp (hrest ▸ hopens)
    exact ⟨unsigned, suffix, power, hrest, hsuffix, amount?_plus.mpr ⟨hnumber, hamount⟩⟩

/-- With a minus sign in front nothing but no bytes is read, from what rounds to zero. -/
theorem read?_of_trim_eq_minus (h : Text.trim text = '-' :: rest) :
    read? text = some s ↔ s.bytes = 0 ∧ ∃ number suffix unit, rest = number ++ suffix ∧
      Denotes suffix unit ∧ Opens number ∧
        ∃ x, Decimal.read? number = some x ∧ x.IsNegligible := by
  rw [read?_of_trim_eq_cons (by decide) h]
  constructor
  · rintro ⟨number, suffix, power, hrest, hsuffix, hamount⟩
    obtain ⟨hs, hopens, hdecimal⟩ := amount?_minus.mp hamount
    obtain ⟨unit, hunit⟩ := hsuffix.exists_denotes
    exact ⟨hs, number, suffix, unit, hrest, hunit, hopens, hdecimal⟩
  · rintro ⟨hs, number, suffix, unit, hrest, hunit, hopens, x, hx, hnegligible⟩
    obtain ⟨power, hsuffix⟩ := hunit.exists_suffixed (Decimal.isAlpha_getLast_of_read? hx)
    exact ⟨number, suffix, power, hrest, hsuffix,
      amount?_minus.mpr ⟨hs, hopens, x, hx, hnegligible⟩⟩

/-- The sizes that a text with a sign in front of it gives. -/
structure TakesSigns (text : String) : Prop where
  /-- Behind a plus sign stands a text without sign, and gives the same size. -/
  plus : ∀ rest, Text.trim text.toList = '+' :: rest → ∀ s, parse text = .ok s ↔
    Opens rest ∧ parse (String.ofList rest) = .ok s
  /-- Behind a minus sign stands a number of a unit that is at most half of the least positive
  number, and the size has no bytes. -/
  minus : ∀ rest, Text.trim text.toList = '-' :: rest → ∀ s, parse text = .ok s ↔
    s.bytes = 0 ∧ ∃ number suffix unit, rest = number ++ suffix ∧ Denotes suffix unit ∧
      Opens number ∧ ∃ x, Decimal.read? number = some x ∧ x.IsNegligible

theorem takesSigns (text : String) : TakesSigns text where
  plus rest h s := by
    rw [parse_eq_ok_iff, parse_eq_ok_iff, String.toList_ofList, read?_of_trim_eq_plus h]
  minus rest h s := by
    rw [parse_eq_ok_iff, read?_of_trim_eq_minus h]

end Size

/-! ## Extents -/

/-- The word of a percentage is read in any case. -/
theorem PercentOf.read?_eq_some_iff {cs : List Char} {p : PercentOf} :
    read? cs = some p ↔ cs.map Char.toUpper = p.word.toList := by
  constructor
  · intro h
    have hfound := List.find?_some (p := fun q : PercentOf => q.word.toList = cs.map Char.toUpper) h
    exact (of_decide_eq_true hfound).symm
  · intro h
    rw [read?, h]
    cases p <;> decide

namespace Extents

variable {text number rest : List Char} {kind : Option PercentOf} {relative : Bool} {e : Extents}

/-- No letter becomes a percent sign in upper case. -/
theorem eq_percent_of_toUpper {c : Char} (h : c.toUpper = '%') : c = '%' := by
  by_cases hcase : 'a'.val ≤ c.val ∧ c.val ≤ 'z'.val
  · have hall : ∀ n < 26, (Char.ofNat (97 + n)).toUpper ≠ '%' := by decide
    have hlow : 97 ≤ c.toNat := UInt32.le_iff_toNat_le.mp hcase.1
    have hhigh : c.toNat ≤ 122 := UInt32.le_iff_toNat_le.mp hcase.2
    have hletter := hall (c.toNat - 97) (by omega)
    rw [Nat.add_sub_cancel' hlow, Char.ofNat_toNat] at hletter
    exact absurd h hletter
  · have hsame : c.toUpper = c := dif_neg hcase
    exact hsame.symm.trans h

/-- A text without sign is taken apart at its first percent sign into a number and the kind of
percentage, which is written in any case. -/
theorem splitKind?_eq_some_iff :
    splitKind? rest = some (number, kind) ↔ '%' ∉ number ∧
      ∃ suffix, rest = number ++ suffix ∧ suffix.map Char.toUpper = kindText kind := by
  constructor
  · intro h
    rw [splitKind?] at h
    split at h
    · next hcut =>
      cases h
      exact ⟨Text.cut_eq_none_iff.mp hcut, [], (List.append_nil number).symm, rfl⟩
    · next front word hcut =>
      obtain ⟨p, hp, heq⟩ := Option.map_eq_some_iff.mp h
      cases heq
      obtain ⟨hnot, heq⟩ := Text.cut_eq_some_iff.mp hcut
      refine ⟨hnot, '%' :: word, heq, ?_⟩
      rw [List.map_cons, PercentOf.read?_eq_some_iff.mp hp]
      rfl
  · rintro ⟨hnot, suffix, rfl, hkind⟩
    cases kind with
    | none =>
      rw [List.map_eq_nil_iff.mp hkind, List.append_nil, splitKind?, Text.cut_eq_none hnot]
    | some p =>
      obtain ⟨c, word, rfl, hc, hword⟩ := List.map_eq_cons_iff.mp hkind
      rw [eq_percent_of_toUpper hc, splitKind?, Text.cut_append_cons hnot]
      exact Option.map_eq_some_iff.mpr ⟨p, PercentOf.read?_eq_some_iff.mpr hword, rfl⟩

theorem make?_eq_some_iff {value : Nat} :
    make? value kind relative = some e ↔
      e.value = value ∧ e.percentOf = kind ∧ e.relative = relative := by
  constructor
  · intro h
    rw [make?] at h
    split at h
    · cases h
      exact ⟨rfl, rfl, rfl⟩
    · cases h
  · rintro ⟨rfl, rfl, rfl⟩
    exact dif_pos e.fits

/-- A text of digits and what they are a percentage of, which gives the number and the kind of
percentage of `e`. -/
structure Spelled (e : Extents) (digits suffix : List Char) : Prop where
  digits_ne_nil : digits ≠ []
  isDigit_of_mem : ∀ c ∈ digits, c.isDigit = true
  value_eq : e.value = Nat.ofDigits 10 (digits.map digitValue).reverse
  /-- The kind of percentage is written in any case. -/
  kind_eq : suffix.map Char.toUpper = kindText e.percentOf

/-- A text with so many plus signs in front that gives `e`: an increase exactly if there is any. -/
def SpelledWith (e : Extents) (plusSigns : Nat) (text : List Char) : Prop :=
  (e.relative = true ↔ plusSigns ≠ 0) ∧ ∃ digits suffix,
    text = List.replicate plusSigns '+' ++ (digits ++ suffix) ∧ e.Spelled digits suffix

/-- Digits are no plus signs. -/
theorem Spelled.append_ne_plus {digits suffix cs : List Char} (h : e.Spelled digits suffix) :
    digits ++ suffix ≠ '+' :: cs := by
  intro heq
  obtain ⟨c, digits, rfl⟩ := List.exists_cons_of_ne_nil h.digits_ne_nil
  have hdigit := h.isDigit_of_mem c List.mem_cons_self
  rw [List.cons_append, List.cons_eq_cons] at heq
  rw [heq.1] at hdigit
  exact absurd hdigit (by decide)

/-- Reads a number of extents behind the sign of an increase. -/
def readUnsigned? (relative : Bool) (rest : List Char) : Option Extents :=
  (splitKind? rest).bind fun (number, kind) =>
    (readWhole? number).bind fun value => make? value kind relative

/-- Behind the sign of an increase one more plus sign is accepted, as the sign of the number. -/
theorem readUnsigned?_eq_some_iff :
    readUnsigned? relative rest = some e ↔ e.relative = relative ∧ ∃ plusSigns ≤ 1,
      ∃ digits suffix, rest = List.replicate plusSigns '+' ++ (digits ++ suffix) ∧
        e.Spelled digits suffix := by
  constructor
  · intro h
    obtain ⟨⟨number, kind⟩, hsplit, h⟩ := Option.bind_eq_some_iff.mp h
    obtain ⟨value, hvalue, hmake⟩ := Option.bind_eq_some_iff.mp h
    obtain ⟨-, suffix, rfl, hkind⟩ := splitKind?_eq_some_iff.mp hsplit
    obtain ⟨sign, digits, hsign, hne, hdigits, rfl, rfl⟩ := readWhole?_eq_some_iff.mp hvalue
    obtain ⟨hvalue, rfl, hrelative⟩ := make?_eq_some_iff.mp hmake
    have hspelled : e.Spelled digits suffix := ⟨hne, hdigits, hvalue, hkind⟩
    rcases hsign with rfl | rfl
    · exact ⟨hrelative, 0, by decide, digits, suffix, rfl, hspelled⟩
    · exact ⟨hrelative, 1, by decide, digits, suffix, rfl, hspelled⟩
  · rintro ⟨rfl, k, hk, digits, suffix, rfl, h⟩
    have hsign : List.replicate k '+' = [] ∨ List.replicate k '+' = ['+'] := by
      interval_cases k
      · exact .inl rfl
      · exact .inr rfl
    have hpercent : '%' ∉ List.replicate k '+' ++ digits := by
      intro hmem
      rcases List.mem_append.mp hmem with hmem | hmem
      · exact absurd (List.eq_of_mem_replicate hmem) (by decide)
      · exact absurd (h.isDigit_of_mem _ hmem) (by decide)
    have hdecimal : IsDecimal (List.replicate k '+' ++ digits) e.value :=
      ⟨_, digits, hsign, h.digits_ne_nil, h.isDigit_of_mem, rfl, h.value_eq⟩
    refine Option.bind_eq_some_iff.mpr ⟨(_, e.percentOf), splitKind?_eq_some_iff.mpr
      ⟨hpercent, suffix, (List.append_assoc ..).symm, h.kind_eq⟩, ?_⟩
    exact Option.bind_eq_some_iff.mpr ⟨e.value, readWhole?_eq_some_iff.mpr hdecimal,
      make?_eq_some_iff.mpr ⟨rfl, rfl, rfl⟩⟩

/-- **Numbers of extents** are read from digits with at most two plus signs in front of them. -/
theorem read?_eq_some_iff :
    read? text = some e ↔ ∃ plusSigns ≤ 2, e.SpelledWith plusSigns (Text.trim text) := by
  have hread : read? text = readUnsigned? (takeIncrease (Text.trim text)).1
      (takeIncrease (Text.trim text)).2 := rfl
  rw [hread, readUnsigned?_eq_some_iff]
  generalize Text.trim text = t
  unfold takeIncrease
  split
  · next rest =>
    constructor
    · rintro ⟨hrelative, k, hk, digits, suffix, rfl, h⟩
      exact ⟨k + 1, Nat.succ_le_succ hk, ⟨fun _ => Nat.succ_ne_zero k, fun _ => hrelative⟩,
        digits, suffix, rfl, h⟩
    · rintro ⟨k, hk, hrelative, digits, suffix, heq, h⟩
      cases k with
      | zero => exact absurd heq.symm h.append_ne_plus
      | succ k =>
        rw [List.replicate_succ, List.cons_append, List.cons_eq_cons] at heq
        exact ⟨hrelative.mpr (Nat.succ_ne_zero k), k, Nat.succ_le_succ_iff.mp hk, digits, suffix,
          heq.2, h⟩
  · next hplus =>
    -- Without a plus sign at the beginning there is none at all.
    have hnone : ∀ {k digits suffix}, t = List.replicate k '+' ++ (digits ++ suffix) → k = 0 := by
      intro k digits suffix heq
      cases k with
      | zero => rfl
      | succ k => exact absurd heq (hplus _)
    constructor
    · rintro ⟨hrelative, k, -, digits, suffix, heq, h⟩
      refine ⟨k, (hnone heq).le.trans (Nat.zero_le 2), ?_, digits, suffix, heq, h⟩
      rw [hrelative, hnone heq]
      exact iff_of_false Bool.false_ne_true fun hne => hne rfl
    · rintro ⟨k, -, hrelative, digits, suffix, heq, h⟩
      rw [hnone heq] at hrelative
      exact ⟨by simpa using hrelative, k, (hnone heq).le.trans (Nat.zero_le 1), digits, suffix, heq,
        h⟩

theorem parse_eq_ok_iff {text : String} : parse text = .ok e ↔ read? text.toList = some e :=
  orInvalid_eq_ok_iff

end Extents

/-- **Signs in front of amounts.** A plus sign in front of a size is dropped, a minus sign in front
of one is dropped if the number is too small to be told from zero, and a number of extents may have
two plus signs, of which the second is dropped. No other text with a sign gives an amount. -/
theorem signs_of_amounts (text : String) :
    Size.TakesSigns text ∧ ∀ e, Extents.parse text = .ok e ↔
      ∃ plusSigns ≤ 2, e.SpelledWith plusSigns (Text.trim text.toList) :=
  ⟨Size.takesSigns text, fun e => by rw [Extents.parse_eq_ok_iff, Extents.read?_eq_some_iff]⟩

/-- Five gibibytes to be added are taken for a size of five gibibytes, no mebibytes to be taken away
for a size of none, and five extents with two signs for an increase by five. -/
theorem swallowed_signs :
    (Text.trim "+5g".toList = '+' :: "5g".toList ∧
      (Size.parse "+5g").toOption.map Size.bytes = some (5 * 1024 ^ 3)) ∧
    (Text.trim "-0".toList = '-' :: "0".toList ∧
      (Size.parse "-0").toOption.map Size.bytes = some 0) ∧
    (∃ e, Extents.parse "++5" = .ok e ∧ e.value = 5 ∧ e.relative = true) ∧
    ∀ e : Extents, ¬ ∃ plusSigns ≤ 1, e.SpelledWith plusSigns (Text.trim "++5".toList) := by
  have hextents : Extents.read? "++5".toList = some ⟨5, none, true, by decide⟩ := by
    decide +kernel
  refine ⟨by decide +kernel, by decide +kernel,
    ⟨_, Extents.parse_of_read? hextents, rfl, rfl⟩, ?_⟩
  rintro e ⟨k, hk, -, digits, suffix, heq, h⟩
  have htrim : Text.trim "++5".toList = ['+', '+', '5'] := by decide +kernel
  rw [htrim] at heq
  cases k with
  | zero => exact h.append_ne_plus heq.symm
  | succ k =>
    have hone : k = 0 := by omega
    rw [hone, List.replicate_one, List.singleton_append, List.cons_eq_cons] at heq
    exact h.append_ne_plus heq.2.symm

end LvmControl
