import LvmControl.Quantity.Extents
import LvmControl.Request.Amount
import Mathlib.Logic.Function.Basic

/-!
# Sizes and extents as they are written

A size and a number of extents go onto a command line as texts. The texts are read back as what they
were written from, so no two sizes and no two numbers of extents are written alike.

## Main statements

* `Size.read?_text`, `Extents.read?_text`: what is written is read back.
* `Size.text_injective`, `Extents.text_injective`: different values have different texts.
* `amounts_read_back`: writing and parsing give the same amount again, and parsing, writing and
  parsing is no different from parsing.
-/

namespace LvmControl

namespace Text

variable {c sep : Char} {cs a b : List Char}

/-- The printable characters of ASCII, apart from the space, are not blank. -/
theorem isBlank_eq_false_of_printable (h : 0x21 ≤ c.toNat ∧ c.toNat ≤ 0x7e) :
    isBlank c = false := by
  simp only [isBlank, blankRanges, List.any_cons, List.any_nil, Bool.or_false,
    Bool.or_eq_false_iff, Bool.and_eq_false_iff, decide_eq_false_iff_not, Nat.not_le]
  omega

/-- Nothing is trimmed from a text without blanks. -/
theorem trim_eq_self (h : ∀ c ∈ cs, isBlank c = false) : trim cs = cs := by
  have hkeep : ∀ ds : List Char, (∀ d ∈ ds, isBlank d = false) → ds.dropWhile isBlank = ds := by
    intro ds hds
    cases ds with
    | nil => rfl
    | cons d ds => exact List.dropWhile_cons_of_neg (by simp [hds d List.mem_cons_self])
  rw [trim, trimStart, hkeep cs h, trimEnd,
    hkeep cs.reverse fun c hc => h c (List.mem_reverse.mp hc), List.reverse_reverse]

/-- A text without the separator is not cut. -/
theorem cut_eq_none (h : sep ∉ cs) : cut sep cs = none := by
  induction cs with
  | nil => rfl
  | cons c cs ih =>
    obtain ⟨hne, htail⟩ := not_or.mp (mt List.mem_cons.mpr h)
    simp [cut, ih htail, Ne.symm hne]

/-- A text is cut at the first separator. -/
theorem cut_append_cons (h : sep ∉ a) : cut sep (a ++ sep :: b) = some (a, b) := by
  induction a with
  | nil => simp
  | cons c a ih =>
    obtain ⟨hne, htail⟩ := not_or.mp (mt List.mem_cons.mpr h)
    simp [cut, ih htail, Ne.symm hne]

end Text

namespace Number

/-- A digit is a character between `0` and `9`. -/
theorem toNat_of_isDigit {c : Char} (h : c.isDigit = true) : 48 ≤ c.toNat ∧ c.toNat ≤ 57 := by
  simp only [Char.isDigit, Bool.and_eq_true, decide_eq_true_eq, ge_iff_le,
    UInt32.le_iff_toNat_le] at h
  exact h

theorem toNat_of_mem_decimalDigits {n : Nat} {c : Char} (h : c ∈ decimalDigits n) :
    48 ≤ c.toNat ∧ c.toNat ≤ 57 :=
  toNat_of_isDigit (List.all_eq_true.mp (all_isDigit_decimalDigits n) c h)

/-- The digits of a number hold no sign and no other character that is not a digit. -/
theorem not_mem_decimalDigits {n : Nat} {c : Char} (h : c.isDigit = false) :
    c ∉ decimalDigits n := by
  intro hmem
  rw [List.all_eq_true.mp (all_isDigit_decimalDigits n) c hmem] at h
  exact Bool.false_ne_true h.symm

/-- The digits of a number are read as the number, also where a plus sign is allowed. -/
theorem readWhole?_decimalDigits (n : Nat) : readWhole? (decimalDigits n) = some n := by
  have hdrop : dropPlus (decimalDigits n) = decimalDigits n := by
    cases hdigits : decimalDigits n with
    | nil => rfl
    | cons c cs =>
      have hne : c ≠ '+' := by
        rintro rfl
        exact not_mem_decimalDigits (n := n) (by decide) (hdigits ▸ List.mem_cons_self)
      simp [dropPlus, hne]
  rw [readWhole?, hdrop, digitsValue?_decimalDigits]

end Number

open Number

namespace Size

/-- A size is read back from its text. -/
theorem read?_text (s : Size) : read? s.text.toList = some s := by
  have htext : s.text.toList = decimalDigits s.bytes ++ ['b'] := by
    simp [text, decimal]
  have htrim : Text.trim (decimalDigits s.bytes ++ ['b']) = decimalDigits s.bytes ++ ['b'] := by
    refine Text.trim_eq_self fun c hc => Text.isBlank_eq_false_of_printable ?_
    rcases List.mem_append.mp hc with hdigit | hunit
    · have := toNat_of_mem_decimalDigits hdigit
      omega
    · rw [List.mem_singleton.mp hunit]
      decide
  have hnumber : readBelow? wordBound (decimalDigits s.bytes) = some s.bytes := by
    simp [readBelow?, readWhole?_decimalDigits, Option.filter, s.fits]
  have hbytes : ofBytes? s.bytes = some s := by
    simp [ofBytes?, s.fits]
  simp [read?, htext, htrim, unitPower?, amount?, hnumber, hbytes]

/-- The text of a size gives this size. -/
theorem parse_text (s : Size) : parse s.text = .ok s :=
  parse_of_read? s.read?_text

/-- It makes no difference to write what was parsed and to parse it again. -/
theorem parse_bind_parse_text (text : String) :
    ((parse text).bind fun s => parse s.text) = parse text := by
  cases parse text with
  | ok s => exact s.parse_text
  | error e => rfl

/-- Different sizes have different texts. -/
theorem text_injective : Function.Injective text := by
  intro s t h
  have hread := read?_text s
  rw [h, read?_text t] at hread
  exact (Option.some.inj hread).symm

end Size

namespace Extents

/-- What follows the number in the text of a number of extents. -/
def kindText : Option PercentOf → List Char
  | none => []
  | some p => '%' :: p.word.toList

theorem toList_text (e : Extents) :
    e.text.toList = (if e.relative then ['+'] else []) ++
      (decimalDigits e.value ++ kindText e.percentOf) := by
  cases hrelative : e.relative <;> cases hkind : e.percentOf <;>
    simp [text, hrelative, hkind, kindText, decimal]

/-- The kind of a percentage is written in printable characters. -/
theorem toNat_of_mem_kindText {kind : Option PercentOf} :
    ∀ c ∈ kindText kind, 0x21 ≤ c.toNat ∧ c.toNat ≤ 0x7e := by
  have hall : (kindText kind).all (fun c => 0x21 ≤ c.toNat ∧ c.toNat ≤ 0x7e) = true := by
    rcases kind with _ | p
    · rfl
    · cases p <;> decide
  simpa using hall

theorem splitKind?_append (n : Nat) (kind : Option PercentOf) :
    splitKind? (decimalDigits n ++ kindText kind) = some (decimalDigits n, kind) := by
  have hpercent : '%' ∉ decimalDigits n := not_mem_decimalDigits (by decide)
  cases kind with
  | none => simp [splitKind?, kindText, Text.cut_eq_none hpercent]
  | some p =>
    have hword : PercentOf.read? p.word.toList = some p := by
      cases p <;> decide
    simp [splitKind?, kindText, Text.cut_append_cons hpercent, hword]

theorem takeIncrease_append (e : Extents) :
    takeIncrease e.text.toList = (e.relative, decimalDigits e.value ++ kindText e.percentOf) := by
  rw [toList_text]
  cases e.relative with
  | true => rfl
  | false =>
    obtain ⟨c, cs, hdigits⟩ := List.exists_cons_of_ne_nil (decimalDigits_ne_nil e.value)
    have hne : c ≠ '+' := by
      rintro rfl
      exact not_mem_decimalDigits (n := e.value) (by decide) (hdigits ▸ List.mem_cons_self)
    simp [hdigits, takeIncrease, hne]

/-- A number of extents is read back from its text. -/
theorem read?_text (e : Extents) : read? e.text.toList = some e := by
  have htrim : Text.trim e.text.toList = e.text.toList := by
    refine Text.trim_eq_self fun c hc => Text.isBlank_eq_false_of_printable ?_
    rw [toList_text] at hc
    rcases List.mem_append.mp hc with hsign | hrest
    · split at hsign
      · rw [List.mem_singleton.mp hsign]
        decide
      · exact absurd hsign List.not_mem_nil
    rcases List.mem_append.mp hrest with hdigit | hkind
    · have := toNat_of_mem_decimalDigits hdigit
      omega
    · exact toNat_of_mem_kindText c hkind
  simp [read?, htrim, takeIncrease_append, splitKind?_append, readWhole?_decimalDigits, make?,
    e.fits]

/-- The text of a number of extents gives this number. -/
theorem parse_text (e : Extents) : parse e.text = .ok e :=
  parse_of_read? e.read?_text

/-- It makes no difference to write what was parsed and to parse it again. -/
theorem parse_bind_parse_text (text : String) :
    ((parse text).bind fun e => parse e.text) = parse text := by
  cases parse text with
  | ok e => exact e.parse_text
  | error e => rfl

/-- Different numbers of extents have different texts. -/
theorem text_injective : Function.Injective text := by
  intro e f h
  have hread := read?_text e
  rw [h, read?_text f] at hread
  exact (Option.some.inj hread).symm

end Extents

/-- **Amounts are read back.** Each size and each number of extents is parsed from its text, and an
amount that was parsed from any text is parsed again from its own. -/
theorem amounts_read_back :
    (∀ s : Size, Size.parse s.text = .ok s) ∧ (∀ e : Extents, Extents.parse e.text = .ok e) ∧
      (∀ text, ((Size.parse text).bind fun s => Size.parse s.text) = Size.parse text) ∧
      ∀ text, ((Extents.parse text).bind fun e => Extents.parse e.text) = Extents.parse text :=
  ⟨Size.parse_text, Extents.parse_text, Size.parse_bind_parse_text, Extents.parse_bind_parse_text⟩

end LvmControl
