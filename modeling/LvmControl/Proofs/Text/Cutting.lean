import LvmControl.Proofs.Quantity.RoundTrip
import Mathlib.Data.List.DropRight
import Mathlib.Data.List.TakeWhile

/-!
# What cutting gives back

Text is put together by putting parts one after another, with blanks around them or with a
separator between them, and taken apart again by trimming and cutting. Here the second undoes the
first.

## Main definitions

* `AllBlank`, `NoBlank`: texts of blanks only, and without any.

## Main statements

* `trim_append`: what stands between blanks is what trimming leaves.
* `pieces_join`: texts that are joined are cut into themselves.
* `words_join`: words that are joined by spaces, with blanks before them, are the words of the line.
-/

namespace LvmControl.Text

variable {sep c : Char} {cs ds w before after : List Char}

/-- A text of blanks only. -/
def AllBlank (cs : List Char) : Prop := ∀ c ∈ cs, isBlank c = true

/-- A text without blanks. -/
def NoBlank (cs : List Char) : Prop := ∀ c ∈ cs, isBlank c = false

instance (cs : List Char) : Decidable (AllBlank cs) :=
  decidable_of_iff (cs.all isBlank = true) List.all_eq_true

instance (cs : List Char) : Decidable (NoBlank cs) :=
  decidable_of_iff (cs.all (!isBlank ·) = true) (by simp [NoBlank])

theorem NoBlank.append (hc : NoBlank cs) (hd : NoBlank ds) : NoBlank (cs ++ ds) := fun c h =>
  (List.mem_append.mp h).elim (hc c) (hd c)

/-! ## Trimming -/

/-- What a text begins with is blank as far as it is dropped. -/
theorem exists_eq_append_trimStart (cs : List Char) :
    ∃ before, AllBlank before ∧ cs = before ++ trimStart cs :=
  ⟨cs.takeWhile isBlank, fun _ h => List.mem_takeWhile_imp h, List.takeWhile_append_dropWhile.symm⟩

theorem exists_eq_trimEnd_append (cs : List Char) :
    ∃ after, AllBlank after ∧ cs = trimEnd cs ++ after := by
  obtain ⟨before, hblank, heq⟩ := exists_eq_append_trimStart cs.reverse
  refine ⟨before.reverse, fun c h => hblank c (List.mem_reverse.mp h), ?_⟩
  rw [trimEnd, ← List.reverse_append, ← trimStart, ← heq, List.reverse_reverse]

/-- A text is what trimming leaves of it, with blanks around it. -/
theorem exists_eq_append_trim_append (cs : List Char) :
    ∃ before after, AllBlank before ∧ AllBlank after ∧ cs = before ++ trim cs ++ after := by
  obtain ⟨before, hbefore, hstart⟩ := exists_eq_append_trimStart cs
  obtain ⟨after, hafter, hend⟩ := exists_eq_trimEnd_append (trimStart cs)
  exact ⟨before, after, hbefore, hafter, by rw [trim, List.append_assoc, ← hend, ← hstart]⟩

/-- What stands between blanks is what trimming leaves. -/
theorem trim_append (hbefore : AllBlank before) (hcs : NoBlank cs) (hafter : AllBlank after) :
    trim (before ++ cs ++ after) = cs := by
  have hend : trimEnd (cs ++ after) = trimEnd cs := by
    have hreverse : AllBlank after.reverse := fun c h => hafter c (List.mem_reverse.mp h)
    rw [trimEnd, List.reverse_append, List.dropWhile_append_of_pos hreverse, trimEnd]
  rw [trim, trimStart, List.append_assoc, List.dropWhile_append_of_pos hbefore]
  cases cs with
  | nil =>
    rw [List.nil_append, List.dropWhile_eq_nil_iff.mpr hafter]
    rfl
  | cons c cs =>
    have hhead : ∀ ds, (c :: ds).dropWhile isBlank = c :: ds := fun ds =>
      List.dropWhile_cons_of_neg (by simp [hcs c List.mem_cons_self])
    have hself := trim_eq_self hcs
    rw [trim, trimStart, hhead] at hself
    rw [List.cons_append, hhead, ← List.cons_append, hend, hself]

/-- Nothing is left of a text exactly if it is blank. -/
theorem trim_eq_nil_iff : trim cs = [] ↔ AllBlank cs := by
  constructor
  · intro h
    obtain ⟨before, after, hbefore, hafter, heq⟩ := exists_eq_append_trim_append cs
    rw [h, List.append_nil] at heq
    intro c hc
    rw [heq] at hc
    exact (List.mem_append.mp hc).elim (hbefore c) (hafter c)
  · intro h
    have hnothing : trim (cs ++ [] ++ []) = [] := trim_append h (by decide) (by decide)
    rwa [List.append_nil, List.append_nil] at hnothing

/-- A trimmed text does not end with a blank. -/
theorem isBlank_getLast_trim (h : trim cs ≠ []) : isBlank ((trim cs).getLast h) = false :=
  Bool.eq_false_iff.mpr (List.rdropWhile_last_not isBlank (trimStart cs) h)

/-- What stands behind the first character of a trimmed text needs no trimming, unless it begins
with a blank. -/
theorem trim_of_trim_eq_cons {d : Char} (h : trim cs = c :: d :: ds) (hd : isBlank d = false) :
    trim (d :: ds) = d :: ds := by
  have hne : trim cs ≠ [] := h ▸ List.cons_ne_nil c (d :: ds)
  have hlast : (trim cs).getLast hne = (d :: ds).getLast (List.cons_ne_nil d ds) := by
    simp only [h, List.getLast_cons_cons]
  have hkept := isBlank_getLast_trim hne
  rw [hlast] at hkept
  rw [trim, trimStart, List.dropWhile_cons_of_neg (by simp [hd])]
  exact List.rdropWhile_eq_self_iff.mpr fun _ => Bool.eq_false_iff.mp hkept

/-! ## Cuts -/

/-- A text is cut at the first separator, and only there. -/
theorem cut_eq_some_iff {a b : List Char} :
    cut sep cs = some (a, b) ↔ sep ∉ a ∧ cs = a ++ sep :: b := by
  constructor
  · intro h
    have heq := eq_append_of_cut h
    obtain ⟨front, rest, hfront, hnot⟩ :=
      List.eq_append_cons_of_mem (heq ▸ List.mem_append_right a List.mem_cons_self : sep ∈ cs)
    rw [hfront, cut_append_cons hnot] at h
    cases h
    exact ⟨hnot, heq⟩
  · rintro ⟨hnot, rfl⟩
    exact cut_append_cons hnot

/-- A text is not cut exactly if it is without the separator. -/
theorem cut_eq_none_iff : cut sep cs = none ↔ sep ∉ cs := by
  refine ⟨fun h hmem => ?_, cut_eq_none⟩
  obtain ⟨front, rest, rfl, hnot⟩ := List.eq_append_cons_of_mem hmem
  rw [cut_append_cons hnot] at h
  cases h

/-! ## Pieces -/

theorem pieces_eq_singleton (h : sep ∉ cs) : pieces sep cs = [cs] := by
  induction cs with
  | nil => rfl
  | cons c cs ih =>
    obtain ⟨hne, htail⟩ := not_or.mp (mt List.mem_cons.mpr h)
    simp [pieces, ih htail, Ne.symm hne]

theorem pieces_append_cons (h : sep ∉ cs) (ds : List Char) :
    pieces sep (cs ++ sep :: ds) = cs :: pieces sep ds := by
  induction cs with
  | nil => simp [pieces]
  | cons c cs ih =>
    obtain ⟨hne, htail⟩ := not_or.mp (mt List.mem_cons.mpr h)
    simp [pieces, ih htail, Ne.symm hne]

/-- Texts joined by a separator that none of them holds are cut into themselves. -/
theorem pieces_join {texts : List String} (hne : texts ≠ []) (h : ∀ t ∈ texts, sep ∉ t.toList) :
    pieces sep (join (String.singleton sep) texts).toList = texts.map String.toList := by
  induction texts with
  | nil => exact absurd rfl hne
  | cons t texts ih =>
    obtain ⟨ht, htexts⟩ := List.forall_mem_cons.mp h
    cases texts with
    | nil => exact pieces_eq_singleton ht
    | cons u texts =>
      simp only [join_cons_cons, String.toList_append, String.toList_singleton,
        List.append_assoc, List.singleton_append, pieces_append_cons ht,
        ih (List.cons_ne_nil u texts) htexts, List.map_cons]

/-- A character of joined texts is one of the separator or of a text. -/
theorem mem_toList_join {c : Char} {sep : String} {texts : List String}
    (h : c ∈ (join sep texts).toList) : c ∈ sep.toList ∨ ∃ t ∈ texts, c ∈ t.toList := by
  induction texts with
  | nil => cases h
  | cons t texts ih =>
    cases texts with
    | nil => exact .inr ⟨t, List.mem_cons_self, h⟩
    | cons u texts =>
      rw [join_cons_cons, String.toList_append, String.toList_append] at h
      rcases List.mem_append.mp h with h | h
      · rcases List.mem_append.mp h with h | h
        · exact .inr ⟨t, List.mem_cons_self, h⟩
        · exact .inl h
      · exact (ih h).imp_right fun ⟨v, hv, hc⟩ => ⟨v, List.mem_cons_of_mem t hv, hc⟩

/-! ## Words -/

theorem runs_ne_nil (cs : List Char) : runs cs ≠ [] := by
  cases cs with
  | nil => simp [runs]
  | cons c cs =>
    unfold runs
    split
    · simp
    · split <;> simp

theorem words_cons_of_blank (h : isBlank c = true) (cs : List Char) :
    words (c :: cs) = words cs := by
  simp [words, runs, h]

theorem words_append_of_blank (h : AllBlank before) (cs : List Char) :
    words (before ++ cs) = words cs := by
  induction before with
  | nil => rfl
  | cons c before ih =>
    obtain ⟨hc, hbefore⟩ := List.forall_mem_cons.mp h
    rw [List.cons_append, words_cons_of_blank hc, ih hbefore]

theorem runs_eq_singleton (h : NoBlank w) : runs w = [w] := by
  induction w with
  | nil => rfl
  | cons c w ih =>
    obtain ⟨hc, hw⟩ := List.forall_mem_cons.mp h
    simp [runs, hc, ih hw]

theorem runs_append_cons (h : NoBlank w) (hc : isBlank c = true) (cs : List Char) :
    runs (w ++ c :: cs) = w :: runs cs := by
  induction w with
  | nil => simp [runs, hc]
  | cons d w ih =>
    obtain ⟨hd, hw⟩ := List.forall_mem_cons.mp h
    simp [runs, hd, ih hw]

theorem runs_append_singleton (hc : isBlank c = true) (cs : List Char) :
    runs (cs ++ [c]) = runs cs ++ [[]] := by
  induction cs with
  | nil => simp [runs, hc]
  | cons d cs ih =>
    cases hd : isBlank d with
    | true => simp [runs, hd, ih]
    | false =>
      cases hruns : runs cs with
      | nil => exact absurd hruns (runs_ne_nil cs)
      | cons r rs => simp [runs, hd, ih, hruns]

/-- Words joined by spaces are the words of the line. -/
theorem words_join {texts : List String} (h : ∀ t ∈ texts, t ≠ "" ∧ NoBlank t.toList) :
    words (join " " texts).toList = texts.map String.toList := by
  have hspace : isBlank ' ' = true := by decide
  induction texts with
  | nil => rfl
  | cons t texts ih =>
    obtain ⟨⟨hne, ht⟩, htexts⟩ := List.forall_mem_cons.mp h
    cases texts with
    | nil => simp [words, runs_eq_singleton ht, hne]
    | cons u texts =>
      have hline : (join " " (t :: u :: texts)).toList =
          t.toList ++ ' ' :: (join " " (u :: texts)).toList := by
        simp [join_cons_cons]
      rw [hline, words, runs_append_cons ht hspace, List.filter_cons_of_pos (by simpa using hne),
        ← words, ih htexts]
      rfl

/-- The words of a line do not depend on how it ends. -/
theorem words_dropReturn (line : List Char) : words (dropReturn line) = words line := by
  unfold dropReturn
  split
  · next hlast =>
    obtain ⟨front, rfl⟩ := List.getLast?_eq_some_iff.mp hlast
    rw [List.dropLast_concat, words, words, runs_append_singleton (by decide), List.filter_append]
    simp
  · rfl

end LvmControl.Text
