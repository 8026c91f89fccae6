import LvmControl.Text.Split
import Mathlib.Data.List.Infix
import Mathlib.Data.List.TakeWhile

/-!
# Parts of a text and its lines

What stands on one line of a text stands in the text without a line feed in between, and what stands
in a text without a line feed in between stands on one line of it. Where the text begins and ends
does not matter for this, nor do carriage returns at the ends of lines.

## Main statements

* `exists_piece_of_infix`: a part without the separator lies in one of the pieces.
* `exists_line_iff`: what stands together on a line.
-/

namespace LvmControl.Text

variable {sep c : Char} {cs part piece line : List Char}

/-! ## Pieces -/

theorem pieces_cons_self (sep : Char) (cs : List Char) :
    pieces sep (sep :: cs) = [] :: pieces sep cs := by
  simp [pieces]

/-- A character that is no separator belongs to the first piece. -/
theorem pieces_cons_of_ne (hc : c ≠ sep) {ps : List (List Char)} (h : pieces sep cs = piece :: ps) :
    pieces sep (c :: cs) = (c :: piece) :: ps := by
  simp [pieces, hc, h]

/-- The first piece goes as far as there is no separator. -/
theorem exists_pieces_eq (sep : Char) (cs : List Char) :
    ∃ ps, pieces sep cs = cs.takeWhile (· ≠ sep) :: ps := by
  induction cs with
  | nil => exact ⟨[], rfl⟩
  | cons c cs ih =>
    by_cases hc : c = sep
    · subst hc
      exact ⟨_, by rw [pieces_cons_self, List.takeWhile_cons_of_neg (by simp)]⟩
    · obtain ⟨ps, hpieces⟩ := ih
      exact ⟨ps, by rw [pieces_cons_of_ne hc hpieces, List.takeWhile_cons_of_pos (by simp [hc])]⟩

/-- A piece lies in the text and holds no separator. -/
theorem infix_of_mem_pieces (h : piece ∈ pieces sep cs) : piece <:+: cs ∧ sep ∉ piece := by
  have hfirst : ∀ ds : List Char, sep ∉ ds.takeWhile (· ≠ sep) := fun ds hmem => by
    simpa using List.mem_takeWhile_imp hmem
  induction cs generalizing piece with
  | nil =>
    rw [List.mem_singleton.mp h]
    exact ⟨List.nil_infix, List.not_mem_nil⟩
  | cons c cs ih =>
    have hlater : ∀ q ∈ pieces sep cs, q <:+: c :: cs ∧ sep ∉ q := fun q hq =>
      (ih hq).imp_left fun hin => hin.trans (List.suffix_cons c cs).isInfix
    by_cases hc : c = sep
    · subst hc
      rw [pieces_cons_self] at h
      rcases List.mem_cons.mp h with rfl | h
      · exact ⟨List.nil_infix, List.not_mem_nil⟩
      · exact hlater piece h
    · obtain ⟨ps, hpieces⟩ := exists_pieces_eq sep cs
      rw [pieces_cons_of_ne hc hpieces] at h
      rcases List.mem_cons.mp h with rfl | h
      · have hbegins : c :: cs.takeWhile (· ≠ sep) <+: c :: cs :=
          List.cons_prefix_cons.mpr ⟨rfl, List.takeWhile_prefix _⟩
        exact ⟨hbegins.isInfix, List.not_mem_cons_of_ne_of_not_mem (Ne.symm hc) (hfirst cs)⟩
      · refine hlater piece ?_
        rw [hpieces]
        exact List.mem_cons_of_mem _ h

/-- What a text starts with and holds no separator lies in the first piece. -/
theorem exists_piece_of_prefix (hsep : sep ∉ part) (h : part <+: cs) :
    ∃ piece ∈ pieces sep cs, part <:+: piece := by
  obtain ⟨rest, rfl⟩ := h
  have hpart : ∀ c ∈ part, decide (c ≠ sep) = true := by
    intro c hc
    have hne : c ≠ sep := by
      rintro rfl
      exact hsep hc
    simpa using hne
  obtain ⟨ps, hpieces⟩ := exists_pieces_eq sep (part ++ rest)
  rw [hpieces, List.takeWhile_append_of_pos hpart]
  exact ⟨_, List.mem_cons_self, (List.prefix_append part _).isInfix⟩

/-- What a text holds without a separator lies in one of its pieces. -/
theorem exists_piece_of_infix (hsep : sep ∉ part) (h : part <:+: cs) :
    ∃ piece ∈ pieces sep cs, part <:+: piece := by
  induction cs with
  | nil => exact exists_piece_of_prefix hsep (List.infix_nil.mp h ▸ List.prefix_rfl)
  | cons c cs ih =>
    rcases List.infix_cons_iff.mp h with hbegins | hrest
    · exact exists_piece_of_prefix hsep hbegins
    · obtain ⟨q, hq, hpart⟩ := ih hrest
      by_cases hc : c = sep
      · subst hc
        rw [pieces_cons_self]
        exact ⟨q, List.mem_cons_of_mem _ hq, hpart⟩
      · obtain ⟨ps, hpieces⟩ := exists_pieces_eq sep cs
        rw [pieces_cons_of_ne hc hpieces]
        rw [hpieces] at hq
        rcases List.mem_cons.mp hq with rfl | hq
        · exact ⟨_, List.mem_cons_self, hpart.trans (List.suffix_cons c _).isInfix⟩
        · exact ⟨q, List.mem_cons_of_mem _ hq, hpart⟩

/-! ## Lines -/

theorem dropReturn_prefix (line : List Char) : dropReturn line <+: line := by
  unfold dropReturn
  split
  · exact List.dropLast_prefix line
  · exact List.prefix_rfl

/-- What holds no carriage return stays where one is dropped. -/
theorem infix_dropReturn (hpart : '\r' ∉ part) (h : part <:+: line) :
    part <:+: dropReturn line := by
  unfold dropReturn
  split
  · next hlast =>
    obtain ⟨front, rfl⟩ := List.getLast?_eq_some_iff.mp hlast
    rw [List.dropLast_concat]
    rcases List.infix_concat_iff.mp h with hsuffix | hfront
    · -- A part that reaches to the end is empty, or it ends in the carriage return.
      rcases List.suffix_concat_iff.mp hsuffix with rfl | ⟨init, rfl, -⟩
      · exact List.nil_infix
      · exact absurd (List.mem_append_right init List.mem_cons_self) hpart
    · exact hfront
  · exact h

theorem linesOfPieces_cons_cons (p q : List Char) (ps : List (List Char)) :
    linesOfPieces (p :: q :: ps) = dropReturn p :: linesOfPieces (q :: ps) := rfl

/-- A line is a piece, up to a carriage return. -/
theorem exists_piece_of_mem_lines {ps : List (List Char)} (h : line ∈ linesOfPieces ps) :
    ∃ piece ∈ ps, line <+: piece := by
  induction ps with
  | nil => exact absurd h List.not_mem_nil
  | cons p ps ih =>
    cases ps with
    | nil =>
      simp only [linesOfPieces] at h
      split at h
      · exact absurd h List.not_mem_nil
      · exact ⟨p, List.mem_cons_self, List.mem_singleton.mp h ▸ List.prefix_rfl⟩
    | cons q ps =>
      rw [linesOfPieces_cons_cons] at h
      rcases List.mem_cons.mp h with rfl | h
      · exact ⟨p, List.mem_cons_self, dropReturn_prefix p⟩
      · obtain ⟨piece, hpiece, hline⟩ := ih h
        exact ⟨piece, List.mem_cons_of_mem _ hpiece, hline⟩

/-- A piece that is not empty is a line, up to a carriage return. -/
theorem exists_line_of_mem_pieces {ps : List (List Char)} (h : piece ∈ ps) (hne : piece ≠ []) :
    ∃ line ∈ linesOfPieces ps, ∀ part, '\r' ∉ part → part <:+: piece → part <:+: line := by
  induction ps with
  | nil => exact absurd h List.not_mem_nil
  | cons p ps ih =>
    cases ps with
    | nil =>
      obtain rfl := List.mem_singleton.mp h
      exact ⟨piece, by simp [linesOfPieces, hne], fun part _ hpart => hpart⟩
    | cons q ps =>
      rw [linesOfPieces_cons_cons]
      rcases List.mem_cons.mp h with rfl | h
      · exact ⟨dropReturn piece, List.mem_cons_self, fun part hpart => infix_dropReturn hpart⟩
      · obtain ⟨line, hline, hparts⟩ := ih h
        exact ⟨line, List.mem_cons_of_mem _ hline, hparts⟩

/-- **What stands together on a line.** A line of a text holds two parts exactly if some stretch of
the text holds them and no line feed. The first part must not be empty, and neither may hold a
carriage return. -/
theorem exists_line_iff {first second : List Char} (hne : first ≠ []) (hfirst : '\r' ∉ first)
    (hsecond : '\r' ∉ second) :
    (∃ line ∈ lines cs, first <:+: line ∧ second <:+: line) ↔
      ∃ stretch, stretch <:+: cs ∧ '\n' ∉ stretch ∧ first <:+: stretch ∧ second <:+: stretch := by
  constructor
  · rintro ⟨line, hline, hboth⟩
    obtain ⟨piece, hpiece, hbegins⟩ := exists_piece_of_mem_lines hline
    obtain ⟨hin, hfeed⟩ := infix_of_mem_pieces hpiece
    exact ⟨line, hbegins.isInfix.trans hin, fun hmem => hfeed (hbegins.subset hmem), hboth⟩
  · rintro ⟨stretch, hstretch, hfeed, h₁, h₂⟩
    obtain ⟨piece, hpiece, hin⟩ := exists_piece_of_infix hfeed hstretch
    have hpiece_ne : piece ≠ [] := by
      rintro rfl
      exact hne (List.infix_nil.mp (h₁.trans hin))
    obtain ⟨line, hline, hparts⟩ := exists_line_of_mem_pieces hpiece hpiece_ne
    exact ⟨line, hline, hparts first hfirst (h₁.trans hin), hparts second hsecond (h₂.trans hin)⟩

end LvmControl.Text
