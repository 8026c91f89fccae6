import LvmControl.Text.Blank

/-!
# Cutting text

The functions that take tool output and option text apart, all on lists of characters so that a
statement about them is a statement about lists.

## Main definitions

* `trim`: blanks removed from both ends.
* `cut`: a text split at the first occurrence of a separator.
* `pieces`: a text split at every occurrence of a separator; never empty.
* `lines`: the lines of a text. A line ends at a line feed, and a carriage return right before that
  line feed belongs to the ending; the text after the last line feed is a line unless it is empty.
* `words`: the maximal runs of characters that are not blank.
* `occursIn`: whether one text is a contiguous part of another.
* `join`: texts put one after another with a separator between them.
-/

namespace LvmControl.Text

/-- A text without the blanks at its start. -/
def trimStart (cs : List Char) : List Char := cs.dropWhile isBlank

/-- A text without the blanks at its end. -/
def trimEnd (cs : List Char) : List Char := (cs.reverse.dropWhile isBlank).reverse

/-- A text without the blanks at both its ends. -/
def trim (cs : List Char) : List Char := trimEnd (trimStart cs)

/-- `trim` on strings. -/
def trimmed (s : String) : String := String.ofList (trim s.toList)

/-- The parts before and after the first occurrence of the separator, or `none` when it does not
occur. -/
def cut (sep : Char) : List Char → Option (List Char × List Char)
  | [] => none
  | c :: cs => if c = sep then some ([], cs) else (cut sep cs).map fun (a, b) => (c :: a, b)

@[simp] theorem cut_nil (sep : Char) : cut sep [] = none := rfl

@[simp] theorem cut_cons_self (sep : Char) (cs : List Char) :
    cut sep (sep :: cs) = some ([], cs) := by simp [cut]

/-- Nothing is lost in a cut: the two parts and the separator make up the text. -/
theorem eq_append_of_cut {sep : Char} {cs a b : List Char} (h : cut sep cs = some (a, b)) :
    cs = a ++ sep :: b := by
  induction cs generalizing a with
  | nil => simp at h
  | cons c cs ih =>
    by_cases hc : c = sep
    · subst hc
      simp only [cut_cons_self, Option.some.injEq, Prod.mk.injEq] at h
      simp [← h.1, ← h.2]
    · simp only [cut, hc, if_false, Option.map_eq_some_iff, Prod.exists, Prod.mk.injEq] at h
      obtain ⟨a', b', hcut, rfl, rfl⟩ := h
      simp [ih hcut]

/-- The pieces between the occurrences of a separator. -/
def pieces (sep : Char) : List Char → List (List Char)
  | [] => [[]]
  | c :: cs =>
    if c = sep then [] :: pieces sep cs
    else match pieces sep cs with
      | [] => [[c]]
      | p :: ps => (c :: p) :: ps

/-- A line without the carriage return at its end, if it has one. -/
def dropReturn (line : List Char) : List Char :=
  if line.getLast? = some '\r' then line.dropLast else line

/-- The pieces of a text cut at line feeds, as lines: all but the last ended at a line feed, and
the last is a line unless it is empty. -/
def linesOfPieces : List (List Char) → List (List Char)
  | [] => []
  | [last] => if last.isEmpty then [] else [last]
  | piece :: rest => dropReturn piece :: linesOfPieces rest

/-- The lines of a text, without their endings. -/
def lines (cs : List Char) : List (List Char) := linesOfPieces (pieces '\n' cs)

/-- The runs between blanks, empty ones included. -/
def runs : List Char → List (List Char)
  | [] => [[]]
  | c :: cs =>
    if isBlank c then [] :: runs cs
    else match runs cs with
      | [] => [[c]]
      | r :: rs => (c :: r) :: rs

/-- The words of a text: its maximal runs of characters that are not blank. -/
def words (cs : List Char) : List (List Char) := (runs cs).filter fun r => !r.isEmpty

/-- Whether the first text is a contiguous part of the second. -/
def occursIn (part : List Char) : List Char → Bool
  | [] => part.isEmpty
  | c :: cs => part.isPrefixOf (c :: cs) || occursIn part cs

/-- `occursIn` decides the infix relation. -/
theorem occursIn_iff {part whole : List Char} : occursIn part whole = true ↔ part <:+: whole := by
  induction whole with
  | nil => simp [occursIn]
  | cons c cs ih =>
    simp only [occursIn, Bool.or_eq_true, List.isPrefixOf_iff_prefix, ih, List.infix_cons_iff]

/-- Texts one after another, with a separator between neighbours. -/
def join (sep : String) : List String → String
  | [] => ""
  | [s] => s
  | s :: rest => s ++ sep ++ join sep rest

@[simp] theorem join_nil (sep : String) : join sep [] = "" := rfl

@[simp] theorem join_singleton (sep s : String) : join sep [s] = s := rfl

theorem join_cons_cons (sep s t : String) (rest : List String) :
    join sep (s :: t :: rest) = s ++ sep ++ join sep (t :: rest) := rfl

end LvmControl.Text
