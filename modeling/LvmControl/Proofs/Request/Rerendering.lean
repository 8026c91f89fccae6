import LvmControl.Proofs.Request.Positionals
import LvmControl.Proofs.Request.Replacement

/-!
# Rendering twice

A value or a whole request that is rendered into an argument list which holds its rendering already
leaves this list as it is, order included. All that is rendered takes the place of what is there
under its key, so the second rendering takes out what the first one has put and puts it again. Only
the names of a rename are appended, and these are there twice in the end.

## Main definitions

* `Command.renames`: the commands that append names.

## Main statements

* `Piece.isReplacement`: what a part of a command line writes replaces, unless the part appends.
* `Command.render_render_iff`: rendering a request twice, for every command.
* `rendering_idempotent`: the same, with single settings.
-/

namespace LvmControl

namespace Piece

variable {r : Request} {p : Piece} {ps : List Piece}

/-- A part that appends nothing replaces what it writes. -/
theorem isReplacement (h : p.appends = false) : ∀ e ∈ p.edits r, e.IsReplacement := by
  intro e he
  cases hflag : p.flag? with
  | some key =>
    rcases edits_of_flag (r := r) hflag with hedits | ⟨ts, hedits, hts⟩
    · rw [hedits] at he
      exact absurd he List.not_mem_nil
    · rw [hedits] at he
      obtain rfl := List.mem_singleton.mp he
      exact hts
  | none =>
    rw [edits_of_put hflag h] at he
    obtain ⟨t, -, rfl⟩ := List.mem_map.mp he
    exact Edit.isReplacement_put t

/-- A part that writes no names replaces what it writes. -/
theorem isReplacement_of_names (h : p.names r = []) : ∀ e ∈ p.edits r, e.IsReplacement := by
  cases p with
  | positional f =>
    have hedits : (Piece.positional f).edits r = [] := List.map_eq_nil_iff.mpr h
    rw [hedits]
    exact fun e he => absurd he List.not_mem_nil
  | _ => exact isReplacement rfl

/-- Parts that each append nothing or write no names replace what they write. -/
theorem isReplacement_of_forall (h : ∀ p ∈ ps, p.appends = false ∨ p.names r = []) :
    ∀ e ∈ ps.flatMap (edits r), e.IsReplacement := by
  intro e he
  obtain ⟨p, hp, he⟩ := List.mem_flatMap.mp he
  rcases h p hp with happends | hnames
  · exact isReplacement happends e he
  · exact isReplacement_of_names hnames e he

end Piece

/-- The changes that write a setting replace. -/
theorem Setting.isReplacement_of_mem_edits (s : Setting) : ∀ e ∈ s.edits, e.IsReplacement := by
  intro e he
  obtain ⟨f, -, he⟩ := List.mem_flatMap.mp he
  exact Piece.isReplacement (p := .field f) rfl e he

namespace Command

variable {c : Command} {r : Request}

/-- The commands that append names. -/
def renames : List Command := [.vgrename, .lvrename]

/-- A rename puts no names, and no other command appends any. -/
theorem appends_cases (c : Command) :
    (c ∈ renames → ∀ p ∈ c.layout, p.flag? = none → p.appends = true) ∧
      (c ∉ renames → ∀ p ∈ c.layout, p.appends = false) := by
  cases c <;> decide

/-- Whoever renders a rename twice names everything twice. -/
theorem positionals_render_render (h : c ∈ renames) (args : Arguments) :
    (c.render r (c.render r args)).positionals =
      (c.render r args).positionals ++ c.layout.flatMap (Piece.names r) :=
  Piece.positionals_applyAll_of_appends (fun _ hp _ => isFlag_of_mem_layout hp)
    (c.appends_cases.1 h) _

/-- **Rendering a request twice** is no different from rendering it once, exactly if the command is
no rename or there is nothing to name. -/
theorem render_render_iff (args : Arguments) :
    c.render r (c.render r args) = c.render r args ↔
      (c ∈ renames → c.layout.flatMap (Piece.names r) = []) := by
  constructor
  · intro hsame hrename
    have hnames := positionals_render_render (r := r) hrename args
    rw [hsame] at hnames
    exact List.self_eq_append_right.mp hnames
  · intro hnames
    refine Arguments.applyAll_applyAll (Piece.isReplacement_of_forall fun p hp => ?_) args
    by_cases hrename : c ∈ renames
    · exact .inr (List.flatMap_eq_nil_iff.mp (hnames hrename) p hp)
    · exact .inl (c.appends_cases.2 hrename p hp)

end Command

/-- **Rendering is idempotent.** Rendering a setting, or a request for a command, into what it has
been rendered into before changes nothing, whatever tokens were there in the beginning. It does so
for a rename only if there is nothing to name. -/
theorem rendering_idempotent :
    (∀ (s : Setting) (args : Arguments), s.render (s.render args) = s.render args) ∧
      ∀ (c : Command) (r : Request) (args : Arguments),
        c.render r (c.render r args) = c.render r args ↔
          (c ∈ Command.renames → c.layout.flatMap (Piece.names r) = []) :=
  ⟨fun s args => Arguments.applyAll_applyAll s.isReplacement_of_mem_edits args,
    fun _ _ args => Command.render_render_iff args⟩

end LvmControl
