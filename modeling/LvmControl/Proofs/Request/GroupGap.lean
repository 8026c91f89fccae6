import LvmControl.Proofs.Request.SharedKeys

/-!
# A default group fills a gap

Most commands address one existing volume group and may leave its name out. A default group then
does what the name at the end of the options would have done. Everywhere else it does nothing: it
neither wins over a name that is given, nor names a group for a command that makes one, renames one
or lists all of them.

## Main definitions

* `Command.onOneGroup`, `Command.NeedsGroup`: the commands that address one existing group, and the
  requests that cannot do without its name.
* `OptionList.Gap`: options that leave out a group that is needed.
* `OptionList.FillsGap`: what a default group does to the arguments and the keys of options.

## Main statements

* `Command.fillsGroup_iff`: the requests that are completed are those with a gap.
* `Command.fault?_ne_none_of_gap`: a gap is a fault unless it is filled.
* `OptionList.fillsGap`: a default group fills a gap and does nothing else.
-/

namespace LvmControl

namespace Command

variable {c : Command} {r : Request}

/-- The commands that address one existing volume group, whatever they are asked. -/
def onOneGroup : List Command :=
  [.vgremove, .vgextend, .vgreduce, .vgchange, .lvcreate, .lvremove, .lvextend, .lvresize,
    .lvreduce, .lvrename, .lvchange]

/-- A request cannot do without the name of an existing group: the command is on one group, or lists
a logical volume by its name. -/
def NeedsGroup (c : Command) (r : Request) : Prop :=
  c ∈ onOneGroup ∨ c = .lvs ∧ r.logicalVolume.isSome = true

/-- The requests that a default group completes are those that need a group and name none. -/
theorem fillsGroup_iff : c.fillsGroup r = true ↔ c.NeedsGroup r ∧ r.volumeGroup = none := by
  cases c <;> simp [fillsGroup, NeedsGroup, onOneGroup, and_comm]

/-- A command that needs a group takes its name. -/
theorem accepts_volumeGroup (h : c.NeedsGroup r) (group : VolumeGroupName) :
    c.accepts (.volumeGroup group) = true := by
  have htakes : c.takes .volumeGroup = true := by
    rcases h with hone | ⟨rfl, -⟩
    · revert hone
      cases c <;> decide
    · rfl
  simpa [accepts, Setting.fields] using htakes

/-- A request that needs a group and names none has a fault. -/
theorem fault?_ne_none_of_gap (h : c.NeedsGroup r) (hgroup : r.volumeGroup = none) :
    c.fault? r ≠ none := by
  intro hnone
  rcases h with hone | ⟨rfl, hvolume⟩
  · have hgiven : .given .volumeGroup ∈ c.requirements := by
      revert hone
      cases c <;> decide
    have hhas := has_of_given hnone hgiven
    simp [Request.has, hgroup] at hhas
  · have hfault := fault?_eq_none_iff.mp hnone .volumeInGroup (List.mem_singleton.mpr rfl)
    simp [Requirement.fault?, hgroup, hvolume] at hfault

end Command

namespace OptionList

variable {c : Command} {l : OptionList c} {group : VolumeGroupName}

/-- The options leave out a group that is needed. -/
def Gap (l : OptionList c) : Prop :=
  c.NeedsGroup l.aggregate.request ∧ l.aggregate.request.volumeGroup = none

/-- A default group completes options with a gap as its name behind them does. -/
theorem completed_of_gap (h : l.Gap) (haccepts : c.accepts (.volumeGroup group) = true) :
    l.completed (some group) =
      (l.push (.setting (.volumeGroup group) haccepts)).completed none := by
  have hfills : c.fillsGroup l.aggregate.request = true := Command.fillsGroup_iff.mpr h
  rw [completed_none, aggregate_push, completed, Request.withDefault, if_pos hfills]
  rfl

/-- A default group leaves options without a gap as they are. -/
theorem completed_of_not_gap (h : ¬ l.Gap) (default : Option VolumeGroupName) :
    l.completed default = l.completed none := by
  have hfills : c.fillsGroup l.aggregate.request = false := by
    rw [← Bool.not_eq_true]
    exact mt Command.fillsGroup_iff.mp h
  rw [completed_none]
  exact Command.withDefault_of_not_fillsGroup hfills default

/-- Options that are accepted without a default group have no gap. -/
theorem not_gap_of_arguments {args : Arguments} (h : l.arguments none = .ok args) : ¬ l.Gap := by
  intro hgap
  have haccepted := (Line.mk c l none args h).accepted_iff.1
  exact Command.fault?_ne_none_of_gap hgap.1 hgap.2 haccepted

/-- What a default group does to options. -/
structure FillsGap (l : OptionList c) (group : VolumeGroupName) : Prop where
  /-- Where a group is needed and left out, the default one has the effect of its name put behind
  the options. -/
  filled : l.Gap → ∃ m, l.push? (.volumeGroup group) = some m ∧
    l.arguments (some group) = m.arguments none ∧
      c.keys? (l.completed (some group)) = c.keys? (m.completed none)
  /-- Otherwise it has none. -/
  kept : ¬ l.Gap → l.arguments (some group) = l.arguments none ∧
    c.keys? (l.completed (some group)) = c.keys? (l.completed none)
  /-- Options that are accepted as they are make the same arguments under any default group. -/
  accepted : ∀ args, l.arguments none = .ok args → l.arguments (some group) = .ok args

/-- **A default group fills a gap and does nothing else**, for every command and all options. -/
theorem fillsGap (l : OptionList c) (group : VolumeGroupName) : l.FillsGap group where
  filled hgap := by
    have haccepts := Command.accepts_volumeGroup hgap.1 group
    have hcompleted := completed_of_gap hgap haccepts
    refine ⟨l.push (.setting (.volumeGroup group) haccepts), dif_pos haccepts, ?_, ?_⟩
    · exact arguments_congr hcompleted
    · rw [hcompleted]
  kept hgap := by
    have hcompleted := completed_of_not_gap hgap (some group)
    exact ⟨arguments_congr hcompleted, by rw [hcompleted]⟩
  accepted args h := by
    have hcompleted := completed_of_not_gap (not_gap_of_arguments h) (some group)
    rw [arguments_congr hcompleted, h]

end OptionList

end LvmControl
