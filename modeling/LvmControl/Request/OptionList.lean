import LvmControl.Request.Command

/-!
# Option lists

A caller asks for something by a list of options. Options are aggregated in order, so the last one
that writes a field decides what the field holds; a whole request given as one option writes every
field.

## Main definitions

* `FittingRequest`: a request with nothing in the fields that a command does not take.
* `Entry`: one option, which is a setting the command accepts or a fitting request.
* `OptionList`: options in order.
* `OptionList.aggregate`: the request they make.
* `Command.fillsGroup`: whether a request for a command needs an existing volume group that was left
  out, and so is completed by the default one.
* `OptionList.completed`: the request they make, completed by a default volume group.

## Design notes

**The command is an index.** `OptionList c` can only hold options that `c` takes, so an option given
to the wrong command is refused where the list is made (`OptionList.push?`) and nowhere later.
-/

namespace LvmControl

/-- A request that holds nothing in the fields that the command does not take. -/
structure FittingRequest (c : Command) where
  request : Request
  fits : request.Fits c

/-- One option for a command. -/
inductive Entry (c : Command)
  /-- A setting that the command accepts. -/
  | setting (s : Setting) (accepted : c.accepts s = true)
  /-- A whole request, which takes the place of everything before it. -/
  | whole (r : FittingRequest c)

namespace Entry

/-- Writes an option into a request. -/
def apply {c : Command} (r : FittingRequest c) : Entry c → FittingRequest c
  | .setting s accepted => ⟨s.apply r.request, r.fits.apply accepted⟩
  | .whole q => q

end Entry

/-- Options for a command, in order. -/
structure OptionList (c : Command) where
  entries : List (Entry c)

namespace OptionList

/-- No options. -/
def empty (c : Command) : OptionList c := ⟨[]⟩

/-- The number of options. -/
def size {c : Command} (l : OptionList c) : Nat := l.entries.length

/-- Puts an option at the end. -/
def push {c : Command} (l : OptionList c) (e : Entry c) : OptionList c := ⟨l.entries ++ [e]⟩

/-- Puts a setting at the end, if the command accepts it. -/
def push? {c : Command} (l : OptionList c) (s : Setting) : Option (OptionList c) :=
  if h : c.accepts s = true then some (l.push (.setting s h)) else none

/-- Puts the options of another list at the end. -/
def append {c : Command} (l m : OptionList c) : OptionList c := ⟨l.entries ++ m.entries⟩

/-- The request that the options make. -/
def aggregate {c : Command} (l : OptionList c) : FittingRequest c :=
  l.entries.foldl Entry.apply ⟨{}, Request.fits_empty c⟩

@[simp] theorem aggregate_empty (c : Command) :
    (empty c).aggregate = ⟨{}, Request.fits_empty c⟩ := rfl

@[simp] theorem aggregate_push {c : Command} (l : OptionList c) (e : Entry c) :
    (l.push e).aggregate = e.apply l.aggregate := by
  simp [aggregate, push]

end OptionList

/-- Whether a request for the command leaves out an existing volume group that it needs. Groups
that are created or renamed must be named, and a listing needs a group only for the logical volume
that it names. -/
def Command.fillsGroup (c : Command) (r : Request) : Bool :=
  match c with
  | .vgremove => r.volumeGroup.isNone
  | .vgextend => r.volumeGroup.isNone
  | .vgreduce => r.volumeGroup.isNone
  | .vgchange => r.volumeGroup.isNone
  | .lvs => r.volumeGroup.isNone && r.logicalVolume.isSome
  | .lvcreate => r.volumeGroup.isNone
  | .lvremove => r.volumeGroup.isNone
  | .lvextend => r.volumeGroup.isNone
  | .lvresize => r.volumeGroup.isNone
  | .lvreduce => r.volumeGroup.isNone
  | .lvrename => r.volumeGroup.isNone
  | .lvchange => r.volumeGroup.isNone
  | _ => false

/-- A request completed by a default volume group, if there is one and it is needed. -/
def Request.withDefault (r : Request) (c : Command) : Option VolumeGroupName → Request
  | none => r
  | some group => if c.fillsGroup r then (Setting.volumeGroup group).apply r else r

@[simp] theorem Request.withDefault_none (r : Request) (c : Command) :
    r.withDefault c none = r := rfl

/-- The request that the options make, completed by a default volume group. -/
def OptionList.completed {c : Command} (l : OptionList c) (default : Option VolumeGroupName) :
    Request :=
  l.aggregate.request.withDefault c default

@[simp] theorem OptionList.completed_none {c : Command} (l : OptionList c) :
    l.completed none = l.aggregate.request := rfl

end LvmControl
