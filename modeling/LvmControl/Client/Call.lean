import LvmControl.Client.Failure
import LvmControl.Process.Context
import LvmControl.Report.DeviceList
import LvmControl.Report.Version
import LvmControl.Report.Volume
import LvmControl.Request.Layout
import LvmControl.Request.Scope

/-!
# Calls

What can be asked of a client, and what it answers.

## Main definitions

* `Operation`: the operations of a client. Every command is one, and looking up a single volume
  group or logical volume are two more, which run the commands that list them.
* `Call`: an operation with the context and the options it is called with.
* `Reply`: what a successful call gives.
* `Call.effectiveOptions`: the options that are run, once it is clear what is looked up.
* `Call.arguments`: the arguments of the command that is run.
* `Call.resource`: what a failure of the command is reported to be about.

## Design notes

**A lookup names what it looks up.** A single volume group is named by the options or else by the
context. The default group of a context does not narrow a listing of volume groups, so the name is
put at the end of the options. A listing of logical volumes takes the default group when a logical
volume is named, so there the options stay as they are.
-/

namespace LvmControl

/-- The operations of a client. -/
inductive Operation
  /-- A command, as it is. -/
  | run (command : Command)
  /-- Looking up one volume group. -/
  | findGroup
  /-- Looking up one logical volume. -/
  | findVolume
deriving DecidableEq, Repr

/-- The command that an operation runs. -/
def Operation.command : Operation → Command
  | .run c => c
  | .findGroup => .vgs
  | .findVolume => .lvs

/-- An operation with all that it is called with. -/
structure Call where
  operation : Operation
  context : Context
  options : OptionList operation.command

/-- What a successful call gives. -/
inductive Reply
  /-- Nothing but success. -/
  | done
  | version (version : Version)
  | groups (groups : List VolumeGroup)
  | group (group : VolumeGroup)
  | volumes (volumes : List LogicalVolume)
  | volume (volume : LogicalVolume)
  | devices (devices : List PhysicalVolume)
  | entries (entries : List DeviceEntry)
deriving DecidableEq

/-- The result of a call. -/
abbrev Result := Except ClientError Reply

/-- The name of the volume group that a lookup is for: that of the options, or else of the
context. -/
def soughtGroup? (ctx : Context) (l : OptionList .vgs) : Option VolumeGroupName :=
  l.aggregate.request.volumeGroup.or ctx.defaultGroup

/-- The options that look up the volume group of the name. -/
def withGroup (l : OptionList .vgs) (name : VolumeGroupName) : OptionList .vgs :=
  l.push (.setting (.volumeGroup name) rfl)

/-- The names of the logical volume that a lookup is for, and of its group. -/
def soughtVolume (ctx : Context) (l : OptionList .lvs) :
    Except ValidationError (VolumeGroupName × LogicalVolumeName) :=
  let request := l.completed ctx.defaultGroup
  match request.volumeGroup, request.logicalVolume with
  | none, _ => .error (.missing Command.lvs.subcommand Field.volumeGroup.label)
  | some _, none => .error (.missing Command.lvs.subcommand Field.logicalVolume.label)
  | some group, some volume => .ok (group, volume)

/-- The refusal of a lookup for a volume group without a name. -/
def unnamedGroup : ValidationError :=
  .missing Command.vgs.subcommand Field.volumeGroup.label

namespace Call

/-- The subcommand that a call runs. -/
def subcommand (call : Call) : String := call.operation.command.subcommand

/-- The options that are run. -/
def effectiveOptions : (call : Call) →
    Except ValidationError (OptionList call.operation.command)
  | ⟨.run _, _, l⟩ => .ok l
  | ⟨.findGroup, ctx, l⟩ =>
    match soughtGroup? ctx l with
    | some name => .ok (withGroup l name)
    | none => .error unnamedGroup
  | ⟨.findVolume, ctx, l⟩ => (soughtVolume ctx l).map fun _ => l

/-- The arguments of the command that is run, without the subcommand. -/
def arguments (call : Call) : Except ValidationError Arguments :=
  call.effectiveOptions.bind fun l => l.arguments call.context.defaultGroup

end Call

/-- What a failure of a command is about. For a command that changes something it is what it locks,
for a listing the names it is for. -/
def Command.resource (c : Command) (ctx : Context) (l : OptionList c) : String :=
  let request := l.aggregate.request
  let completed := l.completed ctx.defaultGroup
  match c.keys? completed with
  | some keys => Text.join "," keys
  | none =>
    match c with
    | .vgs => Text.join "," request.groupKeys
    | .lvs => Text.join "," completed.groupKeys
    | .pvs => Text.join "," request.deviceKeys
    | .devicesList => request.devicesFileName
    | .devicesCheck => request.devicesFileName
    | _ => ""

end LvmControl
