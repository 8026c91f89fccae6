import LvmControl.Client.Call
import LvmControl.Process.Program

/-!
# The client that runs the tools

Every call runs one command of the tool and reads what it prints.

## Main definitions

* `Host`: the path of the tool and how programs are started.
* `Host.invocation`: the process that a call starts, or why it is refused.
* `Host.reply`: what the output of the tool means for a call.
* `Host.result`: the result of a call, given what becomes of its process.

## Design notes

**A lookup searches the report.** The rows of a report are not known to be for the name that was
asked for, so a lookup takes the first row that carries it, and for a logical volume also the name
of its group.
-/

namespace LvmControl

/-- A client that runs the tools of this host. -/
structure Host where
  tool : String := "lvm"
  launcher : Launcher
deriving DecidableEq, Repr

namespace Host

/-- The invocation that carries out a call, or why the call is refused. -/
def invocation (host : Host) (defaults : Defaults) (call : Call) :
    Except ValidationError Invocation :=
  call.arguments.map fun args =>
    host.launcher.build defaults call.context host.tool (call.subcommand :: args.tokens)

/-- The volume group of the name among the rows of a report. -/
def pickGroup (name : VolumeGroupName) (rows : List VolumeGroup) : Except ClientError VolumeGroup :=
  match rows.find? fun row => row.name = name with
  | some row => .ok row
  | none => .error (.groupNotFound name.text)

/-- The logical volume of the name in the group among the rows of a report. -/
def pickVolume (group : VolumeGroupName) (name : LogicalVolumeName) (rows : List LogicalVolume) :
    Except ClientError LogicalVolume :=
  match rows.find? fun row => row.name = name && row.group = group with
  | some row => .ok row
  | none => .error (.volumeNotFound (name.qualified group))

/-- What the output of a command means. -/
def readOutput (c : Command) (stdout : String) : Except ReportError Reply :=
  match c with
  | .version => (Report.version stdout).map .version
  | .vgs => (Report.volumeGroups stdout).map .groups
  | .lvs => (Report.logicalVolumes stdout).map .volumes
  | .pvs => (Report.physicalVolumes stdout).map .devices
  | .devicesList => (Report.devices stdout).map .entries
  | _ => .ok .done

/-- What the output of the tool means for a call. -/
def reply (call : Call) (stdout : String) : Result :=
  match call with
  | ⟨.run c, _, _⟩ => (readOutput c stdout).mapError .report
  | ⟨.findGroup, ctx, l⟩ =>
    match soughtGroup? ctx l with
    | none => .error (.validation unnamedGroup)
    | some name => do
      let rows ← (Report.volumeGroups stdout).mapError .report
      (pickGroup name rows).map .group
  | ⟨.findVolume, ctx, l⟩ => do
    let (group, name) ← (soughtVolume ctx l).mapError .validation
    let rows ← (Report.logicalVolumes stdout).mapError .report
    (pickVolume group name rows).map .volume

/-- What a failure of the call's command is about. -/
def resource (call : Call) : String :=
  match call.effectiveOptions with
  | .ok l => call.operation.command.resource call.context l
  | .error _ => ""

/-- The result of a call whose process had the outcome. -/
def resultOf (call : Call) : Outcome → Result
  | .ok output => reply call output.stdout
  | .error e => .error (.execution call.subcommand (resource call) e)

/-- The result of a call, and what became of its process if one was to be started. There is no
result as long as there is no outcome. -/
def result (host : Host) (defaults : Defaults) (call : Call) (run : Invocation → Fate) :
    Option Result × Option Fate :=
  match host.invocation defaults call with
  | .error e => (some (.error (.validation e)), none)
  | .ok inv => ((run inv).outcome.map (resultOf call), some (run inv))

end Host

end LvmControl
