import LvmControl.Client.Call

/-!
# The client that rehearses

A client that runs nothing. It answers from data that it is given, can be told to fail, and keeps a
record of every call that got as far as a command line.

## Main definitions

* `Record`: what a call would have run.
* `Rehearsal`: the data that calls are answered from, how they fail, and the records so far.
* `Rehearsal.perform`: the result of a call, and the client after it.
* `Span`, `Span.overlaps`: the time that a call takes, and whether two calls overlap.

## Design notes

**The answer is what a tool with these data would report.** A listing that names things is narrowed
to them here, as the tool narrows it there.
-/

namespace LvmControl

/-- What a call would have run. -/
structure Record where
  command : String
  arguments : List String
  bypass : Bool
  defaultGroup : Option String
  environment : List (String × String)
  waitDelay : Duration
deriving DecidableEq, Repr

/-- A client that answers from data and keeps records. -/
structure Rehearsal where
  version : Version := {}
  groups : List VolumeGroup := []
  volumes : List LogicalVolume := []
  devices : List PhysicalVolume := []
  entries : List DeviceEntry := []
  /-- How long a call takes. Calls that take time can be cancelled. -/
  delay : Option Duration := none
  /-- A subcommand that fails, and with which diagnostics. -/
  failOn : Option (String × String) := none
  /-- What the calls so far would have run. -/
  records : List Record := []

namespace Rehearsal

/-- The exit code of a rehearsed failure. -/
def failureCode : Int := 5

/-- The record of a call with the arguments. -/
def record (defaults : Defaults) (call : Call) (args : Arguments) : Record where
  command := call.subcommand
  arguments := args.tokens
  bypass := call.context.bypass
  defaultGroup := call.context.defaultGroup.map VolumeGroupName.text
  environment := (call.context.environment.map Environment.entries).getD []
  waitDelay := call.context.effectiveDelay defaults

/-- How the command of a call fails, if it does. A call that takes time is cancelled by a token that
has fired. -/
def failure? (m : Rehearsal) (fired : List Token) (call : Call) : Option ProcessError :=
  if m.delay.isSome && call.context.isCancelled fired then some .cancelled
  else
    (m.failOn.filter fun f => f.1 = call.subcommand).map fun f =>
      .exited (some failureCode) f.2

/-- The volume groups that a listing for the request shows. -/
def listGroups (m : Rehearsal) (r : Request) : List VolumeGroup :=
  m.groups.filter fun row => r.volumeGroup.all fun name => row.name = name

/-- The logical volumes that a listing for the request shows. -/
def listVolumes (m : Rehearsal) (r : Request) : List LogicalVolume :=
  m.volumes.filter fun row =>
    r.volumeGroup.all (fun name => row.group = name) &&
      r.logicalVolume.all fun name => row.name = name

/-- The physical volumes that a listing for the request shows. -/
def listDevices (m : Rehearsal) (r : Request) : List PhysicalVolume :=
  m.devices.filter fun row => r.physicalVolumes.isEmpty || r.physicalVolumes.contains row.name

/-- The answer to a command from the data. -/
def answer (m : Rehearsal) (c : Command) (ctx : Context) (l : OptionList c) : Reply :=
  match c with
  | .version => .version m.version
  | .vgs => .groups (m.listGroups l.aggregate.request)
  | .lvs => .volumes (m.listVolumes (l.completed ctx.defaultGroup))
  | .pvs => .devices (m.listDevices l.aggregate.request)
  | .devicesList => .entries m.entries
  | _ => .done

/-- The answer to a call from the data. -/
def reply (m : Rehearsal) (call : Call) : Result :=
  match call with
  | ⟨.run c, ctx, l⟩ => .ok (m.answer c ctx l)
  | ⟨.findGroup, ctx, l⟩ =>
    match soughtGroup? ctx l with
    | none => .error (.validation unnamedGroup)
    | some name =>
      match (m.listGroups (withGroup l name).aggregate.request).head? with
      | some row => .ok (.group row)
      | none => .error (.groupNotFound name.text)
  | ⟨.findVolume, ctx, l⟩ =>
    match soughtVolume ctx l with
    | .error e => .error (.validation e)
    | .ok (group, name) =>
      match (m.listVolumes (l.completed ctx.defaultGroup)).head? with
      | some row => .ok (.volume row)
      | none => .error (.volumeNotFound (name.qualified group))

/-- The result of a call that got as far as a command line. -/
def resultOf (m : Rehearsal) (fired : List Token) (call : Call) : Result :=
  match m.failure? fired call with
  | some e => .error (.execution call.subcommand "" e)
  | none => m.reply call

/-- The result of a call, and the client with its record. -/
def perform (m : Rehearsal) (defaults : Defaults) (fired : List Token) (call : Call) :
    Result × Rehearsal :=
  match call.arguments with
  | .error e => (.error (.validation e), m)
  | .ok args =>
    (m.resultOf fired call, { m with records := m.records ++ [record defaults call args] })

/-- The records of a subcommand. -/
def recordsOf (m : Rehearsal) (command : String) : List Record :=
  m.records.filter fun r => r.command = command

end Rehearsal

/-! ## Time -/

/-- The time that a call takes, from its start to its end. -/
structure Span where
  started : Nat
  finished : Nat
deriving DecidableEq, Repr

/-- Whether each of two calls started before the other one ended. -/
def Span.overlaps (a b : Span) : Bool := a.started < b.finished && b.started < a.finished

end LvmControl
