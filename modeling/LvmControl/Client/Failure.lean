import LvmControl.Process.Run
import LvmControl.Report.Row
import LvmControl.Request.Fault

/-!
# Failures of calls

Why a call did not give what was asked for, and the questions that callers ask of a failure. The
tools report nearly everything that goes wrong by a diagnostic on their error output, so most
questions are answered by looking for known wordings in it.

## Main definitions

* `ClientError`: the failure of a call.
* `ClientError.message`: its wording.
* `ClientError.stderr?`: the diagnostics, if a tool ran and failed.
* `ClientError.isGroupNotFound`, `isVolumeNotFound`, `isNotFound`, `isAlreadyExists`, `isCancelled`,
  `isSkippable`: the questions.

## Design notes

**Wordings are looked for anywhere.** Warnings come before and after a diagnostic, so a wording
counts wherever it stands. The one that names a volume group in quotes consists of two parts with
the name between them, which must be on the same line.
-/

namespace LvmControl

/-- The failure of a call. -/
inductive ClientError
  /-- The request was refused, and nothing was run. -/
  | validation (error : ValidationError)
  /-- A tool was to be run, and that failed. -/
  | execution (command resource : String) (source : ProcessError)
  /-- The call was cancelled while it waited for a lock. -/
  | lockCancelled (key : String)
  /-- The output of a tool could not be read. -/
  | report (error : ReportError)
  /-- There is no such volume group. -/
  | groupNotFound (name : String)
  /-- There is no such logical volume. -/
  | volumeNotFound (name : String)
deriving DecidableEq, Repr

/-! ## Wordings in diagnostics -/

/-- Wordings for a volume group that is not there. -/
def groupWordings : List String := ["Cannot process volume group", "No volume groups found"]

/-- The two parts around a quoted name in another wording for a volume group that is not there. -/
def groupLineParts : String × String := ("Volume group \"", "not found")

/-- Wordings for a logical volume that is not there. -/
def volumeWordings : List String := ["Failed to find logical volume"]

/-- Wordings for something that is there already. -/
def existsWordings : List String := ["already exists"]

/-- Wordings for a device that there is nothing to remove from. -/
def devicelessWordings : List String :=
  ["No PV found on device", "is not a PV", "No device found for"]

/-- Whether one of the wordings occurs in a text. -/
def mentions (wordings : List String) (text : List Char) : Bool :=
  wordings.any fun w => Text.occursIn w.toList text

/-- Whether a line of a text holds both parts of a wording. -/
def mentionsOnLine (parts : String × String) (text : List Char) : Bool :=
  (Text.lines text).any fun line =>
    Text.occursIn parts.1.toList line && Text.occursIn parts.2.toList line

namespace ClientError

/-- The wording of a failure. -/
def message : ClientError → String
  | .validation error => error.message
  | .execution command resource source =>
    command ++ " failed for '" ++ resource ++ "': " ++ source.message
  | .lockCancelled key => "cancelled while waiting for lock on '" ++ key ++ "'"
  | .report error => "unexpected report output: " ++ error.message
  | .groupNotFound name => "volume group '" ++ name ++ "' not found"
  | .volumeNotFound name => "logical volume '" ++ name ++ "' not found"

/-- The diagnostics of the tool that failed. -/
def stderr? : ClientError → Option String
  | .execution _ _ source => source.stderr?
  | _ => none

/-- The exit code of the tool that failed. -/
def exitCode? : ClientError → Option Int
  | .execution _ _ source => source.exitCode?
  | _ => none

/-- Whether the diagnostics have a property. -/
def diagnosed (e : ClientError) (p : List Char → Bool) : Bool :=
  e.stderr?.any fun text => p text.toList

/-- Whether a volume group is not there. -/
def isGroupNotFound (e : ClientError) : Bool :=
  match e with
  | .groupNotFound _ => true
  | _ => e.diagnosed fun text => mentions groupWordings text || mentionsOnLine groupLineParts text

/-- Whether a logical volume is not there. -/
def isVolumeNotFound (e : ClientError) : Bool :=
  match e with
  | .volumeNotFound _ => true
  | _ => e.diagnosed (mentions volumeWordings)

/-- Whether a volume group or a logical volume is not there. -/
def isNotFound (e : ClientError) : Bool := e.isGroupNotFound || e.isVolumeNotFound

/-- Whether what was to be made is there already. -/
def isAlreadyExists (e : ClientError) : Bool := e.diagnosed (mentions existsWordings)

/-- Whether the call was cancelled, while it waited for a lock or later. -/
def isCancelled : ClientError → Bool
  | .execution _ _ .cancelled => true
  | .lockCancelled _ => true
  | _ => false

/-- Whether the failure can be passed over by a caller who removes things: there was nothing to
remove. -/
def isSkippable (e : ClientError) : Bool :=
  e.isNotFound || e.diagnosed (mentions devicelessWordings)

end ClientError

end LvmControl
