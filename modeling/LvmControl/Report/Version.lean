import LvmControl.Report.Row

/-!
# The version of the tools

The tools answer the question for their version with lines of a key, a colon and a value.

## Main definitions

* `Version`: the versions of the tools, of the library they use and of the driver.
* `Report.version`: reads the answer. Lines without a colon and unknown keys are passed over, of
  several lines with one key the last counts, and the version of the tools must be there.
-/

namespace LvmControl

/-- The versions that the tools report. -/
structure Version where
  tools : String := ""
  library : String := ""
  driver : String := ""
deriving DecidableEq, Repr

/-- Takes one line of the answer into account. -/
def Version.addLine (v : Version) (line : List Char) : Version :=
  match Text.cut ':' line with
  | none => v
  | some (key, value) =>
    let key := String.ofList (Text.trim key)
    let value := String.ofList (Text.trim value)
    if key = "LVM version" then { v with tools := value }
    else if key = "Library version" then { v with library := value }
    else if key = "Driver version" then { v with driver := value }
    else v

namespace Report

/-- The versions in the answer of the tools. -/
def version (output : String) : Except ReportError Version :=
  let v := (Text.lines output.toList).foldl Version.addLine {}
  if v.tools = "" then .error .noVersion else .ok v

end Report

end LvmControl
