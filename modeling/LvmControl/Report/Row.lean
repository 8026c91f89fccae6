import LvmControl.Json.Value
import LvmControl.Name
import LvmControl.Number.Whole
import LvmControl.Report.Column
import LvmControl.Text.Split

/-!
# Rows of reports

A report is taken whole or not at all: whatever is wrong anywhere in it, the first fault in the
order of the text is the answer.

## Main definitions

* `ReportError`: why the output of a tool is refused.
* `Shape`, `readShape`: records of named parts, read from a JSON object or array.
* `readCount`, `readTags`, `readActivity`, `readOptionalGroup`: the meaning of cells.
* `Content.fault?`: what is wrong with the text of a cell.
* `readRow`: the cells of a row by column name.

## Design notes

**Two forms of a record.** A record is written as an object, whose members may come in any order and
among others that are of no interest, or as an array of its parts in the order of its shape. An
object may not repeat a part and must have the required ones; an array may stop early if nothing
required is missing, and may not go on.

**Cells are checked where they stand, and read once the row is complete.** The check
(`Content.fault?`) and the reading are by the same functions, so a row whose cells pass the check
can be read.
-/

namespace LvmControl

/-- Why the output of a tool is refused. -/
inductive ReportError
  /-- The text is no JSON, or not of the form of a report. -/
  | malformed
  /-- A cell does not hold a number. -/
  | number (text : String)
  /-- A cell does not hold a name. -/
  | name (error : NameError)
  /-- A record lacks a required part. -/
  | missing (part : String)
  /-- A partition number is none. -/
  | partition (text : String)
  /-- No version of the tools is given. -/
  | noVersion
  /-- Any other cause, in words. -/
  | other (text : String)
deriving DecidableEq, Repr

/-- The wording of a refusal. -/
def ReportError.message : ReportError → String
  | .malformed => "malformed report"
  | .number text => "invalid number '" ++ text ++ "'"
  | .name error => error.message
  | .missing part => "missing field \x60" ++ part ++ "\x60"
  | .partition text => "invalid PART '" ++ text ++ "'"
  | .noVersion => "missing 'LVM version' in version output"
  | .other text => text

namespace Report

/-! ## Records -/

/-- A part of a record: its name, whether it is required, and how it is read. -/
structure Part (α : Type) where
  name : String
  required : Bool
  read : Json → Except ReportError α

/-- The parts of a record, in order. -/
abbrev Shape (α : Type) := List (Part α)

/-- What is missing from a record whose parts found so far are given. -/
def missing? {α : Type} (shape : Shape α) (found : List (String × α)) : Option String :=
  (shape.find? fun p => p.required && (found.lookup p.name).isNone).map Part.name

/-- Reads a record from the members of an object, given the parts found so far. -/
def readMembers {α : Type} (shape : Shape α) (found : List (String × α)) :
    List (Option String × Json) → Except ReportError (List (String × α))
  | [] =>
    match missing? shape found with
    | some part => .error (.missing part)
    | none => .ok found
  | (none, _) :: _ => .error .malformed
  | (some key, value) :: rest =>
    match shape.find? fun p => p.name = key with
    | none => readMembers shape found rest
    | some part =>
      if (found.lookup key).isSome then .error .malformed
      else (part.read value).bind fun v => readMembers shape (found ++ [(key, v)]) rest

/-- Reads a record from the items of an array. -/
def readItems {α : Type} : Shape α → List Json → Except ReportError (List (String × α))
  | [], [] => .ok []
  | [], _ :: _ => .error .malformed
  | part :: shape, [] => if part.required then .error .malformed else readItems shape []
  | part :: shape, value :: rest =>
    (part.read value).bind fun v => (readItems shape rest).map fun found => (part.name, v) :: found

/-- Reads a record: its parts by name. -/
def readShape {α : Type} (shape : Shape α) : Json → Except ReportError (List (String × α))
  | .object members => readMembers shape [] members
  | .array items => readItems shape items
  | _ => .error .malformed

/-- Reads an array of which every item is read the same way. -/
def readArray {α : Type} (read : Json → Except ReportError α) :
    Json → Except ReportError (List α)
  | .array items => items.mapM read
  | _ => .error .malformed

/-! ## Cells -/

/-- The number in a cell; a blank cell is zero. -/
def readCount (cell : String) : Except ReportError Nat :=
  let text := Text.trim cell.toList
  if text.isEmpty then .ok 0
  else
    match Number.readBelow? Number.wordBound text with
    | some n => .ok n
    | none => .error (.number (String.ofList text))

/-- The tags in a cell: what stands between commas, without blanks around it, where anything
does. -/
def readTags (cell : String) : List String :=
  ((Text.pieces ',' cell.toList).map Text.trim |>.filter fun t => !t.isEmpty).map String.ofList

/-- Whether a cell says that a volume is active. -/
def readActivity (cell : String) : Bool := Text.trim cell.toList = "active".toList

/-- The volume group named in a cell. -/
def readGroup (cell : String) : Except ReportError VolumeGroupName :=
  (VolumeGroupName.parse cell).mapError .name

/-- The logical volume named in a cell. -/
def readVolume (cell : String) : Except ReportError LogicalVolumeName :=
  (LogicalVolumeName.parse cell).mapError .name

/-- The device named in a cell. -/
def readDevice (cell : String) : Except ReportError PhysicalVolumeName :=
  (PhysicalVolumeName.parse cell).mapError .name

/-- The volume group named in a cell that may be empty. -/
def readOptionalGroup (cell : String) : Except ReportError (Option VolumeGroupName) :=
  if cell = "" then .ok none else (readGroup cell).map some

/-- The error of a reading that failed. -/
def faultOf {α : Type} : Except ReportError α → Option ReportError
  | .ok _ => none
  | .error e => some e

/-- What is wrong with the text of a cell. -/
def Content.fault? (cell : String) : Content → Option ReportError
  | .text => none
  | .count => faultOf (readCount cell)
  | .tags => none
  | .activity => none
  | .groupName => faultOf (readGroup cell)
  | .volumeName => faultOf (readVolume cell)
  | .devicePath => faultOf (readDevice cell)
  | .optionalGroup => faultOf (readOptionalGroup cell)

/-- Reads a cell: a string whose text passes the check of its column. -/
def Column.readCell (c : Column) : Json → Except ReportError String
  | .string (some cell) =>
    match c.content.fault? cell with
    | none => .ok cell
    | some e => .error e
  | _ => .error .malformed

/-- The columns of a report as the parts of its rows. -/
def shapeOf (columns : List Column) : Shape String :=
  columns.map fun c => ⟨c.name, c.required, c.readCell⟩

/-- The cells of a row by column name. -/
abbrev Cells := List (String × String)

/-- Reads a row. -/
def readRow (columns : List Column) : Json → Except ReportError Cells :=
  readShape (shapeOf columns)

/-- The text in a column, the empty text where the row has none. -/
def Cells.text (cells : Cells) (column : String) : String := (cells.lookup column).getD ""

end Report

end LvmControl
