import LvmControl.Json.Reader
import LvmControl.Report.Row

/-!
# Reports on volumes

What the reports on volume groups, logical volumes and physical volumes say.

## Main definitions

* `VolumeGroup`, `LogicalVolume`, `PhysicalVolume`: one row of each report.
* `Section`: the rows that one section of a document holds, of all three kinds.
* `sectionsOf`: the sections of a JSON document.
* `volumeGroups`, `logicalVolumes`, `physicalVolumes`: the rows of one kind in the output of a tool.

## Design notes

**Every section is read, whatever is asked for.** A tool that prints a row which cannot be read
prints something this library does not understand, and no part of it is believed; this holds also
when the row is of a kind that was not asked for.
-/

namespace LvmControl

/-- A volume group as a report shows it. -/
structure VolumeGroup where
  name : VolumeGroupName
  uuid : String
  attr : String
  size : Nat
  free : Nat
  extentSize : Nat
  extentCount : Nat
  freeCount : Nat
  deviceCount : Nat
  volumeCount : Nat
  tags : List String
deriving DecidableEq

/-- A logical volume as a report shows it. -/
structure LogicalVolume where
  name : LogicalVolumeName
  group : VolumeGroupName
  uuid : String
  attr : String
  size : Nat
  path : String
  active : Bool
  tags : List String
deriving DecidableEq

/-- A physical volume as a report shows it. -/
structure PhysicalVolume where
  name : PhysicalVolumeName
  /-- The group it belongs to, if any. -/
  group : Option VolumeGroupName
  uuid : String
  attr : String
  format : String
  size : Nat
  free : Nat
  tags : List String
deriving DecidableEq

/-- The rows of one section of a report. -/
structure Section where
  groups : List VolumeGroup
  volumes : List LogicalVolume
  devices : List PhysicalVolume
deriving DecidableEq

namespace Report

/-- A row as a volume group. -/
def volumeGroupOf (cells : Cells) : Except ReportError VolumeGroup := do
  return {
    name := ← readGroup (cells.text "vg_name")
    uuid := cells.text "vg_uuid"
    attr := cells.text "vg_attr"
    size := ← readCount (cells.text "vg_size")
    free := ← readCount (cells.text "vg_free")
    extentSize := ← readCount (cells.text "vg_extent_size")
    extentCount := ← readCount (cells.text "vg_extent_count")
    freeCount := ← readCount (cells.text "vg_free_count")
    deviceCount := ← readCount (cells.text "pv_count")
    volumeCount := ← readCount (cells.text "lv_count")
    tags := readTags (cells.text "vg_tags") }

/-- A row as a logical volume. -/
def logicalVolumeOf (cells : Cells) : Except ReportError LogicalVolume := do
  return {
    name := ← readVolume (cells.text "lv_name")
    group := ← readGroup (cells.text "vg_name")
    uuid := cells.text "lv_uuid"
    attr := cells.text "lv_attr"
    size := ← readCount (cells.text "lv_size")
    path := cells.text "lv_path"
    active := readActivity (cells.text "lv_active")
    tags := readTags (cells.text "lv_tags") }

/-- A row as a physical volume. -/
def physicalVolumeOf (cells : Cells) : Except ReportError PhysicalVolume := do
  return {
    name := ← readDevice (cells.text "pv_name")
    group := ← readOptionalGroup (cells.text "vg_name")
    uuid := cells.text "pv_uuid"
    attr := cells.text "pv_attr"
    format := cells.text "pv_fmt"
    size := ← readCount (cells.text "pv_size")
    free := ← readCount (cells.text "pv_free")
    tags := readTags (cells.text "pv_tags") }

/-- Reads a row as a volume group. -/
def readVolumeGroup (j : Json) : Except ReportError VolumeGroup :=
  (readRow volumeGroupColumns j).bind volumeGroupOf

/-- Reads a row as a logical volume. -/
def readLogicalVolume (j : Json) : Except ReportError LogicalVolume :=
  (readRow logicalVolumeColumns j).bind logicalVolumeOf

/-- Reads a row as a physical volume. -/
def readPhysicalVolume (j : Json) : Except ReportError PhysicalVolume :=
  (readRow physicalVolumeColumns j).bind physicalVolumeOf

/-- A list of rows of one kind. -/
inductive Rows
  | groups (rows : List VolumeGroup)
  | volumes (rows : List LogicalVolume)
  | devices (rows : List PhysicalVolume)

/-- The parts of a section: three lists of rows, each of which may be missing. -/
def sectionShape : Shape Rows :=
  [⟨"vg", false, fun j => (readArray readVolumeGroup j).map .groups⟩,
   ⟨"lv", false, fun j => (readArray readLogicalVolume j).map .volumes⟩,
   ⟨"pv", false, fun j => (readArray readPhysicalVolume j).map .devices⟩]

/-- The lists of rows that were found, as a section. -/
def sectionOf (found : List (String × Rows)) : Section where
  groups := match found.lookup "vg" with
    | some (.groups rows) => rows
    | _ => []
  volumes := match found.lookup "lv" with
    | some (.volumes rows) => rows
    | _ => []
  devices := match found.lookup "pv" with
    | some (.devices rows) => rows
    | _ => []

/-- Reads a section. -/
def readSection (j : Json) : Except ReportError Section :=
  (readShape sectionShape j).map sectionOf

/-- The only part of a report: its sections. -/
def reportShape : Shape (List Section) := [⟨"report", true, readArray readSection⟩]

/-- The sections of a report. -/
def sectionsOf (j : Json) : Except ReportError (List Section) :=
  (readShape reportShape j).map fun found => (found.lookup "report").getD []

/-- The sections in the output of a tool, which is one report and nothing after it. -/
def sections (output : String) : Except ReportError (List Section) :=
  let document := Json.read output
  (sectionsOf document.value).bind fun s => if document.complete then .ok s else .error .malformed

/-- The volume groups in the output of a tool. -/
def volumeGroups (output : String) : Except ReportError (List VolumeGroup) :=
  (sections output).map fun s => s.flatMap Section.groups

/-- The logical volumes in the output of a tool. -/
def logicalVolumes (output : String) : Except ReportError (List LogicalVolume) :=
  (sections output).map fun s => s.flatMap Section.volumes

/-- The physical volumes in the output of a tool. -/
def physicalVolumes (output : String) : Except ReportError (List PhysicalVolume) :=
  (sections output).map fun s => s.flatMap Section.devices

end Report

end LvmControl
