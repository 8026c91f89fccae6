/-!
# Columns of reports

A report is asked for column by column and answered with rows that hold those columns. Which
columns a report has, what each of them holds and which cannot be missing is one table, used both
to ask and to read.

## Main definitions

* `Content`: what the text in a column stands for.
* `Column`: a column's name and content, and whether a row must have it.
* `volumeGroupColumns`, `logicalVolumeColumns`, `physicalVolumeColumns`: the columns asked for, in
  the order in which they are asked for.
-/

namespace LvmControl.Report

/-- What the text in a column stands for. -/
inductive Content
  /-- Itself. -/
  | text
  /-- A number; blank text is zero. -/
  | count
  /-- Tags with commas between them. -/
  | tags
  /-- Whether a volume is active. -/
  | activity
  /-- The name of a volume group. -/
  | groupName
  /-- The name of a logical volume. -/
  | volumeName
  /-- The path of a device. -/
  | devicePath
  /-- The name of a volume group, or nothing. -/
  | optionalGroup
deriving DecidableEq, Repr

/-- A column of a report. -/
structure Column where
  name : String
  content : Content
  /-- Whether a row without it is refused. -/
  required : Bool := false
deriving DecidableEq, Repr

/-- The columns of the report on volume groups. -/
def volumeGroupColumns : List Column :=
  [⟨"vg_name", .groupName, true⟩, ⟨"vg_uuid", .text, false⟩, ⟨"vg_attr", .text, false⟩,
   ⟨"vg_size", .count, false⟩, ⟨"vg_free", .count, false⟩, ⟨"vg_extent_size", .count, false⟩,
   ⟨"vg_extent_count", .count, false⟩, ⟨"vg_free_count", .count, false⟩,
   ⟨"pv_count", .count, false⟩, ⟨"lv_count", .count, false⟩, ⟨"vg_tags", .tags, false⟩]

/-- The columns of the report on logical volumes. -/
def logicalVolumeColumns : List Column :=
  [⟨"lv_name", .volumeName, true⟩, ⟨"vg_name", .groupName, true⟩, ⟨"lv_uuid", .text, false⟩,
   ⟨"lv_attr", .text, false⟩, ⟨"lv_size", .count, false⟩, ⟨"lv_path", .text, false⟩,
   ⟨"lv_active", .activity, false⟩, ⟨"lv_tags", .tags, false⟩]

/-- The columns of the report on physical volumes. -/
def physicalVolumeColumns : List Column :=
  [⟨"pv_name", .devicePath, true⟩, ⟨"vg_name", .optionalGroup, false⟩, ⟨"pv_uuid", .text, false⟩,
   ⟨"pv_attr", .text, false⟩, ⟨"pv_fmt", .text, false⟩, ⟨"pv_size", .count, false⟩,
   ⟨"pv_free", .count, false⟩, ⟨"pv_tags", .tags, false⟩]

end LvmControl.Report
