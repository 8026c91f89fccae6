import LvmControl.Arguments
import LvmControl.Report.Column
import LvmControl.Request.Requirement

/-!
# Requests as command lines

How the fields of a request are written as arguments, and in which order each command writes them.

## Main definitions

* `Request.fieldEdits`: how a field is written.
* `Piece`: one part of a command line; `Piece.edits` says how it is written.
* `Command.layout`: the pieces of each command, in order.
* `Command.render`: a request for a command written into an argument list.
* `OptionList.arguments`: an option list as arguments, or what is wrong with it.
* `Setting.render`: a single setting written into an argument list.

## Design notes

**Flags are replaced, names of a rename are not.** Writing a field puts its token in the place of
every earlier one with the same key, so that rendering twice changes nothing. The two names of a
rename could be equal to names already there and are both needed, so they are only ever put at the
end.

**Tag lists are blocks.** The tags to add are one block of tokens with the key `--addtag`, and the
whole block takes the place of every such token.
-/

namespace LvmControl

/-- The word for a choice on a command line. -/
def choiceWord (on : Bool) : String := if on then "y" else "n"

/-- The change that writes `flag=value`. -/
def Edit.flag (flag value : String) : Edit := .put (flag ++ "=" ++ value)

/-- The changes that write a value that is there and nothing for one that is not. -/
def Edit.given {α : Type} (v : Option α) (edit : α → Edit) : List Edit := v.toList.map edit

/-- The change that writes a text that is there and not empty. -/
def Edit.nonempty (v : Option String) (flag : String) : List Edit :=
  Edit.given (v.filter (· ≠ "")) (Edit.flag flag)

/-- The change that writes a flag that is on. -/
def Edit.switch (on : Bool) (flag : String) : List Edit := if on then [.put flag] else []

namespace Request

/-- How a field is written. The new names of a rename are not written this way. -/
def fieldEdits (r : Request) : Field → List Edit
  | .volumeGroup => Edit.given r.volumeGroup fun name => .put name.text
  | .newVolumeGroup => []
  | .logicalVolume => Edit.given r.logicalVolume fun name => .flag "--name" name.text
  | .newLogicalVolume => []
  | .physicalVolumes => r.physicalVolumes.map fun name => .put name.text
  | .size => Edit.given r.size fun s => .flag "--size" s.text
  | .extents => Edit.given r.extents fun e => .flag "--extents" e.text
  | .extentSize => Edit.given r.extentSize fun s => .flag "--physicalextentsize" s.text
  | .deviceSize => Edit.given r.deviceSize fun s => .flag "--setphysicalvolumesize" s.text
  | .tags => [.replace "--addtag" (r.tags.map fun t => "--addtag=" ++ t)]
  | .delTags => [.replace "--deltag" (r.delTags.map fun t => "--deltag=" ++ t)]
  | .activate => Edit.given r.activate fun a => .flag "--activate" a.word
  | .force => Edit.switch r.force "--force"
  | .removeMissing => Edit.switch r.removeMissing "--removemissing"
  | .resizeFs => Edit.switch r.resizeFs "--resizefs"
  | .zero => Edit.given r.zero fun on => .flag "--zero" (choiceWord on)
  | .allocatable => Edit.given r.allocatable fun on => .flag "--allocatable" (choiceWord on)
  | .select => Edit.nonempty r.select "--select"
  | .addDevice => Edit.given r.addDevice fun name => .flag "--adddev" name.text
  | .delDevice => Edit.given r.delDevice fun name => .flag "--deldev" name.text
  | .addPvid => Edit.given r.addPvid fun pvid => .flag "--addpvid" pvid
  | .delPvid => Edit.given r.delPvid fun pvid => .flag "--delpvid" pvid
  | .devices =>
    Edit.given (r.common.devices.filter fun paths => !paths.isEmpty) fun paths =>
      .flag "--devices" (Text.join "," paths)
  | .devicesFile => Edit.nonempty r.common.devicesFile "--devicesfile"
  | .profile => Edit.nonempty r.common.profile "--profile"
  | .verbose => Edit.switch r.common.verbose "--verbose"
  | .requestConfirm => Edit.switch (!r.common.requestConfirm) "--yes"

/-- The names that a field holds, as texts. -/
def names (r : Request) : Field → List String
  | .volumeGroup => r.volumeGroup.toList.map VolumeGroupName.text
  | .newVolumeGroup => r.newVolumeGroup.toList.map VolumeGroupName.text
  | .logicalVolume => r.logicalVolume.toList.map LogicalVolumeName.text
  | .newLogicalVolume => r.newLogicalVolume.toList.map LogicalVolumeName.text
  | .physicalVolumes => r.physicalVolumes.map PhysicalVolumeName.text
  | _ => []

/-- What a command on a logical volume addresses: the volume in its group, or the group when no
volume is named. Without a group it addresses nothing. -/
def target? (r : Request) : Option String :=
  r.volumeGroup.map fun group =>
    match r.logicalVolume with
    | some volume => volume.qualified group
    | none => group.text

end Request

/-- One part of a command line. -/
inductive Piece
  /-- A field as it is written. -/
  | field (f : Field)
  /-- A fixed flag. -/
  | flag (token : String)
  /-- What a logical volume command addresses. -/
  | target
  /-- The names that a field holds, put at the end whatever is there. -/
  | positional (f : Field)
deriving DecidableEq, Repr

/-- How a part of a command line is written. -/
def Piece.edits (r : Request) : Piece → List Edit
  | .field f => r.fieldEdits f
  | .flag token => [.put token]
  | .target => Edit.given r.target? .put
  | .positional f => (r.names f).map .append

/-- The flags that ask for a report with the given columns, sizes being plain counts of bytes. -/
def reportPieces (columns : List Report.Column) : List Piece :=
  [.flag "--reportformat=json", .flag "--units=b", .flag "--nosuffix",
   .flag ("--options=" ++ Text.join "," (columns.map Report.Column.name))]

/-- The common options, which end every command line. -/
def commonPieces : List Piece := Field.common.map .field

/-- What a command writes ahead of the common options, in order. -/
def Command.ownLayout : Command → List Piece
  | .version => []
  | .vgs => reportPieces Report.volumeGroupColumns ++ [.field .select, .field .volumeGroup]
  | .vgcreate =>
    [.field .volumeGroup, .field .physicalVolumes, .field .extentSize, .field .tags,
     .field .force]
  | .vgremove => [.field .volumeGroup, .field .force]
  | .vgextend => [.field .volumeGroup, .field .physicalVolumes, .field .force]
  | .vgreduce =>
    [.field .removeMissing, .field .volumeGroup, .field .physicalVolumes, .field .force]
  | .vgrename => [.positional .volumeGroup, .positional .newVolumeGroup]
  | .vgchange => [.field .activate, .field .tags, .field .delTags, .field .volumeGroup]
  | .lvs => reportPieces Report.logicalVolumeColumns ++ [.field .select, .target]
  | .lvcreate =>
    [.field .logicalVolume, .field .size, .field .extents, .field .tags, .field .activate,
     .field .zero, .field .volumeGroup, .field .physicalVolumes]
  | .lvremove => [.target, .field .force]
  | .lvextend =>
    [.field .size, .field .extents, .field .resizeFs, .target, .field .physicalVolumes]
  | .lvresize =>
    [.field .size, .field .extents, .field .resizeFs, .target, .field .physicalVolumes]
  | .lvreduce => [.field .size, .field .extents, .field .resizeFs, .field .force, .target]
  | .lvrename =>
    [.positional .volumeGroup, .positional .logicalVolume, .positional .newLogicalVolume]
  | .lvchange => [.field .activate, .field .tags, .field .delTags, .target]
  | .pvs => reportPieces Report.physicalVolumeColumns ++ [.field .select, .field .physicalVolumes]
  | .pvcreate => [.field .physicalVolumes, .field .force]
  | .pvremove => [.field .physicalVolumes, .field .force]
  | .pvresize => [.field .deviceSize, .field .physicalVolumes]
  | .pvchange =>
    [.field .allocatable, .field .tags, .field .delTags, .field .physicalVolumes]
  | .pvmove => [.field .logicalVolume, .field .physicalVolumes]
  | .devicesList => []
  | .devicesCheck => [.flag "--check"]
  | .devicesUpdate => [.flag "--update"]
  | .devicesModify => [.field .addDevice, .field .delDevice, .field .addPvid, .field .delPvid]

/-- The parts of a command's command line, in order. -/
def Command.layout (c : Command) : List Piece := c.ownLayout ++ commonPieces

/-- The changes that write a request for a command. -/
def Command.edits (c : Command) (r : Request) : List Edit := c.layout.flatMap (Piece.edits r)

/-- A request for a command written into an argument list. -/
def Command.render (c : Command) (r : Request) (args : Arguments) : Arguments :=
  args.applyAll (c.edits r)

/-- An option list as arguments, completed by a default volume group and checked first. -/
def OptionList.arguments {c : Command} (l : OptionList c) (default : Option VolumeGroupName) :
    Except ValidationError Arguments :=
  match c.fault? (l.completed default) with
  | some e => .error e
  | none => .ok (c.render (l.completed default) .empty)

/-- The arguments are a function of the completed request. -/
theorem OptionList.arguments_congr {c : Command} {l m : OptionList c}
    {d e : Option VolumeGroupName} (h : l.completed d = m.completed e) :
    l.arguments d = m.arguments e := by
  rw [arguments, arguments, h]

/-- The changes that write a setting on its own. -/
def Setting.edits (s : Setting) : List Edit := s.fields.flatMap (s.apply {}).fieldEdits

/-- A setting written into an argument list. -/
def Setting.render (s : Setting) (args : Arguments) : Arguments := args.applyAll s.edits

/-- Whether a setting is written on its own. The names that are only written together with others
are not. -/
def Setting.isWritten : Setting → Bool
  | .newVolumeGroup _ => false
  | .logicalVolume _ => false
  | .newLogicalVolume _ => false
  | _ => true

end LvmControl
