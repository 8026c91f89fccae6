import LvmControl.Request.Setting

/-!
# Commands

The commands that can be requested, and which fields of a request each of them takes.

## Main definitions

* `Command`: the commands. Four of them are the same subcommand of the tool, which lists, checks,
  updates or modifies a devices file depending on its flags.
* `Command.subcommand`: what the tool calls it.
* `Command.ownFields`: the fields it takes besides the common ones.
* `Command.takes`, `Command.accepts`: whether it takes a field, and a setting.
* `Request.Fits`: a request holds nothing in fields that the command does not take.

## Main statements

* `Request.Fits.apply`: an accepted setting keeps a request fitting.
-/

namespace LvmControl

/-- The commands that can be requested. -/
inductive Command
  | version
  | vgs
  | vgcreate
  | vgremove
  | vgextend
  | vgreduce
  | vgrename
  | vgchange
  | lvs
  | lvcreate
  | lvremove
  | lvextend
  | lvresize
  | lvreduce
  | lvrename
  | lvchange
  | pvs
  | pvcreate
  | pvremove
  | pvresize
  | pvchange
  | pvmove
  | devicesList
  | devicesCheck
  | devicesUpdate
  | devicesModify
deriving DecidableEq, Repr

namespace Command

/-- What the tool calls the command. -/
def subcommand : Command → String
  | .version => "version"
  | .vgs => "vgs"
  | .vgcreate => "vgcreate"
  | .vgremove => "vgremove"
  | .vgextend => "vgextend"
  | .vgreduce => "vgreduce"
  | .vgrename => "vgrename"
  | .vgchange => "vgchange"
  | .lvs => "lvs"
  | .lvcreate => "lvcreate"
  | .lvremove => "lvremove"
  | .lvextend => "lvextend"
  | .lvresize => "lvresize"
  | .lvreduce => "lvreduce"
  | .lvrename => "lvrename"
  | .lvchange => "lvchange"
  | .pvs => "pvs"
  | .pvcreate => "pvcreate"
  | .pvremove => "pvremove"
  | .pvresize => "pvresize"
  | .pvchange => "pvchange"
  | .pvmove => "pvmove"
  | .devicesList => "lvmdevices"
  | .devicesCheck => "lvmdevices"
  | .devicesUpdate => "lvmdevices"
  | .devicesModify => "lvmdevices"

/-- The fields that a command takes besides the common ones. -/
def ownFields : Command → List Field
  | .version => []
  | .vgs => [.volumeGroup, .select]
  | .vgcreate => [.volumeGroup, .physicalVolumes, .extentSize, .tags, .force]
  | .vgremove => [.volumeGroup, .force]
  | .vgextend => [.volumeGroup, .physicalVolumes, .force]
  | .vgreduce => [.volumeGroup, .physicalVolumes, .removeMissing, .force]
  | .vgrename => [.volumeGroup, .newVolumeGroup]
  | .vgchange => [.volumeGroup, .activate, .tags, .delTags]
  | .lvs => [.volumeGroup, .logicalVolume, .select]
  | .lvcreate =>
    [.volumeGroup, .logicalVolume, .size, .extents, .tags, .activate, .zero, .physicalVolumes]
  | .lvremove => [.volumeGroup, .logicalVolume, .force]
  | .lvextend => [.volumeGroup, .logicalVolume, .size, .extents, .resizeFs, .physicalVolumes]
  | .lvresize => [.volumeGroup, .logicalVolume, .size, .extents, .resizeFs, .physicalVolumes]
  | .lvreduce => [.volumeGroup, .logicalVolume, .size, .extents, .resizeFs, .force]
  | .lvrename => [.volumeGroup, .logicalVolume, .newLogicalVolume]
  | .lvchange => [.volumeGroup, .logicalVolume, .activate, .tags, .delTags]
  | .pvs => [.physicalVolumes, .select]
  | .pvcreate => [.physicalVolumes, .force]
  | .pvremove => [.physicalVolumes, .force]
  | .pvresize => [.physicalVolumes, .deviceSize]
  | .pvchange => [.physicalVolumes, .allocatable, .tags, .delTags]
  | .pvmove => [.physicalVolumes, .logicalVolume]
  | .devicesList => []
  | .devicesCheck => []
  | .devicesUpdate => []
  | .devicesModify => [.addDevice, .delDevice, .addPvid, .delPvid]

/-- Whether a command takes a field. -/
def takes (c : Command) (f : Field) : Bool := c.ownFields.contains f || Field.common.contains f

/-- Whether a command takes every field that a setting writes. -/
def accepts (c : Command) (s : Setting) : Bool := s.fields.all c.takes

end Command

namespace Request

/-- The request holds nothing in the fields that the command does not take. -/
def Fits (r : Request) (c : Command) : Prop :=
  ∀ f, c.takes f = false → r.get f = ({} : Request).get f

/-- The empty request fits every command. -/
theorem fits_empty (c : Command) : Fits {} c := fun _ _ => rfl

/-- An accepted setting keeps a request fitting. -/
theorem Fits.apply {r : Request} {c : Command} {s : Setting} (h : r.Fits c)
    (hs : c.accepts s = true) : (s.apply r).Fits c := by
  intro f hf
  rw [Setting.get_apply_of_not_mem ?_ r, h f hf]
  intro hmem
  simp [List.all_eq_true.mp hs f hmem] at hf

end Request

end LvmControl
