import LvmControl.Name
import LvmControl.Quantity.Extents
import LvmControl.Quantity.Size

/-!
# Requests and the settings that make them

A request for a command is never filled in field by field. A caller gives settings, each a value
with a meaning of its own (the name of a group, a size, a tag list), and every setting writes the
fields it stands for. What a command can be asked is therefore one record, `Request`, whatever the
command; which of its fields a command takes is a table of `Request.Command`.

## Main definitions

* `Field`: the fields of a request by name, and `Field.Value`, what each holds.
* `CommonOptions`, `Request`: the fields every command takes, and all fields.
* `Request.get`: a request as a function of its fields.
* `Setting`: a value a caller can give; `Setting.fields` says which fields it writes and
  `Setting.apply` writes them.
* `Request.has`: whether a field holds something.

## Main statements

* `Setting.get_apply_of_not_mem`: a setting leaves every other field as it was.
* `Setting.get_apply_of_mem`: what a setting writes does not depend on what was there.

## Design notes

**Absent and empty are two things.** A field that can be left out holds an `Option`, so that a
profile given as the empty text is still a profile that was given; only the written command line
makes no difference between the two.
-/

namespace LvmControl

/-- Which hosts and when a volume may be activated. -/
inductive Activation
  | yes
  | no
  | auto
  | exclusive
  | local
deriving DecidableEq, Repr

/-- The word for it on a command line. -/
def Activation.word : Activation → String
  | .yes => "y"
  | .no => "n"
  | .auto => "ay"
  | .exclusive => "ey"
  | .local => "ly"

/-- The fields of a request. -/
inductive Field
  | volumeGroup
  | newVolumeGroup
  | logicalVolume
  | newLogicalVolume
  | physicalVolumes
  | size
  | extents
  | extentSize
  | deviceSize
  | tags
  | delTags
  | activate
  | force
  | removeMissing
  | resizeFs
  | zero
  | allocatable
  | select
  | addDevice
  | delDevice
  | addPvid
  | delPvid
  | devices
  | devicesFile
  | profile
  | verbose
  | requestConfirm
deriving DecidableEq, Repr

namespace Field

/-- What a field is called when it is missing or in the way. -/
def label : Field → String
  | .volumeGroup => "VolumeGroupName"
  | .newVolumeGroup => "NewVolumeGroupName"
  | .logicalVolume => "LogicalVolumeName"
  | .newLogicalVolume => "NewLogicalVolumeName"
  | .physicalVolumes => "PhysicalVolumeNames"
  | .size => "Size"
  | .extents => "Extents"
  | .extentSize => "PhysicalExtentSize"
  | .deviceSize => "SetPhysicalVolumeSize"
  | .tags => "Tags"
  | .delTags => "DelTags"
  | .activate => "Activate"
  | .force => "Force"
  | .removeMissing => "RemoveMissing"
  | .resizeFs => "ResizeFs"
  | .zero => "Zero"
  | .allocatable => "Allocatable"
  | .select => "Select"
  | .addDevice => "AddDevice"
  | .delDevice => "DelDevice"
  | .addPvid => "AddPvid"
  | .delPvid => "DelPvid"
  | .devices => "Devices"
  | .devicesFile => "DevicesFile"
  | .profile => "Profile"
  | .verbose => "Verbose"
  | .requestConfirm => "RequestConfirm"

/-- What a field holds. -/
abbrev Value : Field → Type
  | .volumeGroup => Option VolumeGroupName
  | .newVolumeGroup => Option VolumeGroupName
  | .logicalVolume => Option LogicalVolumeName
  | .newLogicalVolume => Option LogicalVolumeName
  | .physicalVolumes => List PhysicalVolumeName
  | .size => Option Size
  | .extents => Option Extents
  | .extentSize => Option Size
  | .deviceSize => Option Size
  | .tags => List String
  | .delTags => List String
  | .activate => Option Activation
  | .force => Bool
  | .removeMissing => Bool
  | .resizeFs => Bool
  | .zero => Option Bool
  | .allocatable => Option Bool
  | .select => Option String
  | .addDevice => Option PhysicalVolumeName
  | .delDevice => Option PhysicalVolumeName
  | .addPvid => Option String
  | .delPvid => Option String
  | .devices => Option (List String)
  | .devicesFile => Option String
  | .profile => Option String
  | .verbose => Bool
  | .requestConfirm => Bool

/-- The fields that every command takes. -/
def common : List Field := [devices, devicesFile, profile, verbose, requestConfirm]

end Field

/-- What every command can be asked. -/
structure CommonOptions where
  /-- The only devices the command may use. -/
  devices : Option (List String) := none
  /-- The devices file to use in place of the system's. -/
  devicesFile : Option String := none
  /-- The command profile. -/
  profile : Option String := none
  verbose : Bool := false
  /-- Whether the tool may ask for confirmation. It is told not to unless this is set, since
  nobody would answer. -/
  requestConfirm : Bool := false
deriving DecidableEq

/-- What a command can be asked, whatever the command. -/
structure Request where
  volumeGroup : Option VolumeGroupName := none
  /-- The name that a group is given. -/
  newVolumeGroup : Option VolumeGroupName := none
  logicalVolume : Option LogicalVolumeName := none
  /-- The name that a logical volume is given. -/
  newLogicalVolume : Option LogicalVolumeName := none
  physicalVolumes : List PhysicalVolumeName := []
  size : Option Size := none
  extents : Option Extents := none
  /-- The extent size of a new group. -/
  extentSize : Option Size := none
  /-- The size to record for a device in place of its own. -/
  deviceSize : Option Size := none
  /-- The tags to add. -/
  tags : List String := []
  /-- The tags to remove. -/
  delTags : List String := []
  activate : Option Activation := none
  force : Bool := false
  removeMissing : Bool := false
  resizeFs : Bool := false
  /-- Whether the start of a new volume is zeroed. -/
  zero : Option Bool := none
  /-- Whether a device may hold new extents. -/
  allocatable : Option Bool := none
  /-- The criteria that rows of a report must meet. -/
  select : Option String := none
  addDevice : Option PhysicalVolumeName := none
  delDevice : Option PhysicalVolumeName := none
  addPvid : Option String := none
  delPvid : Option String := none
  common : CommonOptions := {}
deriving DecidableEq

namespace Request

/-- The value of a field. -/
def get (r : Request) : (f : Field) → f.Value
  | .volumeGroup => r.volumeGroup
  | .newVolumeGroup => r.newVolumeGroup
  | .logicalVolume => r.logicalVolume
  | .newLogicalVolume => r.newLogicalVolume
  | .physicalVolumes => r.physicalVolumes
  | .size => r.size
  | .extents => r.extents
  | .extentSize => r.extentSize
  | .deviceSize => r.deviceSize
  | .tags => r.tags
  | .delTags => r.delTags
  | .activate => r.activate
  | .force => r.force
  | .removeMissing => r.removeMissing
  | .resizeFs => r.resizeFs
  | .zero => r.zero
  | .allocatable => r.allocatable
  | .select => r.select
  | .addDevice => r.addDevice
  | .delDevice => r.delDevice
  | .addPvid => r.addPvid
  | .delPvid => r.delPvid
  | .devices => r.common.devices
  | .devicesFile => r.common.devicesFile
  | .profile => r.common.profile
  | .verbose => r.common.verbose
  | .requestConfirm => r.common.requestConfirm

/-- The request with the given values. -/
def ofValues (v : (f : Field) → f.Value) : Request where
  volumeGroup := v .volumeGroup
  newVolumeGroup := v .newVolumeGroup
  logicalVolume := v .logicalVolume
  newLogicalVolume := v .newLogicalVolume
  physicalVolumes := v .physicalVolumes
  size := v .size
  extents := v .extents
  extentSize := v .extentSize
  deviceSize := v .deviceSize
  tags := v .tags
  delTags := v .delTags
  activate := v .activate
  force := v .force
  removeMissing := v .removeMissing
  resizeFs := v .resizeFs
  zero := v .zero
  allocatable := v .allocatable
  select := v .select
  addDevice := v .addDevice
  delDevice := v .delDevice
  addPvid := v .addPvid
  delPvid := v .delPvid
  common :=
    { devices := v .devices
      devicesFile := v .devicesFile
      profile := v .profile
      verbose := v .verbose
      requestConfirm := v .requestConfirm }

@[simp] theorem ofValues_get (r : Request) : ofValues r.get = r := rfl

/-- A request is what its fields hold. -/
theorem ext_get {r s : Request} (h : ∀ f, r.get f = s.get f) : r = s := by
  rw [← ofValues_get r, ← ofValues_get s, funext h]

/-- Whether a field holds something: a value, a non-empty list, or a flag that is set. -/
def has (r : Request) : Field → Bool
  | .volumeGroup => r.volumeGroup.isSome
  | .newVolumeGroup => r.newVolumeGroup.isSome
  | .logicalVolume => r.logicalVolume.isSome
  | .newLogicalVolume => r.newLogicalVolume.isSome
  | .physicalVolumes => !r.physicalVolumes.isEmpty
  | .size => r.size.isSome
  | .extents => r.extents.isSome
  | .extentSize => r.extentSize.isSome
  | .deviceSize => r.deviceSize.isSome
  | .tags => !r.tags.isEmpty
  | .delTags => !r.delTags.isEmpty
  | .activate => r.activate.isSome
  | .force => r.force
  | .removeMissing => r.removeMissing
  | .resizeFs => r.resizeFs
  | .zero => r.zero.isSome
  | .allocatable => r.allocatable.isSome
  | .select => r.select.isSome
  | .addDevice => r.addDevice.isSome
  | .delDevice => r.delDevice.isSome
  | .addPvid => r.addPvid.isSome
  | .delPvid => r.delPvid.isSome
  | .devices => r.common.devices.isSome
  | .devicesFile => r.common.devicesFile.isSome
  | .profile => r.common.profile.isSome
  | .verbose => r.common.verbose
  | .requestConfirm => r.common.requestConfirm

end Request

/-- A value that a caller can give. -/
inductive Setting
  | volumeGroup (name : VolumeGroupName)
  | newVolumeGroup (name : VolumeGroupName)
  | logicalVolume (name : LogicalVolumeName)
  | newLogicalVolume (name : LogicalVolumeName)
  | physicalVolumes (names : List PhysicalVolumeName)
  | size (size : Size)
  | extents (extents : Extents)
  | extentSize (size : Size)
  | deviceSize (size : Size)
  | tags (tags : List String)
  | delTags (tags : List String)
  | activate (state : Activation)
  | force (on : Bool)
  | removeMissing (on : Bool)
  | resizeFs (on : Bool)
  | zero (on : Bool)
  | allocatable (on : Bool)
  | select (criteria : String)
  | addDevice (path : PhysicalVolumeName)
  | delDevice (path : PhysicalVolumeName)
  | addPvid (pvid : String)
  | delPvid (pvid : String)
  | devices (paths : List String)
  | devicesFile (name : String)
  | profile (name : String)
  | verbose (on : Bool)
  | requestConfirm (on : Bool)
  /-- All the common options at once. -/
  | common (options : CommonOptions)
deriving DecidableEq

namespace Setting

/-- The fields that a setting writes. -/
def fields : Setting → List Field
  | .volumeGroup _ => [.volumeGroup]
  | .newVolumeGroup _ => [.newVolumeGroup]
  | .logicalVolume _ => [.logicalVolume]
  | .newLogicalVolume _ => [.newLogicalVolume]
  | .physicalVolumes _ => [.physicalVolumes]
  | .size _ => [.size]
  | .extents _ => [.extents]
  | .extentSize _ => [.extentSize]
  | .deviceSize _ => [.deviceSize]
  | .tags _ => [.tags]
  | .delTags _ => [.delTags]
  | .activate _ => [.activate]
  | .force _ => [.force]
  | .removeMissing _ => [.removeMissing]
  | .resizeFs _ => [.resizeFs]
  | .zero _ => [.zero]
  | .allocatable _ => [.allocatable]
  | .select _ => [.select]
  | .addDevice _ => [.addDevice]
  | .delDevice _ => [.delDevice]
  | .addPvid _ => [.addPvid]
  | .delPvid _ => [.delPvid]
  | .devices _ => [.devices]
  | .devicesFile _ => [.devicesFile]
  | .profile _ => [.profile]
  | .verbose _ => [.verbose]
  | .requestConfirm _ => [.requestConfirm]
  | .common _ => Field.common

/-- Writes a setting into a request. -/
def apply (s : Setting) (r : Request) : Request :=
  match s with
  | .volumeGroup v => { r with volumeGroup := some v }
  | .newVolumeGroup v => { r with newVolumeGroup := some v }
  | .logicalVolume v => { r with logicalVolume := some v }
  | .newLogicalVolume v => { r with newLogicalVolume := some v }
  | .physicalVolumes v => { r with physicalVolumes := v }
  | .size v => { r with size := some v }
  | .extents v => { r with extents := some v }
  | .extentSize v => { r with extentSize := some v }
  | .deviceSize v => { r with deviceSize := some v }
  | .tags v => { r with tags := v }
  | .delTags v => { r with delTags := v }
  | .activate v => { r with activate := some v }
  | .force v => { r with force := v }
  | .removeMissing v => { r with removeMissing := v }
  | .resizeFs v => { r with resizeFs := v }
  | .zero v => { r with zero := some v }
  | .allocatable v => { r with allocatable := some v }
  | .select v => { r with select := some v }
  | .addDevice v => { r with addDevice := some v }
  | .delDevice v => { r with delDevice := some v }
  | .addPvid v => { r with addPvid := some v }
  | .delPvid v => { r with delPvid := some v }
  | .devices v => { r with common.devices := some v }
  | .devicesFile v => { r with common.devicesFile := some v }
  | .profile v => { r with common.profile := some v }
  | .verbose v => { r with common.verbose := v }
  | .requestConfirm v => { r with common.requestConfirm := v }
  | .common options => { r with common := options }

/-- A setting leaves every field that it does not write as it was. -/
theorem get_apply_of_not_mem {s : Setting} {f : Field} (h : f ∉ s.fields) (r : Request) :
    (s.apply r).get f = r.get f := by
  cases s <;> cases f <;> simp_all [fields, Field.common, apply, Request.get]

/-- What a setting writes into a field does not depend on the request. -/
theorem get_apply_of_mem {s : Setting} {f : Field} (h : f ∈ s.fields) (q r : Request) :
    (s.apply q).get f = (s.apply r).get f := by
  cases s <;> cases f <;> simp_all [fields, Field.common, apply, Request.get]

end Setting

end LvmControl
