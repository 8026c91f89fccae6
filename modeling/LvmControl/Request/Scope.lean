import LvmControl.Request.OptionList

/-!
# What a command may change

Two commands that may change the same thing must not run at the same time. What a command may
change is given by keys, which are names: of volume groups, of devices and of devices files.

## Main definitions

* `Scope`: the kinds of things that the mutating commands change.
* `Command.scope?`: the scope of each command; reading commands have none.
* `Request.devicesFileName`: the devices file that a request is about.
* `Scope.keys`: the keys of a request, in the order in which it names them.
* `Command.keys?`: the keys of a request for a command.

## Design notes

**Devices of a group.** Creating, extending and reducing a group changes what is stored on its
devices, so these commands have the devices as keys too and exclude commands on the same devices.
-/

namespace LvmControl

/-- What a command changes. -/
inductive Scope
  /-- A volume group and everything in it. -/
  | group
  /-- A volume group and the devices it gains or loses. -/
  | groupAndDevices
  /-- A volume group under both its names. -/
  | bothNames
  /-- Devices. -/
  | devices
  /-- A devices file. -/
  | devicesFile
deriving DecidableEq, Repr

/-- The devices file that is used unless another one is named. -/
def systemDevicesFile : String := "system.devices"

namespace Request

/-- The devices file that a request is about; an empty name is as good as none. -/
def devicesFileName (r : Request) : String :=
  (r.common.devicesFile.filter (· ≠ "")).getD systemDevicesFile

/-- The name of the volume group as a key, if there is one. -/
def groupKeys (r : Request) : List String := r.volumeGroup.toList.map VolumeGroupName.text

/-- The paths of the devices as keys. -/
def deviceKeys (r : Request) : List String := r.physicalVolumes.map PhysicalVolumeName.text

end Request

/-- The keys of a request with a given scope. -/
def Scope.keys (r : Request) : Scope → List String
  | .group => r.groupKeys
  | .groupAndDevices => r.groupKeys ++ r.deviceKeys
  | .bothNames => r.groupKeys ++ r.newVolumeGroup.toList.map VolumeGroupName.text
  | .devices => r.deviceKeys
  | .devicesFile => ["devices:" ++ r.devicesFileName]

/-- What each command changes, if it changes anything. -/
def Command.scope? : Command → Option Scope
  | .version => none
  | .vgs => none
  | .vgcreate => some .groupAndDevices
  | .vgremove => some .group
  | .vgextend => some .groupAndDevices
  | .vgreduce => some .groupAndDevices
  | .vgrename => some .bothNames
  | .vgchange => some .group
  | .lvs => none
  | .lvcreate => some .group
  | .lvremove => some .group
  | .lvextend => some .group
  | .lvresize => some .group
  | .lvreduce => some .group
  | .lvrename => some .group
  | .lvchange => some .group
  | .pvs => none
  | .pvcreate => some .devices
  | .pvremove => some .devices
  | .pvresize => some .devices
  | .pvchange => some .devices
  | .pvmove => some .devices
  | .devicesList => none
  | .devicesCheck => none
  | .devicesUpdate => some .devicesFile
  | .devicesModify => some .devicesFile

/-- Whether a command changes anything. -/
def Command.isMutating (c : Command) : Bool := c.scope?.isSome

/-- The keys of a request for a command, or `none` for a command that changes nothing. -/
def Command.keys? (c : Command) (r : Request) : Option (List String) :=
  c.scope?.map (Scope.keys r)

end LvmControl
