import LvmControl.Request.Fault
import LvmControl.Request.OptionList

/-!
# What a request must meet

Each command has a list of requirements. They are checked in order and the first one that fails is
the answer, so the order of the list is part of the contract.

## Main definitions

* `Requirement`: one thing a request must meet.
* `Requirement.fault?`: what is wrong with a request that does not meet it.
* `Command.requirements`: the requirements of each command, in order.
* `Command.fault?`: the first fault of a request for a command.

## Design notes

**Requirements are data.** A command does not check itself; it lists what it requires. A statement
about every command is then a statement about `Requirement.fault?` and a finite table.
-/

namespace LvmControl

open Number

/-- Whether a character may occur in a tag. -/
def isTagChar (c : Char) : Bool := c.isAlphanum || "_+.-/=!:&#".toList.contains c

/-- Whether a text is a tag: one to 1024 characters of the alphabet for tags, not starting with a
dash. -/
def isTag (tag : String) : Bool :=
  !tag.toList.isEmpty && tag.toList.length ≤ 1024 && tag.toList.head? != some '-' &&
    tag.toList.all isTagChar

/-- Whether a text is the identifier of a physical volume. -/
def isPvid (pvid : String) : Bool := !pvid.toList.isEmpty && pvid.toList.all Char.isAlphanum

/-- Whether a number is a power of two. -/
def isPowerOfTwo (n : Nat) : Bool := n ≠ 0 && Nat.pow 2 n.log2 == n

/-- What is wrong with a number of extents. -/
def Extents.fault? (e : Extents) : Option InvalidValue :=
  if e.value = 0 then some .noExtents
  else
    match e.percentOf with
    | none => none
    | some p => if p.isBounded && 100 < e.value then some (.extentsOver p) else none

/-- What is wrong with the extent size of a new group. -/
def extentSizeFault? (s : Size) : Option InvalidValue :=
  if s.bytes < 512 || !isPowerOfTwo s.bytes then some (.extentSize s.bytes) else none

/-- The first text in a list that is not a tag. -/
def tagFault? (tags : List String) : Option InvalidValue :=
  (tags.find? fun t => !isTag t).map .tag

/-- What is wrong with the identifier of a physical volume. -/
def pvidFault? (pvid : String) : Option InvalidValue :=
  if isPvid pvid then none else some (.pvid pvid)

/-- What is wrong with the value that a field of a request holds. -/
def Request.valueFault? (r : Request) : Field → Option InvalidValue
  | .extents => r.extents.bind Extents.fault?
  | .extentSize => r.extentSize.bind extentSizeFault?
  | .tags => tagFault? r.tags
  | .delTags => tagFault? r.delTags
  | .addPvid => r.addPvid.bind pvidFault?
  | .delPvid => r.delPvid.bind pvidFault?
  | _ => none

/-- One thing that a request must meet. -/
inductive Requirement
  /-- The field holds something. -/
  | given (f : Field)
  /-- One of the fields holds something. -/
  | someOf (fs : List Field)
  /-- Exactly one of the fields holds something. -/
  | oneOf (fs : List Field)
  /-- If the field holds a value, the value can be used. -/
  | wellFormed (f : Field)
  /-- The extents are not an increase; the cause says why they must not be. -/
  | absolute (cause : InvalidValue)
  /-- A logical volume is named together with its group. -/
  | volumeInGroup
  /-- A group is given another name than it has. -/
  | newGroupName
  /-- A logical volume is given another name than it has. -/
  | newVolumeName
  /-- The first device, which data is moved from, is not among those it is moved to. -/
  | apartFromSource
deriving DecidableEq, Repr

/-- What is wrong with a request that does not meet a requirement. -/
def Requirement.fault? (command : String) (r : Request) : Requirement → Option ValidationError
  | .given f => if r.has f then none else some (.missing command f.label)
  | .someOf fs => if fs.any r.has then none else some (.noneOf command (fs.map Field.label))
  | .oneOf fs =>
    match fs.filter r.has with
    | [] => some (.noneOf command (fs.map Field.label))
    | [_] => none
    | f :: g :: _ => some (.conflict command f.label g.label)
  | .wellFormed f => (r.valueFault? f).map .invalid
  | .absolute cause => if r.extents.any Extents.relative then some (.invalid cause) else none
  | .volumeInGroup =>
    if r.logicalVolume.isSome && r.volumeGroup.isNone then
      some (.missing command Field.volumeGroup.label)
    else none
  | .newGroupName =>
    match r.newVolumeGroup with
    | some name =>
      if r.volumeGroup = some name then some (.invalid (.sameGroup name.text)) else none
    | none => none
  | .newVolumeName =>
    match r.newLogicalVolume with
    | some name =>
      if r.logicalVolume = some name then some (.invalid (.sameVolume name.text)) else none
    | none => none
  | .apartFromSource =>
    match r.physicalVolumes with
    | source :: rest =>
      if source ∈ rest then some (.invalid (.sameDevice source.text)) else none
    | [] => none

/-- What a command requires, in the order in which it is checked. -/
def Command.requirements : Command → List Requirement
  | .version => []
  | .vgs => []
  | .vgcreate =>
    [.given .volumeGroup, .given .physicalVolumes, .wellFormed .extentSize, .wellFormed .tags]
  | .vgremove => [.given .volumeGroup]
  | .vgextend => [.given .volumeGroup, .given .physicalVolumes]
  | .vgreduce => [.given .volumeGroup, .someOf [.physicalVolumes, .removeMissing]]
  | .vgrename => [.given .volumeGroup, .given .newVolumeGroup, .newGroupName]
  | .vgchange =>
    [.given .volumeGroup, .someOf [.activate, .tags, .delTags], .wellFormed .tags,
     .wellFormed .delTags]
  | .lvs => [.volumeInGroup]
  | .lvcreate =>
    [.given .volumeGroup, .given .logicalVolume, .oneOf [.size, .extents], .wellFormed .extents,
     .absolute .increaseOnCreate, .wellFormed .tags]
  | .lvremove => [.given .volumeGroup, .given .logicalVolume]
  | .lvextend =>
    [.given .volumeGroup, .given .logicalVolume, .oneOf [.size, .extents], .wellFormed .extents]
  | .lvresize =>
    [.given .volumeGroup, .given .logicalVolume, .oneOf [.size, .extents], .wellFormed .extents]
  | .lvreduce =>
    [.given .volumeGroup, .given .logicalVolume, .oneOf [.size, .extents], .wellFormed .extents,
     .absolute .increaseOnReduce]
  | .lvrename =>
    [.given .volumeGroup, .given .logicalVolume, .given .newLogicalVolume, .newVolumeName]
  | .lvchange =>
    [.given .volumeGroup, .given .logicalVolume, .someOf [.activate, .tags, .delTags],
     .wellFormed .tags, .wellFormed .delTags]
  | .pvs => []
  | .pvcreate => [.given .physicalVolumes]
  | .pvremove => [.given .physicalVolumes]
  | .pvresize => [.given .physicalVolumes]
  | .pvchange =>
    [.given .physicalVolumes, .someOf [.allocatable, .tags, .delTags], .wellFormed .tags,
     .wellFormed .delTags]
  | .pvmove => [.given .physicalVolumes, .apartFromSource]
  | .devicesList => []
  | .devicesCheck => []
  | .devicesUpdate => []
  | .devicesModify =>
    [.oneOf [.addDevice, .delDevice, .addPvid, .delPvid], .wellFormed .addPvid,
     .wellFormed .delPvid]

/-- The first thing wrong with a request for a command. -/
def Command.fault? (c : Command) (r : Request) : Option ValidationError :=
  c.requirements.findSome? (Requirement.fault? c.subcommand r)

/-- A request has no fault if and only if it meets every requirement of the command. -/
theorem Command.fault?_eq_none_iff {c : Command} {r : Request} :
    c.fault? r = none ↔ ∀ q ∈ c.requirements, q.fault? c.subcommand r = none := by
  simp [fault?]

/-- A request without a fault has what the command requires. -/
theorem Command.has_of_given {c : Command} {r : Request} {f : Field} (h : c.fault? r = none)
    (hgiven : .given f ∈ c.requirements) : r.has f = true := by
  have hmeets := fault?_eq_none_iff.mp h _ hgiven
  cases hhas : r.has f with
  | true => rfl
  | false => simp [Requirement.fault?, hhas] at hmeets

end LvmControl
