import LvmControl.Number.Hexadecimal
import LvmControl.Text.Blank
import LvmControl.Text.Split

/-!
# Names of volumes

Everything a command line addresses is addressed by name, and a name that starts with a dash or
holds a blank would be taken for something else. Names are therefore checked once, when they are
made, and travel as values that carry the proof of the check.

## Main definitions

* `NameFault`, `DeviceFault`: why a name, or a device path, is refused.
* `NameError`: a refusal together with the kind of name that was wanted.
* `objectFault?`, `logicalFault?`, `deviceFault?`: the first fault of a text.
* `VolumeGroupName`, `LogicalVolumeName`, `PhysicalVolumeName`: checked names.

## Design notes

**First fault.** The checks run in a fixed order and the first one that fails is reported; for a
logical volume the checks that every object name has come before the words LVM reserves for
volumes of its own.

**Length in bytes.** The limit of 127 counts the bytes of the UTF-8 form, and comes before the check
for characters outside the alphabet, so a long name in another script is too long rather than
misspelt.
-/

namespace LvmControl

/-- Why the name of a volume group or a logical volume is refused. -/
inductive NameFault
  | empty
  | tooLong
  | directory (name : String)
  | leadingDash
  | character (c : Char)
  | reservedStart (word : String)
  | reservedPart (word : String)
deriving DecidableEq, Repr

/-- Why a device path is refused. -/
inductive DeviceFault
  | empty
  | leadingDash
  | blankOrControl
deriving DecidableEq, Repr

/-- A refused name. -/
inductive NameError
  | volumeGroup (fault : NameFault)
  | logicalVolume (fault : NameFault)
  | physicalVolume (fault : DeviceFault)
deriving DecidableEq, Repr

/-- The characters that a message shows behind a backslash: both quotes and the backslash. -/
def quotedChars : List Char := ['\x22', '\x27', '\x5c']

/-- A character as it is shown in a message: quotes and backslashes behind a backslash, printable
ASCII as it is, three controls by their letter and everything else by its code point. -/
def escaped (c : Char) : String :=
  if c = '\t' then "\\t"
  else if c = '\r' then "\\r"
  else if c = '\n' then "\\n"
  else if quotedChars.contains c then String.ofList ['\x5c', c]
  else if 0x20 ≤ c.toNat && c.toNat ≤ 0x7e then String.ofList [c]
  else "\\u\x7b" ++ String.ofList (Number.hexDigits c.toNat) ++ "\x7d"

/-- The wording of a fault of an object name. -/
def NameFault.message : NameFault → String
  | .empty => "name cannot be empty"
  | .tooLong => "name cannot exceed 127 characters"
  | .directory name => "name cannot be '" ++ name ++ "'"
  | .leadingDash => "name cannot start with '-'"
  | .character c => "name cannot contain '" ++ escaped c ++ "'"
  | .reservedStart word => "name cannot start with reserved prefix '" ++ word ++ "'"
  | .reservedPart word => "name cannot contain reserved string '" ++ word ++ "'"

/-- The wording of a fault of a device path. -/
def DeviceFault.message : DeviceFault → String
  | .empty => "device path cannot be empty"
  | .leadingDash => "device path cannot start with '-'"
  | .blankOrControl => "device path cannot contain whitespace or control characters"

/-- The wording of a refusal. -/
def NameError.message : NameError → String
  | .volumeGroup fault => "invalid volume group name: " ++ fault.message
  | .logicalVolume fault => "invalid logical volume name: " ++ fault.message
  | .physicalVolume fault => "invalid physical volume name: " ++ fault.message

/-- How many bytes the UTF-8 form of a text has. -/
def utf8Length : List Char → Nat
  | [] => 0
  | c :: cs => c.utf8Size + utf8Length cs

/-- Whether a character may occur in an object name. -/
def isNameChar (c : Char) : Bool :=
  c.isAlphanum || c = '+' || c = '_' || c = '.' || c = '-'

/-- The first fault of a text as an object name. -/
def objectFault? (cs : List Char) : Option NameFault :=
  if cs.isEmpty then some .empty
  else if 127 < utf8Length cs then some .tooLong
  else if cs = ['.'] || cs = ['.', '.'] then some (.directory (String.ofList cs))
  else if cs.head? = some '-' then some .leadingDash
  else (cs.find? fun c => !isNameChar c).map .character

/-- The words no logical volume name may start with: LVM names temporary volumes with them. -/
def reservedStarts : List String := ["snapshot", "pvmove"]

/-- The words that no logical volume name may hold: LVM ends the names of hidden volumes with
them. -/
def reservedParts : List String :=
  ["_cdata", "_cmeta", "_corig", "_mlog", "_mimage", "_pmspare", "_rimage", "_rmeta", "_tdata",
   "_tmeta", "_vorigin", "_vdata"]

/-- The first fault of a text as the name of a logical volume. -/
def logicalFault? (cs : List Char) : Option NameFault :=
  (objectFault? cs).or <|
    ((reservedStarts.find? fun w => w.toList.isPrefixOf cs).map .reservedStart).or <|
      (reservedParts.find? fun w => Text.occursIn w.toList cs).map .reservedPart

/-- The first fault of a text as the path of a device. -/
def deviceFault? (cs : List Char) : Option DeviceFault :=
  if cs.isEmpty then some .empty
  else if cs.head? = some '-' then some .leadingDash
  else if cs.any fun c => Text.isBlank c || Text.isControl c then some .blankOrControl
  else none

/-- The name of a volume group. -/
structure VolumeGroupName where
  text : String
  valid : objectFault? text.toList = none
deriving DecidableEq

/-- The name of a logical volume within its group. -/
structure LogicalVolumeName where
  text : String
  valid : logicalFault? text.toList = none
deriving DecidableEq

/-- The path of a device that is, or is to be, a physical volume. -/
structure PhysicalVolumeName where
  text : String
  valid : deviceFault? text.toList = none
deriving DecidableEq

/-- Checks a text as the name of a volume group. -/
def VolumeGroupName.parse (text : String) : Except NameError VolumeGroupName :=
  match h : objectFault? text.toList with
  | none => .ok ⟨text, h⟩
  | some fault => .error (.volumeGroup fault)

/-- Checks a text as the name of a logical volume. -/
def LogicalVolumeName.parse (text : String) : Except NameError LogicalVolumeName :=
  match h : logicalFault? text.toList with
  | none => .ok ⟨text, h⟩
  | some fault => .error (.logicalVolume fault)

/-- Checks a text as the path of a device. -/
def PhysicalVolumeName.parse (text : String) : Except NameError PhysicalVolumeName :=
  match h : deviceFault? text.toList with
  | none => .ok ⟨text, h⟩
  | some fault => .error (.physicalVolume fault)

/-- The form `group/volume` by which commands address a logical volume. -/
def LogicalVolumeName.qualified (volume : LogicalVolumeName) (group : VolumeGroupName) : String :=
  group.text ++ "/" ++ volume.text

/-- A name is its text. -/
theorem VolumeGroupName.eq_of_text_eq {g h : VolumeGroupName} (heq : g.text = h.text) : g = h := by
  cases g
  cases h
  cases heq
  rfl

theorem LogicalVolumeName.eq_of_text_eq {v w : LogicalVolumeName} (heq : v.text = w.text) :
    v = w := by
  cases v
  cases w
  cases heq
  rfl

theorem PhysicalVolumeName.eq_of_text_eq {p q : PhysicalVolumeName} (heq : p.text = q.text) :
    p = q := by
  cases p
  cases q
  cases heq
  rfl

/-- A name that has been checked passes the check again. -/
@[simp] theorem VolumeGroupName.parse_text (name : VolumeGroupName) :
    VolumeGroupName.parse name.text = .ok name := by
  unfold VolumeGroupName.parse
  split
  · rfl
  · rename_i h
    simp [name.valid] at h

@[simp] theorem LogicalVolumeName.parse_text (name : LogicalVolumeName) :
    LogicalVolumeName.parse name.text = .ok name := by
  unfold LogicalVolumeName.parse
  split
  · rfl
  · rename_i h
    simp [name.valid] at h

@[simp] theorem PhysicalVolumeName.parse_text (name : PhysicalVolumeName) :
    PhysicalVolumeName.parse name.text = .ok name := by
  unfold PhysicalVolumeName.parse
  split
  · rfl
  · rename_i h
    simp [name.valid] at h

end LvmControl
