import LvmControl.Report.Row

/-!
# Listings of a devices file

A devices file is listed with a line for each entry. A line is a row of words, some of which are
fields `KEY=value`.

## Main definitions

* `DeviceIdType`: how an entry identifies its device.
* `DeviceEntry`: an entry of a devices file.
* `Report.devices`: the entries in a listing.

## Design notes

**A line is an entry if it says how the device is identified.** Headings and warnings have no
`IDTYPE` field and are passed over. In a line that repeats a field the first one counts.
-/

namespace LvmControl

/-- How an entry of a devices file identifies its device. -/
inductive DeviceIdType
  | sysWwid
  | sysSerial
  | mpathUuid
  | cryptUuid
  | mdUuid
  | lvmlvUuid
  | loopFile
  | devname
  /-- A way that this library does not know. -/
  | other (word : String)
deriving DecidableEq, Repr

namespace DeviceIdType

/-- The ways known by a word of their own. -/
def known : List DeviceIdType :=
  [sysWwid, sysSerial, mpathUuid, cryptUuid, mdUuid, lvmlvUuid, loopFile, devname]

/-- The word for it in a listing. -/
def word : DeviceIdType → String
  | .sysWwid => "sys_wwid"
  | .sysSerial => "sys_serial"
  | .mpathUuid => "mpath_uuid"
  | .cryptUuid => "crypt_uuid"
  | .mdUuid => "md_uuid"
  | .lvmlvUuid => "lvmlv_uuid"
  | .loopFile => "loop_file"
  | .devname => "devname"
  | .other word => word

/-- The way that a word stands for. -/
def ofWord (word : String) : DeviceIdType :=
  (known.find? fun t => t.word = word).getD (.other word)

/-- Every known way is read back from its word. -/
theorem ofWord_word {t : DeviceIdType} (h : t ∈ known) : ofWord t.word = t := by
  revert t
  decide

end DeviceIdType

/-- An entry of a devices file. -/
structure DeviceEntry where
  idType : DeviceIdType
  /-- What identifies the device, for instance the file behind a loop device. -/
  idName : String
  /-- The path under which the device was last found. -/
  deviceName : String
  /-- The identifier that the device carries as a physical volume, or a word that it has none. -/
  pvid : String
  /-- The number of the partition, for an entry that is one. -/
  partition : Option Nat
deriving DecidableEq, Repr

namespace Report

/-- The fields of a line: the words that hold an equals sign, cut at the first one. -/
def fieldsOfLine (line : List Char) : List (List Char × List Char) :=
  (Text.words line).filterMap (Text.cut '=')

/-- The value of a field of a line. -/
def field? (fields : List (List Char × List Char)) (key : String) : Option (List Char) :=
  (fields.find? fun f => f.1 = key.toList).map Prod.snd

/-- The value of a field as text, the empty text where there is none. -/
def fieldText (fields : List (List Char × List Char)) (key : String) : String :=
  String.ofList ((field? fields key).getD [])

/-- The partition number in a line, if it has one. -/
def partition? (fields : List (List Char × List Char)) : Except ReportError (Option Nat) :=
  match field? fields "PART" with
  | none => .ok none
  | some text =>
    match Number.readBelow? Number.halfWordBound text with
    | some n => .ok (some n)
    | none => .error (.partition (String.ofList text))

/-- The entry that a line stands for, if it stands for one. -/
def entryOfLine (line : List Char) : Except ReportError (Option DeviceEntry) :=
  let fields := fieldsOfLine line
  match field? fields "IDTYPE" with
  | none => .ok none
  | some idType =>
    (partition? fields).map fun partition => some {
      idType := DeviceIdType.ofWord (String.ofList idType)
      idName := fieldText fields "IDNAME"
      deviceName := fieldText fields "DEVNAME"
      pvid := fieldText fields "PVID"
      partition := partition }

/-- The entries in a listing. -/
def devices (output : String) : Except ReportError (List DeviceEntry) :=
  ((Text.lines output.toList).mapM entryOfLine).map fun entries => entries.filterMap id

end Report

end LvmControl
