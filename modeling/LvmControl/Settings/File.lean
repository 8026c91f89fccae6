import LvmControl.Process.Context
import LvmControl.Number.Whole
import LvmControl.Settings.Document
import LvmControl.Text.Utf8

/-!
# The settings file

What can be set for good: the path of the tool, the path of the helper that enters the namespaces of
the host, and the two values that belong to the process.

## Main definitions

* `Settings`: the four settings, each of which may be absent.
* `SettingsError`: why a file is refused.
* `Settings.parse`, `Settings.load`: reads settings from the bytes of a file.
* `Place`, `Settings.find`: the places where a settings file may be, and the first one that has one.
* `Settings.applyTo`: the process defaults with the settings made.

## Design notes

**A file is taken whole or not at all.** A key that is none of the four, or a value of the wrong
kind, refuses the file, and so nothing of it is applied.
-/

namespace LvmControl

/-- The settings of a file. -/
structure Settings where
  /-- The path of the tool. -/
  toolPath : Option String := none
  /-- The path of the helper that enters the namespaces of the host. -/
  helperPath : Option String := none
  /-- The wait delay of contexts without one, in milliseconds. -/
  waitMillis : Option Nat := none
  /-- Whether commands use the standard locale. -/
  standardLocale : Option Bool := none
deriving DecidableEq, Repr

/-- Why a settings file is refused. -/
inductive SettingsError
  /-- There is no such file, or it is not text. -/
  | unreadable
  /-- The text is no document of settings. -/
  | unparsable
  /-- A path is the empty text. -/
  | emptyPath (key : String)
  /-- The wait delay is too long. -/
  | delayTooLong (millis : Nat)
deriving DecidableEq, Repr

namespace Settings

/-- The longest wait delay that can be set: ten minutes. -/
def maxWaitMillis : Nat := 600000

/-- The key of the tool's path. -/
def toolPathKey : String := "lvm_path"

/-- The key of the helper's path. -/
def helperPathKey : String := "nsenter_path"

/-- The key of the wait delay. -/
def waitMillisKey : String := "wait_delay_ms"

/-- The key of the locale. -/
def standardLocaleKey : String := "standard_locale"

end Settings

/-- The wording of a refusal for its value. The others are worded by the system and by the reader of
documents. -/
def SettingsError.message? : SettingsError → Option String
  | .unreadable => none
  | .unparsable => none
  | .emptyPath key => some ("invalid config value: " ++ key ++ " cannot be empty")
  | .delayTooLong millis =>
    some ("invalid config value: " ++ Settings.waitMillisKey ++ " cannot exceed " ++
      Number.decimal Settings.maxWaitMillis ++ ", got " ++ Number.decimal millis)

namespace Settings

/-- Makes one setting, if there is such a key and the value is of its kind. -/
def set? (s : Settings) (key : String) (value : Scalar) : Option Settings :=
  if key = toolPathKey then
    match value with
    | .text path => some { s with toolPath := some path }
    | _ => none
  else if key = helperPathKey then
    match value with
    | .text path => some { s with helperPath := some path }
    | _ => none
  else if key = waitMillisKey then
    match value with
    | .whole (.ofNat n) => some { s with waitMillis := some n }
    | _ => none
  else if key = standardLocaleKey then
    match value with
    | .flag on => some { s with standardLocale := some on }
    | _ => none
  else none

/-- The settings of a document. -/
def ofDocument? (document : List (String × Scalar)) : Option Settings :=
  document.foldlM (fun s entry => s.set? entry.1 entry.2) {}

/-- The first value that is out of range. -/
def fault? (s : Settings) : Option SettingsError :=
  if s.toolPath = some "" then some (.emptyPath toolPathKey)
  else if s.helperPath = some "" then some (.emptyPath helperPathKey)
  else
    match s.waitMillis with
    | none => none
    | some n => if maxWaitMillis < n then some (.delayTooLong n) else none

/-- The settings, unless a value is out of range. -/
def checked (s : Settings) : Except SettingsError Settings :=
  match s.fault? with
  | none => .ok s
  | some e => .error e

/-- Reads settings from the bytes of a file. -/
def parse (bytes : List UInt8) : Except SettingsError Settings :=
  match Text.decode? bytes with
  | none => .error .unreadable
  | some text =>
    match (readSettings? text.toList).bind ofDocument? with
    | none => .error .unparsable
    | some s => s.checked

/-- Reads settings from a file, which may be missing. -/
def load : Option (List UInt8) → Except SettingsError Settings
  | none => .error .unreadable
  | some bytes => parse bytes

/-- The path of the tool, by default looked up among the programs. -/
def tool (s : Settings) : String := s.toolPath.getD "lvm"

/-- The path of the helper. -/
def helper (s : Settings) : String := s.helperPath.getD "/usr/bin/nsenter"

/-- The process defaults with the settings made; what is not set stays as it is. -/
def applyTo (s : Settings) (d : Defaults) : Defaults where
  standardLocale := s.standardLocale.getD d.standardLocale
  waitDelay := (s.waitMillis.map Duration.ofMillis).getD d.waitDelay

end Settings

/-- The places where a settings file may be. -/
inductive Place
  /-- The path that an environment variable of this library names. -/
  | named
  /-- The user's directory for configuration. -/
  | configuration
  /-- The user's home directory. -/
  | home
deriving DecidableEq, Repr

namespace Place

/-- The places in the order in which they are looked at. -/
def all : List Place := [.named, .configuration, .home]

end Place

namespace Settings

/-- The first place with a file and its settings; no settings when no place has one. A file that is
refused is not passed over for the next place. -/
def find (files : Place → Option (List UInt8)) :
    Except SettingsError (Settings × Option Place) :=
  match Place.all.find? fun p => (files p).isSome with
  | none => .ok ({}, none)
  | some p => (load (files p)).map fun s => (s, some p)

end Settings

end LvmControl
