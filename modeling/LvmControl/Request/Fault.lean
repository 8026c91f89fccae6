import LvmControl.Quantity.Extents
import LvmControl.Text.Split

/-!
# Refused requests

A request is checked before any part of it is written as an argument; what the check found wrong is
an error of this module.

## Main definitions

* `InvalidValue`: a value that no command could use, by cause.
* `ValidationError`: the refusal of a request.
* `ValidationError.message`: its wording.
-/

namespace LvmControl

/-- A value that is malformed or out of range. -/
inductive InvalidValue
  /-- A text that is not a size. -/
  | size (text : String)
  /-- A text that is not a number of extents. -/
  | extents (text : String)
  /-- More mebibytes than sixty-four bits of bytes can hold. -/
  | mebibytes (count : Nat)
  /-- An extent size that is too small or no power of two. -/
  | extentSize (bytes : Nat)
  /-- No extents at all. -/
  | noExtents
  /-- More than the whole of something. -/
  | extentsOver (whole : PercentOf)
  /-- An increase where there is no volume yet. -/
  | increaseOnCreate
  /-- An increase where a volume is to shrink. -/
  | increaseOnReduce
  /-- A text that is not a tag. -/
  | tag (text : String)
  /-- A text that is not the identifier of a physical volume. -/
  | pvid (text : String)
  /-- A volume group renamed to the name it has. -/
  | sameGroup (name : String)
  /-- A logical volume renamed to the name it has. -/
  | sameVolume (name : String)
  /-- A device that data would be moved from and to. -/
  | sameDevice (path : String)
  /-- Any other cause, in words. -/
  | other (text : String)
deriving DecidableEq, Repr

/-- Why a request is refused. -/
inductive ValidationError
  /-- Something the command needs was not given. -/
  | missing (command option : String)
  /-- Two things were given that exclude each other. -/
  | conflict (command first second : String)
  /-- None of several things was given, of which the command needs one. -/
  | noneOf (command : String) (options : List String)
  /-- A value is malformed or out of range. -/
  | invalid (cause : InvalidValue)
deriving DecidableEq, Repr

/-- The wording of a cause. -/
def InvalidValue.message : InvalidValue → String
  | .size text => "invalid size '" ++ text ++ "'"
  | .extents text => "invalid extents '" ++ text ++ "'"
  | .mebibytes count => Number.decimal count ++ " MiB overflows a byte count"
  | .extentSize bytes =>
    "physical extent size must be a power of two of at least 512 bytes, got " ++
      Number.decimal bytes
  | .noExtents => "extents must be non-zero"
  | .extentsOver whole => "extents cannot exceed 100%" ++ whole.word
  | .increaseOnCreate => "relative extents cannot be used to create a logical volume"
  | .increaseOnReduce => "relative extents would grow the logical volume, not reduce it"
  | .tag text => "invalid tag '" ++ text ++ "'"
  | .pvid text => "invalid PVID '" ++ text ++ "'"
  | .sameGroup name => "volume group " ++ name ++ " cannot be renamed to itself"
  | .sameVolume name => "logical volume " ++ name ++ " cannot be renamed to itself"
  | .sameDevice path => path ++ " cannot be both source and destination"
  | .other text => text

/-- The wording of a refusal. -/
def ValidationError.message : ValidationError → String
  | .missing command option => option ++ " is required for " ++ command
  | .conflict command first second =>
    first ++ " and " ++ second ++ " cannot be combined for " ++ command
  | .noneOf command options =>
    "at least one of " ++ Text.join ", " options ++ " is required for " ++ command
  | .invalid cause => "invalid option value: " ++ cause.message

end LvmControl
