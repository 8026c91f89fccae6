import LvmControl.Number.Whole
import LvmControl.Text.Split

/-!
# Sizes in extents

A logical volume may also be sized in extents: as a count, as a percentage of something, and in
either case as an increase over what is there.

## Main definitions

* `PercentOf`: what a percentage is taken of.
* `Extents`: a count or percentage, and whether it is an increase.
* `Extents.read?`, `Extents.text`: reading and writing.
-/

namespace LvmControl

open Number

/-- What a percentage of extents is taken of. -/
inductive PercentOf
  /-- All of the volume group. -/
  | group
  /-- What is free in the volume group. -/
  | free
  /-- What is free on the devices named. -/
  | devices
  /-- The volume that a snapshot is taken of. -/
  | snapshotSource
deriving DecidableEq, Repr

namespace PercentOf

/-- The word for it on a command line. -/
def word : PercentOf → String
  | .group => "VG"
  | .free => "FREE"
  | .devices => "PVS"
  | .snapshotSource => "ORIGIN"

/-- All four, in the order in which they are tried. -/
def all : List PercentOf := [.group, .free, .devices, .snapshotSource]

/-- Reads the word in any case. -/
def read? (cs : List Char) : Option PercentOf :=
  all.find? fun p => p.word.toList = cs.map Char.toUpper

/-- Whether a percentage of it above one hundred makes no sense. -/
def isBounded : PercentOf → Bool
  | .snapshotSource => false
  | _ => true

end PercentOf

/-- A number of extents. -/
structure Extents where
  value : Nat
  percentOf : Option PercentOf
  /-- Whether the number is an increase over the current size. -/
  relative : Bool
  fits : value < wordBound
deriving DecidableEq

namespace Extents

/-- The sign of an increase, and the text after it. -/
def takeIncrease : List Char → Bool × List Char
  | '+' :: cs => (true, cs)
  | cs => (false, cs)

/-- The number and the kind of percentage in a text without sign. -/
def splitKind? (cs : List Char) : Option (List Char × Option PercentOf) :=
  match Text.cut '%' cs with
  | none => some (cs, none)
  | some (number, kind) => (PercentOf.read? kind).map fun p => (number, some p)

/-- So many extents, if the number fits. -/
def make? (value : Nat) (percentOf : Option PercentOf) (relative : Bool) : Option Extents :=
  if h : value < wordBound then some ⟨value, percentOf, relative, h⟩ else none

/-- Reads a number of extents between blanks. -/
def read? (text : List Char) : Option Extents :=
  let (relative, rest) := takeIncrease (Text.trim text)
  (splitKind? rest).bind fun (number, kind) =>
    (readWhole? number).bind fun value => make? value kind relative

/-- The sign of an increase, the number and the kind of percentage. -/
def text (e : Extents) : String :=
  (if e.relative then "+" else "") ++ decimal e.value ++
    match e.percentOf with
    | none => ""
    | some p => "%" ++ p.word

end Extents

end LvmControl
