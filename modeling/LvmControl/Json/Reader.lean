import LvmControl.Json.Value
import LvmControl.Number.Hexadecimal

/-!
# Reading JSON

A reader for JSON text that keeps the place of a fault, see `Json.broken`.

## Main definitions

* `readUnits`, `pairUnits`, `readString`: strings, their escapes and surrogate pairs.
* `readNumber`: the extent of a number.
* `readValue`, `readItem`, `readMember`: values, the items of arrays and the members of objects.
* `Json.read`: a text as a document.

## Design notes

**Fuel.** Between two calls for a value, an item or a member at most one more such call is made
without a character being used, so twice as many units of fuel as there are characters, and two
more, are enough; `Json.read` gives them.
-/

namespace LvmControl.Json

/-- Whether a character may stand between the parts of a JSON text. -/
def isSpace (c : Char) : Bool := c = ' ' || c = '\n' || c = '\t' || c = '\r'

/-- A text without the spaces at its start. -/
def skipSpaces (cs : List Char) : List Char := cs.dropWhile isSpace

/-- The value of hexadecimal digits. -/
def hexValues? (cs : List Char) : Option Nat :=
  cs.foldl (fun acc c => acc.bind fun n => (Number.hexValue? c).map (16 * n + ·)) (some 0)

/-- The character that a letter behind a backslash stands for. -/
def escapeCode? (c : Char) : Option Nat :=
  match c with
  | '\x22' => some 0x22
  | '\x5c' => some 0x5c
  | '/' => some 0x2f
  | 'b' => some 0x8
  | 'f' => some 0xc
  | 'n' => some 0xa
  | 'r' => some 0xd
  | 't' => some 0x9
  | _ => none

/-- Reads a string from behind its opening quote to behind its closing one. Characters come as
their code points, escapes of four hexadecimal digits as what they spell. -/
def readUnits : List Char → Option (List Nat × List Char)
  | [] => none
  | '\x22' :: rest => some ([], rest)
  | '\x5c' :: 'u' :: a :: b :: c :: d :: rest =>
    (hexValues? [a, b, c, d]).bind fun unit =>
      (readUnits rest).map fun (units, after) => (unit :: units, after)
  | '\x5c' :: e :: rest =>
    (escapeCode? e).bind fun code =>
      (readUnits rest).map fun (units, after) => (code :: units, after)
  | c :: rest =>
    if c.toNat < 0x20 || c = '\x5c' then none
    else (readUnits rest).map fun (units, after) => (c.toNat :: units, after)

/-- Whether a unit is the first half of a surrogate pair. -/
def isLeadUnit (u : Nat) : Bool := 0xd800 ≤ u && u ≤ 0xdbff

/-- Whether a unit is the second half of a surrogate pair. -/
def isTrailUnit (u : Nat) : Bool := 0xdc00 ≤ u && u ≤ 0xdfff

/-- The characters that units stand for, or `none` if halves of surrogate pairs do not pair up. -/
def pairUnits : List Nat → Option (List Char)
  | [] => some []
  | [u] => if isLeadUnit u || isTrailUnit u then none else some [Char.ofNat u]
  | u :: v :: rest =>
    if isLeadUnit u then
      if isTrailUnit v then
        (pairUnits rest).map (Char.ofNat (0x10000 + (u - 0xd800) * 0x400 + (v - 0xdc00)) :: ·)
      else none
    else if isTrailUnit u then none
    else (pairUnits (v :: rest)).map (Char.ofNat u :: ·)

/-- Reads a string from behind its opening quote: its text, if it stands for one, and what
follows. -/
def readString (cs : List Char) : Option (Option String × List Char) :=
  (readUnits cs).map fun (units, after) => ((pairUnits units).map String.ofList, after)

/-- A run of digits and what follows it, or `none` if there is no digit. -/
def readDigits? (cs : List Char) : Option (List Char × List Char) :=
  let digits := cs.takeWhile Char.isDigit
  if digits.isEmpty then none else some (digits, cs.dropWhile Char.isDigit)

/-- The digits before the point: a zero alone or digits that do not start with one. -/
def readWholePart? (cs : List Char) : Option (List Char × List Char) :=
  (readDigits? cs).filter fun (digits, _) => digits.head? != some '0' || digits.length = 1

/-- The point and the digits after it, if there is a point. -/
def readFractionPart? : List Char → Option (List Char × List Char)
  | '.' :: cs => (readDigits? cs).map fun (digits, after) => ('.' :: digits, after)
  | cs => some ([], cs)

/-- The exponent, if there is one. -/
def readExponentPart? : List Char → Option (List Char × List Char)
  | [] => some ([], [])
  | c :: cs =>
    if c = 'e' || c = 'E' then
      let sign := cs.take 1 |>.filter fun s => s = '+' || s = '-'
      (readDigits? (cs.drop sign.length)).map fun (digits, after) =>
        (c :: sign ++ digits, after)
    else some ([], c :: cs)

/-- Reads a number: its spelling and what follows. -/
def readNumber (cs : List Char) : Option (String × List Char) :=
  let sign := cs.take 1 |>.filter (· = '-')
  (readWholePart? (cs.drop sign.length)).bind fun (whole, afterWhole) =>
    (readFractionPart? afterWhole).bind fun (fraction, afterFraction) =>
      (readExponentPart? afterFraction).map fun (exponent, after) =>
        (String.ofList (sign ++ whole ++ fraction ++ exponent), after)

/-- Reads a fixed word. -/
def readWord (word : String) (value : Json) (cs : List Char) : Json × Option (List Char) :=
  if word.toList.isPrefixOf cs then (value, some (cs.drop word.length)) else (.broken, none)

/-- Reads a value that is not an array or an object: the value, and what follows unless the text
broke. -/
def readScalar (cs : List Char) : Json × Option (List Char) :=
  match cs with
  | '\x22' :: rest =>
    match readString rest with
    | some (text, after) => (.string text, some after)
    | none => (.broken, none)
  | 't' :: _ => readWord "true" (.bool true) cs
  | 'f' :: _ => readWord "false" (.bool false) cs
  | 'n' :: _ => readWord "null" .null cs
  | _ =>
    match readNumber cs with
    | some (literal, after) => (.number literal, some after)
    | none => (.broken, none)

/-- Reads the key of a member and the colon after it: the key, unless the text broke in it, and what
follows the colon, unless the text broke before. -/
def readKey (cs : List Char) : Option String × Option (List Char) :=
  match skipSpaces cs with
  | '\x22' :: rest =>
    match readString rest with
    | some (key, after) =>
      match skipSpaces after with
      | ':' :: value => (key, some value)
      | _ => (key, none)
    | none => (none, none)
  | _ => (none, none)

mutual

/-- Reads a value: what it is, and what follows unless the text broke. -/
def readValue : Nat → List Char → Json × Option (List Char)
  | 0, _ => (.broken, none)
  | fuel + 1, cs =>
    match skipSpaces cs with
    | '[' :: rest =>
      match skipSpaces rest with
      | ']' :: after => (.array [], some after)
      | items =>
        let (read, after) := readItem fuel items
        (.array read, after)
    | '\x7b' :: rest =>
      match skipSpaces rest with
      | '\x7d' :: after => (.object [], some after)
      | members =>
        let (read, after) := readMember fuel members
        (.object read, after)
    | scalar => readScalar scalar

/-- Reads the items of an array, of which there is at least one, and its closing bracket. -/
def readItem : Nat → List Char → List Json × Option (List Char)
  | 0, _ => ([.broken], none)
  | fuel + 1, cs =>
    match readValue fuel cs with
    | (value, none) => ([value, .broken], none)
    | (value, some after) =>
      match skipSpaces after with
      | ',' :: rest =>
        let (read, after) := readItem fuel rest
        (value :: read, after)
      | ']' :: rest => ([value], some rest)
      | _ => ([value, .broken], none)

/-- Reads the members of an object, of which there is at least one, and its closing brace. -/
def readMember : Nat → List Char → List (Option String × Json) × Option (List Char)
  | 0, _ => ([(none, .broken)], none)
  | fuel + 1, cs =>
    match readKey cs with
    | (none, none) => ([(none, .broken)], none)
    | (some key, none) => ([(some key, .broken), (none, .broken)], none)
    | (key, some rest) =>
      match readValue fuel rest with
      | (value, none) => ([(key, value), (none, .broken)], none)
      | (value, some after) =>
        match skipSpaces after with
        | ',' :: rest =>
          let (read, after) := readMember fuel rest
          ((key, value) :: read, after)
        | '\x7d' :: rest => ([(key, value)], some rest)
        | _ => ([(key, value), (none, .broken)], none)

end

/-- A text as a document. -/
def read (text : String) : Document :=
  let cs := text.toList
  let (value, after) := readValue (2 * cs.length + 2) cs
  ⟨value, match after with
    | some rest => (skipSpaces rest).isEmpty
    | none => false⟩

end LvmControl.Json
