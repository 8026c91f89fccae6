import LvmControl.Number.Hexadecimal
import LvmControl.Text.Split

/-!
# Documents of keys and values

Settings are written as lines `key = value`, with comments from a number sign to the end of a line.
The grammar is that of TOML, restricted to what settings need: the values are strings, whole numbers
and the two truth values, and there are no tables, no dotted keys and no repeated keys. A document
outside that is refused as a whole.

## Main definitions

* `Scalar`: a value.
* `readAll`: reads items one after another until the text ends.
* `Scalar.readQuoted?`, `Scalar.ofWord?`: strings in their four forms, and the other values.
* `readSettings?`: the keys and values of a document, in order.

## Design notes

**Line endings first.** A carriage return right before a line feed belongs to the ending of the
line, also inside of strings that span lines, so these carriage returns are dropped before anything
else is read. One that stands elsewhere stays and is refused like any other control character.

**Strings are read in two steps.** The first step finds the end of the string, where all that
matters of a backslash is that the next character cannot end the string; the second gives escapes
their meaning.
-/

namespace LvmControl.Settings

/-- A value of a setting. -/
inductive Scalar
  | text (s : String)
  | whole (n : Int)
  | flag (on : Bool)
deriving DecidableEq, Repr

/-! ## Reading items -/

/-- Reads items until the text ends. Every item takes at least one character. -/
def readAll {α : Type} (item : List Char → Option (α × List Char)) :
    List Char → Option (List α)
  | [] => some []
  | c :: cs =>
    match item (c :: cs) with
    | none => none
    | some (a, rest) =>
      if rest.length ≤ cs.length then (readAll item rest).map (a :: ·) else none
termination_by cs => cs.length

/-- A text with a line feed for every line ending. -/
def unifyLineEnds : List Char → List Char
  | [] => []
  | c :: cs =>
    if c = '\r' && cs.head? = some '\n' then unifyLineEnds cs else c :: unifyLineEnds cs

/-- Whether a character separates words within a line. -/
def isGap (c : Char) : Bool := c = ' ' || c = '\t'

/-- A text without the gap at its start. -/
def skipGap (cs : List Char) : List Char := cs.dropWhile isGap

/-- Whether a character may occur in comments and strings: the tab, printable ASCII and everything
beyond ASCII. -/
def isPlain (c : Char) : Bool := c = '\t' || (' ' ≤ c && c ≤ '~') || '\x7f' < c

/-- What follows the end of a line, which is reached after a gap and perhaps a comment. -/
def endLine? (cs : List Char) : Option (List Char) :=
  let rest :=
    match skipGap cs with
    | '#' :: comment => comment.dropWhile isPlain
    | rest => rest
  match rest with
  | [] => some []
  | '\n' :: next => some next
  | _ => none

/-! ## Strings -/

/-- The quote of strings without escapes, and that of strings with them. -/
def literalQuote : Char := '\x27'

/-- The quote of strings with escapes. -/
def basicQuote : Char := '"'

/-- Whether a backslash starts an escape in strings with the quote. -/
def hasEscapes (quote : Char) : Bool := quote = basicQuote

/-- The character with a code point of so many hexadecimal digits, and the text after them. -/
def codePoint? (digits : Nat) (cs : List Char) : Option (Char × List Char) :=
  if cs.length < digits then none
  else
    ((cs.take digits).mapM Number.hexValue?).bind fun values =>
      let code := values.foldl (fun n v => 16 * n + v) 0
      if code.isValidChar then some (Char.ofNat code, cs.drop digits) else none

/-- The character that an escape stands for, and the text after it; the text starts after the
backslash. -/
def escape? : List Char → Option (Char × List Char)
  | 'b' :: cs => some ('\x08', cs)
  | 't' :: cs => some ('\t', cs)
  | 'n' :: cs => some ('\n', cs)
  | 'f' :: cs => some ('\x0c', cs)
  | 'r' :: cs => some ('\r', cs)
  | '"' :: cs => some ('"', cs)
  | '\\' :: cs => some ('\\', cs)
  | 'u' :: cs => codePoint? 4 cs
  | 'U' :: cs => codePoint? 8 cs
  | _ => none

/-- The text after a line ending that was escaped: everything blank up to the next word is left out.
`none` if no line ending was escaped. -/
def continueLine? (cs : List Char) : Option (List Char) :=
  match skipGap cs with
  | '\n' :: rest => some (rest.dropWhile fun c => isGap c || c = '\n')
  | _ => none

/-- The first character of a string, if it stands for one, and the text after it. -/
def unescapeOne : List Char → Option (Option Char × List Char)
  | [] => none
  | '\\' :: cs =>
    match continueLine? cs with
    | some rest => some (none, rest)
    | none => (escape? cs).map fun (c, rest) => (some c, rest)
  | c :: cs => some (some c, cs)

/-- The characters that the body of a string stands for. -/
def unescape? (quote : Char) (body : List Char) : Option (List Char) :=
  if hasEscapes quote then (readAll unescapeOne body).map (List.filterMap id) else some body

/-- The body of a string on one line, and the text after its quote. -/
def lineBody? (quote : Char) : List Char → Option (List Char × List Char)
  | [] => none
  | c :: cs =>
    if c = quote then some ([], cs)
    else if !isPlain c then none
    else if hasEscapes quote && c = '\\' then
      match cs with
      | [] => none
      | d :: rest =>
        if isPlain d then (lineBody? quote rest).map fun (body, after) => (c :: d :: body, after)
        else none
    else (lineBody? quote cs).map fun (body, after) => (c :: body, after)

/-- The body of a string that may span lines, and the text after its three quotes. Up to two quotes
right before those belong to the body. -/
def blockBody? (quote : Char) : List Char → Option (List Char × List Char)
  | [] => none
  | c :: cs =>
    if c = quote then
      if [quote, quote].isPrefixOf cs then
        let extra := ((cs.drop 2).take 2).takeWhile (· = quote)
        some (extra, (cs.drop 2).drop extra.length)
      else (blockBody? quote cs).map fun (body, after) => (c :: body, after)
    else if !isPlain c && c ≠ '\n' then none
    else if hasEscapes quote && c = '\\' then
      match cs with
      | [] => none
      | d :: rest =>
        if isPlain d || d = '\n' then
          (blockBody? quote rest).map fun (body, after) => (c :: d :: body, after)
        else none
    else (blockBody? quote cs).map fun (body, after) => (c :: body, after)

/-- A text without the line feed at its start, if it has one. -/
def dropLineFeed : List Char → List Char
  | '\n' :: cs => cs
  | cs => cs

/-- A string on one line and the text after it; the text starts after the first quote. -/
def lineString? (quote : Char) (cs : List Char) : Option (String × List Char) :=
  (lineBody? quote cs).bind fun (body, after) =>
    (unescape? quote body).map fun chars => (String.ofList chars, after)

/-- A string that may span lines and the text after it; the text starts after the third quote. A
line feed right there is no part of the string. -/
def blockString? (quote : Char) (cs : List Char) : Option (String × List Char) :=
  (blockBody? quote (dropLineFeed cs)).bind fun (body, after) =>
    (unescape? quote body).map fun chars => (String.ofList chars, after)

namespace Scalar

/-- A string in any of its forms and the text after it; the text starts after the first quote. -/
def readQuoted? (quote : Char) (cs : List Char) : Option (String × List Char) :=
  if [quote, quote].isPrefixOf cs then blockString? quote (cs.drop 2) else lineString? quote cs

/-! ## Other values -/

/-- The value of digits to a base, with single underscores allowed between digits. -/
def baseValue? (base : Nat) (cs : List Char) : Option Nat :=
  if (Text.pieces '_' cs).any List.isEmpty then none
  else
    ((cs.filter (· ≠ '_')).mapM fun c => (Number.hexValue? c).filter (· < base)).map fun values =>
      values.foldl (fun n v => base * n + v) 0

/-- The value of a decimal number without a sign, which starts with a zero only if it is zero. -/
def decimalValue? (cs : List Char) : Option Nat :=
  if cs.head? = some '0' && cs.length ≠ 1 then none else baseValue? 10 cs

/-- The value of a whole number; only decimal ones have a sign. -/
def wholeValue? : List Char → Option Int
  | '+' :: cs => (decimalValue? cs).map Int.ofNat
  | '-' :: cs => (decimalValue? cs).map fun n => -Int.ofNat n
  | '0' :: 'x' :: cs => (baseValue? 16 cs).map Int.ofNat
  | '0' :: 'o' :: cs => (baseValue? 8 cs).map Int.ofNat
  | '0' :: 'b' :: cs => (baseValue? 2 cs).map Int.ofNat
  | cs => (decimalValue? cs).map Int.ofNat

/-- One more than the largest whole number: they have sixty-four bits, one of which is the sign. -/
def wholeBound : Int := 0x8000000000000000

/-- The value that a word stands for. -/
def ofWord? (cs : List Char) : Option Scalar :=
  if cs = "true".toList then some (.flag true)
  else if cs = "false".toList then some (.flag false)
  else ((wholeValue? cs).filter fun n => -wholeBound ≤ n && n < wholeBound).map .whole

/-- A value and the text after it. -/
def read? (cs : List Char) : Option (Scalar × List Char) :=
  match cs with
  | [] => none
  | c :: rest =>
    if c = basicQuote || c = literalQuote then
      (readQuoted? c rest).map fun (s, after) => (.text s, after)
    else
      let ends := fun d => isGap d || d = '\n' || d = '#'
      (ofWord? (cs.takeWhile fun d => !ends d)).map fun v => (v, cs.dropWhile fun d => !ends d)

end Scalar

/-! ## Documents -/

/-- Whether a character may occur in a key without quotes. -/
def isKeyChar (c : Char) : Bool := c.isAlphanum || c = '_' || c = '-'

/-- A key and the text after it. A quoted key is a string on one line. -/
def readKey? (cs : List Char) : Option (String × List Char) :=
  match cs with
  | [] => none
  | c :: rest =>
    if c = basicQuote || c = literalQuote then lineString? c rest
    else
      let word := cs.takeWhile isKeyChar
      if word.isEmpty then none else some (String.ofList word, cs.dropWhile isKeyChar)

/-- A key, an equals sign, a value and the end of their line. -/
def readSetting? (cs : List Char) : Option ((String × Scalar) × List Char) :=
  (readKey? cs).bind fun (key, afterKey) =>
    match skipGap afterKey with
    | '=' :: afterSign =>
      (Scalar.read? (skipGap afterSign)).bind fun (value, afterValue) =>
        (endLine? afterValue).map fun rest => ((key, value), rest)
    | _ => none

/-- What a line sets, if anything, and the lines after it. -/
def readLine? (cs : List Char) : Option (Option (String × Scalar) × List Char) :=
  match endLine? cs with
  | some rest => some (none, rest)
  | none => (readSetting? (skipGap cs)).map fun (setting, rest) => (some setting, rest)

/-- A text without the byte order mark at its start, if it has one. -/
def dropByteOrderMark : List Char → List Char
  | '\ufeff' :: cs => cs
  | cs => cs

/-- The keys and values of a document in order, unless a key is repeated. -/
def readSettings? (cs : List Char) : Option (List (String × Scalar)) :=
  ((readAll readLine? (unifyLineEnds (dropByteOrderMark cs))).map (List.filterMap id)).filter
    fun settings => (settings.map Prod.fst).eraseDups.length = settings.length

/-- A document with comments, two forms of strings and a number with underscores. -/
example : readSettings? "a = \"x\" # c\n\n b='\\' \r\nc = 1_000".toList =
    some [("a", .text "x"), ("b", .text "\\"), ("c", .whole 1000)] := by
  decide +kernel

end LvmControl.Settings
