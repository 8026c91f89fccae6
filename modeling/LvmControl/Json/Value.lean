/-!
# JSON values

The values that a report is made of, in the order in which the text has them.

## Main definitions

* `Json`: a value. Members of an object keep their order, and a key may repeat.
* `Document`: a value together with what is to be said about the text after it.

## Design notes

**The point where a text stops being JSON is part of the value.** A reader of reports takes a
document from its start to its end and answers with the first thing that is wrong, be it a bad name
or bad syntax. A value therefore shows where its text broke off: the part that broke is
`Json.broken`, and so is one more item, or member without key, at the end of every array or object
around it. Whoever walks a value in order meets every fault in order.

**Strings that are no text.** Escapes can spell halves of surrogate pairs that do not pair up. Such
a string is well formed as JSON but stands for no text; it is `none`.
-/

namespace LvmControl

/-- A JSON value. -/
inductive Json
  | null
  | bool (value : Bool)
  /-- A number, as it is spelled. -/
  | number (literal : String)
  /-- A string, or `none` for one that stands for no text. -/
  | string (text : Option String)
  | array (items : List Json)
  /-- An object; the key of a member is `none` where it stands for no text. -/
  | object (members : List (Option String × Json))
  /-- The place where the text stops being JSON. -/
  | broken

namespace Json

/-- The string of a text. -/
def ofText (s : String) : Json := .string (some s)

/-- The object with the given members. -/
def ofMembers (members : List (String × Json)) : Json :=
  .object (members.map fun (key, value) => (some key, value))

/-- A text read as one value. -/
structure Document where
  value : Json
  /-- Whether the text ended where the value did, blanks apart. -/
  complete : Bool

end Json

end LvmControl
