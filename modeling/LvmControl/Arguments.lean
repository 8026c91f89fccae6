/-!
# Argument lists

A command line is a list of tokens. A flag carries its value in the same token (`--size=10g`), so a
flag is always one token, and replacing it never leaves a value behind.

## Main definitions

* `flagKey`: what two tokens must share for one to replace the other: for a flag the part before its
  first equals sign, for any other token the whole of it.
* `Arguments`: the tokens in order.
* `Edit`: a change to an argument list, and `Arguments.apply`, which carries it out.
* `Edit.put`: the change that writes one token and removes every earlier one with the same key.

## Design notes

**Two changes are enough.** Everything a request writes is either a token put at the end whatever
is there already, or a block of tokens with one key that takes the place of all tokens with that
key. A flag is a block of one token, a list of tags a block of any length. A rendering is a list
of such changes, so that what several of them do together can be stated on lists, without naming a
command.
-/

namespace LvmControl

/-- What a token is replaced by: the part before the first equals sign of a flag, and the whole of
any other token. -/
def flagKey (token : String) : String :=
  if token.toList.head? = some '-' then
    String.ofList (token.toList.takeWhile (· ≠ '='))
  else token

/-- The tokens of a command line in order. -/
structure Arguments where
  tokens : List String
deriving DecidableEq, Repr

/-- A change to an argument list. -/
inductive Edit
  /-- Puts a token at the end. -/
  | append (token : String)
  /-- Removes every token with the key and puts the given ones at the end. -/
  | replace (key : String) (tokens : List String)
deriving DecidableEq, Repr

namespace Arguments

/-- No tokens. -/
def empty : Arguments := ⟨[]⟩

/-- Puts a token at the end. -/
def add (args : Arguments) (token : String) : Arguments := ⟨args.tokens ++ [token]⟩

/-- Puts tokens at the end. -/
def extend (args : Arguments) (tokens : List String) : Arguments := ⟨args.tokens ++ tokens⟩

/-- Removes every token with the key. -/
def remove (args : Arguments) (key : String) : Arguments :=
  ⟨args.tokens.filter fun t => flagKey t ≠ key⟩

/-- Whether a token with the key is there. -/
def contains (args : Arguments) (key : String) : Bool :=
  args.tokens.any fun t => flagKey t = key

/-- Puts a token at the end, in place of every token with its key. -/
def put (args : Arguments) (token : String) : Arguments := (args.remove (flagKey token)).add token

/-- The number of tokens. -/
def size (args : Arguments) : Nat := args.tokens.length

/-- The tokens with blanks between them. -/
def text (args : Arguments) : String := String.intercalate " " args.tokens

/-- Carries out one change. -/
def apply (args : Arguments) : Edit → Arguments
  | .append token => args.add token
  | .replace key tokens => (args.remove key).extend tokens

/-- Carries out changes in order. -/
def applyAll (args : Arguments) (edits : List Edit) : Arguments := edits.foldl apply args

@[simp] theorem applyAll_nil (args : Arguments) : args.applyAll [] = args := rfl

@[simp] theorem applyAll_cons (args : Arguments) (e : Edit) (es : List Edit) :
    args.applyAll (e :: es) = (args.apply e).applyAll es := rfl

theorem applyAll_append (args : Arguments) (es fs : List Edit) :
    args.applyAll (es ++ fs) = (args.applyAll es).applyAll fs := by
  simp [applyAll]

end Arguments

namespace Edit

/-- The change that writes one token in place of every earlier one with its key. -/
def put (token : String) : Edit := .replace (flagKey token) [token]

/-- Carrying out `Edit.put` is `Arguments.put`. -/
@[simp] theorem apply_put (args : Arguments) (token : String) :
    args.apply (.put token) = args.put token := rfl

end Edit

end LvmControl
