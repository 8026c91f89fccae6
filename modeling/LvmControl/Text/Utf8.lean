/-!
# Reading bytes as text

A process writes bytes. They are text when they are well-formed UTF-8; where they are not, each
maximal invalid part is shown as one replacement character, so that a diagnostic with a damaged
character stays readable.

## Main definitions

* `lead`: what the first byte of a sequence says about it, namely how many bytes follow and which
  range the second byte may lie in.
* `decodeLossy`: bytes as characters, with `replacement` for each maximal invalid part.
* `decode?`: bytes as characters, or `none` unless they are well formed throughout.

## Design notes

**Maximal parts.** An invalid part is a lead byte together with as many of its followers as are
still acceptable, and a byte that no sequence starts with is a part of its own. The second byte has
a narrower range after four of the lead bytes, which is what rules out overlong forms, surrogates
and code points above U+10FFFF.
-/

namespace LvmControl.Text

/-- The character shown for bytes that are not text. -/
def replacement : Char := Char.ofNat 0xfffd

/-- What a lead byte announces. -/
structure Lead where
  /-- The bits it contributes. -/
  bits : Nat
  /-- How many bytes follow it. -/
  followers : Nat
  /-- The least value of the byte after it. -/
  low : Nat
  /-- The greatest value of the byte after it. -/
  high : Nat

/-- The announcement of a byte, or `none` when no character starts with it. -/
def lead (b : Nat) : Option Lead :=
  if b ≤ 0x7f then some ⟨b, 0, 0x80, 0xbf⟩
  else if 0xc2 ≤ b && b ≤ 0xdf then some ⟨b - 0xc0, 1, 0x80, 0xbf⟩
  else if b = 0xe0 then some ⟨0, 2, 0xa0, 0xbf⟩
  else if b = 0xed then some ⟨0xd, 2, 0x80, 0x9f⟩
  else if 0xe1 ≤ b && b ≤ 0xef then some ⟨b - 0xe0, 2, 0x80, 0xbf⟩
  else if b = 0xf0 then some ⟨0, 3, 0x90, 0xbf⟩
  else if 0xf1 ≤ b && b ≤ 0xf3 then some ⟨b - 0xf0, 3, 0x80, 0xbf⟩
  else if b = 0xf4 then some ⟨4, 3, 0x80, 0x8f⟩
  else none

/-- Reads the bytes that must follow: the code point, or `none` when a byte is missing or out of
its range, and the bytes not used. The range given is that of the next byte; after it the range is
that of every continuation byte. -/
def followers : Nat → Nat → Nat → Nat → List UInt8 → Option Nat × List UInt8
  | 0, _, _, code, rest => (some code, rest)
  | _ + 1, _, _, _, [] => (none, [])
  | n + 1, low, high, code, b :: rest =>
    if low ≤ b.toNat && b.toNat ≤ high then
      followers n 0x80 0xbf (code * 64 + (b.toNat - 0x80)) rest
    else (none, b :: rest)

/-- The bytes that follow a lead byte are never added to. -/
theorem followers_length_le (n low high code : Nat) (bytes : List UInt8) :
    (followers n low high code bytes).2.length ≤ bytes.length := by
  induction n generalizing low high code bytes with
  | zero => simp [followers]
  | succ n ih =>
    cases bytes with
    | nil => simp [followers]
    | cons b rest =>
      unfold followers
      split
      · exact Nat.le_succ_of_le (ih ..)
      · exact Nat.le_refl _

/-- Reads one character or one maximal invalid part from the front of `b :: rest`. -/
def decodeOne (b : UInt8) (rest : List UInt8) : Option Char × List UInt8 :=
  match lead b.toNat with
  | none => (none, rest)
  | some l =>
    let (code, left) := followers l.followers l.low l.high l.bits rest
    (code.map Char.ofNat, left)

theorem decodeOne_length_le (b : UInt8) (rest : List UInt8) :
    (decodeOne b rest).2.length ≤ rest.length := by
  unfold decodeOne
  split
  · exact Nat.le_refl _
  · exact followers_length_le ..

/-- The characters and the invalid parts of a sequence of bytes, an invalid part being `none`. -/
def decodeParts : List UInt8 → List (Option Char)
  | [] => []
  | b :: rest => (decodeOne b rest).1 :: decodeParts (decodeOne b rest).2
termination_by bytes => bytes.length
decreasing_by
  have := decodeOne_length_le b rest
  simp only [List.length_cons]
  omega

/-- Bytes as text, with one replacement character for each maximal invalid part. -/
def decodeLossy (bytes : List UInt8) : String :=
  String.ofList ((decodeParts bytes).map (·.getD replacement))

/-- Bytes as text, or `none` if a part of them is invalid. -/
def decode? (bytes : List UInt8) : Option String :=
  ((decodeParts bytes).mapM id).map String.ofList

end LvmControl.Text
