import LvmControl.Text.Utf8

/-!
# Bytes that are text

Bytes are taken as a text exactly if they are the UTF-8 encoding of it, as the standard library
encodes characters. No text is refused, and nothing that is not an encoding is taken: neither
overlong forms nor surrogates, and nothing beyond the last code point.

## Main definitions

* `encode`: the bytes of a text.
* `Encodes`: the sequences of bytes that stand for a code point, by their length.

## Main statements

* `Encodes.utf8EncodeChar_eq`, `encodes_utf8EncodeChar`: the sequences that stand for code points
  are the encodings of characters.
* `decodeOne_eq_some_iff`: one step takes the encoding of a character from the front.
* `decode?_eq_some_iff`: bytes are read as a text exactly if they encode it.
-/

namespace LvmControl.Text

/-! ## Sequences -/

/-- The bytes of a text. -/
def encode (cs : List Char) : List UInt8 := cs.flatMap String.utf8EncodeChar

theorem encode_cons (c : Char) (cs : List Char) :
    encode (c :: cs) = String.utf8EncodeChar c ++ encode cs :=
  List.flatMap_cons

/-- A byte that may follow others. -/
def Continues (b : UInt8) : Prop := 0x80 ≤ b.toNat ∧ b.toNat ≤ 0xbf

/-- The sequences of bytes that stand for code points. In the longer ones the second byte is bounded
from below so that the code point has no shorter sequence, and from above so that it is a
character. -/
inductive Encodes : Nat → List UInt8 → Prop
  | one {a : UInt8} : a.toNat ≤ 0x7f → Encodes a.toNat [a]
  | two {a b : UInt8} : 0xc2 ≤ a.toNat ∧ a.toNat ≤ 0xdf → Continues b →
      Encodes ((a.toNat - 0xc0) * 64 + (b.toNat - 0x80)) [a, b]
  | three {a b c : UInt8} : 0xe0 ≤ a.toNat ∧ a.toNat ≤ 0xef →
      (if a.toNat = 0xe0 then 0xa0 else 0x80) ≤ b.toNat ∧
        b.toNat ≤ (if a.toNat = 0xed then 0x9f else 0xbf) → Continues c →
      Encodes (((a.toNat - 0xe0) * 64 + (b.toNat - 0x80)) * 64 + (c.toNat - 0x80)) [a, b, c]
  | four {a b c d : UInt8} : 0xf0 ≤ a.toNat ∧ a.toNat ≤ 0xf4 →
      (if a.toNat = 0xf0 then 0x90 else 0x80) ≤ b.toNat ∧
        b.toNat ≤ (if a.toNat = 0xf4 then 0x8f else 0xbf) → Continues c → Continues d →
      Encodes ((((a.toNat - 0xf0) * 64 + (b.toNat - 0x80)) * 64 + (c.toNat - 0x80)) * 64 +
        (d.toNat - 0x80)) [a, b, c, d]

/-! ## Lead bytes -/

variable {x : Nat}

theorem lead_one (h : x ≤ 0x7f) : lead x = some ⟨x, 0, 0x80, 0xbf⟩ := if_pos h

theorem lead_two (h : 0xc2 ≤ x ∧ x ≤ 0xdf) : lead x = some ⟨x - 0xc0, 1, 0x80, 0xbf⟩ := by
  grind [lead]

/-- A byte that announces two others. What comes after the first and after the last but two of them
has a narrower range. -/
theorem lead_three (h : 0xe0 ≤ x ∧ x ≤ 0xef) :
    lead x = some ⟨x - 0xe0, 2, if x = 0xe0 then 0xa0 else 0x80,
      if x = 0xed then 0x9f else 0xbf⟩ := by
  grind [lead]

/-- A byte that announces three others. What comes after the first and after the last of them has a
narrower range. -/
theorem lead_four (h : 0xf0 ≤ x ∧ x ≤ 0xf4) :
    lead x = some ⟨x - 0xf0, 3, if x = 0xf0 then 0x90 else 0x80,
      if x = 0xf4 then 0x8f else 0xbf⟩ := by
  grind [lead]

theorem lead_none (h : 0x80 ≤ x ∧ x ≤ 0xc1 ∨ 0xf5 ≤ x) : lead x = none := by
  grind [lead]

theorem Encodes.ne_nil {code : Nat} {sequence : List UInt8} (h : Encodes code sequence) :
    sequence ≠ [] := by
  cases h <;> simp

/-! ## One step -/

theorem followers_zero_eq_some_iff {low high code value : Nat} {bytes left : List UInt8} :
    followers 0 low high code bytes = (some value, left) ↔ code = value ∧ bytes = left := by
  simp [followers]

theorem followers_succ_eq_some_iff {n low high code value : Nat} {bytes left : List UInt8} :
    followers (n + 1) low high code bytes = (some value, left) ↔
      ∃ b rest, bytes = b :: rest ∧ (low ≤ b.toNat ∧ b.toNat ≤ high) ∧
        followers n 0x80 0xbf (code * 64 + (b.toNat - 0x80)) rest = (some value, left) := by
  cases bytes with
  | nil => simp [followers]
  | cons b rest =>
    simp only [followers, Bool.and_eq_true, decide_eq_true_eq]
    constructor
    · intro h
      split at h
      · rename_i hb
        exact ⟨b, rest, rfl, hb, h⟩
      · simp at h
    · rintro ⟨b, rest, ⟨rfl, rfl⟩, hb, h⟩
      rwa [if_pos hb]

theorem decodeOne_eq_some_iff_of_lead {b : UInt8} {l : Lead} (h : lead b.toNat = some l)
    {rest left : List UInt8} {c : Char} :
    decodeOne b rest = (some c, left) ↔
      ∃ code, followers l.followers l.low l.high l.bits rest = (some code, left) ∧
        Char.ofNat code = c := by
  simp only [decodeOne, h, Option.map_eq_some_iff, Prod.ext_iff]
  exact ⟨fun ⟨⟨code, hcode, hc⟩, hleft⟩ => ⟨code, ⟨hcode, hleft⟩, hc⟩,
    fun ⟨code, ⟨hcode, hleft⟩, hc⟩ => ⟨⟨code, hcode, hc⟩, hleft⟩⟩

/-- One step takes a sequence that stands for a code point from the front. -/
theorem decodeOne_eq_some_iff_encodes {b : UInt8} {rest left : List UInt8} {c : Char} :
    decodeOne b rest = (some c, left) ↔
      ∃ code sequence, Encodes code sequence ∧ Char.ofNat code = c ∧
        b :: rest = sequence ++ left := by
  constructor
  · intro h
    obtain hb | hb | hb | hb | hb : b.toNat ≤ 0x7f ∨ (0xc2 ≤ b.toNat ∧ b.toNat ≤ 0xdf) ∨
        (0xe0 ≤ b.toNat ∧ b.toNat ≤ 0xef) ∨ (0xf0 ≤ b.toNat ∧ b.toNat ≤ 0xf4) ∨
        (0x80 ≤ b.toNat ∧ b.toNat ≤ 0xc1 ∨ 0xf5 ≤ b.toNat) := by omega
    · obtain ⟨code, hcode, rfl⟩ := (decodeOne_eq_some_iff_of_lead (lead_one hb)).mp h
      obtain ⟨rfl, rfl⟩ := followers_zero_eq_some_iff.mp hcode
      exact ⟨_, _, .one hb, rfl, rfl⟩
    · obtain ⟨code, hcode, rfl⟩ := (decodeOne_eq_some_iff_of_lead (lead_two hb)).mp h
      obtain ⟨b₁, rest, rfl, h₁, hcode⟩ := followers_succ_eq_some_iff.mp hcode
      obtain ⟨rfl, rfl⟩ := followers_zero_eq_some_iff.mp hcode
      exact ⟨_, _, .two hb h₁, rfl, rfl⟩
    · obtain ⟨code, hcode, rfl⟩ := (decodeOne_eq_some_iff_of_lead (lead_three hb)).mp h
      obtain ⟨b₁, rest, rfl, h₁, hcode⟩ := followers_succ_eq_some_iff.mp hcode
      obtain ⟨b₂, rest, rfl, h₂, hcode⟩ := followers_succ_eq_some_iff.mp hcode
      obtain ⟨rfl, rfl⟩ := followers_zero_eq_some_iff.mp hcode
      exact ⟨_, _, .three hb h₁ h₂, rfl, rfl⟩
    · obtain ⟨code, hcode, rfl⟩ := (decodeOne_eq_some_iff_of_lead (lead_four hb)).mp h
      obtain ⟨b₁, rest, rfl, h₁, hcode⟩ := followers_succ_eq_some_iff.mp hcode
      obtain ⟨b₂, rest, rfl, h₂, hcode⟩ := followers_succ_eq_some_iff.mp hcode
      obtain ⟨b₃, rest, rfl, h₃, hcode⟩ := followers_succ_eq_some_iff.mp hcode
      obtain ⟨rfl, rfl⟩ := followers_zero_eq_some_iff.mp hcode
      exact ⟨_, _, .four hb h₁ h₂ h₃, rfl, rfl⟩
    · simp [decodeOne, lead_none hb] at h
  · rintro ⟨code, sequence, hcode, rfl, hbytes⟩
    cases hcode with
    | one ha =>
      obtain ⟨rfl, rfl⟩ := List.cons.inj hbytes
      exact (decodeOne_eq_some_iff_of_lead (lead_one ha)).mpr
        ⟨_, followers_zero_eq_some_iff.mpr ⟨rfl, rfl⟩, rfl⟩
    | two ha hb =>
      obtain ⟨rfl, rfl⟩ := List.cons.inj hbytes
      refine (decodeOne_eq_some_iff_of_lead (lead_two ha)).mpr ⟨_, ?_, rfl⟩
      exact followers_succ_eq_some_iff.mpr
        ⟨_, _, rfl, hb, followers_zero_eq_some_iff.mpr ⟨rfl, rfl⟩⟩
    | three ha hb hc =>
      obtain ⟨rfl, rfl⟩ := List.cons.inj hbytes
      refine (decodeOne_eq_some_iff_of_lead (lead_three ha)).mpr ⟨_, ?_, rfl⟩
      refine followers_succ_eq_some_iff.mpr ⟨_, _, rfl, hb, ?_⟩
      exact followers_succ_eq_some_iff.mpr
        ⟨_, _, rfl, hc, followers_zero_eq_some_iff.mpr ⟨rfl, rfl⟩⟩
    | four ha hb hc hd =>
      obtain ⟨rfl, rfl⟩ := List.cons.inj hbytes
      refine (decodeOne_eq_some_iff_of_lead (lead_four ha)).mpr ⟨_, ?_, rfl⟩
      refine followers_succ_eq_some_iff.mpr ⟨_, _, rfl, hb, ?_⟩
      refine followers_succ_eq_some_iff.mpr ⟨_, _, rfl, hc, ?_⟩
      exact followers_succ_eq_some_iff.mpr
        ⟨_, _, rfl, hd, followers_zero_eq_some_iff.mpr ⟨rfl, rfl⟩⟩

/-! ## The encoding of a character -/

theorem toNat_ofNat_of_isValidChar {code : Nat} (h : code.isValidChar) :
    (Char.ofNat code).toNat = code := by
  rw [Char.ofNat, dif_pos h]
  rfl

theorem ofNat_eq {n : Nat} {b : UInt8} (h : n = b.toNat) : UInt8.ofNat n = b := by
  rw [h, UInt8.ofNat_toNat]

/-- A sequence stands for the code point of a character. -/
theorem Encodes.isValidChar {code : Nat} {sequence : List UInt8} (h : Encodes code sequence) :
    code.isValidChar := by
  rw [Nat.isValidChar]
  cases h with
  | one ha => omega
  | two ha hb => grind [Continues]
  | three ha hb hc => grind [Continues]
  | four ha hb hc hd => grind [Continues]

/-- A sequence that stands for a code point is the encoding of its character. -/
theorem Encodes.utf8EncodeChar_eq {code : Nat} {sequence : List UInt8} (h : Encodes code sequence) :
    String.utf8EncodeChar (Char.ofNat code) = sequence := by
  rw [String.utf8EncodeChar, Char.toNat_val, toNat_ofNat_of_isValidChar h.isValidChar]
  cases h with
  | one ha => rw [if_pos ha, UInt8.ofNat_toNat]
  | two ha hb =>
    rw [Continues] at hb
    rw [if_neg (by omega), if_pos (by omega)]
    simp only [List.cons.injEq, and_true]
    exact ⟨ofNat_eq (by omega), ofNat_eq (by omega)⟩
  | three ha hb hc =>
    rw [Continues] at hc
    rw [if_neg (by grind), if_neg (by grind), if_pos (by grind)]
    simp only [List.cons.injEq, and_true]
    exact ⟨ofNat_eq (by grind), ofNat_eq (by grind), ofNat_eq (by grind)⟩
  | four ha hb hc hd =>
    rw [Continues] at hc hd
    rw [if_neg (by grind), if_neg (by grind), if_neg (by grind)]
    simp only [List.cons.injEq, and_true]
    exact ⟨ofNat_eq (by grind), ofNat_eq (by grind), ofNat_eq (by grind), ofNat_eq (by grind)⟩

theorem toNat_byte {n : Nat} (h : n < 256) : (UInt8.ofNat n).toNat = n := by
  rw [UInt8.toNat_ofNat', Nat.mod_eq_of_lt h]

theorem Encodes.of_eq {code value : Nat} {sequence : List UInt8}
    (h : Encodes code sequence) (heq : code = value) : Encodes value sequence :=
  heq ▸ h

/-- The encoding of a character stands for its code point. -/
theorem encodes_utf8EncodeChar (c : Char) : Encodes c.toNat (String.utf8EncodeChar c) := by
  have hvalid : c.toNat.isValidChar := c.valid
  rw [Nat.isValidChar] at hvalid
  rw [String.utf8EncodeChar, Char.toNat_val]
  generalize c.toNat = code at hvalid ⊢
  have hlast := toNat_byte (n := code % 64 + 128) (by omega)
  have hthird := toNat_byte (n := code / 64 % 64 + 128) (by omega)
  have hsecond := toNat_byte (n := code / 4096 % 64 + 128) (by omega)
  split
  · have ha := toNat_byte (n := code) (by omega)
    exact (Encodes.one (by omega)).of_eq ha
  split
  · have ha := toNat_byte (n := code / 64 % 32 + 192) (by omega)
    exact (Encodes.two (by omega) (by grind [Continues])).of_eq (by omega)
  split
  · have ha := toNat_byte (n := code / 4096 % 16 + 224) (by omega)
    exact (Encodes.three (by omega) (by grind) (by grind [Continues])).of_eq (by omega)
  · have ha := toNat_byte (n := code / 262144 % 8 + 240) (by omega)
    exact (Encodes.four (by omega) (by grind) (by grind [Continues]) (by grind [Continues])).of_eq
      (by omega)

/-! ## Texts -/

/-- One step takes the encoding of a character from the front, and nothing else. -/
theorem decodeOne_eq_some_iff {b : UInt8} {rest left : List UInt8} {c : Char} :
    decodeOne b rest = (some c, left) ↔ b :: rest = String.utf8EncodeChar c ++ left := by
  rw [decodeOne_eq_some_iff_encodes]
  constructor
  · rintro ⟨code, sequence, h, rfl, hbytes⟩
    rw [hbytes, h.utf8EncodeChar_eq]
  · intro h
    exact ⟨c.toNat, _, encodes_utf8EncodeChar c, Char.ofNat_toNat c, h⟩

/-- No part of the bytes is invalid exactly if they are the encoding of the characters. -/
theorem decodeParts_eq_map_some_iff {bytes : List UInt8} {cs : List Char} :
    decodeParts bytes = cs.map some ↔ bytes = encode cs := by
  induction cs generalizing bytes with
  | nil => cases bytes <;> simp [decodeParts, encode]
  | cons c cs ih =>
    cases bytes with
    | nil =>
      have hne : encode (c :: cs) ≠ [] := by
        rw [encode_cons]
        exact List.append_ne_nil_of_left_ne_nil (encodes_utf8EncodeChar c).ne_nil _
      exact iff_of_false (by simp [decodeParts]) hne.symm
    | cons b rest =>
      rw [decodeParts, List.map_cons, List.cons.injEq, ih, encode_cons, ← decodeOne_eq_some_iff,
        Prod.ext_iff]

theorem mapM_id_eq_some_iff {α : Type} {l : List (Option α)} {as : List α} :
    l.mapM id = some as ↔ l = as.map some := by
  induction l generalizing as with
  | nil => cases as <;> simp
  | cons o l ih => cases as <;> simp [Option.bind_eq_some_iff, ih]

/-- **Reading bytes as text.** Bytes are read as a text exactly if they are its encoding. -/
theorem decode?_eq_some_iff {bytes : List UInt8} {s : String} :
    decode? bytes = some s ↔ bytes = encode s.toList := by
  rw [decode?, Option.map_eq_some_iff]
  constructor
  · rintro ⟨cs, hcs, rfl⟩
    rw [String.toList_ofList]
    exact decodeParts_eq_map_some_iff.mp (mapM_id_eq_some_iff.mp hcs)
  · intro h
    have hparts := decodeParts_eq_map_some_iff.mpr h
    exact ⟨s.toList, mapM_id_eq_some_iff.mpr hparts, String.ofList_toList⟩

end LvmControl.Text
