import LvmControl.Proofs.Settings.Contents
import LvmControl.Proofs.Text.Cutting

/-!
# Settings files as they are written

A settings file is written line by line: an entry, a comment, both or neither, with gaps where one
likes. Values are truth values, decimal numbers and strings of either quote on one line. Such a file
is read as the entries that were written, in order, unless it has a key twice. Together with what
settings entries make, this says of every written file whether it is taken and with which settings.

## Main definitions

* `Gap`, `Comment`, `Key`, `WrittenValue`: the parts of a line, with what must hold of them.
* `WrittenEntry`, `WrittenLine`, `WrittenFile`: an entry, a line and a file.

## Main statements

* `read?_chars`: a written value is read as what it was written for.
* `readLine?_chars`: a written line is read as its entry, if it has one.
* `readSettings?_chars`: a written file is read as its entries, unless it has a key twice.
* `load_bytes_eq_ok_iff`: a written file is taken with the settings that its entries make.
-/

namespace LvmControl.Settings

/-! ## What is written -/

/-- Spaces and tabs. -/
abbrev Gap := { cs : List Char // ∀ c ∈ cs, isGap c = true }

/-- What stands behind a number sign. -/
abbrev Comment := { cs : List Char // ∀ c ∈ cs, isPlain c = true }

/-- A key without quotes. -/
abbrev Key := { cs : List Char // cs ≠ [] ∧ ∀ c ∈ cs, isKeyChar c = true }

/-- A character that stands for itself in a string on one line. -/
def Verbatim (quote c : Char) : Prop :=
  isPlain c = true ∧ c ≠ quote ∧ (hasEscapes quote = true → c ≠ '\\')

/-- A value as it is written. -/
inductive WrittenValue
  | flag (on : Bool)
  /-- A whole number in decimal. -/
  | whole (n : Int) (range : -Scalar.wholeBound ≤ n ∧ n < Scalar.wholeBound)
  /-- A string on one line. -/
  | text (quote : Char) (body : List Char) (isQuote : quote = basicQuote ∨ quote = literalQuote)
    (verbatim : ∀ c ∈ body, Verbatim quote c)

namespace WrittenValue

/-- The characters of a value. -/
def chars : WrittenValue → List Char
  | flag true => "true".toList
  | flag false => "false".toList
  | whole n _ =>
    (if n < 0 then ['-'] else []) ++ Number.decimalDigits n.natAbs
  | text quote body _ _ => quote :: (body ++ [quote])

/-- What a value is written for. -/
def value : WrittenValue → Scalar
  | flag on => .flag on
  | whole n _ => .whole n
  | text _ body _ _ => .text (String.ofList body)

end WrittenValue

/-- A key, an equals sign and a value, with gaps before each of them. -/
structure WrittenEntry where
  indent : Gap
  key : Key
  beforeSign : Gap
  beforeValue : Gap
  value : WrittenValue

namespace WrittenEntry

/-- The characters of an entry. -/
def chars (e : WrittenEntry) : List Char :=
  e.indent.1 ++ (e.key.1 ++ (e.beforeSign.1 ++ '=' :: (e.beforeValue.1 ++ e.value.chars)))

/-- The key and the value of an entry. -/
def setting (e : WrittenEntry) : String × Scalar := (String.ofList e.key.1, e.value.value)

end WrittenEntry

/-- A line, which may have an entry and a comment. -/
structure WrittenLine where
  entry : Option WrittenEntry
  trail : Gap
  comment : Option Comment

namespace WrittenLine

/-- What comes after the entry on a line. -/
def remark (l : WrittenLine) : List Char :=
  l.trail.1 ++ (l.comment.map fun comment => '#' :: comment.1).getD []

/-- The characters of a line, without its ending. -/
def chars (l : WrittenLine) : List Char :=
  (l.entry.map WrittenEntry.chars).getD [] ++ l.remark

/-- What a line sets, if anything. -/
def setting? (l : WrittenLine) : Option (String × Scalar) := l.entry.map WrittenEntry.setting

end WrittenLine

/-- A file: perhaps a byte order mark, then lines, each ended by a line feed that may have a
carriage return before it, and after the last ending one more line, which may be empty. -/
structure WrittenFile where
  mark : Bool
  lines : List (WrittenLine × Bool)
  last : WrittenLine

namespace WrittenFile

/-- The characters of a line and its ending. -/
def endedLine (l : WrittenLine × Bool) : List Char :=
  l.1.chars ++ if l.2 then ['\r', '\n'] else ['\n']

/-- The characters of a file. -/
def chars (f : WrittenFile) : List Char :=
  (if f.mark then ['\ufeff'] else []) ++ (f.lines.flatMap endedLine ++ f.last.chars)

/-- The bytes of a file. -/
def bytes (f : WrittenFile) : List UInt8 := Text.encode f.chars

/-- The entries of a file. -/
def settings (f : WrittenFile) : List (String × Scalar) :=
  (f.lines.map Prod.fst ++ [f.last]).filterMap WrittenLine.setting?

end WrittenFile

/-! ## Runs of characters -/

/-- A text that does not go on with a character of a class. -/
def Stops (p : Char → Bool) (cs : List Char) : Prop := ∀ c, cs.head? = some c → p c = false

section

variable {p : Char → Bool} {cs rest : List Char} {c : Char}

theorem stops_cons (h : p c = false) : Stops p (c :: cs) := by
  rintro _ ⟨⟩
  exact h

theorem takeWhile_append_of_stops (h : ∀ c ∈ cs, p c = true) (hrest : Stops p rest) :
    (cs ++ rest).takeWhile p = cs := by
  rw [List.takeWhile_append_of_pos h]
  cases rest with
  | nil => simp
  | cons d ds => rw [List.takeWhile_cons_of_neg (by simp [hrest d rfl]), List.append_nil]

theorem dropWhile_append_of_stops (h : ∀ c ∈ cs, p c = true) (hrest : Stops p rest) :
    (cs ++ rest).dropWhile p = rest := by
  rw [List.dropWhile_append_of_pos h]
  cases rest with
  | nil => rfl
  | cons d ds => rw [List.dropWhile_cons_of_neg (by simp [hrest d rfl])]

/-- What a text of parts begins with is the beginning of the first part that is not empty. -/
theorem stops_append (hcs : Stops p cs) (hrest : cs = [] → Stops p rest) :
    Stops p (cs ++ rest) := by
  cases cs with
  | nil => exact hrest rfl
  | cons d ds => exact fun c hc => hcs c hc

theorem stops_of_forall {q : Char → Bool} (h : ∀ c ∈ cs, q c = true)
    (hpq : ∀ c, q c = true → p c = false) : Stops p cs := fun c hc =>
  hpq c (h c (List.mem_of_mem_head? hc))

end

/-- A gap at the start of a text is skipped. -/
theorem skipGap_append (gap : Gap) {rest : List Char} (h : Stops isGap rest) :
    skipGap (gap.1 ++ rest) = rest :=
  dropWhile_append_of_stops gap.2 h

theorem readAll_append {α : Type} {item : List Char → Option (α × List Char)} {cs rest : List Char}
    {a : α} (hne : cs ≠ []) (h : item (cs ++ rest) = some (a, rest)) :
    readAll item (cs ++ rest) = (readAll item rest).map (a :: ·) := by
  cases cs with
  | nil => exact absurd rfl hne
  | cons c cs =>
    rw [List.cons_append] at h ⊢
    rw [readAll, h]
    simp

/-! ## Numbers -/

theorem hexValue?_digitChar {d : Nat} (h : d < 10) :
    (Number.hexValue? (Number.digitChar d)).filter (· < 10) = some d := by
  have hdigit : Number.hexDigit d = Number.digitChar d := if_pos h
  rw [← hdigit, Number.hexValue?_hexDigit (by omega)]
  simp [h]

/-- The digits of a number have the values that make it up. -/
theorem exists_values_decimalDigits (n : Nat) :
    ∃ values, (Number.decimalDigits n).mapM
        (fun c => (Number.hexValue? c).filter (· < 10)) = some values ∧
      values.foldl (fun n v => 10 * n + v) 0 = n := by
  induction n using Nat.strongRecOn with
  | ind n ih =>
    unfold Number.decimalDigits
    split
    · rename_i h
      exact ⟨[n], by simp [hexValue?_digitChar h], by simp⟩
    · rename_i h
      obtain ⟨values, hvalues, hn⟩ := ih (n / 10) (by omega)
      refine ⟨values ++ [n % 10], ?_, ?_⟩
      · simp [List.mapM_append, hvalues, hexValue?_digitChar (Nat.mod_lt n (by decide : 0 < 10))]
      · rw [List.foldl_append, hn, List.foldl_cons, List.foldl_nil]
        omega

/-- Only zero is written with a zero in front. -/
theorem head?_decimalDigits {n : Nat} (h : 0 < n) : (Number.decimalDigits n).head? ≠ some '0' := by
  induction n using Nat.strongRecOn with
  | ind n ih =>
    unfold Number.decimalDigits
    split
    · rename_i hlt
      intro hzero
      have hnat := congrArg Char.toNat (Option.some.inj hzero)
      rw [Number.toNat_digitChar hlt] at hnat
      exact absurd hnat (by simp; omega)
    · rename_i hle
      rw [List.head?_append_of_ne_nil _ (Number.decimalDigits_ne_nil _)]
      exact ih (n / 10) (by omega) (by omega)

theorem decimalValue?_decimalDigits (n : Nat) :
    Scalar.decimalValue? (Number.decimalDigits n) = some n := by
  have hdigits := List.all_eq_true.mp (Number.all_isDigit_decimalDigits n)
  have hscore : '_' ∉ Number.decimalDigits n := fun hmem => absurd (hdigits '_' hmem) (by decide)
  -- No number is refused for a zero in front, as zero alone is written with one.
  have hzero : ¬ ((Number.decimalDigits n).head? = some '0' ∧
      (Number.decimalDigits n).length ≠ 1) := by
    rintro ⟨hhead, hlength⟩
    rcases Nat.eq_zero_or_pos n with rfl | hn
    · exact hlength (by decide +kernel)
    · exact head?_decimalDigits hn hhead
  have hkept : (Number.decimalDigits n).filter (· ≠ '_') = Number.decimalDigits n :=
    List.filter_eq_self.mpr fun c hc => by simpa using fun heq : c = '_' => hscore (heq ▸ hc)
  obtain ⟨values, hvalues, hn⟩ := exists_values_decimalDigits n
  rw [Scalar.decimalValue?, if_neg (by simpa using hzero), Scalar.baseValue?,
    Text.pieces_eq_singleton hscore, hkept, hvalues]
  simp [Number.decimalDigits_ne_nil, hn]

/-- Digits alone are a number in decimal. -/
theorem wholeValue?_of_isDigit {cs : List Char} (h : ∀ c ∈ cs, c.isDigit = true) :
    Scalar.wholeValue? cs = (Scalar.decimalValue? cs).map Int.ofNat := by
  unfold Scalar.wholeValue?
  split
  · exact absurd (h '+' (by simp)) (by decide)
  · exact absurd (h '-' (by simp)) (by decide)
  · exact absurd (h 'x' (by simp)) (by decide)
  · exact absurd (h 'o' (by simp)) (by decide)
  · exact absurd (h 'b' (by simp)) (by decide)
  · rfl

theorem wholeValue?_chars (n : Int) :
    Scalar.wholeValue? ((if n < 0 then ['-'] else []) ++ Number.decimalDigits n.natAbs) =
      some n := by
  split
  · have hneg : -Int.ofNat n.natAbs = n := by
      rw [Int.ofNat_eq_natCast]
      omega
    rw [List.singleton_append, Scalar.wholeValue?, decimalValue?_decimalDigits, Option.map_some,
      hneg]
  · have hpos : Int.ofNat n.natAbs = n := by
      rw [Int.ofNat_eq_natCast]
      omega
    have hdigits := List.all_eq_true.mp (Number.all_isDigit_decimalDigits n.natAbs)
    rw [List.nil_append, wholeValue?_of_isDigit hdigits, decimalValue?_decimalDigits,
      Option.map_some, hpos]

/-! ## Values -/

/-- A character that ends a value without quotes. -/
def endsWord (c : Char) : Bool := isGap c || c = '\n' || c = '#'

/-- A character of a value without quotes. -/
def isWordChar (c : Char) : Bool := !endsWord c && c ≠ basicQuote && c ≠ literalQuote

/-- A word is read up to where it ends. -/
theorem read?_word {word rest : List Char} {v : Scalar} (hne : word ≠ [])
    (hword : ∀ c ∈ word, isWordChar c = true) (hrest : Stops (fun c => !endsWord c) rest)
    (hv : Scalar.ofWord? word = some v) : Scalar.read? (word ++ rest) = some (v, rest) := by
  simp only [isWordChar, Bool.and_eq_true, decide_eq_true_eq, and_assoc] at hword
  have hkept : ∀ c ∈ word, (!endsWord c) = true := fun c hc => (hword c hc).1
  have htake := takeWhile_append_of_stops hkept hrest
  have hdrop := dropWhile_append_of_stops hkept hrest
  cases word with
  | nil => exact absurd rfl hne
  | cons c word =>
    have hc := (hword c List.mem_cons_self).2
    rw [List.cons_append] at htake hdrop ⊢
    simp only [endsWord] at htake hdrop
    simp only [Scalar.read?, htake, hdrop, hv]
    rw [if_neg (by simp [hc])]
    rfl

/-- A string is read up to its quote. -/
theorem lineBody?_append {quote : Char} {body : List Char} (h : ∀ c ∈ body, Verbatim quote c)
    (rest : List Char) : lineBody? quote (body ++ quote :: rest) = some (body, rest) := by
  induction body with
  | nil =>
    rw [List.nil_append]
    unfold lineBody?
    rw [if_pos rfl]
  | cons c body ih =>
    obtain ⟨⟨hplain, hne, hslash⟩, hbody⟩ := List.forall_mem_cons.mp h
    have hescape : ¬ (hasEscapes quote = true ∧ c = '\\') := fun hc => hslash hc.1 hc.2
    rw [List.cons_append]
    unfold lineBody?
    rw [if_neg hne, if_neg (by simp [hplain]), if_neg (by simpa using hescape), ih hbody]
    rfl

theorem unescapeOne_cons {c : Char} (h : c ≠ '\\') (cs : List Char) :
    unescapeOne (c :: cs) = some (some c, cs) := by
  unfold unescapeOne
  split <;> simp_all

/-- A body without backslashes has no escapes. -/
theorem unescape?_of_verbatim {quote : Char} {body : List Char}
    (h : ∀ c ∈ body, Verbatim quote c) : unescape? quote body = some body := by
  unfold unescape?
  split
  · rename_i hescapes
    suffices hread : readAll unescapeOne body = some (body.map some) by
      simp [hread]
    induction body with
    | nil => simp [readAll]
    | cons c body ih =>
      obtain ⟨⟨-, -, hslash⟩, hbody⟩ := List.forall_mem_cons.mp h
      have hone := unescapeOne_cons (hslash hescapes) body
      rw [← List.singleton_append, readAll_append (by simp) hone, ih hbody]
      rfl
  · rfl

theorem isQuote_not_endsWord {quote : Char} (h : quote = basicQuote ∨ quote = literalQuote) :
    endsWord quote = false := by
  rcases h with rfl | rfl <;> decide

theorem read?_text {quote : Char} {body : List Char}
    (hquote : quote = basicQuote ∨ quote = literalQuote) (h : ∀ c ∈ body, Verbatim quote c)
    {rest : List Char} (hrest : Stops (fun c => !endsWord c) rest) :
    Scalar.read? (quote :: (body ++ quote :: rest)) = some (.text (String.ofList body), rest) := by
  -- Three quotes would open a string of several lines. But behind an empty string its word ends, so
  -- no third quote comes, and the quote is not in a body that is not empty.
  have hblock : ¬ [quote, quote] <+: body ++ quote :: rest := by
    intro hprefix
    cases body with
    | nil =>
      rw [List.nil_append, List.cons_prefix_cons] at hprefix
      obtain ⟨after, hafter⟩ := hprefix.2
      have hends := hrest quote (by rw [← hafter]; rfl)
      simp [isQuote_not_endsWord hquote] at hends
    | cons c body =>
      rw [List.cons_append, List.cons_prefix_cons] at hprefix
      exact (h c List.mem_cons_self).2.1 hprefix.1.symm
  have hline : Scalar.readQuoted? quote (body ++ quote :: rest) =
      some (String.ofList body, rest) := by
    rw [Scalar.readQuoted?, if_neg (by rwa [List.isPrefixOf_iff_prefix]), lineString?,
      lineBody?_append h, Option.bind_some]
    simp only [unescape?_of_verbatim h, Option.map_some]
  rw [Scalar.read?, if_pos (by simpa using hquote), hline]
  rfl

/-- The characters of a whole number are digits, but for the sign. -/
theorem mem_chars_whole {n : Int} {c : Char}
    (h : c ∈ (if n < 0 then ['-'] else []) ++ Number.decimalDigits n.natAbs) :
    c = '-' ∨ c.isDigit = true := by
  rcases List.mem_append.mp h with h | h
  · split at h
    · exact .inl (List.mem_singleton.mp h)
    · cases h
  · exact .inr (List.all_eq_true.mp (Number.all_isDigit_decimalDigits _) c h)

/-- What is not a sign and no digit is not in a whole number. -/
theorem ne_of_mem_chars_whole {c d : Char} (h : c = '-' ∨ c.isDigit = true)
    (hd : d ≠ '-' ∧ d.isDigit = false) : c ≠ d := by
  rintro rfl
  rcases h with rfl | h
  · exact hd.1 rfl
  · exact absurd h (by simp [hd.2])

theorem endsWord_eq_false_of_mem_chars_whole {c : Char} (h : c = '-' ∨ c.isDigit = true) :
    endsWord c = false := by
  have hne := fun d => ne_of_mem_chars_whole (d := d) h
  simp [endsWord, isGap, hne ' ' (by decide), hne '\t' (by decide), hne '\n' (by decide),
    hne '#' (by decide)]

/-- A whole number in range is read as such, and as nothing else. -/
theorem ofWord?_chars_whole {n : Int} (range : -Scalar.wholeBound ≤ n ∧ n < Scalar.wholeBound) :
    Scalar.ofWord? ((if n < 0 then ['-'] else []) ++ Number.decimalDigits n.natAbs) =
      some (.whole n) := by
  have hword : ∀ word : List Char, 'e' ∈ word →
      (if n < 0 then ['-'] else []) ++ Number.decimalDigits n.natAbs ≠ word := by
    rintro word hmem rfl
    exact ne_of_mem_chars_whole (mem_chars_whole hmem) (by decide) rfl
  rw [Scalar.ofWord?, if_neg (hword _ (by decide)), if_neg (hword _ (by decide)), wholeValue?_chars]
  simp [range]

/-- **Values.** A written value is read as what it was written for. -/
theorem read?_chars (v : WrittenValue) {rest : List Char}
    (hrest : Stops (fun c => !endsWord c) rest) :
    Scalar.read? (v.chars ++ rest) = some (v.value, rest) := by
  cases v with
  | flag on =>
    cases on <;> exact read?_word (by decide) (List.all_eq_true.mp (by decide)) hrest rfl
  | whole n range =>
    refine read?_word ?_ (fun c hc => ?_) hrest (ofWord?_chars_whole range)
    · exact List.append_ne_nil_of_right_ne_nil _ (Number.decimalDigits_ne_nil _)
    · have hwhole := mem_chars_whole hc
      simp [isWordChar, endsWord_eq_false_of_mem_chars_whole hwhole,
        ne_of_mem_chars_whole (d := basicQuote) hwhole (by decide),
        ne_of_mem_chars_whole (d := literalQuote) hwhole (by decide)]
  | text quote body isQuote verbatim =>
    rw [WrittenValue.chars, List.cons_append, List.append_assoc]
    exact read?_text isQuote verbatim hrest

theorem isGap_eq_false_of_endsWord {c : Char} (h : endsWord c = false) : isGap c = false := by
  simp only [endsWord, Bool.or_eq_false_iff] at h
  exact h.1.1

/-- A value does not begin with a gap. -/
theorem WrittenValue.stops (v : WrittenValue) (rest : List Char) :
    Stops isGap (v.chars ++ rest) := by
  cases v with
  | flag on => cases on <;> exact stops_cons (by decide)
  | whole n range =>
    refine stops_append (fun c hc => ?_) fun h => ?_
    · have hmem := mem_chars_whole (List.mem_of_mem_head? hc)
      exact isGap_eq_false_of_endsWord (endsWord_eq_false_of_mem_chars_whole hmem)
    · exact absurd (List.append_eq_nil_iff.mp h).2 (Number.decimalDigits_ne_nil _)
  | text quote body isQuote verbatim =>
    exact stops_cons (isGap_eq_false_of_endsWord (isQuote_not_endsWord isQuote))

/-! ## Lines -/

/-- What a line is followed by, and what comes after its ending: nothing or a line feed. -/
inductive Ends : List Char → List Char → Prop
  | last : Ends [] []
  | feed (rest : List Char) : Ends ('\n' :: rest) rest

theorem Ends.stops {p : Char → Bool} (hp : p '\n' = false) {tail rest : List Char}
    (h : Ends tail rest) : Stops p tail := by
  cases h with
  | last => exact fun c hc => by cases hc
  | feed rest => exact stops_cons hp

/-- What comes after the entry of a line ends the line. -/
theorem endLine?_remark (l : WrittenLine) {tail rest : List Char} (h : Ends tail rest) :
    endLine? (l.remark ++ tail) = some rest := by
  unfold endLine?
  cases hcomment : l.comment with
  | none =>
    have hskip : skipGap (l.remark ++ tail) = tail := by
      rw [WrittenLine.remark, hcomment, Option.map_none, Option.getD_none, List.append_nil]
      exact skipGap_append l.trail (h.stops (by decide))
    rw [hskip]
    cases h <;> rfl
  | some comment =>
    have hskip : skipGap (l.remark ++ tail) = '#' :: (comment.1 ++ tail) := by
      rw [WrittenLine.remark, hcomment, Option.map_some, Option.getD_some, List.append_assoc]
      exact skipGap_append l.trail (stops_cons (by decide))
    rw [hskip]
    simp only
    rw [dropWhile_append_of_stops comment.2 (h.stops (by decide))]
    cases h <;> rfl

theorem ne_of_isKeyChar {c d : Char} (h : isKeyChar c = true) (hd : isKeyChar d = false) :
    c ≠ d := by
  rintro rfl
  simp [h] at hd

/-- A key begins with a character of a key. -/
theorem Key.stops (key : Key) {p : Char → Bool} (hp : ∀ c, isKeyChar c = true → p c = false)
    (rest : List Char) : Stops p (key.1 ++ rest) :=
  stops_append (stops_of_forall key.2.2 hp) fun h => absurd h key.2.1

theorem isGap_eq_false_of_isKeyChar {c : Char} (h : isKeyChar c = true) : isGap c = false := by
  simp [isGap, ne_of_isKeyChar h (by decide : isKeyChar ' ' = false),
    ne_of_isKeyChar h (by decide : isKeyChar '\t' = false)]

/-- A key ends with what is a gap or no character of a key. -/
theorem Gap.stops (gap : Gap) {c : Char} (hc : isKeyChar c = false) (rest : List Char) :
    Stops isKeyChar (gap.1 ++ c :: rest) := by
  refine stops_append (stops_of_forall gap.2 fun d hd => ?_) fun _ => stops_cons hc
  exact Bool.eq_false_iff.mpr fun hkey => by simp [isGap_eq_false_of_isKeyChar hkey] at hd

theorem skipGap_chars (e : WrittenEntry) (rest : List Char) :
    skipGap (e.chars ++ rest) =
      e.key.1 ++ (e.beforeSign.1 ++ '=' :: (e.beforeValue.1 ++ (e.value.chars ++ rest))) := by
  simp only [WrittenEntry.chars, List.append_assoc, List.cons_append]
  exact skipGap_append e.indent (e.key.stops (fun c => isGap_eq_false_of_isKeyChar) _)

/-- A line with an entry does not end before the entry. -/
theorem endLine?_chars (e : WrittenEntry) (rest : List Char) :
    endLine? (e.chars ++ rest) = none := by
  rw [endLine?, skipGap_chars]
  obtain ⟨key, hne, hkey⟩ := e.key
  cases key with
  | nil => exact absurd rfl hne
  | cons c key =>
    have hc := hkey c List.mem_cons_self
    simp [ne_of_isKeyChar hc (by decide : isKeyChar '#' = false),
      ne_of_isKeyChar hc (by decide : isKeyChar '\n' = false)]

theorem readKey?_append (key : Key) {rest : List Char} (h : Stops isKeyChar rest) :
    readKey? (key.1 ++ rest) = some (String.ofList key.1, rest) := by
  obtain ⟨key, hne, hkey⟩ := key
  have htake := takeWhile_append_of_stops hkey h
  have hdrop := dropWhile_append_of_stops hkey h
  cases key with
  | nil => exact absurd rfl hne
  | cons c key =>
    have hc := hkey c List.mem_cons_self
    have hquote : ¬ (c = basicQuote ∨ c = literalQuote) := by
      rintro (rfl | rfl) <;> exact absurd hc (by decide)
    simp only [List.cons_append] at htake hdrop ⊢
    simp only [readKey?, htake, hdrop]
    rw [if_neg (by simpa using hquote)]
    rfl

/-- An entry is read up to where its line ends. -/
theorem readSetting?_chars (e : WrittenEntry) {after rest : List Char}
    (hafter : Stops (fun c => !endsWord c) after) (hend : endLine? after = some rest) :
    readSetting? (skipGap (e.chars ++ after)) = some (e.setting, rest) := by
  have hkey := readKey?_append e.key (Gap.stops e.beforeSign (by decide : isKeyChar '=' = false)
    (e.beforeValue.1 ++ (e.value.chars ++ after)))
  have hsign : skipGap (e.beforeSign.1 ++ '=' :: (e.beforeValue.1 ++ (e.value.chars ++ after))) =
      '=' :: (e.beforeValue.1 ++ (e.value.chars ++ after)) :=
    skipGap_append e.beforeSign (stops_cons (by decide))
  have hvalue := skipGap_append e.beforeValue (e.value.stops after)
  rw [skipGap_chars, readSetting?, hkey]
  simp only [Option.bind_some, hsign, hvalue, read?_chars e.value hafter, hend]
  rfl

/-- What follows an entry on its line ends a word. -/
theorem stops_remark (l : WrittenLine) {tail rest : List Char} (h : Ends tail rest) :
    Stops (fun c => !endsWord c) (l.remark ++ tail) := by
  rw [WrittenLine.remark, List.append_assoc]
  refine stops_append (stops_of_forall l.trail.2 fun c hc => by simp [endsWord, hc]) fun _ => ?_
  cases l.comment with
  | none => exact h.stops (by decide)
  | some comment => exact stops_cons (by decide)

/-- **Lines.** A written line is read as its entry, if it has one. -/
theorem readLine?_chars (l : WrittenLine) {tail rest : List Char} (h : Ends tail rest) :
    readLine? (l.chars ++ tail) = some (l.setting?, rest) := by
  have hend := endLine?_remark l h
  rw [WrittenLine.chars, WrittenLine.setting?, List.append_assoc, readLine?]
  cases l.entry with
  | none => simp [hend]
  | some e =>
    simp only [Option.map_some, Option.getD_some]
    rw [endLine?_chars, readSetting?_chars e (stops_remark l h) hend]
    rfl

/-! ## Files -/

theorem not_mem_of_forall {p : Char → Bool} {cs : List Char} {d : Char} (hd : p d = false)
    (h : ∀ c ∈ cs, p c = true) : d ∉ cs := fun hmem => by
  simp [h d hmem] at hd

/-- There is no carriage return within a line. -/
theorem WrittenLine.return_notMem_chars (l : WrittenLine) : '\r' ∉ l.chars := by
  have hgap : ∀ gap : Gap, '\r' ∉ gap.1 := fun gap => not_mem_of_forall (by decide) gap.2
  have hvalue : ∀ v : WrittenValue, '\r' ∉ v.chars := by
    rintro (on | ⟨n, range⟩ | ⟨quote, body, isQuote, verbatim⟩)
    · cases on <;> decide
    · exact fun hmem => ne_of_mem_chars_whole (mem_chars_whole hmem) (by decide) rfl
    · have hquote : '\r' ≠ quote := by rcases isQuote with rfl | rfl <;> decide
      have hbody : '\r' ∉ body := not_mem_of_forall (by decide) fun c hc => (verbatim c hc).1
      simp [WrittenValue.chars, hquote, hbody]
  have hremark : '\r' ∉ l.remark := by
    rw [WrittenLine.remark, List.mem_append, not_or]
    refine ⟨hgap l.trail, ?_⟩
    cases l.comment with
    | none => simp
    | some comment =>
      have hcomment : '\r' ∉ comment.1 := not_mem_of_forall (by decide) comment.2
      simp [hcomment]
  rw [WrittenLine.chars, List.mem_append, not_or]
  refine ⟨?_, hremark⟩
  cases l.entry with
  | none => simp
  | some e =>
    have hkey : '\r' ∉ e.key.1 := not_mem_of_forall (by decide) e.key.2.2
    simp [WrittenEntry.chars, hgap, hkey, hvalue]

/-- No line begins with a byte order mark. -/
theorem WrittenLine.stops_mark (l : WrittenLine) {tail : List Char}
    (htail : Stops (· = '\ufeff') tail) : Stops (· = '\ufeff') (l.chars ++ tail) := by
  have hgap : ∀ gap : Gap, Stops (· = '\ufeff') gap.1 := fun gap =>
    stops_of_forall gap.2 fun c hc => decide_eq_false fun heq => by
      rw [heq] at hc
      exact absurd hc (by decide)
  rw [WrittenLine.chars, WrittenLine.remark, List.append_assoc, List.append_assoc]
  have hremark : Stops (· = '\ufeff') (l.trail.1 ++
      ((l.comment.map fun comment => '#' :: comment.1).getD [] ++ tail)) := by
    refine stops_append (hgap l.trail) fun _ => ?_
    cases l.comment with
    | none => exact htail
    | some comment => exact stops_cons (by decide)
  cases l.entry with
  | none => exact hremark
  | some e =>
    simp only [Option.map_some, Option.getD_some, WrittenEntry.chars, List.append_assoc]
    refine stops_append (hgap e.indent) fun _ => e.key.stops (fun c hc => ?_) _
    exact decide_eq_false fun heq => absurd (heq ▸ hc) (by decide)

theorem dropByteOrderMark_of_stops {cs : List Char} (h : Stops (· = '\ufeff') cs) :
    dropByteOrderMark cs = cs := by
  unfold dropByteOrderMark
  split
  · exact absurd (h _ rfl) (by decide)
  · rfl

theorem unifyLineEnds_append {cs : List Char} (h : '\r' ∉ cs) (rest : List Char) :
    unifyLineEnds (cs ++ rest) = cs ++ unifyLineEnds rest := by
  induction cs with
  | nil => rfl
  | cons c cs ih =>
    obtain ⟨hc, hcs⟩ := not_or.mp (mt List.mem_cons.mpr h)
    rw [List.cons_append, unifyLineEnds, if_neg (by simp [Ne.symm hc]), ih hcs, List.cons_append]

/-- Both endings of a line are one. -/
theorem unifyLineEnds_endedLine (l : WrittenLine × Bool) (rest : List Char) :
    unifyLineEnds (WrittenFile.endedLine l ++ rest) =
      l.1.chars ++ '\n' :: unifyLineEnds rest := by
  rw [WrittenFile.endedLine, List.append_assoc, unifyLineEnds_append l.1.return_notMem_chars]
  cases l.2 <;> simp [unifyLineEnds]

/-- An empty line has no entry. -/
theorem setting?_eq_none {l : WrittenLine} (h : l.chars = []) : l.setting? = none := by
  rw [WrittenLine.chars] at h
  cases hentry : l.entry with
  | none => rw [WrittenLine.setting?, hentry, Option.map_none]
  | some e => simp [hentry, WrittenEntry.chars] at h

/-- The lines of a file are read one after another. -/
theorem readAll_lines (lines : List (WrittenLine × Bool)) (last : WrittenLine) :
    ∃ read, readAll readLine? (unifyLineEnds (lines.flatMap WrittenFile.endedLine ++ last.chars)) =
        some read ∧
      read.filterMap id = (lines.map Prod.fst ++ [last]).filterMap WrittenLine.setting? := by
  induction lines with
  | nil =>
    have hunify := unifyLineEnds_append last.return_notMem_chars []
    rw [List.append_nil, unifyLineEnds, List.append_nil] at hunify
    rw [List.flatMap_nil, List.nil_append, hunify]
    -- Behind the last ending the reader stops if nothing is left, and an empty line has no entry.
    by_cases hempty : last.chars = []
    · exact ⟨[], by rw [hempty, readAll], by simp [setting?_eq_none hempty]⟩
    · have hline := readLine?_chars last .last
      refine ⟨[last.setting?], ?_, ?_⟩
      · rw [← List.append_nil last.chars, readAll_append hempty hline]
        simp [readAll]
      · simp [List.filterMap_cons]
  | cons l lines ih =>
    obtain ⟨read, hread, hsettings⟩ := ih
    have hline := readLine?_chars l.1
      (.feed (unifyLineEnds (lines.flatMap WrittenFile.endedLine ++ last.chars)))
    rw [List.append_cons] at hline
    refine ⟨l.1.setting? :: read, ?_, ?_⟩
    · rw [List.flatMap_cons, List.append_assoc, unifyLineEnds_endedLine, List.append_cons,
        readAll_append (by simp) hline, hread]
      rfl
    · rw [List.map_cons, List.cons_append, List.filterMap_cons, List.filterMap_cons, hsettings]
      rfl

theorem dropByteOrderMark_chars (f : WrittenFile) :
    dropByteOrderMark f.chars = f.lines.flatMap WrittenFile.endedLine ++ f.last.chars := by
  rw [WrittenFile.chars]
  cases f.mark with
  | true => rfl
  | false =>
    refine dropByteOrderMark_of_stops ?_
    have hlast : Stops (· = '\ufeff') f.last.chars := by
      rw [← List.append_nil f.last.chars]
      exact f.last.stops_mark fun c hc => by cases hc
    cases f.lines with
    | nil => exact hlast
    | cons l lines =>
      rw [List.flatMap_cons, WrittenFile.endedLine, List.append_assoc, List.append_assoc]
      refine l.1.stops_mark ?_
      cases l.2 <;> exact stops_cons (by decide)

/-- **Written files.** A written file is read as its entries, unless it has a key twice. -/
theorem readSettings?_chars (f : WrittenFile) {document : List (String × Scalar)} :
    readSettings? f.chars = some document ↔
      (f.settings.map Prod.fst).Nodup ∧ f.settings = document := by
  obtain ⟨read, hread, hsettings⟩ := readAll_lines f.lines f.last
  rw [readSettings?, dropByteOrderMark_chars, hread, Option.map_some, hsettings,
    ← WrittenFile.settings, Option.filter_eq_some_iff, Option.some.injEq, decide_eq_true_eq,
    ← List.length_map (f := Prod.fst), length_eraseDups_eq_iff, and_comm]
  exact and_congr_left fun h => by rw [h]

/-- **Written settings.** A written file is taken exactly if it has no key twice, its entries are
entries for settings and their values are in range. -/
theorem load_bytes_eq_ok_iff (f : WrittenFile) {s : Settings} :
    load (some f.bytes) = .ok s ↔
      (f.settings.map Prod.fst).Nodup ∧ s.MadeBy f.settings ∧ s.InRange := by
  rw [load, WrittenFile.bytes, parse_encode_eq_ok_iff]
  simp only [readSettings?_chars]
  constructor
  · rintro ⟨_, ⟨hkeys, rfl⟩, hmade⟩
    exact ⟨hkeys, hmade⟩
  · rintro ⟨hkeys, hmade⟩
    exact ⟨_, ⟨hkeys, rfl⟩, hmade⟩

end LvmControl.Settings
