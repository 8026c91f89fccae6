import Mathlib.Data.List.Induction
import LvmControl.Proofs.Text.Utf8
import LvmControl.Settings.File

/-!
# What a settings file contains

A settings file is either taken, and then the settings are exactly those of its entries, or it is
refused. This module says which files are taken with which settings, without going through the
entries one after another as the reader does.

## Main definitions

* `IsSetting`: an entry has one of the four keys, with a value of the kind that belongs to it.
* `Settings.MadeBy`: the settings have the values of the entries of a document, and no others.
* `Settings.InRange`: no path is empty, and the wait delay is not too long.
* `Settings.ContainedIn`: the settings are those of a file.

## Main statements

* `ofDocument?_eq_some_iff`: the settings of a document are those made by its entries.
* `load_eq_ok_iff`: a file is loaded with the settings that it contains, and only with those.
-/

namespace LvmControl

namespace Settings

/-- An entry for one of the settings, with a value of its kind. -/
inductive IsSetting : String × Scalar → Prop
  | toolPath (path : String) : IsSetting (toolPathKey, .text path)
  | helperPath (path : String) : IsSetting (helperPathKey, .text path)
  | waitMillis (n : Nat) : IsSetting (waitMillisKey, .whole n)
  | standardLocale (on : Bool) : IsSetting (standardLocaleKey, .flag on)

/-- The settings have the values that a document has for them, and the document has nothing else. -/
structure MadeBy (s : Settings) (document : List (String × Scalar)) : Prop where
  isSetting : ∀ entry ∈ document, IsSetting entry
  toolPath : ∀ path, s.toolPath = some path ↔ (toolPathKey, .text path) ∈ document
  helperPath : ∀ path, s.helperPath = some path ↔ (helperPathKey, .text path) ∈ document
  waitMillis : ∀ n : Nat, s.waitMillis = some n ↔ (waitMillisKey, .whole n) ∈ document
  standardLocale : ∀ on, s.standardLocale = some on ↔ (standardLocaleKey, .flag on) ∈ document

/-- No path is empty, and the wait delay is not too long. -/
structure InRange (s : Settings) : Prop where
  toolPath : s.toolPath ≠ some ""
  helperPath : s.helperPath ≠ some ""
  waitMillis : ∀ n, s.waitMillis = some n → n ≤ maxWaitMillis

/-- The settings are those of a file: it is there, it is text, the text is a document without
repeated keys, and the settings made by the document are in range. -/
def ContainedIn (s : Settings) (file : Option (List UInt8)) : Prop :=
  ∃ text document, file = some (Text.encode text) ∧ readSettings? text = some document ∧
    s.MadeBy document ∧ s.InRange

/-! ## Making one setting -/

section

variable (s : Settings)

theorem set?_toolPath (path : String) :
    s.set? toolPathKey (.text path) = some { s with toolPath := some path } := rfl

theorem set?_helperPath (path : String) :
    s.set? helperPathKey (.text path) = some { s with helperPath := some path } := rfl

theorem set?_waitMillis (n : Nat) :
    s.set? waitMillisKey (.whole n) = some { s with waitMillis := some n } := rfl

theorem set?_standardLocale (on : Bool) :
    s.set? standardLocaleKey (.flag on) = some { s with standardLocale := some on } := rfl

end

/-- What is no entry for a setting sets nothing. -/
theorem isSetting_of_set? {s t : Settings} {key : String} {value : Scalar}
    (h : s.set? key value = some t) : IsSetting (key, value) := by
  unfold set? at h
  split at h
  · subst key
    cases value with
    | text path => exact .toolPath path
    | _ => simp at h
  split at h
  · subst key
    cases value with
    | text path => exact .helperPath path
    | _ => simp at h
  split at h
  · subst key
    match value with
    | .whole (.ofNat n) => exact .waitMillis n
    | .whole (.negSucc n) | .text path | .flag on => simp at h
  split at h
  · subst key
    cases value with
    | flag on => exact .standardLocale on
    | _ => simp at h
  · simp at h

/-- Every entry for a setting sets it. -/
theorem IsSetting.exists_set? {entry : String × Scalar} (h : IsSetting entry) (s : Settings) :
    ∃ t, s.set? entry.1 entry.2 = some t := by
  cases h with
  | toolPath path => exact ⟨_, s.set?_toolPath path⟩
  | helperPath path => exact ⟨_, s.set?_helperPath path⟩
  | waitMillis n => exact ⟨_, s.set?_waitMillis n⟩
  | standardLocale on => exact ⟨_, s.set?_standardLocale on⟩

/-! ## Documents -/

namespace MadeBy

variable {s t : Settings} {document : List (String × Scalar)}

theorem nil : ({} : Settings).MadeBy [] := by
  constructor <;> simp

/-- One more entry makes its setting, if the document had none for its key, and leaves the others
as they were. -/
theorem concat {key : String} {value : Scalar} (h : s.MadeBy document)
    (hkey : key ∉ document.map Prod.fst) (ht : s.set? key value = some t) :
    t.MadeBy (document ++ [(key, value)]) := by
  have hentry := isSetting_of_set? ht
  have hall : ∀ e ∈ document ++ [(key, value)], IsSetting e := fun e he =>
    (List.mem_append.mp he).elim (h.isSetting e) fun he => List.mem_singleton.mp he ▸ hentry
  -- The key is new, so the value that the longer document has for it is the one it came with.
  have hsame : ∀ v, (key, v) ∈ document ++ [(key, value)] ↔ value = v := fun v => by
    have hnew : (key, v) ∉ document := fun hmem => hkey (List.mem_map.mpr ⟨_, hmem, rfl⟩)
    simp [hnew, eq_comm]
  -- Any other setting is made by the longer document as it was by the shorter one.
  have hother : ∀ {key' : String}, key' ≠ key → ∀ v,
      (key', v) ∈ document ↔ (key', v) ∈ document ++ [(key, value)] := fun hne v => by
    simp [hne]
  have htool := fun hne path => (h.toolPath path).trans (hother hne _)
  have hhelper := fun hne path => (h.helperPath path).trans (hother hne _)
  have hwait := fun hne n => (h.waitMillis n).trans (hother hne _)
  have hlocale := fun hne on => (h.standardLocale on).trans (hother hne _)
  cases hentry with
  | toolPath path =>
    obtain rfl := Option.some.inj ((s.set?_toolPath path).symm.trans ht)
    exact {
      isSetting := hall
      toolPath := fun p => by rw [hsame]; simp
      helperPath := hhelper (by decide)
      waitMillis := hwait (by decide)
      standardLocale := hlocale (by decide) }
  | helperPath path =>
    obtain rfl := Option.some.inj ((s.set?_helperPath path).symm.trans ht)
    exact {
      isSetting := hall
      toolPath := htool (by decide)
      helperPath := fun p => by rw [hsame]; simp
      waitMillis := hwait (by decide)
      standardLocale := hlocale (by decide) }
  | waitMillis n =>
    obtain rfl := Option.some.inj ((s.set?_waitMillis n).symm.trans ht)
    exact {
      isSetting := hall
      toolPath := htool (by decide)
      helperPath := hhelper (by decide)
      waitMillis := fun m => by
        rw [hsame, Option.some.injEq, Scalar.whole.injEq, Int.ofNat_inj]
      standardLocale := hlocale (by decide) }
  | standardLocale on =>
    obtain rfl := Option.some.inj ((s.set?_standardLocale on).symm.trans ht)
    exact {
      isSetting := hall
      toolPath := htool (by decide)
      helperPath := hhelper (by decide)
      waitMillis := hwait (by decide)
      standardLocale := fun b => by rw [hsame]; simp }

/-- A document makes no two settings. -/
theorem unique (hs : s.MadeBy document) (ht : t.MadeBy document) : s = t := by
  have htool : s.toolPath = t.toolPath :=
    Option.ext fun p => (hs.toolPath p).trans (ht.toolPath p).symm
  have hhelper : s.helperPath = t.helperPath :=
    Option.ext fun p => (hs.helperPath p).trans (ht.helperPath p).symm
  have hwait : s.waitMillis = t.waitMillis :=
    Option.ext fun n => (hs.waitMillis n).trans (ht.waitMillis n).symm
  have hlocale : s.standardLocale = t.standardLocale :=
    Option.ext fun b => (hs.standardLocale b).trans (ht.standardLocale b).symm
  cases s
  cases t
  simp_all

end MadeBy

theorem ofDocument?_concat (document : List (String × Scalar)) (entry : String × Scalar) :
    ofDocument? (document ++ [entry]) =
      (ofDocument? document).bind fun s => s.set? entry.1 entry.2 := by
  simp [ofDocument?, List.foldlM_append]

/-- A document of entries for settings, without repeated keys, makes settings. -/
theorem exists_madeBy {document : List (String × Scalar)}
    (hkeys : (document.map Prod.fst).Nodup) (hall : ∀ entry ∈ document, IsSetting entry) :
    ∃ s, ofDocument? document = some s ∧ s.MadeBy document := by
  induction document using List.reverseRecOn with
  | nil => exact ⟨{}, rfl, .nil⟩
  | append_singleton document entry ih =>
    simp only [List.map_append, List.map_cons, List.map_nil, List.nodup_append] at hkeys
    obtain ⟨s, hs, hmade⟩ := ih hkeys.1 fun e he => hall e (List.mem_append_left _ he)
    obtain ⟨t, ht⟩ := (hall entry (by simp)).exists_set? s
    refine ⟨t, ?_, hmade.concat ?_ ht⟩
    · rw [ofDocument?_concat, hs, Option.bind_some, ht]
    · exact fun hmem => hkeys.2.2 _ hmem _ (by simp) rfl

/-- The entries of a document that makes settings are entries for settings. -/
theorem isSetting_of_ofDocument? {document : List (String × Scalar)} {s : Settings}
    (h : ofDocument? document = some s) : ∀ entry ∈ document, IsSetting entry := by
  induction document using List.reverseRecOn generalizing s with
  | nil => simp
  | append_singleton document entry ih =>
    rw [ofDocument?_concat, Option.bind_eq_some_iff] at h
    obtain ⟨s', hs', hset⟩ := h
    intro e he
    rcases List.mem_append.mp he with he | he
    · exact ih hs' e he
    · obtain rfl := List.mem_singleton.mp he
      exact isSetting_of_set? hset

/-- **Documents.** The settings of a document are those that its entries make. -/
theorem ofDocument?_eq_some_iff {document : List (String × Scalar)} {s : Settings}
    (hkeys : (document.map Prod.fst).Nodup) :
    ofDocument? document = some s ↔ s.MadeBy document := by
  constructor
  · intro h
    obtain ⟨t, ht, hmade⟩ := exists_madeBy hkeys (isSetting_of_ofDocument? h)
    exact Option.some.inj (ht.symm.trans h) ▸ hmade
  · intro h
    obtain ⟨t, ht, hmade⟩ := exists_madeBy hkeys h.isSetting
    exact ht.trans (congrArg some (hmade.unique h))

/-! ## Keys -/

theorem length_eraseDups_le {α : Type} [DecidableEq α] (l : List α) :
    l.eraseDups.length ≤ l.length := by
  induction l using List.reverseRecOn with
  | nil => simp
  | append_singleton l a ih =>
    rw [List.eraseDups_append, List.length_append, List.length_append]
    by_cases ha : a ∈ l <;> simp [List.removeAll, ha, List.eraseDups_cons] <;> omega

/-- A list is as long without repetitions as it is with them if it has none. -/
theorem length_eraseDups_eq_iff {α : Type} [DecidableEq α] {l : List α} :
    l.eraseDups.length = l.length ↔ l.Nodup := by
  induction l using List.reverseRecOn with
  | nil => simp
  | append_singleton l a ih =>
    rw [List.eraseDups_append, List.length_append, List.length_append, List.nodup_append]
    have hle := length_eraseDups_le l
    by_cases ha : a ∈ l
    · refine iff_of_false ?_ fun h => h.2.2 a ha a (List.mem_singleton_self a) rfl
      simp [List.removeAll, ha]
      omega
    · have hne : ∀ b ∈ l, b ≠ a := fun b hb heq => ha (heq ▸ hb)
      simpa [List.removeAll, ha, List.eraseDups_cons, ih] using fun _ => hne

/-- A document that is read has no key twice. -/
theorem nodup_keys_of_readSettings? {text : List Char} {document : List (String × Scalar)}
    (h : readSettings? text = some document) : (document.map Prod.fst).Nodup := by
  have hlength := (Option.filter_eq_some_iff.mp h).2
  rw [decide_eq_true_eq, ← List.length_map (f := Prod.fst)] at hlength
  exact length_eraseDups_eq_iff.mp hlength

/-! ## Files -/

theorem fault?_eq_none_iff {s : Settings} : s.fault? = none ↔ s.InRange := by
  unfold fault?
  split
  · rename_i htool
    exact iff_of_false (by simp) fun h => h.toolPath htool
  split
  · rename_i hhelper
    exact iff_of_false (by simp) fun h => h.helperPath hhelper
  rename_i htool hhelper
  cases hwait : s.waitMillis with
  | none => exact iff_of_true rfl ⟨htool, hhelper, by simp [hwait]⟩
  | some n =>
    have hrange : s.InRange ↔ n ≤ maxWaitMillis :=
      ⟨fun h => h.waitMillis n hwait, fun h => ⟨htool, hhelper, by simpa [hwait] using h⟩⟩
    simp [hrange]

theorem checked_eq_ok_iff {s t : Settings} : s.checked = .ok t ↔ s = t ∧ t.InRange := by
  rw [checked]
  cases hfault : s.fault? with
  | none =>
    have hrange := fault?_eq_none_iff.mp hfault
    exact ⟨fun h => Except.ok.inj h ▸ ⟨rfl, hrange⟩, fun h => h.1 ▸ rfl⟩
  | some e =>
    refine iff_of_false (by simp) ?_
    rintro ⟨rfl, hrange⟩
    simp [fault?_eq_none_iff.mpr hrange] at hfault

/-- A text is taken with the settings of its document, if it is one and they are in range. -/
theorem parse_encode_eq_ok_iff {text : List Char} {s : Settings} :
    parse (Text.encode text) = .ok s ↔
      ∃ document, readSettings? text = some document ∧ s.MadeBy document ∧ s.InRange := by
  have hdecode : Text.decode? (Text.encode text) = some (String.ofList text) :=
    Text.decode?_eq_some_iff.mpr (by rw [String.toList_ofList])
  simp only [parse, hdecode, String.toList_ofList]
  cases hread : readSettings? text with
  | none => simp
  | some document =>
    have hmade := fun t => ofDocument?_eq_some_iff (s := t) (nodup_keys_of_readSettings? hread)
    rw [Option.bind_some]
    cases hof : ofDocument? document with
    | none =>
      refine iff_of_false (by simp) ?_
      rintro ⟨_, heq, h, -⟩
      obtain rfl := Option.some.inj heq
      simp [(hmade s).mpr h] at hof
    | some t =>
      have ht := (hmade t).mp hof
      refine checked_eq_ok_iff.trans ⟨?_, ?_⟩
      · rintro ⟨rfl, hrange⟩
        exact ⟨document, rfl, ht, hrange⟩
      · rintro ⟨_, heq, h, hrange⟩
        obtain rfl := Option.some.inj heq
        exact ⟨ht.unique h, hrange⟩

/-- **Files.** A file is loaded with the settings that it contains, and with no others. -/
theorem load_eq_ok_iff {file : Option (List UInt8)} {s : Settings} :
    load file = .ok s ↔ s.ContainedIn file := by
  constructor
  · intro h
    cases file with
    | none => simp [load] at h
    | some bytes =>
      cases hdecode : Text.decode? bytes with
      | none => simp [load, parse, hdecode] at h
      | some text =>
        obtain rfl := Text.decode?_eq_some_iff.mp hdecode
        obtain ⟨document, hread⟩ := parse_encode_eq_ok_iff.mp h
        exact ⟨text.toList, document, rfl, hread⟩
  · rintro ⟨text, document, rfl, hread⟩
    exact parse_encode_eq_ok_iff.mpr ⟨document, hread⟩

end Settings

end LvmControl
