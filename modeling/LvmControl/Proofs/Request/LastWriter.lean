import LvmControl.Request.Layout
import Mathlib.Data.List.Sigma

/-!
# The last option that writes a field

Options are aggregated by writing one after another into a request, at three grains: one field, the
block of common fields, all fields of a command. What a field holds in the end is then a question
about a log: the option that wrote the field last decides, and nobody having written it leaves the
default.

## Main definitions

* `Write`: a field and the value that is written into it.
* `Setting.writes`, `Entry.writes`: what an option writes.
* `Entry.value?`: the value that an option writes into a field, if it writes the field.
* `OptionList.lastValue?`: the value that the last option to write a field writes.
* `OptionList.LastWriterWins`: the law of aggregation with what follows from it.

## Main statements

* `Entry.get_apply`: an option writes its own fields and leaves the others.
* `OptionList.get_aggregate`: a field holds what was written into it last.
* `OptionList.lastWriterWins`: the law, for every command and every list of options.

## Design notes

**The log is written down apart from the writing.** `Setting.writes` is a table of values and does
not mention a request, so a setting that wrote a value into another field than its own, or that
added to what is there, would fail `Entry.get_apply`.
-/

namespace LvmControl

/-- A field with a value for it. -/
abbrev Write : Type := Σ f : Field, f.Value

/-- What a setting writes. -/
def Setting.writes : Setting → List Write
  | .volumeGroup v => [⟨.volumeGroup, some v⟩]
  | .newVolumeGroup v => [⟨.newVolumeGroup, some v⟩]
  | .logicalVolume v => [⟨.logicalVolume, some v⟩]
  | .newLogicalVolume v => [⟨.newLogicalVolume, some v⟩]
  | .physicalVolumes v => [⟨.physicalVolumes, v⟩]
  | .size v => [⟨.size, some v⟩]
  | .extents v => [⟨.extents, some v⟩]
  | .extentSize v => [⟨.extentSize, some v⟩]
  | .deviceSize v => [⟨.deviceSize, some v⟩]
  | .tags v => [⟨.tags, v⟩]
  | .delTags v => [⟨.delTags, v⟩]
  | .activate v => [⟨.activate, some v⟩]
  | .force v => [⟨.force, v⟩]
  | .removeMissing v => [⟨.removeMissing, v⟩]
  | .resizeFs v => [⟨.resizeFs, v⟩]
  | .zero v => [⟨.zero, some v⟩]
  | .allocatable v => [⟨.allocatable, some v⟩]
  | .select v => [⟨.select, some v⟩]
  | .addDevice v => [⟨.addDevice, some v⟩]
  | .delDevice v => [⟨.delDevice, some v⟩]
  | .addPvid v => [⟨.addPvid, some v⟩]
  | .delPvid v => [⟨.delPvid, some v⟩]
  | .devices v => [⟨.devices, some v⟩]
  | .devicesFile v => [⟨.devicesFile, some v⟩]
  | .profile v => [⟨.profile, some v⟩]
  | .verbose v => [⟨.verbose, v⟩]
  | .requestConfirm v => [⟨.requestConfirm, v⟩]
  | .common options =>
    [⟨.devices, options.devices⟩, ⟨.devicesFile, options.devicesFile⟩,
      ⟨.profile, options.profile⟩, ⟨.verbose, options.verbose⟩,
      ⟨.requestConfirm, options.requestConfirm⟩]

/-- A setting puts what it writes into the fields that it writes, and leaves the others. -/
theorem Setting.get_apply (s : Setting) (r : Request) (f : Field) :
    (s.apply r).get f = (s.writes.dlookup f).getD (r.get f) := by
  cases s <;> cases f <;> rfl

/-- The fields that a setting writes are those of its values. -/
theorem Setting.keys_writes (s : Setting) : s.writes.keys = s.fields := by
  cases s <;> rfl

/-- Every setting writes one field, except for the common options. -/
theorem Setting.writes_cases (s : Setting) :
    (∃ f v, s.writes = [⟨f, v⟩]) ∨ ∃ options, s = .common options := by
  cases s with
  | common options => exact .inr ⟨options, rfl⟩
  | _ => exact .inl ⟨_, _, rfl⟩

/-- The fields that a command takes, its own ones first. -/
def Command.fields (c : Command) : List Field := c.ownFields ++ Field.common

theorem Command.mem_fields_iff {c : Command} {f : Field} : f ∈ c.fields ↔ c.takes f = true := by
  simp [fields, takes]

/-- Two requests with nothing outside the fields of a command are equal if the requests are. -/
@[ext] theorem FittingRequest.ext {c : Command} {q r : FittingRequest c}
    (h : q.request = r.request) : q = r := by
  cases q
  cases r
  congr

namespace Entry

variable {c : Command} {e o : Entry c} {es before after : List (Entry c)} {f : Field}

/-- What an option writes: a setting its own fields, a whole request every field of the command. -/
def writes : Entry c → List Write
  | .setting s _ => s.writes
  | .whole q => c.fields.map fun f => ⟨f, q.request.get f⟩

/-- The option writes the field. -/
def Writes (e : Entry c) (f : Field) : Prop := f ∈ e.writes.keys

/-- The value that an option writes into a field, if it writes the field. -/
def value? (e : Entry c) (f : Field) : Option f.Value := e.writes.dlookup f

theorem value?_isSome : (e.value? f).isSome ↔ e.Writes f := List.dlookup_isSome

theorem value?_eq_none : e.value? f = none ↔ ¬ e.Writes f := List.dlookup_eq_none

/-- A whole request writes the fields that the command takes, and no others. -/
theorem writes_whole_iff (q : FittingRequest c) : (Entry.whole q).Writes f ↔ c.takes f = true := by
  have hkeys : (Entry.whole q).writes.keys = c.fields := by
    simp [writes, List.keys, Function.comp_def]
  rw [Writes, hkeys, Command.mem_fields_iff]

/-- What a whole request writes into a field is what the field holds in it. -/
theorem value?_whole (q : FittingRequest c) (h : c.takes f = true) :
    (Entry.whole q).value? f = some (q.request.get f) := by
  have hwrites := value?_isSome.mpr ((writes_whole_iff q).mpr h)
  obtain ⟨v, hv⟩ := Option.isSome_iff_exists.mp hwrites
  obtain ⟨g, -, hg⟩ := List.mem_map.mp (List.of_mem_dlookup hv)
  obtain ⟨rfl, hvalue⟩ := Sigma.mk.inj hg
  rw [hv, eq_of_heq hvalue]

/-- An option puts what it writes into the fields that it writes, and leaves the others. -/
theorem get_apply (e : Entry c) (r : FittingRequest c) (f : Field) :
    (e.apply r).request.get f = (e.value? f).getD (r.request.get f) := by
  cases e with
  | setting s accepted => exact s.get_apply r.request f
  | whole q =>
    cases htakes : c.takes f with
    | true => rw [value?_whole q htakes]; rfl
    | false =>
      have hnone : (Entry.whole q).value? f = none := by
        rw [value?_eq_none, writes_whole_iff, htakes]
        exact Bool.false_ne_true
      rw [hnone, Option.getD_none, r.fits f htakes]
      exact q.fits f htakes

/-- The value that the last of several options to write a field writes into it. -/
def lastValue? (es : List (Entry c)) (f : Field) : Option f.Value :=
  es.reverse.findSome? fun e => e.value? f

theorem lastValue?_append (es os : List (Entry c)) (f : Field) :
    lastValue? (es ++ os) f = (lastValue? os f).or (lastValue? es f) := by
  rw [lastValue?, List.reverse_append, List.findSome?_append]
  rfl

theorem lastValue?_cons (e : Entry c) (es : List (Entry c)) (f : Field) :
    lastValue? (e :: es) f = (lastValue? es f).or (e.value? f) := by
  rw [← List.singleton_append, lastValue?_append]
  simp [lastValue?]

theorem lastValue?_eq_none : lastValue? es f = none ↔ ∀ e ∈ es, ¬ e.Writes f := by
  simp [lastValue?, value?_eq_none]

/-- Options written one after another leave in each field what was written into it last. -/
theorem get_foldl (es : List (Entry c)) (r : FittingRequest c) (f : Field) :
    (es.foldl apply r).request.get f = (lastValue? es f).getD (r.request.get f) := by
  induction es generalizing r with
  | nil => rfl
  | cons e es ih => rw [List.foldl_cons, ih, get_apply, lastValue?_cons, Option.getD_or]

/-- An option whose fields are all written again later makes no difference. -/
theorem lastValue?_erase (h : ∀ f, e.Writes f → ∃ o ∈ after, o.Writes f) (f : Field) :
    lastValue? (before ++ e :: after) f = lastValue? (before ++ after) f := by
  rw [lastValue?_append, lastValue?_append, lastValue?_cons]
  by_cases hwrites : e.Writes f
  · have hafter : lastValue? after f ≠ none := by
      intro hnone
      obtain ⟨o, ho, hwritten⟩ := h f hwrites
      exact lastValue?_eq_none.mp hnone o ho hwritten
    have hsome : (lastValue? after f).isSome := Option.isSome_iff_ne_none.mpr hafter
    rw [Option.or_of_isSome hsome]
  · rw [value?_eq_none.mpr hwrites, Option.or_none]

/-- Two options in a row that write different fields can be written in either order. -/
theorem lastValue?_swap (h : ∀ f, e.Writes f → ¬ o.Writes f) (f : Field) :
    lastValue? (before ++ e :: o :: after) f = lastValue? (before ++ o :: e :: after) f := by
  simp only [lastValue?_append, lastValue?_cons]
  by_cases hwrites : e.Writes f
  · rw [value?_eq_none.mpr (h f hwrites), Option.or_none, Option.or_none]
  · rw [value?_eq_none.mpr hwrites, Option.or_none, Option.or_none]

end Entry

namespace OptionList

variable {c : Command} {l m : OptionList c}

/-- A field of the request that options make holds what was written into it last, or else what it
holds in the empty request. -/
theorem get_aggregate (l : OptionList c) (f : Field) :
    l.aggregate.request.get f = (Entry.lastValue? l.entries f).getD (({} : Request).get f) :=
  Entry.get_foldl l.entries _ f

/-- Options with the same last values make the same request. -/
theorem aggregate_congr (h : ∀ f, Entry.lastValue? l.entries f = Entry.lastValue? m.entries f) :
    l.aggregate = m.aggregate := by
  refine FittingRequest.ext (Request.ext_get fun f => ?_)
  rw [get_aggregate, get_aggregate, h f]

/-- Two lists of options ask for the same: they make one request, and with any default group the
same arguments or the same refusal. -/
def Agrees (l m : OptionList c) : Prop :=
  l.aggregate = m.aggregate ∧ ∀ default, l.arguments default = m.arguments default

theorem agrees_of_lastValue?
    (h : ∀ f, Entry.lastValue? l.entries f = Entry.lastValue? m.entries f) : l.Agrees m := by
  have haggregate := aggregate_congr h
  refine ⟨haggregate, fun default => arguments_congr ?_⟩
  rw [completed, completed, haggregate]

/-- Aggregation decides every field by the last option that writes it. -/
structure LastWriterWins (l : OptionList c) : Prop where
  /-- A whole request writes every field that the command takes. -/
  whole : ∀ (q : FittingRequest c) f, c.takes f = true →
    (Entry.whole q).value? f = some (q.request.get f)
  /-- The common options write the five common fields. -/
  common : ∀ options (h : c.accepts (.common options) = true),
    (Entry.setting (.common options) h).writes =
      Field.common.map fun f => ⟨f, ({ common := options } : Request).get f⟩
  /-- Every other setting writes exactly one field, which the command takes. -/
  single : ∀ s (h : c.accepts s = true), (∀ options, s ≠ .common options) →
    ∃ f v, c.takes f = true ∧ (Entry.setting s h).writes = [⟨f, v⟩]
  /-- A field holds what the last option that writes it writes into it. -/
  written : ∀ {before e after f v}, l.entries = before ++ e :: after → e.value? f = some v →
    (∀ o ∈ after, ¬ o.Writes f) → l.aggregate.request.get f = v
  /-- A field that no option writes holds its default. -/
  unwritten : ∀ f, (∀ e ∈ l.entries, ¬ e.Writes f) →
    l.aggregate.request.get f = ({} : Request).get f
  /-- Of options put behind others, those behind decide the fields that they write. -/
  append : ∀ m f, (l.append m).aggregate.request.get f =
    (Entry.lastValue? m.entries f).getD (l.aggregate.request.get f)
  /-- An option whose fields are all written again later can be left out. -/
  erase : ∀ {before e after}, l.entries = before ++ e :: after →
    (∀ f, e.Writes f → ∃ o ∈ after, o.Writes f) → l.Agrees ⟨before ++ after⟩
  /-- Two options in a row that write different fields can be given in either order. -/
  swap : ∀ {before e o after}, l.entries = before ++ e :: o :: after →
    (∀ f, e.Writes f → ¬ o.Writes f) → l.Agrees ⟨before ++ o :: e :: after⟩

/-- **The last writer wins**, field by field, for every command and every list of options. -/
theorem lastWriterWins (l : OptionList c) : l.LastWriterWins where
  whole q _ htakes := Entry.value?_whole q htakes
  common _ _ := rfl
  single s h hs := by
    rcases s.writes_cases with ⟨f, v, hwrites⟩ | ⟨options, hcommon⟩
    · have hfields : s.fields = [f] := by rw [← s.keys_writes, hwrites]; rfl
      have htakes : c.takes f = true := by
        simpa [Command.accepts, hfields] using h
      exact ⟨f, v, htakes, hwrites⟩
    · exact absurd hcommon (hs options)
  written {before e after f v} hl hv hafter := by
    rw [get_aggregate, hl, Entry.lastValue?_append, Entry.lastValue?_cons,
      Entry.lastValue?_eq_none.mpr hafter, hv]
    rfl
  unwritten f hnone := by
    rw [get_aggregate, Entry.lastValue?_eq_none.mpr hnone]
    rfl
  append m f := by
    rw [get_aggregate, get_aggregate, ← Option.getD_or, ← Entry.lastValue?_append]
    rfl
  erase hl h := agrees_of_lastValue? fun f => by rw [hl, Entry.lastValue?_erase h]
  swap hl h := agrees_of_lastValue? fun f => by rw [hl, Entry.lastValue?_swap h]

end OptionList

end LvmControl
