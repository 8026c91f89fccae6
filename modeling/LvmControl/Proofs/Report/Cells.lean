import LvmControl.Proofs.Number.Decimal
import LvmControl.Proofs.Report.Records

/-!
# What cells say

The text of a cell says something under the content of its column: itself, a number, tags, whether a
volume is active or a name. Here that is a relation, and the readings of cells are described by it.

## Main definitions

* `Datum`: what a cell can say.
* `Content.Says`: what the text of a cell says.

## Main statements

* `readCount_eq_ok_iff`: a number is read exactly from blanks, as zero, and from a decimal number
  below the bound of words, as that number.
* `Content.fault?_eq_none_iff`: the check of a cell passes exactly if the cell says something.
-/

namespace LvmControl

/-! ## Names -/

theorem VolumeGroupName.parse_eq_ok_iff {text : String} {g : VolumeGroupName} :
    VolumeGroupName.parse text = .ok g ↔ text = g.text := by
  refine ⟨fun h => ?_, fun h => h ▸ g.parse_text⟩
  unfold VolumeGroupName.parse at h
  split at h
  · exact congrArg VolumeGroupName.text (Except.ok.inj h)
  · cases h

theorem LogicalVolumeName.parse_eq_ok_iff {text : String} {v : LogicalVolumeName} :
    LogicalVolumeName.parse text = .ok v ↔ text = v.text := by
  refine ⟨fun h => ?_, fun h => h ▸ v.parse_text⟩
  unfold LogicalVolumeName.parse at h
  split at h
  · exact congrArg LogicalVolumeName.text (Except.ok.inj h)
  · cases h

theorem PhysicalVolumeName.parse_eq_ok_iff {text : String} {p : PhysicalVolumeName} :
    PhysicalVolumeName.parse text = .ok p ↔ text = p.text := by
  refine ⟨fun h => ?_, fun h => h ▸ p.parse_text⟩
  unfold PhysicalVolumeName.parse at h
  split at h
  · exact congrArg PhysicalVolumeName.text (Except.ok.inj h)
  · cases h

theorem VolumeGroupName.text_ne_empty (g : VolumeGroupName) : g.text ≠ "" := by
  intro h
  have hvalid := g.valid
  rw [h] at hvalid
  cases hvalid

namespace Report

/-! ## What cells say -/

/-- What a cell can say. -/
inductive Datum
  | text (text : String)
  | count (n : Nat)
  | tags (tags : List String)
  | activity (active : Bool)
  | groupName (name : VolumeGroupName)
  | volumeName (name : LogicalVolumeName)
  | devicePath (path : PhysicalVolumeName)
  | optionalGroup (name : Option VolumeGroupName)

namespace Content

/-- What the text of a cell says. Where nothing is said the cell cannot be read: it should hold a
number or a name and does not, or the number is too large. -/
inductive Says : Content → String → Datum → Prop
  | text (cell : String) : Says .text cell (.text cell)
  | blank {cell : String} (h : Text.AllBlank cell.toList) : Says .count cell (.count 0)
  | count {cell : String} {n : Nat} (h : Number.Spells cell.toList n) (hn : n < Number.wordBound) :
    Says .count cell (.count n)
  | tags (cell : String) : Says .tags cell (.tags (readTags cell))
  | activity (cell : String) : Says .activity cell (.activity (readActivity cell))
  | groupName (g : VolumeGroupName) : Says .groupName g.text (.groupName g)
  | volumeName (v : LogicalVolumeName) : Says .volumeName v.text (.volumeName v)
  | devicePath (p : PhysicalVolumeName) : Says .devicePath p.text (.devicePath p)
  | noGroup : Says .optionalGroup "" (.optionalGroup none)
  | optionalGroup (g : VolumeGroupName) : Says .optionalGroup g.text (.optionalGroup (some g))

variable {cell : String}

theorem says_text_iff {text : String} : Content.text.Says cell (.text text) ↔ cell = text :=
  ⟨fun h => by cases h; rfl, fun h => h ▸ .text cell⟩

theorem says_tags_iff {tags : List String} :
    Content.tags.Says cell (.tags tags) ↔ readTags cell = tags :=
  ⟨fun h => by cases h; rfl, fun h => h ▸ .tags cell⟩

theorem says_activity_iff {active : Bool} :
    Content.activity.Says cell (.activity active) ↔ readActivity cell = active :=
  ⟨fun h => by cases h; rfl, fun h => h ▸ .activity cell⟩

end Content

variable {cell : String}

/-- A number is read exactly from blanks, as zero, and from a decimal number below the bound of
words, as that number. -/
theorem readCount_eq_ok_iff {n : Nat} :
    readCount cell = .ok n ↔ Content.count.Says cell (.count n) := by
  have hmeans : Content.count.Says cell (.count n) ↔
      (Text.AllBlank cell.toList ∧ n = 0) ∨
        (Number.Spells cell.toList n ∧ n < Number.wordBound) := by
    constructor
    · intro h
      cases h with
      | blank h => exact .inl ⟨h, rfl⟩
      | count h hn => exact .inr ⟨h, hn⟩
    · rintro (⟨h, rfl⟩ | ⟨h, hn⟩)
      · exact .blank h
      · exact .count h hn
  rw [hmeans, ← Text.trim_eq_nil_iff, Number.spells_iff, ← Number.readBelow?_eq_some_iff]
  by_cases hblank : Text.trim cell.toList = []
  · simp [readCount, hblank, eq_comm, Number.readBelow?, Number.readWhole?, Number.dropPlus,
      Number.digitsValue?]
  · cases hnumber : Number.readBelow? Number.wordBound (Text.trim cell.toList) <;>
      simp [readCount, hblank, hnumber]

theorem mapError_eq_ok_iff {ε ε' α : Type} {x : Except ε α} {f : ε → ε'} {a : α} :
    x.mapError f = .ok a ↔ x = .ok a := by
  cases x <;> simp [Except.mapError]

theorem readGroup_eq_ok_iff {g : VolumeGroupName} :
    readGroup cell = .ok g ↔ Content.groupName.Says cell (.groupName g) := by
  rw [readGroup, mapError_eq_ok_iff, VolumeGroupName.parse_eq_ok_iff]
  exact ⟨fun h => h ▸ .groupName g, fun h => by cases h; rfl⟩

theorem readVolume_eq_ok_iff {v : LogicalVolumeName} :
    readVolume cell = .ok v ↔ Content.volumeName.Says cell (.volumeName v) := by
  rw [readVolume, mapError_eq_ok_iff, LogicalVolumeName.parse_eq_ok_iff]
  exact ⟨fun h => h ▸ .volumeName v, fun h => by cases h; rfl⟩

theorem readDevice_eq_ok_iff {p : PhysicalVolumeName} :
    readDevice cell = .ok p ↔ Content.devicePath.Says cell (.devicePath p) := by
  rw [readDevice, mapError_eq_ok_iff, PhysicalVolumeName.parse_eq_ok_iff]
  exact ⟨fun h => h ▸ .devicePath p, fun h => by cases h; rfl⟩

/-- No group is read from the empty text, and a group from its name; no name is empty. -/
theorem readOptionalGroup_eq_ok_iff {group : Option VolumeGroupName} :
    readOptionalGroup cell = .ok group ↔
      Content.optionalGroup.Says cell (.optionalGroup group) := by
  unfold readOptionalGroup
  split
  · next hempty =>
    subst hempty
    constructor
    · rintro ⟨⟩
      exact .noGroup
    · intro h
      generalize hcell : "" = cell at h
      cases h with
      | noGroup => rfl
      | optionalGroup g => exact absurd hcell.symm g.text_ne_empty
  · next hne =>
    rw [map_eq_ok_iff]
    simp only [readGroup_eq_ok_iff]
    constructor
    · rintro ⟨g, ⟨⟩, rfl⟩
      exact .optionalGroup g
    · rintro (_ | _)
      · exact absurd rfl hne
      · exact ⟨_, .groupName _, rfl⟩

theorem faultOf_eq_none_iff {α : Type} {x : Except ReportError α} :
    faultOf x = none ↔ ∃ a, x = .ok a := by
  cases x <;> simp [faultOf]

/-- The check of a cell passes exactly if the cell says something. -/
theorem Content.fault?_eq_none_iff {content : Content} :
    content.fault? cell = none ↔ ∃ d, content.Says cell d := by
  constructor
  · intro h
    cases content with
    | text => exact ⟨_, .text cell⟩
    | count => exact (faultOf_eq_none_iff.mp h).imp' _ fun _ => readCount_eq_ok_iff.mp
    | tags => exact ⟨_, .tags cell⟩
    | activity => exact ⟨_, .activity cell⟩
    | groupName => exact (faultOf_eq_none_iff.mp h).imp' _ fun _ => readGroup_eq_ok_iff.mp
    | volumeName => exact (faultOf_eq_none_iff.mp h).imp' _ fun _ => readVolume_eq_ok_iff.mp
    | devicePath => exact (faultOf_eq_none_iff.mp h).imp' _ fun _ => readDevice_eq_ok_iff.mp
    | optionalGroup =>
      exact (faultOf_eq_none_iff.mp h).imp' _ fun _ => readOptionalGroup_eq_ok_iff.mp
  · rintro ⟨d, h⟩
    cases h with
    | text | tags | activity => rfl
    | blank h => exact faultOf_eq_none_iff.mpr ⟨_, readCount_eq_ok_iff.mpr (.blank h)⟩
    | count h hn => exact faultOf_eq_none_iff.mpr ⟨_, readCount_eq_ok_iff.mpr (.count h hn)⟩
    | groupName g => exact faultOf_eq_none_iff.mpr ⟨_, readGroup_eq_ok_iff.mpr (.groupName g)⟩
    | volumeName v => exact faultOf_eq_none_iff.mpr ⟨_, readVolume_eq_ok_iff.mpr (.volumeName v)⟩
    | devicePath p => exact faultOf_eq_none_iff.mpr ⟨_, readDevice_eq_ok_iff.mpr (.devicePath p)⟩
    | noGroup => rfl
    | optionalGroup g =>
      exact faultOf_eq_none_iff.mpr ⟨_, readOptionalGroup_eq_ok_iff.mpr (.optionalGroup g)⟩

end Report

end LvmControl
