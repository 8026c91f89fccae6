import LvmControl.Proofs.Report.Cells
import LvmControl.Report.Volume

/-!
# What rows say

A row says something in each of its columns, and a volume group, a logical volume and a physical
volume is nothing but what its row says, column by column. That is one relation between a table of
columns, a row and the data of a record, for all three kinds of record.

## Main definitions

* `VolumeGroup.data`, `LogicalVolume.data`, `PhysicalVolume.data`: what a record says in the
  columns of its table.
* `Column.Shows`, `Column.Fails`: what a row says in a column, and the rows refused for a column.
* `Shows`: what a row says in all columns.

## Main statements

* `readVolumeGroup_eq_ok_iff`, `readLogicalVolume_eq_ok_iff`, `readPhysicalVolume_eq_ok_iff`: a row
  is read as the record that it shows, and a row that shows none is not read.
* `Fails.not_shows`: a row that is refused for a column shows nothing.
-/

namespace LvmControl

open Report (Datum)

/-- What a volume group says in the columns of its report. -/
def VolumeGroup.data (g : VolumeGroup) : List Datum :=
  [.groupName g.name, .text g.uuid, .text g.attr, .count g.size, .count g.free,
   .count g.extentSize, .count g.extentCount, .count g.freeCount, .count g.deviceCount,
   .count g.volumeCount, .tags g.tags]

/-- What a logical volume says in the columns of its report. -/
def LogicalVolume.data (v : LogicalVolume) : List Datum :=
  [.volumeName v.name, .groupName v.group, .text v.uuid, .text v.attr, .count v.size, .text v.path,
   .activity v.active, .tags v.tags]

/-- What a physical volume says in the columns of its report. -/
def PhysicalVolume.data (p : PhysicalVolume) : List Datum :=
  [.devicePath p.name, .optionalGroup p.group, .text p.uuid, .text p.attr, .text p.format,
   .count p.size, .count p.free, .tags p.tags]

namespace Report

/-! ## Columns -/

/-- A column as a part of a row. -/
def Column.part (c : Column) : Part String := ⟨c.name, c.required, c.readCell⟩

/-- What a row says in a column, given the values it has there. A column that is not required may be
missing, and then says what the empty text says. -/
inductive Column.Shows (c : Column) : List Json → Datum → Prop
  | absent {d : Datum} (h : c.required = false) (hd : c.content.Says "" d) : c.Shows [] d
  | present {cell : String} {d : Datum} (hd : c.content.Says cell d) : c.Shows [.ofText cell] d

/-- The columns for which a row is refused, given the values it has there: a required one without a
value, one that has a value which is no text, and one that has a text which says nothing. -/
inductive Column.Fails (c : Column) : List Json → Prop
  | missing (h : c.required = true) : c.Fails []
  | notText {vs : List Json} {v : Json} (hv : v ∈ vs) (h : ∀ cell, v ≠ .ofText cell) : c.Fails vs
  | saysNothing {vs : List Json} {cell : String} (hv : .ofText cell ∈ vs)
    (h : ∀ d, ¬ c.content.Says cell d) : c.Fails vs

namespace Column

variable {c : Column} {vs : List Json} {v : Json} {cell : String} {d : Datum}

theorem readCell_eq_ok_iff :
    c.readCell v = .ok cell ↔ v = .ofText cell ∧ ∃ d, c.content.Says cell d := by
  rw [← Content.fault?_eq_none_iff]
  constructor
  · intro h
    unfold Column.readCell at h
    split at h
    · split at h
      · next hfault =>
        cases h
        exact ⟨rfl, hfault⟩
      · cases h
    · cases h
  · rintro ⟨rfl, hfault⟩
    simp [Column.readCell, Json.ofText, hfault]

/-- A column shows something exactly if it can be read and the text read, or else the empty text,
says that. -/
theorem shows_iff :
    c.Shows vs d ↔ ∃ o, c.part.Reads none vs o ∧ c.content.Says (o.getD "") d := by
  constructor
  · rintro (⟨h, hd⟩ | hd)
    · exact ⟨none, .absent h, hd⟩
    · exact ⟨some _, .present (readCell_eq_ok_iff.mpr ⟨rfl, d, hd⟩), hd⟩
  · rintro ⟨o, hreads, hd⟩
    cases hreads with
    | absent h => exact .absent h hd
    | present h =>
      obtain ⟨rfl, -⟩ := readCell_eq_ok_iff.mp h
      exact .present hd

/-- The text among the values that a row has in a column. -/
def cellIn? : List Json → Option String
  | [.string (some cell)] => some cell
  | _ => none

theorem eq_cellIn?_of_reads {o : Option String} (h : c.part.Reads none vs o) : o = cellIn? vs := by
  cases h with
  | absent => rfl
  | present h =>
    obtain ⟨rfl, -⟩ := readCell_eq_ok_iff.mp h
    rfl

/-- A column that fails shows nothing. -/
theorem Fails.not_shows (h : c.Fails vs) (d : Datum) : ¬ c.Shows vs d := by
  rintro (⟨hrequired, -⟩ | hd)
  · rcases h with h | ⟨hv, -⟩ | ⟨hv, -⟩
    · exact Bool.false_ne_true (hrequired.symm.trans h)
    · cases hv
    · cases hv
  · rcases h with _ | ⟨hv, hnot⟩ | ⟨hv, hnot⟩
    · exact hnot _ (List.mem_singleton.mp hv)
    · cases List.mem_singleton.mp hv
      exact hnot d hd

/-- A number that is shown stands in the row, unless the row has only blanks in its place. -/
theorem Shows.spells (h : c.Shows vs d) (hcount : c.content = .count) (hcell : .ofText cell ∈ vs)
    (hblank : ¬ Text.AllBlank cell.toList) : ∃ n, d = .count n ∧ Number.Spells cell.toList n := by
  cases h with
  | absent => cases hcell
  | present hd =>
    cases List.mem_singleton.mp hcell
    rw [hcount] at hd
    cases hd with
    | blank h => exact absurd h hblank
    | count h _ => exact ⟨_, rfl, h⟩

end Column

/-! ## Rows -/

/-- What a row says: it is a record, and in each column of the table it shows one of the data. -/
def Shows (columns : List Column) (row : Json) (data : List Datum) : Prop :=
  IsRecord (columns.map Column.name) row ∧
    List.Forall₂ (fun c d => c.Shows (valuesOf (columns.map Column.name) c.name row) d) columns data

/-- A row that is refused for one of its columns. -/
def Fails (columns : List Column) (row : Json) : Prop :=
  ∃ c ∈ columns, c.Fails (valuesOf (columns.map Column.name) c.name row)

/-- A row that is refused for a column shows nothing. -/
theorem Fails.not_shows {columns : List Column} {row : Json} (h : Fails columns row)
    (data : List Datum) : ¬ Shows columns row data := by
  rintro ⟨-, hshows⟩
  obtain ⟨c, hc, hfails⟩ := h
  obtain ⟨d, -, hd⟩ := exists_of_mem_forall₂ hshows hc
  exact hfails.not_shows d hd

section Reading

variable {columns : List Column} {row : Json} {α : Type} {ofCells : Cells → Except ReportError α}
  {data : α → List Datum} {a : α}

theorem readRow_eq_ok_iff (hnames : (columns.map Column.name).Nodup)
    (after : String → Option String) :
    (∃ cells, readRow columns row = .ok cells ∧
        ∀ c ∈ columns, cells.lookup c.name = after c.name) ↔
      IsRecord (columns.map Column.name) row ∧
        ∀ c ∈ columns,
          c.part.Reads none (valuesOf (columns.map Column.name) c.name row) (after c.name) := by
  have hshape : (shapeOf columns).map Part.name = columns.map Column.name := by
    simp [shapeOf, Function.comp_def]
  have hread := readShape_eq_ok_iff (hshape ▸ hnames) row after
  rw [hshape] at hread
  simp only [shapeOf, List.forall_mem_map] at hread
  exact hread

/-- Where the cells of a row give the record of which the data are what they say, a row is read as
the record whose data it shows. -/
theorem readRow_bind_eq_ok_iff (hnames : (columns.map Column.name).Nodup)
    (hof : ∀ cells, ofCells cells = .ok a ↔
      List.Forall₂ (fun c d => c.content.Says (cells.text c.name) d) columns (data a)) :
    (readRow columns row).bind ofCells = .ok a ↔ Shows columns row (data a) := by
  rw [bind_eq_ok_iff]
  constructor
  · rintro ⟨cells, hcells, ha⟩
    obtain ⟨hrecord, hreads⟩ := (readRow_eq_ok_iff hnames fun name => cells.lookup name).mp
      ⟨cells, hcells, fun _ _ => rfl⟩
    refine ⟨hrecord, List.Forall₂.imp ?_
      ((List.forall₂_and_left _ _).mpr ⟨hreads, (hof cells).mp ha⟩)⟩
    exact fun c d h => Column.shows_iff.mpr ⟨_, h⟩
  · rintro ⟨hrecord, hshows⟩
    have hcells : List.Forall₂ (fun c d =>
        c.part.Reads none (valuesOf (columns.map Column.name) c.name row)
            (Column.cellIn? (valuesOf (columns.map Column.name) c.name row)) ∧
          c.content.Says
            ((Column.cellIn? (valuesOf (columns.map Column.name) c.name row)).getD "") d)
        columns (data a) := by
      refine List.Forall₂.imp (fun c d h => ?_) hshows
      obtain ⟨o, hreads, hmeans⟩ := Column.shows_iff.mp h
      obtain rfl := Column.eq_cellIn?_of_reads hreads
      exact ⟨hreads, hmeans⟩
    obtain ⟨hreads, hmeans⟩ := (List.forall₂_and_left _ _).mp hcells
    obtain ⟨cells, hcells, hlookup⟩ := (readRow_eq_ok_iff hnames fun name =>
      Column.cellIn? (valuesOf (columns.map Column.name) name row)).mpr ⟨hrecord, hreads⟩
    refine ⟨cells, hcells, (hof cells).mpr (List.Forall₂.imp ?_
      ((List.forall₂_and_left _ _).mpr ⟨hlookup, hmeans⟩))⟩
    rintro c d ⟨hc, hd⟩
    rwa [Cells.text, hc]

end Reading

/-! ## Records -/

theorem volumeGroupOf_eq_ok_iff {cells : Cells} {g : VolumeGroup} :
    volumeGroupOf cells = .ok g ↔
      List.Forall₂ (fun c d => c.content.Says (cells.text c.name) d) volumeGroupColumns g.data := by
  simp only [volumeGroupColumns, VolumeGroup.data, List.forall₂_cons, List.forall₂_nil_left_iff,
    ← readGroup_eq_ok_iff, ← readCount_eq_ok_iff, Content.says_text_iff, Content.says_tags_iff,
    volumeGroupOf, bindM_eq_ok_iff, pure_eq_ok_iff]
  constructor
  · rintro ⟨name, hname, size, hsize, free, hfree, extentSize, hextentSize, extentCount,
      hextentCount, freeCount, hfreeCount, deviceCount, hdeviceCount, volumeCount, hvolumeCount,
      rfl⟩
    exact ⟨hname, rfl, rfl, hsize, hfree, hextentSize, hextentCount, hfreeCount, hdeviceCount,
      hvolumeCount, rfl, trivial⟩
  · rintro ⟨hname, huuid, hattr, hsize, hfree, hextentSize, hextentCount, hfreeCount, hdeviceCount,
      hvolumeCount, htags, -⟩
    refine ⟨_, hname, _, hsize, _, hfree, _, hextentSize, _, hextentCount, _, hfreeCount, _,
      hdeviceCount, _, hvolumeCount, ?_⟩
    rw [huuid, hattr, htags]

theorem logicalVolumeOf_eq_ok_iff {cells : Cells} {v : LogicalVolume} :
    logicalVolumeOf cells = .ok v ↔
      List.Forall₂ (fun c d => c.content.Says (cells.text c.name) d) logicalVolumeColumns
        v.data := by
  simp only [logicalVolumeColumns, LogicalVolume.data, List.forall₂_cons,
    List.forall₂_nil_left_iff, ← readGroup_eq_ok_iff, ← readVolume_eq_ok_iff,
    ← readCount_eq_ok_iff, Content.says_text_iff, Content.says_tags_iff, Content.says_activity_iff,
    logicalVolumeOf, bindM_eq_ok_iff, pure_eq_ok_iff]
  constructor
  · rintro ⟨name, hname, group, hgroup, size, hsize, rfl⟩
    exact ⟨hname, hgroup, rfl, rfl, hsize, rfl, rfl, rfl, trivial⟩
  · rintro ⟨hname, hgroup, huuid, hattr, hsize, hpath, hactive, htags, -⟩
    refine ⟨_, hname, _, hgroup, _, hsize, ?_⟩
    rw [huuid, hattr, hpath, hactive, htags]

theorem physicalVolumeOf_eq_ok_iff {cells : Cells} {p : PhysicalVolume} :
    physicalVolumeOf cells = .ok p ↔
      List.Forall₂ (fun c d => c.content.Says (cells.text c.name) d) physicalVolumeColumns
        p.data := by
  simp only [physicalVolumeColumns, PhysicalVolume.data, List.forall₂_cons,
    List.forall₂_nil_left_iff, ← readDevice_eq_ok_iff, ← readOptionalGroup_eq_ok_iff,
    ← readCount_eq_ok_iff, Content.says_text_iff, Content.says_tags_iff,
    physicalVolumeOf, bindM_eq_ok_iff, pure_eq_ok_iff]
  constructor
  · rintro ⟨name, hname, group, hgroup, size, hsize, free, hfree, rfl⟩
    exact ⟨hname, hgroup, rfl, rfl, rfl, hsize, hfree, rfl, trivial⟩
  · rintro ⟨hname, hgroup, huuid, hattr, hformat, hsize, hfree, htags, -⟩
    refine ⟨_, hname, _, hgroup, _, hsize, _, hfree, ?_⟩
    rw [huuid, hattr, hformat, htags]

/-- **Volume groups.** A row is read as the volume group that it shows. -/
theorem readVolumeGroup_eq_ok_iff {row : Json} {g : VolumeGroup} :
    readVolumeGroup row = .ok g ↔ Shows volumeGroupColumns row g.data :=
  readRow_bind_eq_ok_iff (by decide) fun _ => volumeGroupOf_eq_ok_iff

/-- **Logical volumes.** A row is read as the logical volume that it shows. -/
theorem readLogicalVolume_eq_ok_iff {row : Json} {v : LogicalVolume} :
    readLogicalVolume row = .ok v ↔ Shows logicalVolumeColumns row v.data :=
  readRow_bind_eq_ok_iff (by decide) fun _ => logicalVolumeOf_eq_ok_iff

/-- **Physical volumes.** A row is read as the physical volume that it shows. -/
theorem readPhysicalVolume_eq_ok_iff {row : Json} {p : PhysicalVolume} :
    readPhysicalVolume row = .ok p ↔ Shows physicalVolumeColumns row p.data :=
  readRow_bind_eq_ok_iff (by decide) fun _ => physicalVolumeOf_eq_ok_iff

end Report

end LvmControl
