import LvmControl.Proofs.Report.Rows

/-!
# A report is taken whole

Whichever kind of rows is asked for, all rows of all sections are read. One row that cannot be read,
of any kind and anywhere, therefore leaves nothing of the report, and where something is left, it is
all rows of the kind in the order of the document, each with what stands in it.

## Main definitions

* `RowKind`: the kinds of rows, with the part of a section where they stand and their columns.
* `rowsIn`: the rows of a kind in a document.
* `Lists`: a list of rows that a section may leave out.
* `TakenWhole`: what is said of the answers for one output.

## Main statements

* `readSection_eq_ok_iff`, `sections_eq_ok_iff`: sections and reports are read exactly if they show
  what is read.
* `takenWhole`: every output is taken whole.
-/

namespace LvmControl.Report

/-! ## The rows of a document -/

/-- The kinds of rows. -/
inductive RowKind
  | group
  | volume
  | device
deriving DecidableEq, Repr

/-- The part of a section in which the rows of a kind stand. -/
def RowKind.part : RowKind → String
  | .group => "vg"
  | .volume => "lv"
  | .device => "pv"

/-- The columns of the rows of a kind. -/
def RowKind.columns : RowKind → List Column
  | .group => volumeGroupColumns
  | .volume => logicalVolumeColumns
  | .device => physicalVolumeColumns

/-- The parts of a section. -/
def sectionParts : List String := ["vg", "lv", "pv"]

/-- The items of an array; other values have none. -/
def itemsOf : Json → List Json
  | .array items => items
  | _ => []

/-- The sections of a document. -/
def sectionsIn (document : Json) : List Json :=
  (valuesOf ["report"] "report" document).flatMap itemsOf

/-- The rows of a kind in a section. -/
def rowsOf (kind : RowKind) (section_ : Json) : List Json :=
  (valuesOf sectionParts kind.part section_).flatMap itemsOf

/-- The rows of a kind in a document. -/
def rowsIn (kind : RowKind) (document : Json) : List Json :=
  (sectionsIn document).flatMap (rowsOf kind)

/-- What a section that has been read says in its rows of a kind. -/
def dataOf (s : Section) : RowKind → List (List Datum)
  | .group => s.groups.map VolumeGroup.data
  | .volume => s.volumes.map LogicalVolume.data
  | .device => s.devices.map PhysicalVolume.data

/-! ## Sections -/

/-- Lists of rows: the values that a section gives to one of its parts are an array of which every
item shows something, or there are none. -/
inductive Lists {α : Type} (R : Json → α → Prop) : List Json → List α → Prop
  | absent : Lists R [] []
  | present {items : List Json} {as : List α} (h : List.Forall₂ R items as) :
    Lists R [.array items] as

section Parts

variable {α β : Type} {R : Json → β → Prop} {vs : List Json} {as : List α} {bs : List β}

theorem Lists.forall₂ (h : Lists R vs bs) : List.Forall₂ R (vs.flatMap itemsOf) bs := by
  cases h with
  | absent => exact .nil
  | present h => simpa [itemsOf] using h

theorem lists_map_iff {f : α → β} :
    Lists R vs (as.map f) ↔ Lists (fun j a => R j (f a)) vs as := by
  constructor
  · intro h
    generalize hbs : as.map f = bs at h
    cases h with
    | absent =>
      rw [List.map_eq_nil_iff.mp hbs]
      exact .absent
    | present h =>
      subst hbs
      exact .present (List.forall₂_map_right_iff.mp h)
  · rintro (_ | h)
    · exact .absent
    · exact .present (List.forall₂_map_right_iff.mpr h)

/-- A part of a section that holds a list of rows is read exactly if it lists rows of which each
shows a record, and then gives the records. -/
theorem lists_shows_iff {columns : List Column} (name : String)
    {read : Json → Except ReportError α} {data : α → List Datum} (wrap : List α → Rows)
    (unwrap : Option Rows → List α)
    (hread : ∀ {row a}, read row = .ok a ↔ Shows columns row (data a)) (hnone : unwrap none = [])
    (hsome : ∀ as, unwrap (some (wrap as)) = as) (vs : List Json) (as : List α) :
    Lists (Shows columns) vs (as.map data) ↔
      ∃ o, (⟨name, false, fun j => (readArray read j).map wrap⟩ : Part Rows).Reads none vs o ∧
        unwrap o = as := by
  rw [lists_map_iff]
  simp only [← hread]
  constructor
  · rintro (_ | h)
    · exact ⟨none, .absent rfl, hnone⟩
    · refine ⟨some (wrap as), .present (map_eq_ok_iff.mpr ⟨as, ?_, rfl⟩), hsome as⟩
      exact readArray_eq_ok_iff.mpr ⟨_, rfl, h⟩
  · rintro ⟨o, hreads, rfl⟩
    cases hreads with
    | absent =>
      rw [hnone]
      exact .absent
    | present h =>
      obtain ⟨as, has, rfl⟩ := map_eq_ok_iff.mp h
      obtain ⟨items, rfl, hitems⟩ := readArray_eq_ok_iff.mp has
      rw [hsome]
      exact .present hitems

end Parts

/-- The volume groups in what has been found of a part. -/
def groupRows : Option Rows → List VolumeGroup
  | some (.groups rows) => rows
  | _ => []

/-- The logical volumes in what has been found of a part. -/
def volumeRows : Option Rows → List LogicalVolume
  | some (.volumes rows) => rows
  | _ => []

/-- The physical volumes in what has been found of a part. -/
def deviceRows : Option Rows → List PhysicalVolume
  | some (.devices rows) => rows
  | _ => []

theorem sectionOf_eq (found : List (String × Rows)) :
    sectionOf found = ⟨groupRows (found.lookup "vg"), volumeRows (found.lookup "lv"),
      deviceRows (found.lookup "pv")⟩ := rfl

/-- The parts of a section are read exactly if it lists, of each kind, the rows that are found. -/
theorem readSectionParts_iff {j : Json} {s : Section} :
    (∀ kind, Lists (Shows kind.columns) (valuesOf sectionParts kind.part j) (dataOf s kind)) ↔
      ∃ after : String → Option Rows,
        (∀ p ∈ sectionShape, p.Reads none (valuesOf sectionParts p.name j) (after p.name)) ∧
          s = ⟨groupRows (after "vg"), volumeRows (after "lv"), deviceRows (after "pv")⟩ := by
  have hgroups := lists_shows_iff "vg" .groups groupRows readVolumeGroup_eq_ok_iff rfl
    (fun _ => rfl) (valuesOf sectionParts "vg" j) s.groups
  have hvolumes := lists_shows_iff "lv" .volumes volumeRows readLogicalVolume_eq_ok_iff rfl
    (fun _ => rfl) (valuesOf sectionParts "lv" j) s.volumes
  have hdevices := lists_shows_iff "pv" .devices deviceRows readPhysicalVolume_eq_ok_iff rfl
    (fun _ => rfl) (valuesOf sectionParts "pv" j) s.devices
  constructor
  · intro h
    obtain ⟨vg, hvg, hvg'⟩ := hgroups.mp (h .group)
    obtain ⟨lv, hlv, hlv'⟩ := hvolumes.mp (h .volume)
    obtain ⟨pv, hpv, hpv'⟩ := hdevices.mp (h .device)
    refine ⟨fun name => if name = "vg" then vg else if name = "lv" then lv else pv, ?_, ?_⟩
    · simp only [sectionShape, List.forall_mem_cons]
      exact ⟨hvg, hlv, hpv, fun p hp => absurd hp List.not_mem_nil⟩
    · cases s
      cases hvg'
      cases hlv'
      cases hpv'
      rfl
  · rintro ⟨after, hreads, rfl⟩ kind
    simp only [sectionShape, List.forall_mem_cons] at hreads
    cases kind with
    | group => exact hgroups.mpr ⟨_, hreads.1, rfl⟩
    | volume => exact hvolumes.mpr ⟨_, hreads.2.1, rfl⟩
    | device => exact hdevices.mpr ⟨_, hreads.2.2.1, rfl⟩

/-- **Sections.** A section is read exactly if it is a record that lists, of each kind, the rows
that are read from it. -/
theorem readSection_eq_ok_iff {j : Json} {s : Section} :
    readSection j = .ok s ↔
      IsRecord sectionParts j ∧
        ∀ kind, Lists (Shows kind.columns) (valuesOf sectionParts kind.part j) (dataOf s kind) := by
  have hread (after : String → Option Rows) :
      (∃ found, readShape sectionShape j = .ok found ∧
          ∀ p ∈ sectionShape, found.lookup p.name = after p.name) ↔
        IsRecord sectionParts j ∧
          ∀ p ∈ sectionShape, p.Reads none (valuesOf sectionParts p.name j) (after p.name) :=
    readShape_eq_ok_iff (by decide) j after
  rw [readSectionParts_iff, readSection, map_eq_ok_iff]
  constructor
  · rintro ⟨found, hfound, rfl⟩
    obtain ⟨hrecord, hreads⟩ := (hread fun name => found.lookup name).mp
      ⟨found, hfound, fun _ _ => rfl⟩
    exact ⟨hrecord, fun name => found.lookup name, hreads, sectionOf_eq found⟩
  · rintro ⟨hrecord, after, hreads, rfl⟩
    obtain ⟨found, hfound, hlookup⟩ := (hread after).mpr ⟨hrecord, hreads⟩
    simp only [sectionShape, List.forall_mem_cons] at hlookup
    refine ⟨found, hfound, ?_⟩
    rw [sectionOf_eq, hlookup.1, hlookup.2.1, hlookup.2.2.1]

/-- **Reports.** A report is read exactly if it is a record that gives an array of the sections that
are read from it. -/
theorem sectionsOf_eq_ok_iff {j : Json} {ss : List Section} :
    sectionsOf j = .ok ss ↔
      IsRecord ["report"] j ∧ ∃ items, valuesOf ["report"] "report" j = [.array items] ∧
        List.Forall₂ (fun i s => readSection i = .ok s) items ss := by
  have hread (after : Option (List Section)) :
      (∃ found, readShape reportShape j = .ok found ∧ found.lookup "report" = after) ↔
        IsRecord ["report"] j ∧
          (⟨"report", true, readArray readSection⟩ : Part (List Section)).Reads none
            (valuesOf ["report"] "report" j) after := by
    have hnames : (reportShape.map Part.name).Nodup := by decide
    have h := readShape_eq_ok_iff hnames j fun _ => after
    simpa only [reportShape, List.forall_mem_singleton, List.map_cons, List.map_nil] using h
  rw [sectionsOf, map_eq_ok_iff]
  constructor
  · rintro ⟨found, hfound, rfl⟩
    obtain ⟨hrecord, hreads⟩ := (hread _).mp ⟨found, hfound, rfl⟩
    refine ⟨hrecord, ?_⟩
    generalize found.lookup "report" = o, valuesOf ["report"] "report" j = vs at hreads ⊢
    cases hreads with
    | absent h => cases h
    | present h =>
      obtain ⟨items, rfl, hitems⟩ := readArray_eq_ok_iff.mp h
      exact ⟨items, rfl, hitems⟩
  · rintro ⟨hrecord, items, hvalues, hitems⟩
    obtain ⟨found, hfound, hlookup⟩ := (hread (some ss)).mpr ⟨hrecord, by
      rw [hvalues]
      exact .present (readArray_eq_ok_iff.mpr ⟨items, rfl, hitems⟩)⟩
    exact ⟨found, hfound, by rw [hlookup, Option.getD_some]⟩

/-! ## Outputs -/

variable {output : String} {ss : List Section} {kind : RowKind}

/-- An output is read exactly if it is one document, which is a report, and nothing else. -/
theorem sections_eq_ok_iff :
    sections output = .ok ss ↔
      sectionsOf (Json.read output).value = .ok ss ∧ (Json.read output).complete = true := by
  simp only [sections, bind_eq_ok_iff]
  cases (Json.read output).complete <;> simp

/-- The rows of every kind show what has been read, whatever was asked for. -/
theorem forall₂_rowsIn (h : sections output = .ok ss) (kind : RowKind) :
    List.Forall₂ (Shows kind.columns) (rowsIn kind (Json.read output).value)
      (ss.flatMap fun s => dataOf s kind) := by
  obtain ⟨-, items, hvalues, hitems⟩ := sectionsOf_eq_ok_iff.mp (sections_eq_ok_iff.mp h).1
  have hsections : sectionsIn (Json.read output).value = items := by
    simp [sectionsIn, hvalues, itemsOf]
  rw [rowsIn, hsections]
  exact List.rel_flatMap hitems fun i s hread =>
    ((readSection_eq_ok_iff.mp hread).2 kind).forall₂

/-- How a list of records is what the rows of a kind say. -/
structure ReadExactly (kind : RowKind) (document : Json) (records : List (List Datum)) : Prop where
  /-- There are as many records as rows. -/
  length : records.length = (rowsIn kind document).length
  /-- In the order of the document, each record is what its row shows. -/
  shows : List.Forall₂ (Shows kind.columns) (rowsIn kind document) records
  /-- Where a row has a text in the column of a number, which is not blank, the record has the
  number that stands there. -/
  numbers : ∀ row record, (row, record) ∈ (rowsIn kind document).zip records →
    ∀ c d, (c, d) ∈ kind.columns.zip record → c.content = .count →
      ∀ cell, .ofText cell ∈ valuesOf (kind.columns.map Column.name) c.name row →
        ¬ Text.AllBlank cell.toList → ∃ n, d = .count n ∧ Number.Spells cell.toList n

/-- What the answers to the three questions about an output have to do with its rows. -/
structure TakenWhole (output : String) : Prop where
  /-- A row that fails in a column, whatever its kind and wherever it stands, leaves nothing: every
  question is answered with the same error. -/
  refused : ∀ kind, ∀ row ∈ rowsIn kind (Json.read output).value, Fails kind.columns row →
    ∃ e, volumeGroups output = .error e ∧ logicalVolumes output = .error e ∧
      physicalVolumes output = .error e
  groups : ∀ gs, volumeGroups output = .ok gs →
    ReadExactly .group (Json.read output).value (gs.map VolumeGroup.data)
  volumes : ∀ vs, logicalVolumes output = .ok vs →
    ReadExactly .volume (Json.read output).value (vs.map LogicalVolume.data)
  devices : ∀ ps, physicalVolumes output = .ok ps →
    ReadExactly .device (Json.read output).value (ps.map PhysicalVolume.data)

theorem readExactly (h : sections output = .ok ss) (kind : RowKind) :
    ReadExactly kind (Json.read output).value (ss.flatMap fun s => dataOf s kind) := by
  have hshows := forall₂_rowsIn h kind
  refine ⟨hshows.length_eq.symm, hshows, ?_⟩
  intro row record hrow c d hc hcount cell hcell hblank
  have hrecord := (List.forall₂_iff_zip.mp hshows).2 hrow
  exact ((List.forall₂_iff_zip.mp hrecord.2).2 hc).spells hcount hcell hblank

/-- **Taken whole.** Every output is read as all rows that it holds, or not at all. -/
theorem takenWhole (output : String) : TakenWhole output where
  refused kind row hrow hfails := by
    cases hsections : sections output with
    | error e =>
      exact ⟨e, by simp [volumeGroups, logicalVolumes, physicalVolumes, hsections, Except.map]⟩
    | ok ss =>
      obtain ⟨data, -, hdata⟩ := exists_of_mem_forall₂ (forall₂_rowsIn hsections kind) hrow
      exact absurd hdata (hfails.not_shows data)
  groups gs h := by
    obtain ⟨ss, hss, rfl⟩ := map_eq_ok_iff.mp h
    rw [List.map_flatMap]
    exact readExactly hss .group
  volumes vs h := by
    obtain ⟨ss, hss, rfl⟩ := map_eq_ok_iff.mp h
    rw [List.map_flatMap]
    exact readExactly hss .volume
  devices ps h := by
    obtain ⟨ss, hss, rfl⟩ := map_eq_ok_iff.mp h
    rw [List.map_flatMap]
    exact readExactly hss .device

end LvmControl.Report
