import LvmControl.Proofs.Report.Whole
import LvmControl.Proofs.Request.Promises

/-!
# Reports as they are written

The tools write a report as objects in objects: every datum a string under the name of its column,
numbers in decimal, tags with commas between them. What is written so, with the members of the
objects in any order and with members of no interest among them, is read as what was written.

## Main definitions

* `Json.Holds`: the objects that have some members, in any order and among others.
* `Datum.cell`: the text that is written for a datum.
* `Datum.Writable`: the data that are written so that they can be read.
* `RowWritten`, `SectionWritten`, `ReportWritten`: rows, sections and reports as they are written.

## Main statements

* `Datum.says_cell`: the text that is written for a datum says it.
* `answers_of_written`: a report is read as what was written.
-/

namespace LvmControl

/-! ## Objects with some members -/

/-- An object that has the given members, in any order and among others that are under none of the
names. -/
def Json.Holds (names : List String) (members : List (String × Json)) (j : Json) : Prop :=
  ∃ others all, (∀ m ∈ others, m.1 ∉ names) ∧ all.Perm (members ++ others) ∧ j = .ofMembers all

namespace Report

variable {names : List String} {members : List (String × Json)} {j : Json}

theorem isRecord_of_holds (h : j.Holds names members) : IsRecord names j := by
  obtain ⟨others, all, -, -, rfl⟩ := h
  exact List.forall_mem_map.mpr fun m _ => Option.some_ne_none m.1

/-- Of members under different names, each gives its name its value. -/
theorem filterMap_of_nodup {name : String} {v : Json} (hnames : (members.map Prod.fst).Nodup)
    (h : (name, v) ∈ members) :
    (members.filterMap fun m => if m.1 = name then some m.2 else none) = [v] := by
  induction members with
  | nil => cases h
  | cons m members ih =>
    obtain ⟨hnotMem, hnames⟩ := List.nodup_cons.mp hnames
    rcases List.mem_cons.mp h with rfl | h
    · have hnone : ∀ m ∈ members, (if m.1 = name then some m.2 else none) = none := by
        intro m hm
        refine if_neg ?_
        rintro rfl
        exact hnotMem (List.mem_map.mpr ⟨m, hm, rfl⟩)
      simp [List.filterMap_eq_nil_iff.mpr hnone]
    · have hne : m.1 ≠ name := fun hname => hnotMem (hname ▸ List.mem_map_of_mem h)
      simp [hne, ih hnames h]

/-- An object that has a member gives its name its value, and no other. -/
theorem valuesOf_of_holds {name : String} {v : Json} (h : j.Holds names members)
    (hnames : (members.map Prod.fst).Nodup) (hmem : (name, v) ∈ members) (hname : name ∈ names) :
    valuesOf names name j = [v] := by
  obtain ⟨others, all, hothers, hperm, rfl⟩ := h
  have hnone : ∀ m ∈ others, (if m.1 = name then some m.2 else none) = none := fun m hm =>
    if_neg fun heq : m.1 = name => hothers m hm (heq ▸ hname)
  have hvalues := hperm.filterMap fun m => if m.1 = name then some m.2 else none
  rw [List.filterMap_append, filterMap_of_nodup hnames hmem,
    List.filterMap_eq_nil_iff.mpr hnone, List.append_nil, List.perm_singleton] at hvalues
  simpa [valuesOf, valuesIn, Json.ofMembers, List.filterMap_map, Function.comp_def] using hvalues

/-! ## Cells -/

namespace Datum

/-- The column that a datum stands in. -/
def content : Datum → Content
  | .text _ => .text
  | .count _ => .count
  | .tags _ => .tags
  | .activity _ => .activity
  | .groupName _ => .groupName
  | .volumeName _ => .volumeName
  | .devicePath _ => .devicePath
  | .optionalGroup _ => .optionalGroup

/-- The text that is written for a datum. -/
def cell : Datum → String
  | .text t => t
  | .count n => Number.decimal n
  | .tags ts => Text.join "," ts
  | .activity b => if b then "active" else ""
  | .groupName g => g.text
  | .volumeName v => v.text
  | .devicePath p => p.text
  | .optionalGroup none => ""
  | .optionalGroup (some g) => g.text

/-- The data that are written so that they can be read: numbers are words, and tags pass the check
that they pass in a request. -/
def Writable : Datum → Prop
  | .count n => n < Number.wordBound
  | .tags ts => tagFault? ts = none
  | _ => True

instance : (d : Datum) → Decidable d.Writable
  | .count n => inferInstanceAs (Decidable (n < Number.wordBound))
  | .tags ts => inferInstanceAs (Decidable (tagFault? ts = none))
  | .text _ | .activity _ | .groupName _ | .volumeName _ | .devicePath _ | .optionalGroup _ =>
    .isTrue trivial

end Datum

/-- The characters of tags are printable, and a comma is not among them. -/
theorem bounds_of_isTagChar {c : Char} (h : isTagChar c = true) :
    (0x21 ≤ c.toNat ∧ c.toNat ≤ 0x7e) ∧ c ≠ ',' := by
  rcases Bool.or_eq_true_iff.mp h with h | h
  · have hrange : (65 ≤ c.toNat ∧ c.toNat ≤ 90) ∨ (97 ≤ c.toNat ∧ c.toNat ≤ 122) ∨
        (48 ≤ c.toNat ∧ c.toNat ≤ 57) := by
      rcases Bool.or_eq_true_iff.mp h with hletter | hdigit
      · rcases Bool.or_eq_true_iff.mp hletter with hupper | hlower
        · exact .inl (of_decide_eq_true hupper)
        · obtain ⟨hlow, hhigh⟩ := Bool.and_eq_true_iff.mp hlower
          exact .inr (.inl ⟨of_decide_eq_true hlow, of_decide_eq_true hhigh⟩)
      · obtain ⟨hlow, hhigh⟩ := Bool.and_eq_true_iff.mp hdigit
        exact .inr (.inr ⟨of_decide_eq_true hlow, of_decide_eq_true hhigh⟩)
    refine ⟨by omega, ?_⟩
    rintro rfl
    exact absurd hrange (by decide)
  · have hall : "_+.-/=!:&#".toList.all
        (fun c => (0x21 ≤ c.toNat ∧ c.toNat ≤ 0x7e) ∧ c ≠ ',') = true := by decide
    exact decide_eq_true_iff.mp (List.all_eq_true.mp hall c (List.contains_iff_mem.mp h))

/-- Tags that are written are read. -/
theorem readTags_join {tags : List String} (h : tagFault? tags = none) :
    readTags (Text.join "," tags) = tags := by
  have htags : ∀ t ∈ tags, t ≠ "" ∧ ',' ∉ t.toList ∧ Text.NoBlank t.toList := by
    intro t ht
    obtain ⟨⟨hlength, -⟩, -, hchars⟩ := isTag_iff.mp (isTag_of_tagFault? h ht)
    refine ⟨?_, fun hcomma => (bounds_of_isTagChar (hchars ',' hcomma)).2 rfl,
      fun c hc => Text.isBlank_eq_false_of_printable (bounds_of_isTagChar (hchars c hc)).1⟩
    rintro rfl
    exact absurd hlength (by decide)
  cases htagList : tags with
  | nil => decide
  | cons t ts =>
    rw [← htagList]
    have hpieces : Text.pieces ',' (Text.join "," tags).toList = tags.map String.toList :=
      Text.pieces_join (by simp [htagList]) fun t ht => (htags t ht).2.1
    have htrim : (tags.map String.toList).map Text.trim = tags.map String.toList := by
      rw [List.map_map]
      exact List.map_congr_left fun t ht => Text.trim_eq_self (htags t ht).2.2
    have hfilter : (tags.map String.toList).filter (fun t => !t.isEmpty) =
        tags.map String.toList := by
      refine List.filter_eq_self.mpr (List.forall_mem_map.mpr fun t ht => ?_)
      simpa using (htags t ht).1
    rw [readTags, hpieces, htrim, hfilter, List.map_map]
    exact (List.map_congr_left fun t _ => String.ofList_toList).trans (List.map_id tags)

/-- The text that is written for a datum says it. -/
theorem Datum.says_cell {d : Datum} (h : d.Writable) : d.content.Says d.cell d := by
  cases d with
  | text t => exact .text t
  | count n =>
    have hdigits : (Number.decimal n).toList = [] ++ Number.decimalDigits n ++ [] := by
      simp [Number.decimal]
    exact .count ⟨[], _, [], by decide, by decide, Number.isDecimal_decimalDigits n, hdigits⟩ h
  | tags ts => exact Content.says_tags_iff.mpr (readTags_join h)
  | activity b =>
    refine Content.says_activity_iff.mpr ?_
    cases b <;> decide
  | groupName g => exact .groupName g
  | volumeName v => exact .volumeName v
  | devicePath p => exact .devicePath p
  | optionalGroup g =>
    cases g with
    | none => exact .noGroup
    | some g => exact .optionalGroup g

/-! ## Rows, sections and reports -/

/-- The members of a row: every datum a string under the name of its column. -/
def rowMembers (columns : List Column) (data : List Datum) : List (String × Json) :=
  (columns.zip data).map fun (c, d) => (c.name, .ofText d.cell)

/-- A row as it is written. -/
def RowWritten (columns : List Column) (row : Json) (data : List Datum) : Prop :=
  row.Holds (columns.map Column.name) (rowMembers columns data)

/-- The members of a section: an array of rows of each kind. -/
def sectionMembers (rows : RowKind → List Json) : List (String × Json) :=
  [("vg", .array (rows .group)), ("lv", .array (rows .volume)), ("pv", .array (rows .device))]

/-- A section as it is written. -/
def SectionWritten (j : Json) (s : Section) : Prop :=
  ∃ rows : RowKind → List Json,
    (∀ kind, List.Forall₂ (RowWritten kind.columns) (rows kind) (dataOf s kind)) ∧
      j.Holds sectionParts (sectionMembers rows)

/-- A report as it is written: an array of sections. -/
def ReportWritten (j : Json) (ss : List Section) : Prop :=
  ∃ items, List.Forall₂ SectionWritten items ss ∧ j.Holds ["report"] [("report", .array items)]

/-- A section whose data can be written. -/
def SectionWritable (s : Section) : Prop :=
  ∀ kind, ∀ data ∈ dataOf s kind, ∀ d ∈ data, d.Writable

/-- A written row shows what was written. -/
theorem shows_of_written {columns : List Column} {row : Json} {data : List Datum}
    (hnames : (columns.map Column.name).Nodup)
    (hcontent : List.Forall₂ (fun c d => c.content = Datum.content d) columns data)
    (hwritable : ∀ d ∈ data, d.Writable) (h : RowWritten columns row data) :
    Shows columns row data := by
  have hkeys : ((rowMembers columns data).map Prod.fst).Nodup := by
    have hfst := congrArg (List.map Column.name) (List.map_fst_zip hcontent.length_eq.le)
    rw [List.map_map] at hfst
    rw [rowMembers, List.map_map]
    exact hfst ▸ hnames
  obtain ⟨hlength, hsame⟩ := List.forall₂_iff_zip.mp hcontent
  refine ⟨isRecord_of_holds h, List.forall₂_iff_zip.mpr ⟨hlength, fun {c d} hmem => ?_⟩⟩
  obtain ⟨hc, hd⟩ := List.of_mem_zip hmem
  rw [valuesOf_of_holds h hkeys (List.mem_map.mpr ⟨(c, d), hmem, rfl⟩) (List.mem_map_of_mem hc)]
  exact .present (hsame hmem ▸ Datum.says_cell (hwritable d hd))

/-- The columns of a kind have different names. -/
theorem nodup_columns (kind : RowKind) : (kind.columns.map Column.name).Nodup := by
  cases kind <;> decide

/-- The data of a record stand in the columns of its kind. -/
theorem content_of_mem_dataOf {s : Section} {kind : RowKind} {data : List Datum}
    (h : data ∈ dataOf s kind) :
    List.Forall₂ (fun c d => c.content = Datum.content d) kind.columns data := by
  have heq : kind.columns.map Column.content = data.map Datum.content := by
    cases kind <;> obtain ⟨_, -, rfl⟩ := List.mem_map.mp h <;> rfl
  rw [← List.forall₂_eq_eq_eq] at heq
  exact List.forall₂_map_right_iff.mp (List.forall₂_map_left_iff.mp heq)

/-- A written section is read as what was written. -/
theorem readSection_of_written {j : Json} {s : Section} (hwritable : SectionWritable s)
    (h : SectionWritten j s) : readSection j = .ok s := by
  obtain ⟨rows, hrows, hholds⟩ := h
  refine readSection_eq_ok_iff.mpr ⟨isRecord_of_holds hholds, fun kind => ?_⟩
  have hvalues : valuesOf sectionParts kind.part j = [.array (rows kind)] := by
    have hparts : sectionParts.Nodup := by decide
    cases kind <;>
      exact valuesOf_of_holds hholds hparts (by simp [sectionMembers, RowKind.part]) (by decide)
  rw [hvalues]
  exact .present (forall₂_imp_of_mem (hrows kind) fun row data hdata hrow =>
    shows_of_written (nodup_columns kind) (content_of_mem_dataOf hdata) (hwritable kind data hdata)
      hrow)

/-! ## A written report -/

/-- An object with its members from the last to the first, behind one of no interest. -/
def backwards (members : List (String × Json)) : Json :=
  .ofMembers (members ++ [("note", Json.null)]).reverse

theorem holds_backwards (h : "note" ∉ names) : (backwards members).Holds names members :=
  ⟨[("note", .null)], _, by simpa using h, List.reverse_perm _, rfl⟩

/-- An active volume with tags. -/
def rootVolume : LogicalVolume where
  name := ⟨"root", by decide⟩
  group := ⟨"depot", by decide⟩
  uuid := "u1"
  attr := "-wi-a-----"
  size := Number.wordBound - 1
  path := "/dev/depot/root"
  active := true
  tags := ["gold", "fast"]

/-- A device in no group. -/
def spareDevice : PhysicalVolume where
  name := ⟨"/dev/nbd0", by decide⟩
  group := none
  uuid := "p1"
  attr := "---"
  format := "lvm2"
  size := 1073741824
  free := 0
  tags := []

/-- The rows of a section with the volume and the device. -/
def writtenRows : RowKind → List Json
  | .group => []
  | .volume => [backwards (rowMembers logicalVolumeColumns rootVolume.data)]
  | .device => [backwards (rowMembers physicalVolumeColumns spareDevice.data)]

/-- A report with that section. -/
def writtenReport : Json :=
  backwards [("report", .array [backwards (sectionMembers writtenRows)])]

/-- The text of that report. -/
def writtenText : String :=
  "\x7b\x22note\x22:null, \x22report\x22:[\x7b\x22note\x22:null,
    \x22pv\x22:[\x7b\x22note\x22:null, \x22pv_tags\x22:\x22\x22, \x22pv_free\x22:\x220\x22,
      \x22pv_size\x22:\x221073741824\x22, \x22pv_fmt\x22:\x22lvm2\x22, \x22pv_attr\x22:\x22---\x22,
      \x22pv_uuid\x22:\x22p1\x22, \x22vg_name\x22:\x22\x22, \x22pv_name\x22:\x22/dev/nbd0\x22\x7d],
    \x22lv\x22:[\x7b\x22note\x22:null, \x22lv_tags\x22:\x22gold,fast\x22,
      \x22lv_active\x22:\x22active\x22, \x22lv_path\x22:\x22/dev/depot/root\x22,
      \x22lv_size\x22:\x2218446744073709551615\x22, \x22lv_attr\x22:\x22-wi-a-----\x22,
      \x22lv_uuid\x22:\x22u1\x22, \x22vg_name\x22:\x22depot\x22, \x22lv_name\x22:\x22root\x22\x7d],
    \x22vg\x22:[]\x7d]\x7d"

/-- A text is read by its characters, which is quick where they are at hand. -/
theorem read_of_toList {text : String} {cs : List Char} (h : text.toList = cs) :
    Json.read text =
      let (value, after) := Json.readValue (2 * cs.length + 2) cs
      ⟨value, match after with
        | some rest => (Json.skipSpaces rest).isEmpty
        | none => false⟩ := by
  subst h
  rfl

/-! ## Answers -/

/-- **Reports are read as they are written.** If an output reads as a document, and the document is
a report as it is written for some sections, then each question is answered with what was written of
its kind, in order. -/
theorem answers_of_written {output : String} {document : Json} {ss : List Section}
    (hread : Json.read output = ⟨document, true⟩) (hwritable : ∀ s ∈ ss, SectionWritable s)
    (h : ReportWritten document ss) :
    volumeGroups output = .ok (ss.flatMap Section.groups) ∧
      logicalVolumes output = .ok (ss.flatMap Section.volumes) ∧
      physicalVolumes output = .ok (ss.flatMap Section.devices) := by
  have hsections : sections output = .ok ss := by
    obtain ⟨items, hitems, hholds⟩ := h
    rw [sections_eq_ok_iff, hread, sectionsOf_eq_ok_iff]
    refine ⟨⟨isRecord_of_holds hholds, items, ?_, ?_⟩, rfl⟩
    · exact valuesOf_of_holds hholds (List.nodup_singleton _) List.mem_cons_self
        List.mem_cons_self
    · exact forall₂_imp_of_mem hitems fun i s hs => readSection_of_written (hwritable s hs)
  simp [volumeGroups, logicalVolumes, physicalVolumes, hsections, Except.map]

set_option maxRecDepth 20000 in
/-- The report is written backwards, with members of no interest, and read all the same. -/
theorem answers_of_written_backwards :
    Json.read writtenText = ⟨writtenReport, true⟩ ∧
      (∀ s ∈ [(⟨[], [rootVolume], [spareDevice]⟩ : Section)], SectionWritable s) ∧
      ReportWritten writtenReport [⟨[], [rootVolume], [spareDevice]⟩] ∧
      volumeGroups writtenText = .ok [] ∧ logicalVolumes writtenText = .ok [rootVolume] ∧
      physicalVolumes writtenText = .ok [spareDevice] := by
  have hread : Json.read writtenText = ⟨writtenReport, true⟩ :=
    (read_of_toList String.toList_ofList).trans (by with_unfolding_all rfl)
  have hwritable : ∀ s ∈ [(⟨[], [rootVolume], [spareDevice]⟩ : Section)], SectionWritable s := by
    intro s hs kind
    rw [List.mem_singleton.mp hs]
    cases kind <;> decide
  have hrows : ∀ kind, List.Forall₂ (RowWritten kind.columns) (writtenRows kind)
      (dataOf ⟨[], [rootVolume], [spareDevice]⟩ kind) := by
    intro kind
    cases kind with
    | group => exact .nil
    | volume => exact .cons (holds_backwards (by decide)) .nil
    | device => exact .cons (holds_backwards (by decide)) .nil
  have hwritten : ReportWritten writtenReport [⟨[], [rootVolume], [spareDevice]⟩] :=
    ⟨_, .cons ⟨writtenRows, hrows, holds_backwards (by decide)⟩ .nil, holds_backwards (by decide)⟩
  exact ⟨hread, hwritable, hwritten, answers_of_written hread hwritable hwritten⟩

end Report

end LvmControl
