import LvmControl.Proofs.Report.Cells
import LvmControl.Report.DeviceList

/-!
# Listings of a devices file as they are printed

An entry of a devices file is printed as a line of words, some of which are fields. A listing of
such lines, among others that have no field for how a device is identified, is read as the entries
that were printed. Neither equals signs in a field nor words that look like fields get in the way:
a word is cut at its first equals sign, and a path starts with a slash.

## Main definitions

* `DeviceIdType.Printable`, `DeviceEntry.Printable`: what can be printed so that it is read back.
* `EntryLine`, `OtherLine`, `ListingLine`: the lines of a listing, with what must hold of them.
* `Report.listing`: the text of a listing.

## Main statements

* `entryOfLine_text`: a line of a listing is read as the entry that it prints, if it prints one.
* `devices_listing`: a listing is read as the entries that it prints, in order.
-/

namespace LvmControl

open Text (AllBlank NoBlank)

/-! ## What can be printed -/

/-- A way to identify a device that can be printed: one that this library does not know has a word
without blanks, and not the word of a known one. -/
def DeviceIdType.Printable : DeviceIdType → Prop
  | .other word => NoBlank word.toList ∧ ∀ t ∈ known, word ≠ t.word
  | _ => True

/-- An entry that can be printed: its texts have no blanks, and its partition number is small
enough. -/
structure DeviceEntry.Printable (e : DeviceEntry) : Prop where
  idType : e.idType.Printable
  idName : NoBlank e.idName.toList
  deviceName : NoBlank e.deviceName.toList
  pvid : NoBlank e.pvid.toList
  partition : ∀ n, e.partition = some n → n < Number.halfWordBound

namespace DeviceIdType

variable {t : DeviceIdType}

theorem Printable.noBlank_word (h : t.Printable) : NoBlank t.word.toList := by
  cases t with
  | other word => exact h.1
  | _ => decide

/-- A printed word is read as what it was printed for. -/
theorem Printable.ofWord_word (h : t.Printable) : ofWord t.word = t := by
  cases t with
  | other w =>
    have hnone : known.find? (fun t => t.word = w) = none :=
      List.find?_eq_none.mpr fun t ht => by simpa using (h.2 t ht).symm
    rw [ofWord, show (other w).word = w from rfl, hnone, Option.getD_none]
  | _ => exact DeviceIdType.ofWord_word (by decide)

end DeviceIdType

/-! ## Lines -/

/-- A field of a line. -/
def fieldWord (key value : String) : String := key ++ "=" ++ value

/-- The fields of the line for an entry, as keys and values. -/
def DeviceEntry.fields (e : DeviceEntry) : List (String × String) :=
  [("IDTYPE", e.idType.word), ("IDNAME", e.idName), ("DEVNAME", e.deviceName), ("PVID", e.pvid)] ++
    (e.partition.map fun n => ("PART", Number.decimal n)).toList

/-- A line for an entry: blanks, and the words for the device under some path. -/
structure EntryLine where
  lead : String
  path : String
  entry : DeviceEntry
  lead_blank : AllBlank lead.toList
  lead_line : '\n' ∉ lead.toList
  path_root : path.toList.head? = some '/'
  path_noBlank : NoBlank path.toList
  printable : entry.Printable

/-- The words of a line for an entry. -/
def EntryLine.words (l : EntryLine) : List String :=
  "Device" :: l.path :: l.entry.fields.map fun (key, value) => fieldWord key value

/-- A line without a field for how a device is identified. -/
structure OtherLine where
  text : String
  isLine : '\n' ∉ text.toList
  no_idType : ∀ w ∈ Text.words text.toList, ¬ "IDTYPE=".toList <+: w

/-- A line of a listing. -/
inductive ListingLine
  | entry (line : EntryLine)
  | other (line : OtherLine)

namespace ListingLine

/-- The text of a line. -/
def text : ListingLine → String
  | .entry l => l.lead ++ Text.join " " l.words
  | .other l => l.text

/-- The entry that a line prints. -/
def entry? : ListingLine → Option DeviceEntry
  | .entry l => some l.entry
  | .other _ => none

end ListingLine

/-- The text of a listing: its lines with a line feed between them. That the last line, too, is
ended by a line feed is the case in which an empty line follows it. -/
def Report.listing (lines : List ListingLine) : String :=
  Text.join "\n" (lines.map ListingLine.text)

/-! ## Words and fields -/

theorem noBlank_fieldWord {key value : String} (hkey : NoBlank key.toList)
    (hvalue : NoBlank value.toList) : NoBlank (fieldWord key value).toList := by
  have heq : NoBlank "=".toList := by decide
  simpa [fieldWord] using (hkey.append heq).append hvalue

theorem fieldWord_ne_empty (key value : String) : fieldWord key value ≠ "" := by
  simp [fieldWord]

/-- A field is cut into its key and its value, whatever is in the value. -/
theorem cut_fieldWord {key value : String} (hkey : '=' ∉ key.toList) :
    Text.cut '=' (fieldWord key value).toList = some (key.toList, value.toList) := by
  have hsplit : (fieldWord key value).toList = key.toList ++ '=' :: value.toList := by
    simp [fieldWord]
  rw [hsplit, Text.cut_append_cons hkey]

/-- What is cut off a path is not the key of a field. -/
theorem head?_of_cut_path {path key value : List Char} (hpath : path.head? = some '/')
    (h : Text.cut '=' path = some (key, value)) : key.head? = some '/' := by
  rw [Text.eq_append_of_cut h] at hpath
  cases key with
  | nil => exact absurd (Option.some.inj hpath) (by decide)
  | cons c key => exact hpath

/-- To look for a key among the characters of fields is to look it up among the fields. -/
theorem find?_toList (fs : List (String × String)) (key : String) :
    ((fs.map fun f => (f.1.toList, f.2.toList)).find? fun f => f.1 = key.toList).map Prod.snd =
      (fs.lookup key).map String.toList := by
  induction fs with
  | nil => rfl
  | cons f fs ih =>
    obtain ⟨k, v⟩ := f
    by_cases hk : k = key
    · subst hk
      simp
    · have hne : k.toList ≠ key.toList := fun h => hk (String.toList_inj.mp h)
      rw [List.map_cons, List.find?_cons_of_neg (by simpa using hne), ih, List.lookup_cons,
        beq_false_of_ne (Ne.symm hk)]

namespace DeviceEntry

variable {e : DeviceEntry}

theorem mem_fields_iff {f : String × String} :
    f ∈ e.fields ↔ f = ("IDTYPE", e.idType.word) ∨ f = ("IDNAME", e.idName) ∨
      f = ("DEVNAME", e.deviceName) ∨ f = ("PVID", e.pvid) ∨
      ∃ n, e.partition = some n ∧ f = ("PART", Number.decimal n) := by
  simp [fields, eq_comm]

/-- The keys of fields are words that are not cut and do not start like a path. -/
theorem key_of_mem_fields {f : String × String} (h : f ∈ e.fields) :
    NoBlank f.1.toList ∧ '=' ∉ f.1.toList := by
  have hkey : f.1 ∈ ["IDTYPE", "IDNAME", "DEVNAME", "PVID", "PART"] := by
    obtain rfl | rfl | rfl | rfl | ⟨n, -, rfl⟩ := mem_fields_iff.mp h <;> simp
  have hkeys : ∀ k ∈ ["IDTYPE", "IDNAME", "DEVNAME", "PVID", "PART"],
      NoBlank k.toList ∧ '=' ∉ k.toList := by decide
  exact hkeys f.1 hkey

theorem Printable.noBlank_of_mem_fields (he : e.Printable) {f : String × String}
    (h : f ∈ e.fields) : NoBlank f.2.toList := by
  obtain rfl | rfl | rfl | rfl | ⟨n, -, rfl⟩ := mem_fields_iff.mp h
  · exact he.idType.noBlank_word
  · exact he.idName
  · exact he.deviceName
  · exact he.pvid
  · simpa [Number.decimal] using (Number.isDecimal_decimalDigits n).noBlank

theorem lookup_fields (e : DeviceEntry) :
    e.fields.lookup "IDTYPE" = some e.idType.word ∧ e.fields.lookup "IDNAME" = some e.idName ∧
      e.fields.lookup "DEVNAME" = some e.deviceName ∧ e.fields.lookup "PVID" = some e.pvid ∧
      e.fields.lookup "PART" = e.partition.map Number.decimal := by
  refine ⟨rfl, rfl, rfl, rfl, ?_⟩
  cases h : e.partition <;> simp [fields, h, List.lookup_cons]

end DeviceEntry

namespace EntryLine

variable (l : EntryLine)

theorem word_of_mem_words {w : String} (h : w ∈ l.words) : w ≠ "" ∧ NoBlank w.toList := by
  rcases List.mem_cons.mp h with rfl | h
  · exact ⟨by decide, by decide⟩
  rcases List.mem_cons.mp h with rfl | h
  · refine ⟨fun hempty => ?_, l.path_noBlank⟩
    have hroot := l.path_root
    rw [hempty] at hroot
    cases hroot
  · obtain ⟨f, hf, rfl⟩ := List.mem_map.mp h
    exact ⟨fieldWord_ne_empty f.1 f.2, noBlank_fieldWord (DeviceEntry.key_of_mem_fields hf).1
      (l.printable.noBlank_of_mem_fields hf)⟩

theorem words_text : Text.words (ListingLine.entry l).text.toList = l.words.map String.toList := by
  rw [ListingLine.text, String.toList_append, Text.words_append_of_blank l.lead_blank,
    Text.words_join fun _ => l.word_of_mem_words]

theorem newline_not_mem_text : '\n' ∉ (ListingLine.entry l).text.toList := by
  intro h
  rw [ListingLine.text, String.toList_append] at h
  rcases List.mem_append.mp h with h | h
  · exact l.lead_line h
  rcases Text.mem_toList_join h with h | ⟨w, hw, h⟩
  · exact absurd h (by decide)
  · exact absurd ((l.word_of_mem_words hw).2 '\n' h) (by decide)

/-- The fields of the line are those of the entry, perhaps after one that starts like a path. -/
theorem fieldsOfLine_text :
    Report.fieldsOfLine (ListingLine.entry l).text.toList =
      (Text.cut '=' l.path.toList).toList ++
        l.entry.fields.map fun f => (f.1.toList, f.2.toList) := by
  have hdevice : Text.cut '=' "Device".toList = none := Text.cut_eq_none (by decide)
  have hfields : (l.entry.fields.map fun f => (fieldWord f.1 f.2).toList).filterMap (Text.cut '=') =
      l.entry.fields.map fun f => (f.1.toList, f.2.toList) := by
    rw [List.filterMap_map, ← List.filterMap_eq_map]
    exact List.filterMap_congr fun f hf => cut_fieldWord (DeviceEntry.key_of_mem_fields hf).2
  rw [Report.fieldsOfLine, l.words_text, words, List.map_cons, List.map_cons, List.map_map,
    List.filterMap_cons_none hdevice]
  cases hpath : Text.cut '=' l.path.toList with
  | none =>
    rw [List.filterMap_cons_none hpath]
    exact hfields
  | some f =>
    rw [List.filterMap_cons_some hpath]
    exact congrArg (f :: ·) hfields

/-- A field of the line is that of the entry. -/
theorem field?_text {key : String} (hkey : key.toList.head? ≠ some '/') :
    Report.field? (Report.fieldsOfLine (ListingLine.entry l).text.toList) key =
      (l.entry.fields.lookup key).map String.toList := by
  have hpath : (Text.cut '=' l.path.toList).toList.find? (fun f => f.1 = key.toList) = none := by
    refine List.find?_eq_none.mpr fun f hf hsame => hkey ?_
    rw [← of_decide_eq_true hsame]
    exact head?_of_cut_path l.path_root (Option.mem_toList.mp hf)
  rw [Report.field?, l.fieldsOfLine_text, List.find?_append, hpath, Option.none_or,
    find?_toList]

theorem partition?_text :
    Report.partition? (Report.fieldsOfLine (ListingLine.entry l).text.toList) =
      .ok l.entry.partition := by
  rw [Report.partition?, l.field?_text (by decide), l.entry.lookup_fields.2.2.2.2]
  cases hpartition : l.entry.partition with
  | none => rfl
  | some n =>
    have hread : Number.readBelow? Number.halfWordBound (Number.decimal n).toList = some n := by
      rw [Number.decimal, String.toList_ofList]
      exact Number.readBelow?_eq_some_iff.mpr
        ⟨Number.isDecimal_decimalDigits n, l.printable.partition n hpartition⟩
    simp [hread]

theorem fieldText_text {key value : String} (hkey : key.toList.head? ≠ some '/')
    (h : l.entry.fields.lookup key = some value) :
    Report.fieldText (Report.fieldsOfLine (ListingLine.entry l).text.toList) key = value := by
  simp [Report.fieldText, l.field?_text hkey, h]

/-- A line that prints an entry is read as that entry. -/
theorem entryOfLine_text :
    Report.entryOfLine (ListingLine.entry l).text.toList = .ok (some l.entry) := by
  obtain ⟨hidType, hidName, hdeviceName, hpvid, -⟩ := l.entry.lookup_fields
  have hfield : Report.field? (Report.fieldsOfLine (ListingLine.entry l).text.toList) "IDTYPE" =
      some l.entry.idType.word.toList := by
    rw [l.field?_text (by decide), hidType, Option.map_some]
  simp only [Report.entryOfLine, hfield, l.partition?_text, Except.map, String.ofList_toList,
    l.printable.idType.ofWord_word, l.fieldText_text (by decide) hidName,
    l.fieldText_text (by decide) hdeviceName, l.fieldText_text (by decide) hpvid]

end EntryLine

/-- A line without a field for how a device is identified is passed over. -/
theorem OtherLine.entryOfLine_text (l : OtherLine) :
    Report.entryOfLine l.text.toList = .ok none := by
  have hnone : Report.field? (Report.fieldsOfLine l.text.toList) "IDTYPE" = none := by
    refine Option.map_eq_none_iff.mpr (List.find?_eq_none.mpr fun f hf hkey => ?_)
    obtain ⟨w, hw, hcut⟩ := List.mem_filterMap.mp hf
    refine l.no_idType w hw ⟨f.2, ?_⟩
    rw [Text.eq_append_of_cut hcut, of_decide_eq_true hkey]
    rfl
  simp [Report.entryOfLine, hnone]

namespace ListingLine

variable (l : ListingLine)

/-- A line of a listing is read as the entry that it prints, if it prints one. -/
theorem entryOfLine_text : Report.entryOfLine l.text.toList = .ok l.entry? := by
  cases l with
  | entry l => exact l.entryOfLine_text
  | other l => exact l.entryOfLine_text

theorem newline_not_mem_text : '\n' ∉ l.text.toList := by
  cases l with
  | entry l => exact l.newline_not_mem_text
  | other l => exact l.isLine

end ListingLine

/-! ## Listings -/

namespace Report

theorem entryOfLine_dropReturn (line : List Char) :
    entryOfLine (Text.dropReturn line) = entryOfLine line := by
  rw [entryOfLine, fieldsOfLine, Text.words_dropReturn]
  rfl

/-- Neither what ends a line nor whether the last one is ended changes what is read. -/
theorem entries_linesOfPieces {pieces : List (List Char)} {entries : List (Option DeviceEntry)}
    (h : List.Forall₂ (fun p e => entryOfLine p = .ok e) pieces entries) :
    ((Text.linesOfPieces pieces).mapM entryOfLine).map (·.filterMap id) =
      .ok (entries.filterMap id) := by
  induction h with
  | nil => rfl
  | @cons p e rest es hp hrest ih =>
    cases hrest with
    | nil =>
      cases p with
      | nil =>
        cases hp
        rfl
      | cons c p =>
        exact map_eq_ok_iff.mpr ⟨[e], mapM_eq_ok_iff.mpr (.cons hp .nil), rfl⟩
    | cons hq hrest =>
      obtain ⟨es', hes', hsame⟩ := map_eq_ok_iff.mp ih
      refine map_eq_ok_iff.mpr
        ⟨[e] ++ es', mapM_eq_ok_iff.mpr (.cons ?_ (mapM_eq_ok_iff.mp hes')), ?_⟩
      · rwa [entryOfLine_dropReturn]
      · rw [List.filterMap_append, hsame, ← List.filterMap_append]
        rfl

/-- **Listings are read as they are printed.** -/
theorem devices_listing (lines : List ListingLine) :
    devices (listing lines) = .ok (lines.filterMap ListingLine.entry?) := by
  cases hlines : lines with
  | nil => rfl
  | cons l ls =>
    rw [← hlines]
    have hpieces : Text.pieces '\n' (listing lines).toList =
        (lines.map ListingLine.text).map String.toList :=
      Text.pieces_join (by simp [hlines])
        (List.forall_mem_map.mpr fun l _ => l.newline_not_mem_text)
    have hread : List.Forall₂ (fun p e => entryOfLine p = .ok e)
        ((lines.map ListingLine.text).map String.toList) (lines.map ListingLine.entry?) := by
      simp only [List.forall₂_map_left_iff, List.forall₂_map_right_iff, List.forall₂_same]
      exact fun l _ => l.entryOfLine_text
    rw [devices, Text.lines, hpieces, entries_linesOfPieces hread, List.filterMap_map]
    rfl

/-- A heading. -/
def heading : OtherLine where
  text := "Entries:"
  isLine := by decide
  no_idType := by decide

/-- A line for an entry with an equals sign in one field and nothing in another. -/
def partitionLine : EntryLine where
  lead := "  "
  path := "/dev/p"
  entry := ⟨.loopFile, "a=b", "/dev/p", "", some 3⟩
  lead_blank := by decide
  lead_line := by decide
  path_root := by decide
  path_noBlank := by decide
  printable := by
    refine ⟨trivial, by decide, by decide, by decide, ?_⟩
    rintro n ⟨⟩
    decide

/-- The entry under the heading is read as it was printed. -/
theorem partitionLine_read :
    listing [.other heading, .entry partitionLine] =
        "Entries:\n  Device /dev/p IDTYPE=loop_file IDNAME=a=b DEVNAME=/dev/p PVID= PART=3" ∧
      devices (listing [.other heading, .entry partitionLine]) = .ok [partitionLine.entry] :=
  ⟨by decide +kernel, devices_listing [.other heading, .entry partitionLine]⟩

end Report

end LvmControl
