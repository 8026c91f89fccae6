import LvmControl.Proofs.Request.SharedKeys

/-!
# Flags on a command line

Texts that a caller chooses stand on a command line that runs with the rights of the system: names,
tags, criteria, lists of devices. This module says that none of them becomes a flag. Every part of a
command line has a flag of its own or writes names, which never start with a dash, and whatever a
caller chooses for a flag stands behind the equals sign of that flag.

## Main definitions

* `IsLongFlag`: a token starts with two dashes.
* `Field.flag?`, `Piece.flag?`, `Command.flags`: the flag of a field, of a part of a command line,
  and all flags of a command.
* `Piece.names`: the names that a part writes.
* `Request.addressed`: every name that a request holds, as it can stand on a command line.
* `Line.NoInjection`: what stands on a command line, and how often.

## Main statements

* `Piece.edits_of_flag`: a part with a flag writes nothing or one block of tokens with this flag.
* `Piece.edits_of_no_flag`: a part without a flag writes its names, one after another.
* `Command.tokensOf_render`: under a flag stands what its part writes.
* `Line.noInjection`: every token is a flag of the command or a name, and only tags are repeated.

## Design notes

**One part for one flag.** No two parts of a command line have the same flag
(`Command.nodup_flags`), so a part never takes out what another one has written under a flag. All
that is said of one flag follows from its part alone.
-/

namespace LvmControl

variable {t key : String}

/-! ## Tokens and their keys -/

/-- The token starts with two dashes. -/
def IsLongFlag (token : String) : Prop := ['-', '-'] <+: token.toList

instance (token : String) : Decidable (IsLongFlag token) :=
  inferInstanceAs (Decidable (['-', '-'] <+: token.toList))

theorem IsLongFlag.isFlag (h : IsLongFlag t) : IsFlag t := by
  obtain ⟨rest, hrest⟩ := h
  rw [IsFlag, ← hrest]
  rfl

/-- A token is a flag if its key is one. -/
theorem isFlag_of_flagKey (h : IsFlag (flagKey t)) : IsFlag t := by
  by_cases hflag : IsFlag t
  · exact hflag
  · rwa [flagKey_of_not_isFlag hflag] at h

/-- A token starts with its key. -/
theorem flagKey_isPrefix_self (t : String) : (flagKey t).toList <+: t.toList := by
  unfold flagKey
  split
  · rw [String.toList_ofList]
    exact List.takeWhile_prefix _
  · exact List.prefix_rfl

theorem IsLongFlag.of_flagKey (h : IsLongFlag (flagKey t)) : IsLongFlag t :=
  List.IsPrefix.trans h (flagKey_isPrefix_self t)

/-- The key of a flag without a value is the whole of it. -/
theorem IsFlagName.flagKey (h : IsFlagName t) : flagKey t = t := by
  have htake : (t.toList ++ []).takeWhile (· ≠ '=') = t.toList ++ [] :=
    List.takeWhile_append_of_pos h.forall_ne
  rw [List.append_nil] at htake
  have hhead : t.toList.head? = some '-' := h.1
  rw [LvmControl.flagKey, if_pos hhead, htake, String.ofList_toList]

/-! ## What the parts of a command line write -/

/-- The flag that a field is written under. Names of groups and devices are written without one, and
the new names of a rename are not written by themselves. -/
def Field.flag? : Field → Option String
  | .volumeGroup => none
  | .newVolumeGroup => none
  | .logicalVolume => some "--name"
  | .newLogicalVolume => none
  | .physicalVolumes => none
  | .size => some "--size"
  | .extents => some "--extents"
  | .extentSize => some "--physicalextentsize"
  | .deviceSize => some "--setphysicalvolumesize"
  | .tags => some "--addtag"
  | .delTags => some "--deltag"
  | .activate => some "--activate"
  | .force => some "--force"
  | .removeMissing => some "--removemissing"
  | .resizeFs => some "--resizefs"
  | .zero => some "--zero"
  | .allocatable => some "--allocatable"
  | .select => some "--select"
  | .addDevice => some "--adddev"
  | .delDevice => some "--deldev"
  | .addPvid => some "--addpvid"
  | .delPvid => some "--delpvid"
  | .devices => some "--devices"
  | .devicesFile => some "--devicesfile"
  | .profile => some "--profile"
  | .verbose => some "--verbose"
  | .requestConfirm => some "--yes"

/-- The flag of a field starts with a dash. -/
theorem Field.isFlag_of_flag {f : Field} (h : f.flag? = some key) : IsFlag key := by
  cases f <;> cases h <;> decide

namespace Edit

/-- The changes put no token, or one with the key. -/
def AtMostOne (key : String) (es : List Edit) : Prop :=
  es = [] ∨ ∃ t, es = [.put t] ∧ flagKey t = key

/-- The changes do nothing, or write one block of tokens with the key. -/
def Block (key : String) (es : List Edit) : Prop :=
  es = [] ∨ ∃ ts, es = [.replace key ts] ∧ ∀ t ∈ ts, flagKey t = key

variable {es : List Edit}

theorem AtMostOne.block (h : AtMostOne key es) : Block key es := by
  rcases h with rfl | ⟨t, rfl, rfl⟩
  · exact .inl rfl
  · exact .inr ⟨[t], rfl, fun _ ht => by rw [List.mem_singleton.mp ht]⟩

theorem AtMostOne.length_tokens_le (h : AtMostOne key es) : (es.flatMap tokens).length ≤ 1 := by
  rcases h with rfl | ⟨t, rfl, -⟩
  · exact Nat.zero_le 1
  · exact Nat.le_refl 1

theorem atMostOne_given {α : Type} (h : IsFlagName key) (v : Option α) (word : α → String) :
    AtMostOne key (Edit.given v fun x => .flag key (word x)) := by
  cases v with
  | none => exact .inl rfl
  | some x => exact .inr ⟨_, rfl, flagKey_flag h (word x)⟩

theorem atMostOne_switch (h : IsFlagName key) (on : Bool) :
    AtMostOne key (Edit.switch on key) := by
  cases on with
  | false => exact .inl rfl
  | true => exact .inr ⟨key, rfl, h.flagKey⟩

/-- A value that is there is written as one token, and one that is not is not written. -/
theorem tokens_given {α : Type} (v : Option α) (flag : String) (word : α → String) :
    (Edit.given v fun x => .flag flag (word x)).flatMap tokens =
      (v.toList.map word).map fun value => flag ++ "=" ++ value := by
  cases v <;> rfl

/-- A block of tokens with one key writes nothing under another. -/
theorem Block.ignores {k : String} (h : Block k es) (hne : k ≠ key) : ∀ e ∈ es, e.Ignores key := by
  rcases h with rfl | ⟨ts, rfl, hts⟩
  · exact fun _ he => absurd he List.not_mem_nil
  · intro e he
    obtain rfl := List.mem_singleton.mp he
    exact ⟨hne, fun t ht => by rwa [hts t ht]⟩

/-- Where nothing stands under a key, there stands a block with this key once it is written. -/
theorem Block.tokensOf_applyAll (h : Block key es) {args : Arguments}
    (hnone : args.tokensOf key = []) : (args.applyAll es).tokensOf key = es.flatMap tokens := by
  rcases h with rfl | ⟨ts, rfl, hts⟩
  · exact hnone
  · have hall : ts.filter (fun t => flagKey t = key) = ts :=
      List.filter_eq_self.mpr fun t ht => decide_eq_true (hts t ht)
    simp [Arguments.tokensOf, Arguments.apply, Arguments.remove, Arguments.extend, tokens, hall,
      List.filter_filter]

end Edit

namespace Request

variable {r : Request} {f : Field}

/-- A field with a flag that is not one for tags is written by one token at most. -/
theorem atMostOne_fieldEdits (h : f.flag? = some key) (htags : f ≠ .tags) (hdel : f ≠ .delTags) :
    Edit.AtMostOne key (r.fieldEdits f) := by
  cases f with
  | volumeGroup | newVolumeGroup | newLogicalVolume | physicalVolumes => cases h
  | tags => exact absurd rfl htags
  | delTags => exact absurd rfl hdel
  | force | removeMissing | resizeFs | verbose | requestConfirm =>
    obtain rfl := Option.some.inj h
    exact Edit.atMostOne_switch (by decide) _
  | _ =>
    obtain rfl := Option.some.inj h
    exact Edit.atMostOne_given (by decide) _ _

/-- A field with a flag is written by tokens with this flag. -/
theorem block_fieldEdits (h : f.flag? = some key) : Edit.Block key (r.fieldEdits f) := by
  by_cases htags : f = .tags ∨ f = .delTags
  · rcases htags with rfl | rfl <;> obtain rfl := Option.some.inj h
    all_goals
      refine .inr ⟨_, rfl, fun t ht => ?_⟩
      obtain ⟨tag, -, rfl⟩ := List.mem_map.mp ht
    · exact flagKey_flag (t := "--addtag") (by decide) tag
    · exact flagKey_flag (t := "--deltag") (by decide) tag
  · obtain ⟨hadd, hdel⟩ := not_or.mp htags
    exact (atMostOne_fieldEdits h hadd hdel).block

/-- The name `group/volume` of a logical volume, if both are there. -/
def qualified? (r : Request) : Option String :=
  r.volumeGroup.bind fun group => r.logicalVolume.map fun volume => volume.qualified group

/-- Every name that a request holds, as it can stand on a command line: of the group, of its new
name, of the logical volume alone and in its group, of its new name, and of the devices. -/
def addressed (r : Request) : List String :=
  r.names .volumeGroup ++ r.names .newVolumeGroup ++ r.names .logicalVolume ++
    r.names .newLogicalVolume ++ r.qualified?.toList ++ r.names .physicalVolumes

/-- No name starts with a dash. -/
theorem not_isFlag_of_mem_names (h : t ∈ r.names f) : ¬ IsFlag t := by
  cases f with
  | volumeGroup | newVolumeGroup =>
    obtain ⟨name, -, rfl⟩ := List.mem_map.mp h
    exact name.not_isFlag
  | logicalVolume | newLogicalVolume =>
    obtain ⟨name, -, rfl⟩ := List.mem_map.mp h
    exact name.not_isFlag
  | physicalVolumes =>
    obtain ⟨name, -, rfl⟩ := List.mem_map.mp h
    exact name.not_isFlag
  | _ => exact absurd h List.not_mem_nil

theorem names_subset_addressed : r.names f ⊆ r.addressed := by
  intro t ht
  cases f <;> simp_all [addressed, names]

/-- What a logical volume command addresses is a name, without a dash in front. -/
theorem target?_cases (h : r.target? = some t) : t ∈ r.addressed ∧ ¬ IsFlag t := by
  obtain ⟨group, hgroup, rfl⟩ := Option.map_eq_some_iff.mp h
  cases hvolume : r.logicalVolume with
  | none => exact ⟨by simp [addressed, names, hgroup], group.not_isFlag⟩
  | some volume =>
    refine ⟨?_, volume.qualified_not_isFlag group⟩
    simp [addressed, qualified?, hgroup, hvolume]

end Request

namespace Piece

variable {r : Request} {p : Piece}

/-- The flag that a part of a command line is written under. -/
def flag? : Piece → Option String
  | .field f => f.flag?
  | .flag token => some (flagKey token)
  | .target => none
  | .positional _ => none

/-- Whether a part puts its names at the end whatever is there. -/
def appends : Piece → Bool
  | .positional _ => true
  | _ => false

/-- The names that a part of a command line writes. -/
def names (r : Request) : Piece → List String
  | .field .volumeGroup => r.names .volumeGroup
  | .field .physicalVolumes => r.names .physicalVolumes
  | .field _ => []
  | .flag _ => []
  | .target => r.target?.toList
  | .positional f => r.names f

/-- The tokens that a part of a command line writes. -/
def tokens (r : Request) (p : Piece) : List String := (p.edits r).flatMap Edit.tokens

/-- A part with a flag writes nothing, or tokens with this flag. -/
theorem edits_of_flag (h : p.flag? = some key) : Edit.Block key (p.edits r) := by
  cases p with
  | field f => exact Request.block_fieldEdits h
  | flag token =>
    obtain rfl := Option.some.inj h
    exact .inr ⟨[token], rfl, fun t ht => by rw [List.mem_singleton.mp ht]⟩
  | target | positional f => cases h

/-- A part without a flag puts its names one after another, unless it is there to append them. -/
theorem edits_of_put (h : p.flag? = none) (hput : p.appends = false) :
    p.edits r = (p.names r).map .put := by
  cases p with
  | field f =>
    cases f with
    | volumeGroup | physicalVolumes =>
      rw [names, Request.names, List.map_map]
      rfl
    | newVolumeGroup | newLogicalVolume => rfl
    | _ => cases h
  | flag token => cases h
  | target => rfl
  | positional f => cases hput

/-- A part without a flag writes its names, one after another. -/
theorem edits_of_no_flag (h : p.flag? = none) :
    p.edits r = (p.names r).map .put ∨ p.edits r = (p.names r).map .append := by
  cases p with
  | positional f => exact .inr rfl
  | _ => exact .inl (edits_of_put h rfl)

/-- A change of a part without a flag puts or appends one of its names. -/
theorem exists_name_of_mem_edits (h : p.flag? = none) {e : Edit} (he : e ∈ p.edits r) :
    ∃ t ∈ p.names r, e = .put t ∨ e = .append t := by
  rcases edits_of_no_flag (r := r) h with hedits | hedits
  · rw [hedits] at he
    obtain ⟨t, ht, rfl⟩ := List.mem_map.mp he
    exact ⟨t, ht, .inl rfl⟩
  · rw [hedits] at he
    obtain ⟨t, ht, rfl⟩ := List.mem_map.mp he
    exact ⟨t, ht, .inr rfl⟩

/-- The names that a part writes are names of the request, and do not start with a dash. -/
theorem mem_names_cases (h : t ∈ p.names r) : t ∈ r.addressed ∧ ¬ IsFlag t := by
  have hname : ∀ f, t ∈ r.names f → t ∈ r.addressed ∧ ¬ IsFlag t := fun f hf =>
    ⟨Request.names_subset_addressed hf, Request.not_isFlag_of_mem_names hf⟩
  cases p with
  | field f =>
    cases f with
    | volumeGroup => exact hname .volumeGroup h
    | physicalVolumes => exact hname .physicalVolumes h
    | _ => exact absurd h List.not_mem_nil
  | flag token => exact absurd h List.not_mem_nil
  | target => exact Request.target?_cases (Option.mem_toList.mp h)
  | positional f => exact hname f h

/-- A part writes nothing under a flag that is not its own. -/
theorem ignores (hkey : IsFlag key) (h : p.flag? ≠ some key) : ∀ e ∈ p.edits r, e.Ignores key := by
  cases hflag : p.flag? with
  | some k =>
    refine (edits_of_flag hflag).ignores ?_
    rintro rfl
    exact h hflag
  | none =>
    have hne : ∀ t ∈ p.names r, flagKey t ≠ key := by
      rintro t ht rfl
      exact (mem_names_cases ht).2 (isFlag_of_flagKey hkey)
    intro e he
    obtain ⟨t, ht, rfl | rfl⟩ := exists_name_of_mem_edits hflag he
    · exact Edit.ignores_put (hne t ht)
    · exact hne t ht

/-- Parts with other flags write nothing under a flag. -/
theorem ignores_of_forall {ps : List Piece} (hkey : IsFlag key)
    (h : ∀ p ∈ ps, p.flag? ≠ some key) : ∀ e ∈ ps.flatMap (edits r), e.Ignores key := by
  intro e he
  obtain ⟨p, hp, he⟩ := List.mem_flatMap.mp he
  exact ignores hkey (h p hp) e he

/-- A part with a flag that is not one for tags is written by one token at most. -/
theorem atMostOne_edits (h : p.flag? = some key) (htags : p ≠ .field .tags)
    (hdel : p ≠ .field .delTags) : Edit.AtMostOne key (p.edits r) := by
  cases p with
  | field f =>
    refine Request.atMostOne_fieldEdits h ?_ ?_
    · rintro rfl
      exact htags rfl
    · rintro rfl
      exact hdel rfl
  | flag token => exact .inr ⟨token, rfl, Option.some.inj h⟩
  | target | positional f => cases h

/-- Every token that a part writes has its flag, or is one of its names. -/
theorem mem_tokens_cases {e : Edit} (he : e ∈ p.edits r) (ht : t ∈ e.tokens) :
    p.flag? = some (flagKey t) ∨ t ∈ p.names r := by
  cases hflag : p.flag? with
  | some k =>
    rcases edits_of_flag (r := r) hflag with hedits | ⟨ts, hedits, hts⟩
    · rw [hedits] at he
      exact absurd he List.not_mem_nil
    · rw [hedits] at he
      obtain rfl := List.mem_singleton.mp he
      exact .inl (by rw [hts t ht])
  | none =>
    obtain ⟨name, hname, rfl | rfl⟩ := exists_name_of_mem_edits hflag he
    · rw [List.mem_singleton.mp ht]
      exact .inr hname
    · rw [List.mem_singleton.mp ht]
      exact .inr hname

end Piece

/-! ## Whole command lines -/

/-- The flags of a report, whatever its columns. -/
theorem flags_reportPieces (columns : List Report.Column) :
    (reportPieces columns).filterMap Piece.flag? =
      ["--reportformat", "--units", "--nosuffix", "--options"] := by
  have hformat : flagKey "--reportformat=json" = "--reportformat" := by decide
  have hunits : flagKey "--units=b" = "--units" := by decide
  have hsuffix : flagKey "--nosuffix" = "--nosuffix" := by decide
  have hoptions : flagKey ("--options=" ++ Text.join "," (columns.map Report.Column.name)) =
      "--options" :=
    flagKey_flag (t := "--options") (by decide) _
  show [flagKey _, flagKey _, flagKey _, flagKey _] = _
  rw [hformat, hunits, hsuffix, hoptions]

namespace Command

variable {c : Command} {r : Request} {p : Piece}

/-- The flags that a command writes, in the order of its layout. -/
def flags (c : Command) : List String := c.layout.filterMap Piece.flag?

/-- The flags of a command line are different, start with two dashes, and are flags for tags only if
the command takes the tags. -/
theorem flags_cases (c : Command) :
    c.flags.Nodup ∧ (∀ k ∈ c.flags, IsLongFlag k) ∧
      ("--addtag" ∈ c.flags → c.takes .tags = true) ∧
        ("--deltag" ∈ c.flags → c.takes .delTags = true) := by
  cases c with
  | vgs | lvs | pvs =>
    rw [flags, layout, ownLayout, List.append_assoc, List.filterMap_append, flags_reportPieces]
    decide
  | _ => decide

example : Command.lvextend.flags = ["--size", "--extents", "--resizefs", "--devices",
    "--devicesfile", "--profile", "--verbose", "--yes"] := by decide

/-- No two parts of a command line have the same flag. -/
theorem nodup_flags (c : Command) : c.flags.Nodup := c.flags_cases.1

theorem isLongFlag_of_mem_flags (h : key ∈ c.flags) : IsLongFlag key := c.flags_cases.2.1 key h

/-- A command that takes tags has a part for them. -/
theorem mem_layout_of_takes_tags (c : Command) :
    (c.takes .tags = true → .field .tags ∈ c.layout) ∧
      (c.takes .delTags = true → .field .delTags ∈ c.layout) := by
  cases c <;> decide

theorem mem_flags_of_flag (hp : p ∈ c.layout) (hkey : p.flag? = some key) : key ∈ c.flags :=
  List.mem_filterMap.mpr ⟨p, hp, hkey⟩

/-- Nothing stands under a flag that the command does not have. -/
theorem tokensOf_render_of_not_mem (hkey : IsFlag key) (h : key ∉ c.flags) :
    (c.render r .empty).tokensOf key = [] := by
  have hignores : ∀ e ∈ c.edits r, e.Ignores key :=
    Piece.ignores_of_forall hkey fun p hp hflag => h (mem_flags_of_flag hp hflag)
  rw [render, Arguments.tokensOf_applyAll hignores]
  rfl

/-- Under a flag stands what the part with this flag writes. -/
theorem tokensOf_render (hp : p ∈ c.layout) (hkey : p.flag? = some key) :
    (c.render r .empty).tokensOf key = p.tokens r := by
  have hflag : IsFlag key := (isLongFlag_of_mem_flags (mem_flags_of_flag hp hkey)).isFlag
  obtain ⟨before, after, hlayout⟩ := List.append_of_mem hp
  have hnodup := c.nodup_flags
  rw [flags, hlayout, List.filterMap_append, List.filterMap_cons_some hkey] at hnodup
  -- No other part has the flag, so the others do not touch what stands under it.
  have hbefore : ∀ e ∈ before.flatMap (Piece.edits r), e.Ignores key := by
    refine Piece.ignores_of_forall hflag fun q hq hq' => ?_
    exact (List.nodup_append.mp hnodup).2.2 key (List.mem_filterMap.mpr ⟨q, hq, hq'⟩) key
      List.mem_cons_self rfl
  have hafter : ∀ e ∈ after.flatMap (Piece.edits r), e.Ignores key := by
    refine Piece.ignores_of_forall hflag fun q hq hq' => ?_
    exact (List.nodup_cons.mp (List.nodup_append.mp hnodup).2.1).1
      (List.mem_filterMap.mpr ⟨q, hq, hq'⟩)
  have hnone : (Arguments.empty.applyAll (before.flatMap (Piece.edits r))).tokensOf key = [] :=
    Arguments.tokensOf_applyAll hbefore
  rw [render, edits, hlayout, List.flatMap_append, List.flatMap_cons, Arguments.applyAll_append,
    Arguments.applyAll_append, Arguments.tokensOf_applyAll hafter]
  exact (Piece.edits_of_flag hkey).tokensOf_applyAll hnone

/-- Under a flag that is not for tags stands at most one token. -/
theorem length_tokensOf_render_le (hkey : IsFlag key) (htags : key ≠ "--addtag")
    (hdel : key ≠ "--deltag") : ((c.render r .empty).tokensOf key).length ≤ 1 := by
  by_cases hmem : key ∈ c.flags
  · obtain ⟨p, hp, hflag⟩ := List.mem_filterMap.mp hmem
    rw [tokensOf_render hp hflag]
    refine (Piece.atMostOne_edits hflag ?_ ?_).length_tokens_le
    · rintro rfl
      exact htags (Option.some.inj hflag).symm
    · rintro rfl
      exact hdel (Option.some.inj hflag).symm
  · rw [tokensOf_render_of_not_mem hkey hmem]
    exact Nat.zero_le 1

end Command

namespace Line

variable {l : Line}

/-- Under the flag of a field stands what the field writes, if the command has a part for the field
or else neither the flag nor anything to write. -/
theorem tokensOf_flag_of_field {f : Field} (hkey : f.flag? = some key)
    (htaken : l.command.takes f = true → .field f ∈ l.command.layout)
    (hflags : key ∈ l.command.flags → l.command.takes f = true)
    (hempty : l.command.takes f = false → (l.request.fieldEdits f).flatMap Edit.tokens = []) :
    l.args.tokensOf key = (l.request.fieldEdits f).flatMap Edit.tokens := by
  rw [← l.accepted_iff.2]
  cases htakes : l.command.takes f with
  | true => exact Command.tokensOf_render (htaken htakes) hkey
  | false =>
    have hnot : key ∉ l.command.flags := fun hmem =>
      Bool.false_ne_true (htakes.symm.trans (hflags hmem))
    rw [hempty htakes]
    exact Command.tokensOf_render_of_not_mem (Field.isFlag_of_flag hkey) hnot

/-- What stands under `--addtag` are the tags to add, in order. -/
theorem tokensOf_addtag (l : Line) :
    l.args.tokensOf "--addtag" = l.request.tags.map fun tag => "--addtag=" ++ tag := by
  refine (tokensOf_flag_of_field (f := .tags) rfl l.command.mem_layout_of_takes_tags.1
    l.command.flags_cases.2.2.1 fun htakes => ?_).trans (List.append_nil _)
  have hnone : l.request.tags = [] := get_of_not_takes htakes (by decide)
  rw [Request.fieldEdits, hnone]
  rfl

/-- What stands under `--deltag` are the tags to remove, in order. -/
theorem tokensOf_deltag (l : Line) :
    l.args.tokensOf "--deltag" = l.request.delTags.map fun tag => "--deltag=" ++ tag := by
  refine (tokensOf_flag_of_field (f := .delTags) rfl l.command.mem_layout_of_takes_tags.2
    l.command.flags_cases.2.2.2 fun htakes => ?_).trans (List.append_nil _)
  have hnone : l.request.delTags = [] := get_of_not_takes htakes (by decide)
  rw [Request.fieldEdits, hnone]
  rfl

/-- A token on a command line has a flag of the command, or is a name. -/
theorem token_cases {t : String} (ht : t ∈ l.args.tokens) :
    IsLongFlag t ∧ flagKey t ∈ l.command.flags ∨ ¬ IsFlag t ∧ t ∈ l.request.addressed := by
  obtain ⟨p, hp, e, he, ht⟩ := exists_piece ht
  rcases Piece.mem_tokens_cases he ht with hflag | hname
  · have hmem := Command.mem_flags_of_flag hp hflag
    exact .inl ⟨(Command.isLongFlag_of_mem_flags hmem).of_flagKey, hmem⟩
  · exact .inr (Piece.mem_names_cases hname).symm

/-- What stands on a command line, and how often. -/
structure NoInjection (l : Line) : Prop where
  /-- A token starts with two dashes and has a flag of the command in front of its first equals
  sign, or it does not start with a dash and is a name that the request holds. -/
  token : ∀ t ∈ l.args.tokens,
    IsLongFlag t ∧ flagKey t ∈ l.command.flags ∨ ¬ IsFlag t ∧ t ∈ l.request.addressed
  /-- No flag is repeated, except for those for tags. -/
  once : ∀ flag, IsFlag flag → flag ≠ "--addtag" → flag ≠ "--deltag" →
    (l.args.tokensOf flag).length ≤ 1
  /-- The flag to add a tag is there once for each of the tags to add, in order. -/
  added : l.args.tokensOf "--addtag" = l.request.tags.map fun tag => "--addtag=" ++ tag
  /-- The flag to remove a tag is there once for each of the tags to remove, in order. -/
  removed : l.args.tokensOf "--deltag" = l.request.delTags.map fun tag => "--deltag=" ++ tag

/-- **No injection.** Whatever texts a request holds, its command line consists of flags of the
command and of names, and only the flags for tags are there more than once. -/
theorem noInjection (l : Line) : l.NoInjection where
  token _ ht := token_cases ht
  once flag hflag htags hdel := by
    rw [← l.accepted_iff.2]
    exact Command.length_tokensOf_render_le hflag htags hdel
  added := l.tokensOf_addtag
  removed := l.tokensOf_deltag

end Line

end LvmControl
