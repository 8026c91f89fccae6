import LvmControl.Proofs.Quantity.RoundTrip
import LvmControl.Proofs.Request.Positionals

/-!
# What the check of a request promises of its command line

A request is checked field by field and then written part by part. The two look at the same fields
in different ways: the check counts the fields that hold something, the parts write tokens, and a
token can take the place of another. This module carries what the check asks for over to the tokens:
how many of them there are under the flags that exclude each other, and which values stand behind
them.

## Main definitions

* `Arguments.under`, `Arguments.values`: the tokens under some flags, and the values of one flag.
* `Field.choices`: the fields that a command may require one of.
* `Command.sizing`: the commands that size a logical volume.
* `Line.Promises`: what holds of an accepted command line because its request has been checked.

## Main statements

* `Request.tokens_eq_nil_iff`: a field is written exactly if the check counts it.
* `Line.exists_only_token`: of fields that exclude each other one token is written.
* `Line.exists_token_of_someOf`: of fields one of which is required a token is written.
* `Line.promises`: every accepted command line keeps what the check promises.
-/

namespace LvmControl

/-! ## Tokens under several flags -/

namespace Arguments

variable {args : Arguments} {keys : List String} {key : String}

/-- The tokens under one of the flags, in order. -/
def under (args : Arguments) (keys : List String) : List String :=
  args.tokens.filter fun t => flagKey t ∈ keys

/-- The values of the flags of a name, in order. -/
def values (args : Arguments) (flag : String) : List String := (args.tokensOf flag).map flagValue

/-- If nothing stands under the other flags, what stands under several is what stands under one. -/
theorem under_eq_tokensOf (hkey : key ∈ keys) (h : ∀ k ∈ keys, k ≠ key → args.tokensOf k = []) :
    args.under keys = args.tokensOf key := by
  refine List.filter_congr fun t ht => decide_eq_decide.mpr ⟨fun hmem => ?_, fun heq => heq ▸ hkey⟩
  by_contra hne
  have hnone := h (flagKey t) hmem hne
  exact List.filter_eq_nil_iff.mp hnone t ht (decide_eq_true rfl)

/-- The values of a flag that is written once for each of some values. -/
theorem values_of_tokensOf {flag : String} {vs : List String} (hname : IsFlagName flag)
    (h : args.tokensOf flag = vs.map fun v => flag ++ "=" ++ v) : args.values flag = vs := by
  rw [values, h, List.map_map]
  exact (List.map_congr_left fun v _ => flagValue_flag hname v).trans (List.map_id' vs)

end Arguments

/-! ## Fields that are counted and fields that are written -/

/-- The fields with a flag that a command may require one of. -/
def Field.choices : List Field :=
  [.size, .extents, .activate, .allocatable, .tags, .delTags, .addDevice, .delDevice, .addPvid,
    .delPvid]

theorem Edit.tokens_given_eq_nil_iff {α : Type} (v : Option α) (flag : String)
    (word : α → String) :
    (Edit.given v fun x => .flag flag (word x)).flatMap Edit.tokens = [] ↔ v.isSome = false := by
  cases v <;> simp [Edit.given, Edit.flag, Edit.put, Edit.tokens]

namespace Request

variable {r : Request} {f : Field}

/-- Such a field is written exactly if it holds something. -/
theorem tokens_eq_nil_iff (h : f ∈ Field.choices) :
    (Piece.field f).tokens r = [] ↔ r.has f = false := by
  cases f with
  | tags | delTags => simp [Piece.tokens, Piece.edits, fieldEdits, Edit.tokens, has]
  | size | extents | activate | allocatable | addDevice | delDevice | addPvid | delPvid =>
    exact Edit.tokens_given_eq_nil_iff _ _ _
  | _ => exact absurd h (by decide)

theorem exists_of_oneOf {name : String} {fs : List Field}
    (h : (Requirement.oneOf fs).fault? name r = none) : ∃ f, fs.filter r.has = [f] := by
  cases hfilter : fs.filter r.has with
  | nil => simp [Requirement.fault?, hfilter] at h
  | cons f rest =>
    cases rest with
    | nil => exact ⟨f, rfl⟩
    | cons g rest => simp [Requirement.fault?, hfilter] at h

theorem exists_of_someOf {name : String} {fs : List Field}
    (h : (Requirement.someOf fs).fault? name r = none) : ∃ f ∈ fs, r.has f = true := by
  cases hany : fs.any r.has with
  | true => exact List.any_eq_true.mp hany
  | false => simp [Requirement.fault?, hany] at h

/-- A value that a field holds can be used if the field is well-formed. -/
theorem valueFault?_of_wellFormed {name : String}
    (h : (Requirement.wellFormed f).fault? name r = none) : r.valueFault? f = none :=
  Option.map_eq_none_iff.mp h

end Request

namespace Line

variable {l : Line} {f : Field} {fs : List Field} {key : String}

/-- A command line meets every requirement of its command. -/
theorem meets {q : Requirement} (h : q ∈ l.command.requirements) :
    q.fault? l.command.subcommand l.request = none :=
  Command.fault?_eq_none_iff.mp l.accepted_iff.1 q h

/-- Under the flag of a field stands what the field writes. -/
theorem tokensOf_flag (hp : .field f ∈ l.command.layout) (hkey : f.flag? = some key) :
    l.args.tokensOf key = (Piece.field f).tokens l.request := by
  rw [← l.accepted_iff.2]
  exact Command.tokensOf_render hp hkey

/-- The values of a flag that a field is written under. -/
theorem values_of_given {α : Type} {v : Option α} {word : α → String}
    (hp : .field f ∈ l.command.layout) (hkey : f.flag? = some key) (hname : IsFlagName key)
    (hedits : l.request.fieldEdits f = Edit.given v fun x => .flag key (word x)) :
    l.args.values key = v.toList.map word := by
  refine Arguments.values_of_tokensOf hname ?_
  rw [tokensOf_flag hp hkey, Piece.tokens, Piece.edits, hedits, Edit.tokens_given]

/-- A field that holds something is written under its flag. -/
theorem exists_flag_of_has (hchoice : f ∈ Field.choices) (hp : .field f ∈ l.command.layout)
    (hhas : l.request.has f = true) : ∃ key, f.flag? = some key ∧ l.args.tokensOf key ≠ [] := by
  obtain ⟨key, hkey⟩ : ∃ key, f.flag? = some key := by
    revert hchoice
    cases f <;> simp [Field.choices, Field.flag?]
  refine ⟨key, hkey, fun hnone => ?_⟩
  rw [tokensOf_flag hp hkey, Request.tokens_eq_nil_iff hchoice, hhas] at hnone
  cases hnone

/-- A field that holds nothing is not written. -/
theorem tokensOf_eq_nil_of_has (hchoice : f ∈ Field.choices) (hp : .field f ∈ l.command.layout)
    (hkey : f.flag? = some key) (hhas : l.request.has f = false) : l.args.tokensOf key = [] := by
  rw [tokensOf_flag hp hkey]
  exact (Request.tokens_eq_nil_iff hchoice).mpr hhas

/-- Of fields of which exactly one must hold something one token is written, and nothing else under
the flags of the others. -/
theorem exists_only_token (hreq : .oneOf fs ∈ l.command.requirements)
    (hfs : ∀ f ∈ fs, f ∈ Field.choices ∧ .field f ∈ l.command.layout)
    (hsingle : .tags ∉ fs ∧ .delTags ∉ fs) :
    ∃ t, l.args.under (fs.filterMap Field.flag?) = [t] := by
  obtain ⟨f, hone⟩ := Request.exists_of_oneOf (meets hreq)
  obtain ⟨hf, hhas⟩ := List.mem_filter.mp (hone ▸ List.mem_singleton_self f)
  obtain ⟨hchoice, hlayout⟩ := hfs f hf
  obtain ⟨key, hkey, htokens⟩ := exists_flag_of_has hchoice hlayout hhas
  -- The other fields hold nothing, so the token of this one is all there is.
  have hothers : ∀ k ∈ fs.filterMap Field.flag?, k ≠ key → l.args.tokensOf k = [] := by
    intro k hk hne
    obtain ⟨g, hg, hgk⟩ := List.mem_filterMap.mp hk
    refine tokensOf_eq_nil_of_has (hfs g hg).1 (hfs g hg).2 hgk ?_
    by_contra hgiven
    have hmem : g ∈ fs.filter l.request.has :=
      List.mem_filter.mpr ⟨hg, (Bool.not_eq_false _).mp hgiven⟩
    rw [hone, List.mem_singleton] at hmem
    rw [hmem, hkey] at hgk
    exact hne (Option.some.inj hgk).symm
  have hlength : (l.args.tokensOf key).length ≤ 1 := by
    rw [tokensOf_flag hlayout hkey]
    refine (Request.atMostOne_fieldEdits hkey ?_ ?_).length_tokens_le
    · rintro rfl
      exact hsingle.1 hf
    · rintro rfl
      exact hsingle.2 hf
  rw [Arguments.under_eq_tokensOf (List.mem_filterMap.mpr ⟨f, hf, hkey⟩) hothers]
  exact List.length_eq_one_iff.mp (Nat.le_antisymm hlength (List.length_pos_of_ne_nil htokens))

/-- Of fields of which at least one must hold something a token is written. -/
theorem exists_token_of_someOf (hreq : .someOf fs ∈ l.command.requirements)
    (hfs : ∀ f ∈ fs, f ∈ Field.choices ∧ .field f ∈ l.command.layout) :
    ∃ t ∈ l.args.tokens, flagKey t ∈ fs.filterMap Field.flag? := by
  obtain ⟨f, hf, hhas⟩ := Request.exists_of_someOf (meets hreq)
  obtain ⟨key, hkey, htokens⟩ := exists_flag_of_has (hfs f hf).1 (hfs f hf).2 hhas
  obtain ⟨t, ht⟩ := List.exists_mem_of_ne_nil _ htokens
  obtain ⟨hmem, hflag⟩ := List.mem_filter.mp ht
  obtain rfl : flagKey t = key := of_decide_eq_true hflag
  exact ⟨t, hmem, List.mem_filterMap.mpr ⟨f, hf, hkey⟩⟩

end Line

/-! ## Values -/

/-- What a check promises of a number of extents. -/
theorem Extents.bounds_of_fault? {e : Extents} (h : e.fault? = none) :
    e.value ≠ 0 ∧ ∀ p, e.percentOf = some p → p.isBounded = true → e.value ≤ 100 := by
  unfold fault? at h
  split at h
  · cases h
  next hvalue =>
    refine ⟨hvalue, fun p hp hbounded => ?_⟩
    rw [hp] at h
    simpa [hbounded] using h

/-- Only an increase is written with a plus sign in front. -/
theorem Extents.relative_of_head? {e : Extents} (h : e.text.toList.head? = some '+') :
    e.relative = true := by
  obtain ⟨rest, hrest⟩ := List.head?_eq_some_iff.mp h
  have hsign := takeIncrease_append e
  rw [hrest] at hsign
  exact (congrArg Prod.fst hsign).symm

/-- What a check promises of a tag. -/
theorem isTag_iff {tag : String} : isTag tag = true ↔
    (1 ≤ tag.toList.length ∧ tag.toList.length ≤ 1024) ∧ ¬ IsFlag tag ∧
      ∀ c ∈ tag.toList, isTagChar c = true := by
  simp [isTag, IsFlag, Nat.one_le_iff_ne_zero, and_assoc]

theorem isTag_of_tagFault? {tags : List String} (h : tagFault? tags = none) {tag : String}
    (htag : tag ∈ tags) : isTag tag = true := by
  have hnone := List.find?_eq_none.mp (Option.map_eq_none_iff.mp h) tag htag
  simpa using hnone

/-- What a check promises of the identifier of a physical volume. -/
theorem isPvid_of_pvidFault? {pvid : String} (h : pvidFault? pvid = none) :
    pvid ≠ "" ∧ ∀ c ∈ pvid.toList, c.isAlphanum = true := by
  unfold pvidFault? at h
  split at h
  · next hpvid => simpa [isPvid] using hpvid
  · cases h

namespace Command

variable {c : Command}

/-- The commands that size a logical volume. -/
def sizing : List Command := [.lvcreate, .lvextend, .lvresize, .lvreduce]

/-- A command that takes tags checks them. -/
theorem wellFormed_of_takes_tags (c : Command) :
    (c.takes .tags = true → .wellFormed .tags ∈ c.requirements) ∧
      (c.takes .delTags = true → .wellFormed .delTags ∈ c.requirements) := by
  cases c <;> decide

/-- A command that sizes a logical volume requires exactly one of the two ways to give a size,
writes both, and checks the extents. -/
theorem cases_of_sizing (h : c ∈ sizing) :
    .oneOf [.size, .extents] ∈ c.requirements ∧ .wellFormed .extents ∈ c.requirements ∧
      .field .size ∈ c.layout ∧ .field .extents ∈ c.layout := by
  revert h
  cases c <;> decide

end Command

namespace Line

variable {l : Line} {v : String}

/-- What stands behind `--extents` are the extents that have been checked. -/
theorem extents_of_mem_values (h : l.command ∈ Command.sizing)
    (hv : v ∈ l.args.values "--extents") :
    ∃ e, l.request.extents = some e ∧ v = e.text ∧ e.fault? = none := by
  obtain ⟨-, hformed, -, hp⟩ := Command.cases_of_sizing h
  rw [values_of_given hp rfl (by decide) rfl] at hv
  obtain ⟨e, he, rfl⟩ := List.mem_map.mp hv
  have hsome : l.request.extents = some e := Option.mem_toList.mp he
  have hvalue : l.request.extents.bind Extents.fault? = none :=
    Request.valueFault?_of_wellFormed (meets hformed)
  exact ⟨e, hsome, rfl, Option.bind_eq_none_iff.mp hvalue e hsome⟩

/-- The extents of a new volume, and of one that is made smaller, are no increase. -/
theorem not_relative (h : l.command = .lvcreate ∨ l.command = .lvreduce) {e : Extents}
    (he : l.request.extents = some e) : e.relative = false := by
  obtain ⟨cause, hreq⟩ : ∃ cause, .absolute cause ∈ l.command.requirements := by
    rcases h with hc | hc <;> rw [hc]
    · exact ⟨.increaseOnCreate, by decide⟩
    · exact ⟨.increaseOnReduce, by decide⟩
  have hmeets := meets hreq
  cases hrelative : e.relative with
  | false => rfl
  | true => simp [Requirement.fault?, he, hrelative] at hmeets

/-- What stands behind the flags for identifiers of physical volumes has been checked. -/
theorem pvid_of_mem_values (h : l.command = .devicesModify)
    (hv : v ∈ l.args.values "--addpvid" ∨ v ∈ l.args.values "--delpvid") :
    pvidFault? v = none := by
  have hadd : .field .addPvid ∈ l.command.layout ∧
      .wellFormed .addPvid ∈ l.command.requirements := by
    rw [h]
    decide
  have hdel : .field .delPvid ∈ l.command.layout ∧
      .wellFormed .delPvid ∈ l.command.requirements := by
    rw [h]
    decide
  have hadded : l.args.values "--addpvid" = l.request.addPvid.toList.map id :=
    values_of_given hadd.1 rfl (by decide) rfl
  have hdeleted : l.args.values "--delpvid" = l.request.delPvid.toList.map id :=
    values_of_given hdel.1 rfl (by decide) rfl
  rw [hadded, hdeleted, List.map_id, List.map_id, Option.mem_toList, Option.mem_toList] at hv
  rcases hv with hv | hv
  · exact Option.bind_eq_none_iff.mp (Request.valueFault?_of_wellFormed (meets hadd.2)) v hv
  · exact Option.bind_eq_none_iff.mp (Request.valueFault?_of_wellFormed (meets hdel.2)) v hv

/-- A field that a command checks if it takes it holds nothing that cannot be used. -/
theorem valueFault?_eq_none {f : Field} (hf : f ≠ .volumeGroup)
    (hformed : l.command.takes f = true → .wellFormed f ∈ l.command.requirements)
    (hdefault : l.request.get f = ({} : Request).get f → l.request.valueFault? f = none) :
    l.request.valueFault? f = none := by
  cases htakes : l.command.takes f with
  | true => exact Request.valueFault?_of_wellFormed (meets (hformed htakes))
  | false => exact hdefault (get_of_not_takes htakes hf)

/-- What stands behind the flags for tags has been checked. -/
theorem isTag_of_mem_values (hv : v ∈ l.args.values "--addtag" ∨ v ∈ l.args.values "--deltag") :
    isTag v = true := by
  rw [Arguments.values_of_tokensOf (by decide) l.tokensOf_addtag,
    Arguments.values_of_tokensOf (by decide) l.tokensOf_deltag] at hv
  rcases hv with hv | hv
  · have hdefault : l.request.get .tags = [] → tagFault? l.request.tags = none := congrArg tagFault?
    exact isTag_of_tagFault? (valueFault?_eq_none (by decide)
      l.command.wellFormed_of_takes_tags.1 hdefault) hv
  · have hdefault : l.request.get .delTags = [] → tagFault? l.request.delTags = none :=
      congrArg tagFault?
    exact isTag_of_tagFault? (valueFault?_eq_none (by decide)
      l.command.wellFormed_of_takes_tags.2 hdefault) hv

/-- Data is moved from the device that is named first, which stands first and nowhere else. -/
theorem source_leads (h : l.command = .pvmove) :
    ∃ source rest, l.request.physicalVolumes = source :: rest ∧
      ∃ targets, l.args.positionals = source.text :: targets ∧ source.text ∉ targets := by
  have hdevices : l.command ∈ Command.onDevices := by
    rw [h]
    decide
  have hgiven : .given .physicalVolumes ∈ l.command.requirements := by
    rw [h]
    decide
  have hapart : .apartFromSource ∈ l.command.requirements := by
    rw [h]
    decide
  have hhas := l.has_of_given hgiven
  cases hnames : l.request.physicalVolumes with
  | nil => simp [Request.has, hnames] at hhas
  | cons source rest =>
    have hmeets := meets hapart
    have hnot : source ∉ rest := by
      intro hmem
      simp [Requirement.fault?, hnames, hmem] at hmeets
    have htexts : source.text ∉ rest.map PhysicalVolumeName.text := by
      intro hmem
      obtain ⟨name, hname, htext⟩ := List.mem_map.mp hmem
      exact hnot (PhysicalVolumeName.eq_of_text_eq htext ▸ hname)
    refine ⟨source, rest, rfl, (rest.map PhysicalVolumeName.text).dedup, ?_, ?_⟩
    · rw [← l.accepted_iff.2, Command.positionals_of_onDevices hdevices, Request.names, hnames,
        List.map_cons, List.dedup_cons_of_notMem htexts]
    · exact fun hmem => htexts (List.mem_dedup.mp hmem)

/-- What holds of a command line because its request has been checked. -/
structure Promises (l : Line) : Prop where
  /-- A logical volume is sized in one way: one token has the flag for a size or for extents. -/
  one_size : l.command ∈ Command.sizing → ∃ t, l.args.under ["--size", "--extents"] = [t]
  /-- The text behind the flag for extents is read as a number of extents that is not zero, and not
  above one hundred if it is a percentage of the group, of what is free in it, or of devices. -/
  extents : l.command ∈ Command.sizing → ∀ v ∈ l.args.values "--extents",
    ∃ e, Extents.read? v.toList = some e ∧ e.value ≠ 0 ∧
      ∀ p ∈ [PercentOf.group, .free, .devices], e.percentOf = some p → e.value ≤ 100
  /-- A volume that is created or made smaller gets no increase. -/
  absolute : l.command = .lvcreate ∨ l.command = .lvreduce → ∀ v ∈ l.args.values "--extents",
    v.toList.head? ≠ some '+'
  /-- An edit of the devices file adds or removes one device. -/
  one_device : l.command = .devicesModify →
    ∃ t, l.args.under ["--adddev", "--deldev", "--addpvid", "--delpvid"] = [t]
  /-- A device that is given by its identifier is given by letters and digits. -/
  pvid : l.command = .devicesModify → ∀ v,
    v ∈ l.args.values "--addpvid" ∨ v ∈ l.args.values "--delpvid" →
      v ≠ "" ∧ ∀ c ∈ v.toList, c.isAlphanum = true
  /-- A change of a group or of a logical volume changes something. -/
  change : l.command = .vgchange ∨ l.command = .lvchange →
    ∃ t ∈ l.args.tokens, flagKey t ∈ ["--activate", "--addtag", "--deltag"]
  /-- A change of devices changes something. -/
  device_change : l.command = .pvchange →
    ∃ t ∈ l.args.tokens, flagKey t ∈ ["--allocatable", "--addtag", "--deltag"]
  /-- Data is moved from the device that is named first. It stands first and nowhere else. -/
  source : l.command = .pvmove → ∃ source rest, l.request.physicalVolumes = source :: rest ∧
    ∃ targets, l.args.positionals = source.text :: targets ∧ source.text ∉ targets
  /-- Tags to add and to remove are one to 1024 characters that may occur in a tag, and do not start
  with a dash. -/
  tag : ∀ v, v ∈ l.args.values "--addtag" ∨ v ∈ l.args.values "--deltag" →
    (1 ≤ v.toList.length ∧ v.toList.length ≤ 1024) ∧ ¬ IsFlag v ∧
      ∀ c ∈ v.toList, isTagChar c = true

/-- **Promises are kept.** Whatever the options and the default group, what the check of a request
asks for holds of the tokens that are written from it. -/
theorem promises (l : Line) : l.Promises where
  one_size h := by
    obtain ⟨hone, -, hsize, hextents⟩ := Command.cases_of_sizing h
    exact exists_only_token hone (by simp [Field.choices, hsize, hextents]) (by decide)
  extents h v hv := by
    obtain ⟨e, -, rfl, hfault⟩ := extents_of_mem_values h hv
    obtain ⟨hvalue, hbound⟩ := Extents.bounds_of_fault? hfault
    have hbounded : ∀ p ∈ [PercentOf.group, .free, .devices], p.isBounded = true := by decide
    exact ⟨e, e.read?_text, hvalue, fun p hp hkind => hbound p hkind (hbounded p hp)⟩
  absolute h v hv := by
    have hsizing : l.command ∈ Command.sizing := by
      rcases h with hc | hc <;> rw [hc] <;> decide
    obtain ⟨e, he, rfl, -⟩ := extents_of_mem_values hsizing hv
    intro hhead
    have hrelative := not_relative h he
    rw [Extents.relative_of_head? hhead] at hrelative
    cases hrelative
  one_device h := by
    have hreq : .oneOf [.addDevice, .delDevice, .addPvid, .delPvid] ∈ l.command.requirements := by
      rw [h]
      decide
    refine exists_only_token hreq ?_ (by decide)
    rw [h]
    decide
  pvid h v hv := isPvid_of_pvidFault? (pvid_of_mem_values h hv)
  change h := by
    have hreq : .someOf [.activate, .tags, .delTags] ∈ l.command.requirements := by
      rcases h with hc | hc <;> rw [hc] <;> decide
    refine exists_token_of_someOf hreq ?_
    rcases h with hc | hc <;> rw [hc] <;> decide
  device_change h := by
    have hreq : .someOf [.allocatable, .tags, .delTags] ∈ l.command.requirements := by
      rw [h]
      decide
    refine exists_token_of_someOf hreq ?_
    rw [h]
    decide
  source := source_leads
  tag v hv := isTag_iff.mp (isTag_of_mem_values hv)

end Line

end LvmControl
