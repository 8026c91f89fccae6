import LvmControl.Proofs.Request.DefaultGroup
import LvmControl.Proofs.Request.Tokens

/-!
# Which command lines share a key

Two commands must not run at the same time if they change the same thing, and they are kept apart
if they have a key in common. What a command changes stands on its command line, so it is accepted
command lines that are compared here: the groups that they address, the devices that they name and
the devices file that they edit.

## Main definitions

* `Line`: an accepted command line, with the options that it comes from.
* `Line.Shares`: two command lines have a key in common.
* `Command.groupCommands`, `Line.Addresses`: the commands that change a volume group or something in
  it, and the groups that their command lines address.
* `Arguments.devicesFile`: the devices file that an argument list names.

## Main statements

* `Line.addresses_iff`: the groups that a command line addresses, in terms of the options.
* `Line.exists_written`, `Line.written_cases`: they are what is written on it.
* `Line.devicesFile_args`: the devices file on a command line is the one that is locked.
* `Line.keys_cover`: command lines on the same group or the same devices file share a key.

## Design notes

**The order on a command line.** A device can have the name of a group, and its token then takes the
place of the one for the group. The names that a command line addresses are therefore taken from the
parts that it is written from, and compared with its tokens without regard to their order.
-/

namespace LvmControl

/-! ## Names and tokens -/

/-- The name of an object does not start with a dash. -/
theorem not_isFlag_of_objectFault? {t : String} (h : objectFault? t.toList = none) :
    ¬ IsFlag t := by
  intro hflag
  unfold IsFlag at hflag
  unfold objectFault? at h
  repeat' split at h
  all_goals simp_all

theorem VolumeGroupName.not_isFlag (g : VolumeGroupName) : ¬ IsFlag g.text :=
  not_isFlag_of_objectFault? g.valid

theorem LogicalVolumeName.not_isFlag (name : LogicalVolumeName) : ¬ IsFlag name.text :=
  not_isFlag_of_objectFault? (Option.or_eq_none_iff.mp name.valid).1

theorem PhysicalVolumeName.not_isFlag (name : PhysicalVolumeName) : ¬ IsFlag name.text := by
  intro hflag
  have hvalid := name.valid
  unfold IsFlag at hflag
  unfold deviceFault? at hvalid
  repeat' split at hvalid
  all_goals simp_all

theorem LogicalVolumeName.qualified_not_isFlag (v : LogicalVolumeName) (g : VolumeGroupName) :
    ¬ IsFlag (v.qualified g) := by
  have hgroup := g.not_isFlag
  unfold IsFlag at hgroup ⊢
  rw [LogicalVolumeName.qualified, String.toList_append, String.toList_append, List.append_assoc,
    List.head?_append]
  cases hhead : g.text.toList.head? with
  | none => simp
  | some c => simpa [hhead] using hgroup

/-- The token stands for the group, or for a volume in it. -/
def VolumeGroupName.WrittenAs (g : VolumeGroupName) (token : String) : Prop :=
  token = g.text ∨ ∃ v : LogicalVolumeName, token = v.qualified g

theorem VolumeGroupName.WrittenAs.not_isFlag {g : VolumeGroupName} {token : String}
    (h : g.WrittenAs token) : ¬ IsFlag token := by
  rcases h with rfl | ⟨v, rfl⟩
  · exact g.not_isFlag
  · exact v.qualified_not_isFlag g

/-! ## Accepted command lines -/

/-- An accepted command line: the options, the default group that completes them, and the arguments
that they make. -/
structure Line where
  command : Command
  options : OptionList command
  default : Option VolumeGroupName
  args : Arguments
  accepted : options.arguments default = .ok args

namespace Line

variable {l m : Line}

/-- What the options of a command line ask for. -/
def request (l : Line) : Request := l.options.completed l.default

/-- The keys of what a command line changes. -/
def keys? (l : Line) : Option (List String) := l.command.keys? l.request

/-- Two command lines have a key in common. -/
def Shares (l m : Line) : Prop :=
  ∃ ks ls key, l.keys? = some ks ∧ m.keys? = some ls ∧ key ∈ ks ∧ key ∈ ls

/-- The options of a command line have passed the check, and it is what they make. -/
theorem accepted_iff (l : Line) :
    l.command.fault? l.request = none ∧ l.command.render l.request .empty = l.args := by
  have haccepted := l.accepted
  unfold OptionList.arguments at haccepted
  split at haccepted
  · cases haccepted
  · rename_i hnone
    exact ⟨hnone, Except.ok.inj haccepted⟩

/-- A command line has what its command requires. -/
theorem has_of_given {f : Field} (h : .given f ∈ l.command.requirements) :
    l.request.has f = true :=
  Command.has_of_given l.accepted_iff.1 h

/-- Every field but that of the group is what the options make of it. -/
theorem get_request_of_ne {f : Field} (hf : f ≠ .volumeGroup) :
    l.request.get f = l.options.aggregate.request.get f :=
  Command.get_withDefault_of_ne hf _

/-- A command line holds nothing in a field that its command does not take. -/
theorem get_of_not_takes {f : Field} (h : l.command.takes f = false) (hf : f ≠ .volumeGroup) :
    l.request.get f = ({} : Request).get f :=
  (get_request_of_ne hf).trans (l.options.aggregate.fits f h)

/-- A token that one of the parts puts stands on the command line, unless it is a flag. -/
theorem mem_tokens {p : Piece} (hp : p ∈ l.command.layout) {e : Edit} (he : e ∈ p.edits l.request)
    {t : String} (ht : t ∈ e.tokens) (h : ¬ IsFlag t) : t ∈ l.args.tokens := by
  rw [← l.accepted_iff.2]
  refine Arguments.mem_applyAll_of_keeps (List.mem_flatMap.mpr ⟨p, hp, he⟩) ht fun e' he' => ?_
  obtain ⟨q, -, hq⟩ := List.mem_flatMap.mp he'
  exact Piece.keeps h _ q e' hq

/-- Every token on a command line is put by one of the parts. -/
theorem exists_piece {t : String} (ht : t ∈ l.args.tokens) :
    ∃ p ∈ l.command.layout, ∃ e ∈ p.edits l.request, t ∈ e.tokens := by
  rw [← l.accepted_iff.2] at ht
  rcases Arguments.mem_applyAll_cases ht with hempty | ⟨e, he, ht⟩
  · exact absurd hempty List.not_mem_nil
  · obtain ⟨p, hp, he⟩ := List.mem_flatMap.mp he
    exact ⟨p, hp, e, he, ht⟩

end Line

/-! ## Groups -/

/-- The commands that change a volume group or something in it. -/
def Command.groupCommands : List Command :=
  [.vgcreate, .vgremove, .vgextend, .vgreduce, .vgrename, .vgchange, .lvcreate, .lvremove,
    .lvextend, .lvresize, .lvreduce, .lvrename, .lvchange]

/-- The groups that a part of a command line stands for. -/
def Piece.groups (r : Request) : Piece → List VolumeGroupName
  | .field .volumeGroup => r.volumeGroup.toList
  | .target => r.volumeGroup.toList
  | .positional .volumeGroup => r.volumeGroup.toList
  | .positional .newVolumeGroup => r.newVolumeGroup.toList
  | _ => []

namespace Piece

variable {r : Request} {p : Piece}

/-- A group that a part stands for is written by it. -/
theorem exists_written {g : VolumeGroupName} (h : g ∈ p.groups r) :
    ∃ e ∈ p.edits r, ∃ t ∈ e.tokens, g.WrittenAs t := by
  cases p with
  | field f =>
    cases f with
    | volumeGroup =>
      have hgroup : r.volumeGroup = some g := Option.mem_toList.mp h
      exact ⟨.put g.text, Edit.mem_given.mpr ⟨g, hgroup, rfl⟩, g.text, List.mem_singleton.mpr rfl,
        .inl rfl⟩
    | _ => exact absurd h List.not_mem_nil
  | flag token => exact absurd h List.not_mem_nil
  | target =>
    have hgroup : r.volumeGroup = some g := Option.mem_toList.mp h
    obtain ⟨t, htarget, hwritten⟩ : ∃ t, r.target? = some t ∧ g.WrittenAs t := by
      cases hvolume : r.logicalVolume with
      | none => exact ⟨g.text, by simp [Request.target?, hgroup, hvolume], .inl rfl⟩
      | some v => exact ⟨v.qualified g, by simp [Request.target?, hgroup, hvolume], .inr ⟨v, rfl⟩⟩
    exact ⟨.put t, Edit.mem_given.mpr ⟨t, htarget, rfl⟩, t, List.mem_singleton.mpr rfl, hwritten⟩
  | positional f =>
    have happend : g.text ∈ r.names f → ∃ e ∈ (positional f).edits r, ∃ t ∈ e.tokens,
        g.WrittenAs t := fun hname =>
      ⟨.append g.text, List.mem_map_of_mem hname, g.text, List.mem_singleton.mpr rfl, .inl rfl⟩
    cases f with
    | volumeGroup | newVolumeGroup => exact happend (List.mem_map_of_mem h)
    | _ => exact absurd h List.not_mem_nil

/-- What a part writes without a dash is a group that it stands for, a device, or a name that it is
there for. -/
theorem written_cases {e : Edit} (he : e ∈ p.edits r) {t : String} (ht : t ∈ e.tokens)
    (h : ¬ IsFlag t) :
    (∃ g ∈ p.groups r, g.WrittenAs t) ∨ t ∈ r.deviceKeys ∨ p = .flag t ∨
      ∃ f, p = .positional f ∧ t ∈ r.names f := by
  cases p with
  | field f =>
    obtain ⟨hname, rfl | rfl⟩ := Request.mem_names_of_mem_tokens he ht h
    · obtain ⟨g, hg, rfl⟩ := List.mem_map.mp hname
      exact .inl ⟨g, hg, .inl rfl⟩
    · exact .inr (.inl hname)
  | flag token =>
    obtain rfl := List.mem_singleton.mp he
    obtain rfl := List.mem_singleton.mp ht
    exact .inr (.inr (.inl rfl))
  | target =>
    obtain ⟨token, htarget, rfl⟩ := Edit.mem_given.mp he
    obtain rfl := List.mem_singleton.mp ht
    obtain ⟨g, hgroup, htoken⟩ := Option.map_eq_some_iff.mp htarget
    refine .inl ⟨g, Option.mem_toList.mpr hgroup, ?_⟩
    cases hvolume : r.logicalVolume with
    | none => exact .inl (by simpa [hvolume] using htoken.symm)
    | some v => exact .inr ⟨v, by simpa [hvolume] using htoken.symm⟩
  | positional f =>
    obtain ⟨name, hname, rfl⟩ := List.mem_map.mp he
    obtain rfl := List.mem_singleton.mp ht
    exact .inr (.inr (.inr ⟨f, rfl, hname⟩))

end Piece

namespace Command

variable {c : Command}

/-- A command on a group has the group among its keys, requires it, and has it completed by the
default one unless it makes or renames a group. -/
theorem group_of_mem (h : c ∈ groupCommands) :
    (c.scope? = some .group ∨ c.scope? = some .groupAndDevices ∨ c.scope? = some .bothNames) ∧
      .given .volumeGroup ∈ c.requirements := by
  revert h
  cases c <;> decide

/-- The groups that the parts of a command line stand for. -/
theorem mem_groups_iff (h : c ∈ groupCommands) (r : Request) (g : VolumeGroupName) :
    (∃ p ∈ c.layout, g ∈ p.groups r) ↔
      r.volumeGroup = some g ∨ c = .vgrename ∧ r.newVolumeGroup = some g := by
  simp only [groupCommands, List.mem_cons, List.not_mem_nil, or_false] at h
  rcases h with rfl | rfl | rfl | rfl | rfl | rfl | rfl | rfl | rfl | rfl | rfl | rfl | rfl <;>
    simp [layout, ownLayout, commonPieces, Field.common, Piece.groups]

/-- The only names that stand on a command line on a group for themselves are those of a rename. -/
theorem positional_of_mem (h : c ∈ groupCommands) {f : Field} (hp : .positional f ∈ c.layout) :
    f = .volumeGroup ∨ f = .newVolumeGroup ∨
      c = .lvrename ∧ (f = .logicalVolume ∨ f = .newLogicalVolume) := by
  simp only [groupCommands, List.mem_cons, List.not_mem_nil, or_false] at h
  rcases h with rfl | rfl | rfl | rfl | rfl | rfl | rfl | rfl | rfl | rfl | rfl | rfl | rfl <;>
    simp only [layout, ownLayout, commonPieces, Field.common, List.map_cons, List.map_nil,
      List.cons_append, List.nil_append, List.mem_cons, List.not_mem_nil, reduceCtorEq, or_false,
      Piece.positional.injEq] at hp
  · exact hp.imp_right .inl
  · rcases hp with rfl | rfl | rfl <;> simp

/-- A command line on a group has no fixed flags. -/
theorem flag_not_mem_layout (h : c ∈ groupCommands) (t : String) : .flag t ∉ c.layout := by
  simp only [groupCommands, List.mem_cons, List.not_mem_nil, or_false] at h
  rcases h with rfl | rfl | rfl | rfl | rfl | rfl | rfl | rfl | rfl | rfl | rfl | rfl | rfl <;>
    simp [layout, ownLayout, commonPieces, Field.common]

/-- A default group completes a command on a group that is left out, unless the command makes or
renames a group. -/
theorem fillsGroup_of_mem (h : c ∈ groupCommands) {r : Request} (hnone : r.volumeGroup = none) :
    c.fillsGroup r = true ∨ ∀ default, r.withDefault c default = r := by
  by_cases hnamed : c = .vgcreate ∨ c = .vgrename
  · refine .inr fun default => ?_
    rcases hnamed with rfl | rfl <;> cases default <;> rfl
  · obtain ⟨hcreate, hrename⟩ := not_or.mp hnamed
    refine .inl ?_
    simp only [groupCommands, List.mem_cons, List.not_mem_nil, or_false, hcreate, hrename,
      false_or] at h
    rcases h with rfl | rfl | rfl | rfl | rfl | rfl | rfl | rfl | rfl | rfl | rfl <;>
      simp [fillsGroup, hnone]

end Command

namespace Line

variable {l m : Line} {g : VolumeGroupName}

/-- A command line addresses a group: one of its parts stands for the group. -/
def Addresses (l : Line) (g : VolumeGroupName) : Prop :=
  l.command ∈ Command.groupCommands ∧ ∃ p ∈ l.command.layout, g ∈ p.groups l.request

/-- The group of a command line is the one that its options name or else the default one. -/
theorem volumeGroup_eq_some_iff (h : l.command ∈ Command.groupCommands) :
    l.request.volumeGroup = some g ↔ l.options.aggregate.request.volumeGroup = some g ∨
      l.options.aggregate.request.volumeGroup = none ∧ l.default = some g := by
  cases hgiven : l.options.aggregate.request.volumeGroup with
  | some group =>
    have hsame : l.request = l.options.aggregate.request :=
      Command.withDefault_of_some hgiven _
    simp [hsame, hgiven]
  | none =>
    rcases Command.fillsGroup_of_mem h hgiven with hfills | hkeeps
    · cases hdefault : l.default with
      | none =>
        have hsame : l.request = l.options.aggregate.request := by
          rw [request, hdefault, OptionList.completed_none]
        simp [hsame, hgiven]
      | some group =>
        have hsame : l.request.volumeGroup = some group := by
          rw [request, hdefault, OptionList.completed, Request.withDefault, if_pos hfills]
          rfl
        simp [hsame]
    · -- A group that is made or renamed must be named.
      have hsame : l.request = l.options.aggregate.request := hkeeps l.default
      have hhas := l.has_of_given (Command.group_of_mem h).2
      simp [Request.has, hsame, hgiven] at hhas

/-- **The groups of a command line.** It addresses the group that the options name, the default one
if they name none, and the new name of a group. -/
theorem addresses_iff (h : l.command ∈ Command.groupCommands) :
    l.Addresses g ↔
      (l.options.aggregate.request.volumeGroup = some g ∨
        l.options.aggregate.request.volumeGroup = none ∧ l.default = some g) ∨
      l.command = .vgrename ∧ l.options.aggregate.request.newVolumeGroup = some g := by
  have hnew : l.request.newVolumeGroup = l.options.aggregate.request.newVolumeGroup :=
    get_request_of_ne (f := .newVolumeGroup) (by decide)
  rw [Addresses, and_iff_right h, Command.mem_groups_iff h, volumeGroup_eq_some_iff h, hnew]

/-- A group that a command line addresses stands on it. -/
theorem exists_written (h : l.Addresses g) : ∃ t ∈ l.args.tokens, g.WrittenAs t := by
  obtain ⟨-, p, hp, hg⟩ := h
  obtain ⟨e, he, t, ht, hwritten⟩ := Piece.exists_written hg
  exact ⟨t, mem_tokens hp he ht hwritten.not_isFlag, hwritten⟩

/-- What stands on a command line without a dash is a group that it addresses, a device, or a
logical volume that is renamed. -/
theorem written_cases (h : l.command ∈ Command.groupCommands) {t : String}
    (ht : t ∈ l.args.tokens) (hflag : ¬ IsFlag t) :
    (∃ g, l.Addresses g ∧ g.WrittenAs t) ∨ t ∈ l.request.deviceKeys ∨
      l.command = .lvrename ∧
        (t ∈ l.request.names .logicalVolume ∨ t ∈ l.request.names .newLogicalVolume) := by
  obtain ⟨p, hp, e, he, ht⟩ := exists_piece ht
  rcases Piece.written_cases he ht hflag with ⟨g, hg, hwritten⟩ | hdevice | rfl | ⟨f, rfl, hname⟩
  · exact .inl ⟨g, ⟨h, p, hp, hg⟩, hwritten⟩
  · exact .inr (.inl hdevice)
  · exact absurd hp (Command.flag_not_mem_layout h t)
  · rcases Command.positional_of_mem h hp with rfl | rfl | ⟨hrename, rfl | rfl⟩
    · obtain ⟨g, hg, rfl⟩ := List.mem_map.mp hname
      exact .inl ⟨g, ⟨h, _, hp, hg⟩, .inl rfl⟩
    · obtain ⟨g, hg, rfl⟩ := List.mem_map.mp hname
      exact .inl ⟨g, ⟨h, _, hp, hg⟩, .inl rfl⟩
    · exact .inr (.inr ⟨hrename, .inl hname⟩)
    · exact .inr (.inr ⟨hrename, .inr hname⟩)

/-- A group that a command line addresses is one of its keys. -/
theorem exists_keys_of_addresses (h : l.Addresses g) : ∃ ks, l.keys? = some ks ∧ g.text ∈ ks := by
  obtain ⟨hgroup, hparts⟩ := h
  have hscope := (Command.group_of_mem hgroup).1
  rcases (Command.mem_groups_iff hgroup _ g).mp hparts with hnamed | ⟨hrename, hnew⟩
  · have hkey : g.text ∈ l.request.groupKeys := by simp [Request.groupKeys, hnamed]
    rcases hscope with hs | hs | hs
    · exact ⟨_, by rw [keys?, Command.keys?, hs]; rfl, hkey⟩
    · exact ⟨_, by rw [keys?, Command.keys?, hs]; rfl, List.mem_append_left _ hkey⟩
    · exact ⟨_, by rw [keys?, Command.keys?, hs]; rfl, List.mem_append_left _ hkey⟩
  · refine ⟨_, by rw [keys?, hrename]; rfl, List.mem_append_right _ ?_⟩
    simp [hnew]

end Line

/-! ## Devices files -/

/-- The commands that edit a devices file. -/
def Command.devicesFileEdits : List Command := [.devicesUpdate, .devicesModify]

/-- The devices file that an argument list names, or else the one of the system. -/
def Arguments.devicesFile (args : Arguments) : String :=
  (args.value? "--devicesfile").getD systemDevicesFile

/-- The flags under which a devices file edit writes what it adds and removes. -/
theorem Command.ignores_of_mem {c : Command} (h : c ∈ Command.devicesFileEdits) (r : Request) :
    ∀ e ∈ c.ownLayout.flatMap (Piece.edits r), e.Ignores "--devicesfile" := by
  intro e he
  obtain ⟨p, hp, he⟩ := List.mem_flatMap.mp he
  simp only [devicesFileEdits, List.mem_cons, List.not_mem_nil, or_false] at h
  rcases h with rfl | rfl
  · obtain rfl := List.mem_singleton.mp hp
    obtain rfl := List.mem_singleton.mp he
    exact Edit.ignores_put (by decide)
  · simp only [ownLayout, List.mem_cons, List.not_mem_nil, or_false] at hp
    rcases hp with rfl | rfl | rfl | rfl <;>
      obtain ⟨value, -, rfl⟩ := Edit.mem_given.mp he <;>
      exact Edit.ignores_flag (by decide) (by decide) _

/-- The other common options are written under other keys. -/
theorem Request.ignores_of_common {f : Field} (hf : f ∈ Field.common) (hne : f ≠ .devicesFile)
    (r : Request) : ∀ e ∈ r.fieldEdits f, e.Ignores "--devicesfile" := by
  intro e he
  simp only [Field.common, List.mem_cons, List.not_mem_nil, or_false] at hf
  rcases hf with rfl | rfl | rfl | rfl | rfl
  · obtain ⟨value, -, rfl⟩ := Edit.mem_given.mp he
    exact Edit.ignores_flag (by decide) (by decide) _
  · exact absurd rfl hne
  · obtain ⟨value, -, rfl⟩ := Edit.mem_given.mp he
    exact Edit.ignores_flag (by decide) (by decide) _
  · obtain ⟨-, rfl⟩ := Edit.mem_switch.mp he
    exact Edit.ignores_put (by decide)
  · obtain ⟨-, rfl⟩ := Edit.mem_switch.mp he
    exact Edit.ignores_put (by decide)

namespace Line

variable {l m : Line}

/-- The flags for the devices file on a command line: one if a file is named, by a name that is not
empty. -/
theorem tokensOf_devicesFile (h : l.command ∈ Command.devicesFileEdits) :
    l.args.tokensOf "--devicesfile" =
      (l.request.common.devicesFile.filter (· ≠ "")).toList.map ("--devicesfile" ++ "=" ++ ·) := by
  have hedits : l.command.edits l.request =
      (l.command.ownLayout.flatMap (Piece.edits l.request) ++ l.request.fieldEdits .devices) ++
        l.request.fieldEdits .devicesFile ++
          (l.request.fieldEdits .profile ++ l.request.fieldEdits .verbose ++
            l.request.fieldEdits .requestConfirm) := by
    simp [Command.edits, Command.layout, commonPieces, Field.common, Piece.edits]
  have hcommon : ∀ f ∈ Field.common, f ≠ .devicesFile → ∀ e ∈ l.request.fieldEdits f,
      e.Ignores "--devicesfile" := fun f hf hne => Request.ignores_of_common hf hne _
  have hbefore : ∀ e ∈ l.command.ownLayout.flatMap (Piece.edits l.request) ++
      l.request.fieldEdits .devices, e.Ignores "--devicesfile" := by
    intro e he
    rcases List.mem_append.mp he with he | he
    · exact Command.ignores_of_mem h _ e he
    · exact hcommon .devices (by decide) (by decide) e he
  have hafter : ∀ e ∈ l.request.fieldEdits .profile ++ l.request.fieldEdits .verbose ++
      l.request.fieldEdits .requestConfirm, e.Ignores "--devicesfile" := by
    intro e he
    rcases List.mem_append.mp he with he | he
    · rcases List.mem_append.mp he with he | he
      · exact hcommon .profile (by decide) (by decide) e he
      · exact hcommon .verbose (by decide) (by decide) e he
    · exact hcommon .requestConfirm (by decide) (by decide) e he
  rw [← l.accepted_iff.2, Command.render, hedits, Arguments.applyAll_append,
    Arguments.tokensOf_applyAll hafter, Arguments.applyAll_append]
  have hempty : (Arguments.empty.applyAll _).tokensOf "--devicesfile" = [] :=
    Arguments.tokensOf_applyAll hbefore
  have hwritten : l.request.fieldEdits .devicesFile =
      (l.request.common.devicesFile.filter (· ≠ "")).toList.map (Edit.flag "--devicesfile") := rfl
  rw [hwritten]
  cases hfile : l.request.common.devicesFile.filter (· ≠ "") with
  | none => exact hempty
  | some name =>
    have hname : IsFlagName "--devicesfile" := by decide
    exact Arguments.tokensOf_put (flagKey_flag hname name)

/-- **The devices file of a command line.** It is the one that the request is about. -/
theorem devicesFile_args (h : l.command ∈ Command.devicesFileEdits) :
    l.args.devicesFile = l.request.devicesFileName := by
  have htokens := l.tokensOf_devicesFile h
  rw [Arguments.devicesFile, Request.devicesFileName]
  cases hfile : l.request.common.devicesFile.filter (· ≠ "") with
  | none =>
    rw [hfile] at htokens
    simp [Arguments.value?, htokens]
  | some name =>
    rw [hfile] at htokens
    rw [Arguments.value?_of_tokensOf (by decide) htokens]

/-- An edit of a devices file has the file as its one key. -/
theorem keys?_of_devicesFileEdit (h : l.command ∈ Command.devicesFileEdits) :
    l.keys? = some ["devices:" ++ l.args.devicesFile] := by
  have hscope : l.command.scope? = some .devicesFile := by
    simp only [Command.devicesFileEdits, List.mem_cons, List.not_mem_nil, or_false] at h
    rcases h with hc | hc <;> rw [hc] <;> rfl
  rw [keys?, Command.keys?, hscope, devicesFile_args h]
  rfl

/-- Two edits of devices files share a key if they edit the same file, and only then. -/
theorem shares_iff_devicesFile (hl : l.command ∈ Command.devicesFileEdits)
    (hm : m.command ∈ Command.devicesFileEdits) :
    l.Shares m ↔ l.args.devicesFile = m.args.devicesFile := by
  constructor
  · rintro ⟨ks, ls, key, hks, hls, hkey, hkey'⟩
    obtain rfl := Option.some.inj ((keys?_of_devicesFileEdit hl).symm.trans hks)
    obtain rfl := Option.some.inj ((keys?_of_devicesFileEdit hm).symm.trans hls)
    rw [List.mem_singleton.mp hkey] at hkey'
    exact (String.append_right_inj _).mp (List.mem_singleton.mp hkey')
  · intro hfile
    refine ⟨_, _, _, keys?_of_devicesFileEdit hl, keys?_of_devicesFileEdit hm,
      List.mem_singleton.mpr rfl, ?_⟩
    rw [hfile]
    exact List.mem_singleton.mpr rfl

end Line

/-! ## What the keys cover -/

/-- The commands that change devices. -/
def Command.deviceCommands : List Command := [.pvcreate, .pvremove, .pvresize, .pvchange, .pvmove]

/-- What changes something changes a group, devices or a devices file. -/
theorem Command.mem_of_isMutating {c : Command} (h : c.isMutating = true) :
    c ∈ groupCommands ∨ c ∈ deviceCommands ∨ c ∈ devicesFileEdits := by
  revert h
  cases c <;> decide

/-- A command on devices has them as its keys, and needs at least one. -/
theorem Command.device_of_mem {c : Command} (h : c ∈ deviceCommands) :
    c.scope? = some .devices ∧ .given .physicalVolumes ∈ c.requirements := by
  revert h
  cases c <;> decide

namespace Line

variable {l m : Line}

/-- The keys of a command line on devices are those devices. -/
theorem keys?_of_deviceCommand (h : l.command ∈ Command.deviceCommands) :
    l.keys? = some l.request.deviceKeys := by
  rw [keys?, Command.keys?, (Command.device_of_mem h).1]
  rfl

/-- A command line that changes something has a key. -/
theorem exists_key (h : l.command.isMutating = true) : ∃ ks, l.keys? = some ks ∧ ks ≠ [] := by
  rcases Command.mem_of_isMutating h with hgroup | hdevice | hfile
  · have hhas := l.has_of_given (Command.group_of_mem hgroup).2
    obtain ⟨g, hg⟩ := Option.isSome_iff_exists.mp hhas
    have haddresses : l.Addresses g := ⟨hgroup, (Command.mem_groups_iff hgroup _ g).mpr (.inl hg)⟩
    obtain ⟨ks, hks, hkey⟩ := exists_keys_of_addresses haddresses
    exact ⟨ks, hks, List.ne_nil_of_mem hkey⟩
  · have hhas := l.has_of_given (Command.device_of_mem hdevice).2
    refine ⟨_, keys?_of_deviceCommand hdevice, ?_⟩
    simpa [Request.has, Request.deviceKeys] using hhas
  · exact ⟨_, keys?_of_devicesFileEdit hfile, List.cons_ne_nil _ _⟩

/-- How the keys of accepted command lines cover what the command lines are about. -/
structure KeysCover (l m : Line) : Prop where
  /-- What changes something has a key. -/
  nonempty : l.command.isMutating = true → ∃ ks, l.keys? = some ks ∧ ks ≠ []
  /-- The groups that a command line addresses: the one that the options name, the default one if
  they name none, and the new name of a group. -/
  addresses_iff : l.command ∈ Command.groupCommands → ∀ g, l.Addresses g ↔
    (l.options.aggregate.request.volumeGroup = some g ∨
      l.options.aggregate.request.volumeGroup = none ∧ l.default = some g) ∨
    l.command = .vgrename ∧ l.options.aggregate.request.newVolumeGroup = some g
  /-- They stand on it, by themselves or in front of the name of a logical volume. -/
  written : ∀ g, l.Addresses g → ∃ t ∈ l.args.tokens, g.WrittenAs t
  /-- Nothing else stands on it without a dash but devices and the names of a logical volume that is
  renamed. -/
  written_only : l.command ∈ Command.groupCommands → ∀ t ∈ l.args.tokens, ¬ IsFlag t →
    (∃ g, l.Addresses g ∧ g.WrittenAs t) ∨ t ∈ l.request.deviceKeys ∨
      l.command = .lvrename ∧
        (t ∈ l.request.names .logicalVolume ∨ t ∈ l.request.names .newLogicalVolume)
  /-- Two command lines that address the same group share a key. -/
  same_group : ∀ g, l.Addresses g → m.Addresses g → l.Shares m
  /-- Two edits of devices files share a key if and only if they edit the same file. -/
  same_file : l.command ∈ Command.devicesFileEdits → m.command ∈ Command.devicesFileEdits →
    (l.Shares m ↔ l.args.devicesFile = m.args.devicesFile)

/-- **What the keys cover.** Accepted command lines that change something have keys, and those that
address the same group or edit the same devices file have one in common. -/
theorem keys_cover (l m : Line) : l.KeysCover m where
  nonempty := exists_key
  addresses_iff h _ := addresses_iff h
  written _ h := exists_written h
  written_only h _ ht hflag := written_cases h ht hflag
  same_group g hl hm := by
    obtain ⟨ks, hks, hkey⟩ := exists_keys_of_addresses hl
    obtain ⟨ls, hls, hkey'⟩ := exists_keys_of_addresses hm
    exact ⟨ks, ls, g.text, hks, hls, hkey, hkey'⟩
  same_file := shares_iff_devicesFile

end Line

end LvmControl
