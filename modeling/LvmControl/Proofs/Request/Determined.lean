import LvmControl.Proofs.Quantity.RoundTrip
import LvmControl.Proofs.Request.LastWriter
import LvmControl.Proofs.Request.Positionals

/-!
# The command line determines the request

Two requests for a command that pass the check and are written alike ask for the same. Under each
flag stands what its field holds, and no two values of a field have the same text; the names on the
line are told apart by their places, and a group from a volume in it by the slash. What is lost is
only what a request says twice: a device that is given again, the limits of a device list, and a
text that is given but empty.

This holds for the commands whose names are of one kind. A command that names a target and devices
is not among them, since a device can be given by the text of the target.

## Main definitions

* `Field.essential`: what of a value stands on a command line.
* `Request.Matches`: two requests that agree on every field, up to what is not written.
* `Command.oneKind`: the commands whose names are of one kind.

## Main statements

* `Request.essential_eq_of_tokens_eq`: what is written under the flag of a field determines the
  field.
* `Request.eq_of_target?_eq`: the target determines the group and the logical volume.
* `FittingRequest.determined`: requests that are written alike match.
-/

namespace LvmControl

/-! ## What of a request is written -/

/-- What of the value of a field stands on a command line. A device that is given several times
stands where it is given last, a list of devices for the whole command is one text, and a text or a
list that is given but empty is left out. -/
def Field.essential : (f : Field) → f.Value → f.Value
  | .physicalVolumes, names => names.dedup
  | .select, criteria => criteria.filter (· ≠ "")
  | .devices, paths =>
    (paths.filter fun ps => !ps.isEmpty).map fun ps => [Text.join "," ps]
  | .devicesFile, name => name.filter (· ≠ "")
  | .profile, name => name.filter (· ≠ "")
  | _, value => value

/-- The fields that hold the name of a group or of a logical volume. -/
def Field.objectNames : List Field :=
  [.volumeGroup, .newVolumeGroup, .logicalVolume, .newLogicalVolume]

namespace Request

/-- Two requests agree on every field, up to what is not written. -/
def Matches (q r : Request) : Prop :=
  ∀ f : Field, Field.essential f (q.get f) = Field.essential f (r.get f)

end Request

/-! ## Fields with a flag -/

theorem toList_injective {α : Type} : Function.Injective (Option.toList : Option α → List α) := by
  intro v w h
  cases v <;> cases w <;> simp_all

namespace Edit

variable {α : Type} {v w : Option α} {flag : String} {word : α → String}

/-- What is written under a flag determines the word. -/
theorem map_word_eq_of_tokens_eq
    (h : (Edit.given v fun x => .flag flag (word x)).flatMap tokens =
      (Edit.given w fun x => .flag flag (word x)).flatMap tokens) : v.map word = w.map word := by
  have hflag : Function.Injective fun value => flag ++ "=" ++ value := fun _ _ hab =>
    (String.append_right_inj _).mp hab
  rw [tokens_given, tokens_given] at h
  have hlist : v.toList.map word = w.toList.map word := List.map_injective_iff.mpr hflag h
  rw [← Option.toList_map, ← Option.toList_map] at hlist
  exact toList_injective hlist

/-- What is written under a flag determines the value, if its word does. -/
theorem eq_of_tokens_eq (hword : Function.Injective word)
    (h : (Edit.given v fun x => .flag flag (word x)).flatMap tokens =
      (Edit.given w fun x => .flag flag (word x)).flatMap tokens) : v = w :=
  Option.map_injective hword (map_word_eq_of_tokens_eq h)

/-- A flag that is there is on. -/
theorem eq_of_tokens_switch_eq {on off : Bool}
    (h : (Edit.switch on flag).flatMap tokens = (Edit.switch off flag).flatMap tokens) :
    on = off := by
  cases on <;> cases off <;> simp_all [Edit.switch, Edit.put, tokens]

end Edit

theorem Activation.word_injective : Function.Injective word := by
  intro a b
  cases a <;> cases b <;> decide

theorem choiceWord_injective : Function.Injective choiceWord := by
  intro a b
  cases a <;> cases b <;> decide

/-- What is written under the flag of a field determines what the field holds. -/
theorem Request.essential_eq_of_tokens_eq {q r : Request} {f : Field} {key : String}
    (hkey : f.flag? = some key) (h : (Piece.field f).tokens q = (Piece.field f).tokens r) :
    Field.essential f (q.get f) = Field.essential f (r.get f) := by
  cases f with
  | volumeGroup | newVolumeGroup | newLogicalVolume | physicalVolumes => cases hkey
  | logicalVolume =>
    exact Edit.eq_of_tokens_eq (fun _ _ => LogicalVolumeName.eq_of_text_eq) h
  | size | extentSize | deviceSize => exact Edit.eq_of_tokens_eq Size.text_injective h
  | extents => exact Edit.eq_of_tokens_eq Extents.text_injective h
  | tags | delTags =>
    refine List.map_injective_iff.mpr (fun _ _ htag => ?_) (List.append_left_injective [] h)
    exact (String.append_right_inj _).mp htag
  | activate => exact Edit.eq_of_tokens_eq Activation.word_injective h
  | force | removeMissing | resizeFs | verbose => exact Edit.eq_of_tokens_switch_eq h
  | requestConfirm => exact Bool.not_inj (Edit.eq_of_tokens_switch_eq h)
  | zero | allocatable => exact Edit.eq_of_tokens_eq choiceWord_injective h
  | addDevice | delDevice =>
    exact Edit.eq_of_tokens_eq (fun _ _ => PhysicalVolumeName.eq_of_text_eq) h
  | addPvid | delPvid | select | devicesFile | profile =>
    exact Edit.eq_of_tokens_eq (fun _ _ hsame => hsame) h
  | devices =>
    have hjoined := congrArg (Option.map fun text => [text]) (Edit.map_word_eq_of_tokens_eq h)
    rwa [Option.map_map, Option.map_map] at hjoined

/-! ## Names -/

theorem isNameChar_of_objectFault? {cs : List Char} (h : objectFault? cs = none) {c : Char}
    (hc : c ∈ cs) : isNameChar c = true := by
  unfold objectFault? at h
  repeat' split at h
  all_goals try cases h
  have hnone := List.find?_eq_none.mp (Option.map_eq_none_iff.mp h) c hc
  simpa using hnone

/-- The name of a group holds no slash. -/
theorem VolumeGroupName.slash_not_mem (g : VolumeGroupName) : '/' ∉ g.text.toList := by
  intro hmem
  have hchar := isNameChar_of_objectFault? g.valid hmem
  revert hchar
  decide

/-- A qualified name is told apart from the name of a group by its slash. -/
theorem LogicalVolumeName.qualified_ne_text (v : LogicalVolumeName) (g h : VolumeGroupName) :
    v.qualified g ≠ h.text := by
  intro heq
  refine h.slash_not_mem (heq ▸ ?_)
  simp [LogicalVolumeName.qualified]

/-- A qualified name is cut at the slash into the names that it is made of. -/
theorem LogicalVolumeName.qualified_inj {v w : LogicalVolumeName} {g h : VolumeGroupName}
    (heq : v.qualified g = w.qualified h) : g = h ∧ v = w := by
  have hcut : ∀ (u : LogicalVolumeName) (k : VolumeGroupName),
      Text.cut '/' (u.qualified k).toList = some (k.text.toList, u.text.toList) := by
    intro u k
    rw [qualified, String.toList_append, String.toList_append, List.append_assoc]
    exact Text.cut_append_cons k.slash_not_mem
  have hparts := (hcut v g).symm.trans
    ((congrArg (fun t => Text.cut '/' t.toList) heq).trans (hcut w h))
  obtain ⟨hgroup, hvolume⟩ := Prod.mk.inj (Option.some.inj hparts)
  exact ⟨VolumeGroupName.eq_of_text_eq (String.toList_inj.mp hgroup),
    eq_of_text_eq (String.toList_inj.mp hvolume)⟩

namespace Request

variable {q r : Request}

/-- A logical volume is named together with its group. -/
def Anchored (r : Request) : Prop := r.volumeGroup = none → r.logicalVolume = none

/-- The target determines the group and the logical volume, if no volume is named without a
group. -/
theorem eq_of_target?_eq (hq : q.Anchored) (hr : r.Anchored) (h : q.target? = r.target?) :
    q.volumeGroup = r.volumeGroup ∧ q.logicalVolume = r.logicalVolume := by
  cases hg : q.volumeGroup with
  | none =>
    have hk : r.volumeGroup = none := by
      rw [target?, target?, hg] at h
      exact Option.map_eq_none_iff.mp h.symm
    exact ⟨hk.symm, (hq hg).trans (hr hk).symm⟩
  | some g =>
    obtain ⟨k, hk⟩ : ∃ k, r.volumeGroup = some k := by
      rw [target?, target?, hg] at h
      obtain ⟨k, hk, -⟩ := Option.map_eq_some_iff.mp h.symm
      exact ⟨k, hk⟩
    rw [target?, target?, hg, hk, Option.map_some, Option.map_some, Option.some.injEq] at h
    rw [hk]
    cases hv : q.logicalVolume <;> cases hw : r.logicalVolume <;> rw [hv, hw] at h
    case none.none => exact ⟨congrArg some (VolumeGroupName.eq_of_text_eq h), rfl⟩
    case none.some w => exact absurd h.symm (w.qualified_ne_text k g)
    case some.none v => exact absurd h (v.qualified_ne_text g k)
    case some.some v w =>
      obtain ⟨rfl, rfl⟩ := LogicalVolumeName.qualified_inj h
      exact ⟨rfl, rfl⟩

/-- The names of a field with one name determine the field. -/
theorem get_eq_of_names_eq {f : Field} (hf : f ∈ Field.objectNames) (h : q.names f = r.names f) :
    q.get f = r.get f := by
  have hgroup : Function.Injective VolumeGroupName.text := fun _ _ => VolumeGroupName.eq_of_text_eq
  have hvolume : Function.Injective LogicalVolumeName.text :=
    fun _ _ => LogicalVolumeName.eq_of_text_eq
  cases f with
  | volumeGroup | newVolumeGroup => exact toList_injective (List.map_injective_iff.mpr hgroup h)
  | logicalVolume | newLogicalVolume =>
    exact toList_injective (List.map_injective_iff.mpr hvolume h)
  | _ => exact absurd hf (by decide)

/-- A field with one name that holds something has one name. -/
theorem length_names_of_has {f : Field} (hf : f ∈ Field.objectNames) (h : r.has f = true) :
    (r.names f).length = 1 := by
  cases f with
  | volumeGroup | newVolumeGroup | logicalVolume | newLogicalVolume =>
    obtain ⟨name, hname⟩ := Option.isSome_iff_exists.mp h
    simp [names, hname]
  | _ => exact absurd hf (by decide)

/-- The names of the devices, each where it is given last, determine the devices up to
repetition. -/
theorem dedup_eq_of_names_eq
    (h : (q.names .physicalVolumes).dedup = (r.names .physicalVolumes).dedup) :
    q.physicalVolumes.dedup = r.physicalVolumes.dedup := by
  have hdevice : Function.Injective PhysicalVolumeName.text :=
    fun _ _ => PhysicalVolumeName.eq_of_text_eq
  rw [names, names, List.dedup_map_of_injective hdevice, List.dedup_map_of_injective hdevice] at h
  exact List.map_injective_iff.mpr hdevice h

end Request

/-! ## Commands whose names are of one kind -/

namespace Command

variable {c : Command} {r : Request}

/-- The commands that name a group and nothing else. -/
def onGroup : List Command := [.vgs, .vgremove, .vgchange]

/-- The commands that name a target and nothing else. -/
def onTarget : List Command := [.lvs, .lvremove, .lvreduce, .lvchange]

/-- The commands whose names are of one kind: a group, a target, the names of a rename, or devices;
and the edit of a devices file, which writes every name behind a flag. -/
def oneKind : List Command :=
  [.vgs, .vgremove, .vgrename, .vgchange, .lvs, .lvremove, .lvreduce, .lvrename, .lvchange, .pvs,
    .pvcreate, .pvremove, .pvresize, .pvchange, .pvmove, .devicesModify]

theorem cases_of_oneKind (h : c ∈ oneKind) :
    c ∈ onGroup ∨ c ∈ onTarget ∨ c = .vgrename ∨ c = .lvrename ∨ c ∈ onDevices ∨
      c = .devicesModify := by
  revert h
  cases c <;> decide

/-- The command has a part for the field that writes it under its flag. -/
def flagged (c : Command) (f : Field) : Bool :=
  f.flag?.isSome && c.layout.contains (.field f)

/-- The fields of a command that are told by the places of their names. -/
def placed (c : Command) : List Field := c.fields.filter fun f => !c.flagged f

/-- What the check makes sure of for the target of a command. -/
theorem anchored_of_onTarget (h : c ∈ onTarget) (hfault : c.fault? r = none) : r.Anchored := by
  have hreq : .given .volumeGroup ∈ c.requirements ∨ .volumeInGroup ∈ c.requirements := by
    revert h
    cases c <;> decide
  intro hnone
  rcases hreq with hgiven | hanchored
  · have hhas : r.volumeGroup.isSome = true := has_of_given hfault hgiven
    rw [hnone] at hhas
    cases hhas
  · have hmeets := fault?_eq_none_iff.mp hfault _ hanchored
    cases hvolume : r.logicalVolume with
    | none => rfl
    | some v => simp [Requirement.fault?, hnone, hvolume] at hmeets

theorem positionals_of_onGroup (h : c ∈ onGroup) :
    (c.render r .empty).positionals = r.names .volumeGroup := by
  have hput : ∀ p ∈ c.layout, p.appends = false := by
    revert h
    cases c <;> decide
  have hnames : c.layout.flatMap (Piece.names r) = r.names .volumeGroup := by
    simp only [onGroup, List.mem_cons, List.not_mem_nil, or_false] at h
    rcases h with rfl | rfl | rfl <;>
      simp [layout, ownLayout, reportPieces, commonPieces, Field.common, Piece.names]
  rw [positionals_render hput, hnames]
  cases hgroup : r.volumeGroup <;> simp [Request.names, hgroup]

theorem positionals_of_onTarget (h : c ∈ onTarget) :
    (c.render r .empty).positionals = r.target?.toList := by
  have hput : ∀ p ∈ c.layout, p.appends = false := by
    revert h
    cases c <;> decide
  have hnames : c.layout.flatMap (Piece.names r) = r.target?.toList := by
    simp only [onTarget, List.mem_cons, List.not_mem_nil, or_false] at h
    rcases h with rfl | rfl | rfl | rfl <;>
      simp [layout, ownLayout, reportPieces, commonPieces, Field.common, Piece.names]
  rw [positionals_render hput, hnames]
  cases r.target? <;> simp

theorem positionals_vgrename (r : Request) :
    (Command.vgrename.render r .empty).positionals =
      r.names .volumeGroup ++ r.names .newVolumeGroup := by
  rw [positionals_render_of_appends (by decide)]
  simp [layout, ownLayout, commonPieces, Field.common, Piece.names]

theorem positionals_lvrename (r : Request) :
    (Command.lvrename.render r .empty).positionals =
      r.names .volumeGroup ++ (r.names .logicalVolume ++ r.names .newLogicalVolume) := by
  rw [positionals_render_of_appends (by decide)]
  simp [layout, ownLayout, commonPieces, Field.common, Piece.names]

/-- The fields that are told by the places of their names, for each kind of command. -/
theorem placed_cases (c : Command) :
    (c ∈ onGroup → c.placed = [.volumeGroup]) ∧
      (c ∈ onTarget → c.placed = [.volumeGroup, .logicalVolume]) ∧
      (c ∈ onDevices → c.placed = [.physicalVolumes]) := by
  cases c <;> decide

variable {q : Request}

/-- A name that a command requires is one name in every request that passes the check. -/
theorem length_names_eq (hq : c.fault? q = none) (hr : c.fault? r = none) {f : Field}
    (hf : f ∈ Field.objectNames) (hgiven : .given f ∈ c.requirements) :
    (q.names f).length = (r.names f).length :=
  (Request.length_names_of_has hf (has_of_given hq hgiven)).trans
    (Request.length_names_of_has hf (has_of_given hr hgiven)).symm

/-- The names on two command lines determine the fields that are told by their places. -/
theorem essential_eq_of_placed (hc : c ∈ oneKind) (hq : c.fault? q = none) (hr : c.fault? r = none)
    (h : (c.render q .empty).positionals = (c.render r .empty).positionals) {f : Field}
    (hf : f ∈ c.placed) : Field.essential f (q.get f) = Field.essential f (r.get f) := by
  obtain ⟨hgroup, htarget, hdevices⟩ := c.placed_cases
  rcases cases_of_oneKind hc with hkind | hkind | rfl | rfl | hkind | rfl
  · -- A group alone.
    rw [positionals_of_onGroup hkind, positionals_of_onGroup hkind] at h
    rw [hgroup hkind, List.mem_singleton] at hf
    subst hf
    exact Request.get_eq_of_names_eq (by decide) h
  · -- A target: the group, or a volume in it.
    rw [positionals_of_onTarget hkind, positionals_of_onTarget hkind] at h
    obtain ⟨hsameGroup, hsameVolume⟩ := Request.eq_of_target?_eq (anchored_of_onTarget hkind hq)
      (anchored_of_onTarget hkind hr) (toList_injective h)
    rw [htarget hkind, List.mem_pair] at hf
    rcases hf with rfl | rfl
    · exact hsameGroup
    · exact hsameVolume
  · -- The two names of a group.
    rw [positionals_vgrename, positionals_vgrename] at h
    obtain ⟨hold, hnew⟩ := List.append_inj h (length_names_eq hq hr (by decide) (by decide))
    have hplaced : vgrename.placed = [.volumeGroup, .newVolumeGroup] := by decide
    rw [hplaced, List.mem_pair] at hf
    rcases hf with rfl | rfl
    · exact Request.get_eq_of_names_eq (by decide) hold
    · exact Request.get_eq_of_names_eq (by decide) hnew
  · -- A group, and the two names of a volume in it.
    rw [positionals_lvrename, positionals_lvrename] at h
    obtain ⟨hgroups, hvolumes⟩ := List.append_inj h (length_names_eq hq hr (by decide) (by decide))
    obtain ⟨hold, hnew⟩ :=
      List.append_inj hvolumes (length_names_eq hq hr (by decide) (by decide))
    have hplaced : lvrename.placed = [.volumeGroup, .logicalVolume, .newLogicalVolume] := by decide
    rw [hplaced, List.mem_cons, List.mem_pair] at hf
    rcases hf with rfl | rfl | rfl
    · exact Request.get_eq_of_names_eq (by decide) hgroups
    · exact Request.get_eq_of_names_eq (by decide) hold
    · exact Request.get_eq_of_names_eq (by decide) hnew
  · -- Devices.
    rw [positionals_of_onDevices hkind, positionals_of_onDevices hkind] at h
    rw [hdevices hkind, List.mem_singleton] at hf
    subst hf
    exact Request.dedup_eq_of_names_eq h
  · have hplaced : devicesModify.placed = [] := by decide
    rw [hplaced] at hf
    exact absurd hf List.not_mem_nil

end Command

/-- **The command line determines the request.** If two requests for a command whose names are of
one kind pass the check and are written as the same arguments, they agree on every field, up to what
is not written. -/
theorem FittingRequest.determined {c : Command} (hc : c ∈ Command.oneKind) (q r : FittingRequest c)
    (hq : c.fault? q.request = none) (hr : c.fault? r.request = none)
    (h : c.render q.request .empty = c.render r.request .empty) :
    q.request.Matches r.request := by
  intro f
  cases htakes : c.takes f with
  | false => rw [q.fits f htakes, r.fits f htakes]
  | true =>
    cases hflagged : c.flagged f with
    | true =>
      obtain ⟨hflag, hlayout⟩ := Bool.and_eq_true_iff.mp hflagged
      obtain ⟨key, hkey⟩ := Option.isSome_iff_exists.mp hflag
      have hp : .field f ∈ c.layout := List.contains_iff_mem.mp hlayout
      refine Request.essential_eq_of_tokens_eq hkey ?_
      rw [← Command.tokensOf_render hp hkey, ← Command.tokensOf_render hp hkey, h]
    | false =>
      have hplaced : f ∈ c.placed :=
        List.mem_filter.mpr ⟨Command.mem_fields_iff.mpr htakes, by simp [hflagged]⟩
      exact Command.essential_eq_of_placed hc hq hr (congrArg Arguments.positionals h) hplaced

/-! ## Two requests that are written alike -/

/-- The device that data is moved from. -/
def sourceDevice : PhysicalVolumeName := ⟨"/dev/sdf", by decide⟩

/-- The device that is named first of those that data is moved to. -/
def firstTarget : PhysicalVolumeName := ⟨"/dev/sdg", by decide⟩

/-- The device that is named last of those that data is moved to. -/
def lastTarget : PhysicalVolumeName := ⟨"/dev/sdh", by decide⟩

/-- Data is moved to two devices, one of which is given twice, under a profile without a name. -/
def wordyMove : FittingRequest .pvmove where
  request :=
    { physicalVolumes := [sourceDevice, lastTarget, firstTarget, lastTarget]
      common := { profile := some "" } }
  fits f hf := by
    cases f with
    | physicalVolumes | profile => cases hf
    | _ => rfl

/-- Data is moved to two devices. -/
def plainMove : FittingRequest .pvmove where
  request := { physicalVolumes := [sourceDevice, firstTarget, lastTarget] }
  fits f hf := by
    cases f with
    | physicalVolumes => cases hf
    | _ => rfl

/-- The two requests are different, are written alike, and match. -/
theorem moves_match : Command.pvmove ∈ Command.oneKind ∧
    Command.pvmove.fault? wordyMove.request = none ∧
    Command.pvmove.fault? plainMove.request = none ∧
    Command.pvmove.render wordyMove.request .empty =
      Command.pvmove.render plainMove.request .empty ∧
    wordyMove.request ≠ plainMove.request ∧ wordyMove.request.Matches plainMove.request := by
  have hkind : Command.pvmove ∈ Command.oneKind := by decide
  have hwordy : Command.pvmove.fault? wordyMove.request = none := by decide
  have hplain : Command.pvmove.fault? plainMove.request = none := by decide
  have halike : Command.pvmove.render wordyMove.request .empty =
      Command.pvmove.render plainMove.request .empty := by decide +kernel
  exact ⟨hkind, hwordy, hplain, halike, by decide,
    FittingRequest.determined hkind wordyMove plainMove hwordy hplain halike⟩

end LvmControl
