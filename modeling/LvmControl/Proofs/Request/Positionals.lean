import LvmControl.Proofs.Request.Flags
import Mathlib.Data.List.Dedup

/-!
# What a command line names, and in which order

Some commands name a target, which is a group or a logical volume in its group, and then devices.
The tool takes the first name as the target, so the order of the names is what the command does.

## Main definitions

* `Arguments.positionals`: the tokens without a dash in front.
* `Command.onDevices`: the commands that name devices and nothing else.
* `Command.placing`: the commands that name a target and devices.
* `Command.subject?`: the target of a request.

## Main statements

* `Arguments.foldl_moveToEnd`: of names put one after another each stands where it was put last.
* `Command.positionals_render`, `Command.positionals_render_of_appends`: the names on a command
  line, in order.
* `Line.target_leads_iff`: the target stands first, and the devices behind it, unless a device is
  given by the same text.
* `displaced_target`: a group that is created under the name of one of its devices.

## Design notes

**Names are put, not appended.** A name takes the place of an equal one, so that a device that is
given twice is named once. The name of the target is put in the same way, and a device with this
name takes it to the place of the device. Only the names of a rename are appended.
-/

namespace LvmControl

/-! ## Names on a command line -/

namespace Arguments

variable {args : Arguments} {t : String}

/-- The tokens without a dash in front, in order. -/
def positionals (args : Arguments) : List String := args.tokens.filter fun t => ¬ IsFlag t

/-- A list of names with one more, in place of an equal one. -/
def moveToEnd (names : List String) (name : String) : List String :=
  names.filter (· ≠ name) ++ [name]

/-- Putting a name moves it to the end of the names. -/
theorem positionals_put (h : ¬ IsFlag t) :
    (args.put t).positionals = moveToEnd args.positionals t := by
  have hfilter : (args.remove (flagKey t)).positionals = args.positionals.filter (· ≠ t) := by
    rw [positionals, positionals, remove, flagKey_of_not_isFlag h, List.filter_filter,
      List.filter_filter]
    refine List.filter_congr fun u _ => ?_
    by_cases hu : IsFlag u
    · simp [hu]
    · simp [hu, flagKey_of_not_isFlag hu]
  have hsingle : [t].filter (fun u => ¬ IsFlag u) = [t] := by simp [h]
  rw [moveToEnd, ← hfilter]
  show ((args.remove (flagKey t)).tokens ++ [t]).filter _ = _
  rw [List.filter_append, hsingle]
  rfl

/-- Writing flags leaves the names as they are. -/
theorem positionals_applyAll_of_block {key : String} {es : List Edit} (hkey : IsFlag key)
    (h : Edit.Block key es) : (args.applyAll es).positionals = args.positionals := by
  rcases h with rfl | ⟨ts, rfl, hts⟩
  · rfl
  · have hflags : ts.filter (fun u => ¬ IsFlag u) = [] := by
      refine List.filter_eq_nil_iff.mpr fun u hu => ?_
      have hflag : IsFlag u := isFlag_of_flagKey (by rwa [hts u hu])
      simp [hflag]
    have hothers : (args.remove key).positionals = args.positionals := by
      rw [positionals, positionals, remove, List.filter_filter]
      refine List.filter_congr fun u _ => ?_
      by_cases hu : IsFlag u
      · simp [hu]
      · have hne : flagKey u ≠ key := by
          rintro rfl
          exact hu (isFlag_of_flagKey hkey)
        simp [hne]
    show ((args.remove key).tokens ++ ts).filter _ = _
    rw [List.filter_append, hflags, List.append_nil]
    exact hothers

/-- Putting names one after another moves each of them to the end. -/
theorem positionals_applyAll_put {names : List String} (h : ∀ t ∈ names, ¬ IsFlag t) :
    (args.applyAll (names.map .put)).positionals = names.foldl moveToEnd args.positionals := by
  induction names generalizing args with
  | nil => rfl
  | cons t names ih =>
    have htail : ∀ u ∈ names, ¬ IsFlag u := fun u hu => h u (List.mem_cons_of_mem _ hu)
    rw [List.map_cons, applyAll_cons, Edit.apply_put, ih htail,
      positionals_put (h t List.mem_cons_self), List.foldl_cons]

/-- Appending names puts them behind those that are there. -/
theorem positionals_applyAll_append {names : List String} (h : ∀ t ∈ names, ¬ IsFlag t) :
    (args.applyAll (names.map .append)).positionals = args.positionals ++ names := by
  induction names generalizing args with
  | nil => exact (List.append_nil _).symm
  | cons t names ih =>
    have htail : ∀ u ∈ names, ¬ IsFlag u := fun u hu => h u (List.mem_cons_of_mem _ hu)
    have hhead : (args.apply (.append t)).positionals = args.positionals ++ [t] := by
      show (args.tokens ++ [t]).filter _ = _
      simp [positionals, h t List.mem_cons_self]
    rw [List.map_cons, applyAll_cons, ih htail, hhead, List.append_assoc, List.singleton_append]

/-- Of names moved to the end one after another each stands where it was moved last, behind those
that were not moved. -/
theorem foldl_moveToEnd (names before : List String) :
    names.foldl moveToEnd before = before.filter (· ∉ names) ++ names.dedup := by
  induction names generalizing before with
  | nil => simp
  | cons t names ih =>
    have hbefore : (before.filter (· ≠ t)).filter (· ∉ names) = before.filter (· ∉ t :: names) := by
      rw [List.filter_filter]
      refine List.filter_congr fun u _ => ?_
      simp [Bool.and_comm]
    rw [List.foldl_cons, ih, moveToEnd, List.filter_append, hbefore, List.append_assoc]
    by_cases ht : t ∈ names
    · simp [ht, List.dedup_cons_of_mem ht]
    · simp [ht, List.dedup_cons_of_notMem ht]

end Arguments

namespace Piece

variable {r : Request} {p : Piece}

/-- A part with a flag writes no names. -/
theorem names_of_flag {key : String} (h : p.flag? = some key) : p.names r = [] := by
  cases p with
  | field f =>
    cases f with
    | volumeGroup | physicalVolumes => cases h
    | _ => rfl
  | flag token => rfl
  | target | positional f => cases h

/-- What one part does to the names on a command line. -/
theorem positionals_applyAll_edits (hflag : ∀ key, p.flag? = some key → IsFlag key)
    (hput : p.appends = false) (args : Arguments) :
    (args.applyAll (p.edits r)).positionals =
      (p.names r).foldl Arguments.moveToEnd args.positionals := by
  cases hkey : p.flag? with
  | some key =>
    rw [names_of_flag hkey, Arguments.positionals_applyAll_of_block (hflag key hkey)
      (edits_of_flag hkey)]
    rfl
  | none =>
    rw [edits_of_put hkey hput]
    exact Arguments.positionals_applyAll_put fun t ht => (mem_names_cases ht).2

/-- Parts that append nothing move the names that they write to the end, one after another. -/
theorem positionals_applyAll {ps : List Piece}
    (hflag : ∀ p ∈ ps, ∀ key, p.flag? = some key → IsFlag key)
    (hput : ∀ p ∈ ps, p.appends = false) (args : Arguments) :
    (args.applyAll (ps.flatMap (edits r))).positionals =
      (ps.flatMap (names r)).foldl Arguments.moveToEnd args.positionals := by
  induction ps generalizing args with
  | nil => rfl
  | cons p ps ih =>
    have hhead := positionals_applyAll_edits (r := r) (hflag p List.mem_cons_self)
      (hput p List.mem_cons_self) args
    have htail := ih (fun q hq => hflag q (List.mem_cons_of_mem _ hq))
      fun q hq => hput q (List.mem_cons_of_mem _ hq)
    rw [List.flatMap_cons, List.flatMap_cons, Arguments.applyAll_append, htail, hhead,
      List.foldl_append]

/-- A part that appends its names puts them behind those that are there, as does a part that has
none. -/
theorem positionals_applyAll_edits_of_appends (hflag : ∀ key, p.flag? = some key → IsFlag key)
    (happend : p.flag? = none → p.appends = true) (args : Arguments) :
    (args.applyAll (p.edits r)).positionals = args.positionals ++ p.names r := by
  cases hkey : p.flag? with
  | some key =>
    rw [names_of_flag hkey, List.append_nil]
    exact Arguments.positionals_applyAll_of_block (hflag key hkey) (edits_of_flag hkey)
  | none =>
    have hedits : p.edits r = (p.names r).map .append := by
      have happends := happend hkey
      cases p with
      | positional f => rfl
      | _ => cases happends
    rw [hedits]
    exact Arguments.positionals_applyAll_append fun t ht => (mem_names_cases ht).2

/-- Parts that put nothing append the names that they write, one after another. -/
theorem positionals_applyAll_of_appends {ps : List Piece}
    (hflag : ∀ p ∈ ps, ∀ key, p.flag? = some key → IsFlag key)
    (happend : ∀ p ∈ ps, p.flag? = none → p.appends = true) (args : Arguments) :
    (args.applyAll (ps.flatMap (edits r))).positionals =
      args.positionals ++ ps.flatMap (names r) := by
  induction ps generalizing args with
  | nil => exact (List.append_nil _).symm
  | cons p ps ih =>
    have hhead := positionals_applyAll_edits_of_appends (r := r) (hflag p List.mem_cons_self)
      (happend p List.mem_cons_self) args
    have htail := ih (fun q hq => hflag q (List.mem_cons_of_mem _ hq))
      fun q hq => happend q (List.mem_cons_of_mem _ hq)
    rw [List.flatMap_cons, List.flatMap_cons, Arguments.applyAll_append, htail, hhead,
      List.append_assoc]

end Piece

namespace Command

variable {c : Command} {r : Request}

/-- The flag of a part of a command line starts with a dash. -/
theorem isFlag_of_mem_layout {p : Piece} (hp : p ∈ c.layout) {key : String}
    (hkey : p.flag? = some key) : IsFlag key :=
  (isLongFlag_of_mem_flags (mem_flags_of_flag hp hkey)).isFlag

/-- The names on a command line that appends none are those that its parts write, each where it is
written last. -/
theorem positionals_render (hput : ∀ p ∈ c.layout, p.appends = false) :
    (c.render r .empty).positionals = (c.layout.flatMap (Piece.names r)).dedup := by
  rw [render, edits, Piece.positionals_applyAll (fun p hp _ => isFlag_of_mem_layout hp) hput,
    Arguments.foldl_moveToEnd]
  rfl

/-- The names on a command line that puts none are those that its parts write. -/
theorem positionals_render_of_appends
    (happend : ∀ p ∈ c.layout, p.flag? = none → p.appends = true) :
    (c.render r .empty).positionals = c.layout.flatMap (Piece.names r) := by
  rw [render, edits,
    Piece.positionals_applyAll_of_appends (fun p hp _ => isFlag_of_mem_layout hp) happend]
  rfl

end Command

/-! ## Devices alone -/

namespace Command

variable {c : Command} {r : Request}

/-- The commands that name devices and nothing else. -/
def onDevices : List Command := [.pvs, .pvcreate, .pvremove, .pvresize, .pvchange, .pvmove]

/-- Such a command writes the names of its devices and no others. -/
theorem flatMap_names_of_onDevices (h : c ∈ onDevices) :
    (∀ p ∈ c.layout, p.appends = false) ∧
      c.layout.flatMap (Piece.names r) = r.names .physicalVolumes := by
  simp only [onDevices, List.mem_cons, List.not_mem_nil, or_false] at h
  rcases h with rfl | rfl | rfl | rfl | rfl | rfl <;> refine ⟨by decide, ?_⟩
  all_goals simp [layout, ownLayout, reportPieces, commonPieces, Field.common, Piece.names]

/-- The names on the command line of such a command are those of its devices, each where it is given
last. -/
theorem positionals_of_onDevices (h : c ∈ onDevices) :
    (c.render r .empty).positionals = (r.names .physicalVolumes).dedup := by
  obtain ⟨hput, hnames⟩ := flatMap_names_of_onDevices (r := r) h
  rw [positionals_render hput, hnames]

end Command

/-! ## A target and devices -/

/-- What a logical volume command addresses is the volume in its group if both are named. -/
theorem Request.target?_of_qualified? {r : Request} {target : String}
    (h : r.qualified? = some target) : r.target? = some target := by
  obtain ⟨group, hgroup, hmap⟩ := Option.bind_eq_some_iff.mp h
  obtain ⟨volume, hvolume, rfl⟩ := Option.map_eq_some_iff.mp hmap
  simp [target?, hgroup, hvolume]

namespace Command

variable {c : Command} {r : Request}

/-- The commands that name a target and devices. -/
def placing : List Command := [.vgcreate, .vgextend, .vgreduce, .lvcreate, .lvextend, .lvresize]

/-- The target of a request: the logical volume in its group if the command grows or shrinks one,
and else the group. -/
def subject? (c : Command) (r : Request) : Option String :=
  match c with
  | .lvextend => r.qualified?
  | .lvresize => r.qualified?
  | _ => r.volumeGroup.map VolumeGroupName.text

/-- A command with a target and devices appends no names, and requires what its target is made
of. -/
theorem cases_of_placing (h : c ∈ placing) :
    (∀ p ∈ c.layout, p.appends = false) ∧ .given .volumeGroup ∈ c.requirements ∧
      (c = .lvextend ∨ c = .lvresize → .given .logicalVolume ∈ c.requirements) := by
  revert h
  cases c <;> decide

/-- Such a command writes its target first and then the devices. -/
theorem flatMap_names_of_placing (h : c ∈ placing) {target : String}
    (htarget : c.subject? r = some target) :
    c.layout.flatMap (Piece.names r) = target :: r.names .physicalVolumes := by
  cases c with
  | vgcreate | vgextend | vgreduce | lvcreate =>
    have hnames : r.names .volumeGroup = [target] := by
      have hgroup : r.volumeGroup.map VolumeGroupName.text = some target := htarget
      rw [Request.names, ← Option.toList_map, hgroup]
      rfl
    simp [layout, ownLayout, commonPieces, Field.common, Piece.names, hnames]
  | lvextend | lvresize =>
    have hnames : r.target? = some target := Request.target?_of_qualified? htarget
    simp [layout, ownLayout, commonPieces, Field.common, Piece.names, hnames]
  | _ => exact absurd h (by decide)

end Command

namespace Line

variable {l : Line}

/-- An accepted command line with a target and devices has a target. -/
theorem exists_subject (h : l.command ∈ Command.placing) :
    ∃ target, l.command.subject? l.request = some target := by
  obtain ⟨-, hgroup, hvolume⟩ := Command.cases_of_placing h
  obtain ⟨group, hgroup⟩ := Option.isSome_iff_exists.mp (l.has_of_given hgroup)
  by_cases hcommand : l.command = .lvextend ∨ l.command = .lvresize
  · obtain ⟨volume, hvolume⟩ := Option.isSome_iff_exists.mp (l.has_of_given (hvolume hcommand))
    refine ⟨volume.qualified group, ?_⟩
    rcases hcommand with hc | hc <;>
      simp [hc, Command.subject?, Request.qualified?, hgroup, hvolume]
  · obtain ⟨hextend, hresize⟩ := not_or.mp hcommand
    refine ⟨group.text, ?_⟩
    rw [Command.subject?, hgroup]
    · rfl
    · exact hextend
    · exact hresize

/-- The names on a command line with a target and devices: each where it is written last. -/
theorem positionals_eq (h : l.command ∈ Command.placing) {target : String}
    (htarget : l.command.subject? l.request = some target) :
    l.args.positionals = (target :: l.request.names .physicalVolumes).dedup := by
  rw [← l.accepted_iff.2, Command.positionals_render (Command.cases_of_placing h).1,
    Command.flatMap_names_of_placing h htarget]

/-- **The target leads**, and every device follows once, exactly if no device is given by the text
of the target. Otherwise the target stands among the devices, in the place of that device. -/
theorem target_leads_iff (l : Line) (h : l.command ∈ Command.placing) :
    ∃ target, l.command.subject? l.request = some target ∧
      (l.args.positionals = target :: (l.request.names .physicalVolumes).dedup ↔
        target ∉ l.request.names .physicalVolumes) ∧
      (target ∈ l.request.names .physicalVolumes →
        l.args.positionals = (l.request.names .physicalVolumes).dedup) := by
  obtain ⟨target, htarget⟩ := exists_subject h
  have hpositionals := positionals_eq h htarget
  refine ⟨target, htarget, ⟨fun hleads hmem => ?_, fun hnot => ?_⟩, fun hmem => ?_⟩
  · rw [hpositionals, List.dedup_cons_of_mem hmem] at hleads
    exact List.ne_cons_self hleads
  · rw [hpositionals, List.dedup_cons_of_notMem hnot]
  · rw [hpositionals, List.dedup_cons_of_mem hmem]

end Line

/-! ## A target that keeps its place, and one that does not -/

/-- A logical volume grows onto two devices, one of which is given twice. -/
def growthLine : Line where
  command := .lvextend
  options := ⟨[.setting (.volumeGroup ⟨"store", by decide⟩) rfl,
    .setting (.logicalVolume ⟨"media", by decide⟩) rfl,
    .setting (.size ⟨8388608, by decide⟩) rfl,
    .setting (.physicalVolumes [⟨"/dev/sde", by decide⟩, ⟨"/dev/sdd", by decide⟩,
      ⟨"/dev/sde", by decide⟩]) rfl]⟩
  default := none
  args := ⟨["--size=8388608b", "store/media", "/dev/sdd", "/dev/sde", "--yes"]⟩
  accepted := by decide +kernel

/-- The volume stands first and each device follows once. -/
theorem growth_names : growthLine.command ∈ Command.placing ∧
    growthLine.args.positionals = ["store/media", "/dev/sdd", "/dev/sde"] := by
  have hplacing : growthLine.command ∈ Command.placing := by decide
  obtain ⟨target, htarget, hleads, -⟩ := growthLine.target_leads_iff hplacing
  obtain rfl : "store/media" = target := Option.some.inj htarget
  have hdevices :
      growthLine.request.names .physicalVolumes = ["/dev/sde", "/dev/sdd", "/dev/sde"] := rfl
  have hnot : "store/media" ∉ growthLine.request.names .physicalVolumes := by
    rw [hdevices]
    decide
  refine ⟨hplacing, (hleads.mpr hnot).trans ?_⟩
  rw [hdevices]
  decide

/-- A group is created on two devices, one of which is given by the name of the group. -/
def displacedLine : Line where
  command := .vgcreate
  options := ⟨[.setting (.volumeGroup ⟨"store", by decide⟩) rfl,
    .setting (.physicalVolumes [⟨"/dev/sdd", by decide⟩, ⟨"store", by decide⟩]) rfl]⟩
  default := none
  args := ⟨["/dev/sdd", "store", "--yes"]⟩
  accepted := by decide +kernel

/-- The first name on the command line is a device in place of the group that is to be created. -/
theorem displaced_target : displacedLine.command ∈ Command.placing ∧
    displacedLine.command.subject? displacedLine.request = some "store" ∧
    displacedLine.args.positionals = ["/dev/sdd", "store"] ∧
    displacedLine.args.positionals ≠
      "store" :: (displacedLine.request.names .physicalVolumes).dedup := by
  have hdevices : displacedLine.request.names .physicalVolumes = ["/dev/sdd", "store"] := rfl
  refine ⟨by decide, rfl, by decide, ?_⟩
  rw [hdevices]
  decide

end LvmControl
