import LvmControl.Proofs.Client.Agreement
import LvmControl.Proofs.Report.Written
import LvmControl.Proofs.Request.Determined

/-!
# Lookups find what they are for

A lookup runs the command that lists groups or volumes, with the name of what is sought on its
command line, and then picks a row from the report. The name is thus used twice, and the rows of a
report need not be for it. This module says what is sought from the options and the context of a
call alone, and shows that the answer is the first row that carries all of its names, from both
clients: the one searches the whole report, and the other narrows its rows and takes the first.

## Main definitions

* `Sought`: what a lookup is for; `Sought.text` and `Sought.absent` are its name on a command line
  and the failure where it is not there.
* `Call.Seeks`: what a call looks up.
* `Sought.Answer`: the answer to a lookup from the rows of a report.
* `Call.Finds`: a lookup runs, and is answered, as it should be.

## Main statements

* `Host.picked_answer`, `Host.eq_picked_of_answer`: what is picked from a report is the answer, and
  there is no other.
* `Call.Seeks.rehearsal_eq_picked`: the client that rehearses picks from its data in the same way.
* `Call.finds`: every lookup runs, and is answered, as it should be.
-/

namespace LvmControl

/-! ## What is sought -/

/-- What a lookup is for. -/
inductive Sought
  /-- A volume group. -/
  | group (name : VolumeGroupName)
  /-- A logical volume in a group. -/
  | volume (owner : VolumeGroupName) (name : LogicalVolumeName)

namespace Sought

/-- The command that lists it. -/
def subcommand : Sought → String
  | .group _ => "vgs"
  | .volume _ _ => "lvs"

/-- Its name on a command line. -/
def text : Sought → String
  | .group name => name.text
  | .volume owner name => owner.text ++ "/" ++ name.text

/-- The failure where it is not there. -/
def absent : Sought → ClientError
  | .group name => .groupNotFound name.text
  | .volume owner name => .volumeNotFound (owner.text ++ "/" ++ name.text)

/-- The answer to a lookup from the rows of a report: the first row that carries the names of what
is sought, or that there is none. -/
inductive Answer (groups : List VolumeGroup) (volumes : List LogicalVolume) : Sought → Result → Prop
  | group {name : VolumeGroupName} {before after : List VolumeGroup} {row : VolumeGroup}
    (hrows : groups = before ++ row :: after) (hrow : row.name = name)
    (hbefore : ∀ r ∈ before, r.name ≠ name) : Answer groups volumes (.group name) (.ok (.group row))
  | noGroup {name : VolumeGroupName} (hnone : ∀ r ∈ groups, r.name ≠ name) :
    Answer groups volumes (.group name) (.error (Sought.group name).absent)
  | volume {owner : VolumeGroupName} {name : LogicalVolumeName} {before after : List LogicalVolume}
    {row : LogicalVolume} (hrows : volumes = before ++ row :: after)
    (hrow : row.name = name ∧ row.group = owner)
    (hbefore : ∀ r ∈ before, ¬ (r.name = name ∧ r.group = owner)) :
    Answer groups volumes (.volume owner name) (.ok (.volume row))
  | noVolume {owner : VolumeGroupName} {name : LogicalVolumeName}
    (hnone : ∀ r ∈ volumes, ¬ (r.name = name ∧ r.group = owner)) :
    Answer groups volumes (.volume owner name) (.error (Sought.volume owner name).absent)

/-- The data of a client that rehearses are the rows that a report has of what is sought. -/
def ShownBy (m : Rehearsal) (ss : List Section) : Sought → Prop
  | .group _ => m.groups = ss.flatMap Section.groups
  | .volume _ _ => m.volumes = ss.flatMap Section.volumes

end Sought

/-- What a call looks up: a group by the name that its options make or else by that of its context,
and a logical volume by its name in the group that is named in this way. -/
inductive Call.Seeks : Call → Sought → Prop
  | group {ctx : Context} {l : OptionList .vgs} {name : VolumeGroupName}
    (hname : l.aggregate.request.volumeGroup.or ctx.defaultGroup = some name) :
    Seeks ⟨.findGroup, ctx, l⟩ (.group name)
  | volume {ctx : Context} {l : OptionList .lvs} {owner : VolumeGroupName}
    {name : LogicalVolumeName}
    (howner : l.aggregate.request.volumeGroup.or ctx.defaultGroup = some owner)
    (hname : l.aggregate.request.logicalVolume = some name) :
    Seeks ⟨.findVolume, ctx, l⟩ (.volume owner name)

/-! ## Picking a row -/

namespace Host

/-- What is picked from the rows of groups is the answer. -/
theorem pickGroup_answer (name : VolumeGroupName) (groups : List VolumeGroup)
    (volumes : List LogicalVolume) :
    Sought.Answer groups volumes (.group name) ((pickGroup name groups).map .group) := by
  unfold pickGroup
  cases hfind : groups.find? fun row => row.name = name with
  | some row =>
    obtain ⟨hrow, before, after, hrows, hbefore⟩ := List.find?_eq_some_iff_append.mp hfind
    exact .group hrows (by simpa using hrow) fun r hr => by simpa using hbefore r hr
  | none => exact .noGroup fun r hr => by simpa using List.find?_eq_none.mp hfind r hr

/-- What is picked from the rows of volumes is the answer. -/
theorem pickVolume_answer (owner : VolumeGroupName) (name : LogicalVolumeName)
    (groups : List VolumeGroup) (volumes : List LogicalVolume) :
    Sought.Answer groups volumes (.volume owner name)
      ((pickVolume owner name volumes).map .volume) := by
  unfold pickVolume
  cases hfind : volumes.find? fun row => row.name = name && row.group = owner with
  | some row =>
    obtain ⟨hrow, before, after, hrows, hbefore⟩ := List.find?_eq_some_iff_append.mp hfind
    refine .volume hrows (by simpa using hrow) fun r hr hboth => ?_
    have hother := hbefore r hr
    simp [hboth] at hother
  | none => exact .noVolume fun r hr => by simpa using List.find?_eq_none.mp hfind r hr

/-- What is picked from the rows of a report for what is sought. -/
def picked (groups : List VolumeGroup) (volumes : List LogicalVolume) : Sought → Result
  | .group name => (pickGroup name groups).map .group
  | .volume owner name => (pickVolume owner name volumes).map .volume

/-- What is picked is the answer. -/
theorem picked_answer (groups : List VolumeGroup) (volumes : List LogicalVolume) (sought : Sought) :
    sought.Answer groups volumes (picked groups volumes sought) := by
  cases sought with
  | group name => exact pickGroup_answer name groups volumes
  | volume owner name => exact pickVolume_answer owner name groups volumes

/-- There is no other answer than what is picked. -/
theorem eq_picked_of_answer {groups : List VolumeGroup} {volumes : List LogicalVolume}
    {sought : Sought} {r : Result} (h : sought.Answer groups volumes r) :
    r = picked groups volumes sought := by
  cases h with
  | @group name before after row hrows hrow hbefore =>
    have hfind : groups.find? (fun row => row.name = name) = some row :=
      List.find?_eq_some_iff_append.mpr
        ⟨by simpa using hrow, before, after, hrows, by simpa using hbefore⟩
    rw [picked, pickGroup, hfind]
    rfl
  | @noGroup name hnone =>
    have hfind : groups.find? (fun row => row.name = name) = none :=
      List.find?_eq_none.mpr (by simpa using hnone)
    rw [picked, pickGroup, hfind]
    rfl
  | @volume owner name before after row hrows hrow hbefore =>
    have hfind : volumes.find? (fun row => row.name = name && row.group = owner) = some row :=
      List.find?_eq_some_iff_append.mpr
        ⟨by simpa using hrow, before, after, hrows, by simpa [imp_iff_not_or] using hbefore⟩
    rw [picked, pickVolume, hfind]
    rfl
  | @noVolume owner name hnone =>
    have hfind : volumes.find? (fun row => row.name = name && row.group = owner) = none :=
      List.find?_eq_none.mpr (by simpa using hnone)
    rw [picked, pickVolume, hfind]
    rfl

end Host

namespace Rehearsal

variable {r : Request} {owner : VolumeGroupName} {name : LogicalVolumeName}

/-- The first row of a listing that is narrowed to a group is the first row of this name. -/
theorem head?_listGroups (m : Rehearsal) (h : r.volumeGroup = some owner) :
    (m.listGroups r).head? = m.groups.find? fun row => row.name = owner := by
  rw [listGroups, List.head?_filter, h]
  rfl

/-- The first row of a listing that is narrowed to a volume is the first row of both its names. -/
theorem head?_listVolumes (m : Rehearsal) (howner : r.volumeGroup = some owner)
    (hname : r.logicalVolume = some name) :
    (m.listVolumes r).head? = m.volumes.find? fun row => row.name = name && row.group = owner := by
  rw [listVolumes, List.head?_filter, howner, hname]
  refine congrArg (List.find? · m.volumes) (funext fun row => ?_)
  exact Bool.and_comm ..

end Rehearsal

namespace Request

variable {r : Request} {owner : VolumeGroupName} {name : LogicalVolumeName}

/-- The listing of a group has its name on the command line. -/
theorem positionals_vgs (h : r.volumeGroup = some owner) :
    (Command.vgs.render r .empty).positionals = [owner.text] := by
  rw [Command.positionals_of_onGroup (by decide), names, h]
  rfl

/-- The listing of a volume has the name of its group and its own on the command line. -/
theorem positionals_lvs (howner : r.volumeGroup = some owner)
    (hname : r.logicalVolume = some name) :
    (Command.lvs.render r .empty).positionals = [name.qualified owner] := by
  rw [Command.positionals_of_onTarget (by decide), target?, howner, hname]
  rfl

end Request

namespace Call.Seeks

variable {call : Call} {sought : Sought} {ctx : Context} {l : OptionList .lvs}
  {owner : VolumeGroupName} {name : LogicalVolumeName}

theorem soughtVolume_eq (howner : l.aggregate.request.volumeGroup.or ctx.defaultGroup = some owner)
    (hname : l.aggregate.request.logicalVolume = some name) :
    soughtVolume ctx l = .ok (owner, name) :=
  soughtVolume_of_named (Option.or_eq_some_iff.mp howner) hname

/-- The request for the listing of a volume that is looked up has both its names. -/
theorem names_completed (h : soughtVolume ctx l = .ok (owner, name)) :
    (l.completed ctx.defaultGroup).volumeGroup = some owner ∧
      (l.completed ctx.defaultGroup).logicalVolume = some name := by
  simp only [soughtVolume] at h
  split at h
  · cases h
  · cases h
  · next howner hname =>
    cases h
    exact ⟨howner, hname⟩

/-- The request for the listing of a group that is looked up has its name. -/
theorem name_completed (l : OptionList .vgs) (owner : VolumeGroupName)
    (default : Option VolumeGroupName) :
    ((withGroup l owner).completed default).volumeGroup = some owner := by
  have hrequest : (withGroup l owner).aggregate.request.volumeGroup = some owner := by
    rw [withGroup, OptionList.aggregate_push]
    rfl
  rw [OptionList.completed, Command.withDefault_of_some hrequest, hrequest]

/-- The listing of what is looked up has its name, and no other, on the command line. -/
theorem positionals_of_runs (h : call.Seeks sought) {k : OptionList call.operation.command}
    (hruns : call.Runs k) :
    (call.operation.command.render (k.completed call.context.defaultGroup) .empty).positionals =
      [sought.text] := by
  cases h with
  | @group ctx l name hname =>
    have hlisted : k = withGroup l name := by
      cases hruns with
      | namedGroup hgiven =>
        rw [hgiven, Option.some_or] at hname
        cases hname
        rfl
      | defaultGroup hnone hdefault =>
        rw [hnone, Option.none_or, hdefault] at hname
        cases hname
        rfl
    rw [hlisted]
    exact Request.positionals_vgs (name_completed l name _)
  | @volume ctx l owner name howner hname =>
    obtain ⟨howner, hname⟩ := names_completed (soughtVolume_eq howner hname)
    cases hruns with
    | volume => exact Request.positionals_lvs howner hname

/-- A call that looks something up runs the command that lists it, by its name. -/
theorem arguments_eq (h : call.Seeks sought) {args : Arguments}
    (hargs : call.arguments = .ok args) :
    call.subcommand = sought.subcommand ∧ args.positionals = [sought.text] := by
  refine ⟨by cases h <;> rfl, ?_⟩
  rcases arguments_cases call with ⟨k, hruns, -, hlisting⟩ | ⟨e, -, herror⟩
  · rw [hargs] at hlisting
    rw [Except.ok.inj hlisting, h.positionals_of_runs hruns]
  · rw [hargs] at herror
    cases herror

/-- The client that runs the tools answers from the rows of the report, if the report can be
read. -/
theorem reply_eq (h : call.Seeks sought) (stdout : String) :
    Host.reply call stdout = ((Report.sections stdout).mapError .report).bind fun ss =>
      Host.picked (ss.flatMap Section.groups) (ss.flatMap Section.volumes) sought := by
  cases h with
  | @group ctx l name hname =>
    have hsought : soughtGroup? ctx l = some name := hname
    simp only [Host.reply, hsought, Report.volumeGroups]
    cases Report.sections stdout <;> rfl
  | @volume ctx l owner name howner hname =>
    simp only [Host.reply, soughtVolume_eq howner hname, Report.logicalVolumes]
    cases Report.sections stdout <;> rfl

/-- What is picked from a report is the reply. -/
theorem reply_of_sections (h : call.Seeks sought) {stdout : String} {ss : List Section}
    (hss : Report.sections stdout = .ok ss) :
    Host.reply call stdout =
      Host.picked (ss.flatMap Section.groups) (ss.flatMap Section.volumes) sought := by
  rw [h.reply_eq, hss]
  rfl

/-- The client that rehearses answers from its data. -/
theorem rehearsal_eq_picked (h : call.Seeks sought) (m : Rehearsal) :
    m.reply call = Host.picked m.groups m.volumes sought := by
  cases h with
  | @group ctx l name hname =>
    have hsought : soughtGroup? ctx l = some name := hname
    have hfirst := m.head?_listGroups (name_completed l name none)
    simp only [Rehearsal.reply, hsought, Host.picked, Host.pickGroup]
    rw [OptionList.completed_none] at hfirst
    rw [hfirst]
    cases m.groups.find? fun row => row.name = name <;> rfl
  | @volume ctx l owner name howner hname =>
    have hsought := soughtVolume_eq howner hname
    obtain ⟨howner, hname⟩ := names_completed hsought
    have hfirst : (m.listVolumes (@OptionList.completed Operation.findVolume.command l
        ctx.defaultGroup)).head? =
          m.volumes.find? fun row => row.name = name && row.group = owner :=
      m.head?_listVolumes howner hname
    simp only [Rehearsal.reply, hsought, Host.picked, Host.pickVolume]
    rw [hfirst]
    cases m.volumes.find? fun row => row.name = name && row.group = owner <;> rfl

end Call.Seeks

/-! ## Lookups -/

namespace Call

/-- A lookup of something runs, and is answered, as it should be. -/
structure Finds (host : Host) (defaults : Defaults) (call : Call) (sought : Sought) : Prop where
  /-- A lookup that is refused is refused by both clients. -/
  refused : ∀ e, host.invocation defaults call = .error e →
    (∀ supervise, host.result defaults call supervise = (some (.error (.validation e)), none)) ∧
      ∀ m fired, Rehearsal.perform m defaults fired call = (.error (.validation e), m)
  /-- Otherwise the tool is run to list what is sought, and no other name is on the command line. -/
  lists : ∀ inv, host.invocation defaults call = .ok inv →
    ∃ args : Arguments, args.positionals = [sought.text] ∧
      inv = host.launcher.build defaults call.context host.tool (sought.subcommand :: args.tokens)
  /-- A report that cannot be read is no answer. -/
  unreadable : ∀ inv supervise output e, host.invocation defaults call = .ok inv →
    (supervise inv).outcome = some (.ok output) → Report.sections output.stdout = .error e →
    (host.result defaults call supervise).1 = some (.error (.report e))
  /-- The answer is found in the rows of the report. -/
  found : ∀ inv supervise output ss, host.invocation defaults call = .ok inv →
    (supervise inv).outcome = some (.ok output) → Report.sections output.stdout = .ok ss →
    ∃ r, sought.Answer (ss.flatMap Section.groups) (ss.flatMap Section.volumes) r ∧
      (host.result defaults call supervise).1 = some r
  /-- Nothing is found but in a report that can be read, of a tool that succeeded. -/
  found_only : ∀ supervise reply, (host.result defaults call supervise).1 = some (.ok reply) →
    ∃ inv output ss, host.invocation defaults call = .ok inv ∧
      (supervise inv).outcome = some (.ok output) ∧ Report.sections output.stdout = .ok ss
  /-- A rehearsal with the rows of the report gives the same answer, unless it is told to fail. -/
  rehearsed : ∀ inv supervise output ss m fired, host.invocation defaults call = .ok inv →
    (supervise inv).outcome = some (.ok output) → Report.sections output.stdout = .ok ss →
    sought.ShownBy m ss → m.failure? fired call = none →
    (host.result defaults call supervise).1 = some (m.perform defaults fired call).1

variable {host : Host} {defaults : Defaults} {call : Call} {sought : Sought}

/-- The invocation of a call is built from its arguments. -/
theorem exists_arguments_of_invocation {inv : Invocation}
    (h : host.invocation defaults call = .ok inv) :
    ∃ args, call.arguments = .ok args ∧ host.launcher.build defaults call.context host.tool
      (call.subcommand :: args.tokens) = inv :=
  Report.map_eq_ok_iff.mp h

/-- A call is refused because of its arguments. -/
theorem arguments_of_refusal {e : ValidationError} (h : host.invocation defaults call = .error e) :
    call.arguments = .error e := by
  cases hargs : call.arguments with
  | error f =>
    rw [Host.invocation, hargs] at h
    exact congrArg Except.error (Except.error.inj h)
  | ok args =>
    rw [Host.invocation, hargs] at h
    cases h

/-- The result of a call whose tool succeeded is what the output means. -/
theorem result_of_output {inv : Invocation} {supervise : Invocation → Fate} {output : Output}
    (h : host.invocation defaults call = .ok inv)
    (houtcome : (supervise inv).outcome = some (.ok output)) :
    (host.result defaults call supervise).1 = some (Host.reply call output.stdout) := by
  rw [Host.result, h]
  simp only [houtcome]
  rfl

/-- A call succeeds only with a tool that succeeded, and only if its output has a meaning. -/
theorem exists_output_of_result {supervise : Invocation → Fate} {reply : Reply}
    (h : (host.result defaults call supervise).1 = some (.ok reply)) :
    ∃ inv output, host.invocation defaults call = .ok inv ∧
      (supervise inv).outcome = some (.ok output) ∧ Host.reply call output.stdout = .ok reply := by
  cases hinv : host.invocation defaults call with
  | error e =>
    rw [Host.result, hinv] at h
    cases h
  | ok inv =>
    rw [Host.result, hinv] at h
    obtain ⟨outcome, houtcome, hresult⟩ := Option.map_eq_some_iff.mp h
    cases outcome with
    | error e => cases hresult
    | ok output => exact ⟨inv, output, rfl, houtcome, hresult⟩

/-- **Lookups.** Every call that looks something up runs, and is answered, as it should be. -/
theorem finds (host : Host) (defaults : Defaults) (h : call.Seeks sought) :
    call.Finds host defaults sought where
  refused e he := by
    refine ⟨fun supervise => ?_, fun m fired => ?_⟩
    · rw [Host.result, he]
    · rw [Rehearsal.perform, arguments_of_refusal he]
  lists inv hinv := by
    obtain ⟨args, hargs, rfl⟩ := exists_arguments_of_invocation hinv
    obtain ⟨hsubcommand, hpositionals⟩ := h.arguments_eq hargs
    exact ⟨args, hpositionals, by rw [hsubcommand]⟩
  unreadable inv supervise output e hinv houtcome hss := by
    rw [result_of_output hinv houtcome, h.reply_eq, hss]
    rfl
  found inv supervise output ss hinv houtcome hss :=
    ⟨_, Host.picked_answer _ _ sought, by
      rw [result_of_output hinv houtcome, h.reply_of_sections hss]⟩
  found_only supervise reply hresult := by
    obtain ⟨inv, output, hinv, houtcome, hreply⟩ := exists_output_of_result hresult
    rw [h.reply_eq] at hreply
    obtain ⟨ss, hss, -⟩ := Report.bind_eq_ok_iff.mp hreply
    exact ⟨inv, output, ss, hinv, houtcome, Report.mapError_eq_ok_iff.mp hss⟩
  rehearsed inv supervise output ss m fired hinv houtcome hss hshown hfailure := by
    obtain ⟨args, hargs, -⟩ := exists_arguments_of_invocation hinv
    have hperform : (m.perform defaults fired call).1 = m.reply call := by
      simp only [Rehearsal.perform, hargs, Rehearsal.resultOf, hfailure]
    rw [result_of_output hinv houtcome, h.reply_of_sections hss, hperform, h.rehearsal_eq_picked]
    cases sought with
    | group name => rw [Host.picked, Host.picked, show m.groups = _ from hshown]
    | volume owner name => rw [Host.picked, Host.picked, show m.volumes = _ from hshown]

/-! ## A lookup among volumes of one name -/

/-- The group whose volume is looked up. -/
def depot : VolumeGroupName := Report.rootVolume.group

/-- Another group. -/
def attic : VolumeGroupName := ⟨"attic", by decide⟩

/-- The name of a volume in each of the two groups. -/
def mirror : LogicalVolumeName := ⟨"mirror", by decide⟩

/-- The lookup of a volume in the default group. -/
def mirrorLookup : Call where
  operation := .findVolume
  context := { defaultGroup := some depot }
  options := (OptionList.empty .lvs).push (.setting (.logicalVolume mirror) rfl)

/-- The volume of this name in the group, as a report with no more than names shows it. -/
def mirrorIn (owner : VolumeGroupName) : LogicalVolume where
  name := mirror
  group := owner
  uuid := ""
  attr := ""
  size := 0
  path := ""
  active := false
  tags := []

/-- A report that has the volume of the other group first. -/
def mirrorReport : Json :=
  .ofMembers [("report", .array [.ofMembers [("lv", .array [
    .ofMembers [("lv_name", .string "mirror"), ("vg_name", .string "attic")],
    .ofMembers [("lv_name", .string "mirror"), ("vg_name", .string "depot")]])]])]

/-- The text of that report. -/
def mirrorText : String :=
  "\x7b\x22report\x22:[\x7b\x22lv\x22:[
    \x7b\x22lv_name\x22:\x22mirror\x22, \x22vg_name\x22:\x22attic\x22\x7d,
    \x7b\x22lv_name\x22:\x22mirror\x22, \x22vg_name\x22:\x22depot\x22\x7d]\x7d]\x7d"

/-- The report shows two volumes of the name. -/
theorem sections_mirrorText :
    Report.sections mirrorText = .ok [⟨[], [mirrorIn attic, mirrorIn depot], []⟩] := by
  have hread : Json.read mirrorText = ⟨mirrorReport, true⟩ :=
    (Report.read_of_toList String.toList_ofList).trans (by with_unfolding_all rfl)
  rw [Report.sections, hread]
  decide +kernel

/-- The volume of the default group is found, though it comes second. -/
theorem mirror_found_behind_namesake :
    mirrorLookup.Seeks (.volume depot mirror) ∧
      mirrorLookup.Finds directHost {} (.volume depot mirror) ∧
      ∃ inv, directHost.invocation {} mirrorLookup = .ok inv ∧
        ∀ supervise output, (supervise inv).outcome = some (.ok output) →
          output.stdout = mirrorText → (directHost.result {} mirrorLookup supervise).1 =
            some (.ok (.volume (mirrorIn depot))) := by
  have hseeks : mirrorLookup.Seeks (.volume depot mirror) := .volume rfl rfl
  have hfinds := finds directHost {} hseeks
  refine ⟨hseeks, hfinds, ?_⟩
  cases hinv : directHost.invocation {} mirrorLookup with
  | error e =>
    have haccepted : (directHost.invocation {} mirrorLookup).toBool = true := by decide +kernel
    rw [hinv] at haccepted
    cases haccepted
  | ok inv =>
    refine ⟨inv, rfl, fun supervise output houtcome hstdout => ?_⟩
    obtain ⟨r, hanswer, hresult⟩ := hfinds.found inv supervise output _ hinv houtcome
      (hstdout ▸ sections_mirrorText)
    rw [hresult, Host.eq_picked_of_answer hanswer]
    decide +kernel

end Call

end LvmControl
