import LvmControl.Client.Host
import LvmControl.Client.Rehearsal
import LvmControl.Proofs.Request.DefaultGroup

/-!
# The client that rehearses and the client that runs the tools

Users test their programs against the client that only keeps records, and then run them with the one
that starts processes. What is recorded must therefore be what would be run. This module says from
the options and the context of a call alone which options it runs and when it is refused, and shows
that both clients do just that: they refuse the same calls for the same reason, and otherwise the
record holds the arguments, the environment and the limits of the process that is started.

## Main definitions

* `Call.Runs`: the options that a call runs.
* `Call.Refuses`: why a call is refused.
* `Call.BothRefuse`, `Call.BothRun`: what the two clients do with a call.

## Main statements

* `Call.arguments_cases`: a call runs options that pass the check, or is refused.
* `Call.agreement`: the two clients refuse a call alike or run it alike.

## Design notes

**Lookups name what they look up.** A lookup is the operation in which the two clients could differ,
since the name comes from the options or from the context. `Call.Runs` gives the cases one by one
and does not mention how either client finds the name.
-/

namespace LvmControl

variable {ctx : Context}

/-! ## What an operation runs -/

namespace Call

/-- The options that a call runs. -/
inductive Runs : (call : Call) → OptionList call.operation.command → Prop
  /-- A command runs with its own options. -/
  | run {c : Command} {ctx : Context} (l : OptionList c) : Runs ⟨.run c, ctx, l⟩ l
  /-- Looking up the group that the options name lists this group. -/
  | namedGroup {ctx : Context} {l : OptionList .vgs} {name : VolumeGroupName}
      (hname : l.aggregate.request.volumeGroup = some name) :
      Runs ⟨.findGroup, ctx, l⟩ (l.push (.setting (.volumeGroup name) rfl))
  /-- If the options name no group, looking up a group lists the default one. -/
  | defaultGroup {ctx : Context} {l : OptionList .vgs} {name : VolumeGroupName}
      (hnone : l.aggregate.request.volumeGroup = none) (hdefault : ctx.defaultGroup = some name) :
      Runs ⟨.findGroup, ctx, l⟩ (l.push (.setting (.volumeGroup name) rfl))
  /-- Looking up a logical volume lists it in the group that the options name or else the default
  one. -/
  | volume {ctx : Context} {l : OptionList .lvs} {group : VolumeGroupName}
      {name : LogicalVolumeName}
      (hgroup : l.aggregate.request.volumeGroup = some group ∨
        l.aggregate.request.volumeGroup = none ∧ ctx.defaultGroup = some group)
      (hname : l.aggregate.request.logicalVolume = some name) :
      Runs ⟨.findVolume, ctx, l⟩ l

/-- Why a call is refused. -/
inductive Refuses : Call → ValidationError → Prop
  /-- The options that it runs do not pass the check. -/
  | invalid {call : Call} {l : OptionList call.operation.command} {e : ValidationError}
      (hruns : call.Runs l)
      (hfault : call.operation.command.fault? (l.completed call.context.defaultGroup) = some e) :
      Refuses call e
  /-- Nobody names the group that is looked up. -/
  | noGroup {ctx : Context} {l : OptionList .vgs}
      (hgroup : l.aggregate.request.volumeGroup = none) (hdefault : ctx.defaultGroup = none) :
      Refuses ⟨.findGroup, ctx, l⟩ (.missing "vgs" "VolumeGroupName")
  /-- Nobody names the group of a logical volume that is looked up. The default group counts only if
  the volume is named. -/
  | noGroupOfVolume {ctx : Context} {l : OptionList .lvs}
      (hgroup : l.aggregate.request.volumeGroup = none)
      (hmissing : l.aggregate.request.logicalVolume = none ∨ ctx.defaultGroup = none) :
      Refuses ⟨.findVolume, ctx, l⟩ (.missing "lvs" "VolumeGroupName")
  /-- Nobody names the logical volume that is looked up. -/
  | noVolume {ctx : Context} {l : OptionList .lvs} {group : VolumeGroupName}
      (hgroup : l.aggregate.request.volumeGroup = some group)
      (hvolume : l.aggregate.request.logicalVolume = none) :
      Refuses ⟨.findVolume, ctx, l⟩ (.missing "lvs" "LogicalVolumeName")

end Call

/-- The names of a logical volume that is looked up are those of the options, the group being the
default one if they do not name it. -/
theorem soughtVolume_of_named {l : OptionList .lvs} {group : VolumeGroupName}
    {name : LogicalVolumeName}
    (hgroup : l.aggregate.request.volumeGroup = some group ∨
      l.aggregate.request.volumeGroup = none ∧ ctx.defaultGroup = some group)
    (hname : l.aggregate.request.logicalVolume = some name) :
    soughtVolume ctx l = .ok (group, name) := by
  rcases hgroup with hgiven | ⟨hnone, hdefault⟩
  · simp [soughtVolume, OptionList.completed, Command.withDefault_of_some hgiven, hgiven, hname]
  · have hfills : Command.lvs.fillsGroup l.aggregate.request = true := by
      simp [Command.fillsGroup, hnone, hname]
    simp [soughtVolume, OptionList.completed, Request.withDefault, hfills, hdefault, Setting.apply,
      hname]

namespace Call

variable {call : Call}

/-- A lookup of a group finds its name and lists the group, or is refused. -/
theorem soughtGroup_cases (ctx : Context) (l : OptionList .vgs) :
    (∃ name, soughtGroup? ctx l = some name ∧ Runs ⟨.findGroup, ctx, l⟩ (withGroup l name)) ∨
      soughtGroup? ctx l = none ∧ Refuses ⟨.findGroup, ctx, l⟩ unnamedGroup := by
  cases hgroup : l.aggregate.request.volumeGroup with
  | some name => exact .inl ⟨name, by simp [soughtGroup?, hgroup], .namedGroup hgroup⟩
  | none =>
    cases hdefault : ctx.defaultGroup with
    | some name =>
      exact .inl ⟨name, by simp [soughtGroup?, hgroup, hdefault], .defaultGroup hgroup hdefault⟩
    | none => exact .inr ⟨by simp [soughtGroup?, hgroup, hdefault], .noGroup hgroup hdefault⟩

/-- A lookup of a logical volume finds both names and lists the volume, or is refused. -/
theorem soughtVolume_cases (ctx : Context) (l : OptionList .lvs) :
    (∃ names, soughtVolume ctx l = .ok names ∧ Runs ⟨.findVolume, ctx, l⟩ l) ∨
      ∃ e, soughtVolume ctx l = .error e ∧ Refuses ⟨.findVolume, ctx, l⟩ e := by
  cases hgroup : l.aggregate.request.volumeGroup with
  | some group =>
    cases hname : l.aggregate.request.logicalVolume with
    | some name =>
      exact .inl ⟨_, soughtVolume_of_named (.inl hgroup) hname, .volume (.inl hgroup) hname⟩
    | none =>
      refine .inr ⟨_, ?_, .noVolume hgroup hname⟩
      simp only [soughtVolume, OptionList.completed, Command.withDefault_of_some hgroup, hgroup,
        hname]
      rfl
  | none =>
    cases hname : l.aggregate.request.logicalVolume with
    | none =>
      refine .inr ⟨_, ?_, .noGroupOfVolume hgroup (.inl hname)⟩
      have hfills : Command.lvs.fillsGroup l.aggregate.request = false := by
        simp [Command.fillsGroup, hname]
      simp only [soughtVolume, OptionList.completed, Command.withDefault_of_not_fillsGroup hfills,
        hgroup]
      rfl
    | some name =>
      cases hdefault : ctx.defaultGroup with
      | none =>
        refine .inr ⟨_, ?_, .noGroupOfVolume hgroup (.inr hdefault)⟩
        simp only [soughtVolume, hdefault, OptionList.completed_none, hgroup]
        rfl
      | some group =>
        have hnamed := And.intro hgroup hdefault
        exact .inl ⟨_, soughtVolume_of_named (.inr hnamed) hname, .volume (.inr hnamed) hname⟩

/-- A call runs some options, or is refused because a name is missing. -/
theorem effectiveOptions_cases (call : Call) :
    (∃ l, call.Runs l ∧ call.effectiveOptions = .ok l) ∨
      ∃ e, call.Refuses e ∧ call.effectiveOptions = .error e := by
  obtain ⟨operation, ctx, l⟩ := call
  cases operation with
  | run c => exact .inl ⟨l, .run l, rfl⟩
  | findGroup =>
    rcases soughtGroup_cases ctx l with ⟨name, hname, hruns⟩ | ⟨hnone, hrefuses⟩
    · exact .inl ⟨_, hruns, by simp [effectiveOptions, hname]⟩
    · exact .inr ⟨_, hrefuses, by simp [effectiveOptions, hnone]⟩
  | findVolume =>
    rcases soughtVolume_cases ctx l with ⟨names, hnames, hruns⟩ | ⟨e, herror, hrefuses⟩
    · exact .inl ⟨l, hruns, by simp [effectiveOptions, hnames, Except.map]⟩
    · exact .inr ⟨e, hrefuses, by simp [effectiveOptions, herror, Except.map]⟩

/-- A call runs options that pass the check, with the arguments that they make, or is refused. -/
theorem arguments_cases (call : Call) :
    (∃ l, call.Runs l ∧
      call.operation.command.fault? (l.completed call.context.defaultGroup) = none ∧
      call.arguments = .ok
        (call.operation.command.render (l.completed call.context.defaultGroup) .empty)) ∨
      ∃ e, call.Refuses e ∧ call.arguments = .error e := by
  rcases effectiveOptions_cases call with ⟨l, hruns, hoptions⟩ | ⟨e, hrefuses, herror⟩
  · cases hfault : call.operation.command.fault? (l.completed call.context.defaultGroup) with
    | none =>
      refine .inl ⟨l, hruns, hfault, ?_⟩
      simp [arguments, hoptions, Except.bind, OptionList.arguments, hfault]
    | some e =>
      refine .inr ⟨e, .invalid hruns hfault, ?_⟩
      simp [arguments, hoptions, Except.bind, OptionList.arguments, hfault]
  · refine .inr ⟨e, hrefuses, ?_⟩
    rw [arguments, herror]
    rfl

/-- A call with arguments runs some options. -/
theorem exists_options_of_arguments {args : Arguments} (h : call.arguments = .ok args) :
    ∃ l, call.effectiveOptions = .ok l := by
  cases hoptions : call.effectiveOptions with
  | ok l => exact ⟨l, rfl⟩
  | error e =>
    rw [arguments, hoptions] at h
    cases h

end Call

/-! ## Answers -/

/-- The failure comes from what the tool has printed: it cannot be read, or does not hold what was
looked up. -/
def ClientError.IsAnswer : ClientError → Prop
  | .report _ => True
  | .groupNotFound _ => True
  | .volumeNotFound _ => True
  | _ => False

/-- A computation fails only with what the tool has printed. -/
def OnlyAnswers {α : Type} (x : Except ClientError α) : Prop := ∀ e, x = .error e → e.IsAnswer

namespace OnlyAnswers

variable {α β : Type}

theorem ok (a : α) : OnlyAnswers (.ok a) := by
  intro e he
  cases he

theorem report (x : Except ReportError α) : OnlyAnswers (x.mapError .report) := by
  intro e he
  cases x with
  | ok a => cases he
  | error fault =>
    cases he
    trivial

theorem bind {x : Except ClientError α} {f : α → Except ClientError β} (hx : OnlyAnswers x)
    (hf : ∀ a, OnlyAnswers (f a)) : OnlyAnswers (x >>= f) := by
  intro e he
  cases x with
  | ok a => exact hf a e he
  | error fault =>
    cases he
    exact hx _ rfl

theorem map {x : Except ClientError α} (hx : OnlyAnswers x) (f : α → β) :
    OnlyAnswers (x.map f) := by
  intro e he
  cases x with
  | ok a => cases he
  | error fault =>
    cases he
    exact hx _ rfl

theorem pickGroup (name : VolumeGroupName) (rows : List VolumeGroup) :
    OnlyAnswers (Host.pickGroup name rows) := by
  intro e he
  unfold Host.pickGroup at he
  split at he <;> cases he
  trivial

theorem pickVolume (group : VolumeGroupName) (name : LogicalVolumeName)
    (rows : List LogicalVolume) : OnlyAnswers (Host.pickVolume group name rows) := by
  intro e he
  unfold Host.pickVolume at he
  split at he <;> cases he
  trivial

end OnlyAnswers

section Answers

variable {call : Call} {l : OptionList call.operation.command}

/-- If a call runs, reading the output of the tool fails because of the output alone. -/
theorem Host.onlyAnswers_reply (h : call.effectiveOptions = .ok l) (stdout : String) :
    OnlyAnswers (reply call stdout) := by
  obtain ⟨operation, ctx, options⟩ := call
  cases operation with
  | run c => exact .report _
  | findGroup =>
    cases hname : soughtGroup? ctx options with
    | none => simp [Call.effectiveOptions, hname] at h
    | some name =>
      simp only [reply, hname]
      exact .bind (.report _) fun rows => (OnlyAnswers.pickGroup name rows).map _
  | findVolume =>
    cases hnames : soughtVolume ctx options with
    | error e => simp [Call.effectiveOptions, hnames, Except.map] at h
    | ok names =>
      have hreply : reply ⟨.findVolume, ctx, options⟩ stdout =
          (Report.logicalVolumes stdout).mapError .report >>= fun rows =>
            (pickVolume names.1 names.2 rows).map .volume := by
        simp only [reply, hnames]
        rfl
      rw [hreply]
      exact .bind (.report _) fun rows => (OnlyAnswers.pickVolume names.1 names.2 rows).map _

/-- If a call runs, the client that rehearses fails only to find what is looked up. -/
theorem Rehearsal.onlyAnswers_reply (h : call.effectiveOptions = .ok l) (m : Rehearsal) :
    OnlyAnswers (m.reply call) := by
  obtain ⟨operation, ctx, options⟩ := call
  cases operation with
  | run c => exact .ok _
  | findGroup =>
    cases hname : soughtGroup? ctx options with
    | none => simp [Call.effectiveOptions, hname] at h
    | some name =>
      intro e he
      simp only [reply, hname] at he
      split at he <;> cases he
      trivial
  | findVolume =>
    cases hnames : soughtVolume ctx options with
    | error e => simp [Call.effectiveOptions, hnames, Except.map] at h
    | ok names =>
      intro e he
      simp only [reply, hnames] at he
      split at he <;> cases he
      trivial

end Answers

/-! ## Agreement -/

namespace Call

/-- Both clients refuse a call for the same reason: nothing is recorded, and no process is
started. -/
structure BothRefuse (m : Rehearsal) (host : Host) (defaults : Defaults) (fired : List Token)
    (call : Call) (e : ValidationError) : Prop where
  /-- The reason lies in the options and the context of the call. -/
  refuses : call.Refuses e
  rehearsed : m.perform defaults fired call = (.error (.validation e), m)
  run : ∀ supervise, host.result defaults call supervise = (some (.error (.validation e)), none)

/-- Both clients run a call: one makes a record, the other starts a process. -/
structure BothRun (m : Rehearsal) (host : Host) (defaults : Defaults) (fired : List Token)
    (call : Call) (rec : Record) (inv : Invocation) : Prop where
  /-- The record is that of the subcommand and the arguments that the options of the call make. -/
  written : rec.command = call.subcommand ∧ ∃ l, call.Runs l ∧
    call.operation.command.fault? (l.completed call.context.defaultGroup) = none ∧
    rec.arguments =
      (call.operation.command.render (l.completed call.context.defaultGroup) .empty).tokens
  /-- It is the only record that is made, and the call is not refused and does not fail but for what
  is looked up. -/
  rehearsed : (m.perform defaults fired call).2 = { m with records := m.records ++ [rec] } ∧
    OnlyAnswers (m.perform defaults fired call).1
  /-- The process is started unless the system refuses. The result of the call is what becomes of
  it, and no refusal. -/
  run : ∀ obstacle events,
    (inv.supervise fired obstacle events).started = obstacle.isNone ∧
      host.result defaults call (·.supervise fired obstacle events) =
        ((inv.supervise fired obstacle events).outcome.map (Host.resultOf call),
          some (inv.supervise fired obstacle events)) ∧
      ∀ e, (host.result defaults call (·.supervise fired obstacle events)).1 ≠
        some (.error (.validation e))
  /-- The process is the tool, with the subcommand of the record and then its arguments. -/
  command : inv.program = host.tool ∧ inv.arguments = rec.command :: rec.arguments
  /-- The variables of the context are recorded, and are those that the process gets behind the ones
  for the default group and the locale. -/
  environment : rec.environment = (call.context.environment.map Environment.entries).getD [] ∧
    inv.environment = (rec.defaultGroup.toList.map fun group => ("LVM_VG_NAME", group)) ++
      (if defaults.standardLocale then [("LC_ALL", "C")] else []) ++ rec.environment
  defaultGroup : rec.defaultGroup = call.context.defaultGroup.map VolumeGroupName.text
  waitDelay : rec.waitDelay = call.context.waitDelay.getD defaults.waitDelay ∧
    inv.waitDelay = rec.waitDelay
  bypass : rec.bypass = call.context.bypass
  token : inv.token = call.context.token

variable {m : Rehearsal} {host : Host} {defaults : Defaults} {fired : List Token} {call : Call}
  {args : Arguments}

/-- A process is started for a call whose token has not fired, unless the system refuses. -/
theorem started_of_not_fired (hfired : call.context.isCancelled fired = false) {inv : Invocation}
    (htoken : inv.token = call.context.token) (obstacle : Option StartFault) (events : List Event) :
    (inv.supervise fired obstacle events).started = obstacle.isNone := by
  have hany : inv.token.any fired.contains = false := by
    rw [htoken]
    exact hfired
  cases obstacle <;> simp [Invocation.supervise, hany]

/-- The result of a call that runs is no refusal. -/
theorem resultOf_ne_refusal (h : call.arguments = .ok args) (outcome : Outcome)
    (e : ValidationError) :
    Host.resultOf call outcome ≠ .error (.validation e) := by
  obtain ⟨l, hoptions⟩ := exists_options_of_arguments h
  intro hrefused
  cases outcome with
  | ok output => exact Host.onlyAnswers_reply hoptions output.stdout _ hrefused
  | error fault => cases hrefused

/-- A rehearsal that takes no time and is not told to fail answers from its data. -/
theorem resultOf_rehearsal (hdelay : m.delay = none) (hfail : m.failOn = none) :
    m.resultOf fired call = m.reply call := by
  simp [Rehearsal.resultOf, Rehearsal.failure?, hdelay, hfail]

/-- A call with arguments is recorded by one client and run by the other. -/
theorem bothRun {l : OptionList call.operation.command} (hruns : call.Runs l)
    (hfault : call.operation.command.fault? (l.completed call.context.defaultGroup) = none)
    (hargs : call.operation.command.render (l.completed call.context.defaultGroup) .empty = args)
    (harguments : call.arguments = .ok args) (hfired : call.context.isCancelled fired = false)
    (hdelay : m.delay = none) (hfail : m.failOn = none)
    (hdirect : host.launcher.containerized = false) :
    call.BothRun m host defaults fired (Rehearsal.record defaults call args)
      (host.launcher.build defaults call.context host.tool (call.subcommand :: args.tokens)) where
  written := ⟨rfl, l, hruns, hfault, congrArg Arguments.tokens hargs.symm⟩
  rehearsed := by
    obtain ⟨k, hoptions⟩ := exists_options_of_arguments harguments
    rw [Rehearsal.perform, harguments]
    refine ⟨rfl, ?_⟩
    rw [resultOf_rehearsal hdelay hfail]
    exact Rehearsal.onlyAnswers_reply hoptions m
  run obstacle events := by
    have hinvocation : host.invocation defaults call = .ok
        (host.launcher.build defaults call.context host.tool (call.subcommand :: args.tokens)) := by
      rw [Host.invocation, harguments]
      rfl
    refine ⟨started_of_not_fired hfired rfl obstacle events, ?_, fun e hrefused => ?_⟩
    · rw [Host.result, hinvocation]
    · rw [Host.result, hinvocation] at hrefused
      obtain ⟨outcome, -, hresult⟩ := Option.map_eq_some_iff.mp hrefused
      exact resultOf_ne_refusal harguments outcome e hresult
  command := by
    have hbridges : host.launcher.bridges call.context = false := by
      simp [Launcher.bridges, hdirect]
    simp [Launcher.build, hbridges, Rehearsal.record]
  environment := by
    refine ⟨rfl, ?_⟩
    simp only [Launcher.build, Context.entries, Rehearsal.record, Option.toList_map, List.map_map]
    rfl
  defaultGroup := rfl
  waitDelay := ⟨rfl, rfl⟩
  bypass := rfl
  token := rfl

/-- **Agreement.** Before the token of a call has fired, a rehearsal that is told neither to take
time nor to fail refuses the call for the reason for which the client that runs the tools refuses
it, or records what this client runs. -/
theorem agreement (m : Rehearsal) (host : Host) (defaults : Defaults) (fired : List Token)
    (call : Call) (hfired : call.context.isCancelled fired = false) (hdelay : m.delay = none)
    (hfail : m.failOn = none) (hdirect : host.launcher.containerized = false) :
    (∃ e, call.BothRefuse m host defaults fired e) ∨
      ∃ rec inv, call.BothRun m host defaults fired rec inv := by
  rcases arguments_cases call with ⟨l, hruns, hfault, harguments⟩ | ⟨e, hrefuses, herror⟩
  · exact .inr ⟨_, _, bothRun hruns hfault rfl harguments hfired hdelay hfail hdirect⟩
  · refine .inl ⟨e, hrefuses, ?_, fun supervise => ?_⟩
    · simp only [Rehearsal.perform, herror]
    · simp [Host.result, Host.invocation, herror, Except.map]

/-! ## A lookup of the default group -/

/-- A group is looked up that only the context names, with a token that could cancel the lookup. -/
def defaultLookup : Call where
  operation := .findGroup
  context := { defaultGroup := some ⟨"archive", by decide⟩, token := some ⟨"shutdown"⟩ }
  options := .empty .vgs

/-- A client that runs the tools where this process runs. -/
def directHost : Host where
  launcher := { containerized := false }

/-- After another token has fired, the lookup is recorded and run with the name of the default
group. -/
theorem default_lookup_agreement :
    (defaultLookup.context.isCancelled [⟨"restart"⟩] = false ∧ ({} : Rehearsal).delay = none ∧
      ({} : Rehearsal).failOn = none ∧ directHost.launcher.containerized = false) ∧
    ∃ rec inv, defaultLookup.BothRun {} directHost {} [⟨"restart"⟩] rec inv ∧
      "archive" ∈ inv.arguments := by
  have hfired : defaultLookup.context.isCancelled [⟨"restart"⟩] = false := by decide
  refine ⟨⟨hfired, rfl, rfl, rfl⟩, ?_⟩
  have hrecords : (({} : Rehearsal).perform {} [⟨"restart"⟩] defaultLookup).2.records.any
      (fun rec => rec.arguments.contains "archive") = true := by decide +kernel
  rcases agreement {} directHost {} [⟨"restart"⟩] defaultLookup hfired rfl rfl rfl with
    ⟨e, hrefused⟩ | ⟨rec, inv, hrun⟩
  · rw [hrefused.rehearsed] at hrecords
    cases hrecords
  · refine ⟨rec, inv, hrun, ?_⟩
    rw [hrun.rehearsed.1] at hrecords
    have hnamed : "archive" ∈ rec.arguments := by simpa using hrecords
    rw [hrun.command.2]
    exact List.mem_cons_of_mem _ hnamed

end Call

end LvmControl
