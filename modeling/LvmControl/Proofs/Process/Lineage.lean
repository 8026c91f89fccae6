import Mathlib.Data.List.Induction
import LvmControl.Process.Session
import LvmControl.Proofs.Settings.Written

/-!
# Lineages of contexts

Contexts are derived from one another in any order and to any depth, while tokens fire, settings are
made and invocations are built in between. What a context says comes from three places. Its
environment, default group and bypass were fixed when it was made, and so was which token it has.
Whether that token has fired is read off the session each time it is asked for, and so is the wait
delay of a context that was never given one. This module says of each of them, for every order of
actions, where it comes from.

## Main definitions

* `latest`: the value given last, by the last element of a list that gives one.
* `lineages`: the changes by which the contexts of a session were derived, read off the actions.
* `Context.DerivedBy`: a context has in each field what was last set along its lineage.
* `SessionAction.waitDelay?`, `SessionAction.locale?`: what an action says of the process.
* `Session.Steadfast`: what holds at the end of actions, and after any others that follow.

## Main statements

* `Session.contexts_run`: the contexts of a session are those of its lineages.
* `Session.steadfast`: every order of actions is as `Session.Steadfast` says.

## Design notes

**A lineage is read off the actions.** `lineages` keeps no context, only which changes led to the
context at each place, so what a context has is compared with what was asked for.
-/

namespace LvmControl

/-- The value given last, by the last element of a list that gives one. -/
def latest {α β : Type} (value? : α → Option β) (l : List α) : Option β :=
  (l.filterMap value?).getLast?

theorem latest_concat {α β : Type} (value? : α → Option β) (l : List α) (a : α) :
    latest value? (l ++ [a]) = (value? a).or (latest value? l) := by
  cases hvalue : value? a <;> simp [latest, List.filterMap_append, hvalue]

/-- A field that each step of a fold replaces if it is given a value for it, and leaves alone
otherwise, has in the end the value given last, and the first one if none is given. -/
theorem foldl_eq_latest {σ α β : Type} {step : σ → α → σ} (field : σ → β) {value? : α → Option β}
    (hstep : ∀ s a, field (step s a) = (value? a).getD (field s)) (s : σ) (l : List α) :
    field (l.foldl step s) = (latest value? l).getD (field s) := by
  induction l using List.reverseRecOn with
  | nil => rfl
  | append_singleton l a ih =>
    rw [List.foldl_append, List.foldl_cons, List.foldl_nil, hstep, ih, latest_concat]
    cases value? a <;> rfl

/-! ## Changes of one context -/

namespace ContextChange

/-- The environment that a change sets. -/
def environment? : ContextChange → Option Environment
  | .environment env => some env
  | .overrides o => o.environment
  | _ => none

/-- The wait delay that a change sets. -/
def waitDelay? : ContextChange → Option Duration
  | .waitDelay delay => some delay
  | .overrides o => o.waitDelay
  | _ => none

/-- The default group that a change sets. -/
def defaultGroup? : ContextChange → Option VolumeGroupName
  | .defaultGroup group => some group
  | .overrides o => o.defaultGroup
  | _ => none

/-- Whether a change switches the bypass on or off. -/
def bypass? : ContextChange → Option Bool
  | .bypass on => some on
  | _ => none

/-- The token that a change sets. -/
def token? : ContextChange → Option Token
  | .token t => some t
  | _ => none

end ContextChange

namespace Context

/-- The context that changes lead to, from an empty one. -/
def ofLineage (lineage : List ContextChange) : Context := lineage.foldl Context.change {}

/-- The context has in each field what was last set along the lineage. -/
structure DerivedBy (ctx : Context) (lineage : List ContextChange) : Prop where
  environment : ctx.environment = latest ContextChange.environment? lineage
  waitDelay : ctx.waitDelay = latest ContextChange.waitDelay? lineage
  defaultGroup : ctx.defaultGroup = latest ContextChange.defaultGroup? lineage
  bypass : ctx.bypass = (latest ContextChange.bypass? lineage).getD false
  token : ctx.token = latest ContextChange.token? lineage

/-- A field that a change replaces where it sets it has in the end what was set last. -/
theorem field_ofLineage {α : Type} (field : Context → Option α) (set? : ContextChange → Option α)
    (hchange : ∀ ctx change, field (Context.change ctx change) = (set? change).or (field ctx))
    (lineage : List ContextChange) :
    field (ofLineage lineage) = (latest set? lineage).or (field {}) :=
  field_foldl field hchange {} lineage

/-- Changes lead to a context that has in each field what was last set. -/
theorem ofLineage_derivedBy (lineage : List ContextChange) :
    (ofLineage lineage).DerivedBy lineage where
  environment := by
    refine (field_ofLineage _ _ (fun ctx change => ?_) lineage).trans (Option.or_none ..)
    cases change <;> rfl
  waitDelay := by
    refine (field_ofLineage _ _ (fun ctx change => ?_) lineage).trans (Option.or_none ..)
    cases change <;> rfl
  defaultGroup := by
    refine (field_ofLineage _ _ (fun ctx change => ?_) lineage).trans (Option.or_none ..)
    cases change <;> rfl
  bypass := by
    refine foldl_eq_latest Context.bypass (fun ctx change => ?_) {} lineage
    cases change <;> rfl
  token := by
    refine (field_ofLineage _ _ (fun ctx change => ?_) lineage).trans (Option.or_none ..)
    cases change <;> rfl

end Context

/-! ## Sessions -/

namespace SessionAction

/-- The wait delay that an action gives contexts without one. A settings file that is refused says
nothing, and neither does one that leaves the wait delay out. -/
def waitDelay? : SessionAction → Option Duration
  | .setWaitDelay delay => some delay
  | .applySettings file =>
    match Settings.load file with
    | .ok settings => settings.waitMillis.map Duration.ofMillis
    | .error _ => none
  | _ => none

/-- Whether an action turns the standard locale on or off. -/
def locale? : SessionAction → Option Bool
  | .setLocale on => some on
  | .applySettings file =>
    match Settings.load file with
    | .ok settings => settings.standardLocale
    | .error _ => none
  | _ => none

end SessionAction

/-- The lineages after an action, which are one more if it derives a context from one there is. -/
def extendLineages (known : List (List ContextChange)) : SessionAction → List (List ContextChange)
  | .derive source change =>
    known ++ (known[source]?.map fun lineage => lineage ++ [change]).toList
  | _ => known

/-- The lineages of the contexts that actions make, in the order in which they are made. The first
context has none. -/
def lineages (actions : List SessionAction) : List (List ContextChange) :=
  actions.foldl extendLineages [[]]

theorem lineages_concat (actions : List SessionAction) (a : SessionAction) :
    lineages (actions ++ [a]) = extendLineages (lineages actions) a := by
  simp [lineages]

/-- What stands at a place of a list stands there in every list that the list is the start of. -/
theorem getElem?_of_prefix {α : Type} {l₁ l₂ : List α} (h : l₁ <+: l₂) {i : Nat} {x : α}
    (hx : l₁[i]? = some x) : l₂[i]? = some x := by
  obtain ⟨hi, rfl⟩ := List.getElem?_eq_some_iff.mp hx
  exact List.prefix_iff_getElem?.mp h i hi

namespace Session

/-- The session after actions in a process that has just started. -/
def after (actions : List SessionAction) : Session := ({} : Session).run actions

theorem after_append (actions more : List SessionAction) :
    after (actions ++ more) = (after actions).run more := by
  simp [after, run]

theorem after_concat (actions : List SessionAction) (a : SessionAction) :
    after (actions ++ [a]) = (after actions).step a := by
  simp [after, run]

/-- No actions remove or change a context. -/
theorem contexts_prefix_run (s : Session) (actions : List SessionAction) :
    s.contexts <+: (s.run actions).contexts := by
  induction actions generalizing s with
  | nil => exact List.prefix_refl _
  | cons a rest ih => exact (contexts_prefix_step s a).trans (ih (s.step a))

/-- No actions remove or change an invocation. -/
theorem built_prefix_run (s : Session) (actions : List SessionAction) :
    s.built <+: (s.run actions).built := by
  induction actions generalizing s with
  | nil => exact List.prefix_refl _
  | cons a rest ih => exact (built_prefix_step s a).trans (ih (s.step a))

/-- What an action adds to the contexts. -/
theorem contexts_step (s : Session) (a : SessionAction) {known : List (List ContextChange)}
    (hknown : s.contexts = known.map Context.ofLineage) :
    (s.step a).contexts = (extendLineages known a).map Context.ofLineage := by
  cases a with
  | derive source change =>
    have hsource : s.contexts[source]?.map (fun ctx => ctx.change change) =
        (known[source]?.map fun lineage => lineage ++ [change]).map Context.ofLineage := by
      rw [hknown, List.getElem?_map, Option.map_map, Option.map_map]
      congr 1
      funext lineage
      simp [Context.ofLineage]
    change s.contexts ++ (s.contexts[source]?.map fun ctx => ctx.change change).toList = _
    rw [hsource, hknown, extendLineages, List.map_append, Option.toList_map]
  | applySettings file =>
    cases h : Settings.load file <;> simp [step, attempt, h, Except.map, extendLineages, hknown]
  | _ => exact hknown

/-- **Contexts and lineages.** The contexts of a session are those that their lineages lead to. -/
theorem contexts_run (actions : List SessionAction) :
    (after actions).contexts = (lineages actions).map Context.ofLineage := by
  induction actions using List.reverseRecOn with
  | nil => rfl
  | append_singleton actions a ih =>
    rw [after_concat, lineages_concat]
    exact contexts_step (after actions) a ih

/-- The tokens that have fired are those that an action has cancelled. -/
theorem mem_fired_iff (actions : List SessionAction) (token : Token) :
    token ∈ (after actions).fired ↔ .cancel token ∈ actions := by
  induction actions using List.reverseRecOn with
  | nil => simp [after, run]
  | append_singleton actions a ih =>
    rw [after_concat, List.mem_append, List.mem_singleton, ← ih]
    cases a with
    | cancel fired => simp [step, attempt, or_comm]
    | applySettings file =>
      cases h : Settings.load file <;> simp [step, attempt, h, Except.map]
    | _ => simp [step, attempt, derive, build]

/-- The wait delay of contexts without one is the one given last. -/
theorem waitDelay_run (actions : List SessionAction) :
    (after actions).defaults.waitDelay =
      (latest SessionAction.waitDelay? actions).getD .zero := by
  refine foldl_eq_latest (fun s : Session => s.defaults.waitDelay) (fun s a => ?_) {} actions
  cases a with
  | applySettings file =>
    cases hload : Settings.load file with
    | error e => simp [step, attempt, hload, Except.map, SessionAction.waitDelay?]
    | ok settings =>
      simp [step, attempt, hload, Except.map, SessionAction.waitDelay?, Settings.applyTo]
  | _ => rfl

/-- Whether commands use the standard locale is as it was said last. -/
theorem locale_run (actions : List SessionAction) :
    (after actions).defaults.standardLocale =
      (latest SessionAction.locale? actions).getD false := by
  refine foldl_eq_latest (fun s : Session => s.defaults.standardLocale) (fun s a => ?_) {} actions
  cases a with
  | applySettings file =>
    cases hload : Settings.load file with
    | error e => simp [step, attempt, hload, Except.map, SessionAction.locale?]
    | ok settings =>
      simp [step, attempt, hload, Except.map, SessionAction.locale?, Settings.applyTo]
  | _ => rfl

/-- What holds of a session that actions have led to, and of what has come of it after any more. -/
structure Steadfast (actions : List SessionAction) : Prop where
  /-- There is one context for each lineage. -/
  length : (after actions).contexts.length = (lineages actions).length
  /-- A context has in each field what was last set along its lineage. Its wait delay, if none was
  set, is that of the process now, and it is cancelled if its token has been cancelled by now. -/
  context : ∀ (i : Nat) (ctx : Context), (after actions).contexts[i]? = some ctx →
    ∃ lineage, (lineages actions)[i]? = some lineage ∧ ctx.DerivedBy lineage ∧
      ctx.effectiveDelay (after actions).defaults =
        (latest ContextChange.waitDelay? lineage).getD (after actions).defaults.waitDelay ∧
      (ctx.isCancelled (after actions).fired = true ↔
        ∃ token, latest ContextChange.token? lineage = some token ∧ .cancel token ∈ actions)
  /-- A context stays what it is. -/
  kept : ∀ (more : List SessionAction) (i : Nat) (ctx : Context),
    (after actions).contexts[i]? = some ctx → (after (actions ++ more)).contexts[i]? = some ctx
  /-- The values of the process are those given last. -/
  defaults : (after actions).defaults =
    ⟨(latest SessionAction.locale? actions).getD false,
      (latest SessionAction.waitDelay? actions).getD .zero⟩
  /-- What is loaded from a settings file is what the file contains. -/
  loaded : ∀ (file : Option (List UInt8)) (settings : Settings),
    Settings.load file = .ok settings ↔ settings.ContainedIn file
  /-- A file of written lines contains settings exactly if no key is repeated, every entry is for a
  setting and the values are in range, and then it contains the values of its entries. -/
  written : ∀ (file : Settings.WrittenFile) (settings : Settings),
    settings.ContainedIn (some file.bytes) ↔
      (file.settings.map Prod.fst).Nodup ∧ settings.MadeBy file.settings ∧ settings.InRange
  /-- A settings file that contains no settings is refused, which changes nothing. -/
  refused : ∀ (file : Option (List UInt8)), (∀ settings : Settings, ¬ settings.ContainedIn file) →
    after (actions ++ [.applySettings file]) = after actions
  /-- A settings file that is taken changes the values of the process that it contains, and nothing
  else. -/
  taken : ∀ (file : Option (List UInt8)) (settings : Settings), settings.ContainedIn file →
    after (actions ++ [.applySettings file]) =
      { after actions with
        defaults :=
          ⟨settings.standardLocale.getD (after actions).defaults.standardLocale,
            (settings.waitMillis.map Duration.ofMillis).getD (after actions).defaults.waitDelay⟩ }
  /-- An invocation is built from the context and the values of the process as they are then. It
  gets the next place among the invocations. -/
  built : ∀ (source : Nat) (launcher : Launcher) (program : String) (arguments : List String)
    (ctx : Context), (after actions).contexts[source]? = some ctx →
      (after (actions ++ [.build source launcher program arguments])).built =
        (after actions).built ++ [launcher.build (after actions).defaults ctx program arguments]
  /-- An invocation stays what it is. -/
  builtKept : ∀ (more : List SessionAction) (j : Nat) (inv : Invocation),
    (after actions).built[j]? = some inv → (after (actions ++ more)).built[j]? = some inv

/-- **Sessions.** Whatever is done in whatever order, contexts and invocations stay what they are,
and what is read later is what was given last. -/
theorem steadfast (actions : List SessionAction) : Steadfast actions where
  length := by rw [contexts_run, List.length_map]
  context i ctx hctx := by
    rw [contexts_run, List.getElem?_map, Option.map_eq_some_iff] at hctx
    obtain ⟨lineage, hlineage, rfl⟩ := hctx
    have hderived := Context.ofLineage_derivedBy lineage
    refine ⟨lineage, hlineage, hderived, ?_, ?_⟩
    · rw [Context.effectiveDelay, hderived.waitDelay]
    · rw [Context.isCancelled, hderived.token]
      simp [Option.any_eq_true, mem_fired_iff]
  kept more i ctx hctx := by
    rw [after_append]
    exact getElem?_of_prefix (contexts_prefix_run _ more) hctx
  defaults := by
    rw [← locale_run, ← waitDelay_run]
  loaded _ _ := Settings.load_eq_ok_iff
  written file settings := by
    rw [← Settings.load_eq_ok_iff, Settings.load_bytes_eq_ok_iff]
  refused file hnone := by
    rw [after_concat]
    cases hload : Settings.load file with
    | error e => simp [step, attempt, hload, Except.map]
    | ok settings => exact absurd (Settings.load_eq_ok_iff.mp hload) (hnone settings)
  taken file settings hcontained := by
    have hload := Settings.load_eq_ok_iff.mpr hcontained
    rw [after_concat]
    simp [step, attempt, hload, Except.map, Settings.applyTo]
  built source launcher program arguments ctx hctx := by
    rw [after_concat]
    simp [step, attempt, build, hctx]
  builtKept more j inv hinv := by
    rw [after_append]
    exact getElem?_of_prefix (built_prefix_run _ more) hinv

/-- No gap. -/
def noGap : Settings.Gap := ⟨[], by simp⟩

/-- One space. -/
def space : Settings.Gap := ⟨[' '], List.all_eq_true.mp (by decide)⟩

/-- An entry with one space on either side of the equals sign. -/
def spacedEntry (key : Settings.Key) (value : Settings.WrittenValue) : Settings.WrittenEntry :=
  ⟨noGap, key, space, space, value⟩

/-- The key of the locale. -/
def localeKey : Settings.Key :=
  ⟨Settings.standardLocaleKey.toList, by decide, List.all_eq_true.mp (by decide)⟩

/-- The key of the wait delay. -/
def waitKey : Settings.Key :=
  ⟨Settings.waitMillisKey.toList, by decide, List.all_eq_true.mp (by decide)⟩

/-- A file with two entries, one of them with a comment. -/
def slowFile : Settings.WrittenFile where
  mark := false
  lines :=
    [(⟨some (spacedEntry localeKey (.flag true)), noGap, none⟩, false),
     (⟨some (spacedEntry waitKey (.whole 1500 (by decide))), space,
        some ⟨" slow".toList, List.all_eq_true.mp (by decide)⟩⟩, true)]
  last := ⟨none, noGap, none⟩

/-- A file with a number for the locale. -/
def strayFile : Settings.WrittenFile where
  mark := false
  lines := [(⟨some (spacedEntry localeKey (.whole 1 (by decide))), noGap, none⟩, false)]
  last := ⟨none, noGap, none⟩

/-- The first file changes both values of the process, and the second, which comes after it,
changes nothing. -/
theorem slowFile_taken_strayFile_refused :
    slowFile.bytes =
        Text.encode "standard_locale = true\nwait_delay_ms = 1500 # slow\r\n".toList ∧
      after ([.setWaitDelay (.ofMillis 100)] ++ [.applySettings (some slowFile.bytes)]) =
        { after [.setWaitDelay (.ofMillis 100)] with defaults := ⟨true, .ofMillis 1500⟩ } ∧
      strayFile.bytes = Text.encode "standard_locale = 1\n".toList ∧
      after ([.setWaitDelay (.ofMillis 100), .applySettings (some slowFile.bytes)] ++
          [.applySettings (some strayFile.bytes)]) =
        after [.setWaitDelay (.ofMillis 100), .applySettings (some slowFile.bytes)] := by
  refine ⟨?_, ?_, ?_, ?_⟩
  · exact congrArg Text.encode (by decide +kernel)
  · have hslow := steadfast [.setWaitDelay (.ofMillis 100)]
    have hsettings : slowFile.settings =
        [("standard_locale", .flag true), ("wait_delay_ms", .whole 1500)] := by decide
    refine hslow.taken _ ⟨none, none, some 1500, some true⟩ ((hslow.written _ _).mpr ?_)
    rw [hsettings]
    exact ⟨by decide, (Settings.ofDocument?_eq_some_iff (by decide)).mp rfl,
      Settings.fault?_eq_none_iff.mp (by decide)⟩
  · exact congrArg Text.encode (by decide +kernel)
  · have hstray := steadfast [.setWaitDelay (.ofMillis 100), .applySettings (some slowFile.bytes)]
    refine hstray.refused _ fun settings hcontained => ?_
    obtain ⟨-, hmade, -⟩ := (hstray.written _ _).mp hcontained
    obtain ⟨t, ht⟩ := (hmade.isSetting ("standard_locale", .whole 1) (by decide)).exists_set? {}
    have hnone : ({} : Settings).set? "standard_locale" (.whole 1) = none := rfl
    cases hnone.symm.trans ht

end Session

end LvmControl
