import LvmControl.Process.Invocation
import LvmControl.Settings.File

/-!
# Sessions

Over the life of a process contexts are derived from one another, tokens are cancelled, the values
that belong to the process are set by hand or from a settings file, and invocations are built. A
session is the state of all that, and everything that happens is an action on it.

## Main definitions

* `Session`: the contexts and invocations there are, the tokens that have fired and the process
  defaults.
* `SessionAction`: what can happen.
* `Session.attempt`: an action carried out, or the error for a settings file that is refused.
* `Session.step`, `Session.run`: actions carried out, a refused settings file changing nothing.

## Design notes

**Contexts and invocations are only ever added.** A context is known by its place in the list of
contexts, an invocation by its place in the list of invocations. No action changes what is there.
-/

namespace LvmControl

/-- The state of a process as far as contexts and invocations are concerned. -/
structure Session where
  defaults : Defaults := {}
  /-- The contexts, in the order in which they were made. The first one is empty. -/
  contexts : List Context := [{}]
  fired : List Token := []
  /-- The invocations, in the order in which they were built. -/
  built : List Invocation := []

/-- What can happen in a process. -/
inductive SessionAction
  /-- A context is derived from an earlier one. -/
  | derive (source : Nat) (change : ContextChange)
  /-- A token fires. -/
  | cancel (token : Token)
  | setLocale (on : Bool)
  | setWaitDelay (delay : Duration)
  /-- A settings file is read and its settings are applied. -/
  | applySettings (file : Option (List UInt8))
  /-- An invocation is built for a context. -/
  | build (source : Nat) (launcher : Launcher) (program : String) (arguments : List String)

namespace Session

/-- Adds the context derived from an earlier one. There is nothing to derive from where there is
no context. -/
def derive (s : Session) (source : Nat) (change : ContextChange) : Session :=
  { s with contexts := s.contexts ++ (s.contexts[source]?.map fun ctx => ctx.change change).toList }

/-- Adds the invocation of a program for a context. -/
def build (s : Session) (source : Nat) (launcher : Launcher) (program : String)
    (arguments : List String) : Session :=
  { s with
    built := s.built ++
      (s.contexts[source]?.map fun ctx => launcher.build s.defaults ctx program arguments).toList }

/-- Carries out an action. -/
def attempt (s : Session) : SessionAction → Except SettingsError Session
  | .derive source change => .ok (s.derive source change)
  | .cancel token => .ok { s with fired := token :: s.fired }
  | .setLocale on => .ok { s with defaults.standardLocale := on }
  | .setWaitDelay delay => .ok { s with defaults.waitDelay := delay }
  | .applySettings file =>
    (Settings.load file).map fun settings => { s with defaults := settings.applyTo s.defaults }
  | .build source launcher program arguments => .ok (s.build source launcher program arguments)

/-- The session after an action, which is the session before if the action fails. -/
def step (s : Session) (a : SessionAction) : Session :=
  match s.attempt a with
  | .ok t => t
  | .error _ => s

/-- The session after actions in order. -/
def run (s : Session) (actions : List SessionAction) : Session := actions.foldl step s

/-- No action removes or changes a context. -/
theorem contexts_prefix_step (s : Session) (a : SessionAction) :
    s.contexts <+: (s.step a).contexts := by
  cases a with
  | derive source change => exact ⟨_, rfl⟩
  | applySettings file =>
    cases h : Settings.load file <;> simp [step, attempt, h, Except.map]
  | _ => exact List.prefix_refl _

/-- No action removes or changes an invocation. -/
theorem built_prefix_step (s : Session) (a : SessionAction) :
    s.built <+: (s.step a).built := by
  cases a with
  | build source launcher program arguments => exact ⟨_, rfl⟩
  | applySettings file =>
    cases h : Settings.load file <;> simp [step, attempt, h, Except.map]
  | _ => exact List.prefix_refl _

end Session

end LvmControl
