import LvmControl.Name
import LvmControl.Process.Duration

/-!
# Contexts of calls

A context carries what shapes how one command is launched: variables for its environment, how long
to wait for its output, a default volume group, whether the host's namespaces are entered and a
cancellation token. Two values are not part of a context but of the process that this library runs
in: whether commands use the standard locale, and the wait delay of contexts without one.

## Main definitions

* `Environment`: variables in the order of their names, each with one value.
* `Token`: a cancellation token by name. Whether it has fired is not part of it.
* `Context`, `Defaults`: what belongs to a call and what to the process.
* `ContextChange`, `Context.change`: the ways to derive a context from another.
* `Overrides`: several changes made at once.

## Design notes

**Contexts are values.** Deriving a context leaves the one it is derived from alone, so contexts can
be shared. What is read when it is used, the default wait delay and the state of a token, is an
argument of the function that reads it.
-/

namespace LvmControl

/-! ## Environments -/

/-- Adds a variable to a list in the order of names, or gives it a new value. -/
def insertVariable (name value : String) : List (String × String) → List (String × String)
  | [] => [(name, value)]
  | (n, v) :: rest =>
    if name < n then (name, value) :: (n, v) :: rest
    else if n < name then (n, v) :: insertVariable name value rest
    else (name, value) :: rest

/-- Whether the names of a list of variables ascend. -/
def Ascending (entries : List (String × String)) : Prop :=
  entries.Pairwise fun a b => a.1 < b.1

/-- The names after an insertion are those before and the one inserted. -/
theorem fst_mem_insertVariable {name value n : String} {l : List (String × String)} :
    n ∈ (insertVariable name value l).map Prod.fst → n = name ∨ n ∈ l.map Prod.fst := by
  induction l with
  | nil => simp [insertVariable]
  | cons x l ih =>
    unfold insertVariable
    split
    · simp
    · split
      · simp only [List.map_cons, List.mem_cons]
        rintro (rfl | h)
        · exact .inr (.inl rfl)
        · rcases ih h with h | h
          · exact .inl h
          · exact .inr (.inr h)
      · simp only [List.map_cons, List.mem_cons]
        rintro (h | h)
        · exact .inl h
        · exact .inr (.inr h)

/-- Inserting keeps the names ascending. -/
theorem Ascending.insertVariable {l : List (String × String)} (h : Ascending l)
    (name value : String) : Ascending (insertVariable name value l) := by
  induction l with
  | nil => simp [LvmControl.insertVariable, Ascending]
  | cons x l ih =>
    obtain ⟨n, v⟩ := x
    have hx := List.pairwise_cons.mp h
    unfold LvmControl.insertVariable
    split
    · rename_i hlt
      refine List.pairwise_cons.mpr ⟨?_, h⟩
      intro y hy
      rcases List.mem_cons.mp hy with rfl | hy
      · exact hlt
      · exact String.lt_trans hlt (hx.1 y hy)
    · split
      · rename_i hnlt hlt
        refine List.pairwise_cons.mpr ⟨?_, ih hx.2⟩
        intro y hy
        rcases fst_mem_insertVariable (List.mem_map_of_mem (f := Prod.fst) hy) with h' | h'
        · exact h' ▸ hlt
        · obtain ⟨z, hz, hzy⟩ := List.mem_map.mp h'
          exact hzy ▸ hx.1 z hz
      · rename_i hnlt hngt
        have hn : name = n :=
          String.le_antisymm (String.not_lt.mp hngt) (String.not_lt.mp hnlt)
        subst hn
        exact List.pairwise_cons.mpr ⟨fun y hy => hx.1 y hy, hx.2⟩

/-- Variables in the order of their names. -/
structure Environment where
  entries : List (String × String)
  ascending : Ascending entries
deriving DecidableEq

namespace Environment

/-- No variables. -/
def empty : Environment := ⟨[], List.Pairwise.nil⟩

/-- Adds a variable or gives it a new value. -/
def insert (env : Environment) (name value : String) : Environment :=
  ⟨insertVariable name value env.entries, env.ascending.insertVariable name value⟩

/-- The variables of a list; of several values for one name the last counts. -/
def ofList (l : List (String × String)) : Environment :=
  l.foldl (fun env v => env.insert v.1 v.2) empty

/-- The value of a variable. -/
def get? (env : Environment) (name : String) : Option String := env.entries.lookup name

end Environment

/-! ## Contexts -/

/-- A cancellation token. -/
structure Token where
  label : String
deriving DecidableEq, Repr

/-- What shapes how a command is launched. -/
structure Context where
  /-- Variables to add to the environment. -/
  environment : Option Environment := none
  /-- How long to wait for the output of a command that has exited. -/
  waitDelay : Option Duration := none
  /-- The volume group that stands in for one left out. -/
  defaultGroup : Option VolumeGroupName := none
  /-- Whether commands run where this process runs, even inside a container. -/
  bypass : Bool := false
  /-- The token that cancels the call. -/
  token : Option Token := none
deriving DecidableEq

/-- What belongs to the process and not to a call. -/
structure Defaults where
  /-- Whether commands use the standard locale. -/
  standardLocale : Bool := false
  /-- The wait delay of contexts that have none. -/
  waitDelay : Duration := .zero
deriving DecidableEq, Repr

/-- Changes of a context that are made together; what is absent stays as it is. -/
structure Overrides where
  environment : Option Environment := none
  waitDelay : Option Duration := none
  defaultGroup : Option VolumeGroupName := none
deriving DecidableEq

/-- A way to derive a context from another. -/
inductive ContextChange
  | environment (env : Environment)
  | waitDelay (delay : Duration)
  | defaultGroup (group : VolumeGroupName)
  | bypass (on : Bool)
  | token (token : Token)
  | overrides (o : Overrides)
deriving DecidableEq

namespace Context

/-- The context with the overrides made. -/
def override (ctx : Context) (o : Overrides) : Context :=
  { ctx with
    environment := o.environment.or ctx.environment
    waitDelay := o.waitDelay.or ctx.waitDelay
    defaultGroup := o.defaultGroup.or ctx.defaultGroup }

/-- The context derived by a change. -/
def change (ctx : Context) : ContextChange → Context
  | .environment env => { ctx with environment := some env }
  | .waitDelay delay => { ctx with waitDelay := some delay }
  | .defaultGroup group => { ctx with defaultGroup := some group }
  | .bypass on => { ctx with bypass := on }
  | .token token => { ctx with token := some token }
  | .overrides o => ctx.override o

/-- The wait delay of the context, or else of the process. -/
def effectiveDelay (ctx : Context) (defaults : Defaults) : Duration :=
  ctx.waitDelay.getD defaults.waitDelay

/-- Whether the token of the context is among those that have fired. -/
def isCancelled (ctx : Context) (fired : List Token) : Bool := ctx.token.any fired.contains

end Context

/-- A field that each step of a fold replaces if it has a value for it, and leaves alone otherwise,
has in the end the value of the last step that has one. -/
theorem field_foldl {σ α β : Type} {step : σ → α → σ} (field : σ → Option β)
    {value? : α → Option β}
    (hstep : ∀ s a, field (step s a) = (value? a).or (field s)) (s : σ) (l : List α) :
    field (l.foldl step s) = ((l.filterMap value?).getLast?).or (field s) := by
  induction l generalizing s with
  | nil => rfl
  | cons a rest ih =>
    rw [List.foldl_cons, ih, hstep]
    cases hvalue : value? a with
    | none => simp [hvalue]
    | some value =>
      rw [List.filterMap_cons_some hvalue, List.getLast?_cons]
      cases (rest.filterMap value?).getLast? <;> rfl

end LvmControl
