import LvmControl.Process.Invocation
import Mathlib.Data.List.Basic
import Mathlib.Data.String.Basic

/-!
# What is launched for a context

An invocation is built from five things that do not know of one another: the context, the program
with its arguments, the helper, whether this process is contained, and the process defaults. The
helper changes what is started and nothing else. For each variable the caller's own value wins, then
the standard locale, then the default group.

A process does not see names and values but texts. It sees the values that were given, except where
a caller names a variable with an equals sign in it: the text of that variable is also found under
the part of its name before the equals sign, if nothing is given for that part itself.

## Main definitions

* `entryText`, `beginsWith`: the text of a variable, and whether it is found under a name.
* `Context.valueOf?`: the value that a context gives to a variable.
* `IsVariableName`: the names under which a process can look for a variable.
* `Context.Strays`: a variable of the context has a name that goes on after another name and an
  equals sign.
* `Invocation.Launches`: an invocation is what a context, a launcher and the process defaults ask
  for.

## Main statements

* `Environment.get?_ofList`: of several values for a name the last counts.
* `Environment.find?_text_of_get?`, `Environment.find?_text_eq_none_iff`: which text a process finds
  for a name.
* `Launcher.launches`: what is built is what is asked for.
* `stray_variable`: a process that sees a value for the locale although none was given.
-/

namespace LvmControl

/-! ## Values in environments -/

section Lookup

variable {l : List (String × String)}

theorem lookup_cons_eq_ite (key : String) (x : String × String) (l : List (String × String)) :
    (x :: l).lookup key = if key = x.1 then some x.2 else l.lookup key := by
  obtain ⟨name, value⟩ := x
  by_cases hkey : key = name
  · simp [hkey]
  · have hbeq : (key == name) = false := by simpa using hkey
    simp [List.lookup_cons, hbeq, hkey]

theorem lookup_isSome_iff_mem {key : String} :
    (l.lookup key).isSome = true ↔ key ∈ l.map Prod.fst := by
  induction l with
  | nil => simp
  | cons x l ih =>
    rw [lookup_cons_eq_ite, List.map_cons, List.mem_cons]
    by_cases hkey : key = x.1
    · simp [hkey]
    · simp [hkey, ih]

/-- Inserting gives a name its value and leaves the others as they are. -/
theorem lookup_insertVariable (key name value : String) (l : List (String × String)) :
    (insertVariable name value l).lookup key = if key = name then some value else l.lookup key := by
  induction l with
  | nil => exact lookup_cons_eq_ite ..
  | cons x l ih =>
    unfold insertVariable
    split
    · exact lookup_cons_eq_ite ..
    · split
      · next hlt =>
        have hne : x.1 ≠ name := fun h => String.lt_irrefl name (h ▸ hlt)
        rw [lookup_cons_eq_ite, lookup_cons_eq_ite, ih]
        by_cases hkey : key = x.1
        · simp [hkey, hne]
        · simp [hkey]
      · next hnlt hngt =>
        have hname : name = x.1 :=
          String.le_antisymm (String.not_lt.mp hngt) (String.not_lt.mp hnlt)
        rw [lookup_cons_eq_ite, lookup_cons_eq_ite, hname]
        by_cases hkey : key = x.1 <;> simp [hkey]

/-- Where every name has one value, it is found from both ends. -/
theorem lookup_reverse (h : Ascending l) (key : String) : l.reverse.lookup key = l.lookup key := by
  induction l with
  | nil => rfl
  | cons x l ih =>
    obtain ⟨hx, hl⟩ := List.pairwise_cons.mp h
    rw [List.reverse_cons, List.lookup_append, ih hl, lookup_cons_eq_ite, lookup_cons_eq_ite]
    by_cases hkey : key = x.1
    · have hnone : l.lookup key = none := by
        refine List.lookup_eq_none_iff.mpr fun y hy => ?_
        have hne : key ≠ y.1 := by
          rw [hkey]
          exact String.ne_of_lt (hx y hy)
        simpa using hne
      simp [hkey, hkey ▸ hnone]
    · simp [hkey]

end Lookup

namespace Environment

theorem get?_foldl_insert (env : Environment) (key : String) (l : List (String × String)) :
    (l.foldl (fun env v => env.insert v.1 v.2) env).get? key =
      (l.reverse.lookup key).or (env.get? key) := by
  induction l generalizing env with
  | nil => rfl
  | cons x l ih =>
    have hinsert : (env.insert x.1 x.2).get? key = if key = x.1 then some x.2 else env.get? key :=
      lookup_insertVariable key x.1 x.2 env.entries
    rw [List.foldl_cons, ih, hinsert, List.reverse_cons, List.lookup_append, Option.or_assoc,
      lookup_cons_eq_ite]
    by_cases hkey : key = x.1 <;> simp [hkey]

/-- Of several values for a name the last counts. -/
theorem get?_ofList (l : List (String × String)) (key : String) :
    (ofList l).get? key = l.reverse.lookup key := by
  rw [ofList, get?_foldl_insert]
  exact Option.or_none ..

/-- An environment that is made from a list has the names of the list. -/
theorem mem_names_ofList {l : List (String × String)} {name : String} :
    name ∈ (ofList l).entries.map Prod.fst ↔ name ∈ l.map Prod.fst := by
  have hlookup : (ofList l).entries.lookup name = l.reverse.lookup name := get?_ofList l name
  rw [← lookup_isSome_iff_mem, hlookup, lookup_isSome_iff_mem, List.map_reverse, List.mem_reverse]

end Environment

/-! ## Texts of variables -/

/-- A text begins with a name and an equals sign, the name having none itself, exactly if it is the
text of this name or of one that goes on after the equals sign. -/
theorem prefix_append_cons_iff {key name value : List Char} (h : '=' ∉ key) :
    key ++ ['='] <+: name ++ '=' :: value ↔ key = name ∨ key ++ ['='] <+: name := by
  induction key generalizing name with
  | nil =>
    cases name with
    | nil => simp
    | cons c name => simp [List.cons_prefix_cons]
  | cons d key ih =>
    obtain ⟨hd, hkey⟩ := not_or.mp (mt List.mem_cons.mpr h)
    cases name with
    | nil => simp [List.cons_prefix_cons, Ne.symm hd]
    | cons c name =>
      simp only [List.cons_append, List.cons_prefix_cons, ih hkey, List.cons.injEq]
      tauto

/-- A name is before every name that goes on after it. -/
theorem lt_of_begins {name other : String} (h : (name ++ "=").toList <+: other.toList) :
    name < other := by
  obtain ⟨rest, hrest⟩ := h
  have hlt : ∀ a : List Char, a < a ++ '=' :: rest := by
    intro a
    induction a with
    | nil => exact List.nil_lt_cons ..
    | cons c a ih => exact List.cons_lt_cons_iff.mpr (.inr ⟨rfl, ih⟩)
  rw [String.lt_iff_toList_lt, ← hrest]
  simpa using hlt name.toList

/-- The text of a variable. -/
def entryText (entry : String × String) : String := entry.1 ++ "=" ++ entry.2

/-- Whether the text of a variable begins with a name and an equals sign. -/
def beginsWith (name : String) (entry : String × String) : Bool :=
  (name ++ "=").toList.isPrefixOf (entryText entry).toList

/-- The text of a variable is found under its name, and under a name after which its own name goes
on with an equals sign. -/
theorem beginsWith_iff {key : String} (h : '=' ∉ key.toList) (entry : String × String) :
    beginsWith key entry = true ↔ key = entry.1 ∨ (key ++ "=").toList <+: entry.1.toList := by
  have htext : (entryText entry).toList = entry.1.toList ++ '=' :: entry.2.toList := by
    simp [entryText]
  have hkey : (key ++ "=").toList = key.toList ++ ['='] := by simp
  rw [beginsWith, List.isPrefixOf_iff_prefix, htext, hkey, prefix_append_cons_iff h,
    String.toList_inj]

namespace Environment

variable {env : Environment} {key value : String}

/-- A process finds the value that a variable has, as no text before it begins in the same way. -/
theorem find?_text_of_get? (h : '=' ∉ key.toList) (hvalue : env.get? key = some value) :
    env.entries.find? (beginsWith key) = some (key, value) := by
  obtain ⟨before, after, hentries, -⟩ := List.lookup_eq_some_iff.mp hvalue
  refine List.find?_eq_some_iff_append.mpr
    ⟨(beginsWith_iff h _).mpr (.inl rfl), before, after, hentries, fun entry hentry => ?_⟩
  have hascending : Ascending (before ++ (key, value) :: after) := hentries ▸ env.ascending
  have hlt : entry.1 < key :=
    (List.pairwise_append.mp hascending).2.2 entry hentry _ List.mem_cons_self
  rw [Bool.not_eq_true', ← Bool.not_eq_true, beginsWith_iff h]
  rintro (hsame | hbegins)
  · exact String.ne_of_lt hlt hsame.symm
  · exact String.lt_asymm hlt (lt_of_begins hbegins)

/-- For a name without a value a process finds nothing exactly if no name goes on after it with an
equals sign. -/
theorem find?_text_eq_none_iff (h : '=' ∉ key.toList) (hvalue : env.get? key = none) :
    env.entries.find? (beginsWith key) = none ↔
      ∀ name ∈ env.entries.map Prod.fst, ¬ (key ++ "=").toList <+: name.toList := by
  rw [List.find?_eq_none, List.forall_mem_map]
  refine forall₂_congr fun entry hentry => not_congr ?_
  rw [beginsWith_iff h, or_iff_right]
  rintro rfl
  have hmem : (env.entries.lookup entry.1).isSome = true :=
    lookup_isSome_iff_mem.mpr (List.mem_map_of_mem hentry)
  rw [show env.entries.lookup entry.1 = none from hvalue] at hmem
  cases hmem

end Environment

/-! ## Variables of a context -/

/-- A name under which a process can look for a variable: it is not empty and holds neither an
equals sign nor the character that ends texts. -/
def IsVariableName (name : String) : Prop :=
  name ≠ "" ∧ '=' ∉ name.toList ∧ '\x00' ∉ name.toList

instance (name : String) : Decidable (IsVariableName name) :=
  inferInstanceAs (Decidable (name ≠ "" ∧ '=' ∉ name.toList ∧ '\x00' ∉ name.toList))

namespace Context

/-- The value that a context gives to a variable: the caller's own, or else the standard locale or
the default group. -/
def valueOf? (ctx : Context) (defaults : Defaults) (name : String) : Option String :=
  match ctx.environment.bind fun env => env.get? name with
  | some value => some value
  | none =>
    if name = "LC_ALL" ∧ defaults.standardLocale = true then some "C"
    else if name = "LVM_VG_NAME" then ctx.defaultGroup.map VolumeGroupName.text
    else none

/-- A variable of the caller has a name that goes on after this one with an equals sign. -/
def Strays (ctx : Context) (name : String) : Prop :=
  ∃ env, ctx.environment = some env ∧
    ∃ other ∈ env.entries.map Prod.fst, (name ++ "=").toList <+: other.toList

/-- The value that is given last is the one that the context gives. -/
theorem lookup_reverse_entries (ctx : Context) (defaults : Defaults) (name : String) :
    (ctx.entries defaults).reverse.lookup name = ctx.valueOf? defaults name := by
  have hcustom : ((ctx.environment.map Environment.entries).getD []).reverse.lookup name =
      ctx.environment.bind fun env => env.get? name := by
    cases ctx.environment with
    | none => rfl
    | some env => exact lookup_reverse env.ascending name
  have hlocale : (if defaults.standardLocale then [localeVariable] else []).reverse.lookup name =
      if name = "LC_ALL" ∧ defaults.standardLocale = true then some "C" else none := by
    cases defaults.standardLocale with
    | false => simp
    | true => simp [localeVariable]
  have hgroup :
      (ctx.defaultGroup.toList.map fun group => (groupVariable, group.text)).reverse.lookup name =
        if name = "LVM_VG_NAME" then ctx.defaultGroup.map VolumeGroupName.text else none := by
    cases ctx.defaultGroup with
    | none => simp
    | some group => simp [groupVariable]
  rw [entries, List.reverse_append, List.reverse_append, List.lookup_append, List.lookup_append,
    hcustom, hlocale, hgroup, valueOf?]
  cases ctx.environment.bind fun env => env.get? name with
  | some value => rfl
  | none =>
    rw [Option.none_or]
    split <;> rfl

/-- The names that a process is given are those of the caller and two that hold no equals sign. -/
theorem mem_names_entries_cases {ctx : Context} {defaults : Defaults} {name : String}
    (h : name ∈ (ctx.entries defaults).map Prod.fst) :
    '=' ∉ name.toList ∨
      ∃ env, ctx.environment = some env ∧ name ∈ env.entries.map Prod.fst := by
  rw [entries, List.map_append, List.map_append, List.mem_append, List.mem_append] at h
  rcases h with (hgroup | hlocale) | hcustom
  · left
    cases hdefault : ctx.defaultGroup with
    | none => simp [hdefault] at hgroup
    | some group =>
      obtain rfl : name = groupVariable := by simpa [hdefault] using hgroup
      decide
  · left
    split at hlocale
    · obtain rfl : name = localeVariable.1 := by simpa using hlocale
      decide
    · simp at hlocale
  · right
    cases henv : ctx.environment with
    | none => simp [henv] at hcustom
    | some env => exact ⟨env, rfl, by simpa [henv] using hcustom⟩

theorem mem_names_entries {ctx : Context} {defaults : Defaults} {env : Environment} {name : String}
    (henv : ctx.environment = some env) (h : name ∈ env.entries.map Prod.fst) :
    name ∈ (ctx.entries defaults).map Prod.fst := by
  rw [entries, List.map_append, henv]
  exact List.mem_append_right _ h

/-- A name strays for a process exactly if it does so for the caller. -/
theorem strays_iff {ctx : Context} (defaults : Defaults) {name : String} :
    ctx.Strays name ↔
      ∃ other ∈ (ctx.entries defaults).map Prod.fst, (name ++ "=").toList <+: other.toList := by
  constructor
  · rintro ⟨env, henv, other, hother, hbegins⟩
    exact ⟨other, mem_names_entries henv hother, hbegins⟩
  · rintro ⟨other, hother, hbegins⟩
    rcases mem_names_entries_cases hother with hnone | ⟨env, henv, hmem⟩
    · exact absurd (hbegins.subset (by simp)) hnone
    · exact ⟨env, henv, other, hmem, hbegins⟩

end Context

/-! ## Invocations -/

/-- An invocation is what a context, a launcher and the process defaults ask for. -/
structure Invocation.Launches (launcher : Launcher) (defaults : Defaults) (ctx : Context)
    (program : String) (arguments : List String) (inv : Invocation) : Prop where
  /-- The program is started through the helper exactly inside a container and without bypass. -/
  bridged_iff : inv.bridged = true ↔ launcher.containerized = true ∧ ctx.bypass = false
  /-- The helper enters the namespaces of process 1 and starts the program with its arguments. -/
  through_helper : inv.bridged = true →
    inv.program = launcher.helper ∧
      inv.arguments = ["-m", "-u", "-i", "-n", "-p", "-t", "1"] ++ program :: arguments
  direct : inv.bridged = false → inv.program = program ∧ inv.arguments = arguments
  waitDelay : inv.waitDelay = ctx.waitDelay.getD defaults.waitDelay
  token : inv.token = ctx.token
  /-- Nothing else depends on the helper, on the containment, on the bypass or on what is
  started. -/
  independent : ∀ (other : Launcher) (bypass : Bool) (program' : String) (arguments' : List String),
    let inv' := other.build defaults { ctx with bypass := bypass } program' arguments'
    inv'.environment = inv.environment ∧ inv'.waitDelay = inv.waitDelay ∧ inv'.token = inv.token
  /-- The value given last for a variable is the caller's, or else the automatic one. -/
  value?_eq : ∀ name, inv.value? name = ctx.valueOf? defaults name
  /-- This is what the process sees, unless nothing is given for the name and another one strays. -/
  lookup?_eq_iff : ∀ name, IsVariableName name →
    (inv.lookup? name = ctx.valueOf? defaults name ↔
      ¬ (ctx.valueOf? defaults name = none ∧ ctx.Strays name))

namespace Invocation

variable {inv : Invocation} {name : String}

/-- What a process finds for the name of a variable is the value of the first text that begins with
the name and an equals sign. -/
theorem lookup?_eq (h : IsVariableName name) :
    inv.lookup? name = ((Environment.ofList inv.environment).entries.find? (beginsWith name)).map
      fun entry => String.ofList ((entryText entry).toList.drop (name.length + 1)) := by
  obtain ⟨hempty, -, hnull⟩ := h
  have hname : (name = "" || name.toList.contains '\x00') = false := by simp [hempty, hnull]
  have htexts : inv.variableTexts = (Environment.ofList inv.environment).entries.map entryText :=
    rfl
  rw [lookup?, hname, htexts, List.find?_map, Option.map_map]
  rfl

/-- A value that is given for a name is what a process sees. -/
theorem lookup?_of_value? (h : IsVariableName name) {value : String}
    (hvalue : inv.value? name = some value) : inv.lookup? name = some value := by
  have hget : (Environment.ofList inv.environment).get? name = some value := by
    rw [Environment.get?_ofList]
    exact hvalue
  have htext : (entryText (name, value)).toList = (name.toList ++ ['=']) ++ value.toList := by
    simp [entryText]
  have hlength : (name.toList ++ ['=']).length = name.length + 1 := by
    rw [List.length_append, String.length_toList, List.length_singleton]
  rw [lookup?_eq h, Environment.find?_text_of_get? h.2.1 hget, Option.map_some, htext,
    List.drop_left' hlength, String.ofList_toList]

/-- A process sees nothing for a name without a value exactly if no name goes on after it with an
equals sign. -/
theorem lookup?_eq_none_iff (h : IsVariableName name) (hvalue : inv.value? name = none) :
    inv.lookup? name = none ↔
      ∀ other ∈ inv.environment.map Prod.fst, ¬ (name ++ "=").toList <+: other.toList := by
  have hget : (Environment.ofList inv.environment).get? name = none := by
    rw [Environment.get?_ofList]
    exact hvalue
  rw [lookup?_eq h, Option.map_eq_none_iff, Environment.find?_text_eq_none_iff h.2.1 hget]
  simp only [Environment.mem_names_ofList]

end Invocation

namespace Launcher

/-- What is built has the values that the context gives. -/
theorem value?_build (launcher : Launcher) (defaults : Defaults) (ctx : Context) (program : String)
    (arguments : List String) (name : String) :
    (launcher.build defaults ctx program arguments).value? name = ctx.valueOf? defaults name :=
  ctx.lookup_reverse_entries defaults name

/-- **Launches.** What is built for a context is what the context, the launcher and the process
defaults ask for. -/
theorem launches (launcher : Launcher) (defaults : Defaults) (ctx : Context) (program : String)
    (arguments : List String) :
    (launcher.build defaults ctx program arguments).Launches launcher defaults ctx program
      arguments where
  bridged_iff := by simp [build, bridges]
  through_helper hbridged := by
    have hbridges : launcher.bridges ctx = true := hbridged
    simp [build, hbridges, namespaceArguments]
  direct hbridged := by
    have hbridges : launcher.bridges ctx = false := hbridged
    simp [build, hbridges]
  waitDelay := rfl
  token := rfl
  independent _ _ _ _ := ⟨rfl, rfl, rfl⟩
  value?_eq := launcher.value?_build defaults ctx program arguments
  lookup?_eq_iff name hname := by
    have hvalue := launcher.value?_build defaults ctx program arguments name
    cases hgiven : ctx.valueOf? defaults name with
    | some value =>
      have hseen := Invocation.lookup?_of_value? hname (hvalue.trans hgiven)
      simp [hseen]
    | none =>
      have hseen := Invocation.lookup?_eq_none_iff hname (hvalue.trans hgiven)
      rw [hseen, Context.strays_iff defaults]
      simp [build]

end Launcher

/-! ## A name that strays -/

/-- A context in which the caller names a variable with an equals sign. -/
def strayContext : Context where
  environment := some (Environment.ofList [("LC_ALL=", "q")])

/-- Nothing is given for the locale, and yet the process sees a value for it. -/
theorem stray_variable :
    IsVariableName "LC_ALL" ∧ strayContext.valueOf? {} "LC_ALL" = none ∧
      ((⟨"/usr/bin/nsenter", false⟩ : Launcher).build {} strayContext "lvm"
        ["version", "--yes"]).value? "LC_ALL" = none ∧
      ((⟨"/usr/bin/nsenter", false⟩ : Launcher).build {} strayContext "lvm"
        ["version", "--yes"]).lookup? "LC_ALL" = some "=q" := by
  decide +kernel

end LvmControl
