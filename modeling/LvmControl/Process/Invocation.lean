import LvmControl.Process.Context

/-!
# Invocations

An invocation is the exact process to start. Inside a container the tools have to run in the
namespaces of the host, so there the program is not started itself: a helper is, which enters the
namespaces of process 1 and starts the program there.

## Main definitions

* `Launcher`: the helper and whether it is needed.
* `Invocation`: program, arguments, and the variables added to the inherited environment.
* `Launcher.build`: the invocation for a context, a program and its arguments.
* `Invocation.value?`: the value given last for a variable among those added.
* `Invocation.variableTexts`: the variables as they are handed to the process.
* `Invocation.lookup?`: what the process finds for a name.

## Design notes

**Later entries win.** The variables are added in order: the default volume group, the standard
locale, and those of the context in the order of their names. A process sees the last value given
for a name, so a caller's variable wins over both automatic ones.

**A process sees texts.** A variable reaches a process as one text, its name and its value with an
equals sign between them. Where a name holds an equals sign itself, the text can be cut in several
ways, and what a process finds for a name depends on the order of the texts.
-/

namespace LvmControl

/-- How programs are started. -/
structure Launcher where
  /-- The helper that enters the namespaces of the host. -/
  helper : String := "/usr/bin/nsenter"
  /-- Whether this process runs inside a container. -/
  containerized : Bool
deriving DecidableEq, Repr

/-- A process to start. -/
structure Invocation where
  program : String
  arguments : List String
  /-- The variables added to the inherited environment, in order. -/
  environment : List (String × String)
  waitDelay : Duration
  token : Option Token
  /-- Whether the program is the helper. -/
  bridged : Bool
deriving DecidableEq

/-- The arguments of the helper ahead of the program it starts: enter the mount, uts, ipc, network
and process namespaces of process 1. -/
def namespaceArguments : List String := ["-m", "-u", "-i", "-n", "-p", "-t", "1"]

/-- The variable that carries the default volume group. -/
def groupVariable : String := "LVM_VG_NAME"

/-- The variable that carries the locale, and the standard locale. -/
def localeVariable : String × String := ("LC_ALL", "C")

/-- The entries added to the environment for a context. -/
def Context.entries (ctx : Context) (defaults : Defaults) : List (String × String) :=
  (ctx.defaultGroup.toList.map fun group => (groupVariable, group.text)) ++
    (if defaults.standardLocale then [localeVariable] else []) ++
    (ctx.environment.map Environment.entries).getD []

namespace Launcher

/-- Whether a command for the context goes through the helper. -/
def bridges (launcher : Launcher) (ctx : Context) : Bool :=
  launcher.containerized && !ctx.bypass

/-- The invocation of a program for a context. -/
def build (launcher : Launcher) (defaults : Defaults) (ctx : Context) (program : String)
    (arguments : List String) : Invocation where
  program := if launcher.bridges ctx then launcher.helper else program
  arguments :=
    if launcher.bridges ctx then namespaceArguments ++ program :: arguments else arguments
  environment := ctx.entries defaults
  waitDelay := ctx.effectiveDelay defaults
  token := ctx.token
  bridged := launcher.bridges ctx

end Launcher

namespace Invocation

/-- The value of a variable among those added, which is the last one given for it. -/
def value? (inv : Invocation) (name : String) : Option String :=
  inv.environment.reverse.lookup name

/-- The variables as texts in the order of their names, each name with the value given last. -/
def variableTexts (inv : Invocation) : List String :=
  (Environment.ofList inv.environment).entries.map fun (name, value) => name ++ "=" ++ value

/-- What the process finds for a name among the variables added: the rest of the first text that
starts with the name and an equals sign. Nothing is found for the empty name, or for one that holds
the character that ends texts. -/
def lookup? (inv : Invocation) (name : String) : Option String :=
  if name = "" || name.toList.contains '\x00' then none
  else
    (inv.variableTexts.find? fun text =>
      (name ++ "=").toList.isPrefixOf text.toList).map fun text =>
        String.ofList (text.toList.drop (name.length + 1))

/-- The program and its arguments with blanks between them. -/
def text (inv : Invocation) : String :=
  String.intercalate " " (inv.program :: inv.arguments)

/-- The text `A=B=2` can be cut after either equals sign, and the first text that fits counts. -/
example :
    let inv : Invocation := ⟨"lvm", [], [("A=B", "2"), ("C", "1"), ("C", "3")], .zero, none, false⟩
    (["A", "A=B", "B", "C", ""].map inv.lookup?) =
      [some "B=2", some "2", none, some "3", none] := by
  decide +kernel

end Invocation

end LvmControl
