import LvmControl.Process.Run

/-!
# Programs that behave as told

A description of what a program does once it is started, enough to foretell the events that its
supervisor sees. It stands for the tools where they are not there.

## Main definitions

* `Program`: what a program prints, how it ends, and how long its pipes stay open after that.
* `Program.events`: the events that its supervisor sees, in order.
* `Invocation.obstacle?`: why an invocation cannot be started at all.
* `Program.fate`: an invocation of the program.
-/

namespace LvmControl

/-- What a program does once it is started. -/
structure Program where
  stdout : List UInt8 := []
  stderr : List UInt8 := []
  /-- How it ends, or `none` for a program that goes on until it is killed. -/
  ending : Option Status := some (.code 0)
  /-- How long the pipes stay open after it has ended. -/
  pipesHeld : Duration := .zero
  /-- Whether there is such a program. -/
  present : Bool := true

/-- The most bytes that a text for a process may have. -/
def longestText : Nat := 131071

/-- Why an invocation cannot be started. First, no text may hold the character that ends texts for
the system; then the system must find the program and take the texts. -/
def Invocation.obstacle? (inv : Invocation) (present : Bool) : Option StartFault :=
  let texts := inv.program :: inv.arguments ++ inv.variableTexts
  if texts.any fun t => t.toList.contains '\x00' then some .nullInText
  else if !present then some (.system "No such file or directory (os error 2)")
  else if texts.any fun t => longestText < t.utf8ByteSize then
    some (.system "Argument list too long (os error 7)")
  else none

namespace Program

/-- What happens to the pipes after the program has ended: they are closed at once or, if they are
held for at least the wait delay, after it. -/
def pipeEvents (p : Program) (delay : Duration) : List Event :=
  (if delay ≠ .zero ∧ delay.nanos ≤ p.pipesHeld.nanos then [.delayElapsed] else []) ++
    [.closed .out, .closed .err]

/-- What happens when the program is started, the call being cancelled right after the start or
not at all. -/
def events (p : Program) (delay : Duration) (cancelled : Bool) : List Event :=
  [.wrote .out p.stdout, .wrote .err p.stderr] ++ (if cancelled then [.cancel] else []) ++
    match p.ending with
    | none => []
    | some status => .exit status :: p.pipeEvents delay

/-- What becomes of an invocation of the program. -/
def fate (p : Program) (fired : List Token) (cancelled : Bool) (inv : Invocation) : Fate :=
  inv.supervise fired (inv.obstacle? p.present) (p.events inv.waitDelay cancelled)

end Program

end LvmControl
