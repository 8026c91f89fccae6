import LvmControl.Process.Invocation
import LvmControl.Text.Split
import LvmControl.Text.Utf8

/-!
# Running a process

What becomes of an invocation: a process is started or not, writes to its two output pipes, exits or
is killed, and at some point everybody who holds its pipes has closed them. The order of these
events is not known beforehand, so supervising a process is a machine that takes one event after
another and at some point has an outcome.

## Main definitions

* `StartFault`, `ProcessError`: how running a process can fail.
* `Status`: how a process ended.
* `Event`: what can happen to a process under supervision.
* `Supervision`: the state of the machine; `Supervision.step` takes an event.
* `Invocation.supervise`: an invocation run under a sequence of events.

## Design notes

**Cancellation before and after the exit.** A token that has fired prevents the start. While the
process runs, exit and cancellation race and the first of them decides; after the exit a
cancellation changes nothing.

**Pipes outlive processes.** A grandchild may keep a pipe open. After the exit the supervisor waits
for both pipes, but no longer than the wait delay unless that is zero. When it gives up, a process
that succeeded is reported as having left its pipes open, since its output is not complete, and a
process that failed is reported as failed, with the diagnostics read until then.

**What is left out after a cancellation.** A process whose call is cancelled while it runs is
killed, and its end is waited for, no longer than the wait delay unless that is zero. Neither its
status nor its output is looked at then, and what the wait comes to is only logged: the call has
been cancelled either way. The kill and the wait decide when the caller hears of it and not what it
hears, so the machine is over with the cancellation.
-/

namespace LvmControl

/-- Why a process could not be started. -/
inductive StartFault
  /-- A text meant for the process holds the character that ends texts for the system, which was
  therefore not asked. -/
  | nullInText
  /-- The system refused, in its own words. -/
  | system (cause : String)
deriving DecidableEq, Repr

/-- The wording of a fault. -/
def StartFault.message : StartFault → String
  | .nullInText => "nul byte found in provided data"
  | .system cause => cause

/-- How running a process can fail. -/
inductive ProcessError
  /-- The process could not be started. -/
  | notStarted (program : String) (fault : StartFault)
  /-- The process exited without success, or was killed by a signal and has no code. -/
  | exited (code : Option Int) (stderr : String)
  /-- The call was cancelled. -/
  | cancelled
  /-- The process succeeded, but its pipes were still open after the delay. -/
  | pipesOpen (delay : Duration)
  /-- The system failed while the process was supervised. -/
  | system (cause : String)
deriving DecidableEq, Repr

namespace ProcessError

/-- The diagnostics of a process that failed. -/
def stderr? : ProcessError → Option String
  | .exited _ stderr => some stderr
  | _ => none

/-- The exit code of a process that failed and has one. -/
def exitCode? : ProcessError → Option Int
  | .exited code _ => code
  | _ => none

/-- How a process ended, in words. -/
def describeCode : Option Int → String
  | some code => "status " ++ toString code
  | none => "no status (killed by signal)"

/-- The wording of a failure. -/
def message : ProcessError → String
  | .notStarted program fault => "failed to start '" ++ program ++ "': " ++ fault.message
  | .exited code stderr =>
    "command exited with " ++ describeCode code ++ ": " ++ Text.trimmed stderr
  | .cancelled => "command cancelled"
  | .pipesOpen delay => "output pipes still open " ++ delay.text ++ " after the command exited"
  | .system cause => "i/o error while running command: " ++ cause

end ProcessError

/-- How a process ended. -/
inductive Status
  | code (n : Nat)
  | signal
deriving DecidableEq, Repr

namespace Status

/-- Only an exit with code zero is a success. -/
def isSuccess : Status → Bool
  | .code n => n = 0
  | .signal => false

/-- The exit code, if there is one. -/
def code? : Status → Option Int
  | .code n => some n
  | .signal => none

end Status

/-- What a successful process printed. -/
structure Output where
  stdout : String
  stderr : String
deriving DecidableEq, Repr

/-- The outcome of running a process. -/
abbrev Outcome := Except ProcessError Output

/-- The output pipes of a process. -/
inductive Pipe
  | out
  | err
deriving DecidableEq, Repr

/-- What can happen to a process under supervision. -/
inductive Event
  /-- Bytes arrive from a pipe. -/
  | wrote (pipe : Pipe) (bytes : List UInt8)
  /-- A pipe has been closed by everybody. -/
  | closed (pipe : Pipe)
  /-- The process ends. -/
  | exit (status : Status)
  /-- The token of the call fires. -/
  | cancel
  /-- The wait delay has passed since the exit. -/
  | delayElapsed
deriving DecidableEq, Repr

/-- How far the supervision of a process has come. -/
inductive Phase
  | running
  /-- The process has ended, and its pipes are waited for. -/
  | draining (status : Status)
  | over (outcome : Outcome)

/-- The state of supervising a process. -/
structure Supervision where
  /-- How long to wait for the pipes, zero for ever. -/
  delay : Duration
  /-- Whether the call has a token that could cancel it. -/
  cancellable : Bool
  phase : Phase := .running
  stdout : List UInt8 := []
  stderr : List UInt8 := []
  stdoutOpen : Bool := true
  stderrOpen : Bool := true

namespace Supervision

/-- The outcome of a process that ended with the status, all its output having been read. -/
def fullOutcome (s : Supervision) (status : Status) : Outcome :=
  if status.isSuccess then .ok ⟨Text.decodeLossy s.stdout, Text.decodeLossy s.stderr⟩
  else .error (.exited status.code? (Text.decodeLossy s.stderr))

/-- The outcome of a process that ended with the status, its pipes having been given up on. -/
def partialOutcome (s : Supervision) (status : Status) : Outcome :=
  if status.isSuccess then .error (.pipesOpen s.delay)
  else .error (.exited status.code? (Text.decodeLossy s.stderr))

/-- Settles the outcome if the process has ended and both pipes are closed. -/
def settle (s : Supervision) : Supervision :=
  match s.phase with
  | .draining status =>
    if s.stdoutOpen || s.stderrOpen then s else { s with phase := .over (s.fullOutcome status) }
  | _ => s

/-- Takes bytes from a pipe into account. -/
def read (s : Supervision) (bytes : List UInt8) : Pipe → Supervision
  | .out => { s with stdout := s.stdout ++ bytes }
  | .err => { s with stderr := s.stderr ++ bytes }

/-- Takes the closing of a pipe into account. -/
def close (s : Supervision) : Pipe → Supervision
  | .out => { s with stdoutOpen := false }
  | .err => { s with stderrOpen := false }

/-- Takes an event into account. Nothing happens once there is an outcome. -/
def step (s : Supervision) (e : Event) : Supervision :=
  match s.phase, e with
  | .over _, _ => s
  | _, .wrote pipe bytes => s.read bytes pipe
  | _, .closed pipe => (s.close pipe).settle
  | .running, .exit status => { s with phase := .draining status }.settle
  | .running, .cancel =>
    if s.cancellable then { s with phase := .over (.error .cancelled) } else s
  | .draining status, .delayElapsed =>
    if s.delay = .zero then s else { s with phase := .over (s.partialOutcome status) }
  | .running, .delayElapsed => s
  | .draining _, .exit _ => s
  | .draining _, .cancel => s

/-- The outcome, if there is one already. -/
def outcome? (s : Supervision) : Option Outcome :=
  match s.phase with
  | .over outcome => some outcome
  | _ => none

end Supervision

/-- What became of an invocation. -/
structure Fate where
  /-- Whether a process was started. -/
  started : Bool
  /-- The outcome, or `none` while there is none. -/
  outcome : Option Outcome

namespace Invocation

/-- The supervision of a process that has just been started. -/
def supervision (inv : Invocation) : Supervision where
  delay := inv.waitDelay
  cancellable := inv.token.isSome

/-- Runs an invocation. The tokens that have fired, why the process cannot be started and the events
after the start, in order, are given. -/
def supervise (inv : Invocation) (fired : List Token) (obstacle : Option StartFault)
    (events : List Event) : Fate :=
  if inv.token.any fired.contains then ⟨false, some (.error .cancelled)⟩
  else
    match obstacle with
    | some fault => ⟨false, some (.error (.notStarted inv.program fault))⟩
    | none => ⟨true, (events.foldl Supervision.step inv.supervision).outcome?⟩

end Invocation

end LvmControl
