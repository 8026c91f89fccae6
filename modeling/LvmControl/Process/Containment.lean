/-!
# Detecting containment

Whether this process runs inside a container is found out by looking for the marks that container
runtimes leave, in a fixed order, until one is found. The answer is kept.

## Main definitions

* `Probe`: a question to the surroundings, about a path or an environment variable.
* `containmentProbes`: the questions, in order.
* `detect`: the answer, and the questions that were asked to find it.
* `Detector`: a detector that has, or has not yet, been asked.
-/

namespace LvmControl

/-- A question to the surroundings of this process. -/
inductive Probe
  /-- Is there something at the path? -/
  | path (path : String)
  /-- Is the environment variable set? -/
  | variable (name : String)
deriving DecidableEq, Repr

/-- The marks of container runtimes, in the order in which they are looked for. -/
def containmentProbes : List Probe :=
  [.path "/.dockerenv", .path "/.containerenv", .variable "KUBERNETES_SERVICE_HOST",
   .path "/var/run/secrets/kubernetes.io/serviceaccount/token"]

/-- Asks questions until one is answered with yes: whether one was, and the questions asked. -/
def detect (answer : Probe → Bool) : List Probe → Bool × List Probe
  | [] => (false, [])
  | p :: ps =>
    if answer p then (true, [p])
    else
      let (found, asked) := detect answer ps
      (found, p :: asked)

/-- A detector with the answer it has found, if it has been asked. -/
structure Detector where
  known : Option Bool := none
deriving DecidableEq, Repr

namespace Detector

/-- Asks a detector: its answer, the questions that it asked in turn, and the detector after. -/
def ask (d : Detector) (answer : Probe → Bool) : Bool × List Probe × Detector :=
  match d.known with
  | some found => (found, [], d)
  | none =>
    let (found, asked) := detect answer containmentProbes
    (found, asked, ⟨some found⟩)

/-- Asks a detector several times: all its answers, and all the questions that it asked. -/
def askTimes (d : Detector) (answer : Probe → Bool) : Nat → List Bool × List Probe
  | 0 => ([], [])
  | n + 1 =>
    let (found, asked, d') := d.ask answer
    let (more, later) := d'.askTimes answer n
    (found :: more, asked ++ later)

end Detector

end LvmControl
