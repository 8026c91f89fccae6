import Mathlib.Data.List.Induction
import LvmControl.Proofs.Process.Supervision

/-!
# What an outcome says about a process

Exit, cancellation, the closing of either pipe and the end of the wait can come in any order, and
the supervisor goes a different way for each. A caller sees only the outcome, so what an outcome
says must not depend on the way: success means that the process succeeded and all its output is
there, a failure carries the status and the diagnostics that had come out, and a process that failed
is reported as failed whatever keeps its pipes open.

## Main definitions

* `written`, `exitStatus?`: the output of a process and how it ended, read off the events.
* `HappensWhen`: an event happens at a moment at which something holds.
* `DelayPassed`, `ClosedInTime`, `CancelledInTime`: what happened before what.
* `History`: events that can follow the start of a process.
* `Verdict`, `VerdictDue`: the outcome of a process, from the order of the events alone.
* `Output.Complete`, `Diagnosed`, `LeftOpen`: what a success and the failures say.
* `Invocation.Accounts`: what the outcome of an invocation says.

## Main statements

* `Invocation.follows_run`: the supervisor comes to the verdict, and to none before it is due.
* `Invocation.accounts`: what an outcome says, for every order of the events.

## Design notes

**Bytes that come too late.** Bytes that a process has written may still be in its pipe when the
wait is over. They come out of the pipe in a later event or in none, so the output of a process is
what has come out of its pipes over the whole history, and not what the supervisor has read of it.

**The first exit counts.** A history says nothing about how often an exit is seen. The status of the
process is the one that is seen first.
-/

namespace LvmControl

/-! ## What the events show -/

/-- The bytes that an event brings out of a pipe. -/
def Event.bytesFrom (pipe : Pipe) : Event → List UInt8
  | .wrote p bytes => if p = pipe then bytes else []
  | _ => []

/-- The bytes that have come out of a pipe. -/
def written (pipe : Pipe) (events : List Event) : List UInt8 :=
  events.flatMap (Event.bytesFrom pipe)

/-- The status that an event shows. -/
def Event.status? : Event → Option Status
  | .exit status => some status
  | _ => none

/-- How the process has ended, if it has. -/
def exitStatus? (events : List Event) : Option Status := events.findSome? Event.status?

/-- The event happens at a moment at which the condition holds of what was before it. -/
def HappensWhen (e : Event) (condition : List Event → Prop) (events : List Event) : Prop :=
  ∃ before, before ++ [e] <+: events ∧ condition before

/-- The wait delay has passed since the exit. A delay of zero never passes. -/
def DelayPassed (delay : Duration) (events : List Event) : Prop :=
  delay ≠ .zero ∧ HappensWhen .delayElapsed (fun before => (exitStatus? before).isSome) events

/-- The pipe was closed before the wait delay had passed. -/
def ClosedInTime (delay : Duration) (events : List Event) (pipe : Pipe) : Prop :=
  HappensWhen (.closed pipe) (fun before => ¬ DelayPassed delay before) events

/-- The token fired before the process had ended. -/
def CancelledInTime (events : List Event) : Prop :=
  HappensWhen .cancel (fun before => exitStatus? before = none) events

/-- Nothing comes out of a pipe after everybody has closed it. -/
def Silent (events : List Event) : Prop :=
  ∀ pipe before after, events = before ++ .closed pipe :: after → written pipe after = []

theorem silent_nil : Silent [] := by
  intro pipe before after h
  simp at h

/-- Events are silent if the first one does not close a pipe that is used later and the rest is
silent. -/
theorem silent_cons_iff {e : Event} {events : List Event} :
    Silent (e :: events) ↔
      (∀ pipe, e = .closed pipe → written pipe events = []) ∧ Silent events := by
  constructor
  · intro h
    refine ⟨fun pipe he => h pipe [] events (by rw [he, List.nil_append]), ?_⟩
    exact fun pipe before after hsplit =>
      h pipe (e :: before) after (by rw [hsplit, List.cons_append])
  · rintro ⟨hfirst, hrest⟩ pipe before after hsplit
    cases before with
    | nil =>
      obtain ⟨he, rfl⟩ := List.cons.inj hsplit
      exact hfirst pipe he
    | cons b before => exact hrest pipe before after (List.cons.inj hsplit).2

instance decidableSilent : (events : List Event) → Decidable (Silent events)
  | [] => isTrue silent_nil
  | .closed pipe :: events =>
    have := decidableSilent events
    decidable_of_iff (written pipe events = [] ∧ Silent events) <| by
      simp [silent_cons_iff]
  | .wrote .. :: events | .exit _ :: events | .cancel :: events | .delayElapsed :: events =>
    have := decidableSilent events
    decidable_of_iff (Silent events) <| by simp [silent_cons_iff]

/-- What can be seen of a process after its start, in any order, except that nothing comes out of a
pipe after its end. -/
structure History where
  events : List Event
  silent : Silent events

section Concat

variable {delay : Duration} {events : List Event} {e : Event} {pipe : Pipe}

@[simp] theorem written_concat (pipe : Pipe) (events : List Event) (e : Event) :
    written pipe (events ++ [e]) = written pipe events ++ e.bytesFrom pipe := by
  simp [written]

theorem written_mono {before : List Event} (h : before <+: events) (pipe : Pipe) :
    written pipe before <+: written pipe events := by
  obtain ⟨after, rfl⟩ := h
  exact ⟨written pipe after, List.flatMap_append.symm⟩

@[simp] theorem exitStatus?_concat (events : List Event) (e : Event) :
    exitStatus? (events ++ [e]) = (exitStatus? events).or e.status? := by
  simp [exitStatus?, List.findSome?_append]

/-- The first exit that is seen stays the first one. -/
theorem exitStatus?_of_earlier {before : List Event} (h : before <+: events) {status : Status}
    (hexit : exitStatus? before = some status) : exitStatus? events = some status := by
  obtain ⟨after, rfl⟩ := h
  simp only [exitStatus?] at hexit
  simp [exitStatus?, List.findSome?_append, hexit]

/-- What happens with one more event: what has happened already, or this event now. -/
theorem happensWhen_concat_iff {e' : Event} {condition : List Event → Prop} :
    HappensWhen e' condition (events ++ [e]) ↔
      HappensWhen e' condition events ∨ e = e' ∧ condition events := by
  constructor
  · rintro ⟨before, hprefix, hcondition⟩
    rcases List.prefix_concat_iff.mp hprefix with hlast | hearlier
    · obtain ⟨rfl, rfl⟩ := List.append_singleton_inj.mp hlast
      exact .inr ⟨rfl, hcondition⟩
    · exact .inl ⟨before, hearlier, hcondition⟩
  · rintro (⟨before, hprefix, hcondition⟩ | ⟨rfl, hcondition⟩)
    · exact ⟨before, hprefix.trans (List.prefix_append _ _), hcondition⟩
    · exact ⟨events, List.prefix_refl _, hcondition⟩

theorem delayPassed_concat_iff :
    DelayPassed delay (events ++ [e]) ↔ DelayPassed delay events ∨
      delay ≠ .zero ∧ e = .delayElapsed ∧ (exitStatus? events).isSome := by
  rw [DelayPassed, happensWhen_concat_iff, and_or_left, DelayPassed]

theorem closedInTime_concat_iff :
    ClosedInTime delay (events ++ [e]) pipe ↔ ClosedInTime delay events pipe ∨
      e = .closed pipe ∧ ¬ DelayPassed delay events :=
  happensWhen_concat_iff

theorem cancelledInTime_concat_iff :
    CancelledInTime (events ++ [e]) ↔ CancelledInTime events ∨
      e = .cancel ∧ exitStatus? events = none :=
  happensWhen_concat_iff

/-- What comes before the end is silent, too. -/
theorem Silent.of_concat (h : Silent (events ++ [e])) : Silent events := by
  intro pipe before after hsplit
  have hafter := h pipe before (after ++ [e]) (by simp [hsplit])
  rw [written_concat] at hafter
  exact (List.append_eq_nil_iff.mp hafter).1

/-- No more comes out of a pipe that was closed. -/
theorem Silent.bytesFrom_eq_nil (h : Silent (events ++ [e]))
    (hclosed : ClosedInTime delay events pipe) :
    e.bytesFrom pipe = [] := by
  obtain ⟨before, ⟨after, rfl⟩, -⟩ := hclosed
  have hafter := h pipe before (after ++ [e]) (by simp)
  rw [written_concat] at hafter
  exact (List.append_eq_nil_iff.mp hafter).2

end Concat

/-! ## The verdict -/

/-- The outcome that the order of the events demands. -/
inductive Verdict (delay : Duration) (cancellable : Bool) (events : List Event) : Outcome → Prop
  /-- The token fired before the process had ended. -/
  | cancelled (htoken : cancellable = true) (hcancel : CancelledInTime events) :
      Verdict delay cancellable events (.error .cancelled)
  /-- The process ended by itself, and its pipes were closed in time. All its output is there. -/
  | complete {status : Status} (hkept : ¬ (cancellable = true ∧ CancelledInTime events))
      (hexit : exitStatus? events = some status)
      (hclosed : ∀ pipe, ClosedInTime delay events pipe) :
      Verdict delay cancellable events
        (if status.isSuccess then
          .ok ⟨Text.decodeLossy (written .out events), Text.decodeLossy (written .err events)⟩
        else .error (.exited status.code? (Text.decodeLossy (written .err events))))
  /-- The process ended by itself, and a pipe was still open when the delay had passed. Of its
  output there is what had come out until then. -/
  | givenUp {status : Status} {seen : List Event}
      (hkept : ¬ (cancellable = true ∧ CancelledInTime events)) (hdelay : delay ≠ .zero)
      (hexit : exitStatus? seen = some status) (hwaiting : ¬ DelayPassed delay seen)
      (hseen : seen ++ [.delayElapsed] <+: events)
      (hopen : ¬ ∀ pipe, ClosedInTime delay events pipe) :
      Verdict delay cancellable events
        (if status.isSuccess then .error (.pipesOpen delay)
        else .error (.exited status.code? (Text.decodeLossy (written .err seen))))

/-- What has happened is enough for an outcome. -/
def VerdictDue (delay : Duration) (cancellable : Bool) (events : List Event) : Prop :=
  (cancellable = true ∧ CancelledInTime events) ∨
    (exitStatus? events).isSome ∧
      ((∀ pipe, ClosedInTime delay events pipe) ∨ DelayPassed delay events)

/-- What a success says: the process succeeded, and all its output is there. -/
structure Output.Complete (output : Output) (delay : Duration) (events : List Event) : Prop where
  exit : ∃ status, exitStatus? events = some status ∧ status.isSuccess = true
  closed : ∀ pipe, ClosedInTime delay events pipe
  stdout : output.stdout = Text.decodeLossy (written .out events)
  stderr : output.stderr = Text.decodeLossy (written .err events)

/-- What a failure says: the process failed with the code, and the diagnostics are the beginning of
what it wrote. If the pipes were closed in time they are all of it, and else what had come out when
the delay had just passed. -/
structure Diagnosed (code : Option Int) (stderr : String) (delay : Duration) (events : List Event) :
    Prop where
  exit : ∃ status, exitStatus? events = some status ∧ status.isSuccess = false ∧ code = status.code?
  stderr : ∃ bytes, bytes <+: written .err events ∧ stderr = Text.decodeLossy bytes ∧
    ((∀ pipe, ClosedInTime delay events pipe) → bytes = written .err events) ∧
    ((¬ ∀ pipe, ClosedInTime delay events pipe) → ∃ seen, bytes = written .err seen ∧
      seen ++ [.delayElapsed] <+: events ∧ (exitStatus? seen).isSome ∧ ¬ DelayPassed delay seen)

/-- What giving up on the pipes says: the process succeeded, and a pipe was still open when the
delay had passed. -/
structure LeftOpen (delay : Duration) (events : List Event) : Prop where
  exit : ∃ status, exitStatus? events = some status ∧ status.isSuccess = true
  bounded : delay ≠ .zero
  passed : DelayPassed delay events
  unclosed : ¬ ∀ pipe, ClosedInTime delay events pipe

variable {delay : Duration} {cancellable : Bool} {events : List Event} {e : Event}

/-- After the exit a cancellation comes too late. -/
theorem kept_concat (hexit : (exitStatus? events).isSome)
    (hkept : ¬ (cancellable = true ∧ CancelledInTime events)) :
    ¬ (cancellable = true ∧ CancelledInTime (events ++ [e])) := by
  rintro ⟨htoken, hcancel⟩
  rcases cancelledInTime_concat_iff.mp hcancel with hbefore | ⟨-, hrunning⟩
  · exact hkept ⟨htoken, hbefore⟩
  · simp [hrunning] at hexit

/-- After the delay has passed a pipe is closed too late. -/
theorem open_concat (hpassed : DelayPassed delay events)
    (hopen : ¬ ∀ pipe, ClosedInTime delay events pipe) :
    ¬ ∀ pipe, ClosedInTime delay (events ++ [e]) pipe :=
  fun hclosed => hopen fun pipe =>
    (closedInTime_concat_iff.mp (hclosed pipe)).resolve_right fun hlate => hlate.2 hpassed

/-- What happens after the verdict does not change it. -/
theorem Verdict.concat {outcome : Outcome} (h : Verdict delay cancellable events outcome)
    (hsilent : Silent (events ++ [e])) : Verdict delay cancellable (events ++ [e]) outcome := by
  cases h with
  | cancelled htoken hcancel =>
    exact .cancelled htoken (cancelledInTime_concat_iff.mpr (.inl hcancel))
  | complete hkept hexit hclosed =>
    have hwritten : ∀ pipe, written pipe events = written pipe (events ++ [e]) := fun pipe => by
      rw [written_concat, hsilent.bytesFrom_eq_nil (hclosed pipe), List.append_nil]
    rw [hwritten .out, hwritten .err]
    exact .complete (kept_concat (by simp [hexit]) hkept) (by simp [hexit])
      fun pipe => closedInTime_concat_iff.mpr (.inl (hclosed pipe))
  | givenUp hkept hdelay hexit hwaiting hseen hopen =>
    have hexit' := exitStatus?_of_earlier ((List.prefix_append _ _).trans hseen) hexit
    have hpassed : DelayPassed delay events := ⟨hdelay, _, hseen, by simp [hexit]⟩
    exact .givenUp (kept_concat (by simp [hexit']) hkept) hdelay hexit hwaiting
      (hseen.trans (List.prefix_append _ _)) (open_concat hpassed hopen)

namespace Verdict

theorem due {outcome : Outcome} (h : Verdict delay cancellable events outcome) :
    VerdictDue delay cancellable events := by
  cases h with
  | cancelled htoken hcancel => exact .inl ⟨htoken, hcancel⟩
  | complete hkept hexit hclosed => exact .inr ⟨by simp [hexit], .inl hclosed⟩
  | givenUp hkept hdelay hexit hwaiting hseen hopen =>
    have hexit' := exitStatus?_of_earlier ((List.prefix_append _ _).trans hseen) hexit
    exact .inr ⟨by simp [hexit'], .inr ⟨hdelay, _, hseen, by simp [hexit]⟩⟩

theorem complete_of_ok {output : Output} (h : Verdict delay cancellable events (.ok output)) :
    output.Complete delay events := by
  generalize houtcome : (.ok output : Outcome) = outcome at h
  cases h with
  | cancelled htoken hcancel => cases houtcome
  | complete hkept hexit hclosed =>
    split at houtcome
    · cases houtcome
      exact ⟨⟨_, hexit, ‹_›⟩, hclosed, rfl, rfl⟩
    · cases houtcome
  | givenUp hkept hdelay hexit hwaiting hseen hopen => split at houtcome <;> cases houtcome

theorem diagnosed_of_exited {code : Option Int} {stderr : String}
    (h : Verdict delay cancellable events (.error (.exited code stderr))) :
    Diagnosed code stderr delay events := by
  generalize houtcome : (.error (.exited code stderr) : Outcome) = outcome at h
  cases h with
  | cancelled htoken hcancel => cases houtcome
  | complete hkept hexit hclosed =>
    split at houtcome
    · cases houtcome
    · rename_i hfailed
      cases houtcome
      exact ⟨⟨_, hexit, Bool.eq_false_iff.mpr hfailed, rfl⟩,
        _, List.prefix_refl _, rfl, fun _ => rfl, fun hopen => absurd hclosed hopen⟩
  | givenUp hkept hdelay hexit hwaiting hseen hopen =>
    split at houtcome
    · cases houtcome
    · rename_i hfailed
      cases houtcome
      have hbefore := (List.prefix_append _ _).trans hseen
      exact ⟨⟨_, exitStatus?_of_earlier hbefore hexit, Bool.eq_false_iff.mpr hfailed, rfl⟩,
        _, written_mono hbefore .err, rfl, fun hclosed => absurd hclosed hopen,
        fun _ => ⟨_, rfl, hseen, by simp [hexit], hwaiting⟩⟩

theorem leftOpen_of_pipesOpen {d : Duration}
    (h : Verdict delay cancellable events (.error (.pipesOpen d))) :
    d = delay ∧ LeftOpen delay events := by
  generalize houtcome : (.error (.pipesOpen d) : Outcome) = outcome at h
  cases h with
  | cancelled htoken hcancel => cases houtcome
  | complete hkept hexit hclosed => split at houtcome <;> cases houtcome
  | givenUp hkept hdelay hexit hwaiting hseen hopen =>
    split at houtcome
    · cases houtcome
      have hexit' := exitStatus?_of_earlier ((List.prefix_append _ _).trans hseen) hexit
      exact ⟨rfl, ⟨_, hexit', ‹_›⟩, hdelay, ⟨hdelay, _, hseen, by simp [hexit]⟩, hopen⟩
    · cases houtcome

/-- A cancellation in time always decides. -/
theorem eq_cancelled_iff {outcome : Outcome} (h : Verdict delay cancellable events outcome) :
    outcome = .error .cancelled ↔ cancellable = true ∧ CancelledInTime events := by
  cases h with
  | cancelled htoken hcancel => exact iff_of_true rfl ⟨htoken, hcancel⟩
  | complete hkept hexit hclosed => exact iff_of_false (by split <;> simp) hkept
  | givenUp hkept hdelay hexit hwaiting hseen hopen => exact iff_of_false (by split <;> simp) hkept

/-- A process that failed is reported as failed or, if the token fired before that, as cancelled. -/
theorem of_failed {outcome : Outcome} (h : Verdict delay cancellable events outcome)
    {status : Status} (hexit : exitStatus? events = some status)
    (hfailed : status.isSuccess = false) :
    outcome = .error .cancelled ∨ ∃ stderr, outcome = .error (.exited status.code? stderr) := by
  cases h with
  | cancelled htoken hcancel => exact .inl rfl
  | complete hkept hexit' hclosed =>
    cases hexit.symm.trans hexit'
    exact .inr ⟨_, by rw [hfailed]; rfl⟩
  | givenUp hkept hdelay hexit' hwaiting hseen hopen =>
    cases hexit.symm.trans
      (exitStatus?_of_earlier ((List.prefix_append _ _).trans hseen) hexit')
    exact .inr ⟨_, by rw [hfailed]; rfl⟩

end Verdict

/-! ## The supervisor -/

namespace Supervision

variable {s : Supervision}

/-- The bytes that have been read from a pipe. -/
def buffer (s : Supervision) : Pipe → List UInt8
  | .out => s.stdout
  | .err => s.stderr

/-- Whether a pipe is open, as far as the supervisor knows. -/
def isOpen (s : Supervision) : Pipe → Bool
  | .out => s.stdoutOpen
  | .err => s.stderrOpen

/-- How the process has ended, if the supervisor has no outcome yet. -/
def ended? (s : Supervision) : Option Status :=
  match s.phase with
  | .draining status => some status
  | _ => none

/-- The supervisor has no outcome, and knows what the events show. -/
structure Watches (s : Supervision) (events : List Event) : Prop where
  pending : s.outcome? = none
  ended : s.ended? = exitStatus? events
  kept : ¬ (s.cancellable = true ∧ CancelledInTime events)
  waiting : ¬ DelayPassed s.delay events
  buffer : ∀ pipe, s.buffer pipe = written pipe events
  closed : ∀ pipe, s.isOpen pipe = false ↔ ClosedInTime s.delay events pipe

/-- The supervisor has come to the verdict, or watches and none is due. -/
def Follows (s : Supervision) (events : List Event) : Prop :=
  (∃ outcome, s.phase = .over outcome ∧ Verdict s.delay s.cancellable events outcome) ∨
    s.Watches events ∧ ((exitStatus? events).isSome → ∃ pipe, s.isOpen pipe = true)

@[simp] theorem delay_settle (s : Supervision) : s.settle.delay = s.delay := by
  unfold settle
  repeat' split
  all_goals rfl

@[simp] theorem delay_read (s : Supervision) (bytes : List UInt8) (pipe : Pipe) :
    (s.read bytes pipe).delay = s.delay := by
  cases pipe <;> rfl

@[simp] theorem delay_close (s : Supervision) (pipe : Pipe) : (s.close pipe).delay = s.delay := by
  cases pipe <;> rfl

@[simp] theorem outcome?_read (s : Supervision) (bytes : List UInt8) (pipe : Pipe) :
    (s.read bytes pipe).outcome? = s.outcome? := by
  cases pipe <;> rfl

@[simp] theorem outcome?_close (s : Supervision) (pipe : Pipe) :
    (s.close pipe).outcome? = s.outcome? := by
  cases pipe <;> rfl

@[simp] theorem ended?_read (s : Supervision) (bytes : List UInt8) (pipe : Pipe) :
    (s.read bytes pipe).ended? = s.ended? := by
  cases pipe <;> rfl

@[simp] theorem ended?_close (s : Supervision) (pipe : Pipe) :
    (s.close pipe).ended? = s.ended? := by
  cases pipe <;> rfl

theorem buffer_read (s : Supervision) (bytes : List UInt8) (p pipe : Pipe) :
    (s.read bytes p).buffer pipe = s.buffer pipe ++ (Event.wrote p bytes).bytesFrom pipe := by
  cases p <;> cases pipe <;> simp [read, buffer, Event.bytesFrom]

@[simp] theorem buffer_close (s : Supervision) (p pipe : Pipe) :
    (s.close p).buffer pipe = s.buffer pipe := by
  cases p <;> cases pipe <;> rfl

@[simp] theorem isOpen_read (s : Supervision) (bytes : List UInt8) (p pipe : Pipe) :
    (s.read bytes p).isOpen pipe = s.isOpen pipe := by
  cases p <;> cases pipe <;> rfl

theorem isOpen_close_eq_false_iff (s : Supervision) (p pipe : Pipe) :
    (s.close p).isOpen pipe = false ↔ s.isOpen pipe = false ∨ p = pipe := by
  cases p <;> cases pipe <;> simp [close, isOpen]

/-- A supervisor without an outcome waits for the exit or, after it, for the pipes. -/
theorem Watches.phase_cases (h : s.Watches events) :
    (s.phase = .running ∧ exitStatus? events = none) ∨
      ∃ status, s.phase = .draining status ∧ exitStatus? events = some status := by
  have hended := h.ended
  have hpending := h.pending
  cases hphase : s.phase with
  | running => exact .inl ⟨rfl, by simpa [ended?, hphase] using hended.symm⟩
  | draining status => exact .inr ⟨status, rfl, by simpa [ended?, hphase] using hended.symm⟩
  | «over» outcome => simp [outcome?, hphase] at hpending

/-- A supervisor that goes on watching after an event, having taken it into account. -/
theorem Watches.concat (h : s.Watches events) {s' : Supervision} (hpending : s'.outcome? = none)
    (hended : s'.ended? = (exitStatus? events).or e.status?) (hdelay : s'.delay = s.delay)
    (hcancellable : s'.cancellable = s.cancellable)
    (hbuffer : ∀ pipe, s'.buffer pipe = s.buffer pipe ++ e.bytesFrom pipe)
    (hclosed : ∀ pipe, s'.isOpen pipe = false ↔ s.isOpen pipe = false ∨ e = .closed pipe)
    (hcancel : e = .cancel → s.cancellable = true → (exitStatus? events).isSome)
    (hpassed : e = .delayElapsed → s.delay ≠ .zero → exitStatus? events = none) :
    s'.Watches (events ++ [e]) where
  pending := hpending
  ended := hended.trans (exitStatus?_concat _ _).symm
  kept := by
    rintro ⟨htoken, hcancelled⟩
    rw [hcancellable] at htoken
    rcases cancelledInTime_concat_iff.mp hcancelled with hbefore | ⟨he, hrunning⟩
    · exact h.kept ⟨htoken, hbefore⟩
    · simpa [hrunning] using hcancel he htoken
  waiting := by
    rw [hdelay, delayPassed_concat_iff]
    rintro (hbefore | ⟨hne, he, hexit⟩)
    · exact h.waiting hbefore
    · simp [hpassed he hne] at hexit
  buffer pipe := by rw [hbuffer, h.buffer, written_concat]
  closed pipe := by
    rw [hclosed, h.closed, hdelay, closedInTime_concat_iff, and_iff_left h.waiting]

/-- A supervisor that watches settles as soon as a verdict is due. -/
theorem Watches.settle (h : s.Watches events) : s.settle.Follows events := by
  rcases h.phase_cases with ⟨hphase, hexit⟩ | ⟨status, hphase, hexit⟩
  · have hsame : s.settle = s := by simp [Supervision.settle, hphase]
    rw [hsame]
    exact .inr ⟨h, by simp [hexit]⟩
  · cases hopen : s.stdoutOpen || s.stderrOpen with
    | true =>
      have hsame : s.settle = s := by simp [Supervision.settle, hphase, hopen]
      have hpipe : ∃ pipe, s.isOpen pipe = true := by
        rcases (Bool.or_eq_true _ _).mp hopen with hout | herr
        · exact ⟨.out, hout⟩
        · exact ⟨.err, herr⟩
      rw [hsame]
      exact .inr ⟨h, fun _ => hpipe⟩
    | false =>
      have hclosed : ∀ pipe, ClosedInTime s.delay events pipe := by
        obtain ⟨hout, herr⟩ := (Bool.or_eq_false_iff).mp hopen
        rintro (_ | _)
        · exact (h.closed .out).mp hout
        · exact (h.closed .err).mp herr
      have hfull : s.settle.phase = .over (s.fullOutcome status) := by
        simp [Supervision.settle, hphase, hopen]
      refine .inl ⟨_, hfull, ?_⟩
      have hout : s.stdout = written .out events := h.buffer .out
      have herr : s.stderr = written .err events := h.buffer .err
      rw [delay_settle, cancellable_settle, fullOutcome, hout, herr]
      exact .complete h.kept hexit hclosed

/-- A supervisor that an event leaves as it is goes on watching. -/
theorem Watches.idle (h : s.Watches events)
    (hopen : (exitStatus? events).isSome → ∃ pipe, s.isOpen pipe = true)
    (hbytes : ∀ pipe, e.bytesFrom pipe = []) (hclosed : ∀ pipe, e ≠ .closed pipe)
    (hstatus : (exitStatus? events).or e.status? = exitStatus? events)
    (hcancel : e = .cancel → s.cancellable = true → (exitStatus? events).isSome)
    (hpassed : e = .delayElapsed → s.delay ≠ .zero → exitStatus? events = none) :
    s.Follows (events ++ [e]) := by
  refine .inr ⟨h.concat h.pending (h.ended.trans hstatus.symm) rfl rfl ?_ ?_ hcancel hpassed, ?_⟩
  · exact fun pipe => by rw [hbytes, List.append_nil]
  · exact fun pipe => by simp [hclosed]
  · rwa [exitStatus?_concat, hstatus]

/-- The exit of a process that has not ended yet is taken into account, and a second one ignored. -/
theorem Watches.exit (h : s.Watches events)
    (hopen : (exitStatus? events).isSome → ∃ pipe, s.isOpen pipe = true) (status : Status) :
    (s.step (.exit status)).Follows (events ++ [.exit status]) := by
  rcases h.phase_cases with ⟨hphase, hexit⟩ | ⟨first, hphase, hexit⟩
  · have hstep : s.step (.exit status) =
        ({ s with phase := .draining status } : Supervision).settle := by
      simp [Supervision.step, hphase]
    have hwatches :
        ({ s with phase := .draining status } : Supervision).Watches (events ++ [.exit status]) :=
      h.concat rfl (by simp [ended?, hexit, Event.status?]) rfl rfl
        (by intro pipe; cases pipe <;> simp [Supervision.buffer, Event.bytesFrom])
        (by intro pipe; cases pipe <;> simp [isOpen]) (by simp) (by simp)
    rw [hstep]
    exact hwatches.settle
  · have hstep : s.step (.exit status) = s := by simp [Supervision.step, hphase]
    rw [hstep]
    exact h.idle hopen (by simp [Event.bytesFrom]) (by simp) (by simp [hexit]) (by simp) (by simp)

/-- The token cancels a process that has not ended yet. -/
theorem Watches.cancel (h : s.Watches events)
    (hopen : (exitStatus? events).isSome → ∃ pipe, s.isOpen pipe = true) :
    (s.step .cancel).Follows (events ++ [.cancel]) := by
  rcases h.phase_cases with ⟨hphase, hexit⟩ | ⟨status, hphase, hexit⟩
  · cases htoken : s.cancellable with
    | true =>
      have hstep : s.step .cancel = { s with phase := .over (.error .cancelled) } := by
        simp [Supervision.step, hphase, htoken]
      rw [hstep]
      exact .inl ⟨_, rfl, .cancelled htoken (cancelledInTime_concat_iff.mpr (.inr ⟨rfl, hexit⟩))⟩
    | false =>
      have hstep : s.step .cancel = s := by simp [Supervision.step, hphase, htoken]
      rw [hstep]
      exact h.idle hopen (by simp [Event.bytesFrom]) (by simp) (by simp [Event.status?])
        (by simp [htoken]) (by simp)
  · have hstep : s.step .cancel = s := by simp [Supervision.step, hphase]
    rw [hstep]
    exact h.idle hopen (by simp [Event.bytesFrom]) (by simp) (by simp [Event.status?])
      (by simp [hexit]) (by simp)

/-- When the delay has passed, the pipes of a process that has ended are given up on. -/
theorem Watches.delayElapsed (h : s.Watches events)
    (hopen : (exitStatus? events).isSome → ∃ pipe, s.isOpen pipe = true) :
    (s.step .delayElapsed).Follows (events ++ [.delayElapsed]) := by
  have hidle : (s.delay ≠ .zero → exitStatus? events = none) →
      s.Follows (events ++ [.delayElapsed]) := fun hpassed =>
    h.idle hopen (by simp [Event.bytesFrom]) (by simp) (by simp [Event.status?]) (by simp)
      fun _ => hpassed
  rcases h.phase_cases with ⟨hphase, hexit⟩ | ⟨status, hphase, hexit⟩
  · have hstep : s.step .delayElapsed = s := by simp [Supervision.step, hphase]
    rw [hstep]
    exact hidle fun _ => hexit
  · by_cases hzero : s.delay = .zero
    · have hstep : s.step .delayElapsed = s := by simp [Supervision.step, hphase, hzero]
      rw [hstep]
      exact hidle fun hne => absurd hzero hne
    · have hstep : s.step .delayElapsed = { s with phase := .over (s.partialOutcome status) } := by
        simp [Supervision.step, hphase, hzero]
      -- Some pipe is open, and a pipe that is closed from now on is closed too late.
      have hlate : ¬ ∀ pipe, ClosedInTime s.delay (events ++ [.delayElapsed]) pipe := by
        intro hclosed
        obtain ⟨pipe, hpipe⟩ := hopen (by simp [hexit])
        rcases closedInTime_concat_iff.mp (hclosed pipe) with hbefore | ⟨he, -⟩
        · rw [(h.closed pipe).mpr hbefore] at hpipe
          cases hpipe
        · cases he
      have herr : s.stderr = written .err events := h.buffer .err
      rw [hstep, partialOutcome, herr]
      exact .inl ⟨_, rfl, .givenUp (kept_concat (by simp [hexit]) h.kept) hzero hexit h.waiting
        (List.prefix_refl _) hlate⟩

/-- **One event.** A supervisor that watches goes on watching, or comes to the verdict that is
due. -/
theorem Watches.step (h : s.Watches events)
    (hopen : (exitStatus? events).isSome → ∃ pipe, s.isOpen pipe = true) (e : Event) :
    (s.step e).Follows (events ++ [e]) := by
  have hpending := h.pending
  have hended := h.ended
  cases e with
  | wrote p bytes =>
    have hstep : s.step (.wrote p bytes) = s.read bytes p := by
      rcases h.phase_cases with ⟨hphase, -⟩ | ⟨status, hphase, -⟩ <;>
        simp [Supervision.step, hphase]
    have hwatches : (s.read bytes p).Watches (events ++ [.wrote p bytes]) :=
      h.concat (by simpa using hpending) (by simpa [Event.status?] using hended) (by simp) (by simp)
        (s.buffer_read bytes p) (by simp) (by simp) (by simp)
    rw [hstep]
    exact .inr ⟨hwatches, by simpa [Event.status?] using hopen⟩
  | closed p =>
    have hstep : s.step (.closed p) = (s.close p).settle := by
      rcases h.phase_cases with ⟨hphase, -⟩ | ⟨status, hphase, -⟩ <;>
        simp [Supervision.step, hphase]
    have hwatches : (s.close p).Watches (events ++ [.closed p]) :=
      h.concat (by simpa using hpending) (by simpa [Event.status?] using hended) (by simp) (by simp)
        (by simp [Event.bytesFrom]) (by simp [isOpen_close_eq_false_iff]) (by simp) (by simp)
    rw [hstep]
    exact hwatches.settle
  | exit status => exact h.exit hopen status
  | cancel => exact h.cancel hopen
  | delayElapsed => exact h.delayElapsed hopen

/-- Whatever has happened so far, the supervisor keeps up with the next event. -/
theorem Follows.step (h : s.Follows events) (hsilent : Silent (events ++ [e])) :
    (s.step e).Follows (events ++ [e]) := by
  rcases h with ⟨outcome, hover, hverdict⟩ | ⟨hwatches, hopen⟩
  · have hstep : s.step e = s := by simp [Supervision.step, hover]
    rw [hstep]
    exact .inl ⟨outcome, hover, hverdict.concat hsilent⟩
  · exact hwatches.step hopen e

theorem Follows.verdict (h : s.Follows events) {outcome : Outcome}
    (houtcome : s.outcome? = some outcome) : Verdict s.delay s.cancellable events outcome := by
  rcases h with ⟨settled, hover, hverdict⟩ | ⟨hwatches, -⟩
  · have hsame : settled = outcome := by simpa [outcome?, hover] using houtcome
    exact hsame ▸ hverdict
  · cases hwatches.pending.symm.trans houtcome

/-- There is an outcome as soon as a verdict is due. -/
theorem Follows.isSome_iff (h : s.Follows events) :
    s.outcome?.isSome ↔ VerdictDue s.delay s.cancellable events := by
  rcases h with ⟨settled, hover, hverdict⟩ | ⟨hwatches, hopen⟩
  · exact iff_of_true (by simp [outcome?, hover]) hverdict.due
  · refine iff_of_false (by simp [hwatches.pending]) ?_
    rintro (hcancelled | ⟨hexit, hclosed | hpassed⟩)
    · exact hwatches.kept hcancelled
    · obtain ⟨pipe, hpipe⟩ := hopen hexit
      rw [(hwatches.closed pipe).mpr (hclosed pipe)] at hpipe
      cases hpipe
    · exact hwatches.waiting hpassed

/-- How long the pipes are waited for does not change. -/
theorem delay_step (s : Supervision) (e : Event) : (s.step e).delay = s.delay := by
  cases hs : s.phase <;> cases e <;> simp only [Supervision.step, hs, delay_settle, delay_read,
    delay_close]
  case running.cancel => split <;> rfl
  case draining.delayElapsed => split <;> rfl

@[simp] theorem delay_run (s : Supervision) (events : List Event) :
    (events.foldl step s).delay = s.delay := by
  induction events generalizing s with
  | nil => rfl
  | cons e events ih => exact (ih (s.step e)).trans (s.delay_step e)

@[simp] theorem cancellable_run (s : Supervision) (events : List Event) :
    (events.foldl step s).cancellable = s.cancellable := by
  induction events generalizing s with
  | nil => rfl
  | cons e events ih => exact (ih (s.step e)).trans (s.cancellable_step e)

end Supervision

/-- The supervisor of a process that has just been started watches. -/
theorem Invocation.supervision_follows (inv : Invocation) : inv.supervision.Follows [] := by
  refine .inr ⟨⟨rfl, rfl, ?_, ?_, ?_, ?_⟩, by simp [exitStatus?]⟩
  · rintro ⟨-, before, hprefix, -⟩
    simp at hprefix
  · rintro ⟨-, before, hprefix, -⟩
    simp at hprefix
  · intro pipe
    cases pipe <;> rfl
  · intro pipe
    constructor
    · intro hclosed
      cases pipe <;> cases hclosed
    · rintro ⟨before, hprefix, -⟩
      simp at hprefix

/-- **The supervisor.** For every order of the events it comes to the verdict, and watches until one
is due. -/
theorem Invocation.follows_run (inv : Invocation) {events : List Event} (hsilent : Silent events) :
    (events.foldl Supervision.step inv.supervision).Follows events := by
  induction events using List.reverseRecOn with
  | nil => exact inv.supervision_follows
  | append_singleton events e ih =>
    rw [List.foldl_append]
    exact (ih hsilent.of_concat).step hsilent

/-! ## The outcome of an invocation -/

namespace Invocation

/-- The outcome of an invocation whose process can be started. -/
def outcome? (inv : Invocation) (fired : List Token) (h : History) : Option Outcome :=
  (inv.supervise fired none h.events).outcome

/-- What the outcome of an invocation says, if there is nothing in the way of its start. -/
structure Accounts (inv : Invocation) (fired : List Token) (h : History) : Prop where
  /-- There is an outcome as soon as there can be one. -/
  due : (inv.outcome? fired h).isSome ↔ inv.token.any fired.contains = true ∨
    VerdictDue inv.waitDelay inv.token.isSome h.events
  ok : ∀ output, inv.outcome? fired h = some (.ok output) → output.Complete inv.waitDelay h.events
  exited : ∀ code stderr, inv.outcome? fired h = some (.error (.exited code stderr)) →
    Diagnosed code stderr inv.waitDelay h.events
  pipesOpen : ∀ delay, inv.outcome? fired h = some (.error (.pipesOpen delay)) →
    delay = inv.waitDelay ∧ LeftOpen inv.waitDelay h.events
  /-- The token had fired before the start, or fires before the process has ended. -/
  cancelled : inv.outcome? fired h = some (.error .cancelled) ↔
    inv.token.any fired.contains = true ∨ inv.token.isSome = true ∧ CancelledInTime h.events
  /-- A process that fails is never reported as anything but failed or cancelled. -/
  failed : ∀ status, exitStatus? h.events = some status → status.isSuccess = false →
    ∀ outcome, inv.outcome? fired h = some outcome →
      outcome = .error .cancelled ∨ ∃ stderr, outcome = .error (.exited status.code? stderr)

variable {inv : Invocation} {fired : List Token} {h : History}

theorem outcome?_of_fired (hfired : inv.token.any fired.contains = true) :
    inv.outcome? fired h = some (.error .cancelled) := by
  rw [outcome?, supervise_of_fired hfired]

/-- A process that is started is supervised to its outcome. -/
theorem outcome?_of_not_fired (hfired : ¬ inv.token.any fired.contains = true) :
    inv.outcome? fired h = (h.events.foldl Supervision.step inv.supervision).outcome? := by
  rw [outcome?, supervise, if_neg hfired]

theorem verdict_of_outcome? (hfired : ¬ inv.token.any fired.contains = true) {outcome : Outcome}
    (houtcome : inv.outcome? fired h = some outcome) :
    Verdict inv.waitDelay inv.token.isSome h.events outcome := by
  rw [outcome?_of_not_fired hfired] at houtcome
  simpa [supervision] using (inv.follows_run h.silent).verdict houtcome

theorem isSome_outcome?_iff (hfired : ¬ inv.token.any fired.contains = true) :
    (inv.outcome? fired h).isSome ↔ VerdictDue inv.waitDelay inv.token.isSome h.events := by
  rw [outcome?_of_not_fired hfired, (inv.follows_run h.silent).isSome_iff]
  simp [supervision]

/-- **What an outcome says**, for every invocation and every order of the events. -/
theorem accounts (inv : Invocation) (fired : List Token) (h : History) : inv.Accounts fired h := by
  by_cases hfired : inv.token.any fired.contains = true
  · have hcancelled : inv.outcome? fired h = some (.error .cancelled) := outcome?_of_fired hfired
    refine ⟨?_, ?_, ?_, ?_, iff_of_true hcancelled (.inl hfired), ?_⟩
    · exact iff_of_true (by rw [hcancelled]; rfl) (.inl hfired)
    · intro output houtcome
      cases hcancelled.symm.trans houtcome
    · intro code stderr houtcome
      cases hcancelled.symm.trans houtcome
    · intro delay houtcome
      cases hcancelled.symm.trans houtcome
    · intro status hexit hfailed outcome houtcome
      cases hcancelled.symm.trans houtcome
      exact .inl rfl
  · refine ⟨?_, ?_, ?_, ?_, ?_, ?_⟩
    · rw [isSome_outcome?_iff hfired, or_iff_right hfired]
    · exact fun output houtcome => (verdict_of_outcome? hfired houtcome).complete_of_ok
    · exact fun code stderr houtcome => (verdict_of_outcome? hfired houtcome).diagnosed_of_exited
    · exact fun delay houtcome => (verdict_of_outcome? hfired houtcome).leftOpen_of_pipesOpen
    · rw [or_iff_right hfired]
      constructor
      · exact fun houtcome => (verdict_of_outcome? hfired houtcome).eq_cancelled_iff.mp rfl
      · intro hcancel
        obtain ⟨outcome, houtcome⟩ := Option.isSome_iff_exists.mp
          ((isSome_outcome?_iff (h := h) hfired).mpr (.inl hcancel))
        rw [houtcome, (verdict_of_outcome? hfired houtcome).eq_cancelled_iff.mpr hcancel]
    · exact fun status hexit hfailed outcome houtcome =>
        (verdict_of_outcome? hfired houtcome).of_failed hexit hfailed

/-- A process fails and leaves another one behind, which writes once more when the wait is over. -/
def lingering : History where
  events :=
    [.wrote .err [0x6e, 0x6f], .exit (.code 5), .closed .out, .delayElapsed, .wrote .err [0x21],
      .closed .err]
  silent := by decide

/-- The failure is reported with its status and with what came out before the wait was over. -/
theorem lingering_diagnosed :
    (⟨"lvs", [], [], .ofMillis 100, none, false⟩ : Invocation).outcome? [] lingering =
        some (.error (.exited (some 5) "no")) ∧
      Diagnosed (some 5) "no" (.ofMillis 100) lingering.events := by
  have houtcome : (⟨"lvs", [], [], .ofMillis 100, none, false⟩ : Invocation).outcome? [] lingering =
      some (.error (.exited (some 5) "no")) := by decide +kernel
  exact ⟨houtcome, (accounts _ [] lingering).exited _ _ houtcome⟩

end Invocation

end LvmControl
