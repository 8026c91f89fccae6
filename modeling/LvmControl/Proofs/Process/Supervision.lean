import LvmControl.Process.Run

/-!
# How a supervised process comes to its outcome

An outcome is settled by one event and stays. This module says which events can settle it and with
what, so that what a caller is told can be traced back to what happened.

## Main statements

* `Supervision.step_over_cases`: what an event can settle, and how.
* `Supervision.cancelled_cases`: a process is cancelled only by an event of its token.
* `Invocation.supervise_of_fired`: a token that has fired prevents the start.
* `Invocation.fired_of_cancelled`: an invocation is cancelled only if its token fires.
-/

namespace LvmControl

namespace Supervision

variable {s : Supervision}

/-- A process that ended by itself is not reported as cancelled. -/
theorem fullOutcome_ne_cancelled (s : Supervision) (status : Status) :
    s.fullOutcome status ≠ .error .cancelled := by
  unfold fullOutcome
  split <;> simp

theorem partialOutcome_ne_cancelled (s : Supervision) (status : Status) :
    s.partialOutcome status ≠ .error .cancelled := by
  unfold partialOutcome
  split <;> simp

/-- Settling gives the outcome of a process whose output has been read. -/
theorem settle_over_cases {outcome : Outcome} (h : s.settle.phase = .over outcome) :
    s.phase = .over outcome ∨ ∃ status, s.phase = .draining status ∧
      s.stdoutOpen = false ∧ s.stderrOpen = false ∧ outcome = s.fullOutcome status := by
  unfold settle at h
  split at h
  · rename_i status hs
    split at h
    · exact .inl h
    · rename_i hopen
      have hclosed : s.stdoutOpen = false ∧ s.stderrOpen = false := by simpa using hopen
      exact .inr ⟨status, hs, hclosed.1, hclosed.2, (Phase.over.inj h).symm⟩
  · exact .inl h

@[simp] theorem phase_read (s : Supervision) (bytes : List UInt8) (pipe : Pipe) :
    (s.read bytes pipe).phase = s.phase := by
  cases pipe <;> rfl

@[simp] theorem phase_close (s : Supervision) (pipe : Pipe) : (s.close pipe).phase = s.phase := by
  cases pipe <;> rfl

@[simp] theorem fullOutcome_close (s : Supervision) (pipe : Pipe) (status : Status) :
    (s.close pipe).fullOutcome status = s.fullOutcome status := by
  cases pipe <;> rfl

/-- **One event.** An outcome was settled before, or the event is a cancellation of a running
process, or the process has ended and its output is complete or given up on. -/
theorem step_over_cases {e : Event} {outcome : Outcome} (h : (s.step e).phase = .over outcome) :
    s.phase = .over outcome ∨
      (s.phase = .running ∧ e = .cancel ∧ s.cancellable = true ∧ outcome = .error .cancelled) ∨
        ∃ status, outcome = s.fullOutcome status ∨ outcome = s.partialOutcome status := by
  -- The closing of a pipe can complete the output of a process that has ended.
  have hclosed : ∀ pipe, (s.close pipe).settle.phase = .over outcome →
      s.phase = .over outcome ∨ ∃ status, outcome = s.fullOutcome status := by
    intro pipe hsettle
    rcases settle_over_cases hsettle with hover | ⟨status, -, -, -, hfull⟩
    · exact .inl ((phase_close s pipe).symm.trans hover)
    · exact .inr ⟨status, hfull.trans (fullOutcome_close s pipe status)⟩
  cases hs : s.phase with
  | «over» settled =>
    simp only [step, hs] at h
    exact .inl h
  | running =>
    cases e with
    | wrote pipe bytes => simp [step, hs] at h
    | closed pipe =>
      simp only [step, hs] at h
      rcases hclosed pipe h with hover | ⟨status, hfull⟩
      · cases hs.symm.trans hover
      · exact .inr (.inr ⟨status, .inl hfull⟩)
    | exit status =>
      simp only [step, hs] at h
      rcases settle_over_cases h with hover | ⟨status', -, -, -, hfull⟩
      · cases hover
      · exact .inr (.inr ⟨status', .inl hfull⟩)
    | cancel =>
      cases hcancellable : s.cancellable with
      | true =>
        simp only [step, hs, hcancellable, if_true, Phase.over.injEq] at h
        exact .inr (.inl ⟨rfl, rfl, rfl, h.symm⟩)
      | false => simp [step, hs, hcancellable] at h
    | delayElapsed => simp [step, hs] at h
  | draining status =>
    cases e with
    | wrote pipe bytes => simp [step, hs] at h
    | closed pipe =>
      simp only [step, hs] at h
      rcases hclosed pipe h with hover | ⟨status', hfull⟩
      · cases hs.symm.trans hover
      · exact .inr (.inr ⟨status', .inl hfull⟩)
    | delayElapsed =>
      simp only [step, hs] at h
      split at h
      · cases hs.symm.trans h
      · exact .inr (.inr ⟨status, .inr (Phase.over.inj h).symm⟩)
    | exit _ | cancel => simp [step, hs] at h

@[simp] theorem cancellable_settle (s : Supervision) : s.settle.cancellable = s.cancellable := by
  unfold settle
  repeat' split
  all_goals rfl

@[simp] theorem cancellable_read (s : Supervision) (bytes : List UInt8) (pipe : Pipe) :
    (s.read bytes pipe).cancellable = s.cancellable := by
  cases pipe <;> rfl

@[simp] theorem cancellable_close (s : Supervision) (pipe : Pipe) :
    (s.close pipe).cancellable = s.cancellable := by
  cases pipe <;> rfl

/-- Whether a process can be cancelled does not change. -/
theorem cancellable_step (s : Supervision) (e : Event) :
    (s.step e).cancellable = s.cancellable := by
  cases hs : s.phase <;> cases e <;> simp only [step, hs, cancellable_settle, cancellable_read,
    cancellable_close]
  case running.cancel => split <;> rfl
  case draining.delayElapsed => split <;> rfl

/-- **Only by its token.** A process is cancelled only if it was before or its token fires among the
events. -/
theorem cancelled_cases (events : List Event)
    (h : (events.foldl step s).phase = .over (.error .cancelled)) :
    s.phase = .over (.error .cancelled) ∨ .cancel ∈ events ∧ s.cancellable = true := by
  induction events generalizing s with
  | nil => exact .inl h
  | cons e events ih =>
    rcases ih h with hover | ⟨hmem, hcancellable⟩
    · rcases step_over_cases hover with
        hbefore | ⟨-, rfl, hcancellable, -⟩ | ⟨status, hfull | hpartial⟩
      · exact .inl hbefore
      · exact .inr ⟨List.mem_cons_self, hcancellable⟩
      · exact absurd hfull.symm (fullOutcome_ne_cancelled _ _)
      · exact absurd hpartial.symm (partialOutcome_ne_cancelled _ _)
    · rw [cancellable_step] at hcancellable
      exact .inr ⟨List.mem_cons_of_mem _ hmem, hcancellable⟩

end Supervision

namespace Invocation

variable {inv : Invocation} {fired : List Token}

/-- A token that has fired prevents the start. -/
theorem supervise_of_fired (h : inv.token.any fired.contains = true)
    (obstacle : Option StartFault) (events : List Event) :
    inv.supervise fired obstacle events = ⟨false, some (.error .cancelled)⟩ := by
  unfold supervise
  rw [if_pos h]

/-- An invocation is cancelled only if its token had fired before the start or fires among the
events. -/
theorem fired_of_cancelled {obstacle : Option StartFault} {events : List Event}
    (h : (inv.supervise fired obstacle events).outcome = some (.error .cancelled)) :
    inv.token.any fired.contains = true ∨ .cancel ∈ events ∧ inv.token.isSome = true := by
  unfold supervise at h
  split at h
  · exact .inl ‹_›
  · split at h
    · cases h
    · have hover : (events.foldl Supervision.step inv.supervision).phase =
          .over (.error .cancelled) := by
        simp only [Supervision.outcome?] at h
        split at h
        · rename_i hover
          rw [hover, Option.some.inj h]
        · cases h
      rcases Supervision.cancelled_cases events hover with hbefore | hcancelled
      · cases hbefore
      · exact .inr hcancelled

end Invocation

end LvmControl
