import LvmControl.Proofs.Client.Agreement
import LvmControl.Proofs.Client.BelowLocks
import LvmControl.Proofs.Lock.FiredTokens
import LvmControl.Proofs.Process.Supervision
import LvmControl.Proofs.Request.SharedKeys

/-!
# Cancelled calls

A call is cancelled in two places: a layer of locks looks at its token while it acquires a lock, and
the client does so before it starts a process and while the process runs. Between the caller and
these places every layer derives a context of its own. This module says that the two places together
miss no call, whatever stack it goes through and whatever else is under way: if the token had fired
no process is started, and a call never returns that it was cancelled unless its token has fired.

## Main definitions

* `ClientError.IsWithdrawal`: the failures of a call whose token had fired.
* `Moment`: what a caller and the system see of a call at some moment.
* `Host.Allows`: the moments that a call can come to.
* `Call.HeedsToken`: what a token that has fired means for a call.

## Main statements

* `Call.keys_ne_nil`: a valid call that changes something has a key.
* `Host.result_of_fired`, `Host.fired_of_isCancelled`: what the client makes of the token.
* `Call.heedsToken`: every call heeds its token, in every stack.

## Design notes

**One layer, one journey.** A layer of locks sees a call together with all other calls that go
through its registry. What happens in this registry is a journey of the call, and the layers below
it answer the journey. Each layer of a stack has its own, so nothing is assumed about how the
registries of a stack go together, and two layers may have the same one.

**Tokens fire once.** A token that has fired stays so. A moment has the tokens that had fired before
the call was made and those that have fired by now, and what a layer or the client sees lies in
between.
-/

namespace LvmControl

open Lock

/-! ## The token of a context -/

@[simp] theorem Layer.isCancelled_context (ctx : Context) (layer : Layer) (fired : List Token) :
    (layer.context ctx).isCancelled fired = ctx.isCancelled fired := by
  rw [Context.isCancelled, token_context, ← Context.isCancelled]

/-- The token comes through every stack. -/
theorem isCancelled_contextThrough (ctx : Context) (stack : List Layer) (fired : List Token) :
    (contextThrough ctx stack).isCancelled fired = ctx.isCancelled fired := by
  induction stack generalizing ctx with
  | nil => rfl
  | cons layer rest ih => exact (ih _).trans (layer.isCancelled_context ctx fired)

/-- A call whose token has fired is still cancelled later. -/
theorem Context.isCancelled_mono {ctx : Context} {fired fired' : List Token} (hsub : fired ⊆ fired')
    (h : ctx.isCancelled fired = true) : ctx.isCancelled fired' = true :=
  any_contains_mono hsub h

/-! ## The client -/

/-- The failure is that of a call whose token had fired: it is refused as any other call would be,
or it was cancelled. -/
def ClientError.IsWithdrawal (e : ClientError) : Prop :=
  (∃ fault, e = .validation fault) ∨ e.isCancelled = true

/-- What the tool has printed is no cancellation. -/
theorem ClientError.IsAnswer.isCancelled {e : ClientError} (h : e.IsAnswer) :
    e.isCancelled = false := by
  cases e with
  | report _ | groupNotFound _ | volumeNotFound _ => rfl
  | _ => cases h

namespace Host

variable (host : Host) (defaults : Defaults) {call : Call} {fired : List Token}

/-- A call is refused, or runs with the token of its context. -/
theorem invocation_cases (call : Call) :
    (∃ e, host.invocation defaults call = .error e) ∨
      ∃ args inv, call.arguments = .ok args ∧ host.invocation defaults call = .ok inv ∧
        inv.token = call.context.token := by
  cases harguments : call.arguments with
  | error e => exact .inl ⟨e, by rw [invocation, harguments]; rfl⟩
  | ok args => exact .inr ⟨args, _, rfl, by rw [invocation, harguments]; rfl, rfl⟩

/-- The client starts no process for a call whose token has fired, and returns at once. -/
theorem result_of_fired (hfired : call.context.isCancelled fired = true)
    (obstacle : Option StartFault) (events : List Event) :
    ∃ e, (host.result defaults call (·.supervise fired obstacle events)).1 = some (.error e) ∧
      e.IsWithdrawal ∧
      (host.result defaults call (·.supervise fired obstacle events)).2.any Fate.started =
        false := by
  rcases host.invocation_cases defaults call with ⟨e, herror⟩ | ⟨args, inv, -, hinv, htoken⟩
  · simp only [result, herror]
    exact ⟨_, rfl, .inl ⟨e, rfl⟩, rfl⟩
  · have hsupervise : inv.supervise fired obstacle events = ⟨false, some (.error .cancelled)⟩ :=
      Invocation.supervise_of_fired (by rw [htoken]; exact hfired) obstacle events
    simp only [result, hinv, hsupervise]
    exact ⟨_, rfl, .inr rfl, rfl⟩

/-- The result of a call that runs is a cancellation only if that is what became of its process. -/
theorem cancelled_of_resultOf {args : Arguments} (h : call.arguments = .ok args) {outcome : Outcome}
    {e : ClientError} (he : resultOf call outcome = .error e) (hcancelled : e.isCancelled = true) :
    outcome = .error .cancelled := by
  cases outcome with
  | ok output =>
    obtain ⟨l, hoptions⟩ := Call.exists_options_of_arguments h
    have hanswer := onlyAnswers_reply hoptions output.stdout e he
    cases hanswer.isCancelled.symm.trans hcancelled
  | error fault =>
    cases he
    cases fault with
    | cancelled => rfl
    | _ => cases hcancelled

/-- The client returns that a call was cancelled only if its token had fired or fires while the
process runs. -/
theorem fired_of_isCancelled {obstacle : Option StartFault} {events : List Event} {e : ClientError}
    (he : (host.result defaults call (·.supervise fired obstacle events)).1 = some (.error e))
    (hcancelled : e.isCancelled = true) :
    call.context.isCancelled fired = true ∨
      .cancel ∈ events ∧ call.context.token.isSome = true := by
  rcases host.invocation_cases defaults call with ⟨fault, herror⟩ | ⟨args, inv, hargs, hinv, htoken⟩
  · simp only [result, herror, Option.some.injEq, Except.error.injEq] at he
    subst he
    cases hcancelled
  · simp only [result, hinv] at he
    obtain ⟨outcome, houtcome, hresult⟩ := Option.map_eq_some_iff.mp he
    rw [cancelled_of_resultOf hargs hresult hcancelled] at houtcome
    rw [Context.isCancelled, ← htoken]
    exact Invocation.fired_of_cancelled houtcome

end Host

/-! ## The layers of locks -/

/-- A valid call that changes something has a key. -/
theorem Call.keys_ne_nil {call : Call} {keys : List Key} (hkeys : call.keys? = some keys)
    (hfault : call.fault? = none) : keys ≠ [] := by
  have haccepted : call.options.arguments call.context.defaultGroup =
      .ok (call.operation.command.render call.request .empty) := by
    have hfault : call.operation.command.fault?
        (call.options.completed call.context.defaultGroup) = none := hfault
    rw [OptionList.arguments, hfault]
    rfl
  have hmutating : call.operation.command.isMutating = true := by
    obtain ⟨scope, hscope, -⟩ := Option.map_eq_some_iff.mp hkeys
    exact Option.isSome_of_eq_some hscope
  obtain ⟨ks, hks, hne⟩ := Line.exists_key
    (l := ⟨_, call.options, call.context.defaultGroup, _, haccepted⟩) hmutating
  obtain rfl : ks = keys := Option.some.inj (hks.symm.trans hkeys)
  exact hne

/-- What a call at the stage has returned. -/
def Lock.FlightStage.result? : FlightStage → Option Result
  | .returned result => result
  | _ => none

theorem Lock.FlightStage.eq_of_result? {stage : FlightStage} {result : Result}
    (h : stage.result? = some result) : stage = .returned (some result) := by
  cases stage with
  | returned r => exact congrArg FlightStage.returned h
  | _ => cases h

/-- The tokens that had fired before a call was made and those that have fired by now bound what a
journey of the call sees. -/
structure Lock.Journey.Between (j : Journey) (before now : List Token) : Prop where
  before : before ⊆ (Traffic.run {} j.before).registry.fired
  now : j.traffic.registry.fired ⊆ now

/-- What a layer of locks returns of its own is a refusal, or a cancellation after the token has
fired. -/
theorem Lock.Journey.own_result {j : Journey} {result : Result}
    (hat : j.At (.returned (some result))) :
    (j.entries = [j.call] ∧ j.Answered result) ∨
      ∃ e, result = .error e ∧ e.IsWithdrawal ∧ (e.isCancelled = true →
        j.call.context.isCancelled j.traffic.registry.fired = true) := by
  rcases Journey.result_cases hat with hanswer | ⟨fault, rfl⟩ | ⟨key, rfl, hfired⟩
  · exact .inl hanswer
  · exact .inr ⟨_, rfl, .inl ⟨fault, rfl⟩, fun hcancelled => by cases hcancelled⟩
  · exact .inr ⟨_, rfl, .inr rfl, fun _ => hfired⟩

/-- A call whose token had fired and that changes something does not come through a layer of locks.
At any moment at which it has not been given up it returns after steps of its own. -/
theorem Lock.Journey.turns_back_of_fired {j : Journey} {keys : List Key}
    (hkeys : j.call.keys? = some keys)
    (hfired : j.call.context.isCancelled (Traffic.run {} j.before).registry.fired = true) :
    j.entries = [] ∧ (¬ j.IsGivenUp → ∃ n e,
      (j.afterSteps n).At (.returned (some (.error e))) ∧ e.IsWithdrawal) := by
  cases hfault : j.call.fault? with
  | some e =>
    obtain ⟨hat, hentries⟩ := Journey.at_refused hkeys hfault
    exact ⟨hentries, fun _ => ⟨0, _, hat.afterSteps 0, .inl ⟨e, rfl⟩⟩⟩
  | none =>
    have hne := Call.keys_ne_nil hkeys hfault
    refine ⟨Journey.entries_of_fired hkeys hfault hne hfired, fun hkept => ?_⟩
    obtain ⟨n, key, hat⟩ := Journey.withdraws_of_fired hkeys hfault hne hfired hkept
    exact ⟨n, _, hat, .inr rfl⟩

/-- What becomes of a call does not depend on the context that it was made with. -/
theorem Passage.conclude_within {σ : Type} (p : Passage) (call : Call) (ctx : Context) (state : σ)
    (client : Call → σ → Option Result × σ) :
    p.conclude (call.within ctx) state client = p.conclude call state client := by
  cases p <;> rfl

/-- A call whose token has fired is not held up by a stack when no other call makes it wait: it
returns that it was refused or cancelled, and no process is started. -/
theorem passThroughFrom_of_fired (host : Host) (defaults : Defaults) {fired : List Token}
    {registries : Registries} (hregistries : ∀ id, (registries id).Reachable ∧
      fired ⊆ (registries id).fired) (held : List (RegistryId × List Key)) (stack : List Layer)
    {call : Call} (hfired : call.context.isCancelled fired = true) (obstacle : Option StartFault)
    (events : List Event) :
    ∃ e fate, (passThroughFrom call registries held stack).conclude call none
        (fun c _ => host.result defaults c (·.supervise fired obstacle events)) =
          (some (.error e), fate) ∧ e.IsWithdrawal ∧ fate.any Fate.started = false := by
  induction stack generalizing call with
  | nil =>
    obtain ⟨e, he, hwithdrawal, hstarted⟩ := host.result_of_fired defaults hfired obstacle events
    exact ⟨e, _, Prod.ext he rfl, hwithdrawal, hstarted⟩
  | cons layer rest ih =>
    have hderived : ∀ ctx, ctx.isCancelled fired = call.context.isCancelled fired → ∃ e fate,
        (passThroughFrom (call.within ctx) registries held rest).conclude call none
          (fun c _ => host.result defaults c (·.supervise fired obstacle events)) =
            (some (.error e), fate) ∧ e.IsWithdrawal ∧ fate.any Fate.started = false := by
      intro ctx hctx
      have hfired' : (call.within ctx).context.isCancelled fired = true := hctx.trans hfired
      obtain ⟨e, fate, he, hrest⟩ := ih hfired'
      rw [Passage.conclude_within] at he
      exact ⟨e, fate, he, hrest⟩
    cases layer with
    | overrides o => exact hderived _ (Layer.isCancelled_context _ (.overrides o) _)
    | direct => exact hderived _ (Layer.isCancelled_context _ .direct _)
    | locking id =>
      cases hkeys : call.keys? with
      | none =>
        simp only [passThroughFrom, hkeys]
        exact ih hfired
      | some keys =>
        cases hfault : call.fault? with
        | some e =>
          simp only [passThroughFrom, hkeys, hfault]
          exact ⟨_, none, rfl, .inl ⟨e, rfl⟩, rfl⟩
        | none =>
          obtain ⟨hreachable, hsub⟩ := hregistries id
          obtain ⟨key, hcancelled⟩ := Registry.acquire_of_fired hreachable
            (Call.keys_ne_nil hkeys hfault) (any_contains_mono hsub hfired)
          generalize hacquire : (registries id).acquire keys call.context.token = acquired
            at hcancelled
          obtain ⟨r, acquisition⟩ := acquired
          obtain rfl : acquisition = .cancelled key := hcancelled
          simp only [passThroughFrom, hkeys, hfault, hacquire]
          exact ⟨_, none, rfl, .inr rfl, rfl⟩

/-- A group is removed with a token. -/
def stoppableRemoval : Call :=
  (Traffic.removal Traffic.callerGroup).within
    { defaultGroup := some Traffic.callerGroup, token := some ⟨"shutdown"⟩ }

/-- If its token has fired, the removal stops at the layer of locks. -/
example :
    passThrough [.direct, .locking 0] [⟨"shutdown"⟩] stoppableRemoval = .cancelled "vg1" := rfl

/-! ## Every stack -/

/-- What a caller and the system see of a call at some moment. -/
structure Moment where
  /-- The tokens that had fired before the call was made. -/
  before : List Token
  /-- The tokens that have fired by now. -/
  now : List Token
  /-- What the call has returned. -/
  result : Option Result
  /-- Whether a process has been started on its account. -/
  started : Bool

/-- The moments that a call can come to when it is sent through a stack of layers to a client that
runs the tools. -/
inductive Host.Allows (host : Host) (defaults : Defaults) : List Layer → Call → Moment → Prop
  /-- It has not gone any further. -/
  | idle (stack : List Layer) (call : Call) (before now : List Token) :
      Allows host defaults stack call ⟨before, now, none, false⟩
  /-- It is with the client, which sees the tokens that have fired when it is about to start a
  process. Among the events that follow there is a cancellation only if the token of the call
  fires. -/
  | client {call : Call} {before seen now : List Token} (obstacle : Option StartFault)
      (events : List Event) (hbefore : before ⊆ seen) (hnow : seen ⊆ now)
      (hcancel : .cancel ∈ events → ∀ token, call.context.token = some token → token ∈ now) :
      Allows host defaults [] call
        ⟨before, now, (host.result defaults call (·.supervise seen obstacle events)).1,
          (host.result defaults call (·.supervise seen obstacle events)).2.any Fate.started⟩
  /-- It has gone on with the context of a layer. -/
  | derived {layer : Layer} {rest : List Layer} {call : Call} {m : Moment}
      (hlayer : ∀ id, layer ≠ .locking id)
      (h : Allows host defaults rest (call.within (layer.context call.context)) m) :
      Allows host defaults (layer :: rest) call m
  /-- A layer of locks has not let it through. -/
  | held {id : RegistryId} {rest : List Layer} {before now : List Token} (j : Journey)
      {stage : FlightStage} (hat : j.At stage) (hbetween : j.Between before now)
      (hentries : j.entries = []) :
      Allows host defaults (.locking id :: rest) j.call ⟨before, now, stage.result?, false⟩
  /-- A layer of locks has let it through, and has been answered what came of it. -/
  | entered {id : RegistryId} {rest : List Layer} {before now : List Token} (j : Journey)
      {stage : FlightStage} {inner : Moment} (hat : j.At stage) (hbetween : j.Between before now)
      (hentries : j.entries = [j.call]) (hbefore : before ⊆ inner.before) (hnow : inner.now ⊆ now)
      (h : Allows host defaults rest j.call inner)
      (hanswered : ∀ result, j.Answered result → inner.result = some result) :
      Allows host defaults (.locking id :: rest) j.call
        ⟨before, now, stage.result?, inner.started⟩

namespace Host.Allows

variable {host : Host} {defaults : Defaults} {stack : List Layer} {call : Call} {m : Moment}

/-- If the token of a call had fired, no process is started, and the call returns nothing but a
refusal or that it was cancelled. -/
theorem of_fired (h : host.Allows defaults stack call m)
    (hfired : call.context.isCancelled m.before = true) :
    m.started = false ∧ ∀ result, m.result = some result →
      ∃ e, result = .error e ∧ e.IsWithdrawal := by
  induction h with
  | idle => exact ⟨rfl, fun result hresult => by cases hresult⟩
  | client obstacle events hbefore hnow hcancel =>
    obtain ⟨e, he, hwithdrawal, hstarted⟩ := host.result_of_fired defaults
      (Context.isCancelled_mono hbefore hfired) obstacle events
    exact ⟨hstarted, fun result hresult =>
      ⟨e, Option.some.inj (hresult.symm.trans he), hwithdrawal⟩⟩
  | derived hlayer h ih => exact ih ((Layer.isCancelled_context _ _ _).trans hfired)
  | held j hat hbetween hentries =>
    refine ⟨rfl, fun result hresult => ?_⟩
    obtain rfl := FlightStage.eq_of_result? hresult
    rcases Journey.own_result hat with ⟨hentered, -⟩ | ⟨e, rfl, hwithdrawal, -⟩
    · cases hentries.symm.trans hentered
    · exact ⟨e, rfl, hwithdrawal⟩
  | entered j hat hbetween hentries hbefore hnow h hanswered ih =>
    obtain ⟨hstarted, hresults⟩ := ih (Context.isCancelled_mono hbefore hfired)
    refine ⟨hstarted, fun result hresult => ?_⟩
    obtain rfl := FlightStage.eq_of_result? hresult
    rcases Journey.own_result hat with ⟨-, hanswer⟩ | ⟨e, rfl, hwithdrawal, -⟩
    · exact hresults result (hanswered result hanswer)
    · exact ⟨e, rfl, hwithdrawal⟩

/-- A call returns that it was cancelled only if its token has fired by then. -/
theorem of_isCancelled (h : host.Allows defaults stack call m) {e : ClientError}
    (he : m.result = some (.error e)) (hcancelled : e.isCancelled = true) :
    call.context.isCancelled m.now = true := by
  induction h with
  | idle => cases he
  | @client call before seen now obstacle events hbefore hnow hcancel =>
    rcases host.fired_of_isCancelled defaults he hcancelled with hfired | ⟨hmem, htoken⟩
    · exact Context.isCancelled_mono hnow hfired
    · obtain ⟨token, htoken⟩ := Option.isSome_iff_exists.mp htoken
      rw [Context.isCancelled, htoken]
      exact List.contains_iff_mem.mpr (hcancel hmem token htoken)
  | derived hlayer h ih => exact (Layer.isCancelled_context _ _ _).symm.trans (ih he)
  | held j hat hbetween hentries =>
    obtain rfl := FlightStage.eq_of_result? he
    rcases Journey.own_result hat with ⟨hentered, -⟩ | ⟨e', he', -, hfired⟩
    · cases hentries.symm.trans hentered
    · cases he'
      exact Context.isCancelled_mono hbetween.now (hfired hcancelled)
  | entered j hat hbetween hentries hbefore hnow h hanswered ih =>
    obtain rfl := FlightStage.eq_of_result? he
    rcases Journey.own_result hat with ⟨-, hanswer⟩ | ⟨e', he', -, hfired⟩
    · exact Context.isCancelled_mono hnow (ih (hanswered _ hanswer))
    · cases he'
      exact Context.isCancelled_mono hbetween.now (hfired hcancelled)

end Host.Allows

/-- What a token that has fired means for a call that is sent through a stack of layers. -/
structure Call.HeedsToken (call : Call) (host : Host) (defaults : Defaults) (stack : List Layer) :
    Prop where
  /-- If the token had fired before the call was made, no process is started at any moment, and the
  call returns nothing but a refusal or that it was cancelled. -/
  never_starts : ∀ m, host.Allows defaults stack call m → call.context.isCancelled m.before = true →
    m.started = false ∧ ∀ result, m.result = some result →
      ∃ e, result = .error e ∧ e.IsWithdrawal
  /-- The call returns that it was cancelled only if the token has fired by then. -/
  only_fired : ∀ m, host.Allows defaults stack call m → ∀ e, m.result = some (.error e) →
    e.isCancelled = true → call.context.isCancelled m.now = true
  /-- If the token had fired before, the call does come to an end when there is no other call, even
  if others have locks of its keys. -/
  returns : ∀ fired registries held obstacle events,
    (∀ id, (registries id).Reachable ∧ fired ⊆ (registries id).fired) →
      call.context.isCancelled fired = true → ∃ e fate,
        (passThroughFrom call registries held stack).conclude call none
          (fun c _ => host.result defaults c (·.supervise fired obstacle events)) =
            (some (.error e), fate) ∧ e.IsWithdrawal ∧ fate.any Fate.started = false
  /-- Among other calls, a call that changes something then comes through no layer of locks of the
  stack, and as long as it has not been given up steps of its own bring it to its end. -/
  turns_back : ∀ upper id lower, stack = upper ++ .locking id :: lower →
    call.operation ∉ Operation.lookups → ∀ j : Journey,
      j.call = call.within (contextThrough call.context upper) →
        call.context.isCancelled (Traffic.run {} j.before).registry.fired = true →
          j.entries = [] ∧ (¬ j.IsGivenUp → ∃ n e,
            (j.afterSteps n).At (.returned (some (.error e))) ∧ e.IsWithdrawal)

/-- **Every call heeds its token.** If it had fired before the call was made, no process is started
and the call is refused or cancelled, whatever layers it goes through and whatever happens
meanwhile, and no call is cancelled whose token has not fired. -/
theorem Call.heedsToken (host : Host) (defaults : Defaults) (stack : List Layer) (call : Call) :
    call.HeedsToken host defaults stack where
  never_starts _ h hfired := h.of_fired hfired
  only_fired _ h _ he hcancelled := h.of_isCancelled he hcancelled
  returns _ _ held obstacle events hregistries hfired :=
    passThroughFrom_of_fired host defaults hregistries held stack hfired obstacle events
  turns_back upper id lower _ hchanges j hcall hfired := by
    have hkeys : j.call.keys? ≠ none := by
      intro hnone
      have hlookup := Call.keys?_eq_none_iff.mp hnone
      rw [hcall] at hlookup
      exact hchanges hlookup
    obtain ⟨keys, hkeys⟩ := Option.ne_none_iff_exists'.mp hkeys
    have hfired' : j.call.context.isCancelled (Traffic.run {} j.before).registry.fired = true := by
      rw [hcall]
      exact (isCancelled_contextThrough _ upper _).trans hfired
    exact Journey.turns_back_of_fired hkeys hfired'

/-- The removal is made after its token has fired, and goes on by itself. -/
def lateRemoval : Journey where
  before := [.registry (.fire ⟨"shutdown"⟩)]
  call := stoppableRemoval.within (Layer.direct.context stoppableRemoval.context)
  since := List.replicate 4 (.registry (.advance 0)) ++ [.proceed 0]

/-- It comes to return that it was cancelled, and no process is started. -/
theorem lateRemoval_heeds_token : ∃ m,
    Call.directHost.Allows {} [.direct, .locking 0] stoppableRemoval m ∧
      stoppableRemoval.context.isCancelled m.before = true ∧
      m.result = some (.error (.lockCancelled "vg1")) ∧ m.started = false := by
  have hat : lateRemoval.At (.returned (some (.error (.lockCancelled "vg1")))) := rfl
  have hearlier : (Traffic.run {} lateRemoval.before).registry.fired = [⟨"shutdown"⟩] := rfl
  have hnow : lateRemoval.traffic.registry.fired = [⟨"shutdown"⟩] := rfl
  have hbetween : lateRemoval.Between [⟨"shutdown"⟩] [⟨"shutdown"⟩] :=
    ⟨hearlier ▸ List.Subset.refl _, hnow ▸ List.Subset.refl _⟩
  have hheld : Call.directHost.Allows {} [.locking 0] lateRemoval.call
      ⟨[⟨"shutdown"⟩], [⟨"shutdown"⟩], some (.error (.lockCancelled "vg1")), false⟩ :=
    .held lateRemoval hat hbetween rfl
  have hallowed : Call.directHost.Allows {} [.direct, .locking 0] stoppableRemoval _ :=
    .derived (by simp) hheld
  have hheeds := Call.heedsToken Call.directHost {} [.direct, .locking 0] stoppableRemoval
  exact ⟨_, hallowed, rfl, rfl, (hheeds.never_starts _ hallowed rfl).1⟩

end LvmControl
