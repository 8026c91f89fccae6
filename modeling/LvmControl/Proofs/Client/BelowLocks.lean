import LvmControl.Proofs.Lock.Exclusion
import LvmControl.Proofs.Request.DefaultGroup

/-!
# Layers below the locks

A layer of locks looks a missing group up in the context that reaches it, and the client in the one
that has come through the layers below. The call holds what the command changes as long as these two
contexts agree on the default group. A layer below the locks that brings in another default group
breaks this: the command then runs on a group whose lock the call does not have.

## Main definitions

* `Layer.default?`: the default group that a layer brings in.

## Main statements

* `passThroughFrom_of_not_locking`: layers without locks let every call through.
* `field_contextThrough`: of the layers that set a field of the context the innermost one decides.
* `Traffic.holds_innermost_keys_iff`: when a call with the client holds the keys of the command that
  runs.
-/

namespace LvmControl

open Lock

/-- The default group that a layer brings in. -/
def Layer.default? : Layer → Option VolumeGroupName
  | .overrides o => o.defaultGroup
  | .direct => none
  | .locking _ => none

/-- A layer that brings in a default group puts it in the place of the one that was there. -/
@[simp] theorem Layer.defaultGroup_context (ctx : Context) (layer : Layer) :
    (layer.context ctx).defaultGroup = layer.default?.or ctx.defaultGroup := by
  cases layer <;> rfl

/-- No layer changes the token. -/
@[simp] theorem Layer.token_context (ctx : Context) (layer : Layer) :
    (layer.context ctx).token = ctx.token := by
  cases layer <;> rfl

/-- Where a layer that has a value of its own puts it in the place of the one that was there, the
innermost layer that has one decides. -/
theorem field_contextThrough {α : Type} {field : Context → Option α} {set? : Layer → Option α}
    (hlayer : ∀ ctx layer, field (Layer.context ctx layer) = (set? layer).or (field ctx))
    (ctx : Context) (layers : List Layer) :
    field (contextThrough ctx layers) =
      ((layers.filterMap set?).getLast?).or (field ctx) :=
  field_foldl field hlayer ctx layers

/-- The innermost layer that brings in a default group decides what the client is given. -/
theorem defaultGroup_contextThrough (ctx : Context) (layers : List Layer) :
    (contextThrough ctx layers).defaultGroup =
      ((layers.filterMap Layer.default?).getLast?).or ctx.defaultGroup :=
  field_contextThrough Layer.defaultGroup_context ctx layers

/-- Layers without locks let every call through, with the locks that it has already. -/
theorem passThroughFrom_of_not_locking (call : Call) (registries : Registries)
    (held : List (RegistryId × List Key)) {layers : List Layer}
    (h : ∀ id, Layer.locking id ∉ layers) :
    passThroughFrom call registries held layers =
      .arrived (contextThrough call.context layers) held := by
  induction layers generalizing call with
  | nil => rfl
  | cons layer rest ih =>
    have hrest : ∀ id, Layer.locking id ∉ rest := fun id hid => h id (List.mem_cons_of_mem _ hid)
    cases layer with
    | locking id => exact absurd List.mem_cons_self (h id)
    | overrides o => exact ih (call.within _) hrest
    | direct => exact ih (call.within _) hrest

namespace Lock.Traffic

/-- **The keys of the command that runs.** Whatever has happened, a call that changes something and
is with the client goes through layers without locks to the innermost client. It holds the keys of
its options as they are completed there, unless one of the layers brings in a default group that the
options need and the context of the caller does not have. -/
theorem holds_innermost_keys_iff (actions : List TrafficAction) {f : FlightId} {flight : Flight}
    {u : Option TaskId} {scope : Scope} (hf : (Traffic.run {} actions).flights[f]? = some flight)
    (hstage : flight.stage = .inside u)
    (hscope : flight.call.operation.command.scope? = some scope) {layers : List Layer}
    (hlayers : ∀ id, Layer.locking id ∉ layers) (registries : Registries)
    (held : List (RegistryId × List Key)) :
    ∃ t task inner, u = some t ∧ (Traffic.run {} actions).registry.tasks[t]? = some task ∧
      passThroughFrom flight.call registries held layers = .arrived inner held ∧
      (scope.keys (flight.call.within inner).request ⊆ task.heldKeys ↔
        ¬ flight.call.operation.command.Diverges flight.call.options.aggregate.request
          flight.call.context.defaultGroup (layers.filterMap Layer.default?).getLast?) := by
  have hkeys : flight.call.keys? = some (scope.keys flight.call.request) := by
    simp [Call.keys?, Command.keys?, hscope]
  obtain ⟨t, task, rfl, ht, hheld⟩ := (sound_run actions).exists_holder hf hstage hkeys
  refine ⟨t, task, _, rfl, ht, passThroughFrom_of_not_locking _ _ _ hlayers, ?_⟩
  have hsame : (∀ keys, keys ⊆ task.heldKeys ↔ keys ⊆ scope.keys flight.call.request) := by
    intro keys
    simp [hheld, List.subset_def]
  rw [hsame]
  refine (Command.keys_subset_iff hscope flight.call.context.defaultGroup _).trans (not_congr ?_)
  change Command.Diverges _ _ _ (contextThrough flight.call.context layers).defaultGroup ↔ _
  rw [defaultGroup_contextThrough]
  cases hlast : (layers.filterMap Layer.default?).getLast? with
  | some group => exact Iff.rfl
  | none =>
    -- Without a layer that brings in a default group, the two contexts have the same one.
    constructor
    · rintro ⟨-, group, hinner, houter, -⟩
      exact absurd hinner houter
    · rintro ⟨-, group, hinner, -, -⟩
      cases hinner

/-- Layers that leave the default group alone do no harm. -/
theorem removal_holds_its_key :
    ∃ t task inner, some 0 = some t ∧
      (Traffic.run {} (entrance 0 (removal callerGroup))).registry.tasks[t]? = some task ∧
      passThroughFrom (removal callerGroup) (fun _ => {}) [(0, ["vg1"])]
        [.direct, .overrides { waitDelay := some .zero }] = .arrived inner [(0, ["vg1"])] ∧
      Scope.group.keys ((removal callerGroup).within inner).request ⊆ task.heldKeys := by
  have hinside : (Traffic.run {} (entrance 0 (removal callerGroup))).flights[0]? =
      some ⟨removal callerGroup, .inside (some 0)⟩ := rfl
  have hlayers : ∀ id, Layer.locking id ∉ [.direct, .overrides { waitDelay := some .zero }] := by
    simp
  obtain ⟨t, task, inner, ht, htask, harrived, hkeys⟩ :=
    holds_innermost_keys_iff _ hinside rfl rfl hlayers (fun _ => {}) [(0, ["vg1"])]
  refine ⟨t, task, inner, ht, htask, harrived, hkeys.mpr ?_⟩
  rintro ⟨-, group, hinner, -⟩
  cases hinner

/-- Below the locks another default group comes in: the command removes a group whose lock the call
does not have. -/
theorem removal_lacks_key :
    ∃ flight task, (Traffic.run {} (entrance 0 (removal callerGroup))).flights[0]? = some flight ∧
      flight.stage = .inside (some 0) ∧
      (Traffic.run {} (entrance 0 (removal callerGroup))).registry.tasks[0]? = some task ∧
      ∃ key ∈ Scope.group.keys (flight.call.within (contextThrough flight.call.context
        [.overrides { defaultGroup := some otherGroup }])).request, key ∉ task.heldKeys :=
  ⟨⟨removal callerGroup, .inside (some 0)⟩, _, rfl, rfl, rfl, "vg0", by decide, by decide⟩

end Lock.Traffic

end LvmControl
