import LvmControl.Proofs.Client.BelowLocks

/-!
# What comes out of a stack

A caller makes a call in a context of its own, and every layer that the call goes through may put
something in the place of what the caller said. This module says what the client is given at the
end: field by field, what the innermost layer says that has anything to say about it, and the
caller's word where none has. The call itself is the same, the client is asked once, and its answer
is the caller's.

## Main definitions

* `Layer.environment?`, `Layer.waitDelay?`: what a layer sets (`Layer.default?` is the third).
* `Innermost`: what the layers of a stack make of a value that each of them can set.
* `Context.ResolvedBy`: a context has in each field what a stack makes of it.
* `Call.ResolvedThrough`: what becomes of a call in a stack.

## Main statements

* `contextThrough_resolvedBy`: what each field of the context is that comes out of a stack.
* `Call.resolved`: every call is resolved field by field, through every stack.

## Design notes

**Locks are no part of the context.** A layer of locks hands the context on as it is, so a call that
comes through a stack with such layers arrives with the same context as without them. What they add
is that a call may not come through; without them every call does.
-/

namespace LvmControl

open Lock

/-! ## One field -/

/-- The environment that a layer sets. -/
def Layer.environment? : Layer → Option Environment
  | .overrides o => o.environment
  | .direct => none
  | .locking _ => none

/-- The wait delay that a layer sets. -/
def Layer.waitDelay? : Layer → Option Duration
  | .overrides o => o.waitDelay
  | .direct => none
  | .locking _ => none

/-- What the layers of a stack make of a value that each of them can set: it is that of the
innermost layer which sets it, or the one outside if no layer does. -/
inductive Innermost {α : Type} (set? : Layer → Option α) (outer : Option α) :
    List Layer → Option α → Prop
  | unset {stack : List Layer} (hstack : ∀ layer ∈ stack, set? layer = none) :
      Innermost set? outer stack outer
  | set {upper : List Layer} {layer : Layer} {lower : List Layer} {value : α}
      (hlayer : set? layer = some value) (hlower : ∀ below ∈ lower, set? below = none) :
      Innermost set? outer (upper ++ layer :: lower) (some value)

/-- The last value that is set, outermost first, is that of the innermost layer. -/
theorem innermost_getLast? {α : Type} (set? : Layer → Option α) (outer : Option α)
    (stack : List Layer) :
    Innermost set? outer stack (((stack.filterMap set?).getLast?).or outer) := by
  cases hlast : (stack.filterMap set?).getLast? with
  | none =>
    rw [List.getLast?_eq_none_iff, List.filterMap_eq_nil_iff] at hlast
    exact .unset hlast
  | some value =>
    obtain ⟨before, hsplit⟩ := List.getLast?_eq_some_iff.mp hlast
    obtain ⟨upper, rest, rfl, -, hrest⟩ := List.filterMap_eq_append_iff.mp hsplit
    obtain ⟨between, layer, lower, rfl, -, hlayer, hlower⟩ := List.filterMap_eq_cons_iff.mp hrest
    rw [← List.append_assoc]
    exact .set hlayer (List.filterMap_eq_nil_iff.mp hlower)

@[simp] theorem Layer.environment_context (ctx : Context) (layer : Layer) :
    (layer.context ctx).environment = layer.environment?.or ctx.environment := by
  cases layer <;> rfl

@[simp] theorem Layer.waitDelay_context (ctx : Context) (layer : Layer) :
    (layer.context ctx).waitDelay = layer.waitDelay?.or ctx.waitDelay := by
  cases layer <;> rfl

/-- The bypass is only ever switched on. -/
theorem Layer.bypass_context (ctx : Context) (layer : Layer) :
    (layer.context ctx).bypass = true ↔ layer = .direct ∨ ctx.bypass = true := by
  cases layer <;> simp [Layer.context, Context.change, Context.override]

/-! ## The whole context -/

/-- The context has in each field what the layers of the stack make of the one outside. -/
structure Context.ResolvedBy (inner : Context) (stack : List Layer) (outer : Context) : Prop where
  environment : Innermost Layer.environment? outer.environment stack inner.environment
  waitDelay : Innermost Layer.waitDelay? outer.waitDelay stack inner.waitDelay
  defaultGroup : Innermost Layer.default? outer.defaultGroup stack inner.defaultGroup
  bypass : inner.bypass = true ↔ .direct ∈ stack ∨ outer.bypass = true
  token : inner.token = outer.token

/-- A field that a layer replaces where it sets it has in the end what the innermost layer sets. -/
theorem innermost_contextThrough {α : Type} {field : Context → Option α}
    {set? : Layer → Option α}
    (hlayer : ∀ ctx layer, field (Layer.context ctx layer) = (set? layer).or (field ctx))
    (ctx : Context) (stack : List Layer) :
    Innermost set? (field ctx) stack (field (contextThrough ctx stack)) := by
  rw [field_contextThrough hlayer]
  exact innermost_getLast? set? (field ctx) stack

/-- The bypass is on if any layer switches it on, or else as the caller has it. -/
theorem bypass_contextThrough (ctx : Context) (stack : List Layer) :
    (contextThrough ctx stack).bypass = true ↔ .direct ∈ stack ∨ ctx.bypass = true := by
  induction stack generalizing ctx with
  | nil => simp [contextThrough]
  | cons layer rest ih =>
    rw [contextThrough, List.foldl_cons, ← contextThrough, ih, Layer.bypass_context,
      List.mem_cons, or_left_comm, or_assoc, eq_comm]

/-- The token is the caller's. -/
theorem token_contextThrough (ctx : Context) (stack : List Layer) :
    (contextThrough ctx stack).token = ctx.token := by
  induction stack generalizing ctx with
  | nil => rfl
  | cons layer rest ih => exact (ih _).trans (layer.token_context ctx)

/-- **Field by field.** The context that comes out of a stack has in each field what the innermost
layer sets that sets it, and else what the caller has. -/
theorem contextThrough_resolvedBy (ctx : Context) (stack : List Layer) :
    (contextThrough ctx stack).ResolvedBy stack ctx where
  environment := innermost_contextThrough Layer.environment_context ctx stack
  waitDelay := innermost_contextThrough Layer.waitDelay_context ctx stack
  defaultGroup := innermost_contextThrough Layer.defaultGroup_context ctx stack
  bypass := bypass_contextThrough ctx stack
  token := token_contextThrough ctx stack

/-! ## Calls -/

/-- Whatever locks a call has to get on its way, if it arrives it has the context that the layers
make of its own. -/
theorem context_of_arrived {call : Call} {registries : Registries}
    {held held' : List (RegistryId × List Key)} {stack : List Layer} {ctx : Context}
    (h : passThroughFrom call registries held stack = .arrived ctx held') :
    ctx = contextThrough call.context stack := by
  induction stack generalizing call registries held with
  | nil =>
    rw [passThroughFrom] at h
    exact (Passage.arrived.inj h).1.symm
  | cons layer rest ih =>
    cases layer with
    | overrides o => exact ih h
    | direct => exact ih h
    | locking id =>
      rw [passThroughFrom] at h
      split at h
      · exact ih h
      · split at h
        · cases h
        · split at h
          · exact ih h
          · cases h
          · cases h

/-- What becomes of a call in a stack. -/
structure Call.ResolvedThrough (call : Call) (stack : List Layer) : Prop where
  /-- The context that comes out of the stack is resolved field by field. -/
  context : (contextThrough call.context stack).ResolvedBy stack call.context
  /-- The client gets no other context, also where the call has to get locks on its way. -/
  arrived : ∀ registries held held' ctx,
    passThroughFrom call registries held stack = .arrived ctx held' →
      ctx = contextThrough call.context stack
  /-- Through layers that only derive contexts every call arrives. The client is asked the same
  operation with the same options. Whatever state it keeps is then what this one call makes of it,
  so a client that counts its calls has counted one more, and its result is that of the call. -/
  answered : (∀ id, .locking id ∉ stack) → ∀ {σ : Type} (fired : List Token)
    (client : Call → σ → Option Result × σ) (state : σ),
      (passThrough stack fired call).conclude call state client =
        client ⟨call.operation, contextThrough call.context stack, call.options⟩ state

/-- **Stacks of layers.** Every call in every context is resolved field by field, through every
stack. -/
theorem Call.resolved (call : Call) (stack : List Layer) : call.ResolvedThrough stack where
  context := contextThrough_resolvedBy call.context stack
  arrived _ _ _ _ h := context_of_arrived h
  answered hlayers _ _ _ _ := by
    rw [passThrough, passThroughFrom_of_not_locking call _ _ hlayers]
    rfl

/-- The inner of two layers decides on the wait delay, and the outer one on what the inner one
leaves alone. -/
example :
    let outer : Overrides := { waitDelay := some .zero, defaultGroup := some Traffic.otherGroup }
    let inner : Overrides := { waitDelay := some (.ofMillis 300) }
    contextThrough { defaultGroup := some Traffic.callerGroup }
      [.overrides outer, .direct, .overrides inner] =
        { waitDelay := some (.ofMillis 300), defaultGroup := some Traffic.otherGroup,
          bypass := true } := rfl

end LvmControl
