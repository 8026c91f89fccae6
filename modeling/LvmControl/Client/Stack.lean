import LvmControl.Client.Call
import LvmControl.Lock.Registry

/-!
# Stacks of layers around a client

A client can be wrapped in layers. Some give its calls another context, and some let a call that
changes something through only while it has the locks of what it changes.

## Main definitions

* `Layer`: a layer.
* `Layer.context`: the context that a layer passes on.
* `Call.keys?`: the keys that a layer of locks acquires for a call.
* `Passage`: how far a call gets.
* `passThrough`: a call sent through a stack of layers when there is no other call.
* `Passage.conclude`: the result of a call that got so far.

## Design notes

**Outermost first.** A stack is the list of its layers in the order in which a call meets them.

**Checked before locked.** A layer of locks refuses a call that is not valid in the context which
reaches it, before it acquires anything. Calls that only read pass it as if it were not there.

**Registries can be shared.** A layer of locks refers to its registry by number, so two layers of
one stack may have the same one.
-/

namespace LvmControl

open Lock

/-- The number of a registry. -/
abbrev RegistryId := Nat

/-- A layer around a client. -/
inductive Layer
  /-- Makes changes to the context. -/
  | overrides (o : Overrides)
  /-- Runs commands where this process runs, even inside a container. -/
  | direct
  /-- Has the locks of a registry while a call that changes something is carried out. -/
  | locking (registry : RegistryId)

/-- The context that a layer passes on. -/
def Layer.context (ctx : Context) : Layer → Context
  | .overrides o => ctx.change (.overrides o)
  | .direct => ctx.change (.bypass true)
  | .locking _ => ctx

/-- The context that comes out of a stack. -/
def contextThrough (ctx : Context) (stack : List Layer) : Context :=
  stack.foldl Layer.context ctx

namespace Call

/-- The call in another context. -/
def within (call : Call) (ctx : Context) : Call := ⟨call.operation, ctx, call.options⟩

/-- The request of a call, completed by the default group of its context. -/
def request (call : Call) : Request := call.options.completed call.context.defaultGroup

/-- The keys of what a call changes, or `none` for a call that changes nothing. -/
def keys? (call : Call) : Option (List Key) := call.operation.command.keys? call.request

/-- What is wrong with the request of a call. -/
def fault? (call : Call) : Option ValidationError := call.operation.command.fault? call.request

end Call

/-- How far a call gets in a stack of layers. -/
inductive Passage
  /-- A layer of locks refused it. -/
  | refused (error : ValidationError)
  /-- It was cancelled when it was about to get the lock of the key. -/
  | cancelled (key : Key)
  /-- It waits for a lock, which is that of the key. -/
  | waiting (key : Option Key)
  /-- It reached the client with the context, and has the locks of its keys in the registries. -/
  | arrived (ctx : Context) (held : List (RegistryId × List Key))

/-- The registries by number. -/
abbrev Registries := RegistryId → Registry

/-- The registries after one of them has changed. -/
def Registries.set (registries : Registries) (id : RegistryId) (r : Registry) : Registries :=
  fun i => if i = id then r else registries i

/-- Sends a call through the rest of a stack, given the locks that it has already. -/
def passThroughFrom (call : Call) (registries : Registries)
    (held : List (RegistryId × List Key)) : List Layer → Passage
  | [] => .arrived call.context held
  | .locking id :: rest =>
    match call.keys? with
    | none => passThroughFrom call registries held rest
    | some keys =>
      match call.fault? with
      | some e => .refused e
      | none =>
        match (registries id).acquire keys call.context.token with
        | (r, .acquired keys) =>
          passThroughFrom call (registries.set id r) (held ++ [(id, keys)]) rest
        | (_, .cancelled key) => .cancelled key
        | (_, .unfinished next) => .waiting next
  | layer :: rest =>
    passThroughFrom (call.within (layer.context call.context)) registries held rest

/-- Sends a call through a stack of layers when no other call is in flight; the tokens that have
fired are given. -/
def passThrough (stack : List Layer) (fired : List Token) (call : Call) : Passage :=
  passThroughFrom call (fun _ => { fired := fired }) [] stack

/-- The result of a call that got so far, `none` if it waits for ever. The client is asked only for
a call that reached it, with the context that reached it. -/
def Passage.conclude {σ : Type} (p : Passage) (call : Call) (state : σ)
    (client : Call → σ → Option Result × σ) : Option Result × σ :=
  match p with
  | .refused e => (some (.error (.validation e)), state)
  | .cancelled key => (some (.error (.lockCancelled key)), state)
  | .waiting _ => (none, state)
  | .arrived ctx _ => client (call.within ctx) state

end LvmControl
