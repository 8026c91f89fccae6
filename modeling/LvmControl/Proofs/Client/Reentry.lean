import LvmControl.Proofs.Client.Cancellation
import LvmControl.Proofs.Lock.Solitary

/-!
# Calls that wait for themselves

Layers of locks can be stacked like any others, and can have their registries in common. A call that
comes to a second layer of locks has the locks of the first one and keeps them, so where both layers
ask the same registry for the same key the call waits for a lock that it has itself. There is no
other way in which a call waits that is alone, and a stack in which no two layers have the same
registry is safe.

## Main definitions

* `Call.demands`: what a call asks of the registries on its way.
* `Call.Reenters`: it asks one registry twice for a key.

## Main statements

* `passThroughFrom_waits_iff`: when a call waits, given what it has already.
* `Call.waits_iff_reenters`: a call that is alone waits exactly if it reenters a registry.
* `Call.not_waits_of_nodup`: where every layer of locks has a registry of its own no call waits.
-/

namespace LvmControl

open Lock

namespace Call

/-- What a call asks of the registries on its way through a stack, outermost first, up to a layer of
locks that refuses it. -/
def demands : Call → List Layer → List (RegistryId × List Key)
  | _, [] => []
  | call, .locking id :: rest =>
    match call.keys? with
    | none => call.demands rest
    | some keys => if call.fault?.isNone then (id, keys) :: call.demands rest else []
  | call, layer :: rest => (call.within (layer.context call.context)).demands rest

/-- On its way through the stack the call asks one registry twice for a key. -/
def Reenters (call : Call) (stack : List Layer) : Prop :=
  ∃ id keys keys', [(id, keys), (id, keys')].Sublist (call.demands stack) ∧
    ∃ key ∈ keys, key ∈ keys'

/-- Two demands do not get into each other's way. -/
def Compatible (a b : RegistryId × List Key) : Prop := a.1 = b.1 → a.2.Disjoint b.2

end Call

/-- The registry of a layer of locks. -/
def Layer.registry? : Layer → Option RegistryId
  | .locking id => some id
  | .overrides _ => none
  | .direct => none

/-- **What a call waits for.** While nothing else happens a call whose token has not fired waits
exactly if two of its demands get into each other's way or one of them is for a key that it has. -/
theorem passThroughFrom_waits_iff {call : Call} {registries : Registries} {fired : List Token}
    {owned : RegistryId → List Key} (held : List (RegistryId × List Key)) (stack : List Layer)
    (hidle : ∀ id, (registries id).Idle fired (owned id))
    (hunfired : call.context.isCancelled fired = false) :
    (∃ key, passThroughFrom call registries held stack = .waiting key) ↔
      ¬ ((call.demands stack).Pairwise Call.Compatible ∧
        ∀ d ∈ call.demands stack, (owned d.1).Disjoint d.2) := by
  induction stack generalizing call registries held owned with
  | nil => simp [passThroughFrom, Call.demands]
  | cons layer rest ih =>
    cases layer with
    | overrides o =>
      exact ih held hidle ((Layer.isCancelled_context _ (.overrides o) _).trans hunfired)
    | direct => exact ih held hidle ((Layer.isCancelled_context _ .direct _).trans hunfired)
    | locking id =>
      cases hkeys : call.keys? with
      | none =>
        simp only [passThroughFrom, Call.demands, hkeys]
        exact ih held hidle hunfired
      | some keys =>
        cases hfault : call.fault? with
        | some e => simp [passThroughFrom, Call.demands, hkeys, hfault]
        | none =>
          have hdemands : call.demands (.locking id :: rest) = (id, keys) :: call.demands rest := by
            simp [Call.demands, hkeys, hfault]
          rw [hdemands, List.pairwise_cons, List.forall_mem_cons]
          rcases (hidle id).acquire_cases hunfired keys with
            ⟨r, hacquire, hr, hdisjoint⟩ | ⟨r, key, hacquire, hheld, hkey⟩
          · simp only [passThroughFrom, hkeys, hfault, hacquire]
            -- From here on the call has these keys, too.
            have hidle' : ∀ i, ((registries.set id r) i).Idle fired
                (if i = id then owned id ++ keys else owned i) := by
              intro i
              by_cases hi : i = id
              · simpa [Registries.set, hi] using hr
              · simpa [Registries.set, hi] using hidle i
            have hsplit : ∀ d : RegistryId × List Key,
                (if d.1 = id then owned id ++ keys else owned d.1).Disjoint d.2 ↔
                  Call.Compatible (id, keys) d ∧ (owned d.1).Disjoint d.2 := by
              intro d
              by_cases hd : d.1 = id
              · simp [Call.Compatible, hd, List.disjoint_append_left, and_comm]
              · simp [Call.Compatible, hd, Ne.symm hd]
            rw [ih _ hidle' hunfired]
            refine not_congr ⟨?_, ?_⟩
            · rintro ⟨hpairwise, hfree⟩
              exact ⟨⟨fun d hd => ((hsplit d).mp (hfree d hd)).1, hpairwise⟩, hdisjoint,
                fun d hd => ((hsplit d).mp (hfree d hd)).2⟩
            · rintro ⟨⟨hcompatible, hpairwise⟩, -, hfree⟩
              exact ⟨hpairwise, fun d hd => (hsplit d).mpr ⟨hcompatible d hd, hfree d hd⟩⟩
          · simp only [passThroughFrom, hkeys, hfault, hacquire]
            exact iff_of_true ⟨_, rfl⟩ fun h => h.2.1 hheld hkey

/-- A registry in which nothing has happened but the firing of tokens is idle. -/
theorem Lock.Registry.idle_fresh (fired : List Token) :
    ({ fired := fired } : Registry).Idle fired [] where
  reachable := by
    refine ⟨fired.reverse.map .fire, ?_⟩
    induction fired with
    | nil => rfl
    | cons token fired ih =>
      rw [List.reverse_cons, List.map_append, Registry.run_append, ← ih]
      rfl
  fired := rfl
  complete _ hmem := by cases hmem
  mem_held key := by simp

namespace Call

/-- Two demands get into each other's way exactly if they ask one registry for a common key. -/
theorem not_pairwise_demands_iff {call : Call} {stack : List Layer} :
    ¬ (call.demands stack).Pairwise Compatible ↔ call.Reenters stack := by
  rw [List.pairwise_iff_forall_sublist]
  constructor
  · intro h
    simp only [not_forall] at h
    obtain ⟨⟨id, keys⟩, ⟨id', keys'⟩, hsublist, hclash⟩ := h
    simp only [Compatible, not_forall, List.Disjoint] at hclash
    obtain ⟨rfl, key, hkey, hkey', -⟩ := hclash
    exact ⟨id, keys, keys', hsublist, key, hkey, hkey'⟩
  · rintro ⟨id, keys, keys', hsublist, key, hkey, hkey'⟩ h
    exact h hsublist rfl hkey hkey'

/-- **A call that is alone** waits exactly if its token has not fired and it reenters a registry. -/
theorem waits_iff_reenters (call : Call) (stack : List Layer) (fired : List Token) :
    (∃ key, passThrough stack fired call = .waiting key) ↔
      call.context.isCancelled fired = false ∧ call.Reenters stack := by
  have hidle : ∀ id, ((fun _ => { fired := fired } : Registries) id).Idle fired [] :=
    fun _ => Registry.idle_fresh fired
  cases hfired : call.context.isCancelled fired with
  | false =>
    rw [passThrough, passThroughFrom_waits_iff [] stack hidle hfired, ← not_pairwise_demands_iff]
    simp
  | true =>
    refine iff_of_false ?_ (by simp)
    rintro ⟨key, hwaits⟩
    -- A call whose token has fired returns, whatever the client would do.
    obtain ⟨e, fate, hreturns, -⟩ := passThroughFrom_of_fired directHost {}
      (fun id => ⟨(hidle id).reachable, List.Subset.refl fired⟩) [] stack hfired none []
    rw [← passThrough, hwaits] at hreturns
    cases hreturns

/-- Every demand is made by a layer of locks. -/
theorem map_fst_demands_sublist (call : Call) (stack : List Layer) :
    ((call.demands stack).map Prod.fst).Sublist (stack.filterMap Layer.registry?) := by
  induction stack generalizing call with
  | nil => exact List.Sublist.slnil
  | cons layer rest ih =>
    cases layer with
    | overrides o | direct => exact ih _
    | locking id =>
      rw [demands]
      split
      · exact (ih call).trans (List.sublist_cons_self _ _)
      · split
        · exact (ih call).cons_cons id
        · exact List.nil_sublist _

/-- A stack in which every layer of locks has a registry of its own makes no call wait that is
alone. -/
theorem not_waits_of_nodup {stack : List Layer} (h : (stack.filterMap Layer.registry?).Nodup)
    (fired : List Token) (call : Call) (key : Option Key) :
    passThrough stack fired call ≠ .waiting key := by
  intro hwaits
  obtain ⟨-, id, keys, keys', hsublist, -⟩ := (waits_iff_reenters call stack fired).mp ⟨key, hwaits⟩
  have hnodup := (h.sublist (call.map_fst_demands_sublist stack)).sublist (hsublist.map Prod.fst)
  simp at hnodup

/-- Two layers with one registry make the removal of a group wait for the lock that it has. -/
example : passThrough [.locking 0, .direct, .locking 0] []
    (Traffic.removal Traffic.callerGroup) = .waiting (some "vg1") := rfl

end Call

end LvmControl
