import LvmControl.Request.Scope

/-!
# What a default group changes

A default group stands in for a group that a request needs and leaves out, and it is looked up
twice: once for the keys of a call and once for its command line. This module says what it does to
the keys, and when two default groups lead to the same ones.

## Main definitions

* `Command.Diverges`: one default group brings in a key that another one does not.

## Main statements

* `Command.keys_subset_iff`: the keys under one default group are among those under another unless
  the command diverges.

## Design notes

**A device can be named like a group.** A command that has its devices as keys holds the name of a
group without meaning it when one of the devices is given by the same name. `Command.Diverges` has
to except that case to be the exact condition.
-/

namespace LvmControl

namespace Command

variable {c : Command} {r : Request}

/-- Under the default group `inner` the command has a key that it does not have under `outer`. -/
def Diverges (c : Command) (r : Request) (outer inner : Option VolumeGroupName) : Prop :=
  c.fillsGroup r = true ∧ ∃ group, inner = some group ∧ outer ≠ some group ∧
    ¬ (c.scope? = some .groupAndDevices ∧ group.text ∈ r.deviceKeys)

/-- A request that a default group completes leaves the group out. -/
theorem groupKeys_of_fillsGroup (h : c.fillsGroup r = true) : r.groupKeys = [] := by
  have hnone : r.volumeGroup = none := by cases c <;> simp_all [fillsGroup]
  simp [Request.groupKeys, hnone]

/-- What changes and can be completed changes a group, and perhaps its devices. -/
theorem scope_of_fillsGroup {scope : Scope} (h : c.fillsGroup r = true)
    (hscope : c.scope? = some scope) : scope = .group ∨ scope = .groupAndDevices := by
  cases c <;> simp_all [fillsGroup, scope?]

/-- A request that lacks nothing stays as it is. -/
theorem withDefault_of_not_fillsGroup (h : c.fillsGroup r = false)
    (default : Option VolumeGroupName) : r.withDefault c default = r := by
  cases default with
  | none => rfl
  | some group => simp [Request.withDefault, h]

/-- A default group completes nothing that is not left out. -/
theorem withDefault_of_some {group : VolumeGroupName} (h : r.volumeGroup = some group)
    (default : Option VolumeGroupName) : r.withDefault c default = r :=
  withDefault_of_not_fillsGroup (by cases c <;> simp [fillsGroup, h]) default

/-- A default group leaves every field but that of the group as it was. -/
theorem get_withDefault_of_ne {f : Field} (hf : f ≠ .volumeGroup)
    (default : Option VolumeGroupName) : (r.withDefault c default).get f = r.get f := by
  cases default with
  | none => rfl
  | some group =>
    by_cases h : c.fillsGroup r = true
    · have hnot : f ∉ (Setting.volumeGroup group).fields := by simpa [Setting.fields] using hf
      simpa [Request.withDefault, h] using Setting.get_apply_of_not_mem hnot r
    · simp [Request.withDefault, h]

/-- The keys of a request that is completed: the default group, and the devices where they count. -/
theorem mem_keys_withDefault {scope : Scope} (h : c.fillsGroup r = true)
    (hscope : c.scope? = some scope) {default : Option VolumeGroupName} {key : String} :
    key ∈ scope.keys (r.withDefault c default) ↔
      (∃ group, default = some group ∧ key = group.text) ∨
        scope = .groupAndDevices ∧ key ∈ r.deviceKeys := by
  have hempty := groupKeys_of_fillsGroup h
  have hfull : ∀ group, ((Setting.volumeGroup group).apply r).groupKeys = [group.text] :=
    fun _ => rfl
  have hdevices : ∀ group, ((Setting.volumeGroup group).apply r).deviceKeys = r.deviceKeys :=
    fun _ => rfl
  rcases scope_of_fillsGroup h hscope with rfl | rfl
  · cases default with
    | none => simp [Scope.keys, hempty]
    | some group => simp [Scope.keys, Request.withDefault, h, hfull]
  · cases default with
    | none => simp [Scope.keys, hempty]
    | some group => simp [Scope.keys, Request.withDefault, h, hfull, hdevices]

/-- **Two default groups.** The keys under one are among the keys under the other unless the first
one brings in a key. -/
theorem keys_subset_iff {scope : Scope} (hscope : c.scope? = some scope)
    (outer inner : Option VolumeGroupName) :
    scope.keys (r.withDefault c inner) ⊆ scope.keys (r.withDefault c outer) ↔
      ¬ c.Diverges r outer inner := by
  by_cases h : c.fillsGroup r = true
  · constructor
    · rintro hsub ⟨-, group, rfl, hne, hnot⟩
      have hmem := hsub ((mem_keys_withDefault h hscope).mpr (.inl ⟨group, rfl, rfl⟩))
      rcases (mem_keys_withDefault h hscope).mp hmem with ⟨other, rfl, htext⟩ | ⟨rfl, hdevice⟩
      · have hsame : group = other := by cases group; cases other; simp_all
        exact hne (hsame ▸ rfl)
      · exact hnot ⟨hscope, hdevice⟩
    · intro hconverges key hkey
      refine (mem_keys_withDefault h hscope).mpr ?_
      rcases (mem_keys_withDefault h hscope).mp hkey with ⟨group, rfl, rfl⟩ | hdevice
      · by_cases houter : outer = some group
        · exact .inl ⟨group, houter, rfl⟩
        · by_cases hdevice : scope = .groupAndDevices ∧ group.text ∈ r.deviceKeys
          · exact .inr hdevice
          · refine absurd ⟨h, group, rfl, houter, ?_⟩ hconverges
            rintro ⟨hboth, hmem⟩
            exact hdevice ⟨Option.some.inj (hscope.symm.trans hboth), hmem⟩
      · exact .inr hdevice
  · have hnot : c.fillsGroup r = false := by simpa using h
    rw [withDefault_of_not_fillsGroup hnot, withDefault_of_not_fillsGroup hnot]
    exact ⟨fun _ hdiverges => h hdiverges.1, fun _ => List.Subset.refl _⟩

end Command

end LvmControl
