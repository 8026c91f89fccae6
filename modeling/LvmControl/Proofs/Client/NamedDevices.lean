import LvmControl.Proofs.Lock.Exclusion
import LvmControl.Proofs.Request.SharedKeys

/-!
# Commands that name the same device

Commands that gain, lose or change a device have it among their keys, so two of them that name the
same device are never with the client together. Commands that only place a logical volume on the
devices that they name change nothing but the group, and have nothing but the group as their key.

## Main definitions

* `Request.Names`: a request names a device.
* `Command.LocksDevices`: the commands that have their devices among their keys.
* `Command.Allocates`: the commands that name devices to place a logical volume on.
* `KeptApart`: how far commands that name a device are kept apart.

## Main statements

* `Line.cases_of_names`: what changes something and names a device is one or the other.
* `Line.shares_iff_of_allocates`: an allocation shares a key if its group is one.
* `keptApart`: how commands that name the same device are kept apart.
* `allocation_not_kept_apart`: an allocation on a device that is removed at the same time.
-/

namespace LvmControl

open Lock

/-- The request names the device. -/
def Request.Names (r : Request) (d : PhysicalVolumeName) : Prop := d ∈ r.physicalVolumes

namespace Command

variable {c : Command}

/-- The command has the devices that it names among its keys. -/
def LocksDevices (c : Command) : Prop := c ∈ [.vgcreate, .vgextend, .vgreduce] ++ deviceCommands

/-- The command names devices only to place a logical volume on them. -/
def Allocates (c : Command) : Prop := c ∈ [.lvcreate, .lvextend, .lvresize]

instance (c : Command) : Decidable c.LocksDevices :=
  inferInstanceAs (Decidable (c ∈ _))

instance (c : Command) : Decidable c.Allocates :=
  inferInstanceAs (Decidable (c ∈ _))

/-- A device that is named is a key of a command that locks devices. -/
theorem exists_keys_of_names (hc : c.LocksDevices) {r : Request} {d : PhysicalVolumeName}
    (hd : r.Names d) : ∃ ks, c.keys? r = some ks ∧ d.text ∈ ks := by
  have hkey : d.text ∈ r.deviceKeys := List.mem_map_of_mem hd
  have hscope : c.scope? = some .groupAndDevices ∨ c.scope? = some .devices := by
    revert hc
    cases c <;> decide
  rcases hscope with hs | hs
  · exact ⟨_, by rw [keys?, hs]; rfl, List.mem_append_right _ hkey⟩
  · exact ⟨_, by rw [keys?, hs]; rfl, hkey⟩

/-- An allocation is a command on a group, and has nothing but the group as its key. -/
theorem group_of_allocates (hc : c.Allocates) : c ∈ groupCommands ∧ c.scope? = some .group := by
  revert hc
  cases c <;> decide

/-- What changes something and takes devices locks them or allocates from them, and it writes them
on its command line. -/
theorem cases_of_takes (hc : c.isMutating = true) (htakes : c.takes .physicalVolumes = true) :
    (c.LocksDevices ∨ c.Allocates) ∧ .field .physicalVolumes ∈ c.layout := by
  revert hc htakes
  cases c <;> decide

end Command

namespace Line

variable {l m : Line} {d : PhysicalVolumeName}

/-- Devices can be named only for a command that takes them. -/
theorem takes_of_names (hd : l.request.Names d) : l.command.takes .physicalVolumes = true := by
  cases htakes : l.command.takes .physicalVolumes with
  | true => rfl
  | false =>
    have hempty : l.request.physicalVolumes = [] := get_of_not_takes htakes (by decide)
    rw [Request.Names, hempty] at hd
    exact absurd hd List.not_mem_nil

/-- A command line that changes something and names a device locks it or allocates from it, and the
device stands on it. -/
theorem cases_of_names (hl : l.command.isMutating = true) (hd : l.request.Names d) :
    (l.command.LocksDevices ∨ l.command.Allocates) ∧ d.text ∈ l.args.tokens := by
  obtain ⟨hcases, hpiece⟩ := Command.cases_of_takes hl (takes_of_names hd)
  have hedit : Edit.put d.text ∈ (Piece.field .physicalVolumes).edits l.request :=
    List.mem_map_of_mem hd
  exact ⟨hcases, mem_tokens hpiece hedit (List.mem_singleton.mpr rfl) d.not_isFlag⟩

/-- Command lines that lock a device that both name share a key. -/
theorem shares_of_names (hl : l.command.LocksDevices) (hm : m.command.LocksDevices)
    (hdl : l.request.Names d) (hdm : m.request.Names d) : l.Shares m := by
  obtain ⟨ks, hks, hkey⟩ := Command.exists_keys_of_names hl hdl
  obtain ⟨ls, hls, hkey'⟩ := Command.exists_keys_of_names hm hdm
  exact ⟨ks, ls, d.text, hks, hls, hkey, hkey'⟩

/-- An allocation shares a key with a command line that has the group of the allocation among its
keys, and with no other. -/
theorem shares_iff_of_allocates (hl : l.command.Allocates) :
    l.Shares m ↔ ∃ g ks, l.Addresses g ∧ m.keys? = some ks ∧ g.text ∈ ks := by
  obtain ⟨hgroup, hscope⟩ := Command.group_of_allocates hl
  have hkeys : l.keys? = some l.request.groupKeys := by
    rw [keys?, Command.keys?, hscope]
    rfl
  constructor
  · rintro ⟨ks, ls, key, hks, hls, hkey, hkey'⟩
    obtain rfl := Option.some.inj (hkeys.symm.trans hks)
    obtain ⟨g, hg, rfl⟩ := List.mem_map.mp hkey
    have haddresses : l.Addresses g :=
      ⟨hgroup, (Command.mem_groups_iff hgroup _ g).mpr (.inl (Option.mem_toList.mp hg))⟩
    exact ⟨g, ls, haddresses, hls, hkey'⟩
  · rintro ⟨g, ls, haddresses, hls, hkey'⟩
    obtain ⟨ks, hks, hkey⟩ := exists_keys_of_addresses haddresses
    exact ⟨ks, ls, g.text, hks, hls, hkey, hkey'⟩

end Line

/-! ## Calls in flight -/

/-- Two calls that lock a device that both name are not with the client together. -/
theorem Lock.Traffic.Sound.not_both_inside {s : Traffic} (h : s.Sound) {f g : FlightId}
    {a b : Flight} (hfg : f ≠ g) (hf : s.flights[f]? = some a) (hg : s.flights[g]? = some b)
    {d : PhysicalVolumeName} (ha : a.call.operation.command.LocksDevices)
    (hb : b.call.operation.command.LocksDevices) (hda : a.call.request.Names d)
    (hdb : b.call.request.Names d) {u v : Option TaskId} :
    ¬ (a.stage = .inside u ∧ b.stage = .inside v) := by
  rintro ⟨hu, hv⟩
  obtain ⟨ks, hks, hkey⟩ := Command.exists_keys_of_names ha hda
  obtain ⟨ls, hls, hkey'⟩ := Command.exists_keys_of_names hb hdb
  exact h.exclusive.disjoint_inside hfg hf hg hu hv hks hls hkey hkey'

/-- How far commands that name the device are kept apart. -/
structure KeptApart (d : PhysicalVolumeName) : Prop where
  /-- What changes something and names the device locks it or allocates from it, and the device
  stands on the command line. -/
  cases : ∀ l : Line, l.command.isMutating = true → l.request.Names d →
    (l.command.LocksDevices ∨ l.command.Allocates) ∧ d.text ∈ l.args.tokens
  /-- Two command lines that lock the device share a key. -/
  shares : ∀ l m : Line, l.request.Names d → m.request.Names d → l.command.LocksDevices →
    m.command.LocksDevices → l.Shares m
  /-- Two calls that lock the device are never with the client together. -/
  never_together : ∀ (actions : List TrafficAction) {f g : FlightId} {a b : Flight}
    {u v : Option TaskId}, f ≠ g → (Traffic.run {} actions).flights[f]? = some a →
      (Traffic.run {} actions).flights[g]? = some b → a.call.request.Names d →
        b.call.request.Names d → a.call.operation.command.LocksDevices →
          b.call.operation.command.LocksDevices → ¬ (a.stage = .inside u ∧ b.stage = .inside v)
  /-- An allocation shares a key with another command line that names the device only if the name of
  its group is a key of the other one. -/
  allocation : ∀ l m : Line, l.request.Names d → m.request.Names d → l.command.Allocates →
    (l.Shares m ↔ ∃ g ks, l.Addresses g ∧ m.keys? = some ks ∧ g.text ∈ ks)

/-- **Devices.** Commands that gain, lose or change the same device are kept apart. Allocations are
kept apart from others by their group alone. -/
theorem keptApart (d : PhysicalVolumeName) : KeptApart d where
  cases _ hl hd := Line.cases_of_names hl hd
  shares _ _ hdl hdm hl hm := Line.shares_of_names hl hm hdl hdm
  never_together actions _ _ _ _ _ _ hfg hf hg hda hdb ha hb :=
    (Traffic.sound_run actions).not_both_inside hfg hf hg ha hb hda hdb
  allocation _ _ _ _ hl := Line.shares_iff_of_allocates hl

/-! ## An allocation on a device that is removed -/

/-- A device. -/
def spareDevice : PhysicalVolumeName := ⟨"/dev/sdb", by decide⟩

/-- A logical volume is placed on the device. -/
def allocation : OptionList .lvcreate :=
  ⟨[.setting (.volumeGroup Traffic.otherGroup) rfl,
    .setting (.logicalVolume ⟨"data", by decide⟩) rfl,
    .setting (.size ⟨4194304, by decide⟩) rfl,
    .setting (.physicalVolumes [spareDevice]) rfl]⟩

/-- The device is removed. -/
def deviceRemoval : OptionList .pvremove := ⟨[.setting (.physicalVolumes [spareDevice]) rfl]⟩

/-- The command line that places the volume. -/
def allocationLine : Line where
  command := .lvcreate
  options := allocation
  default := none
  args := ⟨["--name=data", "--size=4194304b", "vg0", "/dev/sdb", "--yes"]⟩
  accepted := by decide +kernel

/-- The command line that removes the device. -/
def deviceRemovalLine : Line where
  command := .pvremove
  options := deviceRemoval
  default := none
  args := ⟨["/dev/sdb", "--yes"]⟩
  accepted := rfl

/-- Both command lines name the device and are accepted, but they have no key in common, and the two
calls are with the client together. -/
theorem allocation_not_kept_apart :
    allocationLine.command = .lvcreate ∧ deviceRemovalLine.command = .pvremove ∧
      allocationLine.request.Names spareDevice ∧ deviceRemovalLine.request.Names spareDevice ∧
      ¬ allocationLine.Shares deviceRemovalLine ∧
      (Traffic.run {} (Traffic.entrance 0 ⟨.run .lvcreate, {}, allocation⟩ ++
        Traffic.entrance 1 ⟨.run .pvremove, {}, deviceRemoval⟩)).flights =
          [⟨⟨.run .lvcreate, {}, allocation⟩, .inside (some 0)⟩,
           ⟨⟨.run .pvremove, {}, deviceRemoval⟩, .inside (some 1)⟩] := by
  refine ⟨rfl, rfl, List.mem_singleton.mpr rfl, List.mem_singleton.mpr rfl, ?_, rfl⟩
  rintro ⟨ks, ls, key, hks, hls, hkey, hkey'⟩
  have hgroup : allocationLine.keys? = some ["vg0"] := rfl
  have hdevice : deviceRemovalLine.keys? = some ["/dev/sdb"] := rfl
  obtain rfl := Option.some.inj (hgroup.symm.trans hks)
  obtain rfl := Option.some.inj (hdevice.symm.trans hls)
  rw [List.mem_singleton.mp hkey] at hkey'
  exact absurd hkey' (by decide)

end LvmControl
