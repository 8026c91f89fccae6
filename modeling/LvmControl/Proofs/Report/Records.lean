import LvmControl.Report.Row
import Mathlib.Data.List.Forall2
import Mathlib.Data.List.Nodup

/-!
# Records

A record is an object or an array. Both give values to the parts of a shape: an object under their
names, in any order and among others, and an array in their places. Reading is described by these
values alone, so that what is proved of a report holds of both forms.

## Main definitions

* `valuesOf`: the values that a record gives to a part.
* `IsRecord`: the values that are records at all.
* `Part.Reads`: what comes of a part, from the values given to it.

## Main statements

* `readShape_eq_ok_iff`: a record is read exactly if every part is, and then part by part.
* `readArray_eq_ok_iff`: an array is read exactly if every item is, and then item by item.
-/

namespace LvmControl.Report

variable {ε α β : Type}

/-! ## Reading one thing after another -/

theorem bind_eq_ok_iff {x : Except ε α} {f : α → Except ε β} {b : β} :
    x.bind f = .ok b ↔ ∃ a, x = .ok a ∧ f a = .ok b := by
  cases x <;> simp [Except.bind]

theorem bindM_eq_ok_iff {x : Except ε α} {f : α → Except ε β} {b : β} :
    (x >>= f) = .ok b ↔ ∃ a, x = .ok a ∧ f a = .ok b := bind_eq_ok_iff

theorem pure_eq_ok_iff {a b : α} : (pure a : Except ε α) = .ok b ↔ a = b :=
  ⟨Except.ok.inj, congrArg Except.ok⟩

theorem map_eq_ok_iff {x : Except ε α} {f : α → β} {b : β} :
    x.map f = .ok b ↔ ∃ a, x = .ok a ∧ f a = b := by
  cases x <;> simp [Except.map]

theorem mapM_eq_ok_iff {f : α → Except ε β} {l : List α} {bs : List β} :
    l.mapM f = .ok bs ↔ List.Forall₂ (fun a b => f a = .ok b) l bs := by
  induction l generalizing bs with
  | nil =>
    simp only [List.mapM_nil, List.forall₂_nil_left_iff]
    exact ⟨fun h => (Except.ok.inj h).symm, fun h => congrArg Except.ok h.symm⟩
  | cons a l ih =>
    have hcons : (a :: l).mapM f = (f a).bind fun b => (l.mapM f).map (b :: ·) := by
      rw [List.mapM_cons]
      cases f a <;> rfl
    simp only [hcons, bind_eq_ok_iff, map_eq_ok_iff, ih, List.forall₂_cons_left_iff]
    exact ⟨fun ⟨b, hb, bs', hbs, heq⟩ => ⟨b, bs', hb, hbs, heq.symm⟩,
      fun ⟨b, bs', hb, hbs, heq⟩ => ⟨b, hb, bs', hbs, heq.symm⟩⟩

theorem exists_of_mem_forall₂ {R : α → β → Prop} {l : List α} {bs : List β} {a : α}
    (h : List.Forall₂ R l bs) (ha : a ∈ l) : ∃ b ∈ bs, R a b := by
  induction h with
  | nil => cases ha
  | cons hab _ ih =>
    rcases List.mem_cons.mp ha with rfl | ha
    · exact ⟨_, List.mem_cons_self, hab⟩
    · obtain ⟨b, hb, hr⟩ := ih ha
      exact ⟨b, List.mem_cons_of_mem _ hb, hr⟩

theorem forall₂_imp_of_mem {R S : α → β → Prop} {l : List α} {bs : List β}
    (h : List.Forall₂ R l bs) (himp : ∀ a, ∀ b ∈ bs, R a b → S a b) : List.Forall₂ S l bs := by
  obtain ⟨hlength, hzip⟩ := List.forall₂_iff_zip.mp h
  exact List.forall₂_iff_zip.mpr
    ⟨hlength, fun {a b} hmem => himp a b (List.of_mem_zip hmem).2 (hzip hmem)⟩

/-- **Arrays.** An array is read exactly if each of its items is, and then item by item. -/
theorem readArray_eq_ok_iff {read : Json → Except ReportError α} {j : Json} {as : List α} :
    readArray read j = .ok as ↔
      ∃ items, j = .array items ∧ List.Forall₂ (fun i a => read i = .ok a) items as := by
  cases j <;> simp [readArray, mapM_eq_ok_iff]

/-! ## The values given to a part -/

/-- The values that members give to a name. -/
def valuesIn (name : String) (members : List (Option String × Json)) : List Json :=
  members.filterMap fun m => if m.1 = some name then some m.2 else none

/-- The values that a record gives to a name: an object, those of all members under that name; an
array, the item in the place of that name. -/
def valuesOf (names : List String) (name : String) : Json → List Json
  | .object members => valuesIn name members
  | .array items => items[names.idxOf name]?.toList
  | _ => []

/-- A value is a record if it is an object of which every key is a text, or an array that has no
more items than there are parts. -/
def IsRecord (names : List String) : Json → Prop
  | .object members => ∀ m ∈ members, m.1 ≠ none
  | .array items => items.length ≤ names.length
  | _ => False

@[simp] theorem valuesIn_nil (name : String) : valuesIn name [] = [] := rfl

theorem valuesIn_cons_self (name : String) (v : Json) (members : List (Option String × Json)) :
    valuesIn name ((some name, v) :: members) = v :: valuesIn name members := by
  simp [valuesIn]

theorem valuesIn_cons_of_ne {name : String} {m : Option String × Json} (h : m.1 ≠ some name)
    (members : List (Option String × Json)) :
    valuesIn name (m :: members) = valuesIn name members := by
  simp [valuesIn, h]

namespace Part

variable {p : Part α} {before after : Option α} {v : Json} {vs : List Json} {a : α}

/-- What comes of a part of which `before` has been found already, from the values that are yet to
come. A part is found at most once, and an absent one is not required. -/
inductive Reads (p : Part α) : Option α → List Json → Option α → Prop
  | kept {a : α} : Reads p (some a) [] (some a)
  | absent (h : p.required = false) : Reads p none [] none
  | present {v : Json} {a : α} (h : p.read v = .ok a) : Reads p none [v] (some a)

theorem reads_nil_iff :
    p.Reads before [] after ↔ after = before ∧ (p.required && before.isNone) = false := by
  constructor
  · rintro (_ | hrequired)
    · simp
    · simp [hrequired]
  · rintro ⟨rfl, hrequired⟩
    cases after with
    | none => exact .absent (by simpa using hrequired)
    | some a => exact .kept

/-- A value is read where nothing has been found yet, and no value may follow it. -/
theorem reads_cons_iff :
    p.Reads before (v :: vs) after ↔
      before = none ∧ ∃ a, p.read v = .ok a ∧ p.Reads (some a) vs after := by
  constructor
  · rintro (_ | _ | hread)
    exact ⟨rfl, _, hread, .kept⟩
  · rintro ⟨rfl, a, hread, _ | _⟩
    exact .present hread

end Part

/-! ## Objects -/

theorem missing?_eq_none_iff {shape : Shape α} {found : List (String × α)} :
    missing? shape found = none ↔
      ∀ p ∈ shape, (p.required && (found.lookup p.name).isNone) = false := by
  simp [missing?]

theorem lookup_snoc_self {found : List (String × α)} {key : String} (h : found.lookup key = none)
    (a : α) : (found ++ [(key, a)]).lookup key = some a := by
  simp [List.lookup_append, h]

theorem lookup_snoc_of_ne {found : List (String × α)} {key name : String} (h : name ≠ key) (a : α) :
    (found ++ [(key, a)]).lookup name = found.lookup name := by
  simp [List.lookup_append, List.lookup_cons, beq_false_of_ne h]

/-- **One member.** To add what a member gives to what has been found before it is the same, for
every part of the shape, as to have that member among those that are yet to come. -/
theorem reads_found_iff {shape : Shape α} (hnames : (shape.map Part.name).Nodup)
    {found : List (String × α)} {part p : Part α} {v : Json} {a : α} {after : Option α}
    (hpart : part ∈ shape) (hfirst : found.lookup part.name = none) (hread : part.read v = .ok a)
    (members : List (Option String × Json)) (hp : p ∈ shape) :
    p.Reads ((found ++ [(part.name, a)]).lookup p.name) (valuesIn p.name members) after ↔
      p.Reads (found.lookup p.name) (valuesIn p.name ((some part.name, v) :: members)) after := by
  by_cases hname : p.name = part.name
  · obtain rfl := List.inj_on_of_nodup_map hnames hp hpart hname
    simp [lookup_snoc_self hfirst, valuesIn_cons_self, Part.reads_cons_iff, hfirst, hread]
  · rw [lookup_snoc_of_ne hname, valuesIn_cons_of_ne (by simpa using Ne.symm hname)]

/-- The members of an object are read, after those of which `found` has come, exactly if every part
is, from what has been found of it and the values yet to come. -/
theorem readMembers_eq_ok_iff {shape : Shape α} (hnames : (shape.map Part.name).Nodup)
    {found : List (String × α)} {members : List (Option String × Json)}
    {after : String → Option α} :
    (∃ result, readMembers shape found members = .ok result ∧
        ∀ p ∈ shape, result.lookup p.name = after p.name) ↔
      (∀ m ∈ members, m.1 ≠ none) ∧
        ∀ p ∈ shape, p.Reads (found.lookup p.name) (valuesIn p.name members) (after p.name) := by
  -- Along the members, with what has been found before them.
  induction members generalizing found with
  | nil =>
    simp only [valuesIn_nil, Part.reads_nil_iff, List.not_mem_nil, false_imp_iff, implies_true,
      true_and, readMembers]
    cases hmissing : missing? shape found with
    | none =>
      have hnone := missing?_eq_none_iff.mp hmissing
      exact ⟨fun ⟨_, hresult, hafter⟩ p hp =>
          ⟨(hafter p hp).symm.trans (by rw [Except.ok.inj hresult]), hnone p hp⟩,
        fun h => ⟨found, rfl, fun p hp => (h p hp).1.symm⟩⟩
    | some part =>
      refine ⟨fun ⟨_, hresult, _⟩ => (nomatch hresult), fun h => ?_⟩
      rw [missing?_eq_none_iff.mpr fun p hp => (h p hp).2] at hmissing
      cases hmissing
  | cons m members ih =>
    obtain ⟨_ | key, v⟩ := m
    · simp [readMembers]
    have htexts : (∀ m ∈ (some key, v) :: members, m.1 ≠ none) ↔ ∀ m ∈ members, m.1 ≠ none := by
      simp
    rw [htexts]
    cases hfind : shape.find? fun p => p.name = key with
    | none =>
      -- A member of no interest: it gives no part a value.
      have hne : ∀ p ∈ shape, key ≠ p.name := fun p hp h => by
        simpa [h] using List.find?_eq_none.mp hfind p hp
      simp only [readMembers, hfind, ih]
      exact and_congr_right fun _ => forall₂_congr fun p hp => by
        rw [valuesIn_cons_of_ne (by simpa using hne p hp)]
    | some part =>
      have hpart : part ∈ shape := List.mem_of_find?_eq_some hfind
      obtain rfl : part.name = key := by simpa using List.find?_some hfind
      -- The member has to be the first of its part, and its value has to be read.
      have hneeds : (∀ p ∈ shape, p.Reads (found.lookup p.name)
          (valuesIn p.name ((some part.name, v) :: members)) (after p.name)) →
          found.lookup part.name = none ∧ ∃ a, part.read v = .ok a := by
        intro h
        have hreads := h part hpart
        rw [valuesIn_cons_self, Part.reads_cons_iff] at hreads
        obtain ⟨hfirst, a, ha, -⟩ := hreads
        exact ⟨hfirst, a, ha⟩
      simp only [readMembers, hfind]
      cases hfirst : found.lookup part.name with
      | some b =>
        refine ⟨fun ⟨_, hresult, _⟩ => (nomatch hresult), fun h => ?_⟩
        exact absurd (hfirst.symm.trans (hneeds h.2).1) nofun
      | none =>
        cases hread : part.read v with
        | error e =>
          refine ⟨fun ⟨_, hresult, _⟩ => (nomatch hresult), fun h => ?_⟩
          obtain ⟨a, ha⟩ := (hneeds h.2).2
          exact absurd (hread.symm.trans ha) nofun
        | ok a =>
          exact ih.trans (and_congr_right fun _ => forall₂_congr fun p hp =>
            reads_found_iff hnames hpart hfirst hread members hp)

/-! ## Arrays -/

/-- Only the names of parts are found in an array. -/
theorem lookup_of_readItems {shape : Shape α} {items : List Json} {result : List (String × α)}
    (h : readItems shape items = .ok result) {name : String} (hname : name ∉ shape.map Part.name) :
    result.lookup name = none := by
  induction shape generalizing items result with
  | nil =>
    cases items with
    | nil => rw [← Except.ok.inj h, List.lookup_nil]
    | cons => cases h
  | cons p shape ih =>
    obtain ⟨hne, hnotMem⟩ := not_or.mp (mt List.mem_cons.mpr hname)
    cases items with
    | nil =>
      simp only [readItems] at h
      split at h
      · cases h
      · exact ih h hnotMem
    | cons v items =>
      obtain ⟨a, -, h⟩ := bind_eq_ok_iff.mp h
      obtain ⟨rest, hrest, rfl⟩ := map_eq_ok_iff.mp h
      rw [List.lookup_cons, beq_false_of_ne hne]
      exact ih hrest hnotMem

theorem readItems_cons_nil {p : Part α} {shape : Shape α} (h : p.required = false) :
    readItems (p :: shape) [] = readItems shape [] := by
  simp [readItems, h]

theorem readItems_cons_cons {p : Part α} {shape : Shape α} {v : Json} {a : α}
    (h : p.read v = .ok a) (items : List Json) :
    readItems (p :: shape) (v :: items) = (readItems shape items).map ((p.name, a) :: ·) := by
  rw [readItems, h]
  rfl

theorem lookup_cons_iff {p : Part α} {shape : Shape α} (hne : ∀ q ∈ shape, q.name ≠ p.name)
    {a : α} {rest : List (String × α)} {after : String → Option α} :
    (∀ q ∈ p :: shape, ((p.name, a) :: rest).lookup q.name = after q.name) ↔
      after p.name = some a ∧ ∀ q ∈ shape, rest.lookup q.name = after q.name := by
  rw [List.forall_mem_cons, List.lookup_cons_self, eq_comm]
  refine and_congr_right fun _ => forall₂_congr fun q hq => ?_
  rw [List.lookup_cons, beq_false_of_ne (hne q hq)]

/-- The items of an array are read exactly if there is a part for each and every part is read, from
the item in its place. -/
theorem readItems_eq_ok_iff {shape : Shape α} (hnames : (shape.map Part.name).Nodup)
    {items : List Json} {after : String → Option α} :
    (∃ result, readItems shape items = .ok result ∧
        ∀ p ∈ shape, result.lookup p.name = after p.name) ↔
      items.length ≤ shape.length ∧
        ∀ p ∈ shape,
          p.Reads none items[(shape.map Part.name).idxOf p.name]?.toList (after p.name) := by
  -- Along the parts: the first is given the first item, and the others the items after it.
  induction shape generalizing items with
  | nil => cases items <;> simp [readItems]
  | cons p shape ih =>
    obtain ⟨hnotMem, hnames⟩ := List.nodup_cons.mp hnames
    have hne : ∀ q ∈ shape, q.name ≠ p.name := fun q hq h =>
      hnotMem (h ▸ List.mem_map_of_mem hq)
    have hplace : ∀ q ∈ shape, ((p :: shape).map Part.name).idxOf q.name =
        (shape.map Part.name).idxOf q.name + 1 := fun q hq =>
      List.idxOf_cons_ne _ (hne q hq).symm
    rw [List.forall_mem_cons (l := shape),
      show ((p :: shape).map Part.name).idxOf p.name = 0 from List.idxOf_cons_self]
    cases items with
    | nil =>
      have hrest := @ih hnames []
      simp only [List.getElem?_nil, Option.toList_none, List.length_nil, Nat.zero_le, true_and]
        at hrest ⊢
      cases hrequired : p.required with
      | true => simp [readItems, Part.reads_nil_iff, hrequired]
      | false =>
        rw [← hrest, Part.reads_nil_iff, readItems_cons_nil hrequired]
        simp only [List.forall_mem_cons, hrequired, Bool.false_and, and_true]
        constructor
        · rintro ⟨result, hresult, hp, hshape⟩
          rw [lookup_of_readItems hresult hnotMem] at hp
          exact ⟨hp.symm, result, hresult, hshape⟩
        · rintro ⟨hp, result, hresult, hshape⟩
          refine ⟨result, hresult, ?_, hshape⟩
          rw [lookup_of_readItems hresult hnotMem, hp]
    | cons v items =>
      have htail : ∀ q ∈ shape,
          (v :: items)[((p :: shape).map Part.name).idxOf q.name]? =
            items[(shape.map Part.name).idxOf q.name]? := by
        intro q hq
        rw [hplace q hq, List.getElem?_cons_succ]
      cases hread : p.read v with
      | error e => simp [readItems, hread, Except.bind, Part.reads_cons_iff]
      | ok a =>
        have hhead : p.Reads none [v] (after p.name) ↔ after p.name = some a := by
          simp [Part.reads_cons_iff, Part.reads_nil_iff, hread]
        rw [List.getElem?_cons_zero, Option.toList_some, hhead, forall₂_congr fun q hq => by
          rw [htail q hq], List.length_cons, List.length_cons, Nat.succ_le_succ_iff,
          and_left_comm, ← ih hnames, readItems_cons_cons hread]
        constructor
        · rintro ⟨result, hresult, hshape⟩
          obtain ⟨rest, hrest, rfl⟩ := map_eq_ok_iff.mp hresult
          obtain ⟨hp, hshape⟩ := (lookup_cons_iff hne).mp hshape
          exact ⟨hp, rest, hrest, hshape⟩
        · rintro ⟨hp, rest, hrest, hshape⟩
          exact ⟨_, map_eq_ok_iff.mpr ⟨rest, hrest, rfl⟩, (lookup_cons_iff hne).mpr ⟨hp, hshape⟩⟩

/-! ## Records -/

/-- **Records.** A record is read exactly if every part of the shape is, and then what is found of
each part is what comes of the values given to it. -/
theorem readShape_eq_ok_iff {shape : Shape α} (hnames : (shape.map Part.name).Nodup) (j : Json)
    (after : String → Option α) :
    (∃ found, readShape shape j = .ok found ∧ ∀ p ∈ shape, found.lookup p.name = after p.name) ↔
      IsRecord (shape.map Part.name) j ∧
        ∀ p ∈ shape,
          p.Reads none (valuesOf (shape.map Part.name) p.name j) (after p.name) := by
  cases j with
  | object members => exact readMembers_eq_ok_iff hnames
  | array items => simpa [readShape, IsRecord, valuesOf] using readItems_eq_ok_iff hnames
  | null | bool | number | string | broken => simp [readShape, IsRecord]

end LvmControl.Report
