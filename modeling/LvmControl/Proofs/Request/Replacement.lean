import LvmControl.Proofs.Request.Flags

/-!
# Tokens in the place of earlier ones

Most of what is written onto a command line takes the place of what is there under the same key: a
flag that is given again, a list of tags, a name that is there already. This module says what such
changes come to when there are many of them. A token goes if any of them has its key, and of the
changes with one key only the last is left, where it was carried out.

## Main definitions

* `HasKey`: the key of a token, read off its form.
* `lastOfEach`: the last element of each key in a list.
* `Edit.IsReplacement`: a change that writes tokens in the place of those with their key.

## Main statements

* `Arguments.tokens_applyAll`: what changes that replace come to.
* `Arguments.applyAll_applyAll`: carrying them out twice is no different from carrying them out
  once.
* `Arguments.puts_keep_last`: of tokens that are put one after another the last of each key is left.
-/

namespace LvmControl

/-! ## Keys -/

/-- The key of a token, by its form. A token that starts with a dash has the part before its first
equals sign for a key, and any other token the whole of it. -/
inductive HasKey : String → String → Prop
  /-- A token without a dash in front. -/
  | plain {t : String} (h : ¬ IsFlag t) : HasKey t t
  /-- A flag without a value. -/
  | bare {name : String} (h : IsFlagName name) : HasKey name name
  /-- A flag with a value, which may hold further equals signs. -/
  | valued {name : String} (h : IsFlagName name) (value : String) :
    HasKey (name ++ "=" ++ value) name

/-- A flag is the name of one, or such a name with a value behind it. -/
theorem isFlag_cases {t : String} (h : IsFlag t) :
    IsFlagName t ∨ ∃ name value, IsFlagName name ∧ t = name ++ "=" ++ value := by
  by_cases hequals : '=' ∈ t.toList
  · obtain ⟨front, rest, hsplit, hfront⟩ := List.eq_append_cons_of_mem hequals
    have hhead : t.toList.head? = some '-' := h
    have hflag : IsFlag (String.ofList front) := by
      rw [IsFlag, String.toList_ofList]
      cases front with
      | nil =>
        rw [hsplit] at hhead
        cases hhead
      | cons c front => rwa [hsplit] at hhead
    refine .inr ⟨String.ofList front, String.ofList rest, ⟨hflag, by simpa using hfront⟩, ?_⟩
    refine String.toList_injective ?_
    simp [hsplit]
  · exact .inl ⟨h, hequals⟩

/-- The key of a token is the one that its form gives. -/
theorem flagKey_eq_iff {t key : String} : flagKey t = key ↔ HasKey t key := by
  constructor
  · rintro rfl
    by_cases h : IsFlag t
    · rcases isFlag_cases h with hname | ⟨name, value, hname, rfl⟩
      · rw [hname.flagKey]
        exact .bare hname
      · rw [flagKey_flag hname]
        exact .valued hname value
    · rw [flagKey_of_not_isFlag h]
      exact .plain h
  · rintro (h | h | ⟨h, value⟩)
    · exact flagKey_of_not_isFlag h
    · exact h.flagKey
    · exact flagKey_flag h value

/-! ## The last of each key -/

section LastOfEach

variable {α β κ : Type} [DecidableEq κ] {key : α → κ}

/-- The last element of each key, in the order of the list: an element is left out if another one
with its key comes after it. -/
def lastOfEach (key : α → κ) : List α → List α
  | [] => []
  | a :: l => if key a ∈ l.map key then lastOfEach key l else a :: lastOfEach key l

theorem lastOfEach_sublist (l : List α) : (lastOfEach key l).Sublist l := by
  induction l with
  | nil => exact .slnil
  | cons a l ih =>
    rw [lastOfEach]
    split
    · exact ih.cons a
    · exact ih.cons_cons a

/-- The last elements of a list of values are the values of the last elements. -/
theorem lastOfEach_map (f : β → α) (l : List β) :
    lastOfEach key (l.map f) = (lastOfEach (key ∘ f) l).map f := by
  induction l with
  | nil => rfl
  | cons b l ih =>
    rw [List.map_cons, lastOfEach, lastOfEach, List.map_map, ih, Function.comp_apply]
    split <;> rfl

end LastOfEach

/-! ## Changes that replace -/

namespace Edit

/-- What a change replaces, or the key of the token that it appends. -/
def key : Edit → String
  | .append token => flagKey token
  | .replace key _ => key

/-- The change writes tokens with one key in the place of those with this key. -/
def IsReplacement : Edit → Prop
  | .append _ => False
  | .replace key tokens => ∀ t ∈ tokens, flagKey t = key

theorem isReplacement_put (t : String) : (Edit.put t).IsReplacement := fun _ ht =>
  List.mem_singleton.mp ht ▸ rfl

variable {e : Edit} {t : String}

/-- What such a change writes has its key. -/
theorem IsReplacement.flagKey_eq (h : e.IsReplacement) (ht : t ∈ e.tokens) : flagKey t = e.key := by
  cases e with
  | append token => exact h.elim
  | replace key tokens => exact h t ht

/-- What is left of the tokens that one change puts once tokens with certain keys are taken out: all
of them, or none. -/
theorem IsReplacement.filter_tokens (h : e.IsReplacement) (keys : List String) :
    e.tokens.filter (fun t => flagKey t ∉ keys) = if e.key ∈ keys then [] else e.tokens := by
  split
  · next hmem =>
    refine List.filter_eq_nil_iff.mpr fun t ht => ?_
    simp [h.flagKey_eq ht, hmem]
  · next hnot =>
    refine List.filter_eq_self.mpr fun t ht => ?_
    simp [h.flagKey_eq ht, hnot]

end Edit

namespace Arguments

variable {es : List Edit}

/-- The tokens after one change that replaces. -/
theorem tokens_apply {e : Edit} (h : e.IsReplacement) (args : Arguments) :
    (args.apply e).tokens = args.tokens.filter (flagKey · ≠ e.key) ++ e.tokens := by
  cases e with
  | append token => exact h.elim
  | replace key tokens => rfl

/-- **What changes that replace come to**, one after another: the tokens with none of their keys,
and behind them what the last change of each key puts. -/
theorem tokens_applyAll (h : ∀ e ∈ es, e.IsReplacement) (args : Arguments) :
    (args.applyAll es).tokens =
      args.tokens.filter (fun t => flagKey t ∉ es.map Edit.key) ++
        (lastOfEach Edit.key es).flatMap Edit.tokens := by
  induction es generalizing args with
  | nil => exact ((List.append_nil _).trans (List.filter_eq_self.mpr fun _ _ => rfl)).symm
  | cons e es ih =>
    obtain ⟨he, hes⟩ := List.forall_mem_cons.mp h
    have hothers : (args.tokens.filter (flagKey · ≠ e.key)).filter
          (fun t => flagKey t ∉ es.map Edit.key) =
        args.tokens.filter fun t => flagKey t ∉ (e :: es).map Edit.key := by
      rw [List.filter_filter]
      refine List.filter_congr fun t _ => ?_
      simp [Bool.and_comm]
    rw [applyAll_cons, ih hes, tokens_apply he, List.filter_append, hothers, he.filter_tokens,
      List.append_assoc, lastOfEach]
    split <;> simp

/-- **Carrying out such changes twice** is no different from carrying them out once. -/
theorem applyAll_applyAll (h : ∀ e ∈ es, e.IsReplacement) (args : Arguments) :
    (args.applyAll es).applyAll es = args.applyAll es := by
  -- All that the changes have written has one of their keys, so they take it out before they write
  -- it again.
  have hwritten : ((lastOfEach Edit.key es).flatMap Edit.tokens).filter
      (fun t => flagKey t ∉ es.map Edit.key) = [] := by
    refine List.filter_eq_nil_iff.mpr fun t ht => ?_
    obtain ⟨e, he, ht⟩ := List.mem_flatMap.mp ht
    have hmem : e ∈ es := (lastOfEach_sublist es).subset he
    simpa [(h e hmem).flagKey_eq ht] using ⟨e, hmem, rfl⟩
  have htokens : ((args.applyAll es).applyAll es).tokens = (args.applyAll es).tokens := by
    simp only [tokens_applyAll h, List.filter_append, List.filter_filter, Bool.and_self, hwritten,
      List.append_nil]
  exact congrArg Arguments.mk htokens

/-- Putting tokens is carrying out the changes that put them. -/
theorem applyAll_map_put (args : Arguments) (ts : List String) :
    args.applyAll (ts.map .put) = ts.foldl put args := by
  rw [applyAll, List.foldl_map]
  rfl

/-- **Replacement keeps the last token of each key.** Of tokens that are put one after another the
last one of each key is left, in their order, behind the tokens that were there before and have none
of their keys. -/
theorem puts_keep_last (args : Arguments) (ts : List String) :
    (∀ t key, flagKey t = key ↔ HasKey t key) ∧
      (ts.foldl put args).tokens =
        args.tokens.filter (fun t => flagKey t ∉ ts.map flagKey) ++ lastOfEach flagKey ts := by
  refine ⟨fun t key => flagKey_eq_iff, ?_⟩
  have hputs : ∀ e ∈ ts.map Edit.put, e.IsReplacement := by
    intro e he
    obtain ⟨t, -, rfl⟩ := List.mem_map.mp he
    exact Edit.isReplacement_put t
  have hkey : Edit.key ∘ Edit.put = flagKey := rfl
  have hsame : ∀ l : List String, (l.map Edit.put).flatMap Edit.tokens = l := by
    intro l
    rw [List.flatMap_map]
    exact List.flatMap_singleton' l
  rw [← applyAll_map_put, tokens_applyAll hputs, List.map_map, lastOfEach_map, hkey, hsame]

/-- A size that is given again, and a device that is named like a token that is there. -/
example : (["--size=1g", "/dev/sdi", "--size=2g"].foldl put
    ⟨["--force", "--size=8m", "/dev/sdi"]⟩).tokens = ["--force", "/dev/sdi", "--size=2g"] := by
  decide

end Arguments

end LvmControl
