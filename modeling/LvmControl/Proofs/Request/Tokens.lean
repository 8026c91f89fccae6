import LvmControl.Request.Layout

/-!
# What stands on a command line

A request is written by changes to an argument list, one after another, and a later change may take
out what an earlier one has written. A token that is no flag is only taken out to be put back, and
the tokens with one key are those of the changes that write this key.

## Main definitions

* `IsFlag`, `IsFlagName`: tokens that start with a dash, and names of flags.
* `flagValue`: what follows the first equals sign of a token.
* `Edit.tokens`: what a change puts into an argument list.
* `Edit.Keeps`, `Edit.Ignores`: a change leaves a token, or all that is written under a key.
* `Arguments.value?`: the value of a flag.

## Main statements

* `Arguments.mem_applyAll_of_keeps`: a token stays if every change keeps it.
* `Arguments.mem_applyAll_cases`: whatever is there was there before or was put by a change.
* `Arguments.tokensOf_applyAll`: changes that ignore a key change nothing under it.
* `Piece.keeps`: no part of a command line takes out a token that is no flag.
-/

namespace LvmControl

variable {t key : String}

/-- The token starts with a dash. -/
def IsFlag (token : String) : Prop := token.toList.head? = some '-'

instance (token : String) : Decidable (IsFlag token) :=
  inferInstanceAs (Decidable (token.toList.head? = some '-'))

/-- The token is the name of a flag, without a value. -/
def IsFlagName (token : String) : Prop := IsFlag token ∧ '=' ∉ token.toList

instance (token : String) : Decidable (IsFlagName token) :=
  inferInstanceAs (Decidable (IsFlag token ∧ '=' ∉ token.toList))

/-- What starts with a flag is a flag. -/
theorem IsFlag.append (h : IsFlag t) (s : String) : IsFlag (t ++ s) := by
  unfold IsFlag at h ⊢
  rw [String.toList_append, List.head?_append, h]
  rfl

theorem flagKey_of_not_isFlag (h : ¬ IsFlag t) : flagKey t = t := by
  unfold IsFlag at h
  simp [flagKey, h]

/-- The key of a flag is a flag. -/
theorem IsFlag.flagKey (h : IsFlag t) : IsFlag (flagKey t) := by
  unfold IsFlag at h
  obtain ⟨rest, hrest⟩ := List.head?_eq_some_iff.mp h
  simp [LvmControl.flagKey, IsFlag, hrest]

/-- No character of the name of a flag is an equals sign. -/
theorem IsFlagName.forall_ne (h : IsFlagName t) : ∀ c ∈ t.toList, decide (c ≠ '=') = true := by
  intro c hc
  have hne : c ≠ '=' := by
    rintro rfl
    exact h.2 hc
  simpa using hne

/-- The key of a flag with a value is its name. -/
theorem flagKey_flag (h : IsFlagName t) (value : String) : flagKey (t ++ "=" ++ value) = t := by
  have hhead : (t ++ "=" ++ value).toList.head? = some '-' := (h.1.append _).append _
  have htake : (t ++ "=" ++ value).toList.takeWhile (· ≠ '=') = t.toList := by
    rw [String.toList_append, String.toList_append, List.append_assoc,
      List.takeWhile_append_of_pos h.forall_ne]
    simp
  rw [flagKey, if_pos hhead, htake, String.ofList_toList]

/-- What follows the first equals sign of a token. -/
def flagValue (token : String) : String :=
  String.ofList ((token.toList.dropWhile (· ≠ '=')).drop 1)

/-- What is written behind the name of a flag is its value. -/
theorem flagValue_flag (h : IsFlagName t) (value : String) :
    flagValue (t ++ "=" ++ value) = value := by
  have hdrop : (t ++ "=" ++ value).toList.dropWhile (· ≠ '=') = '=' :: value.toList := by
    rw [String.toList_append, String.toList_append, List.append_assoc,
      List.dropWhile_append_of_pos h.forall_ne]
    simp
  rw [flagValue, hdrop]
  simp

namespace Edit

/-- What a change puts into an argument list. -/
def tokens : Edit → List String
  | .append token => [token]
  | .replace _ tokens => tokens

/-- The change leaves the token where it is or puts it back. -/
def Keeps (token : String) : Edit → Prop
  | .append _ => True
  | .replace key tokens => flagKey token = key → token ∈ tokens

/-- The change neither removes nor puts a token with the key. -/
def Ignores (key : String) : Edit → Prop
  | .append token => flagKey token ≠ key
  | .replace k tokens => k ≠ key ∧ ∀ token ∈ tokens, flagKey token ≠ key

/-- Writing one token takes out no other token that is no flag. -/
theorem keeps_put (h : ¬ IsFlag t) (token : String) : (Edit.put token).Keeps t := by
  intro hkey
  rw [flagKey_of_not_isFlag h] at hkey
  by_cases hflag : IsFlag token
  · exact absurd (hkey ▸ hflag.flagKey) h
  · exact List.mem_singleton.mpr (hkey.trans (flagKey_of_not_isFlag hflag))

theorem ignores_put (h : flagKey t ≠ key) : (Edit.put t).Ignores key :=
  ⟨h, fun _ ht => List.mem_singleton.mp ht ▸ h⟩

/-- Writing a flag with a value writes nothing under another key. -/
theorem ignores_flag (h : IsFlagName t) (hne : t ≠ key) (value : String) :
    (Edit.flag t value).Ignores key :=
  ignores_put (by rwa [flagKey_flag h])

end Edit

namespace Arguments

variable {args : Arguments} {es : List Edit}

/-- The tokens with a key, in order. -/
def tokensOf (args : Arguments) (key : String) : List String :=
  args.tokens.filter fun t => flagKey t = key

/-- The value of the first flag of the name. -/
def value? (args : Arguments) (flag : String) : Option String :=
  (args.tokensOf flag).head?.map fun t =>
    String.ofList ((t.toList.dropWhile (· ≠ '=')).drop 1)

/-- A change that keeps a token leaves it there. -/
theorem mem_apply_of_keeps {e : Edit} (ht : t ∈ args.tokens) (h : e.Keeps t) :
    t ∈ (args.apply e).tokens := by
  cases e with
  | append token => exact List.mem_append_left _ ht
  | replace key tokens =>
    by_cases hkey : flagKey t = key
    · exact List.mem_append_right _ (h hkey)
    · exact List.mem_append_left _ (List.mem_filter.mpr ⟨ht, by simpa using hkey⟩)

/-- What a change puts is there. -/
theorem mem_apply_of_mem_tokens {e : Edit} (ht : t ∈ e.tokens) : t ∈ (args.apply e).tokens := by
  cases e <;> exact List.mem_append_right _ ht

/-- A token stays if every change keeps it. -/
theorem mem_applyAll_of_mem (ht : t ∈ args.tokens) (h : ∀ e ∈ es, e.Keeps t) :
    t ∈ (args.applyAll es).tokens := by
  induction es generalizing args with
  | nil => exact ht
  | cons e es ih =>
    have htail : ∀ e ∈ es, e.Keeps t := fun e he => h e (List.mem_cons_of_mem _ he)
    exact ih (mem_apply_of_keeps ht (h e List.mem_cons_self)) htail

/-- A token that one of the changes puts is there in the end if every change keeps it. -/
theorem mem_applyAll_of_keeps {e : Edit} (he : e ∈ es) (ht : t ∈ e.tokens)
    (h : ∀ e ∈ es, e.Keeps t) : t ∈ (args.applyAll es).tokens := by
  obtain ⟨before, after, rfl⟩ := List.append_of_mem he
  rw [applyAll_append, applyAll_cons]
  refine mem_applyAll_of_mem (mem_apply_of_mem_tokens ht) fun e he => h e ?_
  exact List.mem_append_right _ (List.mem_cons_of_mem _ he)

/-- Whatever is there was there before or was put by a change. -/
theorem mem_applyAll_cases (h : t ∈ (args.applyAll es).tokens) :
    t ∈ args.tokens ∨ ∃ e ∈ es, t ∈ e.tokens := by
  induction es generalizing args with
  | nil => exact .inl h
  | cons e es ih =>
    rcases ih h with ht | ⟨e', he', ht⟩
    · cases e with
      | append token =>
        refine (List.mem_append.mp ht).imp_right fun ht => ?_
        exact ⟨.append token, List.mem_cons_self, ht⟩
      | replace key tokens =>
        refine (List.mem_append.mp ht).imp (fun ht => (List.mem_filter.mp ht).1) fun ht => ?_
        exact ⟨.replace key tokens, List.mem_cons_self, ht⟩
    · exact .inr ⟨e', List.mem_cons_of_mem _ he', ht⟩

/-- Changes that ignore a key change nothing under it. -/
theorem tokensOf_applyAll (h : ∀ e ∈ es, e.Ignores key) :
    (args.applyAll es).tokensOf key = args.tokensOf key := by
  induction es generalizing args with
  | nil => rfl
  | cons e es ih =>
    have hhead := h e List.mem_cons_self
    refine (ih fun e he => h e (List.mem_cons_of_mem _ he)).trans ?_
    cases e with
    | append token =>
      have hne : flagKey token ≠ key := hhead
      simp [tokensOf, apply, add, hne]
    | replace k tokens =>
      obtain ⟨hk, htokens⟩ := hhead
      have hnone : tokens.filter (fun t => flagKey t = key) = [] := by
        simpa [List.filter_eq_nil_iff] using htokens
      have hsame : (args.tokens.filter fun t => flagKey t ≠ k).filter (fun t => flagKey t = key) =
          args.tokens.filter fun t => flagKey t = key := by
        rw [List.filter_filter]
        refine List.filter_congr fun t _ => ?_
        by_cases ht : flagKey t = key
        · simp [ht, hk.symm]
        · simp [ht]
      show ((args.tokens.filter fun t => flagKey t ≠ k) ++ tokens).filter
        (fun t => flagKey t = key) = _
      rw [List.filter_append, hsame, hnone, List.append_nil]
      rfl

/-- A token that is put is the only one with its key. -/
theorem tokensOf_put (h : flagKey t = key) : (args.put t).tokensOf key = [t] := by
  subst h
  simp [tokensOf, put, add, remove, List.filter_filter]

/-- The value of the only flag of a name. -/
theorem value?_of_tokensOf {flag value : String} (hname : IsFlagName flag)
    (h : args.tokensOf flag = [flag ++ "=" ++ value]) : args.value? flag = some value := by
  have hvalue : args.value? flag = (args.tokensOf flag).head?.map flagValue := rfl
  rw [hvalue, h, List.head?_cons, Option.map_some, flagValue_flag hname]

end Arguments

/-! ## The parts of a command line -/

theorem Edit.mem_switch {on : Bool} {flag : String} {e : Edit} :
    e ∈ Edit.switch on flag ↔ on = true ∧ e = .put flag := by
  cases on <;> simp [Edit.switch]

theorem Edit.mem_given {α : Type} {v : Option α} {edit : α → Edit} {e : Edit} :
    e ∈ Edit.given v edit ↔ ∃ x, v = some x ∧ edit x = e := by
  simp [Edit.given]

namespace Request

variable {r : Request} {f : Field} {e : Edit}

/-- A field is written by putting tokens or by replacing the flags of a name. -/
theorem fieldEdits_cases (he : e ∈ r.fieldEdits f) :
    (∃ token, e = .put token) ∨ ∃ key tokens, e = .replace key tokens ∧ IsFlag key := by
  cases f with
  | tags | delTags =>
    obtain rfl := List.mem_singleton.mp he
    exact .inr ⟨_, _, rfl, by decide⟩
  | newVolumeGroup | newLogicalVolume => exact absurd he List.not_mem_nil
  | force | removeMissing | resizeFs | verbose | requestConfirm =>
    obtain ⟨-, rfl⟩ := Edit.mem_switch.mp he
    exact .inl ⟨_, rfl⟩
  | _ =>
    obtain ⟨value, -, rfl⟩ := List.mem_map.mp he
    exact .inl ⟨_, rfl⟩

/-- Only the name of a group and those of devices are written as tokens that are no flags. -/
theorem mem_names_of_mem_tokens (he : e ∈ r.fieldEdits f) (ht : t ∈ e.tokens) (h : ¬ IsFlag t) :
    t ∈ r.names f ∧ (f = .volumeGroup ∨ f = .physicalVolumes) := by
  have hflag : ∀ flag value, IsFlag flag → t ∈ (Edit.flag flag value).tokens → False := by
    intro flag value hflag hmem
    rw [List.mem_singleton.mp hmem] at h
    exact h ((hflag.append _).append _)
  cases f with
  | volumeGroup =>
    obtain ⟨name, hname, rfl⟩ := Edit.mem_given.mp he
    rw [List.mem_singleton.mp ht]
    exact ⟨by simp [names, hname], .inl rfl⟩
  | physicalVolumes =>
    obtain ⟨name, hname, rfl⟩ := List.mem_map.mp he
    rw [List.mem_singleton.mp ht]
    exact ⟨List.mem_map_of_mem hname, .inr rfl⟩
  | newVolumeGroup | newLogicalVolume => exact absurd he List.not_mem_nil
  | tags | delTags =>
    obtain rfl := List.mem_singleton.mp he
    obtain ⟨tag, -, rfl⟩ := List.mem_map.mp ht
    exact absurd (IsFlag.append (by decide) tag) h
  | force | removeMissing | resizeFs | verbose | requestConfirm =>
    obtain ⟨-, rfl⟩ := Edit.mem_switch.mp he
    rw [List.mem_singleton.mp ht] at h
    exact absurd (by decide) h
  | _ =>
    obtain ⟨value, -, rfl⟩ := List.mem_map.mp he
    exact (hflag _ _ (by decide) ht).elim

end Request

/-- No part of a command line takes out a token that is no flag, except to put it back. -/
theorem Piece.keeps (h : ¬ IsFlag t) (r : Request) (p : Piece) : ∀ e ∈ p.edits r, e.Keeps t := by
  intro e he
  cases p with
  | field f =>
    rcases Request.fieldEdits_cases he with ⟨token, rfl⟩ | ⟨key, tokens, rfl, hkey⟩
    · exact Edit.keeps_put h token
    · intro heq
      rw [flagKey_of_not_isFlag h] at heq
      exact absurd (heq ▸ hkey) h
  | flag token =>
    obtain rfl := List.mem_singleton.mp he
    exact Edit.keeps_put h token
  | target =>
    obtain ⟨token, -, rfl⟩ := Edit.mem_given.mp he
    exact Edit.keeps_put h token
  | positional f =>
    obtain ⟨token, -, rfl⟩ := List.mem_map.mp he
    trivial

end LvmControl
