import LvmControl.Client.Failure
import LvmControl.Proofs.Text.Lines

/-!
# Diagnostics among other output

A tool prints warnings before and after the diagnostic that a caller looks for, and what it has
printed can be known in part first and in full later. More output around a diagnostic never takes
away what a caller concluded from it, wherever the lines of the two join.

## Main definitions

* `Persists`: a question about a text that stays answered by yes when the text grows at its ends.
* `ClientError.KeepsClasses`: every class of one failure is a class of another.

## Main statements

* `mentionsOnLine_iff`: two parts of a wording on one line, without lines.
* `persists_mentions`, `persists_mentionsOnLine`: the questions that are asked of diagnostics
  persist.
* `ClientError.classes_survive`: a failure keeps its classes when its diagnostics grow.
-/

namespace LvmControl

variable {wordings : List String} {parts : String × String} {text : List Char}

/-! ## Questions about a text -/

/-- A question that is answered by yes for a text is answered by yes for every text that holds
it. -/
def Persists (question : List Char → Bool) : Prop :=
  ∀ ⦃text more : List Char⦄, text <:+: more → question text = true → question more = true

theorem Persists.or {p q : List Char → Bool} (hp : Persists p) (hq : Persists q) :
    Persists fun text => p text || q text := by
  intro text more hmore h
  rcases Bool.or_eq_true_iff.mp h with h | h
  · exact Bool.or_eq_true_iff.mpr (.inl (hp hmore h))
  · exact Bool.or_eq_true_iff.mpr (.inr (hq hmore h))

theorem mentions_iff : mentions wordings text = true ↔ ∃ w ∈ wordings, w.toList <:+: text := by
  simp only [mentions, List.any_eq_true, Text.occursIn_iff]

/-- Both parts of a wording are on a line exactly if a stretch of the text without a line feed holds
them. -/
theorem mentionsOnLine_iff (hne : parts.1 ≠ "") (hfirst : '\r' ∉ parts.1.toList)
    (hsecond : '\r' ∉ parts.2.toList) :
    mentionsOnLine parts text = true ↔
      ∃ stretch, stretch <:+: text ∧ '\n' ∉ stretch ∧ parts.1.toList <:+: stretch ∧
        parts.2.toList <:+: stretch := by
  rw [← Text.exists_line_iff (by simpa using hne) hfirst hsecond]
  simp only [mentionsOnLine, List.any_eq_true, Bool.and_eq_true, Text.occursIn_iff]

theorem persists_mentions (wordings : List String) : Persists (mentions wordings) := by
  intro text more hmore h
  obtain ⟨w, hw, hin⟩ := mentions_iff.mp h
  exact mentions_iff.mpr ⟨w, hw, hin.trans hmore⟩

theorem persists_mentionsOnLine (hne : parts.1 ≠ "") (hfirst : '\r' ∉ parts.1.toList)
    (hsecond : '\r' ∉ parts.2.toList) : Persists (mentionsOnLine parts) := by
  intro text more hmore h
  obtain ⟨stretch, hstretch, hline⟩ := (mentionsOnLine_iff hne hfirst hsecond).mp h
  exact (mentionsOnLine_iff hne hfirst hsecond).mpr ⟨stretch, hstretch.trans hmore, hline⟩

/-- The question for a group that is not there persists, on a line of its own or not. -/
theorem persists_groupQuestion :
    Persists fun text => mentions groupWordings text || mentionsOnLine groupLineParts text :=
  (persists_mentions groupWordings).or
    (persists_mentionsOnLine (by decide) (by decide) (by decide))

/-! ## Failures -/

namespace ClientError

/-- Every class of the first failure that comes from diagnostics is one of the second. -/
structure KeepsClasses (e f : ClientError) : Prop where
  groupNotFound : e.isGroupNotFound = true → f.isGroupNotFound = true
  volumeNotFound : e.isVolumeNotFound = true → f.isVolumeNotFound = true
  notFound : e.isNotFound = true → f.isNotFound = true
  alreadyExists : e.isAlreadyExists = true → f.isAlreadyExists = true
  skippable : e.isSkippable = true → f.isSkippable = true

/-- More text around the diagnostics of a tool that failed keeps the classes of its failure. -/
theorem keepsClasses_of_infix {s t : String} (h : s.toList <:+: t.toList)
    (command resource : String) (code : Option Int) :
    KeepsClasses (.execution command resource (.exited code s))
      (.execution command resource (.exited code t)) := by
  have hgroup : isGroupNotFound (.execution command resource (.exited code s)) = true →
      isGroupNotFound (.execution command resource (.exited code t)) = true :=
    persists_groupQuestion h
  have hvolume : isVolumeNotFound (.execution command resource (.exited code s)) = true →
      isVolumeNotFound (.execution command resource (.exited code t)) = true :=
    persists_mentions volumeWordings h
  have hnotFound : isNotFound (.execution command resource (.exited code s)) = true →
      isNotFound (.execution command resource (.exited code t)) = true := fun hs =>
    Bool.or_eq_true_iff.mpr ((Bool.or_eq_true_iff.mp hs).imp hgroup hvolume)
  have hdeviceless := persists_mentions devicelessWordings h
  exact
    { groupNotFound := hgroup
      volumeNotFound := hvolume
      notFound := hnotFound
      alreadyExists := persists_mentions existsWordings h
      skippable := fun hs =>
        Bool.or_eq_true_iff.mpr ((Bool.or_eq_true_iff.mp hs).imp hnotFound hdeviceless) }

/-- **Classes survive surrounding output.** Whatever is printed before and after the diagnostics of
a tool that failed, its failure keeps the classes that it has by them. -/
theorem classes_survive (command resource : String) (code : Option Int)
    (before diagnostics after : String) :
    KeepsClasses (.execution command resource (.exited code diagnostics))
      (.execution command resource (.exited code (before ++ diagnostics ++ after))) := by
  refine keepsClasses_of_infix ⟨before.toList, after.toList, ?_⟩ command resource code
  rw [String.toList_append, String.toList_append]

/-- A diagnostic that is cut short before its line ends, and the rest of this line. -/
example : ["Volume group \"x", "\" not found\r"].map (fun s =>
    isGroupNotFound (.execution "vgs" "x" (.exited (some 5) s))) = [false, false] ∧
    isGroupNotFound (.execution "vgs" "x"
      (.exited (some 5) ("WARNING: " ++ "Volume group \"x" ++ "\" not found\r"))) = true := by
  decide +kernel

end ClientError

end LvmControl
