import SimStorage.Facet.Region

namespace SimStorage.Facet

/-!
# Merging again

A merge that runs again on its own postimage compares the base with the merged
lines.  Hunks that were apart before can be one hunk then, or lie elsewhere: the
second run merges the same only where both scripts still lead to the merged
lines.
-/

open Codec Diff

section Definitions

/-- The bounds of the policy and of the target allow the comparison. -/
def RoomFor (target : Target) (spec : ArtifactFacet)
    (base merged : List String) : Prop :=
  ∀ maxLines maxCells, spec.merge = .linewise maxLines maxCells →
    merged.length ≤ maxLines.toNat ∧
      ∃ size, tableSize base merged target maxCells = some size ∧
        4 * size ≤ target.isizeMax

/-- The hunks of the merged lines and of the proposal lead to the merged lines. -/
def Stable (base merged intended : List String) : Prop :=
  ∃ both, Combined (script base merged) (script base intended) both ∧
    splice base 0 both = merged

/-- Every hunk of the proposal is a hunk of the merged lines. -/
def Kept (base merged intended : List String) : Prop :=
  ∀ change ∈ script base intended, change ∈ script base merged

/-- What a merge that runs again on its postimage returns. -/
structure RunsAgain (base intended : PortableImage) (postimage : CheckedPostimage)
    (baseLines mergedLines intendedLines : List String)
    (result : Except Failure MergeOutcome) : Prop where
  already : result = .ok .alreadyTrue ↔ postimage.image = intended
  same : (∃ other, result = .ok (.merged other) ∧
      other.image = postimage.image) ↔
    postimage.image ≠ intended ∧ Stable baseLines mergedLines intendedLines
  repeats : postimage.image ≠ intended →
    Stable baseLines mergedLines intendedLines →
      result = .ok (.merged postimage)
  merged : ∀ other, result = .ok (.merged other) →
    ∃ both, Combined (script baseLines mergedLines)
        (script baseLines intendedLines) both ∧
      other.image.lines = some (splice baseLines 0 both)
  conflict : ∀ reason, result = .ok (.conflict reason) →
    reason = .overlap ∧
      ¬ Compatible (script baseLines mergedLines)
        (script baseLines intendedLines)
  apply : ∀ other, result = .ok (.apply other) →
    postimage.image = base ∧ other.image = intended
  changed : ∀ retained, result ≠ .ok (.unchanged retained)

/-- The comparison with the merged lines as those observed. -/
def Comparison.again (comparison : Comparison) (merged : List String) :
    Comparison :=
  { comparison with observed := merged }

/-- A merge of compared lines, and an image to run it on again. -/
structure Comparison.Rerun (comparison : Comparison) (target : Target)
    (kernel : Kernel) (spec : ArtifactFacet) (base : RoleImage .base)
    (observed rerun : RoleImage .observed) (intended : RoleImage .intended)
    (postimage : CheckedPostimage) (combined : List (Change String)) : Prop where
  reached : comparison.Reached spec base observed intended
  merges : comparison.Merges target kernel spec postimage combined
  facet : rerun.facet = spec.id
  image : rerun.image = postimage.image
  room : RoomFor target spec comparison.base (splice comparison.base 0 combined)

end Definitions

variable {target : Target} {kernel : Kernel} {spec : ArtifactFacet}
variable {base : RoleImage .base} {observed rerun : RoleImage .observed}
variable {intended : RoleImage .intended}
variable {comparison : Comparison}
variable {postimage : CheckedPostimage} {combined : List (Change String)}

/-- Where the proposal's hunks are kept, they lead to the merged lines. -/
theorem stable_of_kept
    {base merged intended : List String}
    (kept : Kept base merged intended) :
    Stable base merged intended := by
  refine ⟨script base merged, ⟨(spaced_script base merged).ordered,
    fun change => ⟨.inl, ?_⟩⟩, splice_script base merged⟩
  rintro (isMerged | isProposed)
  · exact isMerged
  · exact kept change isProposed

theorem script_self
    (items : List String) :
    script items items = [] :=
  gaps_same rfl rfl (Nat.zero_le _) (Nat.zero_le _)

/-- Where the base is left as it is, only the base is a stable proposal. -/
theorem eq_of_stable_self
    {base intended : List String}
    (stable : Stable base base intended) :
    intended = base := by
  obtain ⟨both, combines, leads⟩ := stable
  have proposed := spaced_script base intended
  have alone : Combined (script base base) (script base intended)
      (script base intended) := by
    refine ⟨proposed.ordered, fun change => ?_⟩
    simp [script_self]
  rw [combines.unique alone (spaced_script base base) proposed,
    splice_script] at leads
  exact leads

/-- The merged mode merges with the other two as before. -/
theorem mergeMode_again
    {base observed intended mode : UInt32}
    (merges : mergeMode base observed intended = some mode) :
    mergeMode base mode intended = some mode := by
  unfold mergeMode at merges ⊢
  by_cases same : observed = intended
  · rw [if_pos same] at merges
    cases merges
    rw [if_pos same]
  rw [if_neg same] at merges
  by_cases kept : observed = base
  · rw [if_pos kept] at merges
    cases merges
    rw [if_pos rfl]
  rw [if_neg kept] at merges
  by_cases quiet : intended = base
  · rw [if_pos quiet] at merges
    cases merges
    rw [if_neg same, if_neg kept, if_pos quiet]
  · rw [if_neg quiet] at merges
    cases merges

section Running

/-- The images of a second run have the lines of its comparison. -/
theorem Comparison.Reads.again
    {base observed intended : PortableImage}
    (reads : comparison.Reads base observed intended)
    (merges : comparison.Merges target kernel spec postimage combined) :
    (comparison.again (splice comparison.base 0 combined)).Reads base
      postimage.image intended := by
  obtain ⟨baseMode, observedMode, intendedMode, ofBase, _, ofIntended, modes⟩ :=
    reads.mode
  refine ⟨reads.baseLines, merges.lines reads, reads.intendedLines, baseMode,
    comparison.mode, intendedMode, ofBase, ?_, ofIntended,
    mergeMode_again modes⟩
  rw [merges.image]

/-- The first run finds that base and proposal differ. -/
theorem Comparison.Reached.proposes
    (reached : comparison.Reached spec base observed intended) :
    base.image ≠ intended.image := by
  intro same
  have foreign := reached.foreign
  rw [classifyTransition_valid, if_pos same] at foreign
  cases foreign

/-- A second run on an image of its own is a comparison that runs. -/
theorem Comparison.Rerun.compares
    (again : comparison.Rerun target kernel spec base observed rerun intended
      postimage combined)
    (notIntended : postimage.image ≠ intended.image)
    (notBase : postimage.image ≠ base.image) :
    let second := comparison.again (splice comparison.base 0 combined)
    second.Reached spec base rerun intended ∧ second.Fits target ∧
      second.Admitted target := by
  obtain ⟨reached, merges, facet, image, room⟩ := again
  obtain ⟨short, size, table, allocated⟩ := room _ _ reached.policy
  obtain ⟨first, observedTable⟩ :=
    Option.isSome_iff_exists.mp merges.admitted.1
  have foreign : classifyTransition base.image intended.image rerun.image =
      .ok .foreign := by
    rw [classifyTransition_valid, image, if_neg reached.proposes,
      if_neg notIntended, if_neg notBase]
  refine ⟨⟨⟨reached.facets.1, facet, reached.facets.2.2⟩, reached.region,
    foreign, reached.policy, ?_, ?_⟩, ?_, ?_, merges.admitted.2⟩
  · rw [image]
    exact reached.reads.again merges
  · intro items member
    have counted := reached.counted
    simp only [Comparison.again, List.mem_cons, List.not_mem_nil, or_false]
      at member
    rcases member with rfl | rfl | rfl
    · exact counted _ List.mem_cons_self
    · exact short
    · exact counted _ (List.mem_cons_of_mem _ (List.mem_cons_of_mem _
        List.mem_cons_self))
  · intro found again
    cases again.symm.trans table
    exact ⟨allocated, (merges.fits first observedTable).2⟩
  · exact Option.isSome_iff_exists.mpr ⟨size, table⟩

/-- Images with the same lines and the same mode are equal. -/
theorem image_eq_of_lines
    {first second : PortableImage} {items : List String}
    (firstLines : first.lines = some items)
    (secondLines : second.lines = some items)
    (modes : first.mode = second.mode) :
    first = second := by
  obtain ⟨firstBytes, firstText, inFirst, ofFirst, rfl⟩ :=
    lines_eq_some.mp firstLines
  obtain ⟨secondBytes, secondText, inSecond, ofSecond, same⟩ :=
    lines_eq_some.mp secondLines
  have bytes : first.bytes = second.bytes := by
    rw [inFirst, inSecond, ← utf8_of_fromUtf8 ofFirst,
      ← utf8_of_fromUtf8 ofSecond, lines_injective same]
  cases first
  cases second
  cases bytes
  cases modes
  rfl

/-- A stable merge has not led back to the base. -/
theorem merged_ne_base
    (reached : comparison.Reached spec base observed intended)
    (merges : comparison.Merges target kernel spec postimage combined)
    (stable : Stable comparison.base (splice comparison.base 0 combined)
      comparison.intended) :
    postimage.image ≠ base.image := by
  intro same
  have sameLines : some (splice comparison.base 0 combined) =
      some comparison.base := by
    rw [← merges.lines reached.reads, same, reached.reads.baseLines]
  rw [Option.some.inj sameLines] at stable
  have unchanged := eq_of_stable_self stable
  obtain ⟨baseMode, observedMode, intendedMode, ofBase, _, ofIntended, modes⟩ :=
    reached.reads.mode
  have stays : comparison.mode = baseMode := by
    have known := congrArg PortableImage.mode same
    rw [merges.image, ofBase] at known
    exact Option.some.inj known
  rw [stays] at modes
  have sameMode : intendedMode = baseMode := by
    unfold mergeMode at modes
    split at modes
    · next agree => rw [← agree, Option.some.inj modes]
    split at modes
    · exact Option.some.inj modes
    split at modes
    · next quiet => exact quiet
    · cases modes
  apply reached.proposes
  apply image_eq_of_lines reached.reads.baseLines
  · rw [← unchanged]
    exact reached.reads.intendedLines
  · rw [ofBase, ofIntended, sameMode]

/-- A second run on an image of its own combines the two scripts again. -/
theorem Comparison.Rerun.mergeFacet_eq
    (again : comparison.Rerun target kernel spec base observed rerun intended
      postimage combined)
    (notIntended : postimage.image ≠ intended.image)
    (notBase : postimage.image ≠ base.image) :
    mergeFacet target kernel spec base rerun intended =
      match combineChanges
          (script comparison.base (splice comparison.base 0 combined))
          (script comparison.base comparison.intended) with
      | none => .ok (.conflict .overlap)
      | some both => refusing ((linePostimage kernel spec
          (splice comparison.base 0 both) comparison.mode).map .merged) := by
  obtain ⟨second, fits, admitted⟩ := again.compares notIntended notBase
  rw [second.mergeFacet_eq]
  exact Comparison.run_eq second.counted fits admitted

theorem refusing_map_eq_ok
    {α β : Type} {result : Except FacetError α} {wrap : α → β} {value : β} :
    refusing (result.map wrap) = .ok value ↔
      ∃ made, result = .ok made ∧ wrap made = value := by
  cases result <;> simp [refusing, Except.map, Except.mapError]

/-- A stable merge is merged again to the same postimage. -/
theorem Comparison.Rerun.of_stable
    (again : comparison.Rerun target kernel spec base observed rerun intended
      postimage combined)
    (notIntended : postimage.image ≠ intended.image)
    (stable : Stable comparison.base (splice comparison.base 0 combined)
      comparison.intended) :
    mergeFacet target kernel spec base rerun intended =
      .ok (.merged postimage) := by
  have notBase := merged_ne_base again.reached again.merges stable
  obtain ⟨both, combines, leads⟩ := stable
  have mergedScript := spaced_script comparison.base
    (splice comparison.base 0 combined)
  have proposed := spaced_script comparison.base comparison.intended
  obtain ⟨others, found, otherCombines⟩ :=
    combineChanges_of_compatible mergedScript proposed combines.compatible
  have sameChanges := otherCombines.unique combines mergedScript proposed
  rw [again.mergeFacet_eq notIntended notBase, found]
  simp only []
  rw [sameChanges, leads, again.merges.made]
  rfl

/-- A second run on an image of its own merges, or finds hunks that overlap. -/
theorem Comparison.Rerun.returns
    (again : comparison.Rerun target kernel spec base observed rerun intended
      postimage combined)
    (notIntended : postimage.image ≠ intended.image)
    (notBase : postimage.image ≠ base.image)
    {outcome : MergeOutcome}
    (returned : mergeFacet target kernel spec base rerun intended =
      .ok outcome) :
    (outcome = .conflict .overlap ∧
        ¬ Compatible
          (script comparison.base (splice comparison.base 0 combined))
          (script comparison.base comparison.intended)) ∨
      ∃ other, outcome = .merged other := by
  rw [again.mergeFacet_eq notIntended notBase] at returned
  cases combines : combineChanges
      (script comparison.base (splice comparison.base 0 combined))
      (script comparison.base comparison.intended) with
  | none =>
      rw [combines] at returned
      cases returned
      refine .inl ⟨rfl, fun compatible => ?_⟩
      obtain ⟨both, found, _⟩ := combineChanges_of_compatible
        (spaced_script _ _) (spaced_script _ _) compatible
      cases combines.symm.trans found
  | some both =>
      rw [combines] at returned
      obtain ⟨other, _, isMerged⟩ := refusing_map_eq_ok.mp returned
      exact .inr ⟨other, isMerged.symm⟩

/-- A second run on an image of its own merges by the hunks of both scripts. -/
theorem Comparison.Rerun.leads
    (again : comparison.Rerun target kernel spec base observed rerun intended
      postimage combined)
    (notIntended : postimage.image ≠ intended.image)
    (notBase : postimage.image ≠ base.image)
    {other : CheckedPostimage}
    (returned : mergeFacet target kernel spec base rerun intended =
      .ok (.merged other)) :
    ∃ both, Combined (script comparison.base (splice comparison.base 0 combined))
        (script comparison.base comparison.intended) both ∧
      other.image.lines = some (splice comparison.base 0 both) := by
  obtain ⟨second, _, _⟩ := again.compares notIntended notBase
  obtain ⟨both, merges⟩ := Comparison.merges_of_run second.counted
    (second.mergeFacet_eq.symm.trans returned)
  exact ⟨both, merges.both, merges.lines second.reads⟩

/-- A merge is stable where a second run gives the same image. -/
theorem Comparison.Rerun.stable
    (again : comparison.Rerun target kernel spec base observed rerun intended
      postimage combined)
    (notIntended : postimage.image ≠ intended.image)
    (notBase : postimage.image ≠ base.image)
    {other : CheckedPostimage}
    (returned : mergeFacet target kernel spec base rerun intended =
      .ok (.merged other))
    (same : other.image = postimage.image) :
    Stable comparison.base (splice comparison.base 0 combined)
      comparison.intended := by
  obtain ⟨both, combines, ofOther⟩ :=
    again.leads notIntended notBase returned
  rw [same, again.merges.lines again.reached.reads] at ofOther
  exact ⟨both, combines, (Option.some.inj ofOther).symm⟩

/-- A second run on an image that is neither the base nor the proposal. -/
theorem Comparison.Rerun.runsAgain_foreign
    (again : comparison.Rerun target kernel spec base observed rerun intended
      postimage combined)
    (notIntended : postimage.image ≠ intended.image)
    (notBase : postimage.image ≠ base.image) :
    RunsAgain base.image intended.image postimage comparison.base
      (splice comparison.base 0 combined) comparison.intended
      (mergeFacet target kernel spec base rerun intended) := by
  have returns {outcome : MergeOutcome}
      (returned : mergeFacet target kernel spec base rerun intended =
        .ok outcome) :=
    again.returns notIntended notBase returned
  refine ⟨⟨fun already => ?_, fun same => absurd same notIntended⟩,
    ⟨fun ⟨other, returned, same⟩ =>
        ⟨notIntended, again.stable notIntended notBase returned same⟩,
      fun ⟨_, stable⟩ =>
        ⟨postimage, again.of_stable notIntended stable, rfl⟩⟩,
    again.of_stable, fun _ => again.leads notIntended notBase,
    fun reason returned => ?_, fun other returned => ?_,
    fun retained returned => ?_⟩
  · obtain ⟨impossible, _⟩ | ⟨_, impossible⟩ := returns already <;>
      cases impossible
  · obtain ⟨overlaps, incompatible⟩ | ⟨_, impossible⟩ := returns returned
    · cases overlaps
      exact ⟨rfl, incompatible⟩
    · cases impossible
  · obtain ⟨impossible, _⟩ | ⟨_, impossible⟩ := returns returned <;>
      cases impossible
  · obtain ⟨impossible, _⟩ | ⟨_, impossible⟩ := returns returned <;>
      cases impossible

/-- A second run on the proposal itself. -/
theorem runsAgain_intended
    {base intended : PortableImage} {baseLines mergedLines intendedLines :
      List String}
    (isIntended : postimage.image = intended) :
    RunsAgain base intended postimage baseLines mergedLines intendedLines
      (.ok .alreadyTrue) where
  already := ⟨fun _ => isIntended, fun _ => rfl⟩
  same := ⟨fun ⟨_, impossible, _⟩ => (by cases impossible),
    fun ⟨notIntended, _⟩ => absurd isIntended notIntended⟩
  repeats notIntended := absurd isIntended notIntended
  merged _ impossible := by cases impossible
  conflict _ impossible := by cases impossible
  apply _ impossible := by cases impossible
  changed _ impossible := by cases impossible

/-- A second run on the base takes the proposal whole. -/
theorem runsAgain_base
    {intended : PortableImage} {base : PortableImage}
    {baseLines mergedLines intendedLines : List String}
    (notIntended : postimage.image ≠ intended)
    (isBase : postimage.image = base)
    (unstable : ¬ Stable baseLines mergedLines intendedLines) :
    RunsAgain base intended postimage baseLines mergedLines intendedLines
      (refusing ((CheckedPostimage.new kernel spec intended).map .apply)) := by
  have applied {outcome : MergeOutcome}
      (returned : refusing ((CheckedPostimage.new kernel spec intended).map
        .apply) = .ok outcome) :
      ∃ other, other.image = intended ∧ MergeOutcome.apply other = outcome := by
    obtain ⟨other, made, isApply⟩ := refusing_map_eq_ok.mp returned
    exact ⟨other, image_of_new made, isApply⟩
  refine ⟨⟨fun already => ?_, fun same => absurd same notIntended⟩,
    ⟨fun ⟨other, returned, _⟩ => ?_, fun ⟨_, stable⟩ => absurd stable unstable⟩,
    fun _ stable => absurd stable unstable, fun other returned => ?_,
    fun reason returned => ?_, fun other returned => ?_,
    fun retained returned => ?_⟩
  · obtain ⟨_, _, impossible⟩ := applied already
    cases impossible
  · obtain ⟨_, _, impossible⟩ := applied returned
    cases impossible
  · obtain ⟨_, _, impossible⟩ := applied returned
    cases impossible
  · obtain ⟨_, _, impossible⟩ := applied returned
    cases impossible
  · obtain ⟨_, isIntended, isApply⟩ := applied returned
    cases isApply
    exact ⟨isBase, isIntended⟩
  · obtain ⟨_, _, impossible⟩ := applied returned
    cases impossible

/--
A merge that runs again on its postimage is already true exactly where that is
the proposal, and merged to the same image exactly where the hunks of both
scripts still lead to it, as they do where the hunks of the proposal are kept.
Otherwise hunks overlap, the merge is another one, or the postimage was the base.
-/
theorem merge_again
    (target : Target) (kernel : Kernel) (spec : ArtifactFacet)
    (base : RoleImage .base) (observed rerun : RoleImage .observed)
    (intended : RoleImage .intended)
    (postimage : CheckedPostimage)
    (returned : mergeFacet target kernel spec base observed intended =
      .ok (.merged postimage))
    (facet : rerun.facet = spec.id)
    (image : rerun.image = postimage.image) :
    ∃ baseLines intendedLines mergedLines,
      base.image.lines = some baseLines ∧
        intended.image.lines = some intendedLines ∧
        postimage.image.lines = some mergedLines ∧
        (Kept baseLines mergedLines intendedLines →
          Stable baseLines mergedLines intendedLines) ∧
        (RoomFor target spec baseLines mergedLines →
          RunsAgain base.image intended.image postimage baseLines mergedLines
            intendedLines
            (mergeFacet target kernel spec base rerun intended)) := by
  rcases mergeFacet_cases target kernel spec base observed intended with
    ⟨comparison, reached⟩ | unmerged
  swap
  · exact absurd returned (unmerged.2 postimage)
  obtain ⟨combined, merges⟩ := Comparison.merges_of_run reached.counted
    (reached.mergeFacet_eq.symm.trans returned)
  refine ⟨_, _, _, reached.reads.baseLines, reached.reads.intendedLines,
    merges.lines reached.reads, stable_of_kept, fun room => ?_⟩
  have outcome := @mergeFacet_verified target kernel spec base rerun intended
    ⟨reached.facets.1, facet, reached.facets.2.2⟩ reached.region
  rw [if_neg reached.proposes, image] at outcome
  by_cases same : postimage.image = intended.image
  · rw [outcome, if_pos same]
    exact runsAgain_intended same
  by_cases back : postimage.image = base.image
  · rw [outcome, if_neg same, if_pos back]
    exact runsAgain_base same back fun stable =>
      merged_ne_base reached merges stable back
  · exact Comparison.Rerun.runsAgain_foreign
      ⟨reached, merges, facet, image, room⟩ same back

end Running

section Samples

/-- The outcome of a second run on the merge of three texts. -/
def RunsTwice (baseText observedText intendedText mergedText : String)
    (outcome : MergeOutcome → Prop) : Prop :=
  ∃ spec base observed rerun intended postimage result,
    sampleFacet (.lineRange "src/lib.rs" 0 1) (.linewise 16 1024) = .ok spec ∧
      RoleImage.check Reference.kernel .base spec (textFile baseText) =
        .ok base ∧
      RoleImage.check Reference.kernel .observed spec (textFile observedText) =
        .ok observed ∧
      RoleImage.check Reference.kernel .intended spec (textFile intendedText) =
        .ok intended ∧
      mergeFacet .bits32 Reference.kernel spec base observed intended =
        .ok (.merged postimage) ∧
      postimage.image = textFile mergedText ∧
      RoleImage.check Reference.kernel .observed spec postimage.image =
        .ok rerun ∧
      mergeFacet .bits32 Reference.kernel spec base rerun intended =
        .ok result ∧
      outcome result

/-- A second run on the merge of sample texts compares its lines. -/
theorem SampleTexts.again
    {baseText observedText intendedText mergedText : String}
    (sample : SampleTexts baseText observedText intendedText comparison combined)
    (text : String.join (splice comparison.base 0 combined) = mergedText)
    (moved : mergedText ≠ intendedText ∧ mergedText ≠ baseText)
    (short : (lines mergedText).length ≤ 16)
    (room : ∃ size,
      tableSize comparison.base (lines mergedText) .bits32 1024 = some size ∧
        4 * size ≤ Target.bits32.isizeMax)
    {outcome : MergeOutcome → Prop}
    (returns : ∀ spec base rerun intended,
      let second := comparison.again (lines mergedText)
      second.Reached spec base rerun intended → second.Fits .bits32 →
        second.Admitted .bits32 →
          ∃ result, mergeFacet .bits32 Reference.kernel spec base rerun intended =
            .ok result ∧ outcome result) :
    RunsTwice baseText observedText intendedText mergedText outcome := by
  obtain ⟨spec, base, observed, intended, postimage, made, _, ofBase, ofObserved,
    ofIntended, ⟨baseImage, intendedImage⟩, reached, merged, image⟩ :=
      sample.merged
  rw [text] at image
  obtain ⟨rerun, ofRerun, rerunImage, rerunFacet⟩ :=
    reference_identifying.check_ok (textFile_valid mergedText) .observed spec
  obtain ⟨both, merges⟩ := Comparison.merges_of_run reached.counted
    (reached.mergeFacet_eq.symm.trans merged)
  have mergedLines : splice comparison.base 0 both = lines mergedText := by
    have known := merges.lines reached.reads
    rw [image, textFile_lines] at known
    exact (Option.some.inj known).symm
  have fit : RoomFor .bits32 spec comparison.base
      (splice comparison.base 0 both) := by
    intro maxLines maxCells bounded
    cases reached.policy.symm.trans bounded
    rw [mergedLines, sample.bounds.2.1, sample.bounds.2.2]
    exact ⟨short, room⟩
  obtain ⟨second, fits, admitted⟩ := Comparison.Rerun.compares
    ⟨reached, merges, rerunFacet, rerunImage.trans image.symm, fit⟩
    (by rw [image, intendedImage]; exact mt textFile_injective moved.1)
    (by rw [image, baseImage]; exact mt textFile_injective moved.2)
  rw [mergedLines] at second fits admitted
  obtain ⟨result, returned, leads⟩ :=
    returns spec base rerun intended second fits admitted
  exact ⟨spec, base, observed, rerun, intended, postimage, result, made, ofBase,
    ofObserved, ofIntended, merged, image, by rw [image]; exact ofRerun, returned,
    leads⟩

/-- A change at each end of three lines. -/
def bothEnds : Comparison :=
  ⟨["a\n", "b\n", "c\n"], ["a\n", "b\n", "y\n"], ["x\n", "b\n", "c\n"],
    0o644, 16, 1024⟩

theorem bothEnds_observed :
    script bothEnds.base bothEnds.observed = [⟨2, 3, ["y\n"]⟩] := by
  simp [bothEnds, script, matched, gaps, slice]

theorem bothEnds_intended :
    script bothEnds.base bothEnds.intended = [⟨0, 1, ["x\n"]⟩] := by
  simp [bothEnds, script, matched, gaps, common, slice]

theorem bothEnds_merged :
    script bothEnds.base ["x\n", "b\n", "y\n"] =
      [⟨0, 1, ["x\n"]⟩, ⟨2, 3, ["y\n"]⟩] := by
  simp [bothEnds, script, matched, gaps, common, slice]

theorem bothEnds_sample :
    SampleTexts "a\nb\nc\n" "a\nb\ny\n" "x\nb\nc\n" bothEnds
      [⟨0, 1, ["x\n"]⟩, ⟨2, 3, ["y\n"]⟩] where
  texts := ⟨rfl, rfl, rfl⟩
  bounds := ⟨rfl, rfl, rfl⟩
  inside := rfl
  differ := by decide
  counted := by simp [Comparison.Counted, bothEnds]
  admitted := ⟨by decide, by decide⟩
  combines := by
    have sorted : ([⟨2, 3, ["y\n"]⟩, ⟨0, 1, ["x\n"]⟩] :
        List (Change String)).mergeSort sortsBefore =
          [⟨0, 1, ["x\n"]⟩, ⟨2, 3, ["y\n"]⟩] := by
      simp [List.mergeSort, sortsBefore]
    rw [bothEnds_observed, bothEnds_intended]
    exact congrArg some sorted

/-- A change at each end of three lines is merged again to the same image. -/
theorem both_ends_merge_again :
    ∃ spec base observed rerun intended postimage,
      RoleImage.check Reference.kernel .observed spec
          (textFile "a\nb\ny\n") = .ok observed ∧
        mergeFacet .bits32 Reference.kernel spec base observed intended =
          .ok (.merged postimage) ∧
        RoleImage.check Reference.kernel .observed spec postimage.image =
          .ok rerun ∧
        mergeFacet .bits32 Reference.kernel spec base rerun intended =
          .ok (.merged postimage) := by
  obtain ⟨spec, base, observed, intended, postimage, _, _, _, ofObserved, _,
    ⟨baseImage, intendedImage⟩, reached, merged, image⟩ := bothEnds_sample.merged
  have text : String.join (splice bothEnds.base 0
      [⟨0, 1, ["x\n"]⟩, ⟨2, 3, ["y\n"]⟩]) = "x\nb\ny\n" := by
    decide
  rw [text] at image
  obtain ⟨rerun, ofRerun, rerunImage, rerunFacet⟩ :=
    reference_identifying.check_ok (textFile_valid "x\nb\ny\n") .observed spec
  obtain ⟨baseLines, intendedLines, mergedLines, ofBaseLines, ofIntendedLines,
    ofMergedLines, stable, again⟩ := merge_again .bits32 Reference.kernel spec
      base observed rerun intended postimage merged rerunFacet
      (rerunImage.trans image.symm)
  rw [baseImage, textFile_lines] at ofBaseLines
  rw [intendedImage, textFile_lines] at ofIntendedLines
  rw [image, textFile_lines] at ofMergedLines
  cases ofBaseLines
  cases ofIntendedLines
  cases ofMergedLines
  have room : RoomFor .bits32 spec (lines "a\nb\nc\n") (lines "x\nb\ny\n") := by
    intro maxLines maxCells bounded
    cases reached.policy.symm.trans bounded
    exact ⟨by decide, 16, by decide, by decide⟩
  have kept : Kept (lines "a\nb\nc\n") (lines "x\nb\ny\n")
      (lines "x\nb\nc\n") := by
    intro change member
    have inProposal : change ∈ script bothEnds.base bothEnds.intended := member
    rw [bothEnds_intended] at inProposal
    have isMerged : change ∈ script bothEnds.base ["x\n", "b\n", "y\n"] := by
      rw [bothEnds_merged, List.mem_singleton.mp inProposal]
      exact List.mem_cons_self
    exact isMerged
  refine ⟨spec, base, observed, rerun, intended, postimage, ofObserved, merged,
    by rw [image]; exact ofRerun, (again room).repeats ?_ (stable kept)⟩
  rw [image, intendedImage]
  exact mt textFile_injective (by decide)

/-- Of two equal lines one is removed, and the other is replaced. -/
def twins : Comparison :=
  ⟨["a\n", "a\n"], ["a\n"], ["b\n", "a\n"], 0o644, 16, 1024⟩

theorem twins_observed :
    script twins.base twins.observed = [⟨1, 2, []⟩] := by
  simp [twins, script, matched, gaps, slice]

theorem twins_intended :
    script twins.base twins.intended = [⟨0, 1, ["b\n"]⟩] := by
  simp [twins, script, matched, gaps, common, slice]

theorem twins_merged :
    script twins.base ["b\n"] = [⟨0, 2, ["b\n"]⟩] := by
  simp [twins, script, matched, gaps, common, slice]

theorem twins_sample :
    SampleTexts "a\na\n" "a\n" "b\na\n" twins
      [⟨0, 1, ["b\n"]⟩, ⟨1, 2, []⟩] where
  texts := ⟨rfl, rfl, rfl⟩
  bounds := ⟨rfl, rfl, rfl⟩
  inside := rfl
  differ := by decide
  counted := by simp [Comparison.Counted, twins]
  admitted := ⟨by decide, by decide⟩
  combines := by
    have sorted : ([⟨1, 2, []⟩, ⟨0, 1, ["b\n"]⟩] :
        List (Change String)).mergeSort sortsBefore =
          [⟨0, 1, ["b\n"]⟩, ⟨1, 2, []⟩] := by
      simp [List.mergeSort, sortsBefore]
    rw [twins_observed, twins_intended]
    exact congrArg some sorted

/-- The two changes are one hunk afterwards, which the proposal overlaps. -/
theorem twins_conflict :
    RunsTwice "a\na\n" "a\n" "b\na\n" "b\n" (· = .conflict .overlap) := by
  apply twins_sample.again (by decide) (by decide) (by decide)
    ⟨6, by decide, by decide⟩
  intro spec base rerun intended second reached fits admitted
  refine ⟨_, ?_, rfl⟩
  rw [reached.mergeFacet_eq, Comparison.run_eq reached.counted fits admitted]
  have observed : script second.base second.observed = [⟨0, 2, ["b\n"]⟩] :=
    twins_merged
  have proposed : script second.base second.intended = [⟨0, 1, ["b\n"]⟩] :=
    twins_intended
  rw [observed, proposed]
  rfl

/-- Of two equal lines the first is replaced, and a third is put behind them. -/
def thirds : Comparison :=
  ⟨["a\n", "a\n"], ["b\n", "a\n"], ["a\n", "a\n", "a\n"], 0o644, 16, 1024⟩

theorem thirds_observed :
    script thirds.base thirds.observed = [⟨0, 1, ["b\n"]⟩] := by
  simp [thirds, script, matched, gaps, common, slice]

theorem thirds_intended :
    script thirds.base thirds.intended = [⟨2, 2, ["a\n"]⟩] := by
  simp [thirds, script, matched, gaps, slice]

theorem thirds_merged :
    script thirds.base ["b\n", "a\n", "a\n"] = [⟨0, 0, ["b\n"]⟩] := by
  simp [thirds, script, matched, gaps, common, slice]

theorem thirds_sample :
    SampleTexts "a\na\n" "b\na\n" "a\na\na\n" thirds
      [⟨0, 1, ["b\n"]⟩, ⟨2, 2, ["a\n"]⟩] where
  texts := ⟨rfl, rfl, rfl⟩
  bounds := ⟨rfl, rfl, rfl⟩
  inside := rfl
  differ := by decide
  counted := by simp [Comparison.Counted, thirds]
  admitted := ⟨by decide, by decide⟩
  combines := by
    rw [thirds_observed, thirds_intended]
    exact congrArg some (List.mergeSort_of_pairwise (by decide))

/-- The line that the first run put in is put in again. -/
theorem thirds_grow :
    RunsTwice "a\na\n" "b\na\n" "a\na\na\n" "b\na\na\n" (fun outcome =>
      ∃ other, outcome = .merged other ∧
        other.image = textFile "b\na\na\na\n") := by
  apply thirds_sample.again (by decide) (by decide) (by decide)
    ⟨12, by decide, by decide⟩
  intro spec base rerun intended second reached fits admitted
  have observed : script second.base second.observed = [⟨0, 0, ["b\n"]⟩] :=
    thirds_merged
  have proposed : script second.base second.intended = [⟨2, 2, ["a\n"]⟩] :=
    thirds_intended
  have combines : combineChanges (script second.base second.observed)
      (script second.base second.intended) =
        some [⟨0, 0, ["b\n"]⟩, ⟨2, 2, ["a\n"]⟩] := by
    rw [observed, proposed]
    exact congrArg some (List.mergeSort_of_pairwise (by decide))
  obtain ⟨other, merged, image⟩ :=
    reached.merged reference_identifying fits admitted combines
  have text : String.join (splice second.base 0
      [⟨0, 0, ["b\n"]⟩, ⟨2, 2, ["a\n"]⟩]) = "b\na\na\na\n" := by
    decide
  rw [text] at image
  exact ⟨_, merged, other, rfl, image⟩

/-- A second run conflicts with one merge, and changes another. -/
theorem merge_again_differs :
    RunsTwice "a\na\n" "a\n" "b\na\n" "b\n" (· = .conflict .overlap) ∧
      RunsTwice "a\na\n" "b\na\n" "a\na\na\n" "b\na\na\n" (fun outcome =>
        ∃ other, outcome = .merged other ∧
          other.image = textFile "b\na\na\na\n") :=
  ⟨twins_conflict, thirds_grow⟩

end Samples

end SimStorage.Facet
