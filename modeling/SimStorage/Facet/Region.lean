import SimStorage.Diff.Border
import SimStorage.Facet.Symmetry

namespace SimStorage.Facet

/-!
# Owned regions

The region check compares what is before and behind a range of lines.  The merge
aligns the whole texts, and the alignment can prefer a line behind the range to
its like inside.
-/

open Codec Diff

section Definitions

/-- A postimage is the proposal, or merged. -/
def MergeOutcome.Lands (outcome : MergeOutcome) : Prop :=
  ∃ postimage, outcome = .apply postimage ∨ outcome = .merged postimage

/--
What lands changes the region only: a proposal that is taken whole replaces the
lines of the region, and of a merge the changes of the proposal lie inside.
-/
inductive Confined (base observed intended : List String) (start stop : Nat) :
    MergeOutcome → Prop where
  | apply {postimage : CheckedPostimage} {replacement : List String}
      (whole : postimage.image.lines =
        some (base.take start ++ (replacement ++ base.drop stop))) :
      Confined base observed intended start stop (.apply postimage)
  | merged {postimage : CheckedPostimage} {applied : List (Change String)}
      (both : Combined (script base observed) (script base intended) applied)
      (made : postimage.image.lines = some (splice base 0 applied))
      (inside : ∀ change ∈ applied, change ∈ script base intended →
        change.Inside start stop) :
      Confined base observed intended start stop (.merged postimage)

/-- The lines that the proposal has in place of the region. -/
def proposed (base intended : List String) (start stop : Nat) : List String :=
  slice intended start (intended.length - (base.length - stop))

/--
The line behind the region is not among the lines that the alignment of the
region has left of one side when it has used up the other.
-/
def BorderClear (base intended : List String) (start stop : Nat) : Prop :=
  ∀ next ∈ (base.drop stop).head?,
    next ∉ leftover (slice base start stop) (proposed base intended start stop)

instance (base intended : List String) (start stop : Nat) :
    Decidable (BorderClear base intended start stop) :=
  inferInstanceAs (Decidable (∀ next ∈ (base.drop stop).head?, _))

end Definitions

section Lines

variable {base intended : List String} {start stop : Nat}

/-- A list is what is before a range, the range and what is behind it. -/
theorem take_slice_drop
    {items : List String}
    (order : start ≤ stop) :
    items.take start ++ (slice items start stop ++ items.drop stop) = items := by
  have front : (items.take stop).take start = items.take start := by
    rw [List.take_take, Nat.min_eq_left order]
  rw [slice, ← front, ← List.append_assoc, List.take_append_drop,
    List.take_append_drop]

/-- The proposal replaces the region. -/
theorem KeepsOutside.intended_eq
    (keeps : KeepsOutside base intended start stop) :
    base.take start ++ (proposed base intended start stop ++ base.drop stop) =
      intended := by
  have order : start ≤ intended.length - (base.length - stop) :=
    Nat.le_sub_of_add_le keeps.long
  rw [proposed, ← keeps.front, ← keeps.back]
  exact take_slice_drop order

/-- The script of a proposal stays inside just where the border is clear. -/
theorem KeepsOutside.inside_iff
    (keeps : KeepsOutside base intended start stop)
    (order : start ≤ stop) :
    (∀ change ∈ script base intended, change.Inside start stop) ↔
      BorderClear base intended start stop := by
  have whole : base.take start ++ (slice base start stop ++ base.drop stop) =
      base :=
    take_slice_drop order
  have front : (base.take start).length = start := by
    rw [List.length_take, Nat.min_eq_left (order.trans keeps.within)]
  have size : start + (slice base start stop).length = stop := by
    rw [slice, List.length_drop, List.length_take,
      Nat.min_eq_left keeps.within, Nat.add_sub_cancel' order]
  have inside := script_inside_iff (base.take start) (slice base start stop)
    (proposed base intended start stop) (base.drop stop)
  rw [whole, keeps.intended_eq, front, size] at inside
  exact inside

/-- Changes that are all of a proposal's are inside with the combined ones. -/
theorem inside_combined_iff
    {observed : List String} {applied : List (Change String)}
    (both : Combined (script base observed) (script base intended) applied) :
    (∀ change ∈ applied, change ∈ script base intended →
        change.Inside start stop) ↔
      ∀ change ∈ script base intended, change.Inside start stop := by
  constructor
  · intro inside change member
    exact inside change ((both.members change).mpr (.inr member)) member
  · intro inside change _ member
    exact inside change member

end Lines

section Images

variable {target : Target} {kernel : Kernel} {spec : ArtifactFacet}
variable {base : RoleImage .base} {observed : RoleImage .observed}
variable {intended : RoleImage .intended}

/-- What the region check has accepted keeps the lines outside. -/
theorem keeps_of_verify
    {path : String} {start stop : UInt32} {base intended : PortableImage}
    (region : spec.region = .lineRange path start stop)
    (verified : verifyIntendedRegion spec base intended = .ok ()) :
    start.toNat ≤ stop.toNat ∧ ∃ baseLines intendedLines,
      base.lines = some baseLines ∧ intended.lines = some intendedLines ∧
        KeepsOutside baseLines intendedLines start.toNat stop.toNat := by
  have selects := spec.selects
  rw [region] at selects
  have order : start.toNat ≤ stop.toNat :=
    (UInt32.lt_iff_toNat_lt.mp selects).le
  refine ⟨order, ?_⟩
  unfold verifyIntendedRegion at verified
  rw [region] at verified
  cases inBase : base.bytes with
  | none =>
      rw [inBase] at verified
      cases verified
  | some baseBytes =>
  cases inIntended : intended.bytes with
  | none =>
      rw [inBase, inIntended] at verified
      cases verified
  | some intendedBytes =>
  rw [inBase, inIntended] at verified
  simp only [] at verified
  split at verified
  · cases verified
  cases baseText : fromUtf8 baseBytes with
  | none =>
      rw [baseText] at verified
      cases verified
  | some baseText' =>
  cases intendedText : fromUtf8 intendedBytes with
  | none =>
      rw [baseText, intendedText] at verified
      cases verified
  | some intendedText' =>
  rw [baseText, intendedText] at verified
  have checked : verifyLines (lines baseText') (lines intendedText')
      start.toNat stop.toNat = .ok () := verified
  refine ⟨_, _, lines_eq_some.mpr ⟨_, _, inBase, baseText, rfl⟩,
    lines_eq_some.mpr ⟨_, _, inIntended, intendedText, rfl⟩, ?_⟩
  rcases @verifyLines_cases (lines baseText') (lines intendedText') _ _ order
    with ⟨_, keeps⟩ | ⟨refused, _⟩
  · exact keeps
  · rw [checked] at refused
    cases refused

theorem image_of_new
    {image : PortableImage} {postimage : CheckedPostimage}
    (made : CheckedPostimage.new kernel spec image = .ok postimage) :
    postimage.image = image := by
  unfold CheckedPostimage.new at made
  cases identified : identifyImage kernel .postimage spec image with
  | error error =>
      rw [identified] at made
      cases made
  | ok id =>
      rw [identified] at made
      cases made
      rfl

/-- A comparison of lines does not take the proposal whole. -/
theorem Comparison.run_not_applied
    (comparison : Comparison) (postimage : CheckedPostimage) :
    comparison.run target kernel spec ≠ .ok (.apply postimage) := by
  intro applied
  by_cases counted : comparison.Counted
  swap
  · rw [Comparison.not_counted counted] at applied
    cases applied
  by_cases fits : comparison.Fits target
  swap
  · rw [Comparison.run_panics counted fits] at applied
    cases applied
  by_cases admitted : comparison.Admitted target
  swap
  · rw [Comparison.run_bounded counted fits (bounded_of_not_admitted admitted)]
      at applied
    cases applied
  rw [Comparison.run_eq counted fits admitted] at applied
  cases combines : combineChanges (script comparison.base comparison.observed)
      (script comparison.base comparison.intended) with
  | none =>
      rw [combines] at applied
      cases applied
  | some combined =>
      rw [combines] at applied
      simp only [] at applied
      cases result : linePostimage kernel spec
          (splice comparison.base 0 combined) comparison.mode with
      | error error =>
          rw [result] at applied
          cases applied
      | ok made =>
          rw [result] at applied
          cases applied

/-- Only an observed image that is the base has the proposal applied. -/
theorem applied_of_mergeFacet
    {postimage : CheckedPostimage}
    (returned : mergeFacet target kernel spec base observed intended =
      .ok (.apply postimage)) :
    verifyIntendedRegion spec base.image intended.image = .ok () ∧
      observed.image = base.image ∧ postimage.image = intended.image := by
  unfold mergeFacet at returned
  split at returned
  · cases returned
  rcases verifyIntendedRegion_cases spec base.image intended.image with
    region | region
  swap
  · rw [region] at returned
    cases returned
  rw [region, classifyTransition_valid] at returned
  refine ⟨region, ?_⟩
  by_cases same : base.image = intended.image
  · rw [if_pos same] at returned
    cases returned
  by_cases done : observed.image = intended.image
  · rw [if_neg same, if_pos done] at returned
    cases returned
  by_cases quiet : observed.image = base.image
  · rw [if_neg same, if_neg done, if_pos quiet] at returned
    refine ⟨quiet, ?_⟩
    simp only [refusing, Except.mapError, bind, Except.bind] at returned
    cases made : CheckedPostimage.new kernel spec intended.image with
    | error error =>
        rw [made] at returned
        cases returned
    | ok value =>
        rw [made] at returned
        cases returned
        exact image_of_new made
  · rw [if_neg same, if_neg done, if_neg quiet] at returned
    simp only [refusing, Except.mapError, bind, Except.bind] at returned
    cases policy : spec.merge with
    | exact =>
        rw [policy] at returned
        cases returned
    | linewise maxLines maxCells =>
        rw [policy] at returned
        simp only [] at returned
        rcases @mergeLinewise_cases target kernel spec _ _ _
          ⟨base.valid, observed.valid, intended.valid⟩ maxLines maxCells with
          ⟨baseLines, observedLines, intendedLines, mode, reads⟩ |
            ⟨reason, refuses⟩
        · exact absurd ((mergeLinewise_eq reads).symm.trans returned)
            (Comparison.run_not_applied _ postimage)
        · rw [refuses] at returned
          cases returned

/--
For every facet of a region of lines and all images: what an applied or merged
proposal changes lies in the region, exactly where the observed image is the
base or the border of the region is clear.
-/
theorem confined_iff
    (target : Target) (kernel : Kernel) (spec : ArtifactFacet)
    (base : RoleImage .base) (observed : RoleImage .observed)
    (intended : RoleImage .intended)
    (path : String) (start stop : UInt32)
    (outcome : MergeOutcome)
    (region : spec.region = .lineRange path start stop)
    (returned : mergeFacet target kernel spec base observed intended =
      .ok outcome)
    (lands : outcome.Lands) :
    ∃ baseLines observedLines intendedLines,
      base.image.lines = some baseLines ∧
        observed.image.lines = some observedLines ∧
        intended.image.lines = some intendedLines ∧
        (Confined baseLines observedLines intendedLines start.toNat stop.toNat
            outcome ↔
          observed.image = base.image ∨
            BorderClear baseLines intendedLines start.toNat stop.toNat) := by
  rcases lands with ⟨postimage, rfl | rfl⟩
  · rcases applied_of_mergeFacet returned with ⟨verified, quiet, image⟩
    rcases keeps_of_verify region verified with
      ⟨_, baseLines, intendedLines, ofBase, ofIntended, keeps⟩
    refine ⟨baseLines, baseLines, intendedLines, ofBase, quiet ▸ ofBase,
      ofIntended, fun _ => .inl quiet, fun _ => ?_⟩
    apply Confined.apply
    rw [image, ofIntended, keeps.intended_eq]
  · rcases mergeFacet_cases target kernel spec base observed intended with
      ⟨comparison, reached⟩ | unmerged
    · have moved : observed.image ≠ base.image := by
        intro quiet
        have foreign := reached.foreign
        rw [classifyTransition_valid, quiet] at foreign
        by_cases same : base.image = intended.image
        · simp [same] at foreign
        · simp [same] at foreign
      have merges := reached.mergeFacet_eq.symm.trans returned
      rcases Comparison.merges_of_run reached.counted merges with
        ⟨combined, merged⟩
      rcases keeps_of_verify region reached.region with
        ⟨order, baseLines, intendedLines, ofBase, ofIntended, keeps⟩
      have sameBase := reached.reads.baseLines.symm.trans ofBase
      have sameIntended := reached.reads.intendedLines.symm.trans ofIntended
      cases sameBase
      cases sameIntended
      refine ⟨_, _, _, ofBase, reached.reads.observedLines, ofIntended, ?_⟩
      rw [← keeps.inside_iff order]
      constructor
      · intro confined
        cases confined with
        | merged both _ inside => exact .inr ((inside_combined_iff both).mp inside)
      · intro clear
        exact .merged merged.both (merged.lines reached.reads)
          ((inside_combined_iff merged.both).mpr (clear.resolve_left moved))
    · exact absurd returned (unmerged.2 postimage)

/-- A comparison whose changes combine is merged. -/
theorem Comparison.Reached.merged
    {comparison : Comparison} {combined : List (Change String)}
    (identifying : Identifying kernel)
    (reached : comparison.Reached spec base observed intended)
    (fits : comparison.Fits target)
    (admitted : comparison.Admitted target)
    (combines : combineChanges (script comparison.base comparison.observed)
      (script comparison.base comparison.intended) = some combined) :
    ∃ postimage, mergeFacet target kernel spec base observed intended =
        .ok (.merged postimage) ∧
      postimage.image =
        ⟨some (utf8 (String.join (splice comparison.base 0 combined))),
          some comparison.mode⟩ := by
  rcases @linePostimage_ok kernel spec comparison _ _ _ identifying reached.reads
    ⟨observed.valid, intended.valid⟩ (splice comparison.base 0 combined) with
    ⟨postimage, made, image⟩
  refine ⟨postimage, ?_, image⟩
  rw [reached.mergeFacet_eq, Comparison.run_eq reached.counted fits admitted,
    combines]
  simp only [made]
  rfl

end Images

section Samples

/-- Of two equal lines the first is the region, which the proposal removes. -/
def equalLines : Comparison :=
  ⟨["a\n", "a\n", "b\n"], ["y\n", "a\n", "b\n"], ["a\n", "b\n"], 0o644, 16,
    1024⟩

theorem equalLines_observed :
    script equalLines.base equalLines.observed = [⟨0, 1, ["y\n"]⟩] := by
  simp [equalLines, script, matched, gaps, common, slice]

theorem equalLines_intended :
    script equalLines.base equalLines.intended = [⟨1, 2, []⟩] := by
  simp [equalLines, script, matched, gaps, common, slice]

theorem regionFacet_made :
    (sampleFacet (.lineRange "src/lib.rs" 0 1)
      (.linewise 16 1024)).toOption.isSome := by
  decide +kernel

theorem textFile_lines
    (text : String) :
    (textFile text).lines = some (lines text) :=
  lines_eq_some.mpr ⟨_, _, rfl, fromUtf8_utf8 _, rfl⟩

theorem textFile_injective
    {first second : String}
    (same : textFile first = textFile second) :
    first = second :=
  utf8_injective (Option.some.inj (congrArg PortableImage.bytes same))

/-- Three texts whose changes combine, the proposal in the first line. -/
structure SampleTexts (baseText observedText intendedText : String)
    (comparison : Comparison) (combined : List (Change String)) : Prop where
  texts : lines baseText = comparison.base ∧
    lines observedText = comparison.observed ∧
    lines intendedText = comparison.intended
  bounds : comparison.mode = 0o644 ∧ comparison.maxLines = 16 ∧
    comparison.maxCells = 1024
  inside : verifyLines comparison.base comparison.intended 0 1 = .ok ()
  differ : baseText ≠ intendedText ∧ observedText ≠ intendedText ∧
    observedText ≠ baseText
  counted : comparison.Counted
  admitted : comparison.Admitted .bits32
  combines : combineChanges (script comparison.base comparison.observed)
    (script comparison.base comparison.intended) = some combined

/-- Sample texts are the images of a merge. -/
theorem SampleTexts.merged
    {baseText observedText intendedText : String}
    {comparison : Comparison} {combined : List (Change String)}
    (sample : SampleTexts baseText observedText intendedText comparison
      combined) :
    ∃ spec base observed intended postimage,
      sampleFacet (.lineRange "src/lib.rs" 0 1) (.linewise 16 1024) = .ok spec ∧
      spec.region = .lineRange "src/lib.rs" 0 1 ∧
      RoleImage.check Reference.kernel .base spec (textFile baseText) =
        .ok base ∧
      RoleImage.check Reference.kernel .observed spec (textFile observedText) =
        .ok observed ∧
      RoleImage.check Reference.kernel .intended spec (textFile intendedText) =
        .ok intended ∧
      (base.image = textFile baseText ∧ intended.image = textFile intendedText) ∧
      comparison.Reached spec base observed intended ∧
      mergeFacet .bits32 Reference.kernel spec base observed intended =
        .ok (.merged postimage) ∧
      postimage.image =
        textFile (String.join (splice comparison.base 0 combined)) := by
  obtain ⟨spec, made, region, policy⟩ := sampleFacet_ok regionFacet_made
  obtain ⟨base, ofBase, baseImage, baseFacet⟩ := reference_identifying.check_ok
    (textFile_valid baseText) .base spec
  obtain ⟨observed, ofObserved, observedImage, observedFacet⟩ :=
    reference_identifying.check_ok (textFile_valid observedText) .observed spec
  obtain ⟨intended, ofIntended, intendedImage, intendedFacet⟩ :=
    reference_identifying.check_ok (textFile_valid intendedText) .intended spec
  obtain ⟨mode, maxLines, maxCells⟩ := sample.bounds
  have reached : comparison.Reached spec base observed intended := by
    refine ⟨⟨baseFacet, observedFacet, intendedFacet⟩, ?_, ?_,
      by rw [policy, maxLines, maxCells], ?_, sample.counted⟩
    · rw [verifyIntendedRegion, region, baseImage, intendedImage]
      simp only [textFile, fromUtf8_utf8, sample.texts.1, sample.texts.2.2]
      exact sample.inside
    · rw [classifyTransition_valid, baseImage, observedImage, intendedImage,
        if_neg (mt textFile_injective sample.differ.1),
        if_neg (mt textFile_injective sample.differ.2.1),
        if_neg (mt textFile_injective sample.differ.2.2)]
    · rw [baseImage, observedImage, intendedImage]
      refine ⟨sample.texts.1 ▸ textFile_lines _,
        sample.texts.2.1 ▸ textFile_lines _,
        sample.texts.2.2 ▸ textFile_lines _, _, _, _, rfl, rfl, rfl, ?_⟩
      rw [mode]
      rfl
  have fits : comparison.Fits .bits32 :=
    tablesFit_of_small .bits32 spec base observed intended policy (by decide)
      comparison reached
  obtain ⟨postimage, merged, image⟩ := reached.merged reference_identifying fits
    sample.admitted sample.combines
  rw [mode] at image
  exact ⟨spec, base, observed, intended, postimage, made, region, ofBase,
    ofObserved, ofIntended, ⟨baseImage, intendedImage⟩, reached, merged, image⟩

theorem equalLines_sample :
    SampleTexts "a\na\nb\n" "y\na\nb\n" "a\nb\n" equalLines
      [⟨0, 1, ["y\n"]⟩, ⟨1, 2, []⟩] where
  texts := ⟨rfl, rfl, rfl⟩
  bounds := ⟨rfl, rfl, rfl⟩
  inside := rfl
  differ := by decide
  counted := by simp [Comparison.Counted, equalLines]
  admitted := ⟨by decide, by decide⟩
  combines := by
    rw [equalLines_observed, equalLines_intended]
    exact congrArg some (List.mergeSort_of_pairwise (by decide))

/-- The three images of a merge in the region of the first line. -/
theorem equalLines_merged :
    ∃ spec base observed intended postimage,
      sampleFacet (.lineRange "src/lib.rs" 0 1) (.linewise 16 1024) = .ok spec ∧
      spec.region = .lineRange "src/lib.rs" 0 1 ∧
      RoleImage.check Reference.kernel .base spec (textFile "a\na\nb\n") =
        .ok base ∧
      RoleImage.check Reference.kernel .observed spec (textFile "y\na\nb\n") =
        .ok observed ∧
      RoleImage.check Reference.kernel .intended spec (textFile "a\nb\n") =
        .ok intended ∧
      mergeFacet .bits32 Reference.kernel spec base observed intended =
        .ok (.merged postimage) ∧
      postimage.image = textFile "y\nb\n" := by
  obtain ⟨spec, base, observed, intended, postimage, made, region, ofBase,
    ofObserved, ofIntended, _, _, merged, image⟩ := equalLines_sample.merged
  have text : String.join (splice equalLines.base 0
      [⟨0, 1, ["y\n"]⟩, ⟨1, 2, []⟩]) = "y\nb\n" := by
    decide
  rw [text] at image
  exact ⟨spec, base, observed, intended, postimage, made, region, ofBase,
    ofObserved, ofIntended, merged, image⟩

end Samples

theorem sample_confined_iff :
    ∃ spec base observed intended outcome,
      RoleImage.check Reference.kernel .observed spec (textFile "y\na\nb\n") =
        .ok observed ∧
      mergeFacet .bits32 Reference.kernel spec base observed intended =
        .ok outcome ∧
      ∃ baseLines observedLines intendedLines,
        base.image.lines = some baseLines ∧
          observed.image.lines = some observedLines ∧
          intended.image.lines = some intendedLines ∧
          (Confined baseLines observedLines intendedLines 0 1 outcome ↔
            observed.image = base.image ∨
              BorderClear baseLines intendedLines 0 1) := by
  obtain ⟨spec, base, observed, intended, postimage, _, region, _, ofObserved,
    _, merged, _⟩ := equalLines_merged
  exact ⟨spec, base, observed, intended, _, ofObserved, merged,
    confined_iff .bits32 Reference.kernel spec base observed intended
      "src/lib.rs" 0 1 _ region merged ⟨postimage, .inr rfl⟩⟩

/-- The merge removes the second of two equal lines, behind the region. -/
theorem merge_leaves_region :
    ∃ spec base observed intended postimage,
      sampleFacet (.lineRange "src/lib.rs" 0 1) (.linewise 16 1024) = .ok spec ∧
      RoleImage.check Reference.kernel .base spec (textFile "a\na\nb\n") =
        .ok base ∧
      RoleImage.check Reference.kernel .observed spec (textFile "y\na\nb\n") =
        .ok observed ∧
      RoleImage.check Reference.kernel .intended spec (textFile "a\nb\n") =
        .ok intended ∧
      mergeFacet .bits32 Reference.kernel spec base observed intended =
        .ok (.merged postimage) ∧
      postimage.image = textFile "y\nb\n" ∧
      ¬ Confined ["a\n", "a\n", "b\n"] ["y\n", "a\n", "b\n"] ["a\n", "b\n"] 0 1
        (.merged postimage) := by
  obtain ⟨spec, base, observed, intended, postimage, made, _, ofBase, ofObserved,
    ofIntended, merged, image⟩ := equalLines_merged
  refine ⟨spec, base, observed, intended, postimage, made, ofBase, ofObserved,
    ofIntended, merged, image, fun confined => ?_⟩
  have removed : (⟨1, 2, []⟩ : Change String) ∈
      script ["a\n", "a\n", "b\n"] ["a\n", "b\n"] :=
    equalLines_intended ▸ List.mem_singleton_self _
  cases confined with
  | merged both _ inside =>
      have within := inside _ ((both.members _).mpr (.inr removed)) removed
      exact absurd within.2 (by decide)

end SimStorage.Facet
