import SimStorage.Facet.Sound

namespace SimStorage.Facet

/-!
# Observed and intended images can be exchanged

The combined changes depend only on which changes there are, so both orders of
the sides come to one image or to one refusal.
-/

open Codec Diff

/-- The image that an outcome leaves, for an observed image. -/
def MergeOutcome.image (observed : PortableImage) :
    MergeOutcome → Option PortableImage
  | .alreadyTrue | .unchanged _ => some observed
  | .apply postimage | .merged postimage => some postimage.image
  | .conflict _ => none

/-- Two runs on two observed images report one conflict or leave one image. -/
def Agree (observed other : PortableImage)
    (first second : Except Failure MergeOutcome) : Prop :=
  (∃ reason, first = .ok (.conflict reason) ∧ second = .ok (.conflict reason)) ∨
    ∃ one two image, first = .ok one ∧ second = .ok two ∧
      one.image observed = some image ∧ two.image other = some image

theorem Agree.conflict
    {observed other : PortableImage}
    (reason : ConflictReason) :
    Agree observed other (.ok (.conflict reason)) (.ok (.conflict reason)) :=
  .inl ⟨reason, rfl, rfl⟩

section Modes

theorem mergeMode_comm
    (base first second : UInt32) :
    mergeMode base first second = mergeMode base second first := by
  unfold mergeMode
  by_cases same : first = second
  · subst same
    rfl
  · rw [if_neg same, if_neg (Ne.symm same)]
    by_cases firstKept : first = base <;> by_cases secondKept : second = base
    · exact absurd (firstKept.trans secondKept.symm) same
    · simp [firstKept, secondKept]
    · simp [firstKept, secondKept]
    · simp [firstKept, secondKept]

/-- A merged mode is one of the modes. -/
theorem mode_of_mergeMode
    {base observed intended mode : UInt32}
    (merges : mergeMode base observed intended = some mode) :
    mode = observed ∨ mode = intended := by
  unfold mergeMode at merges
  split at merges
  · exact .inl (Option.some.inj merges).symm
  split at merges
  · exact .inr (Option.some.inj merges).symm
  split at merges
  · exact .inl (Option.some.inj merges).symm
  · cases merges

theorem validate_mode
    {image : PortableImage} {mode : UInt32}
    (valid : image.validate = .ok ())
    (present : image.mode = some mode)
    (bytes : Bytes) :
    PortableImage.validate ⟨some bytes, some mode⟩ = .ok () := by
  unfold PortableImage.validate at *
  split at valid
  · cases valid
  split at valid
  · cases valid
  · next plain =>
      rw [present] at plain
      simp only [Option.isSome_some, ne_eq, not_true_eq_false, if_false]
      rw [if_neg plain]

end Modes

section Swap

variable {target : Target} {kernel : Kernel} {spec : ArtifactFacet}
variable {comparison : Comparison} {base observed intended : PortableImage}

/-- The comparison with its sides exchanged. -/
def Comparison.swap (comparison : Comparison) : Comparison :=
  { comparison with
    observed := comparison.intended
    intended := comparison.observed }

theorem Comparison.Reads.swap
    (reads : comparison.Reads base observed intended) :
    comparison.swap.Reads base intended observed := by
  obtain ⟨baseLines, observedLines, intendedLines, _, _, _, ofBase, ofObserved,
    ofIntended, merges⟩ := reads
  exact ⟨baseLines, intendedLines, observedLines, _, _, _, ofBase, ofIntended,
    ofObserved, (mergeMode_comm _ _ _).trans merges⟩

theorem Comparison.swap_counted :
    comparison.swap.Counted ↔ comparison.Counted := by
  simp only [Comparison.Counted, Comparison.swap, List.forall_mem_cons]
  tauto

theorem Comparison.swap_admitted :
    comparison.swap.Admitted target ↔ comparison.Admitted target :=
  and_comm

/-- The postimage of lines of valid images is made. -/
theorem linePostimage_ok
    (identifying : Identifying kernel)
    (reads : comparison.Reads base observed intended)
    (valid : observed.validate = .ok () ∧ intended.validate = .ok ())
    (merged : List String) :
    ∃ postimage, linePostimage kernel spec merged comparison.mode =
        .ok postimage ∧
      postimage.image =
        ⟨some (utf8 (String.join merged)), some comparison.mode⟩ := by
  obtain ⟨_, _, _, _, ofObserved, ofIntended, merges⟩ := reads.mode
  have plain : PortableImage.validate
      ⟨some (utf8 (String.join merged)), some comparison.mode⟩ = .ok () := by
    rcases mode_of_mergeMode merges with same | same
    · rw [same]
      exact validate_mode valid.1 ofObserved _
    · rw [same]
      exact validate_mode valid.2 ofIntended _
  obtain ⟨postimage, made, image⟩ := identifying.postimage_ok plain spec
  refine ⟨postimage, ?_, image⟩
  simp only [linePostimage, PortableImage.file, plain, bind, Except.bind, pure,
    Except.pure]
  exact made

/-- Both orders of a comparison agree. -/
theorem Comparison.run_swap
    (identifying : Identifying kernel)
    (reads : comparison.Reads base observed intended)
    (valid : observed.validate = .ok () ∧ intended.validate = .ok ())
    (counted : comparison.Counted)
    (fits : comparison.Fits target)
    (swapFits : comparison.swap.Fits target) :
    Agree observed intended (comparison.run target kernel spec)
      (comparison.swap.run target kernel spec) := by
  have swapCounted := Comparison.swap_counted.mpr counted
  by_cases admitted : comparison.Admitted target
  swap
  · have swapRefused := mt Comparison.swap_admitted.mp admitted
    rw [Comparison.run_bounded counted fits (bounded_of_not_admitted admitted),
      Comparison.run_bounded swapCounted swapFits
        (bounded_of_not_admitted swapRefused)]
    exact .conflict _
  have leftScript := spaced_script comparison.base comparison.observed
  have rightScript := spaced_script comparison.base comparison.intended
  rw [Comparison.run_eq counted fits admitted,
    Comparison.run_eq swapCounted swapFits
      (Comparison.swap_admitted.mpr admitted)]
  simp only [Comparison.swap]
  by_cases compatible : Compatible (script comparison.base comparison.observed)
      (script comparison.base comparison.intended)
  · obtain ⟨combined, combines, both⟩ :=
      combineChanges_of_compatible leftScript rightScript compatible
    obtain ⟨others, again, also⟩ :=
      combineChanges_of_compatible rightScript leftScript compatible.symm
    have same := both.unique also.symm leftScript rightScript
    obtain ⟨postimage, made, _⟩ := @linePostimage_ok kernel spec comparison base
      observed intended identifying reads valid
      (splice comparison.base 0 combined)
    rw [combines, again, ← same]
    simp only [made, Except.map, refusing, Except.mapError]
    exact .inr ⟨_, _, postimage.image, rfl, rfl, rfl, rfl⟩
  · rw [combineChanges_of_not_compatible leftScript rightScript compatible,
      combineChanges_of_not_compatible rightScript leftScript
        (mt Compatible.symm compatible)]
    exact .conflict _

/-- Without lines to compare, both orders report one conflict. -/
theorem mergeLinewise_swap
    (valid : base.validate = .ok () ∧ observed.validate = .ok () ∧
      intended.validate = .ok ())
    (maxLines : UInt32) (maxCells : UInt64) :
    (∃ baseLines observedLines intendedLines mode,
      Comparison.Reads ⟨baseLines, observedLines, intendedLines, mode, maxLines,
        maxCells⟩ base observed intended) ∨
      ∃ reason, mergeLinewise target kernel spec base observed intended maxLines
          maxCells = .ok (.conflict reason) ∧
        mergeLinewise target kernel spec base intended observed maxLines
          maxCells = .ok (.conflict reason) := by
  cases inBase : base.bytes with
  | none => exact .inr ⟨.presence, by simp [mergeLinewise, inBase]⟩
  | some baseBytes =>
  cases inObserved : observed.bytes with
  | none => exact .inr ⟨.presence, by simp [mergeLinewise, inObserved]⟩
  | some observedBytes =>
  cases inIntended : intended.bytes with
  | none => exact .inr ⟨.presence, by simp [mergeLinewise, inIntended]⟩
  | some intendedBytes =>
  obtain ⟨baseMode, ofBase⟩ := mode_of_bytes valid.1 inBase
  obtain ⟨observedMode, ofObserved⟩ := mode_of_bytes valid.2.1 inObserved
  obtain ⟨intendedMode, ofIntended⟩ := mode_of_bytes valid.2.2 inIntended
  have swapped := mergeMode_comm baseMode observedMode intendedMode
  simp only [mergeLinewise, inBase, inObserved, inIntended, ofBase, ofObserved,
    ofIntended, ← swapped]
  cases merges : mergeMode baseMode observedMode intendedMode with
  | none => exact .inr ⟨.mode, rfl, rfl⟩
  | some mode =>
  cases baseText : fromUtf8 baseBytes with
  | none => exact .inr ⟨.nonText, rfl, rfl⟩
  | some ofBaseText =>
  cases observedText : fromUtf8 observedBytes with
  | none => exact .inr ⟨.nonText, by simp⟩
  | some ofObservedText =>
  cases intendedText : fromUtf8 intendedBytes with
  | none => exact .inr ⟨.nonText, by simp⟩
  | some ofIntendedText =>
      exact .inl ⟨lines ofBaseText, lines ofObservedText, lines ofIntendedText,
        mode, lines_eq_some.mpr ⟨_, _, inBase, baseText, rfl⟩,
        lines_eq_some.mpr ⟨_, _, inObserved, observedText, rfl⟩,
        lines_eq_some.mpr ⟨_, _, inIntended, intendedText, rfl⟩,
        ⟨_, _, _, ofBase, ofObserved, ofIntended, merges⟩⟩

end Swap

section Orders

variable {target : Target} {kernel : Kernel} {spec : ArtifactFacet}
variable {path : String}

/-- In a region that the check accepts the images decide the merge. -/
theorem mergeFacet_verified
    {base : RoleImage .base} {observed : RoleImage .observed}
    {intended : RoleImage .intended}
    (facets : base.facet = spec.id ∧ observed.facet = spec.id ∧
      intended.facet = spec.id)
    (inside : verifyIntendedRegion spec base.image intended.image = .ok ()) :
    mergeFacet target kernel spec base observed intended =
      if base.image = intended.image then
        .ok (.unchanged observed.id)
      else if observed.image = intended.image then
        .ok .alreadyTrue
      else if observed.image = base.image then
        refusing ((CheckedPostimage.new kernel spec intended.image).map .apply)
      else
        match spec.merge with
        | .exact => .ok (.conflict .bothChanged)
        | .linewise maxLines maxCells =>
            mergeLinewise target kernel spec base.image observed.image
              intended.image maxLines maxCells := by
  have same : ¬ (base.facet ≠ spec.id ∨ observed.facet ≠ spec.id ∨
      intended.facet ≠ spec.id) := by simp [facets]
  unfold mergeFacet
  rw [if_neg same, inside, classifyTransition_valid]
  simp only [refusing, Except.mapError, bind, Except.bind]
  by_cases unchanged : base.image = intended.image
  · rw [if_pos unchanged, if_pos unchanged]
    rfl
  by_cases already : observed.image = intended.image
  · rw [if_neg unchanged, if_neg unchanged, if_pos already, if_pos already]
    rfl
  by_cases kept : observed.image = base.image
  · rw [if_neg unchanged, if_neg unchanged, if_neg already, if_neg already,
      if_pos kept, if_pos kept]
    cases CheckedPostimage.new kernel spec intended.image with
    | error error => rfl
    | ok postimage => rfl
  · rw [if_neg unchanged, if_neg unchanged, if_neg already, if_neg already,
      if_neg kept, if_neg kept]
    rfl

theorem verify_exactPath
    (region : spec.region = .exactPath path) (base intended : PortableImage) :
    verifyIntendedRegion spec base intended = .ok () := by
  rw [verifyIntendedRegion, region]

/-- A checked image is the image, for the facet. -/
theorem kept_of_check
    {role : Role} {image : PortableImage} {checked : RoleImage role}
    (checks : RoleImage.check kernel role spec image = .ok checked) :
    checked.image = image ∧ checked.facet = spec.id := by
  unfold RoleImage.check at checks
  split at checks
  · cases identified : identifyImage kernel role.kind spec image with
    | error error =>
        rw [identified] at checks
        cases checks
    | ok id =>
        rw [identified] at checks
        cases checks
        exact ⟨rfl, rfl⟩
  · cases valid : image.validate with
    | error error =>
        rw [valid] at checks
        cases checks
    | ok _ =>
        rw [valid] at checks
        cases checks

/-- Three different images with lines come to a comparison. -/
theorem reached_of_exactPath
    {comparison : Comparison}
    {base : RoleImage .base} {observed : RoleImage .observed}
    {intended : RoleImage .intended}
    (region : spec.region = .exactPath path)
    (facets : base.facet = spec.id ∧ observed.facet = spec.id ∧
      intended.facet = spec.id)
    (differ : base.image ≠ intended.image ∧ observed.image ≠ intended.image ∧
      observed.image ≠ base.image)
    (policy : spec.merge =
      .linewise comparison.maxLines comparison.maxCells)
    (reads : comparison.Reads base.image observed.image intended.image)
    (counted : comparison.Counted) :
    comparison.Reached spec base observed intended where
  facets := facets
  region := by rw [verifyIntendedRegion, region]
  foreign := by
    rw [classifyTransition_valid, if_neg differ.1, if_neg differ.2.1,
      if_neg differ.2.2]
  policy := policy
  reads := reads
  counted := counted

/-- A table that does not fit panics. -/
theorem fit_of_calm
    {base : RoleImage .base} {observed : RoleImage .observed}
    {intended : RoleImage .intended}
    (calm : ∀ panic, mergeFacet target kernel spec base observed intended ≠
      .error (.panic panic)) :
    TablesFit target spec base observed intended := by
  intro comparison reached
  by_contra large
  apply calm .capacity
  rw [reached.mergeFacet_eq]
  exact Comparison.run_panics reached.counted large

theorem Agree.calm
    {observed other : PortableImage}
    {first second : Except Failure MergeOutcome}
    (agree : Agree observed other first second)
    (panic : Panic) :
    first ≠ .error (.panic panic) ∧ second ≠ .error (.panic panic) := by
  rcases agree with ⟨reason, rfl, rfl⟩ | ⟨one, two, image, rfl, rfl, _, _⟩
  · simp
  · simp

variable {base : PortableImage} {first second : PortableImage}
variable {checkedBase : RoleImage .base}
variable {firstObserved secondObserved : RoleImage .observed}
variable {firstIntended secondIntended : RoleImage .intended}

/-- Both orders of the sides agree exactly where no table is too large. -/
theorem merge_symmetric_iff
    (identifying : Identifying kernel)
    (region : spec.region = .exactPath path)
    (ofBase : RoleImage.check kernel .base spec base = .ok checkedBase)
    (isFirstObserved : RoleImage.check kernel .observed spec first =
      .ok firstObserved)
    (isSecondIntended : RoleImage.check kernel .intended spec second =
      .ok secondIntended)
    (isSecondObserved : RoleImage.check kernel .observed spec second =
      .ok secondObserved)
    (isFirstIntended : RoleImage.check kernel .intended spec first =
      .ok firstIntended) :
    Agree first second
        (mergeFacet target kernel spec checkedBase firstObserved secondIntended)
        (mergeFacet target kernel spec checkedBase secondObserved
          firstIntended) ↔
      TablesFit target spec checkedBase firstObserved secondIntended ∧
        TablesFit target spec checkedBase secondObserved firstIntended := by
  constructor
  · intro agree
    exact ⟨fit_of_calm fun panic => (agree.calm panic).1,
      fit_of_calm fun panic => (agree.calm panic).2⟩
  rintro ⟨fit, swapFit⟩
  obtain ⟨baseImage, baseFacet⟩ := kept_of_check ofBase
  obtain ⟨firstImage, firstFacet⟩ := kept_of_check isFirstObserved
  obtain ⟨secondImage, secondFacet⟩ := kept_of_check isSecondIntended
  obtain ⟨otherImage, otherFacet⟩ := kept_of_check isSecondObserved
  obtain ⟨lastImage, lastFacet⟩ := kept_of_check isFirstIntended
  have baseValid := checkedBase.valid
  have firstValid := firstObserved.valid
  have secondValid := secondIntended.valid
  rw [baseImage] at baseValid
  rw [firstImage] at firstValid
  rw [secondImage] at secondValid
  rw [mergeFacet_verified ⟨baseFacet, firstFacet, secondFacet⟩
      (verify_exactPath region _ _),
    mergeFacet_verified ⟨baseFacet, otherFacet, lastFacet⟩
      (verify_exactPath region _ _),
    baseImage, firstImage, secondImage, otherImage, lastImage]
  by_cases same : first = second
  · subst same
    by_cases unchanged : base = first
    · simp only [if_pos unchanged]
      exact .inr ⟨_, _, first, rfl, rfl, rfl, rfl⟩
    · simp only [if_neg unchanged, if_true]
      exact .inr ⟨_, _, first, rfl, rfl, rfl, rfl⟩
  have apart : second ≠ first := Ne.symm same
  by_cases firstKept : base = first
  · have changed : base ≠ second := fun kept => same (firstKept.symm.trans kept)
    obtain ⟨postimage, made, image⟩ := identifying.postimage_ok secondValid spec
    simp only [if_neg changed, if_neg same, if_pos firstKept,
      if_pos firstKept.symm, made, Except.map, refusing, Except.mapError]
    exact .inr ⟨_, _, second, rfl, rfl, congrArg some image, rfl⟩
  by_cases secondKept : base = second
  · obtain ⟨postimage, made, image⟩ := identifying.postimage_ok firstValid spec
    simp only [if_neg firstKept, if_neg apart, if_pos secondKept,
      if_pos secondKept.symm, made, Except.map, refusing, Except.mapError]
    exact .inr ⟨_, _, first, rfl, rfl, rfl, congrArg some image⟩
  have firstChanged : first ≠ base := Ne.symm firstKept
  have secondChanged : second ≠ base := Ne.symm secondKept
  simp only [if_neg secondKept, if_neg firstKept, if_neg same, if_neg apart,
    if_neg firstChanged, if_neg secondChanged]
  cases policy : spec.merge with
  | exact => exact .conflict _
  | linewise maxLines maxCells =>
      simp only []
      rcases @mergeLinewise_swap target kernel spec base first second
        ⟨baseValid, firstValid, secondValid⟩ maxLines maxCells with
        ⟨baseLines, firstLines, secondLines, mode, reads⟩ |
          ⟨reason, once, again⟩
      swap
      · rw [once, again]
        exact .conflict reason
      let comparison : Comparison :=
        ⟨baseLines, firstLines, secondLines, mode, maxLines, maxCells⟩
      have once := @mergeLinewise_eq target kernel spec comparison _ _ _ reads
      have again := @mergeLinewise_eq target kernel spec comparison.swap _ _ _
        reads.swap
      simp only [comparison, Comparison.swap] at once again
      rw [once, again]
      by_cases counted : comparison.Counted
      · have reached : comparison.Reached spec checkedBase firstObserved
            secondIntended := by
          apply reached_of_exactPath region ⟨baseFacet, firstFacet, secondFacet⟩
            _ policy _ counted
          · rw [baseImage, firstImage, secondImage]
            exact ⟨secondKept, same, firstChanged⟩
          · rw [baseImage, firstImage, secondImage]
            exact reads
        have swapped : comparison.swap.Reached spec checkedBase secondObserved
            firstIntended := by
          apply reached_of_exactPath region ⟨baseFacet, otherFacet, lastFacet⟩
            _ policy _ (Comparison.swap_counted.mpr counted)
          · rw [baseImage, otherImage, lastImage]
            exact ⟨firstKept, apart, secondChanged⟩
          · rw [baseImage, otherImage, lastImage]
            exact reads.swap
        exact Comparison.run_swap identifying reads ⟨firstValid, secondValid⟩
          counted (fit comparison reached) (swapFit comparison.swap swapped)
      · have refused := @Comparison.not_counted target kernel spec comparison
          counted
        have refusedAgain := @Comparison.not_counted target kernel spec
          comparison.swap (mt Comparison.swap_counted.mp counted)
        simp only [comparison, Comparison.swap] at refused refusedAgain
        rw [refused, refusedAgain]
        exact .conflict _

end Orders

section Samples

theorem smallFacet_made :
    (sampleFacet (.exactPath "src/lib.rs")
      (.linewise 16 1024)).toOption.isSome := by
  decide +kernel

/-- Two sides of a small file, in both orders. -/
theorem sample_symmetric :
    ∃ spec base firstObserved secondObserved firstIntended secondIntended,
      RoleImage.check Reference.kernel .base spec
        (textFile "one\ntwo\nthree\n") = .ok base ∧
      RoleImage.check Reference.kernel .observed spec
        (textFile "ONE\ntwo\nthree\n") = .ok firstObserved ∧
      RoleImage.check Reference.kernel .observed spec
        (textFile "one\ntwo\nTHREE\n") = .ok secondObserved ∧
      RoleImage.check Reference.kernel .intended spec
        (textFile "ONE\ntwo\nthree\n") = .ok firstIntended ∧
      RoleImage.check Reference.kernel .intended spec
        (textFile "one\ntwo\nTHREE\n") = .ok secondIntended ∧
      Agree (textFile "ONE\ntwo\nthree\n") (textFile "one\ntwo\nTHREE\n")
        (mergeFacet .bits32 Reference.kernel spec base firstObserved
          secondIntended)
        (mergeFacet .bits32 Reference.kernel spec base secondObserved
          firstIntended) := by
  obtain ⟨spec, _, region, policy⟩ := sampleFacet_ok smallFacet_made
  obtain ⟨base, ofBase, _⟩ := reference_identifying.check_ok
    (textFile_valid "one\ntwo\nthree\n") .base spec
  obtain ⟨firstObserved, one, _⟩ := reference_identifying.check_ok
    (textFile_valid "ONE\ntwo\nthree\n") .observed spec
  obtain ⟨secondObserved, two, _⟩ := reference_identifying.check_ok
    (textFile_valid "one\ntwo\nTHREE\n") .observed spec
  obtain ⟨firstIntended, three, _⟩ := reference_identifying.check_ok
    (textFile_valid "ONE\ntwo\nthree\n") .intended spec
  obtain ⟨secondIntended, four, _⟩ := reference_identifying.check_ok
    (textFile_valid "one\ntwo\nTHREE\n") .intended spec
  have small : 4 * (1024 : UInt64).toNat ≤ Target.bits32.isizeMax := by decide
  exact ⟨spec, base, firstObserved, secondObserved, firstIntended,
    secondIntended, ofBase, one, two, three, four,
    (merge_symmetric_iff reference_identifying region ofBase one four two
      three).mpr
      ⟨tablesFit_of_small .bits32 spec base firstObserved secondIntended policy
          small,
        tablesFit_of_small .bits32 spec base secondObserved firstIntended policy
          small⟩⟩

/-- Where one order panics there is neither a conflict nor an image. -/
theorem many_lines_disagree :
    ∃ spec base firstObserved secondObserved firstIntended secondIntended,
      widestFacet = .ok spec ∧
      RoleImage.check Reference.kernel .base spec (newlines 23170) = .ok base ∧
      RoleImage.check Reference.kernel .observed spec (newlines 23171) =
        .ok firstObserved ∧
      RoleImage.check Reference.kernel .intended spec (newlines 23172) =
        .ok secondIntended ∧
      RoleImage.check Reference.kernel .observed spec (newlines 23172) =
        .ok secondObserved ∧
      RoleImage.check Reference.kernel .intended spec (newlines 23171) =
        .ok firstIntended ∧
      ¬ Agree (newlines 23171) (newlines 23172)
        (mergeFacet .bits32 Reference.kernel spec base firstObserved
          secondIntended)
        (mergeFacet .bits32 Reference.kernel spec base secondObserved
          firstIntended) := by
  have panicking : PanicsFrom .bits32 23170 :=
    panicsFrom (by decide) (by decide) (by decide)
  obtain ⟨spec, base, firstObserved, secondIntended, made, ofBase, one, four,
    panics, _⟩ := panicking
  obtain ⟨secondObserved, two, _⟩ := reference_identifying.check_ok
    (newlines_valid 23172) .observed spec
  obtain ⟨firstIntended, three, _⟩ := reference_identifying.check_ok
    (newlines_valid 23171) .intended spec
  exact ⟨spec, base, firstObserved, secondObserved, firstIntended,
    secondIntended, made, ofBase, one, four, two, three,
    fun agree => (agree.calm .capacity).1 panics⟩

end Samples

end SimStorage.Facet
