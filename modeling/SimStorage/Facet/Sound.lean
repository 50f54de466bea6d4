import SimStorage.Facet.Combine
import SimStorage.Facet.Identity

namespace SimStorage.Facet

/-!
# A merge is a three-way merge

The lines of a merged postimage are the segment-wise merge of the lines of the
three images.  A table that no allocation can hold is the only panic.
-/

open Codec Diff

/-- The lines of an image that is text. -/
def PortableImage.lines (image : PortableImage) : Option (List String) :=
  image.bytes.bind fun bytes => (fromUtf8 bytes).map Facet.lines

/-- At most one side changed a value, or both alike; the changed one is kept. -/
def Reconciled {α : Type} (base first second merged : α) : Prop :=
  first = base ∧ merged = second ∨ second = base ∧ merged = first ∨
    first = second ∧ merged = first

/-- An image whose lines and whose mode are three-way merges. -/
structure MergesImages (base observed intended merged : PortableImage) :
    Prop where
  lines : ∃ baseLines observedLines intendedLines mergedLines,
    base.lines = some baseLines ∧ observed.lines = some observedLines ∧
      intended.lines = some intendedLines ∧ merged.lines = some mergedLines ∧
      ThreeWay baseLines observedLines intendedLines mergedLines
  mode : ∃ baseMode observedMode intendedMode mergedMode,
    base.mode = some baseMode ∧ observed.mode = some observedMode ∧
      intended.mode = some intendedMode ∧ merged.mode = some mergedMode ∧
      Reconciled baseMode observedMode intendedMode mergedMode

theorem reconciled_mergeMode
    {base observed intended mode : UInt32}
    (merges : mergeMode base observed intended = some mode) :
    Reconciled base observed intended mode := by
  unfold mergeMode at merges
  split at merges
  · next same => exact .inr (.inr ⟨same, (Option.some.inj merges).symm⟩)
  split at merges
  · next kept => exact .inl ⟨kept, (Option.some.inj merges).symm⟩
  split at merges
  · next kept => exact .inr (.inl ⟨kept, (Option.some.inj merges).symm⟩)
  · cases merges

section Region

variable {baseLines intendedLines : List String} {start stop : Nat}

/-- The intended lines differ from the base only in a range of the base. -/
structure KeepsOutside (baseLines intendedLines : List String)
    (start stop : Nat) : Prop where
  within : stop ≤ baseLines.length
  long : start + (baseLines.length - stop) ≤ intendedLines.length
  front : intendedLines.take start = baseLines.take start
  back : intendedLines.drop
      (intendedLines.length - (baseLines.length - stop)) = baseLines.drop stop

theorem slice_length
    {α : Type} (items : List α) (start : Nat) :
    slice items start items.length = items.drop start := by
  rw [slice, List.take_length]

/-- The comparison of lines comes to a result, without a panic. -/
theorem verifyLines_cases
    (order : start ≤ stop) :
    verifyLines baseLines intendedLines start stop = .ok () ∧
        KeepsOutside baseLines intendedLines start stop ∨
      verifyLines baseLines intendedLines start stop =
          .error (.error .outOfRegion) ∧
        ¬ KeepsOutside baseLines intendedLines start stop := by
  unfold verifyLines
  by_cases within : stop > baseLines.length
  · rw [if_pos within]
    exact .inr ⟨rfl, fun keeps => absurd keeps.within (Nat.not_le.mpr within)⟩
  have inside : stop ≤ baseLines.length := Nat.not_lt.mp within
  rw [if_neg within]
  simp only []
  by_cases short : intendedLines.length < start + (baseLines.length - stop)
  · rw [if_pos short]
    exact .inr ⟨rfl, fun keeps => absurd keeps.long (Nat.not_le.mpr short)⟩
  have long : start + (baseLines.length - stop) ≤ intendedLines.length :=
    Nat.not_lt.mp short
  rw [if_neg short, sliced_eq (Nat.zero_le _) (Nat.le_of_add_right_le long),
    sliced_eq (Nat.zero_le _) (order.trans inside)]
  simp only [bind, Except.bind]
  by_cases front : slice intendedLines 0 start = slice baseLines 0 start
  swap
  · rw [if_pos front]
    exact .inr ⟨rfl, fun keeps => front keeps.front⟩
  have room : ¬ intendedLines.length < baseLines.length - stop :=
    Nat.not_lt.mpr (Nat.le_of_add_left_le long)
  rw [if_neg (not_not.mpr front), if_neg room,
    sliced_eq (Nat.sub_le _ _) (Nat.le_refl _),
    sliced_eq inside (Nat.le_refl _)]
  simp only []
  by_cases back : slice intendedLines
      (intendedLines.length - (baseLines.length - stop)) intendedLines.length =
        slice baseLines stop baseLines.length
  · rw [if_neg (not_not.mpr back)]
    rw [slice_length, slice_length] at back
    exact .inl ⟨rfl, inside, long, front, back⟩
  · rw [if_pos back]
    rw [slice_length, slice_length] at back
    exact .inr ⟨rfl, fun keeps => back keeps.back⟩

/-- The region check accepts or refuses, without a panic. -/
theorem verifyIntendedRegion_cases
    (spec : ArtifactFacet) (base intended : PortableImage) :
    verifyIntendedRegion spec base intended = .ok () ∨
      verifyIntendedRegion spec base intended =
        .error (.error .outOfRegion) := by
  unfold verifyIntendedRegion
  have selects := spec.selects
  cases region : spec.region with
  | exactPath path => exact .inl rfl
  | lineRange path start stop =>
      rw [region] at selects
      have order : start.toNat ≤ stop.toNat :=
        (UInt32.lt_iff_toNat_lt.mp selects).le
      cases base.bytes with
      | none => exact .inr rfl
      | some baseBytes =>
          cases intended.bytes with
          | none => exact .inr rfl
          | some intendedBytes =>
              simp only []
              split
              · exact .inr rfl
              cases fromUtf8 baseBytes with
              | none => exact .inr rfl
              | some baseText =>
                  cases fromUtf8 intendedBytes with
                  | none => exact .inr rfl
                  | some intendedText =>
                      exact (verifyLines_cases order).imp And.left And.left

end Region

section Comparison

/-- What a comparison of lines works on. -/
structure Comparison where
  base : List String
  observed : List String
  intended : List String
  mode : UInt32
  maxLines : UInt32
  maxCells : UInt64

variable {target : Target} {kernel : Kernel} {spec : ArtifactFacet}
variable {comparison : Comparison}

/-- The images have the lines of the comparison, and their modes merge. -/
structure Comparison.Reads (comparison : Comparison)
    (base observed intended : PortableImage) : Prop where
  baseLines : base.lines = some comparison.base
  observedLines : observed.lines = some comparison.observed
  intendedLines : intended.lines = some comparison.intended
  mode : ∃ baseMode observedMode intendedMode, base.mode = some baseMode ∧
    observed.mode = some observedMode ∧ intended.mode = some intendedMode ∧
    mergeMode baseMode observedMode intendedMode = some comparison.mode

/-- The line counts are within the policy. -/
def Comparison.Counted (comparison : Comparison) : Prop :=
  ∀ items ∈ [comparison.base, comparison.observed, comparison.intended],
    items.length ≤ comparison.maxLines.toNat

/-- Every table that is asked for can be allocated. -/
def Comparison.Fits (target : Target) (comparison : Comparison) : Prop :=
  ∀ size, tableSize comparison.base comparison.observed target
      comparison.maxCells = some size →
    4 * size ≤ target.isizeMax ∧
      ∀ other, tableSize comparison.base comparison.intended target
          comparison.maxCells = some other →
        4 * other ≤ target.isizeMax

/-- The merge comes to the comparison. -/
structure Comparison.Reached (comparison : Comparison) (spec : ArtifactFacet)
    (base : RoleImage .base) (observed : RoleImage .observed)
    (intended : RoleImage .intended) : Prop where
  facets : base.facet = spec.id ∧ observed.facet = spec.id ∧
    intended.facet = spec.id
  region : verifyIntendedRegion spec base.image intended.image = .ok ()
  foreign : classifyTransition base.image intended.image observed.image =
    .ok .foreign
  policy : spec.merge = .linewise comparison.maxLines comparison.maxCells
  reads : comparison.Reads base.image observed.image intended.image
  counted : comparison.Counted

/-- `merge_linewise` on the lines of a comparison. -/
def Comparison.run (comparison : Comparison) (target : Target)
    (kernel : Kernel) (spec : ArtifactFacet) : Except Failure MergeOutcome :=
  mergeLines target kernel spec comparison.base comparison.observed
    comparison.intended comparison.mode comparison.maxLines comparison.maxCells

/-- The postimage of merged lines. -/
def linePostimage (kernel : Kernel) (spec : ArtifactFacet)
    (merged : List String) (mode : UInt32) :
    Except FacetError CheckedPostimage := do
  let image ← PortableImage.file (utf8 (String.join merged)) mode
  CheckedPostimage.new kernel spec image

/-- The postimage holds the joined lines. -/
theorem image_of_linePostimage
    {merged : List String} {mode : UInt32} {postimage : CheckedPostimage}
    (made : linePostimage kernel spec merged mode = .ok postimage) :
    postimage.image = ⟨some (utf8 (String.join merged)), some mode⟩ := by
  simp only [linePostimage, PortableImage.file] at made
  cases valid : PortableImage.validate
      ⟨some (utf8 (String.join merged)), some mode⟩ with
  | error error =>
      rw [valid] at made
      cases made
  | ok _ =>
      rw [valid] at made
      simp only [bind, Except.bind, pure, Except.pure, CheckedPostimage.new]
        at made
      cases identified : identifyImage kernel .postimage spec
          ⟨some (utf8 (String.join merged)), some mode⟩ with
      | error error =>
          rw [identified] at made
          cases made
      | ok id =>
          rw [identified] at made
          cases made
          rfl

theorem Comparison.not_counted
    (uncounted : ¬ comparison.Counted) :
    comparison.run target kernel spec = .ok (.conflict .workBound) := by
  have large : ∃ count ∈ [comparison.base.length, comparison.observed.length,
      comparison.intended.length], count > comparison.maxLines.toNat := by
    simp only [Comparison.Counted, not_forall, Nat.not_le] at uncounted
    obtain ⟨items, member, above⟩ := uncounted
    refine ⟨items.length, ?_, above⟩
    have lengths : items.length ∈ [comparison.base, comparison.observed,
        comparison.intended].map List.length :=
      List.mem_map.mpr ⟨items, member, rfl⟩
    simpa using lengths
  unfold Comparison.run mergeLines
  rw [if_pos large]
  rfl

theorem Comparison.counted_if
    (counted : comparison.Counted) :
    ¬ ∃ count ∈ [comparison.base.length, comparison.observed.length,
      comparison.intended.length], count > comparison.maxLines.toNat := by
  rintro ⟨count, member, above⟩
  have lengths : count ∈ [comparison.base, comparison.observed,
      comparison.intended].map List.length := by simpa using member
  obtain ⟨items, isSide, rfl⟩ := List.mem_map.mp lengths
  exact absurd (counted items isSide) (Nat.not_le.mpr above)

theorem Comparison.small
    (counted : comparison.Counted) :
    comparison.base.length < 2 ^ 32 :=
  (counted _ List.mem_cons_self).trans_lt comparison.maxLines.toNat_lt

/-- A table that cannot be allocated panics. -/
theorem Comparison.run_panics
    (counted : comparison.Counted)
    (large : ¬ comparison.Fits target) :
    comparison.run target kernel spec = .error (.panic .capacity) := by
  simp only [Comparison.Fits, not_forall, not_and_or] at large
  obtain ⟨size, admitted, large | ⟨other, again, large⟩⟩ := large
  · unfold Comparison.run mergeLines
    rw [if_neg (Comparison.counted_if counted),
      changes_panics admitted (Nat.not_le.mp large)]
    rfl
  · unfold Comparison.run mergeLines
    rw [if_neg (Comparison.counted_if counted)]
    by_cases fits : 4 * size ≤ target.isizeMax
    · rw [changes_eq (Comparison.small counted) admitted fits,
        changes_panics again (Nat.not_le.mp large)]
      rfl
    · rw [changes_panics admitted (Nat.not_le.mp fits)]
      rfl

/-- A table beyond the bounds is refused. -/
theorem Comparison.run_bounded
    (counted : comparison.Counted)
    (fits : comparison.Fits target)
    (bounded : tableSize comparison.base comparison.observed target
        comparison.maxCells = none ∨
      tableSize comparison.base comparison.intended target
        comparison.maxCells = none) :
    comparison.run target kernel spec = .ok (.conflict .workBound) := by
  unfold Comparison.run mergeLines
  rw [if_neg (Comparison.counted_if counted)]
  cases first : tableSize comparison.base comparison.observed target
      comparison.maxCells with
  | none =>
      rw [changes_bounded first]
      rfl
  | some size =>
      rw [changes_eq (Comparison.small counted) first (fits size first).1]
      rcases bounded with impossible | second
      · cases first.symm.trans impossible
      · rw [changes_bounded second]
        rfl

/-- The two tables are within the bounds. -/
def Comparison.Admitted (target : Target) (comparison : Comparison) : Prop :=
  (tableSize comparison.base comparison.observed target
    comparison.maxCells).isSome ∧
  (tableSize comparison.base comparison.intended target
    comparison.maxCells).isSome

theorem bounded_of_not_admitted
    (refused : ¬ comparison.Admitted target) :
    tableSize comparison.base comparison.observed target
        comparison.maxCells = none ∨
      tableSize comparison.base comparison.intended target
        comparison.maxCells = none := by
  simpa only [Comparison.Admitted, not_and_or, Bool.not_eq_true,
    Option.isSome_eq_false_iff, Option.isNone_iff_eq_none] using refused

/-- Within the bounds the two scripts are combined and applied. -/
theorem Comparison.run_eq
    (counted : comparison.Counted)
    (fits : comparison.Fits target)
    (admitted : comparison.Admitted target) :
    comparison.run target kernel spec =
      match combineChanges (script comparison.base comparison.observed)
        (script comparison.base comparison.intended) with
      | none => .ok (.conflict .overlap)
      | some combined => refusing ((linePostimage kernel spec
          (splice comparison.base 0 combined) comparison.mode).map .merged) := by
  obtain ⟨size, first⟩ := Option.isSome_iff_exists.mp admitted.1
  obtain ⟨other, second⟩ := Option.isSome_iff_exists.mp admitted.2
  have small := Comparison.small counted
  have leftScript := spaced_script comparison.base comparison.observed
  have rightScript := spaced_script comparison.base comparison.intended
  unfold Comparison.run mergeLines
  rw [if_neg (Comparison.counted_if counted),
    changes_eq small first (fits size first).1,
    changes_eq small second ((fits size first).2 other second)]
  simp only [bind, Except.bind]
  cases combines : combineChanges (script comparison.base comparison.observed)
      (script comparison.base comparison.intended) with
  | none => rfl
  | some combined =>
      obtain ⟨_, both⟩ :=
        combined_of_combineChanges leftScript rightScript combines
      simp only [applyChanges_eq (Nat.zero_le _)
        (both.inOrder leftScript rightScript), linePostimage, refusing]
      cases PortableImage.file (utf8 (String.join
          (splice comparison.base 0 combined))) comparison.mode with
      | error error => rfl
      | ok image =>
          simp only [Except.mapError, bind, Except.bind]
          cases CheckedPostimage.new kernel spec image with
          | error error => rfl
          | ok postimage => rfl

/-- Where the tables can be allocated nothing panics. -/
theorem Comparison.run_calm
    (counted : comparison.Counted)
    (fits : comparison.Fits target)
    (panic : Panic) :
    comparison.run target kernel spec ≠ .error (.panic panic) := by
  by_cases admitted : comparison.Admitted target
  · rw [Comparison.run_eq counted fits admitted]
    cases combineChanges (script comparison.base comparison.observed)
        (script comparison.base comparison.intended) with
    | none => simp
    | some combined =>
        simp only []
        cases linePostimage kernel spec (splice comparison.base 0 combined)
            comparison.mode with
        | error error => simp [refusing, Except.map, Except.mapError]
        | ok postimage => simp [refusing, Except.map, Except.mapError]
  · rw [Comparison.run_bounded counted fits (bounded_of_not_admitted admitted)]
    simp

end Comparison

section Reached

variable {target : Target} {kernel : Kernel} {spec : ArtifactFacet}
variable {base : RoleImage .base} {observed : RoleImage .observed}
variable {intended : RoleImage .intended}

theorem lines_eq_some
    {image : PortableImage} {items : List String} :
    image.lines = some items ↔ ∃ bytes text, image.bytes = some bytes ∧
      fromUtf8 bytes = some text ∧ lines text = items := by
  simp [PortableImage.lines, Option.bind_eq_some_iff]

/-- `merge_linewise` reads the lines, or refuses. -/
theorem mergeLinewise_eq
    {comparison : Comparison}
    {base observed intended : PortableImage}
    (reads : comparison.Reads base observed intended) :
    mergeLinewise target kernel spec base observed intended
        comparison.maxLines comparison.maxCells =
      comparison.run target kernel spec := by
  obtain ⟨baseLines, observedLines, intendedLines, _, _, _, baseMode,
    observedMode, intendedMode, merges⟩ := reads
  obtain ⟨baseBytes, baseText, inBase, ofBase, sameBase⟩ :=
    lines_eq_some.mp baseLines
  obtain ⟨observedBytes, observedText, inObserved, ofObserved, sameObserved⟩ :=
    lines_eq_some.mp observedLines
  obtain ⟨intendedBytes, intendedText, inIntended, ofIntended, sameIntended⟩ :=
    lines_eq_some.mp intendedLines
  simp only [mergeLinewise, inBase, inObserved, inIntended, baseMode,
    observedMode, intendedMode, merges, ofBase, ofObserved, ofIntended,
    sameBase, sameObserved, sameIntended]
  rfl

/-- A reached comparison decides the merge. -/
theorem Comparison.Reached.mergeFacet_eq
    {comparison : Comparison}
    (reached : comparison.Reached spec base observed intended) :
    mergeFacet target kernel spec base observed intended =
      comparison.run target kernel spec := by
  have facets : ¬ (base.facet ≠ spec.id ∨ observed.facet ≠ spec.id ∨
      intended.facet ≠ spec.id) := by simp [reached.facets]
  unfold mergeFacet
  rw [if_neg facets, reached.region, reached.foreign]
  simp only [refusing, Except.mapError, bind, Except.bind, reached.policy]
  exact mergeLinewise_eq reached.reads

/-- A valid image has a mode where it has bytes. -/
theorem mode_of_bytes
    {image : PortableImage} {bytes : Bytes}
    (valid : image.validate = .ok ())
    (present : image.bytes = some bytes) :
    ∃ mode, image.mode = some mode := by
  unfold PortableImage.validate at valid
  split at valid
  · cases valid
  · next agree =>
      rw [present] at agree
      exact Option.isSome_iff_exists.mp (not_not.mp agree).symm

/-- Where `merge_linewise` does not compare lines, it reports a conflict. -/
theorem mergeLinewise_cases
    {base observed intended : PortableImage}
    (valid : base.validate = .ok () ∧ observed.validate = .ok () ∧
      intended.validate = .ok ())
    (maxLines : UInt32) (maxCells : UInt64) :
    (∃ baseLines observedLines intendedLines mode,
      Comparison.Reads ⟨baseLines, observedLines, intendedLines, mode, maxLines,
        maxCells⟩ base observed intended) ∨
      ∃ reason, mergeLinewise target kernel spec base observed intended maxLines
        maxCells = .ok (.conflict reason) := by
  cases inBase : base.bytes with
  | none => exact .inr ⟨.presence, by simp only [mergeLinewise, inBase]⟩
  | some baseBytes =>
  cases inObserved : observed.bytes with
  | none => exact .inr ⟨.presence, by simp only [mergeLinewise, inBase, inObserved]⟩
  | some observedBytes =>
  cases inIntended : intended.bytes with
  | none =>
      exact .inr ⟨.presence, by
        simp only [mergeLinewise, inBase, inObserved, inIntended]⟩
  | some intendedBytes =>
  obtain ⟨baseMode, ofBase⟩ := mode_of_bytes valid.1 inBase
  obtain ⟨observedMode, ofObserved⟩ := mode_of_bytes valid.2.1 inObserved
  obtain ⟨intendedMode, ofIntended⟩ := mode_of_bytes valid.2.2 inIntended
  cases merges : mergeMode baseMode observedMode intendedMode with
  | none =>
      exact .inr ⟨.mode, by
        simp only [mergeLinewise, inBase, inObserved, inIntended, ofBase,
          ofObserved, ofIntended, merges]⟩
  | some mode =>
  cases baseText : fromUtf8 baseBytes with
  | none =>
      exact .inr ⟨.nonText, by
        simp only [mergeLinewise, inBase, inObserved, inIntended, ofBase,
          ofObserved, ofIntended, merges, baseText]⟩
  | some baseText' =>
  cases observedText : fromUtf8 observedBytes with
  | none =>
      exact .inr ⟨.nonText, by
        simp only [mergeLinewise, inBase, inObserved, inIntended, ofBase,
          ofObserved, ofIntended, merges, baseText, observedText]⟩
  | some observedText' =>
  cases intendedText : fromUtf8 intendedBytes with
  | none =>
      exact .inr ⟨.nonText, by
        simp only [mergeLinewise, inBase, inObserved, inIntended, ofBase,
          ofObserved, ofIntended, merges, baseText, observedText, intendedText]⟩
  | some intendedText' =>
      exact .inl ⟨lines baseText', lines observedText', lines intendedText',
        mode, lines_eq_some.mpr ⟨_, _, inBase, baseText, rfl⟩,
        lines_eq_some.mpr ⟨_, _, inObserved, observedText, rfl⟩,
        lines_eq_some.mpr ⟨_, _, inIntended, intendedText, rfl⟩,
        ⟨_, _, _, ofBase, ofObserved, ofIntended, merges⟩⟩

/-- The result is neither a panic nor a merge. -/
def Quiet (result : Except Failure MergeOutcome) : Prop :=
  (∀ panic, result ≠ .error (.panic panic)) ∧
    ∀ postimage, result ≠ .ok (.merged postimage)

theorem Quiet.refused
    (error : FacetError) :
    Quiet (.error (.error error)) :=
  ⟨by simp, by simp⟩

theorem Quiet.returned
    {outcome : MergeOutcome}
    (different : ∀ postimage, outcome ≠ .merged postimage) :
    Quiet (.ok outcome) :=
  ⟨by simp, by simpa using different⟩

theorem classifyTransition_valid
    (base : RoleImage .base) (observed : RoleImage .observed)
    (intended : RoleImage .intended) :
    classifyTransition base.image intended.image observed.image =
      .ok (if base.image = intended.image then
          .unchanged
        else if observed.image = intended.image then
          .intended
        else if observed.image = base.image then
          .base
        else
          .foreign) := by
  unfold classifyTransition
  rw [base.valid, observed.valid, intended.valid]
  rfl

/-- Without a comparison of lines there is neither a panic nor a merge. -/
theorem mergeFacet_cases
    (target : Target) (kernel : Kernel) (spec : ArtifactFacet)
    (base : RoleImage .base) (observed : RoleImage .observed)
    (intended : RoleImage .intended) :
    (∃ comparison : Comparison, comparison.Reached spec base observed intended) ∨
      Quiet (mergeFacet target kernel spec base observed intended) := by
  unfold mergeFacet
  by_cases facets : base.facet ≠ spec.id ∨ observed.facet ≠ spec.id ∨
      intended.facet ≠ spec.id
  · rw [if_pos facets]
    exact .inr (.refused _)
  rw [if_neg facets]
  rcases verifyIntendedRegion_cases spec base.image intended.image with
    region | region
  swap
  · rw [region]
    exact .inr (.refused _)
  rw [region]
  cases classified : classifyTransition base.image intended.image
      observed.image with
  | error error =>
      rw [classifyTransition_valid] at classified
      cases classified
  | ok state =>
  simp only [bind, Except.bind, refusing, Except.mapError]
  cases state with
  | intended => exact .inr (.returned (by simp))
  | unchanged => exact .inr (.returned (by simp))
  | base =>
      simp only []
      cases CheckedPostimage.new kernel spec intended.image with
      | error error => exact .inr (.refused error)
      | ok postimage => exact .inr (.returned (by simp))
  | foreign =>
  simp only []
  cases policy : spec.merge with
  | exact => exact .inr (.returned (by simp))
  | linewise maxLines maxCells =>
      rcases @mergeLinewise_cases target kernel spec _ _ _
        ⟨base.valid, observed.valid, intended.valid⟩ maxLines maxCells with
        ⟨baseLines, observedLines, intendedLines, mode, reads⟩ | ⟨reason, refuses⟩
      · let comparison : Comparison := ⟨baseLines, observedLines, intendedLines,
          mode, maxLines, maxCells⟩
        by_cases counted : comparison.Counted
        · rw [not_or, not_or, not_not, not_not, not_not] at facets
          exact .inl ⟨comparison, facets, region, classified, policy, reads,
            counted⟩
        · have uncounted := @Comparison.not_counted target kernel spec comparison
            counted
          rw [← mergeLinewise_eq reads] at uncounted
          simp only []
          rw [uncounted]
          exact .inr (.returned (by simp))
      · simp only []
        rw [refuses]
        exact .inr (.returned (by simp))

theorem isLines_of_lines
    {image : PortableImage} {items : List String}
    (known : image.lines = some items) :
    IsLines items := by
  obtain ⟨_, text, _, _, same⟩ := lines_eq_some.mp known
  rw [← same]
  exact isLines_lines text

/-- Merged lines are lines. -/
theorem Comparison.Reads.merged_shape
    {comparison : Comparison} {base observed intended : PortableImage}
    {combined : List (Change String)}
    (reads : comparison.Reads base observed intended)
    (both : Combined (script comparison.base comparison.observed)
      (script comparison.base comparison.intended) combined) :
    IsLines (splice comparison.base 0 combined) := by
  have leftScript := spaced_script comparison.base comparison.observed
  have rightScript := spaced_script comparison.base comparison.intended
  have threeWay := both.threeWay leftScript rightScript comparison.base
  have observedShape := isLines_of_lines reads.observedLines
  have intendedShape := isLines_of_lines reads.intendedLines
  constructor
  · intro line member
    rcases threeWay.mem member with inObserved | inIntended
    · rw [splice_script] at inObserved
      exact observedShape.each line inObserved
    · rw [splice_script] at inIntended
      exact intendedShape.each line inIntended
  · apply both.closed leftScript rightScript
    · rw [splice_script]
      exact observedShape.closed
    · rw [splice_script]
      exact intendedShape.closed

/-- What a merge has combined, and the image that it leaves. -/
structure Comparison.Merges (comparison : Comparison) (target : Target)
    (kernel : Kernel) (spec : ArtifactFacet) (postimage : CheckedPostimage)
    (combined : List (Change String)) : Prop where
  fits : comparison.Fits target
  admitted : comparison.Admitted target
  both : Combined (script comparison.base comparison.observed)
    (script comparison.base comparison.intended) combined
  made : linePostimage kernel spec (splice comparison.base 0 combined)
    comparison.mode = .ok postimage
  image : postimage.image =
    ⟨some (utf8 (String.join (splice comparison.base 0 combined))),
      some comparison.mode⟩

/-- A merge leaves the combined changes. -/
theorem Comparison.merges_of_run
    {comparison : Comparison} {postimage : CheckedPostimage}
    (counted : comparison.Counted)
    (merged : comparison.run target kernel spec = .ok (.merged postimage)) :
    ∃ combined, comparison.Merges target kernel spec postimage combined := by
  have leftScript := spaced_script comparison.base comparison.observed
  have rightScript := spaced_script comparison.base comparison.intended
  have fits : comparison.Fits target := by
    by_contra large
    rw [Comparison.run_panics counted large] at merged
    cases merged
  by_cases admitted : comparison.Admitted target
  swap
  · rw [Comparison.run_bounded counted fits (bounded_of_not_admitted admitted)]
      at merged
    cases merged
  rw [Comparison.run_eq counted fits admitted] at merged
  cases combines : combineChanges (script comparison.base comparison.observed)
      (script comparison.base comparison.intended) with
  | none =>
      rw [combines] at merged
      cases merged
  | some combined =>
      rw [combines] at merged
      simp only [] at merged
      have made : linePostimage kernel spec (splice comparison.base 0 combined)
          comparison.mode = .ok postimage := by
        cases result : linePostimage kernel spec
            (splice comparison.base 0 combined) comparison.mode with
        | error error =>
            rw [result] at merged
            cases merged
        | ok made =>
            rw [result] at merged
            cases merged
            rfl
      exact ⟨combined, fits, admitted,
        (combined_of_combineChanges leftScript rightScript combines).2, made,
        image_of_linePostimage made⟩

/-- The lines of the postimage are the merged lines. -/
theorem Comparison.Merges.lines
    {comparison : Comparison} {base observed intended : PortableImage}
    {postimage : CheckedPostimage} {combined : List (Change String)}
    (merges : comparison.Merges target kernel spec postimage combined)
    (reads : comparison.Reads base observed intended) :
    postimage.image.lines = some (splice comparison.base 0 combined) := by
  rw [merges.image]
  exact lines_eq_some.mpr ⟨_, _, rfl, fromUtf8_utf8 _,
    lines_join (reads.merged_shape merges.both)⟩

/-- A merge of compared lines merges the images. -/
theorem Comparison.Reads.merges
    {comparison : Comparison}
    {base observed intended : PortableImage} {postimage : CheckedPostimage}
    (reads : comparison.Reads base observed intended)
    (counted : comparison.Counted)
    (merged : comparison.run target kernel spec = .ok (.merged postimage)) :
    MergesImages base observed intended postimage.image := by
  obtain ⟨combined, merges⟩ := Comparison.merges_of_run counted merged
  constructor
  · have threeWay := merges.both.threeWay
      (spaced_script comparison.base comparison.observed)
      (spaced_script comparison.base comparison.intended) comparison.base
    rw [splice_script, splice_script] at threeWay
    exact ⟨_, _, _, _, reads.baseLines, reads.observedLines,
      reads.intendedLines, merges.lines reads, threeWay⟩
  · obtain ⟨_, _, _, ofBase, ofObserved, ofIntended, modes⟩ := reads.mode
    refine ⟨_, _, _, _, ofBase, ofObserved, ofIntended, ?_,
      reconciled_mergeMode modes⟩
    rw [merges.image]

end Reached

section Soundness

variable (target : Target) (kernel : Kernel) (spec : ArtifactFacet)
variable (base : RoleImage .base) (observed : RoleImage .observed)
variable (intended : RoleImage .intended)

/-- The merge does not panic, and what it merges is a three-way merge. -/
def MergesSoundly : Prop :=
  (∀ panic, mergeFacet target kernel spec base observed intended ≠
      .error (.panic panic)) ∧
    ∀ postimage, mergeFacet target kernel spec base observed intended =
        .ok (.merged postimage) →
      MergesImages base.image observed.image intended.image postimage.image

/-- A comparison that the merge comes to asks for no table too large. -/
def TablesFit : Prop :=
  ∀ comparison : Comparison, comparison.Reached spec base observed intended →
    comparison.Fits target

/-- A cell bound within an allocation keeps every table within one. -/
theorem tablesFit_of_small
    {maxLines : UInt32} {maxCells : UInt64}
    (policy : spec.merge = .linewise maxLines maxCells)
    (small : 4 * maxCells.toNat ≤ target.isizeMax) :
    TablesFit target spec base observed intended := by
  intro comparison reached
  have same := policy.symm.trans reached.policy
  simp only [MergePolicy.linewise.injEq] at same
  have fits {side : List String} {size : Nat}
      (admitted : tableSize comparison.base side target comparison.maxCells =
        some size) : 4 * size ≤ target.isizeMax := by
    obtain ⟨_, _, _, _, bounded, _⟩ := tableSize_eq_some.mp admitted
    rw [← same.2] at bounded
    exact (Nat.mul_le_mul_left 4 bounded).trans small
  exact fun size admitted => ⟨fits admitted, fun other again => fits again⟩

/-- The merge is sound exactly where its tables can be allocated. -/
theorem mergesSoundly_iff :
    MergesSoundly target kernel spec base observed intended ↔
      TablesFit target spec base observed intended := by
  constructor
  · intro sound comparison reached
    by_contra large
    apply sound.1 .capacity
    rw [reached.mergeFacet_eq]
    exact Comparison.run_panics reached.counted large
  · intro fit
    rcases mergeFacet_cases target kernel spec base observed intended with
      ⟨comparison, reached⟩ | quiet
    · have fits := fit comparison reached
      rw [MergesSoundly, reached.mergeFacet_eq]
      exact ⟨Comparison.run_calm reached.counted fits, fun _ =>
        reached.reads.merges reached.counted⟩
    · exact ⟨quiet.1, fun postimage merged => absurd merged (quiet.2 postimage)⟩

end Soundness

section ManyLines

/-- A file of empty lines. -/
def newlines (count : Nat) : PortableImage :=
  textFile (String.ofList (List.replicate count '\n'))

theorem splitInclusive_newlines
    (count : Nat) :
    splitInclusive (List.replicate count '\n') = List.replicate count ['\n'] := by
  induction count with
  | zero => rfl
  | succ count inductionHypothesis =>
      rw [List.replicate_succ, List.replicate_succ, splitInclusive, if_pos rfl,
        inductionHypothesis]

theorem newlines_lines
    (count : Nat) :
    (newlines count).lines = some (List.replicate count "\n") := by
  refine lines_eq_some.mpr ⟨_, _, rfl, fromUtf8_utf8 _, ?_⟩
  rw [lines_eq, String.toList_ofList, splitInclusive_newlines,
    List.map_replicate]

theorem newlines_injective
    {first second : Nat}
    (same : newlines first = newlines second) :
    first = second := by
  have bytes := Option.some.inj (congrArg PortableImage.bytes same)
  have texts := String.ofList_injective (utf8_injective bytes)
  simpa using congrArg List.length texts

/-- The sample facet with the widest bounds. -/
def widestFacet : Except FacetError ArtifactFacet :=
  sampleFacet (.exactPath "src/lib.rs")
    (.linewise 4294967295 18446744073709551615)

theorem widestFacet_made :
    (sampleFacet (.exactPath "src/lib.rs")
      (.linewise 4294967295 18446744073709551615)).toOption.isSome := by
  decide +kernel

/-- The comparison of three files of empty lines. -/
def emptyLines (count : Nat) : Comparison :=
  ⟨List.replicate count "\n", List.replicate (count + 1) "\n",
    List.replicate (count + 2) "\n", 0o644, 4294967295, 18446744073709551615⟩

/-- Images of so many empty lines pass all checks, and their merge panics. -/
def PanicsFrom (target : Target) (count : Nat) : Prop :=
  ∃ spec base observed intended, widestFacet = .ok spec ∧
    RoleImage.check Reference.kernel .base spec (newlines count) = .ok base ∧
    RoleImage.check Reference.kernel .observed spec (newlines (count + 1)) =
      .ok observed ∧
    RoleImage.check Reference.kernel .intended spec (newlines (count + 2)) =
      .ok intended ∧
    mergeFacet target Reference.kernel spec base observed intended =
      .error (.panic .capacity) ∧
    ¬ MergesSoundly target Reference.kernel spec base observed intended

theorem newlines_valid
    (count : Nat) :
    (newlines count).validate = .ok () :=
  textFile_valid _

theorem panicsFrom
    {target : Target} {count : Nat}
    (counted : count + 2 ≤ 4294967295)
    (admitted : (count + 1) * (count + 2) ≤ 18446744073709551615 ∧
      (count + 1) * (count + 2) ≤ target.usizeMax)
    (large : target.isizeMax < 4 * ((count + 1) * (count + 2))) :
    PanicsFrom target count := by
  obtain ⟨spec, made, region, policy⟩ := sampleFacet_ok widestFacet_made
  obtain ⟨base, ofBase, baseImage, baseFacet⟩ := reference_identifying.check_ok
    (newlines_valid count) .base spec
  obtain ⟨observed, ofObserved, observedImage, observedFacet⟩ :=
    reference_identifying.check_ok (newlines_valid (count + 1)) .observed spec
  obtain ⟨intended, ofIntended, intendedImage, intendedFacet⟩ :=
    reference_identifying.check_ok (newlines_valid (count + 2)) .intended spec
  have reached : (emptyLines count).Reached spec base observed intended := by
    refine ⟨⟨baseFacet, observedFacet, intendedFacet⟩, ?_, ?_, policy, ?_, ?_⟩
    · rw [verifyIntendedRegion, region]
    · rw [classifyTransition_valid, baseImage, observedImage, intendedImage]
      rw [if_neg fun same => by simpa using newlines_injective same,
        if_neg fun same => by simpa using newlines_injective same,
        if_neg fun same => by simpa using newlines_injective same]
    · rw [baseImage, observedImage, intendedImage]
      exact ⟨newlines_lines _, newlines_lines _, newlines_lines _,
        _, _, _, rfl, rfl, rfl, rfl⟩
    · intro items member
      simp only [emptyLines, List.mem_cons, List.not_mem_nil, or_false] at member
      have size : items.length ≤ count + 2 := by
        rcases member with rfl | rfl | rfl <;> simp
      have limit : (4294967295 : UInt32).toNat = 4294967295 := by decide
      rw [emptyLines, limit]
      exact size.trans counted
  have panics : mergeFacet target Reference.kernel spec base observed intended =
      .error (.panic .capacity) := by
    rw [reached.mergeFacet_eq]
    apply Comparison.run_panics reached.counted
    intro fits
    have size : tableSize (emptyLines count).base (emptyLines count).observed
        target (emptyLines count).maxCells =
          some ((count + 1) * (count + 2)) := by
      have rows : count + 1 ≤ target.usizeMax :=
        (Nat.le_mul_of_pos_right _ (Nat.succ_pos _)).trans admitted.2
      have columns : count + 2 ≤ target.usizeMax :=
        (Nat.le_mul_of_pos_left _ (Nat.succ_pos _)).trans admitted.2
      have limit : (18446744073709551615 : UInt64).toNat =
          18446744073709551615 := by decide
      simp only [tableSize_eq_some, emptyLines, List.length_replicate, limit]
      exact ⟨trivial, rows, columns, admitted.1.trans_lt (by decide), admitted.1,
        admitted.2⟩
    exact absurd (fits _ size).1 (Nat.not_le.mpr large)
  exact ⟨spec, base, observed, intended, made, ofBase, ofObserved, ofIntended,
    panics, fun sound => sound.1 .capacity panics⟩

/-- Some thousand lines are too many for 32 bits, some billion for 64 bits. -/
theorem many_lines_panic :
    PanicsFrom .bits32 23170 ∧ PanicsFrom .bits64 1518500249 :=
  ⟨panicsFrom (by decide) (by decide) (by decide),
    panicsFrom (by decide) (by decide) (by decide)⟩

end ManyLines

end SimStorage.Facet
