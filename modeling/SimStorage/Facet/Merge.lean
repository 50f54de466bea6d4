import SimStorage.Facet.Image
import SimStorage.Facet.Lines
import SimStorage.Diff.Script

namespace SimStorage.Facet

/-!
# The merge law

Exact comparison and the bounded linewise three-way merge.  Where the code can
panic the run has that panic as its result, so that a run without one is a
statement about runs and not an assumption.
-/

open Codec Diff

/-- `TransitionState`. -/
inductive TransitionState where
  | unchanged
  | base
  | intended
  | foreign
  deriving Repr, DecidableEq

/-- `classify_transition`. -/
def classifyTransition (base intended observed : PortableImage) :
    Except FacetError TransitionState := do
  base.validate
  intended.validate
  observed.validate
  return if base = intended then
      .unchanged
    else if observed = intended then
      .intended
    else if observed = base then
      .base
    else
      .foreign

/-- `ConflictReason`. -/
inductive ConflictReason where
  | bothChanged
  | presence
  | mode
  | nonText
  | workBound
  | overlap
  deriving Repr, DecidableEq

/-- `MergeOutcome`. -/
inductive MergeOutcome where
  | alreadyTrue
  | unchanged (retained : SemanticId .observedImage)
  | apply (postimage : CheckedPostimage)
  | merged (postimage : CheckedPostimage)
  | conflict (reason : ConflictReason)
  deriving Repr, DecidableEq

/-- The panics that the code can come to. -/
inductive Panic where
  | sliceRange
  | indexBounds
  | overflow
  | capacity
  | expectation
  deriving Repr, DecidableEq

/-- A refusal or a panic. -/
inductive Failure where
  | error (error : FacetError)
  | panic (panic : Panic)
  deriving Repr, DecidableEq

/-- A refusal inside a run. -/
def refusing {α : Type} (result : Except FacetError α) : Except Failure α :=
  result.mapError Failure.error

/-- The pointer widths that the code is compiled for. -/
inductive Target where
  | bits32
  | bits64
  deriving Repr, DecidableEq

/-- `usize::MAX`. -/
def Target.usizeMax : Target → Nat
  | .bits32 => 2 ^ 32 - 1
  | .bits64 => 2 ^ 64 - 1

/-- `isize::MAX`, the most bytes that one allocation can have. -/
def Target.isizeMax : Target → Nat
  | .bits32 => 2 ^ 31 - 1
  | .bits64 => 2 ^ 63 - 1

section Access

variable {α : Type}

/-- `items[start..stop]`. -/
def sliced (items : List α) (start stop : Nat) : Except Failure (List α) :=
  if start ≤ stop ∧ stop ≤ items.length then
    .ok (slice items start stop)
  else
    .error (.panic .sliceRange)

/-- `items[index]`. -/
def load (items : List α) (index : Nat) : Except Failure α :=
  match items[index]? with
  | some item => .ok item
  | none => .error (.panic .indexBounds)

/-- `items[index] = value`. -/
def store (items : List α) (index : Nat) (value : α) :
    Except Failure (List α) :=
  if index < items.length then
    .ok (items.set index value)
  else
    .error (.panic .indexBounds)

/-- The value if it is within a bound: `checked_add` and `checked_mul`. -/
def checked (bound value : Nat) : Option Nat :=
  if value ≤ bound then some value else none

end Access

section Region

/-- The comparison of lines in `verify_intended_region`. -/
def verifyLines (baseLines intendedLines : List String) (start stop : Nat) :
    Except Failure Unit := do
  if stop > baseLines.length then
    .error (.error .outOfRegion)
  else
    let suffixLength := baseLines.length - stop
    -- At most as many as the base has, so that the addition does not saturate.
    if intendedLines.length < start + suffixLength then
      .error (.error .outOfRegion)
    else if (← sliced intendedLines 0 start) ≠ (← sliced baseLines 0 start) then
      .error (.error .outOfRegion)
    else if intendedLines.length < suffixLength then
      .error (.panic .overflow)
    else if (← sliced intendedLines (intendedLines.length - suffixLength)
          intendedLines.length) ≠
        (← sliced baseLines stop baseLines.length) then
      .error (.error .outOfRegion)
    else
      .ok ()

/-- `verify_intended_region`. -/
def verifyIntendedRegion (spec : ArtifactFacet)
    (base intended : PortableImage) : Except Failure Unit :=
  match spec.region with
  | .exactPath _ => .ok ()
  | .lineRange _ start stop =>
      match base.bytes, intended.bytes with
      | some baseBytes, some intendedBytes =>
          if base.mode ≠ intended.mode then
            .error (.error .outOfRegion)
          else
            match fromUtf8 baseBytes, fromUtf8 intendedBytes with
            | some baseText, some intendedText =>
                verifyLines (lines baseText) (lines intendedText)
                  start.toNat stop.toNat
            | _, _ => .error (.error .outOfRegion)
      | _, _ => .error (.error .outOfRegion)

end Region

section Changes

variable (base side : List String)

/-- The position of a row and a column in the table. -/
def cell (row column : Nat) : Nat :=
  row * (side.length + 1) + column

/-- The value that the table gets at a row and a column. -/
def entry (lengths : List Nat) (row column : Nat) : Except Failure Nat := do
  if (← load base row) = (← load side column) then
    let diagonal ← load lengths (cell side (row + 1) (column + 1))
    if diagonal + 1 < 2 ^ 32 then
      .ok (diagonal + 1)
    else
      .error (.panic .overflow)
  else
    let below ← load lengths (cell side (row + 1) column)
    let right ← load lengths (cell side row (column + 1))
    .ok (max below right)

/-- The inner loop of the table: the columns below a bound, from the last. -/
def fillRow (row : Nat) : Nat → List Nat → Except Failure (List Nat)
  | 0, lengths => .ok lengths
  | column + 1, lengths => do
      let value ← entry base side lengths row column
      let lengths ← store lengths (cell side row column) value
      fillRow row column lengths

/-- The outer loop of the table: the rows below a bound, from the last. -/
def fillTable : Nat → List Nat → Except Failure (List Nat)
  | 0, lengths => .ok lengths
  | row + 1, lengths => do
      let lengths ← fillRow base side row side.length lengths
      fillTable row lengths

/-- The walk through the table, with the position that ends it. -/
def walk (lengths : List Nat) (row column : Nat) :
    Except Failure (List (Nat × Nat)) :=
  if inside : row < base.length ∧ column < side.length then do
    if (← load base row) = (← load side column) then
      let later ← walk lengths (row + 1) (column + 1)
      return (row, column) :: later
    else
      let below ← load lengths (cell side (row + 1) column)
      let right ← load lengths (cell side row (column + 1))
      if right ≤ below then
        walk lengths (row + 1) column
      else
        walk lengths row (column + 1)
  else
    return [(base.length, side.length)]
termination_by (base.length - row) + (side.length - column)

/-- The changes between the matched positions. -/
def hunks (baseCursor sideCursor : Nat) :
    List (Nat × Nat) → Except Failure (List (Change String))
  | [] => .ok []
  | (baseMatch, sideMatch) :: rest => do
      let own ←
        if baseCursor ≠ baseMatch ∨ sideCursor ≠ sideMatch then do
          let replacement ← sliced side sideCursor sideMatch
          pure [⟨baseCursor, baseMatch, replacement⟩]
        else
          pure []
      let later ← hunks (min (baseMatch + 1) base.length)
        (min (sideMatch + 1) side.length) rest
      return own ++ later

/-- The number of cells of the table, if the bounds admit it. -/
def tableSize (target : Target) (maxCells : UInt64) : Option Nat := do
  let rows ← checked target.usizeMax (base.length + 1)
  let columns ← checked target.usizeMax (side.length + 1)
  let cells ← checked (2 ^ 64 - 1) (rows * columns)
  if cells > maxCells.toNat then
    none
  else
    checked target.usizeMax (rows * columns)

/-- `changes`; `none` is exceeded work. -/
def changes (target : Target) (maxCells : UInt64) :
    Except Failure (Option (List (Change String))) :=
  match tableSize base side target maxCells with
  | none => .ok none
  | some size => do
      -- `vec![0u32; size]`
      if 4 * size > target.isizeMax then
        .error (.panic .capacity)
      else
        let lengths ← fillTable base side base.length (List.replicate size 0)
        let positions ← walk base side lengths 0 0
        let found ← hunks base side 0 0 positions
        return some found

end Changes

section Combination

/-- `overlaps`. -/
def overlaps (left right : Change String) : Bool :=
  match decide (left.start = left.stop), decide (right.start = right.stop) with
  | true, true => left.start = right.start
  | true, false => left.start ≥ right.start ∧ left.start ≤ right.stop
  | false, true => right.start ≥ left.start ∧ right.start ≤ left.stop
  | false, false => left.start < right.stop ∧ right.start < left.stop

/-- The order in which the changes are sorted. -/
def sortsBefore (left right : Change String) : Bool :=
  left.start < right.start ∨ left.start = right.start ∧ left.stop ≤ right.stop

/-- `combine_changes`; `none` is an overlap. -/
def combineChanges (left : List (Change String)) :
    List (Change String) → Option (List (Change String))
  | [] => some (left.mergeSort sortsBefore)
  | candidate :: right =>
      if candidate ∈ left then
        combineChanges left right
      else if left.any fun change => overlaps change candidate then
        none
      else
        combineChanges (left ++ [candidate]) right

/-- The loop that puts the changes into the base. -/
def applyChanges (base : List String) (cursor : Nat) :
    List (Change String) → Except Failure (List String)
  | [] => sliced base cursor base.length
  | change :: rest => do
      let kept ← sliced base cursor change.start
      let later ← applyChanges base change.stop rest
      return kept ++ change.replacement ++ later

/-- `merge_mode`. -/
def mergeMode (base observed intended : UInt32) : Option UInt32 :=
  if observed = intended then
    some observed
  else if observed = base then
    some intended
  else if intended = base then
    some observed
  else
    none

end Combination

section Law

variable (target : Target) (kernel : Kernel) (spec : ArtifactFacet)

/-- The part of `merge_linewise` that works on lines. -/
def mergeLines (base observed intended : List String) (mode : UInt32)
    (maxLines : UInt32) (maxCells : UInt64) : Except Failure MergeOutcome := do
  if ∃ count ∈ [base.length, observed.length, intended.length],
      count > maxLines.toNat then
    return .conflict .workBound
  else
    let some observedChanges ← changes base observed target maxCells
      | return .conflict .workBound
    let some intendedChanges ← changes base intended target maxCells
      | return .conflict .workBound
    let some combined := combineChanges observedChanges intendedChanges
      | return .conflict .overlap
    let merged ← applyChanges base 0 combined
    let image ← refusing (PortableImage.file (utf8 (String.join merged)) mode)
    let postimage ← refusing (CheckedPostimage.new kernel spec image)
    return .merged postimage

/-- `merge_linewise`. -/
def mergeLinewise (base observed intended : PortableImage)
    (maxLines : UInt32) (maxCells : UInt64) : Except Failure MergeOutcome :=
  match base.bytes, observed.bytes, intended.bytes with
  | some baseBytes, some observedBytes, some intendedBytes =>
      match base.mode, observed.mode, intended.mode with
      | some baseMode, some observedMode, some intendedMode =>
          match mergeMode baseMode observedMode intendedMode with
          | none => .ok (.conflict .mode)
          | some mode =>
              match fromUtf8 baseBytes, fromUtf8 observedBytes,
                fromUtf8 intendedBytes with
              | some baseText, some observedText, some intendedText =>
                  mergeLines target kernel spec (lines baseText)
                    (lines observedText) (lines intendedText) mode maxLines
                    maxCells
              | _, _, _ => .ok (.conflict .nonText)
      | _, _, _ => .error (.panic .expectation)
  | _, _, _ => .ok (.conflict .presence)

/-- `merge_facet`. -/
def mergeFacet (base : RoleImage .base) (observed : RoleImage .observed)
    (intended : RoleImage .intended) : Except Failure MergeOutcome := do
  if base.facet ≠ spec.id ∨ observed.facet ≠ spec.id ∨
      intended.facet ≠ spec.id then
    .error (.error .wrongFacet)
  else
    verifyIntendedRegion spec base.image intended.image
    match ← refusing
      (classifyTransition base.image intended.image observed.image) with
    | .intended => return .alreadyTrue
    | .unchanged => return .unchanged observed.id
    | .base =>
        let postimage ← refusing
          (CheckedPostimage.new kernel spec intended.image)
        return .apply postimage
    | .foreign =>
        match spec.merge with
        | .exact => return .conflict .bothChanged
        | .linewise maxLines maxCells =>
            mergeLinewise target kernel spec base.image observed.image
              intended.image maxLines maxCells

end Law

end SimStorage.Facet
