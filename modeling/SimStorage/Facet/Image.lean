import SimStorage.Codec.Text
import SimStorage.Kernel.Datum

namespace SimStorage.Facet

/-!
# Images, regions and facets

A facet fixes a region and a merge policy; an image is checked for one facet
and one role before it can be compared.
-/

open Codec

/-- `FacetError`. -/
inductive FacetError where
  | invalidImage
  | invalidMode
  | invalidRegion
  | outOfRegion
  | invalidMergePolicy
  | wrongOwner
  | wrongFacet
  | noncanonicalIdentity
  | boundExceeded (bound : String)
  deriving Repr, DecidableEq

section Identity

/-- The kinds of semantic identities. -/
inductive IdKind where
  | artifact
  | owner
  | region
  | projection
  | mergePolicy
  | disclosure
  | facet
  | image
  | baseImage
  | observedImage
  | intendedImage
  | postimage
  deriving Repr, DecidableEq

/-- `FacetIdKind::DOMAIN`. -/
def IdKind.domain : IdKind → String
  | .artifact => "artifact/facet-artifact-v1"
  | .owner => "artifact/facet-owner-v1"
  | .region => "artifact/facet-region-v1"
  | .projection => "artifact/facet-projection-v1"
  | .mergePolicy => "artifact/facet-merge-policy-v1"
  | .disclosure => "artifact/facet-disclosure-v1"
  | .facet => "artifact/facet-v1"
  | .image => "artifact/image-v1"
  | .baseImage => "artifact/base-image-v1"
  | .observedImage => "artifact/observed-image-v1"
  | .intendedImage => "artifact/intended-image-v1"
  | .postimage => "artifact/checked-postimage-v1"

/-- `FacetSemanticId`: an identity of one kind. -/
structure SemanticId (kind : IdKind) where
  raw : ContentId
  deriving Repr, DecidableEq

/-- `domain_symbol`. -/
def domainSymbol (domain : String) : Except FacetError Symbol :=
  match splitOnce '/' domain with
  | none => .error .noncanonicalIdentity
  | some (space, name) =>
      if '/' ∈ name.toList ∨ space = "" ∨ name = "" then
        .error .noncanonicalIdentity
      else
        .ok (.qualified space name)

/-- `number`. -/
def number (value : UInt64) : Datum :=
  .number ⟨.qualified "numbers" "u64", toString value⟩

/-- `content_id_datum`. -/
def contentIdDatum (id : ContentId) : Datum :=
  .node (.qualified "artifact" "content-id-v1")
    [(.qualified "artifact" "algorithm", .symbol id.algorithm),
      (.qualified "artifact" "digest", .bytes id.digest.val)]

/-- `FacetSemanticId::datum`. -/
def SemanticId.datum {kind : IdKind} (id : SemanticId kind) : Datum :=
  contentIdDatum id.raw

variable (kernel : Kernel)

/-- `field`. -/
def field (name : String) (value : Datum) : Except FacetError (Symbol × Datum) :=
  match kernel.checked name with
  | some symbol => .ok (.qualified "artifact" symbol.name, value)
  | none => .error .noncanonicalIdentity

/-- `FacetSemanticId::from_fields`. -/
def SemanticId.fromFields (kind : IdKind) (fields : List (Symbol × Datum)) :
    Except FacetError (SemanticId kind) := do
  if ¬ (fields.map Prod.fst).Nodup then
    .error .noncanonicalIdentity
  else
    let tag ← domainSymbol kind.domain
    match kernel.contentId (.node tag fields) with
    | some raw => .ok ⟨raw⟩
    | none => .error .noncanonicalIdentity

end Identity

section Regions

/-- `RegionSelector`; `stop` is the exclusive end. -/
inductive RegionSelector where
  | exactPath (path : String)
  | lineRange (path : String) (start stop : UInt32)
  deriving Repr, DecidableEq

/-- `MergePolicy`. -/
inductive MergePolicy where
  | exact
  | linewise (maxLines : UInt32) (maxCells : UInt64)
  deriving Repr, DecidableEq

/-- `RegionOwnership`. -/
inductive RegionOwnership where
  | authored
  | generated (generator : SemanticId .owner)
  deriving Repr, DecidableEq

/-- The parts of a path between slashes. -/
def pathParts : List Char → List (List Char)
  | [] => [[]]
  | head :: rest =>
      if head = '/' then
        [] :: pathParts rest
      else
        match pathParts rest with
        | [] => [[head]]
        | part :: parts => (head :: part) :: parts

/-- `validate_path`. -/
def validatePath (path : String) : Except FacetError Unit :=
  if path = "" ∨ (utf8 path).length > 4096 ∨ path.toList.head? = some '/' ∨
      '\\' ∈ path.toList ∨
      ∃ part ∈ pathParts path.toList, part = [] ∨ part = ['.'] ∨
        part = ['.', '.'] then
    .error .invalidRegion
  else
    .ok ()

/-- The range of a region is not empty. -/
def RegionSelector.Selects : RegionSelector → Prop
  | .exactPath _ => True
  | .lineRange _ start stop => start < stop

instance (region : RegionSelector) : Decidable region.Selects :=
  match region with
  | .exactPath _ => .isTrue trivial
  | .lineRange _ start stop => inferInstanceAs (Decidable (start < stop))

variable (kernel : Kernel)

/-- `RegionSelector::id`. -/
def RegionSelector.id (region : RegionSelector) :
    Except FacetError (SemanticId .region) := do
  if ¬ region.Selects then
    .error .invalidRegion
  else
    let (path, start, stop) :=
      match region with
      | .exactPath path => (path, Datum.nil, Datum.nil)
      | .lineRange path start stop =>
          (path, number start.toUInt64, number stop.toUInt64)
    validatePath path
    let fields ← [("path", Datum.string path), ("start", start), ("end", stop)]
      |>.mapM fun (name, value) => field kernel name value
    SemanticId.fromFields kernel .region fields

/-- `MergePolicy::id`. -/
def MergePolicy.id :
    MergePolicy → Except FacetError (SemanticId .mergePolicy)
  | .exact => identify "exact" .nil .nil
  | .linewise maxLines maxCells =>
      if maxLines > 0 ∧ maxCells > 0 then
        identify "linewise" (number maxLines.toUInt64) (number maxCells)
      else
        .error .invalidMergePolicy
where
  identify (kind : String) (lines cells : Datum) :
      Except FacetError (SemanticId .mergePolicy) := do
    let fields ← [("kind", Datum.string kind), ("max-lines", lines),
      ("max-cells", cells)].mapM fun (name, value) => field kernel name value
    SemanticId.fromFields kernel .mergePolicy fields

/-- `ArtifactFacet`. -/
structure ArtifactFacet where
  id : SemanticId .facet
  artifact : SemanticId .artifact
  owner : SemanticId .owner
  region : RegionSelector
  projection : SemanticId .projection
  merge : MergePolicy
  disclosure : SemanticId .disclosure
  ownership : RegionOwnership
  selects : region.Selects

/-- A generated region names its owner. -/
def RegionOwnership.Names (owner : SemanticId .owner) : RegionOwnership → Prop
  | .authored => True
  | .generated generator => generator = owner

instance (owner : SemanticId .owner) (ownership : RegionOwnership) :
    Decidable (ownership.Names owner) :=
  match ownership with
  | .authored => .isTrue trivial
  | .generated generator => inferInstanceAs (Decidable (generator = owner))

/-- `ArtifactFacet::new`. -/
def ArtifactFacet.new (artifact : SemanticId .artifact)
    (owner : SemanticId .owner) (region : RegionSelector)
    (projection : SemanticId .projection) (merge : MergePolicy)
    (disclosure : SemanticId .disclosure) (ownership : RegionOwnership) :
    Except FacetError ArtifactFacet := do
  if ¬ ownership.Names owner then
    .error .wrongOwner
  else
    let regionId ← region.id kernel
    let mergeId ← merge.id kernel
    let ownershipValue :=
      match ownership with
      | .authored => Datum.string "authored"
      | .generated generator => generator.datum
    let fields ← [("artifact", artifact.datum), ("owner", owner.datum),
      ("region", regionId.datum), ("projection", projection.datum),
      ("merge", mergeId.datum), ("disclosure", disclosure.datum),
      ("ownership", ownershipValue)].mapM fun (name, value) =>
        field kernel name value
    let id ← SemanticId.fromFields kernel .facet fields
    if selects : region.Selects then
      .ok ⟨id, artifact, owner, region, projection, merge, disclosure, ownership,
        selects⟩
    else
      .error .invalidRegion

end Regions

section Images

/-- `PortableImage`. -/
structure PortableImage where
  bytes : Option Bytes
  mode : Option UInt32
  deriving Repr, DecidableEq

/-- `PortableImage::absent`. -/
def PortableImage.absent : PortableImage :=
  ⟨none, none⟩

/-- `PortableImage::validate`. -/
def PortableImage.validate (image : PortableImage) : Except FacetError Unit :=
  if image.bytes.isSome ≠ image.mode.isSome then
    .error .invalidImage
  else if ∃ mode ∈ image.mode, mode &&& ~~~ 0o777 ≠ 0 then
    .error .invalidMode
  else
    .ok ()

/-- `PortableImage::file`. -/
def PortableImage.file (bytes : Bytes) (mode : UInt32) :
    Except FacetError PortableImage := do
  let value : PortableImage := ⟨some bytes, some mode⟩
  value.validate
  return value

variable (kernel : Kernel)

/-- `PortableImage::id`. -/
def PortableImage.id (image : PortableImage) :
    Except FacetError (SemanticId .image) := do
  image.validate
  let (present, mode, bytes) :=
    match image.bytes, image.mode with
    | some bytes, some mode => (true, number mode.toUInt64, Datum.bytes bytes)
    | _, _ => (false, Datum.nil, Datum.nil)
  let fields ← [("present", Datum.bool present), ("mode", mode),
    ("bytes", bytes)].mapM fun (name, value) => field kernel name value
  SemanticId.fromFields kernel .image fields

/-- The roles of images. -/
inductive Role where
  | base
  | observed
  | intended
  deriving Repr, DecidableEq

/-- `ImageRole::Kind`. -/
def Role.kind : Role → IdKind
  | .base => .baseImage
  | .observed => .observedImage
  | .intended => .intendedImage

/-- The identity of an image in a facet. -/
def identifyImage (kind : IdKind) (spec : ArtifactFacet) (image : PortableImage) :
    Except FacetError (SemanticId kind) := do
  let imageId ← image.id kernel
  let fields ← [("facet", spec.id.datum), ("image", imageId.datum)].mapM
    fun (name, value) => field kernel name value
  SemanticId.fromFields kernel kind fields

/-- `RoleImage`: an image checked for one facet and one role. -/
structure RoleImage (role : Role) where
  id : SemanticId role.kind
  facet : SemanticId .facet
  image : PortableImage
  valid : image.validate = .ok ()

/-- `RoleImage::check`. -/
def RoleImage.check (role : Role) (spec : ArtifactFacet)
    (image : PortableImage) : Except FacetError (RoleImage role) := do
  if valid : image.validate = .ok () then
    let id ← identifyImage kernel role.kind spec image
    return ⟨id, spec.id, image, valid⟩
  else
    image.validate
    .error .invalidImage

/-- `CheckedPostimage`. -/
structure CheckedPostimage where
  id : SemanticId .postimage
  image : PortableImage
  deriving Repr, DecidableEq

/-- `CheckedPostimage::new`. -/
def CheckedPostimage.new (spec : ArtifactFacet) (image : PortableImage) :
    Except FacetError CheckedPostimage := do
  let id ← identifyImage kernel .postimage spec image
  return ⟨id, image⟩

end Images

end SimStorage.Facet
