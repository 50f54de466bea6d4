import SimStorage.Facet.Image
import SimStorage.Kernel.Reference

namespace SimStorage.Facet

/-!
# Images have identities

The kernel identifies every record of distinct fields with canonical values, so
a valid image passes its check and a valid postimage is made.
-/

open Codec Journal.DatumCodec

/-- The letters of the field names. -/
def PlainName (name : String) : Prop :=
  name ≠ "" ∧ ∀ letter ∈ name.toList, letter.isLower

instance (name : String) : Decidable (PlainName name) :=
  decidable_of_iff (name ≠ "" ∧ name.toList.all Char.isLower = true)
    (by simp only [PlainName, List.all_eq_true])

/--
Plain names are acceptable, plain values are canonical, nodes of canonical
values with distinct names are, and canonical values have an identity.
-/
structure Identifying (kernel : Kernel) : Prop where
  names : ∀ name, PlainName name → kernel.checkedName name
  nil : kernel.Canonical .nil
  bool : ∀ value, kernel.Canonical (.bool value)
  counts : ∀ value, kernel.Canonical (number value)
  bytes : ∀ value, kernel.Canonical (.bytes value)
  symbol : ∀ value, kernel.Canonical (.symbol value)
  node : ∀ {tag fields}, (fields.map Prod.fst).Nodup →
    (∀ field ∈ fields, kernel.Canonical field.2) →
    kernel.Canonical (.node tag fields)
  contentId : ∀ value, kernel.Canonical value → (kernel.contentId value).isSome

namespace Identifying

variable {kernel : Kernel} (identifying : Identifying kernel)

include identifying

theorem field_eq
    {name : String}
    (plain : PlainName name)
    (value : Datum) :
    field kernel name value = .ok (.qualified "artifact" name, value) := by
  unfold field Kernel.checked
  rw [if_pos (identifying.names name plain)]
  rfl

theorem contentIdDatum_canonical
    (id : ContentId) :
    kernel.Canonical (contentIdDatum id) := by
  apply identifying.node
  · simp [Symbol.qualified]
  · intro field member
    simp only [List.mem_cons, List.not_mem_nil, or_false] at member
    rcases member with rfl | rfl
    · exact identifying.symbol _
    · exact identifying.bytes _

/-- Distinct fields with canonical values have an identity of every kind. -/
theorem fromFields_ok
    {fields : List (Symbol × Datum)}
    (kind : IdKind)
    (distinct : (fields.map Prod.fst).Nodup)
    (canonical : ∀ field ∈ fields, kernel.Canonical field.2) :
    ∃ id, SemanticId.fromFields kernel kind fields = .ok id := by
  have tag : ∃ tag, domainSymbol kind.domain = .ok tag := by
    cases kind <;> exact ⟨_, rfl⟩
  obtain ⟨tag, domain⟩ := tag
  obtain ⟨raw, identified⟩ := Option.isSome_iff_exists.mp
    (identifying.contentId (.node tag fields)
      (identifying.node distinct canonical))
  refine ⟨⟨raw⟩, ?_⟩
  unfold SemanticId.fromFields
  rw [if_neg (not_not.mpr distinct), domain]
  simp only [bind, Except.bind, identified]

/-- A valid image has an identity. -/
theorem image_ok
    {image : PortableImage}
    (valid : image.validate = .ok ()) :
    ∃ id, image.id kernel = .ok id := by
  have record (present : Bool) {mode bytes : Datum}
      (ofMode : kernel.Canonical mode) (ofBytes : kernel.Canonical bytes) :
      ∃ id, SemanticId.fromFields kernel .image
        [(.qualified "artifact" "present", .bool present),
          (.qualified "artifact" "mode", mode),
          (.qualified "artifact" "bytes", bytes)] = .ok id := by
    apply identifying.fromFields_ok
    · simp [Symbol.qualified]
    · intro field member
      simp only [List.mem_cons, List.not_mem_nil, or_false] at member
      rcases member with rfl | rfl | rfl
      · exact identifying.bool _
      · exact ofMode
      · exact ofBytes
  unfold PortableImage.id
  rw [valid]
  simp only [bind, Except.bind, List.mapM_cons, List.mapM_nil,
    identifying.field_eq (by decide : PlainName "present"),
    identifying.field_eq (by decide : PlainName "mode"),
    identifying.field_eq (by decide : PlainName "bytes"), pure, Except.pure]
  cases image.bytes with
  | none => exact record false identifying.nil identifying.nil
  | some bytes =>
      cases image.mode with
      | none => exact record false identifying.nil identifying.nil
      | some mode =>
          exact record true (identifying.counts _) (identifying.bytes _)

/-- A valid image has an identity in every facet. -/
theorem identifyImage_ok
    {image : PortableImage}
    (valid : image.validate = .ok ())
    (kind : IdKind) (spec : ArtifactFacet) :
    ∃ id, identifyImage kernel kind spec image = .ok id := by
  obtain ⟨imageId, identified⟩ := identifying.image_ok valid
  obtain ⟨id, made⟩ := @fromFields_ok kernel identifying
    [(.qualified "artifact" "facet", spec.id.datum),
      (.qualified "artifact" "image", imageId.datum)] kind
    (by simp [Symbol.qualified]) (by
        intro field member
        simp only [List.mem_cons, List.not_mem_nil, or_false] at member
        rcases member with rfl | rfl
        · exact identifying.contentIdDatum_canonical _
        · exact identifying.contentIdDatum_canonical _)
  refine ⟨id, ?_⟩
  unfold identifyImage
  rw [identified]
  simp only [bind, Except.bind, List.mapM_cons, List.mapM_nil,
    identifying.field_eq (by decide : PlainName "facet"),
    identifying.field_eq (by decide : PlainName "image"), pure, Except.pure]
  exact made

/-- A valid image passes the check of every role. -/
theorem check_ok
    {image : PortableImage}
    (valid : image.validate = .ok ())
    (role : Role) (spec : ArtifactFacet) :
    ∃ checked, RoleImage.check kernel role spec image = .ok checked ∧
      checked.image = image ∧ checked.facet = spec.id := by
  obtain ⟨id, identified⟩ := identifying.identifyImage_ok valid role.kind spec
  refine ⟨⟨id, spec.id, image, valid⟩, ?_, rfl, rfl⟩
  unfold RoleImage.check
  rw [dif_pos valid, identified]
  rfl

/-- A valid postimage is made. -/
theorem postimage_ok
    {image : PortableImage}
    (valid : image.validate = .ok ())
    (spec : ArtifactFacet) :
    ∃ postimage, CheckedPostimage.new kernel spec image = .ok postimage ∧
      postimage.image = image := by
  obtain ⟨id, identified⟩ := identifying.identifyImage_ok valid .postimage spec
  refine ⟨⟨id, image⟩, ?_, rfl⟩
  unfold CheckedPostimage.new
  rw [identified]
  rfl

end Identifying

section Reference

/-- The parts of a list of values that have forms. -/
theorem fieldForms_ok
    {fields : List (Symbol × Datum)}
    (canonical : ∀ field ∈ fields, (Reference.form field.2).isSome) :
    ∃ parts, Reference.fieldForms fields = some parts ∧
      parts.map Prod.fst = fields.map fun field => symbolKey field.1 := by
  induction fields with
  | nil => exact ⟨[], rfl, rfl⟩
  | cons field rest inductionHypothesis =>
      obtain ⟨part, formed⟩ := Option.isSome_iff_exists.mp
        (canonical field List.mem_cons_self)
      obtain ⟨parts, found, names⟩ := inductionHypothesis
        fun other member => canonical other (List.mem_cons_of_mem _ member)
      refine ⟨(symbolKey field.1, part) :: parts, ?_, by simp [names]⟩
      obtain ⟨name, value⟩ := field
      simp only [Reference.fieldForms, formed, found]
      rfl

/-- The reference kernel identifies all records. -/
theorem reference_identifying :
    Identifying Reference.kernel where
  names name plain := by
    have noSlash : '/' ∉ name.toList := fun slash =>
      absurd (plain.2 '/' slash) (by decide)
    simp [Reference.kernel, plain.1, noSlash]
  nil := rfl
  bool _ := rfl
  counts _ := rfl
  bytes _ := rfl
  symbol _ := rfl
  node {tag fields} distinct canonical := by
    obtain ⟨parts, found, names⟩ := fieldForms_ok canonical
    have keys : (parts.map Prod.fst).Nodup := by
      rw [names]
      exact symbolKeys_nodup distinct
    simp [Kernel.Canonical, Reference.kernel, Reference.form, found,
      Reference.assembleFields, keys]
  contentId value canonical :=
    (Reference.kernel_lawful.contentId_isSome value).mpr canonical

end Reference

section Facets

variable {kernel : Kernel}

/-- A facet keeps the region and the policy that it is made from. -/
theorem kept_of_new
    {artifact : SemanticId .artifact} {owner : SemanticId .owner}
    {region : RegionSelector} {projection : SemanticId .projection}
    {merge : MergePolicy} {disclosure : SemanticId .disclosure}
    {ownership : RegionOwnership} {spec : ArtifactFacet}
    (made : ArtifactFacet.new kernel artifact owner region projection merge
      disclosure ownership = .ok spec) :
    spec.region = region ∧ spec.merge = merge := by
  have bound {σ τ : Type} {first : Except FacetError σ}
      {next : σ → Except FacetError τ} {result : τ}
      (whole : first >>= next = .ok result) :
      ∃ value, next value = .ok result := by
    cases first with
    | error error => cases whole
    | ok value => exact ⟨value, whole⟩
  unfold ArtifactFacet.new at made
  split at made
  · cases made
  obtain ⟨_, made⟩ := bound made
  obtain ⟨_, made⟩ := bound made
  obtain ⟨_, made⟩ := bound made
  obtain ⟨_, made⟩ := bound made
  split at made
  · cases made
    exact ⟨rfl, rfl⟩
  · cases made

/-- A file with text. -/
def textFile (text : String) : PortableImage :=
  ⟨some (utf8 text), some 0o644⟩

theorem textFile_valid
    (text : String) :
    (textFile text).validate = .ok () := by
  have bits : (0o644 : UInt32) &&& ~~~ 0o777 = 0 := by decide
  simp [textFile, PortableImage.validate, bits]

/-- An identity of each kind. -/
def sampleId (kind : IdKind) : SemanticId kind :=
  ⟨⟨.qualified "core" "sample", ⟨List.replicate 32 0, List.length_replicate⟩⟩⟩

/-- An authored region. -/
def sampleFacet (region : RegionSelector) (merge : MergePolicy) :
    Except FacetError ArtifactFacet :=
  ArtifactFacet.new Reference.kernel (sampleId _) (sampleId _) region
    (sampleId _) merge (sampleId _) .authored

theorem kept_of_sample
    {region : RegionSelector} {merge : MergePolicy} {spec : ArtifactFacet}
    (made : sampleFacet region merge = .ok spec) :
    spec.region = region ∧ spec.merge = merge := by
  unfold sampleFacet at made
  exact kept_of_new made

/-- A sample facet is made where its evaluation says so. -/
theorem sampleFacet_ok
    {region : RegionSelector} {merge : MergePolicy}
    (made : (sampleFacet region merge).toOption.isSome) :
    ∃ spec, sampleFacet region merge = .ok spec ∧ spec.region = region ∧
      spec.merge = merge := by
  cases found : sampleFacet region merge with
  | error error =>
      rw [found] at made
      cases made
  | ok spec => exact ⟨spec, rfl, kept_of_sample found⟩

end Facets

end SimStorage.Facet
