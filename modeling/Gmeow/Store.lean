import Gmeow.ChunkStore
import Gmeow.Merge

/-!
# Object operations

The public write operations of the store, as programs over the requests of
`World`. Each is a read-merge-write of one manifest together with the side tables
that follow from it: the projection change index, the source index and alias rows,
the recovery sidecar, the compound-parent index and the annotation rows.

Which locks an operation takes is part of the translation: `put`,
`attachProvenance`, `writeOverlays` and the parent refresh hold the manifest lock of
their digest from read to write, `putCompound` and `writeAnnotationRecord` do not.
-/

namespace Gmeow

open Prog (ofExcept)

variable {D : Type} [LinearOrder D]

/-! ## Change index -/

/-- `UnixNano`: the nanoseconds wrapped to a signed 64-bit integer. -/
def unixNano (t : Time) : Int := (t + 2 ^ 63) % 2 ^ 64 - 2 ^ 63

/-- The order of `%020d`: sign first, then magnitude. -/
def changeStamp (n : Int) : Nat ×ₗ Nat :=
  if n < 0 then toLex (0, n.natAbs) else toLex (1, n.natAbs)

/-- `projectionChangeKey`. -/
def projectionChangeKey (digest : D) (changedAt : Time) : ChangeKey D :=
  let stamp := ofLex (changeStamp (unixNano changedAt))
  toLex (stamp.1, toLex (stamp.2, digest))

/-- `recordProjectionChangeTo`: move the digest's change key to `changedAt`. -/
def recordProjectionChangeTo (sink : Sink D) (digest : D) (changedAt : Time) :
    Proc D (Sink D) := do
  if changedAt = zeroTime then return sink
  else
    let sink ←
      match ← ask (.getLatest digest) with
      | some previous => sink.write (.change previous.key none)
      | none => (return sink)
    let entry : ProjectionChange D :=
      { key := projectionChangeKey digest changedAt, digest := digest, changedAt := changedAt }
    let sink ← sink.write (.change entry.key (some entry))
    sink.write (.latest digest (some entry))

/-- `writeManifestTo`. -/
def writeManifestTo (sink : Sink D) (digest : D) (manifest : Manifest D) : Proc D (Sink D) := do
  let sink ← sink.write (.manifest digest (some manifest))
  recordProjectionChangeTo sink digest manifest.updatedAt

/-- `writeManifest`. -/
def writeManifest (digest : D) (manifest : Manifest D) : Proc D Unit := do
  let _ ← writeManifestTo .sync digest manifest
  return ()

/-- `ReadManifest`'s error when there is none. -/
def manifestNotExist (E : Env D) (digest : D) : String :=
  "read manifest " ++ E.text digest ++ ": file does not exist"

/-! ## Source index -/

/-- `sourceObjectRefKey`. -/
def sourceObjectRefKey (E : Env D) (ref : SourceObjectRef) : String :=
  E.sha256Hex (utf8 (ref.sourceKind ++ "\x00" ++ ref.sourceName ++ "\x00" ++ ref.externalID ++
    "\x00" ++ ref.externalVersion))

/-- `sourceAliasKey`. -/
def sourceAliasKey (E : Env D) (ref : SourceObjectRef) : String :=
  E.sha256Hex (utf8 (ref.sourceKind ++ "\x00" ++ ref.sourceName ++ "\x00" ++ ref.externalID))

/-- The loop of `recordSourceObjectIndexesTo`. -/
def recordSourceRefs (E : Env D) (digest : D) (updatedAt : Time) :
    Sink D → List Provenance → Proc D (Sink D)
  | sink, [] => return sink
  | sink, item :: rest => do
    let ref := sourceObjectRefFromProvenance item
    if ref.sourceKind = "" ∨ ref.sourceName = "" ∨ ref.externalID = "" then
      recordSourceRefs E digest updatedAt sink rest
    else
      ofExcept (validateSourceObjectRef ref)
      let sink ← sink.write (.sourceIndex (sourceObjectRefKey E ref)
        (some { sourceObject := ref, objectDigest := digest, updatedAt := updatedAt }))
      let now ← ask .now
      let sink ← sink.write (.sourceAlias (sourceAliasKey E ref)
        (some { sourceKind := ref.sourceKind, sourceName := ref.sourceName
                externalID := ref.externalID, digest := digest, updatedAt := now }))
      recordSourceRefs E digest updatedAt sink rest

/-- `recordSourceObjectIndexesTo`. -/
def recordSourceObjectIndexesTo (E : Env D) (sink : Sink D) (digest : D)
    (provenance : List Provenance) : Proc D (Sink D) := do
  if provenance = [] then return sink
  else
    let updatedAt ← ask .now
    recordSourceRefs E digest updatedAt sink provenance

/-! ## Put and PutCompound -/

/-- `PutRequest`. -/
structure PutRequest (D : Type) : Type where
  reader : Reader
  mediaType : String := ""
  sourceHint : String := ""
  contentRoles : List String := []
  facets : List Facet := []
  provenance : List Provenance := []
  relationships : List (Relationship D) := []

/-- `CompoundPutRequest`. -/
structure CompoundPutRequest (D : Type) : Type where
  objectID : String
  mediaType : String := ""
  sourceHint : String := ""
  contentRoles : List String := []
  facets : List Facet := []
  provenance : List Provenance := []
  relationships : List (Relationship D) := []
  parts : List (CompoundPart D) := []

/-- `baseManifest`. -/
def baseManifest (now : Time) (digest : D) (objectID : String)
    (identityStrategy : IdentityStrategy) (mediaType : String) (size : Nat)
    (contentRoles : List String) (facets : List Facet) (provenance : List Provenance)
    (relationships : List (Relationship D)) (compound : Compound D) : Manifest D where
  objectDigest := digest
  objectID := objectID
  identityStrategy := identityStrategy
  mediaType := firstNonEmpty [mediaType, "application/octet-stream"]
  size := size
  contentRoles := uniqueStrings contentRoles
  facets := normalizeFacets facets
  provenance := normalizeProvenance provenance
  relationships := normalizedRelationships relationships
  compound := compound
  createdAt := now
  updatedAt := now

/-- The manifest to write: `incoming`, or the merge into what is stored. -/
def mergedManifest (digest : D) (incoming : Manifest D) : Proc D (Manifest D) := do
  match ← ask (.getManifest digest) with
  | none => return incoming
  | some existing =>
    let now ← ask .now
    return mergeManifest now existing incoming

/-- `recoverySidecarFor` and `recoverySidecarForStreamed`. -/
def recoverySidecarFor (digest : D) (size : Nat) (blake3 : D) (sha256 sourceHint : String)
    (manifest : Manifest D) : RecoverySidecar D where
  digest := digest
  objectID := manifest.objectID
  identityStrategy := manifest.identityStrategy
  sourceHint := trimSpace sourceHint
  mediaType := manifest.mediaType
  uncompressedSize := size
  uncompressedBlake3 := blake3
  uncompressedSHA256 := sha256
  createdAt := manifest.createdAt

/-- The part of `Put` under the manifest lock: merge, buffer, commit. -/
def putManifest (E : Env D) (request : PutRequest D) (digest : D) (sha256 : String) (size : Nat)
    (cb : CommitBatch D) : Proc D D := do
  let now ← ask .now
  let manifest ← mergedManifest digest
    (baseManifest now digest (E.text digest) .fileBlake3 request.mediaType size
      request.contentRoles request.facets request.provenance request.relationships
      { isCompound := false })
  let sink ← writeManifestTo (.batch cb) digest manifest
  let sink ← sink.write (.recovery digest (some
    (recoverySidecarFor digest size digest sha256 request.sourceHint manifest)))
  let sink ← recordSourceObjectIndexesTo E sink digest request.provenance
  sink.commit.wrapping fun e => "commit object " ++ E.text digest ++ ": " ++ e
  return digest

/-- `Put`: stream the content into the chunk store, then write everything about the
object in one batch. -/
def put (E : Env D) (request : PutRequest D) : Proc D D := do
  ofExcept (validateFacets request.facets)
  let ((digest, sha256, size), cb) ←
    storeBlobReaderBatched E {} request.reader request.mediaType request.contentRoles
  withLock (.manifest digest) (putManifest E request digest sha256 size cb)

/-- The identity of a compound object, hashed into its digest. -/
def compoundIdentity (objectID : String) : Bytes := utf8 ("compound:" ++ objectID)

/-- `compoundEnvelopeBytes`. -/
def compoundEnvelopeBytes (E : Env D) (manifest : Manifest D) : Bytes :=
  E.marshalEnvelope
    { objectID := manifest.objectID, identityStrategy := manifest.identityStrategy
      provenance := manifest.provenance, parts := manifest.compound.parts }

/-- `commitNewObject`. -/
def commitNewObject (E : Env D) (cb : CommitBatch D) (digest : D) (content : Bytes)
    (sourceHint : String) (manifest : Manifest D) : Proc D (Sink D) := do
  let cb ← (storeBlobContentBatched E cb digest content manifest.mediaType
    manifest.contentRoles).wrapping fun e => "store blob content: " ++ e
  let sink ← writeManifestTo (.batch cb) digest manifest
  let blake3 ← ask (.blake3 content)
  sink.write (.recovery digest (some
    (recoverySidecarFor digest content.length blake3 (E.sha256Hex content) sourceHint manifest)))

/-- `writeObject`: the content of a compound is the envelope of the merged manifest,
written only when no recipe exists yet. -/
def writeObject (E : Env D) (cb : CommitBatch D) (digest : D) (content : Bytes)
    (sourceHint : String) (incoming : Manifest D) : Proc D (Sink D) := do
  let manifest ← mergedManifest digest incoming
  if (← ask (.getRecipe digest)).isSome then writeManifestTo (.batch cb) digest manifest
  else if manifest.identityStrategy = .compoundStableID then
    let content := compoundEnvelopeBytes E manifest
    commitNewObject E cb digest content sourceHint { manifest with size := content.length }
  else commitNewObject E cb digest content sourceHint manifest

/-- `mergeCompoundParentIndex`. -/
def mergeCompoundParentIndex (childDigest : D) (edges : List (CompoundParentEdge D)) :
    Proc D Unit :=
  withLock (.compoundParentIndex childDigest) do
    let index ← ask (.getCompoundParents childDigest)
    if (index.map fun record => record.childDigest).getD childDigest ≠ childDigest then
      .fail "compound parent index key does not match payload"
    else
      let parents := (index.map fun record => record.parents).getD []
      let merged : OrdMap (D ×ₗ String) (CompoundParentEdge D) :=
        (parents ++ edges).foldl (fun m edge => m.set (toLex (edge.parentDigest, edge.role)) edge) ∅
      let now ← ask .now
      ask (.commit [.compoundParents childDigest (some
        { childDigest := childDigest, parents := merged.entries.map Prod.snd
          updatedAt := now })])

/-- The loop of `recordCompoundParentIndexes` over the children. -/
def mergeParentEdges : List (D × List (CompoundParentEdge D)) → Proc D Unit
  | [] => return ()
  | (childDigest, edges) :: rest => do
    mergeCompoundParentIndex childDigest edges
    mergeParentEdges rest

/-- `recordCompoundParentIndexes`. -/
def recordCompoundParentIndexes (E : Env D) (parentDigest : D) (parts : List (CompoundPart D)) :
    Proc D Unit := do
  if parts = [] then return ()
  else
    let updatedAt ← ask .now
    ofExcept (validateCompoundParts E.text parts)
    let byChild : OrdMap D (List (CompoundParentEdge D)) :=
      parts.foldl (fun m part =>
        m.set part.digest ((m.get part.digest).getD [] ++
          [{ parentDigest := parentDigest, role := part.role, updatedAt := updatedAt }])) ∅
    mergeParentEdges byChild.entries

/-- `PutCompound`. -/
def putCompound (E : Env D) (request : CompoundPutRequest D) : Proc D D := do
  let objectID := trimSpace request.objectID
  if objectID = "" then .fail "compound object_id is required"
  else
    ofExcept (validateFacets request.facets)
    let parts := normalizedParts request.parts
    ofExcept (validateCompoundParts E.text parts)
    let digest ← ask (.blake3 (compoundIdentity objectID))
    let envelope := E.marshalEnvelope
      { objectID := objectID, identityStrategy := .compoundStableID
        provenance := request.provenance, parts := parts }
    let now ← ask .now
    let manifest := baseManifest now digest objectID .compoundStableID
      (firstNonEmpty [request.mediaType, "application/vnd.gmeow.compound+json"])
      envelope.length request.contentRoles request.facets request.provenance
      (relationshipsWithCompoundParts digest request.relationships parts)
      { isCompound := true, parts := parts }
    let sink ← writeObject E {} digest envelope request.sourceHint manifest
    let sink ← recordSourceObjectIndexesTo E sink digest request.provenance
    sink.commit.wrapping fun e => "commit compound object " ++ E.text digest ++ ": " ++ e
    recordCompoundParentIndexes E digest parts
    return digest

/-! ## AttachProvenance -/

/-- `validateSourceObjectRef` of every entry. -/
def validateProvenance : List Provenance → Except String Unit
  | [] => .ok ()
  | item :: rest =>
    match validateSourceObjectRef (sourceObjectRefFromProvenance item) with
    | .error e => .error e
    | .ok () => validateProvenance rest

/-- `AttachProvenance`: reports whether anything changed. -/
def attachProvenance (E : Env D) (digest : D) (provenance : List Provenance) : Proc D Bool := do
  if provenance = [] then .fail "provenance is required"
  else
    ofExcept (validateProvenance provenance)
    withLock (.manifest digest) do
      match ← ask (.getManifest digest) with
      | none => .fail ("read provenance target manifest: " ++ manifestNotExist E digest)
      | some manifest =>
        if provenanceAddsNew manifest.provenance provenance then
          let now ← ask .now
          writeManifest digest { manifest with
            provenance := mergeProvenance manifest.provenance provenance, updatedAt := now }
          let _ ← recordSourceObjectIndexesTo E .sync digest provenance
          return true
        else return false

/-! ## Annotations -/

/-- `annotationInlineMaxBytes`. -/
def annotationInlineMaxBytes : Nat := 4096

/-- `annotationFilename`, whose only use is to reject bad kinds. -/
def annotationFilename (kind : String) : Except String Unit :=
  let trimmed := trimSpace kind
  if trimmed = "" then .error "annotation kind is required"
  else if ["blob", "recovery", "manifest"].contains (toLower trimmed) then
    .error ("annotation kind \"" ++ kind ++ "\" is reserved")
  else if trimmed.toList.all fun char => char.isAlphanum || char == '_' || char == '-' then .ok ()
  else .error ("invalid annotation kind \"" ++ kind ++ "\"")

/-- Where the payload of an annotation goes: inline when small, else to a blob keyed
by its own digest. -/
def placePayload (E : Env D) (note : AnnotationRecord D) :
    Proc D (Option (AnnotationRecord D) × Option D) := do
  let encoded := E.marshalAnnotated note
  if encoded.length ≤ annotationInlineMaxBytes then return (some note, none)
  else
    let contentDigest ← ask (.blake3 encoded)
    storeBlobContent E contentDigest encoded "application/json" []
    return (none, some contentDigest)

/-- `writePackedAnnotation`. -/
def writePackedAnnotationRecord (E : Env D) (note : AnnotationRecord D) : Proc D Unit := do
  let now ← ask .now
  let (inline, external) ← placePayload E note
  let entry : PackedAnnotationEntry D :=
    { updatedAt := now, digest := note.objectDigest, kind := note.kind
      analyzerName := note.analyzerName, inline := inline, externalDigest := external }
  ask (.commit [.annotated (annotatedKey note.objectDigest note.kind note.analyzerName)
    (some entry)])
  let _ ← recordProjectionChangeTo .sync note.objectDigest note.generatedAt
  return ()

/-- `resolvePackedAnnotation`. -/
def resolvePackedAnnotationEntry (E : Env D) (entry : PackedAnnotationEntry D) :
    Proc D (AnnotationRecord D) := do
  match entry.inline, entry.externalDigest with
  | some note, _ => return note
  | none, none => .fail "packed annotation has neither inline nor external payload"
  | none, some external =>
    match ← readBlobContent E external with
    | none =>
      .fail ("external annotation payload " ++ E.text external ++ " missing from chunk store")
    | some content =>
      match E.unmarshalAnnotated content with
      | none => .fail "decode external annotation payload"
      | some note => return note

/-- `readPackedAnnotation`. -/
def readPackedAnnotationRecord (E : Env D) (digest : D) (kind analyzerName : String) :
    Proc D (Option (AnnotationRecord D)) := do
  match ← ask (.getAnnotated (annotatedKey digest kind analyzerName)) with
  | none => return none
  | some entry =>
    let note ← resolvePackedAnnotationEntry E entry
    return some note

/-- The loop of `readPackedAnnotations`. -/
def resolveEntries (E : Env D) :
    List (AnnotatedKey D × PackedAnnotationEntry D) → Proc D (List (AnnotationRecord D))
  | [] => return []
  | item :: rest => do
    let note ← resolvePackedAnnotationEntry E item.2
    let notes ← resolveEntries E rest
    return note :: notes

/-- `readPackedAnnotations`: sorted by kind, analyzer and version. -/
def readPackedAnnotations (E : Env D) (digest : D) : Proc D (List (AnnotationRecord D)) := do
  let entries ← ask (.scanAnnotated digest)
  let notes ← resolveEntries E entries
  return sliceStable (fun a b => lessBy [(a.kind, b.kind), (a.analyzerName, b.analyzerName),
    (a.analyzerVer, b.analyzerVer)]) notes

/-- `compoundParentsForChild`. -/
def compoundParentsForChild (childDigest : D) : Proc D (List (CompoundParentEdge D)) := do
  match ← ask (.getCompoundParents childDigest) with
  | none => return []
  | some record =>
    if record.childDigest ≠ childDigest then
      .fail "compound parent index key does not match payload"
    else return record.parents

/-- The summaries of `refreshIndexedParentsForSubobject`. -/
def analysisSummaries (notes : List (AnnotationRecord D)) : List AnalysisSummary :=
  (notes.filter fun note => note.kind = "analysis").map fun note =>
    { analyzerName := note.analyzerName, analyzerVersion := note.analyzerVer
      generatedAt := note.generatedAt
      status := firstNonEmpty [stringFromAny (note.data.get "status"), "complete"] }

/-- `refreshIndexedParentForSubobject`. -/
def refreshIndexedParentForSubobject (parentDigest childDigest : D)
    (summaries : List AnalysisSummary) : Proc D Unit :=
  withLock (.manifest parentDigest) do
    match ← ask (.getManifest parentDigest) with
    | none => return ()
    | some manifest =>
      if manifestContainsPart manifest childDigest then
        let refreshedAt ← ask .now
        let now ← ask .now
        writeManifest parentDigest { manifest with
          analysis := manifest.analysis.set childDigest
            { refreshedAt := refreshedAt, annotations := summaries }
          updatedAt := now }
      else return ()

/-- The loop of `refreshIndexedParentsForSubobject` over distinct parents. -/
def refreshParents (childDigest : D) (summaries : List AnalysisSummary) :
    List D → List (CompoundParentEdge D) → Proc D Unit
  | _, [] => return ()
  | seen, parent :: rest =>
    if parent.parentDigest ∈ seen then refreshParents childDigest summaries seen rest
    else do
      refreshIndexedParentForSubobject parent.parentDigest childDigest summaries
      refreshParents childDigest summaries (parent.parentDigest :: seen) rest

/-- `refreshIndexedParentsForSubobject`. -/
def refreshIndexedParentsForSubobject (E : Env D) (childDigest : D) : Proc D Unit := do
  let parents ← compoundParentsForChild childDigest
  if parents = [] then return ()
  else
    let notes ← (readPackedAnnotations E childDigest).wrapping fun e =>
      "read annotations for " ++ E.text childDigest ++ ": " ++ e
    let summaries := analysisSummaries notes
    if summaries = [] then return () else refreshParents childDigest summaries [] parents

/-- `WriteAnnotation`: read, merge, write — under no lock. -/
def writeAnnotationRecord (E : Env D) (note : AnnotationRecord D) : Proc D Unit := do
  match ← ask (.getManifest note.objectDigest) with
  | none => .fail ("read annotation target manifest: " ++ manifestNotExist E note.objectDigest)
  | some _ =>
    ofExcept ( annotationFilename note.kind)
    let generatedAt ← if note.generatedAt = zeroTime then ask .now else (return note.generatedAt)
    let note := { note with generatedAt := generatedAt }
    let existing ← (readPackedAnnotationRecord E note.objectDigest note.kind
      note.analyzerName).wrapping fun e => "read existing annotation: " ++ e
    let note := (existing.map fun stored => mergeAnnotationRecords stored note).getD note
    writePackedAnnotationRecord E note
    if note.kind = "analysis" then refreshIndexedParentsForSubobject E note.objectDigest
    else return ()

/-- `WriteOverlays`. -/
def writeOverlays (E : Env D) (digest : D) (overlays : Attrs) : Proc D Unit :=
  withLock (.manifest digest) do
    match ← ask (.getManifest digest) with
    | none => .fail ("read overlay target manifest: " ++ manifestNotExist E digest)
    | some manifest =>
      let now ← ask .now
      let manifest := { manifest with
        overlays := manifest.overlays.merge overlays, updatedAt := now }
      writeManifest digest manifest
      writePackedAnnotationRecord E
        { objectDigest := digest, kind := "overlays", generatedAt := manifest.updatedAt
          data := manifest.overlays }

/-! ## Open -/

/-- `Open`; content is verified against the digest unless the object is a compound. -/
def openObject (E : Env D) (digest : D) : Proc D (ChunkRecipeReader D) := do
  let manifest ← ask (.getManifest digest)
  let compound := (manifest.map fun m => m.identityStrategy) = some .compoundStableID
  match ← openBlobReader digest (if compound then none else some digest) with
  | some reader => return reader
  | none => .fail ("open objects/blake3/" ++ E.text digest ++ "/blob.zstd: no such file or directory")

/-! ## DeleteObject and DeleteImport -/

/-- The source and alias rows of a provenance entry that still point at `digest`. -/
def ownedSourceRows (E : Env D) (digest : D) (ref : SourceObjectRef) :
    Proc D (List (Write D)) := do
  match validateSourceObjectRef ref with
  | .error _ => return []
  | .ok () =>
    let index ← ask (.getSourceIndex (sourceObjectRefKey E ref))
    let aliased ← ask (.getSourceAlias (sourceAliasKey E ref))
    return (if (index.map fun entry => entry.objectDigest) = some digest then
        [.sourceIndex (sourceObjectRefKey E ref) none] else []) ++
      (if (aliased.map fun entry => entry.digest) = some digest then
        [.sourceAlias (sourceAliasKey E ref) none] else [])

/-- The source and alias rows of several references. -/
def ownedRows (E : Env D) (digest : D) : List SourceObjectRef → Proc D (List (Write D))
  | [] => return []
  | ref :: rest => do
    let rows ← ownedSourceRows E digest ref
    let more ← ownedRows E digest rest
    return rows ++ more

/-- `DeleteObject`. -/
def deleteObject (E : Env D) (digest : D) : Proc D Unit := do
  let manifest ← ask (.getManifest digest)
  let rows ← ownedRows E digest
    ((manifest.map fun m => m.provenance.map sourceObjectRefFromProvenance).getD [])
  let notes ← ask (.scanAnnotated digest)
  ask (.commit ([.manifest digest none, .recipe digest none, .recovery digest none,
    .compoundParents digest none] ++ rows ++ notes.map fun item => .annotated item.1 none))

/-- Whether a provenance entry is of the source. -/
def Provenance.ofSource (sourceKind sourceName : String) (item : Provenance) : Bool :=
  item.sourceKind = sourceKind && item.sourceName = sourceName

/-- `manifestHasSource`. -/
def manifestHasSource (manifest : Manifest D) (sourceKind sourceName : String) : Bool :=
  manifest.provenance.any (Provenance.ofSource sourceKind sourceName)

/-- `DeleteImportReport`. -/
structure DeleteImportReport : Type where
  objectsScanned : Nat := 0
  objectsDeleted : Nat := 0
  provenanceDetached : Nat := 0

/-- `detachSourceFromObject`: whether anything was detached, and whether that
deleted the object. -/
def detachSourceFromObject (E : Env D) (digest : D) (sourceKind sourceName : String) :
    Proc D (Bool × Bool) :=
  withLock (.manifest digest) do
    match ← ask (.getManifest digest) with
    | none => return (false, false)
    | some manifest =>
      let removed := manifest.provenance.filter (Provenance.ofSource sourceKind sourceName)
      let kept := manifest.provenance.filter fun item =>
        !Provenance.ofSource sourceKind sourceName item
      if removed = [] then return (false, false)
      else if kept = [] then
        deleteObject E digest
        return (true, true)
      else
        let now ← ask .now
        writeManifest digest { manifest with provenance := kept, updatedAt := now }
        let rows ← ownedRows E digest (removed.map sourceObjectRefFromProvenance)
        if rows = [] then return (true, false)
        else
          ask (.commit rows)
          return (true, false)

/-- The loop of `DeleteImport` over the candidates. -/
def detachAll (E : Env D) (sourceKind sourceName : String) :
    DeleteImportReport → List D → Proc D DeleteImportReport
  | report, [] => return report
  | report, digest :: rest => do
    let (detached, deleted) ← detachSourceFromObject E digest sourceKind sourceName
    let report :=
      if deleted then { report with objectsDeleted := report.objectsDeleted + 1 }
      else if detached then { report with provenanceDetached := report.provenanceDetached + 1 }
      else report
    detachAll E sourceKind sourceName report rest

/-- `DeleteImport`. -/
def deleteImport (E : Env D) (sourceKind sourceName : String) : Proc D DeleteImportReport := do
  if blank sourceKind ∨ blank sourceName then .fail "source kind and name are required"
  else
    let manifests ← ask .scanManifests
    let candidates := (manifests.filter fun item =>
      manifestHasSource item.2 sourceKind sourceName).map Prod.fst
    detachAll E sourceKind sourceName { objectsScanned := manifests.length } candidates

end Gmeow
