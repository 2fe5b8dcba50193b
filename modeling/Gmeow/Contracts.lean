import Gmeow.OrdMap
import Gmeow.Text

/-!
# The contract records

The shared records of `internal/contracts` and the rows of the metadata store,
restricted to the fields the filestore reads or writes. Digests range over an
abstract ordered type `D`: the store only ever compares them, and hashes are
parameters of the model (see `Env`). A record field that Go leaves as the empty
digest is an `Option`.
-/

namespace Gmeow

/-- Nanoseconds since the Unix epoch. -/
abbrev Time : Type := Int

/-- Go's zero `time.Time`, year 1 (`IsZero`). -/
def zeroTime : Time := -62135596800000000000

/-- A decoded JSON value as the store sees it. Composite values are never looked
into, so they stay opaque under their canonical text. -/
inductive Value : Type where
  /-- `null` -/
  | null : Value
  /-- a boolean -/
  | bool : Bool → Value
  /-- an integral number -/
  | num : Int → Value
  /-- a string -/
  | str : String → Value
  /-- an array, an object or a fractional number -/
  | composite : String → Value
  deriving DecidableEq

/-- `map[string]any`. -/
abbrev Attrs : Type := OrdMap String Value

/-- `stringFromAny` of an optional map entry. -/
def stringFromAny : Option Value → String
  | some (.str s) => s
  | _ => ""

/-- `intFromAny`. -/
def intFromAny : Option Value → Int
  | some (.num n) => n
  | _ => 0

/-- `boolFromAny`. -/
def boolFromAny : Option Value → Bool
  | some (.bool b) => b
  | _ => false

/-- `contracts.Facet`. -/
structure Facet : Type where
  metadata : Attrs := ∅
  attributes : Attrs := ∅
  kind : String
  name : String := ""
  version : String := ""
  deriving DecidableEq

/-- `Facet.FacetKind`: the kind, or the legacy name. -/
def Facet.facetKind (facet : Facet) : String :=
  if facet.kind ≠ "" then facet.kind else facet.name

/-- `contracts.Provenance`: one observation of an object by a source. -/
structure Provenance : Type where
  observedAt : Time := zeroTime
  metadata : Attrs := ∅
  attributes : Attrs := ∅
  sourceName : String
  sourceKind : String
  externalID : String := ""
  externalVersion : String := ""
  capabilitiesSeen : List String := []
  deriving DecidableEq

/-- `contracts.SourceObjectRef`. -/
structure SourceObjectRef : Type where
  sourceKind : String
  sourceName : String
  externalID : String
  externalVersion : String := ""
  deriving DecidableEq

/-- `sourceObjectRefFromProvenance`. -/
def sourceObjectRefFromProvenance (provenance : Provenance) : SourceObjectRef where
  sourceKind := provenance.sourceKind
  sourceName := provenance.sourceName
  externalID := provenance.externalID
  externalVersion := provenance.externalVersion

/-- `validateSourceObjectRef`. -/
def validateSourceObjectRef (ref : SourceObjectRef) : Except String Unit :=
  if blank ref.sourceKind then .error "source object kind is required"
  else if blank ref.sourceName then .error "source object name is required"
  else if blank ref.externalID then .error "source object external_id is required"
  else .ok ()

/-- How an object's digest was derived: `file_blake3` or `compound_stable_id`. -/
inductive IdentityStrategy : Type where
  /-- the BLAKE3 of the content -/
  | fileBlake3 : IdentityStrategy
  /-- the BLAKE3 of the prefixed stable id -/
  | compoundStableID : IdentityStrategy
  deriving DecidableEq

variable {D : Type}

/-- `contracts.CompoundPart`. -/
structure CompoundPart (D : Type) : Type where
  metadata : Attrs := ∅
  digest : D
  role : String
  order : Int := 0
  required : Bool := false
  deriving DecidableEq

/-- `contracts.Relationship`: a typed edge between two objects, `From` and `To`. -/
structure Relationship (D : Type) : Type where
  type : String
  fromDigest : D
  toDigest : D
  role : String := ""
  source : String := ""
  order : Int := 0
  deriving DecidableEq

/-- `contracts.Compound`. -/
structure Compound (D : Type) : Type where
  parts : List (CompoundPart D) := []
  isCompound : Bool
  deriving DecidableEq

/-- One analyzer's outcome on a part, as summarized on the compound parent. -/
structure AnalysisSummary : Type where
  analyzerName : String
  analyzerVersion : String
  generatedAt : Time
  status : String
  deriving DecidableEq

/-- The `part_analysis` record of one part. -/
structure PartAnalysis : Type where
  refreshedAt : Time
  annotations : List AnalysisSummary
  deriving DecidableEq

/-- `contracts.Manifest`. `analysis` is the `part_analysis` map, the only entry
the store ever writes under `Analysis`. -/
structure Manifest (D : Type) [LinearOrder D] : Type where
  updatedAt : Time
  createdAt : Time
  overlays : Attrs := ∅
  analysis : OrdMap D PartAnalysis := ∅
  objectDigest : D
  objectID : String
  identityStrategy : IdentityStrategy
  mediaType : String
  compound : Compound D
  relationships : List (Relationship D) := []
  provenance : List Provenance := []
  facets : List Facet := []
  contentRoles : List String := []
  size : Nat
  deriving DecidableEq

/-- `contracts.Annotation`. -/
structure AnnotationRecord (D : Type) : Type where
  generatedAt : Time := zeroTime
  data : Attrs := ∅
  objectDigest : D
  analyzerName : String := ""
  analyzerVer : String := ""
  kind : String
  deriving DecidableEq

/-- `packedObjectAnnotationEntry`: an annotation inline, or the digest of the
chunk-store blob that holds it. -/
structure PackedAnnotationEntry (D : Type) : Type where
  updatedAt : Time
  inline : Option (AnnotationRecord D)
  digest : D
  kind : String
  analyzerName : String
  externalDigest : Option D
  deriving DecidableEq

/-- `chunkIndexEntry`: where a chunk's compressed bytes live. -/
structure ChunkIndexEntry (D : Type) : Type where
  updatedAt : Time
  chunkHash : D
  dictID : String
  dictFamily : String
  packID : Nat
  offset : Nat
  length : Nat
  deriving DecidableEq

/-- `objectRecipeEntry`: the ordered chunk hashes of one blob. -/
structure ObjectRecipe (D : Type) : Type where
  updatedAt : Time
  digest : D
  chunkHashes : List D
  contentBytes : Nat
  deriving DecidableEq

/-- `packedSourceObjectIndexEntry`. -/
structure SourceIndexEntry (D : Type) : Type where
  sourceObject : SourceObjectRef
  objectDigest : D
  updatedAt : Time
  deriving DecidableEq

/-- `packedSourceAliasEntry`. -/
structure SourceAliasEntry (D : Type) : Type where
  sourceKind : String
  sourceName : String
  externalID : String
  digest : D
  updatedAt : Time
  deriving DecidableEq

/-- `compoundParentEdge`. -/
structure CompoundParentEdge (D : Type) : Type where
  parentDigest : D
  role : String
  updatedAt : Time
  deriving DecidableEq

/-- `packedCompoundParentIndexEntry`. -/
structure CompoundParentIndex (D : Type) : Type where
  childDigest : D
  parents : List (CompoundParentEdge D)
  updatedAt : Time
  deriving DecidableEq

/-- `recoverySidecar`, the uncompressed identity of an object; the constant
fields of the record carry no information and are dropped. -/
structure RecoverySidecar (D : Type) : Type where
  digest : D
  objectID : String
  identityStrategy : IdentityStrategy
  sourceHint : String
  mediaType : String
  uncompressedSize : Nat
  uncompressedBlake3 : D
  uncompressedSHA256 : String
  createdAt : Time
  deriving DecidableEq

end Gmeow
