import Gmeow.Lifetimes

/-!
# The round trip of a snapshot

A snapshot has four sections: the vectors of the cache, the index, the ledger and the memo. Here the
formats of the first two are filled in, which `StateArtifact` leaves open: vectors with their
dimension in front, and for the index the vectors of the names and the centroids of the entities.
The search graphs of the index and the indexes of the ledger are not written; they are built again.

A component of a vector is a 32-bit float, known by its bits; signalling NaNs are left out. The
search graphs are those of a package, which panics where it is given vectors of several dimensions;
a panic is an error here.

* `writeVector`, `encodeCache`, `snapshotIndex` and their readers — the formats;
* `SearchGraphs` — what is known of the package; `rebuildLocked` — the graphs of an index;
* `Embedding.stored` — the embedding service with these formats;
* `Fits` — the sizes that are read back; `Restores` — what is;
* `snapshot_round_trip` — a service that loads the snapshot of another has its state, if the
  centroids of that have one dimension; `mixed_dimensions_refused` — where they have two.
-/

open Blocks

namespace Gmeow

/-! ## Vectors -/

/-- `Vector`: its components by their bits. -/
abbrev StoredVector : Type := List UInt32

/-- `maxVectorDim`. -/
def maxVectorDim : Nat := 2 ^ 16

/-- `writeVector`. -/
def writeVector (vector : StoredVector) : Bytes :=
  leBytes 4 vector.length ++ vector.flatMap fun component => leBytes 4 component.toNat

/-- The components in some bytes. -/
def componentsOf : Bytes → StoredVector
  | a :: b :: c :: d :: rest => UInt32.ofNat (leValue [a, b, c, d]) :: componentsOf rest
  | _ => []

/-- `readVector`. -/
def readVector : Parse StoredVector := do
  let dim ← readUint 4
  if maxVectorDim < dim then
    throw s!"vector dimension exceeds limit: {dim} (max {maxVectorDim})"
  else return componentsOf (← takeBytes (4 * dim))

theorem componentsOf_flatMap (vector : StoredVector) :
    componentsOf (vector.flatMap fun component => leBytes 4 component.toNat) = vector := by
  induction vector with
  | nil => rfl
  | cons component vector ih =>
    have hbytes : ∀ n rest, componentsOf (leBytes 4 n ++ rest) =
        UInt32.ofNat (leValue (leBytes 4 n)) :: componentsOf rest := fun _ _ => rfl
    rw [List.flatMap_cons, hbytes, ih, leValue_leBytes,
      Nat.mod_eq_of_lt (Nat.lt_of_lt_of_eq component.toNat_lt (by decide)), UInt32.ofNat_toNat]

variable {bound : Nat}

/-- By induction on the coordinates; the limit of the dimension is the reader's own. -/
theorem readVector_reads {vector : StoredVector} (h : vector.length ≤ maxVectorDim) :
    Reads bound readVector (writeVector vector) vector := by
  have hdim : Reads bound (readUint 4) (leBytes 4 vector.length) vector.length := by
    have hread : Reads bound (readUint 4) (leBytes 4 vector.length) _ := .uint 4 vector.length
    rwa [Nat.mod_eq_of_lt (h.trans_lt (by decide))] at hread
  refine hdim.bind ?_
  rw [if_neg (not_lt.mpr h)]
  have hlength : 4 * vector.length =
      (vector.flatMap fun component => leBytes 4 component.toNat).length := by
    rw [List.length_flatMap, List.map_congr_left fun component _ => length_leBytes 4 _]
    simp [Nat.mul_comm]
  rw [hlength]
  refine (Reads.take _).map ?_
  rw [componentsOf_flatMap]
  exact .pure vector

theorem writeVector_ne_nil (vector : StoredVector) : writeVector vector ≠ [] := by
  intro h
  have hlength := congrArg List.length h
  rw [writeVector, List.length_append, length_leBytes] at hlength
  simp at hlength

/-- All vectors of a map are short enough. -/
def DimsFit (vectors : OrdMap String StoredVector) : Prop :=
  ∀ item ∈ vectors.entries, item.2.length ≤ maxVectorDim

/-! ## The index -/

/-- The search graphs of the package, and the arithmetic of vectors. Adding a node to a graph may
panic; it does not as long as the nodes have vectors of one dimension, and each its own name. -/
structure SearchGraphs where
  Graph : Type
  newSearchGraph : Graph
  add : Graph → String × StoredVector → Option Graph
  normalize : StoredVector → StoredVector
  length_normalize : ∀ vector, (normalize vector).length = vector.length
  adds_one_dim : ∀ {dim : Nat} {nodes : List (String × StoredVector)}, 0 < dim →
    (nodes.map Prod.fst).Nodup → (∀ node ∈ nodes, node.2.length = dim) →
      ∃ graph, nodes.foldlM add newSearchGraph = some graph

/-- `EntityIndex`. -/
structure StoredIndex (G : SearchGraphs) where
  dim : Nat
  dimC : Nat
  entityNames : OrdMap String (List StoredVector) := ∅
  centroids : OrdMap String StoredVector := ∅
  fine : G.Graph := G.newSearchGraph
  coarse : G.Graph := G.newSearchGraph

variable (G : SearchGraphs)

/-- `NewEntityIndex`. -/
def newEntityIndex (fullDim coarseDim : Nat) : StoredIndex G :=
  let fullDim := if fullDim = 0 then 768 else fullDim
  let coarseDim := if coarseDim = 0 ∨ coarseDim > fullDim then 128 else coarseDim
  { dim := fullDim, dimC := coarseDim }

/-- `Slice`. -/
def sliceVector (vector : StoredVector) (dim : Nat) : StoredVector :=
  G.normalize (if dim = 0 ∨ vector.length ≤ dim then vector else vector.take dim)

variable {G}

/-- `rebuildLocked`, for some order of the centroids. The graphs are filled side by side, and
neither sees the other. -/
def StoredIndex.rebuildLocked (index : StoredIndex G) : Option (StoredIndex G) := do
  let fine ← index.centroids.entries.foldlM G.add G.newSearchGraph
  let coarse ← (index.centroids.entries.map fun item =>
    (item.1, sliceVector G item.2 index.dimC)).foldlM G.add G.newSearchGraph
  return { index with fine := fine, coarse := coarse }

/-- The vectors of an index are short enough. -/
structure StoredIndex.Fits (index : StoredIndex G) : Prop where
  names : ∀ item ∈ index.entityNames.entries, ∀ vector ∈ item.2, vector.length ≤ maxVectorDim
  centroids : DimsFit index.centroids

/-- The centroids of an index have one dimension, and not the dimension zero. -/
def StoredIndex.OneDim (index : StoredIndex G) : Prop :=
  ∃ dim, 0 < dim ∧ ∀ item ∈ index.centroids.entries, item.2.length = dim

/-- A part of vectors that have one dimension has one. -/
theorem length_sliceVector (vector : StoredVector) (dim : Nat) :
    (sliceVector G vector dim).length = if dim = 0 then vector.length else min dim vector.length := by
  rw [sliceVector, G.length_normalize]
  split_ifs <;> simp_all

/-- **The graphs of an index are built again** if its centroids have one dimension. -/
theorem StoredIndex.OneDim.rebuilt {index : StoredIndex G} (h : index.OneDim) :
    ∃ fine coarse, index.rebuildLocked = some { index with fine := fine, coarse := coarse } := by
  obtain ⟨dim, hpos, hdim⟩ := h
  have hkeys : (index.centroids.entries.map Prod.fst).Nodup := index.centroids.nodup_keys
  obtain ⟨fine, hfine⟩ := G.adds_one_dim hpos hkeys hdim
  have hslices : ∀ node ∈ index.centroids.entries.map fun item =>
      (item.1, sliceVector G item.2 index.dimC),
      node.2.length = if index.dimC = 0 then dim else min index.dimC dim := by
    intro node hnode
    obtain ⟨item, hitem, rfl⟩ := List.mem_map.mp hnode
    rw [length_sliceVector, hdim item hitem]
  obtain ⟨coarse, hcoarse⟩ := G.adds_one_dim (by split_ifs <;> omega) (by rwa [List.map_map]) hslices
  refine ⟨fine, coarse, ?_⟩
  rw [StoredIndex.rebuildLocked, hfine, Option.bind_eq_bind, Option.bind_some, hcoarse]
  rfl

/-! ## Readers -/

/-- What a reader says of an error. -/
def withContext {α : Type} (context : String) (read : Parse α) : Parse α := fun bytes =>
  match read bytes with
  | .ok out => .ok out
  | .error e => .error (context ++ ": " ++ e)

theorem withContext_reads {α : Type} {context : String} {read : Parse α} {bytes : Bytes} {value : α}
    (h : Reads bound read bytes value) : Reads bound (withContext context read) bytes value := by
  intro hlength rest
  rw [withContext, h hlength rest]

/-- What a reader makes of some bytes; those left over do not matter. -/
def runOn {α : Type} (read : Parse α) (data : Bytes) : Except String α :=
  (read data).map Prod.fst

theorem decoded_reads {α : Type} {read : Parse α} {data : Bytes} {value : α}
    (h : Reads maxLenBytes read data value) (hlength : data.length ≤ maxLenBytes) :
    Reads bound (decoded (runOn read data)) [] value := by
  intro _ rest
  have hread := h hlength []
  rw [List.append_nil] at hread
  rw [decoded, runOn, hread]
  rfl

/-- A ledger with small counts is read back as it is, up to its indexes. -/
theorem reread_counts {l : EntityLedger} (hobservations : l.observations < 2 ^ 32)
    (hoccurrences : ∀ item ∈ l.occurrences.entries, item.2 < 2 ^ 32) :
    l.reread.observations = l.observations ∧ l.reread.occurrences = l.occurrences := by
  have hpow : 2 ^ 32 = 256 ^ 4 := by decide
  have hitems : (l.occurrences.entries.map fun item => (item.1, item.2 % 256 ^ 4)) =
      l.occurrences.entries := by
    refine (List.map_congr_left fun item hitem => ?_).trans (List.map_id _)
    rw [Nat.mod_eq_of_lt (hpow ▸ hoccurrences item hitem)]
    rfl
  obtain ⟨df, ident, heq⟩ := EntityLedger.rebuild_eq
    { claims := l.claims
      observations := l.observations % 256 ^ 4
      occurrences := mapOf (l.occurrences.entries.map fun item => (item.1, item.2 % 256 ^ 4)) }
  rw [EntityLedger.reread, heq]
  refine ⟨Nat.mod_eq_of_lt (hpow ▸ hobservations), ?_⟩
  rw [hitems]
  exact OrdMap.foldl_set_entries _

/-- Two ledgers with the same claims have the same indexes, up to order. -/
theorem Indexed.same {l l' : EntityLedger} (h : l.Indexed) (h' : l'.Indexed)
    (hclaims : l'.claims = l.claims) : (∀ hash, l'.docFreq hash = l.docFreq hash) ∧
      ∀ key, (l'.listed key).Perm (l.listed key) := by
  refine ⟨fun hash => ?_, fun key => List.perm_iff_count.mpr fun entity => ?_⟩
  · rw [h.counted, h'.counted, EntityLedger.holders, EntityLedger.holders, hclaims]
  · have hrow : l'.claimsOf entity = l.claimsOf entity := by
      rw [EntityLedger.claimsOf, EntityLedger.claimsOf, hclaims]
    rw [h.listed, h'.listed, EntityLedger.mentions, EntityLedger.mentions, hrow]

section Formats

variable [TextCodec]

/-! ## The cache -/

/-- The claim-vector cache. -/
abbrev StoredCache : Type := OrdMap String StoredVector

/-- A vector with its key. -/
def writeKeyed (item : String × StoredVector) : Bytes :=
  writeLenString item.1 ++ writeVector item.2

/-- A vector with its key. -/
def readKeyed : Parse (String × StoredVector) := do
  let key ← readLenString
  let vector ← readVector
  return (key, vector)

/-- `encodeCache`. -/
def encodeCache (entries : StoredCache) : Bytes := writeCounted writeKeyed entries.entries

/-- `decodeCache`. -/
def decodeCache : Parse StoredCache := do
  return mapOf (← readCounted readKeyed)

theorem readKeyed_reads {item : String × StoredVector} (h : item.2.length ≤ maxVectorDim) :
    Reads maxLenBytes readKeyed (writeKeyed item) item := by
  refine (readLenString_reads item.1).bind ?_
  exact (readVector_reads h).map (.pure item)

theorem decodeCache_reads {entries : StoredCache} (h : DimsFit entries) :
    Reads maxLenBytes decodeCache (encodeCache entries) entries :=
  mapOf_reads (fun _ => writeLenString_ne_nil _ _) entries fun item hitem =>
    readKeyed_reads (h item hitem)

/-! ## The artifact of the index -/

/-- `artifactMagic`. -/
def artifactMagic : String := "GMEOWHNSW1"

/-- The name vectors of an entity. -/
def writeNames (item : String × List StoredVector) : Bytes :=
  writeLenString item.1 ++ writeCounted writeVector item.2

/-- The name vectors of an entity. -/
def readNames : Parse (String × List StoredVector) := do
  let entity ← readLenString
  let vectors ← readCounted readVector
  return (entity, vectors)

/-- `EntityIndex.Snapshot`. -/
def snapshotIndex (index : StoredIndex G) : Bytes :=
  utf8 artifactMagic ++ (leBytes 4 index.dim ++ (leBytes 4 index.dimC ++
    (writeCounted writeNames index.entityNames.entries ++
      writeCounted writeKeyed index.centroids.entries)))

/-- `LoadEntityIndex`. -/
def readEntityIndex (G : SearchGraphs) : Parse (StoredIndex G) := do
  let magic ← withContext "read artifact magic" (takeBytes (utf8 artifactMagic).length)
  if magic = utf8 artifactMagic then
    let dim ← readUint 4
    let dimC ← readUint 4
    let names ← readCounted readNames
    let centroids ← readCounted readKeyed
    let index : StoredIndex G :=
      { newEntityIndex G dim dimC with entityNames := mapOf names, centroids := mapOf centroids }
    match index.rebuildLocked with
    | some index => return index
    | none => throw "panic: embedding dimension mismatch"
  else throw "unrecognized entity-index artifact magic"

theorem readNames_reads {item : String × List StoredVector}
    (h : ∀ vector ∈ item.2, vector.length ≤ maxVectorDim) :
    Reads maxLenBytes readNames (writeNames item) item := by
  refine (readLenString_reads item.1).bind ?_
  refine (Reads.counted maxLenBytes_lt writeVector_ne_nil item.2 fun vector hvector =>
    readVector_reads (h vector hvector)).map ?_
  rw [List.map_id']
  exact .pure item

/-- **An index is read as it was written**, if its numbers fit and its centroids have one dimension:
then the graphs can be built again. -/
theorem readEntityIndex_reads {index : StoredIndex G} (h : index.Fits) (hdim : index.OneDim) :
    ∃ index' : StoredIndex G, index'.centroids = index.centroids ∧
      index'.entityNames = index.entityNames ∧
      Reads maxLenBytes (readEntityIndex G) (snapshotIndex index) index' := by
  have hread : StoredIndex.OneDim
      { newEntityIndex G (index.dim % 256 ^ 4) (index.dimC % 256 ^ 4) with
        entityNames := index.entityNames, centroids := index.centroids } := hdim
  obtain ⟨fine, coarse, hbuilt⟩ := hread.rebuilt
  refine ⟨{ newEntityIndex G (index.dim % 256 ^ 4) (index.dimC % 256 ^ 4) with
    entityNames := index.entityNames, centroids := index.centroids, fine := fine,
    coarse := coarse }, rfl, rfl, ?_⟩
  refine (withContext_reads (Reads.take (utf8 artifactMagic))).bind ?_
  rw [if_pos rfl]
  refine (Reads.uint 4 index.dim).bind ?_
  refine (Reads.uint 4 index.dimC).bind ?_
  refine (Reads.counted maxLenBytes_lt (fun _ => writeLenString_ne_nil _ _)
    index.entityNames.entries fun item hitem => readNames_reads (h.names item hitem)).bind ?_
  refine (Reads.counted maxLenBytes_lt (fun _ => writeLenString_ne_nil _ _)
    index.centroids.entries fun item hitem => readKeyed_reads (h.centroids item hitem)).map ?_
  rw [List.map_id', List.map_id', mapOf, mapOf, OrdMap.foldl_set_entries, OrdMap.foldl_set_entries]
  dsimp only
  rw [hbuilt]
  exact .pure _

/-! ## The round trip -/

variable {V F : Type}

/-- **The embedding service with these formats.** -/
def Embedding.stored (E : Embedding StoredCache (StoredIndex G) V F) :
    Embedding StoredCache (StoredIndex G) V F :=
  { E with
    encodeCache := Gmeow.encodeCache
    decodeCache := fun _ data => runOn Gmeow.decodeCache data
    snapshot := snapshotIndex
    loadEntityIndex := fun data => runOn (readEntityIndex G) data }

/-- The sizes that are read back: of the vectors, of the counts, and of the sections. -/
structure Fits (s : Service StoredCache (StoredIndex G) V) : Prop where
  cache : DimsFit s.resolver
  index : s.index.Fits
  observations : s.ledger.observations < 2 ^ 32
  occurrences : ∀ item ∈ s.ledger.occurrences.entries, item.2 < 2 ^ 32
  cacheSection : (encodeCache s.resolver).length ≤ maxLenBytes
  indexSection : (snapshotIndex s.index).length ≤ maxLenBytes
  ledgerSection : (encodeLedger s.ledger).length ≤ maxLenBytes
  memoSection : (encodeStringMap s.seenObs).length ≤ maxLenBytes

/-- A service has the state of another, up to the order of the entities with an identifier. -/
structure Restores (s s' : Service StoredCache (StoredIndex G) V) : Prop where
  claims : s'.ledger.claims = s.ledger.claims
  occurrences : s'.ledger.occurrences = s.ledger.occurrences
  observations : s'.ledger.observations = s.ledger.observations
  memo : s'.seenObs = s.seenObs
  cache : s'.resolver = s.resolver
  centroids : s'.index.centroids = s.index.centroids
  names : s'.index.entityNames = s.index.entityNames
  docFreq : ∀ hash, s'.ledger.docFreq hash = s.ledger.docFreq hash
  listed : ∀ key, (s'.ledger.listed key).Perm (s.ledger.listed key)

/-- The artifact of `SnapshotState`. -/
def snapshotBytes (s : Service StoredCache (StoredIndex G) V) : Bytes :=
  utf8 stateMagic ++ (writeBlock (encodeCache s.resolver) ++
    (writeBlock (snapshotIndex s.index) ++ (writeBlock (encodeLedger s.ledger) ++
      writeBlock (encodeStringMap s.seenObs))))

/-- The artifact is read. -/
theorem readState_reads (E : Embedding StoredCache (StoredIndex G) V F)
    {s : Service StoredCache (StoredIndex G) V} (h : Fits s) (hdim : s.index.OneDim)
    (resolver : StoredCache) (bound : Nat) : ∃ index : StoredIndex G, index.centroids = s.index.centroids ∧
      index.entityNames = s.index.entityNames ∧
      Reads bound (readState E.stored resolver) (snapshotBytes s)
        (s.resolver, index, s.ledger.reread, s.seenObs) := by
  have hlongest : maxLenBytes < 2 ^ 64 := maxLenBytes_lt.trans (by decide)
  obtain ⟨index, hcentroids, hnames, hread⟩ := readEntityIndex_reads h.index hdim
  refine ⟨index, hcentroids, hnames, ?_⟩
  refine (Reads.take (utf8 stateMagic)).bind ?_
  rw [if_pos (Or.inl rfl)]
  refine (Reads.block hlongest fun _ => h.cacheSection).bind ?_
  refine (decoded_reads (decodeCache_reads h.cache) h.cacheSection).bind ?_
  refine (Reads.block hlongest fun _ => h.indexSection).bind ?_
  refine (decoded_reads hread h.indexSection).bind ?_
  refine (Reads.block hlongest fun _ => h.ledgerSection).bind ?_
  rw [decide_eq_true rfl]
  refine (within_reads (decodeLedger_reads _) h.ledgerSection).bind ?_
  refine (Reads.block hlongest fun _ => h.memoSection).map ?_
  exact (within_reads (decodeStringMap_reads _) h.memoSection).map (.pure _)

variable [LE F] [DecidableLE F] [LT F] [DecidableLT F] [DecidableEq F] [Zero F]

/-- **A snapshot is loaded as it was taken.** Whatever service has come about, if its sizes fit and
its centroids have one dimension, the snapshot of it is taken, and any service loads it and then has
its state. -/
theorem snapshot_round_trip (E : Embedding StoredCache (StoredIndex G) V F)
    {s : Service StoredCache (StoredIndex G) V} (hlived : Lived E.stored s) (hfits : Fits s)
    (hdim : s.index.OneDim) (s₀ : Service StoredCache (StoredIndex G) V) :
    ∃ data s', snapshotState E.stored s = some data ∧
      loadState E.stored data s₀ = (.ok (), s') ∧ Restores s s' := by
  have hsmall : (snapshotBytes s).length < 2 ^ 63 := by
    have hmagic : (utf8 stateMagic).length = 11 := by decide +kernel
    have hmax : maxLenBytes = 536870912 := by decide
    have hcache := hfits.cacheSection
    have hindex := hfits.indexSection
    have hledger := hfits.ledgerSection
    have hmemo := hfits.memoSection
    simp only [snapshotBytes, List.length_append, writeBlock, length_leBytes, hmagic]
    omega
  obtain ⟨index, hcentroids, hnames, hread⟩ := readState_reads E hfits hdim s₀.resolver (2 ^ 63)
  have hloaded := hread hsmall.le []
  rw [List.append_nil] at hloaded
  obtain ⟨hobservations, hoccurrences⟩ := reread_counts hfits.observations hfits.occurrences
  have hclaims : s.ledger.reread.claims = s.ledger.claims := EntityLedger.rebuild_claims _
  obtain ⟨hdocFreq, hlisted⟩ := Indexed.same hlived.indexed (EntityLedger.rebuild_indexed _) hclaims
  refine ⟨snapshotBytes s, _, if_pos hsmall, by rw [loadState, hloaded], ?_⟩
  exact ⟨hclaims, hoccurrences, hobservations, rfl, rfl, hcentroids, hnames, hdocFreq, hlisted⟩

end Formats

/-- Graphs that know the dimension of their nodes, and refuse another. -/
def strictGraphs : SearchGraphs where
  Graph := Option Nat
  newSearchGraph := none
  add graph node :=
    if graph.all (· == node.2.length) then some (some node.2.length) else none
  normalize vector := vector
  length_normalize _ := rfl
  adds_one_dim {dim nodes} _ hkeys hdim := by
    clear hkeys
    suffices h : ∀ graph : Option Nat, graph.all (· == dim) = true →
        ∃ graph', nodes.foldlM (m := Option) (fun graph node =>
          if graph.all (· == node.2.length) then some (some node.2.length) else none) graph =
            some graph' from h none rfl
    induction nodes with
    | nil => exact fun graph _ => ⟨graph, rfl⟩
    | cons node nodes ih =>
      intro graph hgraph
      obtain ⟨hnode, hnodes⟩ := List.forall_mem_cons.mp hdim
      rw [List.foldlM_cons, hnode, if_pos hgraph]
      exact ih hnodes (some dim) (beq_self_eq_true dim)

/-- An embedder whose vectors have the component one, and an index that finds nothing. -/
def storingEmbedding : Embedding StoredCache (StoredIndex strictGraphs) StoredVector Int where
  statementHash text := text
  vectors cache values := (.ok (values.map fun _ => [0x3f800000]),
    values.foldl (fun cache value => cache.set value [0x3f800000]) cache)
  pool cache _ := (.ok [0x3f800000], cache)
  cached cache value := cache.get value
  residualize _ vector := vector
  rebuildResidual _ := none
  meanPool _ := .ok [0x3f800000]
  search _ _ _ := .ok []
  upsert index entity centroid :=
    (.ok (), { index with centroids := index.centroids.set entity centroid })
  applyMerges index _ _ := index
  idDiff _ _ _ _ _ _ _ := ⟨0, 0, false⟩
  blockingTopN := 24
  mergeGate := 1
  encodeCache := encodeCache
  decodeCache _ data := runOn decodeCache data
  snapshot := snapshotIndex
  loadEntityIndex data := runOn (readEntityIndex _) data

/-- A person with a name and an address, and the snapshot of the service that knows them. -/
theorem snapshot_round_trip_person :
    ∃ s s' : Service StoredCache (StoredIndex strictGraphs) StoredVector,
      s.ledger.has "entity" "b" = true ∧ s.index.centroids.has "entity" = true ∧
      (∃ data, snapshotState storingEmbedding.stored s = some data ∧
        loadState storingEmbedding.stored data s = (.ok (), s')) ∧ Restores s s' := by
  have hlived : Lived storingEmbedding.stored (resolve storingEmbedding.stored nameAndEmail 0 0
      { resolver := ∅, index := newEntityIndex _ 1 1, ids := emptyService.ids }).2 :=
    .resolve _ _ _ (.new _ _ _)
  generalize hs : (resolve storingEmbedding.stored nameAndEmail 0 0
    { resolver := ∅, index := newEntityIndex _ 1 1, ids := emptyService.ids }).2 = s at hlived
  have hfits : Fits s := by
    rw [← hs]
    refine ⟨?_, ⟨?_, ?_⟩, ?_, ?_, ?_, ?_, ?_, ?_⟩ <;> try rw [DimsFit]
    all_goals decide +kernel
  have hdim : s.index.OneDim := by
    rw [← hs]
    exact ⟨1, Nat.one_pos, by decide +kernel⟩
  obtain ⟨data, s', hdata, hload, hrestores⟩ :=
    snapshot_round_trip storingEmbedding hlived hfits hdim s
  refine ⟨s, s', ?_, ?_, ⟨data, hdata, hload⟩, hrestores⟩
  · rw [← hs]
    decide +kernel
  · rw [← hs]
    decide +kernel

/-- A service whose index has centroids of two dimensions. -/
def mixedDimensions : Service StoredCache (StoredIndex strictGraphs) StoredVector where
  resolver := ∅
  index := { newEntityIndex _ 1 1 with
    centroids := ((∅ : OrdMap String StoredVector).set "a" [1]).set "b" [1, 2] }
  ids := emptyService.ids

/-- **A snapshot with centroids of two dimensions** is taken and cannot be loaded. -/
theorem mixed_dimensions_refused :
    Lived storingEmbedding.stored mixedDimensions ∧ Fits mixedDimensions ∧
      ∃ data, snapshotState storingEmbedding.stored mixedDimensions = some data ∧
        (loadState storingEmbedding.stored data mixedDimensions).1.isOk = false := by
  refine ⟨.new _ _ _, ?_, ?_⟩
  · refine ⟨?_, ⟨?_, ?_⟩, ?_, ?_, ?_, ?_, ?_, ?_⟩ <;> try rw [DimsFit]
    all_goals decide +kernel
  · have heval : (snapshotState storingEmbedding.stored mixedDimensions).any (fun data =>
        !(loadState storingEmbedding.stored data mixedDimensions).1.isOk) = true := by
      decide +kernel
    obtain ⟨data, hdata, hload⟩ := (Option.any_eq_true _ _).mp heval
    exact ⟨data, hdata, by simpa using hload⟩

end Gmeow
