import Gmeow.Contracts
import Gmeow.Dictionary
import Gmeow.Prog

/-!
# The world a store operation runs in

Store operations are programs (`Prog`) over atomic requests to the metadata
database, the pack directory, the clock and the in-process locks. This module
says what each request does:

* `Meta` — the Pebble key space, one ordered table per key namespace; a batch is a
  list of `Write`s applied at once (`Meta.applyAll`), a scan or a snapshot reads one
  point in time.
* `PackFile` — a pack as the file system sees it: its bytes, how many of them are
  known to be on disk, and whether its directory entry is.
* `World` — all of it, with the cached active pack, the chunk cache, the locks held
  and the readings the clock has still to give.
* `Prim`, `Resp`, `handle` — the requests, their answers and their effects.

Hashes, compression and JSON are parameters (`Env`).
-/

namespace Gmeow

/-! ## Parameters -/

/-- `compoundEnvelope`. -/
structure CompoundEnvelope (D : Type) : Type where
  objectID : String
  identityStrategy : IdentityStrategy
  provenance : List Provenance
  parts : List (CompoundPart D)

/-- What lies outside the repository: hashes, compression, encoders. `text` is the
hex text of a digest. -/
structure Env (D : Type) : Type where
  blake3Hex : Bytes → D
  sha256Hex : Bytes → String
  zstdEncode : Bytes → Bytes → Bytes
  zstdDecode : Bytes → Bytes → Option Bytes
  marshalAnnotated : AnnotationRecord D → Bytes
  unmarshalAnnotated : Bytes → Option (AnnotationRecord D)
  marshalEnvelope : CompoundEnvelope D → Bytes
  parseMediaType : String → Option String
  text : D → String

/-- Decompression inverts compression under the same dictionary. -/
def Env.ZstdLossless {D : Type} (E : Env D) : Prop :=
  ∀ dict content, E.zstdDecode dict (E.zstdEncode dict content) = some content

/-- A content as a numeral in base 257, the digits being the bytes plus one. -/
def numeral (content : Bytes) : Nat := content.foldl (fun n byte => 257 * n + (byte.toNat + 1)) 0

theorem numeral_concat (content : Bytes) (byte : UInt8) :
    numeral (content ++ [byte]) = 257 * numeral content + (byte.toNat + 1) := by
  simp [numeral]

/-- Different contents have different numerals. -/
theorem numeral_injective : Function.Injective numeral := by
  intro a
  induction a using List.reverseRecOn with
  | nil =>
    intro b heq
    rcases List.eq_nil_or_concat b with rfl | ⟨b, y, rfl⟩
    · rfl
    · rw [List.concat_eq_append, numeral_concat] at heq
      simp [numeral] at heq
  | append_singleton a x ih =>
    intro b heq
    rcases List.eq_nil_or_concat b with rfl | ⟨b, y, rfl⟩
    · rw [numeral_concat] at heq
      simp [numeral] at heq
    · rw [List.concat_eq_append, numeral_concat, numeral_concat] at heq
      have hx := x.toNat_lt
      have hy := y.toNat_lt
      have hbyte : x.toNat = y.toNat := by omega
      have hrest : numeral a = numeral b := by omega
      rw [List.concat_eq_append, ih hrest, UInt8.toNat_inj.mp hbyte]

/-- An environment to evaluate the model in: digests are numerals, compression keeps
the bytes. -/
def plainEnv : Env Nat where
  blake3Hex := numeral
  sha256Hex _ := ""
  zstdEncode _ content := content
  zstdDecode _ content := some content
  marshalAnnotated _ := []
  unmarshalAnnotated _ := none
  marshalEnvelope _ := [1]
  parseMediaType := some
  text _ := ""

theorem plainEnv_lossless : plainEnv.ZstdLossless := fun _ _ => rfl

/-! ## The metadata database -/

/-- A key of the projection change index, `pc/<%020d of unix nanos>/<digest>`. The
fixed-width text of a negative number starts with `-` and sorts first, by
magnitude; so the key is its sign (`0` for negative), its magnitude, the digest. -/
abbrev ChangeKey (D : Type) : Type := Nat ×ₗ Nat ×ₗ D

/-- `projectionChangeEntry`. -/
structure ProjectionChange (D : Type) : Type where
  key : ChangeKey D
  digest : D
  changedAt : Time

/-- The key of an annotation row, `a/<digest>/<kind>/<analyzer>`. -/
abbrev AnnotatedKey (D : Type) : Type := D ×ₗ String ×ₗ String

/-- `annotationKey`. -/
def annotatedKey {D : Type} (digest : D) (kind analyzerName : String) : AnnotatedKey D :=
  toLex (digest, toLex (kind, analyzerName))

section

variable {D : Type} [LinearOrder D]

/-- The Pebble key space, by namespace. -/
structure Meta (D : Type) [LinearOrder D] : Type where
  /-- `c/` -/
  chunks : OrdMap D (ChunkIndexEntry D) := ∅
  /-- `r/` -/
  recipes : OrdMap D (ObjectRecipe D) := ∅
  /-- `m/` -/
  manifests : OrdMap D (Manifest D) := ∅
  /-- `a/` -/
  annotated : OrdMap (AnnotatedKey D) (PackedAnnotationEntry D) := ∅
  /-- `si/` -/
  sourceIndex : OrdMap String (SourceIndexEntry D) := ∅
  /-- `sa/` -/
  sourceAlias : OrdMap String (SourceAliasEntry D) := ∅
  /-- `cp/` -/
  compoundParents : OrdMap D (CompoundParentIndex D) := ∅
  /-- `rec/` -/
  recovery : OrdMap D (RecoverySidecar D) := ∅
  /-- `pc/` -/
  changes : OrdMap (ChangeKey D) (ProjectionChange D) := ∅
  /-- `pc-latest/` -/
  latest : OrdMap D (ProjectionChange D) := ∅

/-- One record of a batch: set a key, or delete it with `none`. -/
inductive Write (D : Type) [LinearOrder D] : Type where
  | chunk : D → Option (ChunkIndexEntry D) → Write D
  | recipe : D → Option (ObjectRecipe D) → Write D
  | manifest : D → Option (Manifest D) → Write D
  | annotated : AnnotatedKey D → Option (PackedAnnotationEntry D) → Write D
  | sourceIndex : String → Option (SourceIndexEntry D) → Write D
  | sourceAlias : String → Option (SourceAliasEntry D) → Write D
  | compoundParents : D → Option (CompoundParentIndex D) → Write D
  | recovery : D → Option (RecoverySidecar D) → Write D
  | change : ChangeKey D → Option (ProjectionChange D) → Write D
  | latest : D → Option (ProjectionChange D) → Write D

/-- Apply one record. -/
def Meta.apply (m : Meta D) : Write D → Meta D
  | .chunk k v => { m with chunks := m.chunks.put k v }
  | .recipe k v => { m with recipes := m.recipes.put k v }
  | .manifest k v => { m with manifests := m.manifests.put k v }
  | .annotated k v => { m with annotated := m.annotated.put k v }
  | .sourceIndex k v => { m with sourceIndex := m.sourceIndex.put k v }
  | .sourceAlias k v => { m with sourceAlias := m.sourceAlias.put k v }
  | .compoundParents k v => { m with compoundParents := m.compoundParents.put k v }
  | .recovery k v => { m with recovery := m.recovery.put k v }
  | .change k v => { m with changes := m.changes.put k v }
  | .latest k v => { m with latest := m.latest.put k v }

/-- Commit a batch: all records, in order, at once. -/
def Meta.applyAll (m : Meta D) (writes : List (Write D)) : Meta D := writes.foldl Meta.apply m

/-! ## Packs, cache, locks -/

/-- A pack file: its bytes, the length known to be on disk, and whether its
directory entry is. -/
structure PackFile : Type where
  bytes : Bytes
  synced : Nat := 0
  linked : Bool := false

/-- `packTargetBytes`. -/
def packTargetBytes : Nat := 256 * 1024 * 1024

/-- `SizedLRU`: the cached chunks, most recently used first. -/
abbrev SizedLRU (D : Type) : Type := List (D × Bytes)

/-- `defaultChunkCacheBytes`. -/
def defaultChunkCacheBytes : Nat := 256 * 1024 * 1024

/-- `evictToFit`: keep the most recent values that fit the budget. -/
def evictToFit : Nat → SizedLRU D → SizedLRU D
  | _, [] => []
  | budget, (key, value) :: rest =>
    if value.length ≤ budget then (key, value) :: evictToFit (budget - value.length) rest else []

/-- The entries of other keys. -/
def dropKey (cache : SizedLRU D) (key : D) : SizedLRU D := cache.filter fun item => item.1 ≠ key

/-- `SizedLRU.Get`: a hit moves to the front. -/
def cacheLookup (cache : SizedLRU D) (key : D) : Option Bytes × SizedLRU D :=
  match cache.find? fun item => item.1 = key with
  | none => (none, cache)
  | some item => (some item.2, item :: dropKey cache key)

/-- `SizedLRU.Put`. -/
def cacheInsert (cache : SizedLRU D) (key : D) (value : Bytes) : SizedLRU D :=
  if value.length > defaultChunkCacheBytes then dropKey cache key
  else evictToFit defaultChunkCacheBytes ((key, value) :: dropKey cache key)

/-- The in-process mutexes: `packMu`, `maintenanceMu` and the key locks. -/
inductive LockName (D : Type) : Type where
  | packMu : LockName D
  | maintenanceMu : LockName D
  /-- `lockKey("manifest:" + digest)` -/
  | manifest : D → LockName D
  /-- `lockKey("compound-parent-index:" + digest)` -/
  | compoundParentIndex : D → LockName D
  deriving DecidableEq

/-- Everything a store operation can touch. -/
structure World (D : Type) [LinearOrder D] : Type where
  /-- the metadata database -/
  db : Meta D := {}
  /-- the pack directory -/
  packs : OrdMap Nat PackFile := ∅
  /-- the cached active pack: id and size, when known -/
  active : Option (Nat × Nat) := none
  /-- the dictionary directory -/
  dicts : Dictionaries := {}
  /-- the decompressed-chunk cache -/
  chunkCache : SizedLRU D := []
  /-- the locks held -/
  locks : List (LockName D) := []
  /-- the readings the clock will give, in order -/
  clock : Nat → Time := fun _ => 0

/-! ## Requests -/

/-- The atomic requests. -/
inductive Prim (D : Type) [LinearOrder D] : Type where
  /-- `time.Now().UTC()` -/
  | now : Prim D
  /-- hash a content with BLAKE3 -/
  | blake3 : Bytes → Prim D
  | lock : LockName D → Prim D
  | unlock : LockName D → Prim D
  | getChunk : D → Prim D
  | getRecipe : D → Prim D
  | getManifest : D → Prim D
  | getAnnotated : AnnotatedKey D → Prim D
  | getSourceIndex : String → Prim D
  | getSourceAlias : String → Prim D
  | getCompoundParents : D → Prim D
  | getLatest : D → Prim D
  | scanManifests : Prim D
  | scanRecipes : Prim D
  | scanChunks : Prim D
  /-- scan `a/<digest>/` -/
  | scanAnnotated : D → Prim D
  /-- scan `pc/` from a sign and magnitude on -/
  | scanChanges : Nat ×ₗ Nat → Prim D
  | snapshot : Prim D
  /-- a synced batch: `metaPut`, `metaDeleteKeys` or `batch.Commit` -/
  | commit : List (Write D) → Prim D
  | activeDictionary : String → Prim D
  | readDictionaryBytes : String → Prim D
  | appendToActivePackNoSync : Bytes → Prim D
  /-- `activePackKnown = false` -/
  | forgetActivePack : Prim D
  /-- open a pack for writing and fsync it -/
  | syncPack : Nat → Prim D
  /-- fsync the pack directory -/
  | syncPackDir : Prim D
  | activePack : Prim D
  /-- list the pack directory -/
  | readPackDir : Prim D
  | statPack : Nat → Prim D
  /-- `ReadAt` a pack: id, offset, length -/
  | readPack : Nat → Nat → Nat → Prim D
  | removePack : Nat → Prim D
  | cacheGet : D → Prim D
  | cachePut : D → Bytes → Prim D

/-- Why a read from a pack failed. -/
inductive PackReadError : Type where
  /-- `os.ErrNotExist` -/
  | notExist : PackReadError
  /-- the file ends before the requested range -/
  | unexpectedEOF : PackReadError
  deriving DecidableEq

/-- The answer to each request. -/
abbrev Resp : Prim D → Type
  | .now => Time
  | .blake3 _ => D
  | .lock _ => Unit
  | .unlock _ => Unit
  | .getChunk _ => Option (ChunkIndexEntry D)
  | .getRecipe _ => Option (ObjectRecipe D)
  | .getManifest _ => Option (Manifest D)
  | .getAnnotated _ => Option (PackedAnnotationEntry D)
  | .getSourceIndex _ => Option (SourceIndexEntry D)
  | .getSourceAlias _ => Option (SourceAliasEntry D)
  | .getCompoundParents _ => Option (CompoundParentIndex D)
  | .getLatest _ => Option (ProjectionChange D)
  | .scanManifests => List (D × Manifest D)
  | .scanRecipes => List (D × ObjectRecipe D)
  | .scanChunks => List (D × ChunkIndexEntry D)
  | .scanAnnotated _ => List (AnnotatedKey D × PackedAnnotationEntry D)
  | .scanChanges _ => List (ChangeKey D × ProjectionChange D)
  | .snapshot => Meta D
  | .commit _ => Unit
  | .activeDictionary _ => Except String (String × Bytes)
  | .readDictionaryBytes _ => Option Bytes
  | .appendToActivePackNoSync _ => Nat × Nat
  | .forgetActivePack => Unit
  | .syncPack _ => Bool
  | .syncPackDir => Unit
  | .activePack => Nat × Nat
  | .readPackDir => List Nat
  | .statPack _ => Option Nat
  | .readPack _ _ _ => Except PackReadError Bytes
  | .removePack _ => Unit
  | .cacheGet _ => Option Bytes
  | .cachePut _ _ => Unit

/-- The highest-numbered pack and its size, `(0, 0)` when there is none. -/
def highestPack (packs : OrdMap Nat PackFile) : Nat × Nat :=
  match packs.entries.getLast? with
  | none => (0, 0)
  | some (id, pack) => (id, pack.bytes.length)

/-- `O_CREATE|O_APPEND`: extend the file, or start it. -/
def appendPack (packs : OrdMap Nat PackFile) (id : Nat) (bytes : Bytes) : OrdMap Nat PackFile :=
  match packs.get id with
  | none => packs.set id { bytes := bytes }
  | some pack => packs.set id { pack with bytes := pack.bytes ++ bytes }

/-- The pack the next append goes to and the size it is taken to have:
`cachedActivePack`, then rotation when it is full. -/
def appendTarget (w : World D) : Nat × Nat :=
  let known := w.active.getD (highestPack w.packs)
  if known.2 ≥ packTargetBytes then (known.1 + 1, 0) else known

/-- fsync of a pack file. -/
def syncFile (packs : OrdMap Nat PackFile) (id : Nat) : OrdMap Nat PackFile :=
  match packs.get id with
  | none => packs
  | some pack => packs.set id { pack with synced := pack.bytes.length }

/-- fsync of the pack directory: every entry in it is on disk. -/
def linkPacks (packs : OrdMap Nat PackFile) : OrdMap Nat PackFile where
  entries := packs.entries.map fun item => (item.1, { item.2 with linked := true })
  sorted := by
    rw [List.pairwise_map]
    exact packs.sorted

/-- Bytes `[offset, offset + length)` of a pack. -/
def readPackAt (packs : OrdMap Nat PackFile) (id offset length : Nat) :
    Except PackReadError Bytes :=
  match packs.get id with
  | none => .error .notExist
  | some pack =>
    if offset + length ≤ pack.bytes.length then .ok ((pack.bytes.drop offset).take length)
    else .error .unexpectedEOF

/-- What each request does. Only taking a lock that is held has to wait. -/
def handle (E : Env D) : (p : Prim D) → World D → Option (Resp p × World D)
  | .now, w => some (w.clock 0, { w with clock := fun n => w.clock (n + 1) })
  | .blake3 content, w => some (E.blake3Hex content, w)
  | .lock l, w => if l ∈ w.locks then none else some ((), { w with locks := l :: w.locks })
  | .unlock l, w => some ((), { w with locks := w.locks.erase l })
  | .getChunk hash, w => some (w.db.chunks.get hash, w)
  | .getRecipe digest, w => some (w.db.recipes.get digest, w)
  | .getManifest digest, w => some (w.db.manifests.get digest, w)
  | .getAnnotated key, w => some (w.db.annotated.get key, w)
  | .getSourceIndex key, w => some (w.db.sourceIndex.get key, w)
  | .getSourceAlias key, w => some (w.db.sourceAlias.get key, w)
  | .getCompoundParents digest, w => some (w.db.compoundParents.get digest, w)
  | .getLatest digest, w => some (w.db.latest.get digest, w)
  | .scanManifests, w => some (w.db.manifests.entries, w)
  | .scanRecipes, w => some (w.db.recipes.entries, w)
  | .scanChunks, w => some (w.db.chunks.entries, w)
  | .scanAnnotated digest, w =>
    some (w.db.annotated.entries.filter fun item => (ofLex item.1).1 = digest, w)
  | .scanChanges lower, w =>
    some (w.db.changes.entries.filter fun item =>
      decide (lower ≤ toLex ((ofLex item.1).1, (ofLex (ofLex item.1).2).1)), w)
  | .snapshot, w => some (w.db, w)
  | .commit writes, w => some ((), { w with db := w.db.applyAll writes })
  | .activeDictionary family, w =>
    some ((activeDictionary w.dicts family).1,
      { w with dicts := (activeDictionary w.dicts family).2 })
  | .readDictionaryBytes id, w => some (w.dicts.files.get id, w)
  | .appendToActivePackNoSync bytes, w =>
    let target := appendTarget w
    some (target,
      { w with
        packs := appendPack w.packs target.1 bytes
        active := some (target.1, target.2 + bytes.length) })
  | .forgetActivePack, w => some ((), { w with active := none })
  | .syncPack id, w => some (w.packs.has id, { w with packs := syncFile w.packs id })
  | .syncPackDir, w => some ((), { w with packs := linkPacks w.packs })
  | .activePack, w => some (highestPack w.packs, w)
  | .readPackDir, w => some (w.packs.entries.map Prod.fst, w)
  | .statPack id, w => some ((w.packs.get id).map fun pack => pack.bytes.length, w)
  | .readPack id offset length, w => some (readPackAt w.packs id offset length, w)
  | .removePack id, w => some ((), { w with packs := w.packs.erase id })
  | .cacheGet hash, w =>
    some ((cacheLookup w.chunkCache hash).1,
      { w with chunkCache := (cacheLookup w.chunkCache hash).2 })
  | .cachePut hash value, w =>
    some ((), { w with chunkCache := cacheInsert w.chunkCache hash value })

/-- A store operation. -/
abbrev Proc (D : Type) [LinearOrder D] (α : Type) : Type := Prog (Prim D) Resp α

/-- Run a store operation alone. -/
abbrev runAlone (E : Env D) {α : Type} (p : Proc D α) (w : World D) :
    Option (Except String α × World D) :=
  p.run (handle E) w

/-- Ask one request. -/
abbrev ask (p : Prim D) : Proc D (Resp p) := Prog.ask p

/-- A critical section: the lock is released on every path out of it. -/
def withLock {α : Type} (l : LockName D) (p : Proc D α) : Proc D α := do
  ask (.lock l)
  p.deferring (ask (.unlock l))

/-! ## What a batch does to a table -/

/-- One key of one table after a batch: the last record for it, or what was there. The records
of the table are those `record` makes. -/
theorem Meta.applyAll_table {K V : Type} [LinearOrder K] (table : Meta D → OrdMap K V)
    (record : K → Option V → Write D)
    (hput : ∀ m key value, table (Meta.apply m (record key value)) = (table m).put key value)
    (hrest : ∀ m write, (∀ key value, write ≠ record key value) →
      table (Meta.apply m write) = table m) (m : Meta D) (writes : List (Write D)) (key : K) :
    (∃ value, record key value ∈ writes ∧ (table (m.applyAll writes)).get key = value) ∨
      ((∀ value, record key value ∉ writes) ∧
        (table (m.applyAll writes)).get key = (table m).get key) := by
  induction writes generalizing m with
  | nil => exact Or.inr ⟨by simp, rfl⟩
  | cons write rest ih =>
    rcases ih (m.apply write) with ⟨value, hmem, hget⟩ | ⟨hnone, hget⟩
    · exact Or.inl ⟨value, List.mem_cons_of_mem _ hmem, hget⟩
    · -- no later record for the key: this one decides, or what was there
      by_cases hkey : ∃ value, write = record key value
      · obtain ⟨value, rfl⟩ := hkey
        refine Or.inl ⟨value, List.mem_cons_self .., hget.trans ?_⟩
        rw [hput]
        exact OrdMap.get_put_self ..
      · refine Or.inr ⟨fun value hmem => ?_, hget.trans ?_⟩
        · rcases List.mem_cons.mp hmem with heq | hmem
          · exact hkey ⟨value, heq.symm⟩
          · exact hnone value hmem
        · by_cases hother : ∃ other value, write = record other value
          · obtain ⟨other, value, rfl⟩ := hother
            rw [hput]
            exact OrdMap.get_put_ne _ _ fun heq => hkey ⟨value, by rw [heq]⟩
          · rw [hrest m write fun other value heq => hother ⟨other, value, heq⟩]

theorem Meta.applyAll_chunks (m : Meta D) (writes : List (Write D)) (hash : D) :
    (∃ value, Write.chunk hash value ∈ writes ∧
        (m.applyAll writes).chunks.get hash = value) ∨
      ((∀ value, Write.chunk hash value ∉ writes) ∧
        (m.applyAll writes).chunks.get hash = m.chunks.get hash) := by
  refine Meta.applyAll_table Meta.chunks Write.chunk (fun _ _ _ => rfl) ?_ m writes hash
  intro m write hne
  cases write with
  | chunk key value => exact absurd rfl (hne key value)
  | _ => rfl

theorem Meta.applyAll_recipes (m : Meta D) (writes : List (Write D)) (digest : D) :
    (∃ value, Write.recipe digest value ∈ writes ∧
        (m.applyAll writes).recipes.get digest = value) ∨
      ((∀ value, Write.recipe digest value ∉ writes) ∧
        (m.applyAll writes).recipes.get digest = m.recipes.get digest) := by
  refine Meta.applyAll_table Meta.recipes Write.recipe (fun _ _ _ => rfl) ?_ m writes digest
  intro m write hne
  cases write with
  | recipe key value => exact absurd rfl (hne key value)
  | _ => rfl

theorem Meta.applyAll_manifests (m : Meta D) (writes : List (Write D)) (digest : D) :
    (∃ value, Write.manifest digest value ∈ writes ∧
        (m.applyAll writes).manifests.get digest = value) ∨
      ((∀ value, Write.manifest digest value ∉ writes) ∧
        (m.applyAll writes).manifests.get digest = m.manifests.get digest) := by
  refine Meta.applyAll_table Meta.manifests Write.manifest (fun _ _ _ => rfl) ?_ m writes digest
  intro m write hne
  cases write with
  | manifest key value => exact absurd rfl (hne key value)
  | _ => rfl

theorem Meta.applyAll_annotated (m : Meta D) (writes : List (Write D)) (row : AnnotatedKey D) :
    (∃ value, Write.annotated row value ∈ writes ∧
        (m.applyAll writes).annotated.get row = value) ∨
      ((∀ value, Write.annotated row value ∉ writes) ∧
        (m.applyAll writes).annotated.get row = m.annotated.get row) := by
  refine Meta.applyAll_table Meta.annotated Write.annotated (fun _ _ _ => rfl) ?_ m writes row
  intro m write hne
  cases write with
  | annotated key value => exact absurd rfl (hne key value)
  | _ => rfl

/-! ## What a request leaves alone -/

variable {E : Env D} {w w' : World D} {p : Prim D} {l : LockName D}

/-- The choice of a dictionary, answer and effect. -/
theorem handle_activeDictionary {family : String} {r : Except String (String × Bytes)}
    (h : handle E (.activeDictionary family) w = some (r, w')) :
    r = (activeDictionary w.dicts family).1 ∧ w'.dicts = (activeDictionary w.dicts family).2 := by
  rw [handle] at h
  simp only [Option.some.injEq, Prod.mk.injEq] at h
  obtain ⟨hr, hw⟩ := h
  exact ⟨hr.symm, by rw [← hw]⟩

/-- The part of the world a request may change. -/
inductive Footprint : Type where
  | nothing : Footprint
  | db : Footprint
  | packs : Footprint
  | dicts : Footprint
  | chunkCache : Footprint
  | locks : Footprint
  | clock : Footprint
  deriving DecidableEq

/-- The part each request may change. -/
def Prim.footprint : Prim D → Footprint
  | .now => .clock
  | .lock _ => .locks
  | .unlock _ => .locks
  | .commit _ => .db
  | .activeDictionary _ => .dicts
  | .appendToActivePackNoSync _ => .packs
  | .forgetActivePack => .packs
  | .syncPack _ => .packs
  | .syncPackDir => .packs
  | .removePack _ => .packs
  | .cacheGet _ => .chunkCache
  | .cachePut _ _ => .chunkCache
  | _ => .nothing

/-- Two worlds agree but for one part. -/
structure SameBut (part : Footprint) (w w' : World D) : Prop where
  db : part ≠ .db → w'.db = w.db
  packs : part ≠ .packs → w'.packs = w.packs
  active : part ≠ .packs → w'.active = w.active
  dicts : part ≠ .dicts → w'.dicts = w.dicts
  chunkCache : part ≠ .chunkCache → w'.chunkCache = w.chunkCache
  locks : part ≠ .locks → w'.locks = w.locks

/-- A request changes its part of the world only. -/
theorem handle_sameBut {r : Resp p} (h : handle E p w = some (r, w')) :
    SameBut p.footprint w w' := by
  cases p with
  | lock l =>
    rw [handle] at h
    split at h
    · cases h
    · cases h
      exact ⟨fun _ => rfl, fun _ => rfl, fun _ => rfl, fun _ => rfl, fun _ => rfl,
        fun hne => absurd rfl hne⟩
  | _ =>
    have hw : w' = _ := (congrArg Prod.snd (Option.some.inj h)).symm
    constructor <;> intro hne <;> first | exact absurd rfl hne | (rw [hw])

/-- Only reading the clock moves it. -/
theorem handle_clock {r : Resp p} (hp : p.footprint ≠ .clock) (h : handle E p w = some (r, w')) :
    w'.clock = w.clock := by
  cases p with
  | now => exact absurd rfl hp
  | lock l =>
    rw [handle] at h
    split at h
    · cases h
    · cases h
      rfl
  | _ =>
    have hw : w' = _ := (congrArg Prod.snd (Option.some.inj h)).symm
    rw [hw]

/-! ## Critical sections, run alone -/

/-- A free lock is taken for the time of the body. -/
theorem withLock_alone {α : Type} {p : Proc D α} {Q : Except String α → World D → Prop}
    (hl : l ∉ w.locks) (hp : p.wp (handle E) { w with locks := l :: w.locks } fun r w' =>
      Q r { w' with locks := w'.locks.erase l }) : (withLock l p).wp (handle E) w Q := by
  have hlock : handle E (.lock l) w = some ((), { w with locks := l :: w.locks }) := if_neg hl
  refine Prog.wp_ask_bind hlock (Prog.wp_deferring.mpr (Prog.wp_mono hp ?_))
  intro r w' hq
  exact ⟨(), _, rfl, hq⟩

/-- A critical section that ran found its lock free. -/
theorem withLock_free {α : Type} {p : Proc D α} {out : Except String α × World D}
    (h : runAlone E (withLock l p) w = some out) : l ∉ w.locks := by
  intro hl
  have hlock : handle E (.lock l) w = none := if_pos hl
  have hstuck : runAlone E (withLock l p) w = none := by
    show Prog.run (handle E) (.call (.lock l) _) w = none
    rw [Prog.run, hlock]
  rw [hstuck] at h
  cases h

end

end Gmeow
