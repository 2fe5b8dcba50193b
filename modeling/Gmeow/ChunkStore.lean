import Gmeow.Chunker
import Gmeow.World

/-!
# The chunk store

The content tier: a blob is cut into chunks, each chunk is stored once under its
hash, and a *recipe* lists the chunk hashes of the blob. Two write regimes share
the code: the batched one buffers every metadata record of one object in a
`CommitBatch` and commits it after syncing the packs it touched, the synchronous
one commits record by record.

Reading goes the other way: `readChunk` through the cache, the chunk index and the
pack, `ChunkRecipeReader` chunk by chunk behind an `io.Reader`.
-/

namespace Gmeow

open Prog (ofExcept)

variable {D : Type} [LinearOrder D]

/-! ## Batches and sinks -/

/-- `commitBatch`: the records buffered so far, the packs appended to, the chunks
this object already refers to. -/
structure CommitBatch (D : Type) [LinearOrder D] : Type where
  writes : List (Write D) := []
  touchedPacks : List Nat := []
  seen : List D := []

/-- Buffer one record. -/
def CommitBatch.add (cb : CommitBatch D) (write : Write D) : CommitBatch D :=
  { cb with writes := cb.writes ++ [write] }

/-- Remember a chunk of this object. -/
def CommitBatch.see (cb : CommitBatch D) (hash : D) : CommitBatch D :=
  { cb with seen := hash :: cb.seen }

/-- `metaSink`: commit each record at once, or buffer it. -/
inductive Sink (D : Type) [LinearOrder D] : Type where
  /-- `syncSink` -/
  | sync : Sink D
  /-- a `commitBatch` -/
  | batch : CommitBatch D → Sink D

/-- `metaSink.set` and `metaSink.delete`. -/
def Sink.write : Sink D → Write D → Proc D (Sink D)
  | .sync, write => do
    ask (.commit [write])
    return .sync
  | .batch cb, write => return .batch (cb.add write)

/-- The path of a pack below the store root. -/
def packPath (id : Nat) : String :=
  let digits := Nat.toDigits 10 id
  "chunk-packs/" ++ String.ofList (List.replicate (10 - digits.length) '0' ++ digits) ++ ".pack"

/-- The `ENOENT` of opening a pack. -/
def packNotExist (id : Nat) : String := "open " ++ packPath id ++ ": no such file or directory"

/-- The loop of `syncTouchedPacks`: a pack that is gone is an error. -/
def syncEach : List Nat → Proc D Unit
  | [] => return ()
  | id :: rest => do
    if ← ask (.syncPack id) then syncEach rest
    else .fail (packNotExist id)

/-- `syncTouchedPacks`. -/
def syncTouchedPacks (packs : List Nat) : Proc D Unit :=
  if packs = [] then return ()
  else do
    syncEach packs
    ask .syncPackDir

/-- `commitBatch.commit`: the packs first, then the records. -/
def CommitBatch.commit (cb : CommitBatch D) : Proc D Unit := do
  syncTouchedPacks cb.touchedPacks
  ask (.commit cb.writes)

/-- Commit what a sink has buffered. -/
def Sink.commit : Sink D → Proc D Unit
  | .sync => return ()
  | .batch cb => cb.commit

/-! ## Writing chunks -/

/-- `compressChunkContent`: compressed bytes, dictionary id and family. -/
def compressChunkContent (E : Env D) (chunk : Bytes) (family : String) :
    Proc D (Bytes × String × String) := do
  let (id, dict) ← ofExcept (← ask (.activeDictionary family))
  if dict ≠ [] ∧ parseUint32 id = none then
    .fail ("invalid dictionary id \"" ++ id ++ "\"")
  else
    let sanitized := sanitizeDictionaryFamily family
    return (E.zstdEncode dict chunk, id,
      if sanitized ≠ "" ∧ sanitized ≠ opaqueBinary then sanitized else "")

/-- `appendToActivePack`: append, then make it durable. -/
def appendToActivePack (compressed : Bytes) : Proc D (Nat × Nat) := do
  let target ← ask (.appendToActivePackNoSync compressed)
  if ← ask (.syncPack target.1) then
    ask .syncPackDir
    return target
  else
    ask .forgetActivePack
    .fail (packNotExist target.1)

/-- The index entry of a chunk just appended. -/
def newChunkEntry (now : Time) (hash : D) (compressed : Bytes) (dictID dictFamily : String)
    (target : Nat × Nat) : ChunkIndexEntry D where
  updatedAt := now
  chunkHash := hash
  dictID := dictID
  dictFamily := dictFamily
  packID := target.1
  offset := target.2
  length := compressed.length

/-- `storeChunk`. -/
def storeChunk (E : Env D) (chunk : Bytes) (family : String) : Proc D D := do
  let hash ← ask (.blake3 chunk)
  if (← ask (.getChunk hash)).isSome then return hash
  else
    let (compressed, dictID, dictFamily) ← compressChunkContent E chunk family
    withLock .packMu do
      -- re-check under the lock
      if (← ask (.getChunk hash)).isSome then return hash
      else
        let target ← appendToActivePack compressed
        let now ← ask .now
        ask (.commit [.chunk hash (some (newChunkEntry now hash compressed dictID dictFamily target))])
        return hash

/-- `storeChunkBatched`: dedup against this object, the committed index, and the
committed index again under `packMu`; otherwise append without syncing. -/
def storeChunkBatched (E : Env D) (cb : CommitBatch D) (chunk : Bytes) (family : String) :
    Proc D (D × CommitBatch D) := do
  let hash ← ask (.blake3 chunk)
  if hash ∈ cb.seen then return (hash, cb)
  else if (← ask (.getChunk hash)).isSome then return (hash, cb.see hash)
  else
    let (compressed, dictID, dictFamily) ← compressChunkContent E chunk family
    withLock .packMu do
      if (← ask (.getChunk hash)).isSome then return (hash, cb.see hash)
      else
        let target ← ask (.appendToActivePackNoSync compressed)
        let now ← ask .now
        let entry := newChunkEntry now hash compressed dictID dictFamily target
        let cb := cb.add (.chunk hash (some entry))
        return (hash, { cb.see hash with touchedPacks := cb.touchedPacks.insert target.1 })

/-! ## Writing blobs -/

/-- Store the chunks of a blob one by one, synchronously. -/
def storeChunks (E : Env D) (family : String) : List Bytes → Proc D (List D)
  | [] => return []
  | chunk :: rest => do
    let hash ← storeChunk E chunk family
    let hashes ← storeChunks E family rest
    return hash :: hashes

/-- Store the chunks of a blob one by one, buffering the index entries. -/
def storeChunksBatched (E : Env D) (family : String) :
    CommitBatch D → List Bytes → Proc D (List D × CommitBatch D)
  | cb, [] => return ([], cb)
  | cb, chunk :: rest => do
    let (hash, cb) ← storeChunkBatched E cb chunk family
    let (hashes, cb) ← storeChunksBatched E family cb rest
    return (hash :: hashes, cb)

/-- `storeBlobContent`. -/
def storeBlobContent (E : Env D) (digest : D) (content : Bytes) (mediaType : String)
    (contentRoles : List String) : Proc D Unit := do
  let now ← ask .now
  let hashes ← storeChunks E (dictionaryFamilyForObject E.parseMediaType mediaType contentRoles)
    (chunkContent content)
  ask (.commit [.recipe digest (some
    { updatedAt := now, digest := digest, chunkHashes := hashes
      contentBytes := content.length })])

/-- `storeBlobContentBatched`; the recipe is stamped before the chunks are stored. -/
def storeBlobContentBatched (E : Env D) (cb : CommitBatch D) (digest : D) (content : Bytes)
    (mediaType : String) (contentRoles : List String) : Proc D (CommitBatch D) := do
  let now ← ask .now
  let (hashes, cb) ← storeChunksBatched E
    (dictionaryFamilyForObject E.parseMediaType mediaType contentRoles) cb (chunkContent content)
  return cb.add (.recipe digest (some
    { updatedAt := now, digest := digest, chunkHashes := hashes
      contentBytes := content.length }))

/-- `storeBlobReaderBatched`: digest, SHA-256 and length of what was read. The
recipe is stamped after the chunks are stored. -/
def storeBlobReaderBatched (E : Env D) (cb : CommitBatch D) (reader : Reader)
    (mediaType : String) (contentRoles : List String) :
    Proc D ((D × String × Nat) × CommitBatch D) := do
  let (chunks, failure) := streamChunks reader
  let (hashes, cb) ← storeChunksBatched E
    (dictionaryFamilyForObject E.parseMediaType mediaType contentRoles) cb chunks
  match failure with
  | some e => .fail e
  | none =>
    let digest ← ask (.blake3 reader.content)
    let now ← ask .now
    return ((digest, E.sha256Hex reader.content, reader.content.length),
      cb.add (.recipe digest (some
        { updatedAt := now, digest := digest, chunkHashes := hashes
          contentBytes := reader.content.length })))

/-! ## Reading chunks -/

/-- Why a chunk could not be read; `notExist` is `errors.Is(err, os.ErrNotExist)`. -/
structure ReadFailure : Type where
  notExist : Bool
  message : String

/-- `decompressChunkContent`. -/
def decompressChunkContent (E : Env D) (compressed : Bytes) (dictID : String) :
    Proc D (Except ReadFailure Bytes) := do
  if dictID = "" then
    match E.zstdDecode [] compressed with
    | none => return .error ⟨false, "zstd: invalid input"⟩
    | some chunk => return .ok chunk
  else
    match ← ask (.readDictionaryBytes dictID) with
    | none =>
      return .error ⟨true, "open dictionaries/" ++ dictID ++ ".dict: no such file or directory"⟩
    | some dict =>
      if parseUint32 dictID = none then
        return .error ⟨false, "invalid dictionary id \"" ++ dictID ++ "\""⟩
      else
        match E.zstdDecode dict compressed with
        | none => return .error ⟨false, "zstd: invalid input"⟩
        | some chunk => return .ok chunk

/-- `readChunkAt`: the chunk at an index entry, verified against its hash. -/
def readChunkAt (E : Env D) (hash : D) (entry : ChunkIndexEntry D) :
    Proc D (Except ReadFailure Bytes) := do
  match ← ask (.readPack entry.packID entry.offset entry.length) with
  | .error .notExist => return .error ⟨true, packNotExist entry.packID⟩
  | .error .unexpectedEOF =>
    return .error ⟨false, "read chunk " ++ E.text hash ++ " from pack " ++
      toString entry.packID ++ ": EOF"⟩
  | .ok compressed =>
    match ← decompressChunkContent E compressed entry.dictID with
    | .error e =>
      return .error ⟨e.notExist, "decompress chunk " ++ E.text hash ++ ": " ++ e.message⟩
    | .ok chunk =>
      let actual ← ask (.blake3 chunk)
      if actual ≠ hash then
        return .error ⟨false, "chunk " ++ E.text hash ++ " failed content verification"⟩
      else return .ok chunk

/-- `readChunk`: the cache, then the index and the pack; a pack that is gone is
looked up once more. -/
def readChunk (E : Env D) (hash : D) : Proc D (Except String Bytes) := do
  match ← ask (.cacheGet hash) with
  | some cached => return .ok cached
  | none =>
    match ← ask (.getChunk hash) with
    | none => return .error ("chunk " ++ E.text hash ++ " not found in index")
    | some entry =>
      match ← readChunkAt E hash entry with
      | .ok chunk =>
        ask (.cachePut hash chunk)
        return .ok chunk
      | .error e =>
        if e.notExist then
          match ← ask (.getChunk hash) with
          | none => return .error ("chunk " ++ E.text hash ++ " not found in index")
          | some fresh =>
            match ← readChunkAt E hash fresh with
            | .ok chunk =>
              ask (.cachePut hash chunk)
              return .ok chunk
            | .error e => return .error e.message
        else return .error e.message

/-- The loop of `readBlobContent`. -/
def readChunks (E : Env D) : List D → Proc D Bytes
  | [] => return []
  | hash :: rest => do
    let chunk ← ofExcept (← readChunk E hash)
    let content ← readChunks E rest
    return chunk ++ content

/-- `readBlobContent`; `none` when there is no recipe. -/
def readBlobContent (E : Env D) (digest : D) : Proc D (Option Bytes) := do
  match ← ask (.getRecipe digest) with
  | none => return none
  | some recipe =>
    let content ← readChunks E recipe.chunkHashes
    return some content

/-! ## The streaming reader -/

/-- `chunkRecipeReader`: the chunks still to fetch, the bytes fetched and not yet
handed out, and what went into the hasher. -/
structure ChunkRecipeReader (D : Type) : Type where
  hashes : List D
  pending : Bytes := []
  verifyDigest : Option D
  hasher : Bytes := []
  verified : Bool := false

/-- The outcome of one `Read`. -/
inductive ReadOutcome : Type where
  | bytes : Bytes → ReadOutcome
  | eof : ReadOutcome
  | error : String → ReadOutcome

/-- The loop of `Read`: fetch chunks until one is not empty. Returns its bytes,
none at the end of the recipe, the hashes left and the hasher's input. -/
def fetchPending (E : Env D) (verify : Bool) :
    List D → Bytes → Proc D (Except String Bytes × List D × Bytes)
  | [], hasher => return (.ok [], [], hasher)
  | hash :: rest, hasher => do
    match ← readChunk E hash with
    | .error e => return (.error e, hash :: rest, hasher)
    | .ok chunk =>
      let hasher := if verify then hasher ++ chunk else hasher
      if chunk = [] then fetchPending E verify rest hasher
      else return (.ok chunk, rest, hasher)

/-- The end of `Read`: hand out what is pending, or, at the end of the recipe, verify
the digest once. -/
def ChunkRecipeReader.handOut (E : Env D) (reader : ChunkRecipeReader D) (pending : Bytes)
    (size : Nat) : Proc D (ReadOutcome × ChunkRecipeReader D) := do
  if pending ≠ [] then
    return (.bytes (pending.take size), { reader with pending := pending.drop size })
  else
    match reader.verifyDigest, reader.verified with
    | some digest, false =>
      let actual ← ask (.blake3 reader.hasher)
      let reader := { reader with verified := true }
      if actual ≠ digest then
        return (.error ("CAS digest mismatch for " ++ E.text digest ++ ": got " ++ E.text actual),
          reader)
      else return (.eof, reader)
    | _, _ => return (.eof, reader)

/-- `chunkRecipeReader.Read` into a buffer of `size` bytes. -/
def ChunkRecipeReader.read (E : Env D) (reader : ChunkRecipeReader D) (size : Nat) :
    Proc D (ReadOutcome × ChunkRecipeReader D) := do
  let (got, hashes, hasher) ←
    if reader.pending = [] then fetchPending E reader.verifyDigest.isSome reader.hashes reader.hasher
    else (return (.ok reader.pending, reader.hashes, reader.hasher))
  let reader := { reader with hashes := hashes, hasher := hasher, pending := [] }
  match got with
  | .error e => return (.error e, reader)
  | .ok pending => reader.handOut E pending size

/-- `openBlobReader`; `none` when there is no recipe. -/
def openBlobReader (digest : D) (verifyDigest : Option D) :
    Proc D (Option (ChunkRecipeReader D)) := do
  match ← ask (.getRecipe digest) with
  | none => return none
  | some recipe => return some { hashes := recipe.chunkHashes, verifyDigest := verifyDigest }

/-- Read to the first `io.EOF`, the `n`-th call with a buffer of `sizes n` bytes;
at most `fuel` calls. -/
def readToEOF (E : Env D) (sizes : Nat → Nat) :
    Nat → ChunkRecipeReader D → Proc D Bytes
  | 0, _ => .fail "short read"
  | fuel + 1, reader => do
    match ← reader.read E (sizes 0) with
    | (.error e, _) => .fail e
    | (.eof, _) => return []
    | (.bytes got, reader) =>
      let rest ← readToEOF E (fun n => sizes (n + 1)) fuel reader
      return got ++ rest

end Gmeow
