import Gmeow.Store

/-!
# Garbage collection and repacking

Both maintenance passes run online, next to serving operations, and serialize only
against each other (`maintenanceMu`).

* `gcWithGrace` marks from a snapshot, re-scans the live recipes for objects committed
  since it started, and deletes the chunk entries and orphan recipes left over.
* `repack` copies the live chunks out of every sealed pack that holds dead bytes,
  repoints their index entries, and removes the pack.

What a pass decides from what it has read is a pure function (`deadChunks`,
`orphanRecipes`, `liveIn`), so that the decision can be spoken about apart from the
moment it is carried out.
-/

namespace Gmeow

open Prog (ofExcept)

variable {D : Type} [LinearOrder D]

/-! ## Garbage collection -/

/-- `GCReport`. -/
structure GCReport : Type where
  scannedChunks : Nat := 0
  sweptChunks : Nat := 0
  retainedChunks : Nat := 0
  sweptRecipes : Nat := 0
  deriving DecidableEq

/-- The blobs that back externalized annotations. -/
def annotationPayloads (m : Meta D) : List D :=
  m.annotated.entries.filterMap fun item => item.2.externalDigest

/-- Whether the mark phase keeps a recipe: its object exists, it backs an annotation,
or it is younger than the grace window. -/
def keepsRecipe (m : Meta D) (graceCutoff : Time) (item : D × ObjectRecipe D) : Bool :=
  m.manifests.has item.1 || (annotationPayloads m).contains item.1 ||
    !decide (item.2.updatedAt < graceCutoff)

/-- The chunks the snapshot's kept recipes refer to, and those of recipes stamped
since the pass started. -/
def liveChunks (m : Meta D) (graceCutoff gcStart : Time) (rescan : List (D × ObjectRecipe D)) :
    List D :=
  (m.recipes.entries.filter (keepsRecipe m graceCutoff)).flatMap (fun item => item.2.chunkHashes) ++
    (rescan.filter fun item => !decide (item.2.updatedAt < gcStart)).flatMap
      fun item => item.2.chunkHashes

/-- The recipes the mark phase does not keep. -/
def orphanRecipes (m : Meta D) (graceCutoff : Time) : List D :=
  (m.recipes.entries.filter fun item => !keepsRecipe m graceCutoff item).map Prod.fst

/-- The chunk entries to sweep: not live, and older than the grace window. -/
def deadChunks (m : Meta D) (graceCutoff gcStart : Time) (rescan : List (D × ObjectRecipe D)) :
    List D :=
  (m.chunks.entries.filter fun item =>
    !(liveChunks m graceCutoff gcStart rescan).contains item.2.chunkHash &&
      decide (item.2.updatedAt < graceCutoff)).map Prod.fst

/-- The re-check of the orphans against the live store. -/
def stillOrphans : List D → Proc D (List D)
  | [] => return []
  | digest :: rest => do
    let present := (← ask (.getManifest digest)).isSome
    let swept ← stillOrphans rest
    return if present then swept else digest :: swept

/-- `gcWithGrace`. -/
def gcWithGrace (grace : Int) : Proc D GCReport :=
  withLock .maintenanceMu do
    let gcStart ← ask .now
    let graceCutoff := gcStart - grace
    let snapshot ← ask .snapshot
    let rescan ← ask .scanRecipes
    let dead := deadChunks snapshot graceCutoff gcStart rescan
    ask (.commit (dead.map fun hash => .chunk hash none))
    let swept ← stillOrphans (orphanRecipes snapshot graceCutoff)
    ask (.commit (swept.map fun digest => .recipe digest none))
    return { scannedChunks := snapshot.chunks.entries.length
             sweptChunks := dead.length
             retainedChunks := snapshot.chunks.entries.length - dead.length
             sweptRecipes := swept.length }

/-- `gcGracePeriod`, 15 minutes. -/
def gcGracePeriod : Int := 15 * 60 * 1000000000

/-- `Gc`. -/
def gc : Proc D GCReport := gcWithGrace gcGracePeriod

/-! ## Repacking -/

/-- `RepackReport`. -/
structure RepackReport : Type where
  packsScanned : Nat := 0
  packsRepacked : Nat := 0
  packsRemoved : Nat := 0
  chunksMoved : Nat := 0
  bytesBefore : Nat := 0
  bytesAfter : Nat := 0

/-- `livePerPack[id]`. -/
def liveIn (entries : List (D × ChunkIndexEntry D)) (id : Nat) : List (ChunkIndexEntry D) :=
  (entries.map Prod.snd).filter fun entry => entry.packID = id

/-- `liveBytes[id]`. -/
def liveBytes (live : List (ChunkIndexEntry D)) : Nat := (live.map fun entry => entry.length).sum

/-- The sum over a directory listing; an entry that vanished is an error. -/
def sumPackSizes : List Nat → Proc D Nat
  | [] => return 0
  | id :: rest => do
    match ← ask (.statPack id) with
    | none => .fail (packNotExist id)
    | some size =>
      let total ← sumPackSizes rest
      return size + total

/-- `totalPackBytes`. -/
def totalPackBytes : Proc D Nat := do
  let ids ← ask .readPackDir
  sumPackSizes ids

/-- `readPackBytes`. -/
def readPackBytes (id offset length : Nat) : Proc D Bytes := do
  match ← ask (.readPack id offset length) with
  | .ok raw => return raw
  | .error .notExist => .fail (packNotExist id)
  | .error .unexpectedEOF =>
    .fail ("read " ++ toString length ++ " bytes from pack " ++ toString id ++ ": EOF")

/-- `relocateLiveChunks`: copy each chunk to the active pack and repoint its entry,
unless the entry is gone by then. -/
def relocateLiveChunks : List (ChunkIndexEntry D) → Proc D Nat
  | [] => return 0
  | entry :: rest => do
    let raw ← readPackBytes entry.packID entry.offset entry.length
    let target ← withLock .packMu ( appendToActivePack raw)
    if (← ask (.getChunk entry.chunkHash)).isSome then
      let now ← ask .now
      ask (.commit [.chunk entry.chunkHash (some
        { entry with packID := target.1, offset := target.2, updatedAt := now })])
      let moved ← relocateLiveChunks rest
      return moved + 1
    else relocateLiveChunks rest

/-- Copy the live chunks of a pack, if it has any, and count them. -/
def relocatePack (live : List (ChunkIndexEntry D)) (report : RepackReport) :
    Proc D RepackReport := do
  if live = [] then return report
  else
    let moved ← relocateLiveChunks live
    return { report with
      chunksMoved := report.chunksMoved + moved
      packsRepacked := report.packsRepacked + 1 }

/-- The loop of `Repack` over the directory listing. -/
def repackPacks (activeID : Nat) (entries : List (D × ChunkIndexEntry D)) :
    RepackReport → List Nat → Proc D RepackReport
  | report, [] => return report
  | report, id :: rest => do
    let report := { report with packsScanned := report.packsScanned + 1 }
    if id = activeID then repackPacks activeID entries report rest
    else
      match ← ask (.statPack id) with
      | none => .fail (packNotExist id)
      | some size =>
        let live := liveIn entries id
        if live ≠ [] ∧ liveBytes live ≥ size then repackPacks activeID entries report rest
        else
          let report ← relocatePack live report
          ask (.removePack id)
          repackPacks activeID entries { report with packsRemoved := report.packsRemoved + 1 } rest

/-- `Repack`. -/
def repack : Proc D RepackReport :=
  withLock .maintenanceMu do
    let (activeID, _) ← ask .activePack
    let entries ← ask .scanChunks
    let ids ← ask .readPackDir
    let before ← totalPackBytes
    let report ← repackPacks activeID entries { bytesBefore := before } ids
    let after ← totalPackBytes
    return { report with bytesAfter := after }

end Gmeow
