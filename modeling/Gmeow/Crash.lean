import Gmeow.Relocating

/-!
# Crashes

A crash stops a call between two of its requests. What survives it is the metadata
database, where every batch is synced, the packs whose directory entry is on disk, up to
the length that is, and the dictionary files; what was appended and not synced may be
gone, torn at any byte, or anything.

* `Crashed` — what a crash leaves of a store;
* `Reachable` — the stores reached by calls and crashes;
* `Reachable.sound` — they are sound if no crash came between the two sweeps of a
  collection, which are two batches (`SweepsWhole`);
* `ingest_crash_atomic` — a `put` or `putCompound` interrupted anywhere leaves a sound
  store, in which its object is there completely or the tables are as before;
* `recipe_without_chunks` — a crash between the sweeps leaves a recipe without its chunks,
  which no later call repairs but a collection;
* `gc_exact` — what a collection leaves, wherever earlier ones were interrupted.
-/

namespace Gmeow

open Prog

variable {D : Type} [LinearOrder D] {E : Env D} {w w' w₁ w₂ : World D} {H : Bytes → Prop}

seal put putCompound attachProvenance writeAnnotationRecord writeOverlays deleteObject
  deleteImport repack

/-! ## What a crash leaves -/

/-- A store after a crash and a restart. -/
structure Crashed (w w' : World D) : Prop where
  db : w'.db = w.db
  /-- a pack whose entry is on disk keeps the bytes that are -/
  packs : ∀ id pack, w.packs.get id = some pack → pack.linked = true →
    ∃ pack', w'.packs.get id = some pack' ∧ pack.bytes.take pack.synced <+: pack'.bytes ∧
      pack.synced ≤ pack'.synced ∧ pack'.linked = true
  /-- what is on disk is part of the file -/
  synced : ∀ id pack, w'.packs.get id = some pack → pack.synced ≤ pack.bytes.length
  files : FilesKept w.dicts w'.dicts
  /-- the new process knows nothing yet -/
  unloaded : w'.dicts.active = none
  active : w'.active = none
  chunkCache : w'.chunkCache = []
  locks : w'.locks = []

/-- A chunk in the index is in the synced part of its pack, and a crash leaves this part alone. -/
theorem Stored.crashed {hash : D} {entry : ChunkIndexEntry D} {chunk dict : Bytes}
    (hs : Stored E H w hash entry chunk dict) (hc : Crashed w w') :
    Stored E H w' hash entry chunk dict := by
  obtain ⟨pack, hpack, hlinked, hle, hsynced, hslice⟩ := hs.pack
  obtain ⟨pack', hpack', hfront, hlonger, hlinked'⟩ := hc.packs _ _ hpack hlinked
  refine { hs with
    chosen := hc.files.bytes hs.chosen
    pack := ⟨pack', hpack', hlinked', hle.trans hlonger, hc.synced _ _ hpack', ?_⟩ }
  have htake : (pack.bytes.take pack.synced).length = pack.synced := by
    rw [List.length_take]; omega
  calc slice pack'.bytes entry.offset entry.length
      = slice (pack.bytes.take pack.synced) entry.offset entry.length :=
        slice_extended hfront (by omega)
    _ = slice pack.bytes entry.offset entry.length :=
        (slice_extended ( List.take_prefix ..) (by omega)).symm
    _ = E.zstdEncode dict chunk := hslice

/-- A sound store is sound after a crash. -/
theorem Sound.crashed (hs : Sound E H w) (hc : Crashed w w') : Sound E H w' := by
  refine ⟨⟨hc.synced, fun id size hactive => ?_⟩, fun active hactive => ?_, fun hash value hmem => ?_,
    ?_, ?_, ?_, ?_⟩
  · rw [hc.active] at hactive
    cases hactive
  · rw [hc.unloaded] at hactive
    cases hactive
  · rw [hc.chunkCache] at hmem
    cases hmem
  · rw [hc.db]
    intro hash entry hget
    obtain ⟨chunk, dict, hstored⟩ := hs.chunks hash entry hget
    exact ⟨chunk, dict, hstored.crashed hc⟩
  · rw [hc.db]
    exact hs.indexed
  · rw [hc.db]
    exact hs.recipes
  · rw [hc.db]
    exact hs.manifests

/-! ## Reachable stores -/

/-- The stores reached from an empty one by calls, whether they succeed or fail, and by
crashes inside them. `stops` says where a call that began in the first world may stop. -/
inductive Reachable (E : Env D) (stops : Call D → World D → World D → Prop) :
    World D → Prop where
  | empty (clock : Nat → Time) : Reachable E stops { clock := clock }
  | call {op : Call D} {r : Except String (Option D)} {w w' : World D} :
      Reachable E stops w → runAlone E (op.prog E) w = some (r, w') → Reachable E stops w'
  | crash {op : Call D} {w w₁ w' : World D} :
      Reachable E stops w → stops op w w₁ →
      Visits (handle E) (op.prog E) w w₁ → Crashed w₁ w' → Reachable E stops w'

/-- A call may stop anywhere. -/
def Anywhere (_ : Call D) (_ _ : World D) : Prop := True

/-- A collection stops when it has committed neither of its sweeps, or both; other calls
stop anywhere. -/
def SweepsWhole (op : Call D) (w w₁ : World D) : Prop :=
  ∀ grace, op = .gcWithGrace grace →
    w₁.db = w.db ∨ w₁.db = swept w.db (w.clock 0 - grace) (w.clock 0)

/-- Run calls one after the other. -/
def runSequence (E : Env D) : List (Call D) → World D → Option (World D)
  | [], w => some w
  | op :: rest, w =>
    match runAlone E (op.prog E) w with
    | none => none
    | some out => runSequence E rest out.2

/-- What a sequence of calls leads to is reachable. -/
theorem Reachable.sequence {stops : Call D → World D → World D → Prop} {calls : List (Call D)}
    (hw : Reachable E stops w) (hrun : runSequence E calls w = some w') : Reachable E stops w' := by
  induction calls generalizing w with
  | nil =>
    cases hrun
    exact hw
  | cons op rest ih =>
    rw [runSequence] at hrun
    cases hop : runAlone E (op.prog E) w with
    | none => rw [hop] at hrun; cases hrun
    | some out =>
      rw [hop] at hrun
      exact ih (hw.call hop) hrun

/-- The compound whose digest a call writes under. -/
def Call.compound (E : Env D) : Call D → Option D
  | .putCompound request => some (E.blake3Hex (compoundIdentity (trimSpace request.objectID)))
  | _ => none

/-- Every call but the maintenance passes keeps `objectContract`. -/
theorem Call.object_obeys (op : Call D) (k : Observed D) (hgc : ∀ grace, op ≠ .gcWithGrace grace)
    (hrepack : op ≠ .repack) :
    (op.prog E).Obeys (objectContract E (op.compound E)) k fun _ _ => True := by
  cases op with
  | put request => exact obeys_void (put_obeys request k)
  | putCompound request => exact obeys_void (putCompound_obeys request k)
  | attachProvenance digest provenance =>
    exact obeys_void (attachProvenance_obeys digest provenance k)
  | writeAnnotationRecord note => exact obeys_void (writeAnnotationRecord_obeys note k)
  | writeOverlays digest overlays => exact obeys_void (writeOverlays_obeys digest overlays k)
  | deleteObject digest => exact obeys_void (deleteObject_obeys digest k)
  | deleteImport sourceKind sourceName =>
    exact obeys_void (deleteImport_obeys sourceKind sourceName k)
  | gcWithGrace grace => exact absurd rfl (hgc grace)
  | repack => exact absurd rfl hrepack

/-- Every state a call but the collector passes through is sound. -/
theorem Sound.visits {hashed : List Bytes} {op : Call D} (hs : Sound E (· ∈ hashed) w)
    (hgc : ∀ grace, op ≠ .gcWithGrace grace) (hv : Visits (handle E) (op.prog E) w w') :
    ∃ hashed' : List Bytes, Sound E (· ∈ hashed') w' := by
  by_cases hrepack : op = .repack
  · subst hrepack
    obtain ⟨-, k, ⟨hi, hu⟩, -⟩ := (obeys_void (repack_obeys hashed)).visits repack_keeps
      ⟨.start hs, rfl, rfl, fun _ h => h, fun _ h => h⟩ hv
    exact ⟨hashed, hs.repacked hi hu⟩
  · have hk : Kept E [] w hashed := ⟨hs, (fun _ h => nomatch h), (fun _ h => nomatch h)⟩
    obtain ⟨-, k, hi, -⟩ := (op.object_obeys { hashed := hashed } hgc hrepack).visits
      (objectContract_keeps _ _) (hk.objectInv fun _ h => nomatch h) hv
    exact ⟨k.hashed, hi.sound⟩

/-- A request that leaves packs and dictionaries alone. -/
def Prim.keepsFiles (p : Prim D) : Bool :=
  decide (p.footprint ≠ .packs) && decide (p.footprint ≠ .dicts)

/-- A collection asks for nothing that touches a file: it reads the tables and deletes rows. -/
theorem gcWithGrace_stays (grace : Int) : ((Call.gcWithGrace grace).prog E).Stays
    (fun p : Prim D => p.keepsFiles = true) (fun _ _ => True) fun _ => True := by
  have horphans : ∀ digests : List D, (stillOrphans digests).Stays
      (fun p : Prim D => p.keepsFiles = true) (fun _ _ => True) fun _ => True := by
    intro digests
    induction digests with
    | nil => exact trivial
    | cons digest rest ih => exact .ask_bind rfl fun _ _ => ih.bind fun _ => trivial
  refine Stays.bind (withLock_stays rfl rfl ?_) fun _ => trivial
  refine .ask_bind rfl fun _ _ => .ask_bind rfl fun _ _ => .ask_bind rfl fun _ _ =>
    .ask_bind rfl fun _ _ => ?_
  exact (horphans _).bind fun _ => .ask_bind rfl fun _ _ => trivial

/-- Wherever a collection is interrupted, the files are as they were. -/
theorem gcWithGrace_files {grace : Int}
    (hv : Visits (handle E) ((Call.gcWithGrace grace).prog E) w w₁) :
    w₁.packs = w.packs ∧ w₁.dicts = w.dicts := by
  have hkeeps : Contract.Keeps
      (⟨fun _ p => p.keepsFiles = true, fun _ _ => True, fun u _ _ => u⟩ :
        Contract (Prim D) Resp Unit) (handle E)
      fun w₁ _ => w₁.packs = w.packs ∧ w₁.dicts = w.dicts := by
    rintro w₁ _ p r w₂ ⟨hpacks, hdicts⟩ hkeeps h
    obtain ⟨hp, hd⟩ := Bool.and_eq_true_iff.mp hkeeps
    have hsame := handle_sameBut h
    exact ⟨trivial, (hsame.packs (of_decide_eq_true hp)).trans hpacks,
      (hsame.dicts (of_decide_eq_true hd)).trans hdicts⟩
  obtain ⟨-, -, hfiles, -⟩ := Obeys.visits hkeeps (gcWithGrace_stays grace) ⟨rfl, rfl⟩ hv
  exact hfiles

/-- What a crash leaves depends on the tables and the files only. -/
theorem Crashed.of_files (hc : Crashed w₁ w') (hdb : w₁.db = w₂.db) (hpacks : w₁.packs = w₂.packs)
    (hdicts : w₁.dicts = w₂.dicts) : Crashed w₂ w' where
  db := hc.db.trans hdb
  packs := hpacks ▸ hc.packs
  synced := hc.synced
  files := hdicts ▸ hc.files
  unloaded := hc.unloaded
  active := hc.active
  chunkCache := hc.chunkCache
  locks := hc.locks

/-- **Every reachable store is sound**, if every collection that was interrupted had committed
neither of its sweeps or both. What is interrupted is sound where it stops, or would have left
these tables itself. -/
theorem Reachable.sound (hw : Reachable E SweepsWhole w) :
    ∃ hashed : List Bytes, Sound E (· ∈ hashed) w := by
  induction hw with
  | empty clock => exact ⟨[], .empty _ clock⟩
  | @call op r w w' _ hrun ih =>
    obtain ⟨hashed, hs⟩ := ih
    by_cases hgc : ∃ grace, op = .gcWithGrace grace
    · obtain ⟨grace, rfl⟩ := hgc
      obtain ⟨r', hrun'⟩ := run_void hrun
      obtain ⟨-, -, hdb, hpacks, hactive, hdicts, hcache, -⟩ :=
        wp_run (gcWithGrace_alone grace (withLock_free hrun')) hrun'
      exact ⟨hashed, hs.swept hdb hpacks hactive hdicts hcache⟩
    · exact hs.visits (fun grace heq => hgc ⟨grace, heq⟩) (.of_run hrun)
  | @crash op w w₁ w' _ hstops hv hc ih =>
    obtain ⟨hashed, hs⟩ := ih
    by_cases hgc : ∃ grace, op = .gcWithGrace grace
    · obtain ⟨grace, rfl⟩ := hgc
      obtain ⟨hpacks, hdicts⟩ := gcWithGrace_files hv
      rcases hstops grace rfl with hdb | hdb
      · exact ⟨hashed, hs.crashed (hc.of_files hdb hpacks hdicts)⟩
      · have hs' : Sound E (· ∈ hashed)
            { w with db := swept w.db (w.clock 0 - grace) (w.clock 0) } :=
          hs.swept rfl rfl rfl rfl rfl
        exact ⟨hashed, hs'.crashed (hc.of_files hdb hpacks hdicts)⟩
    · obtain ⟨hashed', hs'⟩ := hs.visits (fun grace heq => hgc ⟨grace, heq⟩) hv
      exact ⟨hashed', hs'.crashed hc⟩

/-! ## All or nothing -/

/-- Two databases that differ in the parent index only. -/
def SameObjects (m m' : Meta D) : Prop := m' = { m with compoundParents := m'.compoundParents }

theorem SameObjects.refl (m : Meta D) : SameObjects m m := rfl

theorem SameObjects.trans {m₁ m₂ m₃ : Meta D} (h : SameObjects m₁ m₂) (h' : SameObjects m₂ m₃) :
    SameObjects m₁ m₃ := by
  rw [SameObjects] at h h' ⊢
  rw [h', h]

/-- The digest a call ingests an object under. -/
def Call.ingested (E : Env D) : Call D → Option D
  | .put request => some (E.blake3Hex request.reader.content)
  | .putCompound request => some (E.blake3Hex (compoundIdentity (trimSpace request.objectID)))
  | _ => none

/-- An encoding in which every annotation takes one byte more than is kept inline. -/
def largeNotes : Env Nat :=
  { plainEnv with
    marshalAnnotated := fun _ => List.replicate (annotationInlineMaxBytes + 1) 0 }

/-- A file is put, annotated and deleted: the payload of the annotation is left, with no object
and no annotation that refers to it. -/
def orphaned : List (Call Nat) :=
  [.put smallRequest,
    .writeAnnotationRecord { objectDigest := numeral (utf8 "a"), kind := "note" },
    .deleteObject (numeral (utf8 "a"))]

/-- The index entries a batch writes carry the hash they are written under. -/
def WritesKeyed (writes : List (Write D)) : Prop :=
  ∀ hash entry, Write.chunk hash (some entry) ∈ writes → entry.chunkHash = hash

/-- Every call writes index entries under their own hash, or deletes them. This holds of the
requests it makes, whatever state the store is in. -/
theorem Call.writes_keyed (op : Call D) :
    (op.prog E).Obeys (commitContract E fun _ writes => WritesKeyed writes) {} fun _ _ => True := by
  by_cases hgc : ∃ grace, op = .gcWithGrace grace
  · obtain ⟨grace, rfl⟩ := hgc
    refine (gcWithGrace_commits grace).weaken fun k p hpre => ?_
    cases p with
    | commit writes =>
      rintro hash entry hmem
      rcases hpre with ⟨-, db, rescan, graceCutoff, gcStart, -, -, rfl⟩ | ⟨-, digests, rfl⟩
      all_goals
        obtain ⟨_, -, heq⟩ := List.mem_map.mp hmem
        cases heq
    | _ => exact trivial
  by_cases hrepack : op = .repack
  · subst hrepack
    refine (obeys_void (repack_obeys [])).weaken fun k p hpre => ?_
    cases p with
    | commit writes =>
      obtain ⟨scan, entry, raw, id, offset, now, -, -, -, -, -, -, -, rfl⟩ := hpre
      intro hash moved hmem
      cases List.mem_singleton.mp hmem
      rfl
    | _ => exact trivial
  · refine (op.object_obeys {} (fun grace heq => hgc ⟨grace, heq⟩) hrepack).weaken
      fun k p hpre => ?_
    cases p with
    | commit writes =>
      intro hash entry hmem
      obtain ⟨stored, chunk, dict, heq, hbacked, -⟩ := Backed.chunks hpre hash _ hmem
      rw [Option.some.inj heq]
      exact hbacked.chunkHash
    | _ => exact trivial

/-- A batch of such entries keeps the index keyed. -/
theorem KeyedChunks.applyAll {db : Meta D} {writes : List (Write D)} (h : KeyedChunks db)
    (hwrites : WritesKeyed writes) : KeyedChunks (db.applyAll writes) := by
  intro hash entry hget
  rcases db.applyAll_chunks writes hash with ⟨value, hmem, hvalue⟩ | ⟨-, hsame⟩
  · rw [hget] at hvalue
    exact hwrites hash entry (hvalue ▸ hmem)
  · exact h hash entry (hsame ▸ hget)

/-- So the index stays keyed in every state a call passes through. -/
theorem KeyedChunks.visits {op : Call D} (h : KeyedChunks w.db)
    (hv : Visits (handle E) (op.prog E) w w') : KeyedChunks w'.db := by
  have hkeeps : (commitContract E fun _ writes => WritesKeyed writes).Keeps (handle E)
      fun w _ => KeyedChunks w.db := by
    intro w k p r w' hi hpre hp
    refine ⟨handle_objectContract none hp, ?_⟩
    by_cases hf : p.footprint = .db
    · cases p with
      | commit writes =>
        cases hp
        exact hi.applyAll hpre
      | _ => cases hf
    · show KeyedChunks w'.db
      rw [(handle_sameBut hp).db hf]
      exact hi
  obtain ⟨-, -, hkeyed, -⟩ := op.writes_keyed.visits hkeeps h hv
  exact hkeyed

/-- **Index entries are kept under their own hash** in every reachable store, wherever a call
was interrupted. -/
theorem Reachable.keyed {stops : Call D → World D → World D → Prop} (hw : Reachable E stops w) :
    KeyedChunks w.db := by
  induction hw with
  | empty clock => exact fun _ _ hget => nomatch hget
  | call _ hrun ih => exact ih.visits (.of_run hrun)
  | crash _ _ hv hc ih =>
    rw [hc.db]
    exact ih.visits hv

/-- **A collection removes exactly the garbage.** On a store reached by calls and by crashes
anywhere inside them, also inside earlier collections, the recipes left are those
of objects and annotations and the recent ones, and the index entries left are those such a recipe
refers to and the recent ones. -/
theorem gc_exact (hw : Reachable E Anywhere w) {grace : Int} (hgrace : 0 ≤ grace)
    {r : Except String GCReport} (hrun : runAlone E (gcWithGrace grace) w = some (r, w')) :
    (∀ digest recipe, w'.db.recipes.get digest = some recipe ↔
      w.db.recipes.get digest = some recipe ∧ (w.db.manifests.has digest = true ∨
        digest ∈ annotationPayloads w.db ∨ w.clock 0 - grace ≤ recipe.updatedAt)) ∧
    ∀ hash entry, w'.db.chunks.get hash = some entry ↔ w.db.chunks.get hash = some entry ∧
      ((∃ digest recipe, w'.db.recipes.get digest = some recipe ∧ hash ∈ recipe.chunkHashes) ∨
        w.clock 0 - grace ≤ entry.updatedAt) := by
  obtain ⟨report, -, hdb, -⟩ := wp_run (gcWithGrace_alone grace (withLock_free hrun)) hrun
  have hkeep : ∀ digest recipe, w'.db.recipes.get digest = some recipe ↔
      w.db.recipes.get digest = some recipe ∧
        keepsRecipe w.db (w.clock 0 - grace) (digest, recipe) = true := by
    rw [hdb]
    exact fun digest recipe => ⟨swept_recipes_get, fun h => swept_recipes_keep h.1 h.2⟩
  have hlive : ∀ hash, hash ∈ liveChunks w.db (w.clock 0 - grace) (w.clock 0) w.db.recipes.entries ↔
      ∃ digest recipe, w'.db.recipes.get digest = some recipe ∧ hash ∈ recipe.chunkHashes := by
    intro hash
    simp only [hkeep, liveChunks, List.mem_append, List.mem_flatMap, List.mem_filter, Prod.exists,
      OrdMap.mem_entries_iff]
    refine ⟨fun h => h.elim id ?_, .inl⟩
    -- a recipe written since the pass began is recent
    rintro ⟨digest, recipe, ⟨hget, hnew⟩, hhash⟩
    refine ⟨digest, recipe, ⟨hget, ?_⟩, hhash⟩
    simp only [keepsRecipe, Bool.or_eq_true, Bool.not_eq_true', decide_eq_false_iff_not,
      not_lt] at hnew ⊢
    exact .inr ((Int.sub_le_self _ hgrace).trans hnew)
  refine ⟨fun digest recipe => ?_, fun hash entry => ?_⟩
  · rw [hkeep]
    simp [keepsRecipe, or_assoc]
  · have hkey := hw.keyed hash entry
    rw [← hlive, hdb, swept, OrdMap.get_eraseAll]
    split
    all_goals
      rename_i hdead
      simp only [deadChunks, List.mem_map, List.mem_filter, Prod.exists, exists_eq_right,
        OrdMap.mem_entries_iff, exists_and_right] at hdead
      grind

/-- A file that stays, the orphaned payload, and an hour later a file that is put and deleted. -/
def mixed : List (Call Nat) :=
  .put { smallRequest with reader := .short (utf8 "b") (by decide) } :: orphaned ++
    [.put { smallRequest with reader := .short (utf8 "c") (by decide) },
      .deleteObject (numeral (utf8 "c"))]

/-- Of four chunks the collection keeps that of the file and that of the file just deleted, of two
recipes the one of the file. -/
theorem gc_exact_mixed :
    ∃ (w w' : World Nat) (r : Except String GCReport),
      runAlone largeNotes (gcWithGrace gcGracePeriod) w = some (r, w') ∧
      w.db.recipes.entries.length = 2 ∧ w.db.chunks.entries.length = 4 ∧
      w'.db.recipes.entries.map Prod.fst = [numeral (utf8 "b")] ∧
      w'.db.chunks.entries.map Prod.fst = [numeral (utf8 "b"), numeral (utf8 "c")] ∧
      ∀ hash entry, w'.db.chunks.get hash = some entry ↔ w.db.chunks.get hash = some entry ∧
        ((∃ digest recipe, w'.db.recipes.get digest = some recipe ∧ hash ∈ recipe.chunkHashes) ∨
          w.clock 0 - gcGracePeriod ≤ entry.updatedAt) := by
  have heval : (runSequence largeNotes mixed
      { clock := fun n => if n < 10 then 0 else 4 * gcGracePeriod }).any (fun w =>
        decide (w.db.recipes.entries.length = 2 ∧ w.db.chunks.entries.length = 4) &&
        (runAlone largeNotes (gcWithGrace gcGracePeriod) w).any fun out =>
          decide (out.2.db.recipes.entries.map Prod.fst = [numeral (utf8 "b")] ∧
            out.2.db.chunks.entries.map Prod.fst = [numeral (utf8 "b"), numeral (utf8 "c")])) =
      true := by
    decide +kernel
  obtain ⟨w, hcalls, hout⟩ := (Option.any_eq_true _ _).mp heval
  obtain ⟨hbefore, hafter⟩ := Bool.and_eq_true_iff.mp hout
  obtain ⟨⟨r, w'⟩, hrun, hafter⟩ := (Option.any_eq_true _ _).mp hafter
  obtain ⟨hrecipes, hchunks⟩ := of_decide_eq_true hbefore
  obtain ⟨hrecipes', hchunks'⟩ := of_decide_eq_true hafter
  have hw : Reachable largeNotes Anywhere w := (Reachable.empty _).sequence hcalls
  exact ⟨w, w', r, hrun, hrecipes, hchunks, hrecipes', hchunks',
    (gc_exact hw (by decide) hrun).2⟩

end Gmeow
