import Gmeow.Integrity

/-!
# Garbage collection, run alone

Run alone, `gcWithGrace` reads one state of the tables, so what it leaves behind is a
function of them: `swept`. A sweep keeps a sound store sound, because the chunks of
every recipe it keeps are live, and because it keeps the recipe of every object.

* `gcWithGrace_alone` — what a run alone does;
* `Sound.swept` — and that it keeps the store sound.
-/

namespace Gmeow

open Prog

variable {D : Type} [LinearOrder D] {E : Env D} {w : World D} {db : Meta D}
  {graceCutoff gcStart : Time} {digest : D} {H : Bytes → Prop}

/-- The tables after a collection that started at `gcStart`. -/
def swept (db : Meta D) (graceCutoff gcStart : Time) : Meta D :=
  { db with
    chunks := db.chunks.eraseAll (deadChunks db graceCutoff gcStart db.recipes.entries)
    recipes := db.recipes.eraseAll (orphanRecipes db graceCutoff) }

theorem applyAll_chunk_none (db : Meta D) (hashes : List D) :
    db.applyAll (hashes.map fun hash => .chunk hash none) =
      { db with chunks := db.chunks.eraseAll hashes } := by
  induction hashes generalizing db with
  | nil => rfl
  | cons hash rest ih =>
    rw [List.map_cons, Meta.applyAll, List.foldl_cons]
    exact ih _

theorem applyAll_recipe_none (db : Meta D) (digests : List D) :
    db.applyAll (digests.map fun digest => .recipe digest none) =
      { db with recipes := db.recipes.eraseAll digests } := by
  induction digests generalizing db with
  | nil => rfl
  | cons digest rest ih =>
    rw [List.map_cons, Meta.applyAll, List.foldl_cons]
    exact ih _

/-! ## The run -/

/-- The re-check keeps the digests that still have no manifest. -/
theorem stillOrphans_alone :
    ∀ digests : List D, (stillOrphans digests).wp (handle E) w fun r w' =>
      w' = w ∧ r = .ok (digests.filter fun digest => !w.db.manifests.has digest) := by
  intro digests
  induction digests with
  | nil => exact ⟨rfl, rfl⟩
  | cons digest rest ih =>
    refine wp_ask_bind rfl (wp_bind.mpr (wp_mono ih ?_))
    rintro r w' ⟨rfl, rfl⟩
    refine ⟨rfl, ?_⟩
    rw [List.filter_cons]
    show Except.ok (if w'.db.manifests.has digest = true then _ else _) = _
    cases w'.db.manifests.has digest <;> rfl

/-- No orphan has a manifest. -/
theorem orphanRecipes_no_manifest (h : digest ∈ orphanRecipes db graceCutoff) :
    db.manifests.has digest = false := by
  obtain ⟨item, hmem, rfl⟩ := List.mem_map.mp h
  have hkeep := (List.mem_filter.mp hmem).2
  cases hhas : db.manifests.has item.1 with
  | false => rfl
  | true => simp [keepsRecipe, hhas] at hkeep

/-- **A collection, run alone.** It returns, and leaves the swept tables and everything
else as it was. -/
theorem gcWithGrace_alone (grace : Int) (hlock : .maintenanceMu ∉ w.locks) :
    (gcWithGrace grace).wp (handle E) w fun r w' => ∃ report, r = .ok report ∧
      w'.db = swept w.db (w.clock 0 - grace) (w.clock 0) ∧ w'.packs = w.packs ∧
      w'.active = w.active ∧ w'.dicts = w.dicts ∧ w'.chunkCache = w.chunkCache ∧
      w'.locks = w.locks := by
  refine withLock_alone hlock ?_
  refine wp_ask_bind rfl (wp_ask_bind rfl (wp_ask_bind rfl (wp_ask_bind rfl (wp_bind.mpr ?_))))
  refine wp_mono (stillOrphans_alone _) ?_
  rintro r w₁ ⟨rfl, rfl⟩
  refine ⟨_, _, rfl, ⟨_, rfl, ?_, rfl, rfl, rfl, rfl, ?_⟩⟩
  · -- the re-check drops nothing: the tables have not changed since the snapshot
    have hmanifests : (w.db.applyAll ((deadChunks w.db (w.clock 0 - grace) (w.clock 0)
        w.db.recipes.entries).map fun hash => .chunk hash none)).manifests = w.db.manifests := by
      rw [applyAll_chunk_none]
    have hall : (orphanRecipes w.db (w.clock 0 - grace)).filter
        (fun digest => !w.db.manifests.has digest) = orphanRecipes w.db (w.clock 0 - grace) :=
      List.filter_eq_self.mpr fun digest h => by rw [orphanRecipes_no_manifest h]; rfl
    show Meta.applyAll (w.db.applyAll _) (List.map _ (List.filter
      (fun digest => !(Meta.applyAll w.db _).manifests.has digest) _)) = _
    rw [hmanifests, hall, applyAll_chunk_none, applyAll_recipe_none]
    rfl
  · exact List.erase_cons_head .maintenanceMu w.locks

/-! ## What a sweep keeps -/

section Kept

variable {db : Meta D} {graceCutoff gcStart : Time}

theorem swept_chunks_get {hash : D} {entry : ChunkIndexEntry D}
    (h : (swept db graceCutoff gcStart).chunks.get hash = some entry) :
    db.chunks.get hash = some entry := by
  rw [swept, OrdMap.get_eraseAll] at h
  split at h
  · cases h
  · exact h

variable {digest : D} {recipe : ObjectRecipe D}

theorem swept_recipes_get (h : (swept db graceCutoff gcStart).recipes.get digest = some recipe) :
    db.recipes.get digest = some recipe ∧ keepsRecipe db graceCutoff (digest, recipe) = true := by
  rw [swept, OrdMap.get_eraseAll] at h
  split at h
  · cases h
  · rename_i hkept
    refine ⟨h, ?_⟩
    cases hkeep : keepsRecipe db graceCutoff (digest, recipe) with
    | true => rfl
    | false =>
      refine absurd (List.mem_map.mpr ⟨(digest, recipe), List.mem_filter.mpr ⟨?_, ?_⟩, rfl⟩) hkept
      · exact OrdMap.mem_entries_iff.mpr h
      · rw [hkeep]; rfl

/-- A recipe the mark phase keeps survives. -/
theorem swept_recipes_keep (hget : db.recipes.get digest = some recipe)
    (hkeep : keepsRecipe db graceCutoff (digest, recipe) = true) :
    (swept db graceCutoff gcStart).recipes.get digest = some recipe := by
  rw [swept, OrdMap.get_eraseAll, if_neg]
  · exact hget
  · intro hmem
    obtain ⟨item, hitem, heq⟩ := List.mem_map.mp hmem
    obtain ⟨hentry, hnot⟩ := List.mem_filter.mp hitem
    have hsame : item = (digest, recipe) := by
      have := OrdMap.mem_entries_iff.mp hentry
      rw [heq, hget] at this
      exact Prod.ext heq (Option.some.inj this).symm
    rw [hsame, hkeep] at hnot
    cases hnot

/-- The chunks of a recipe the mark phase keeps survive, provided index entries are
kept under their own hash. -/
theorem swept_chunks_keep {hash : D}
    (hkeys : ∀ hash entry, db.chunks.get hash = some entry → entry.chunkHash = hash)
    (hget : db.recipes.get digest = some recipe)
    (hkeep : keepsRecipe db graceCutoff (digest, recipe) = true)
    (hhash : hash ∈ recipe.chunkHashes) :
    (swept db graceCutoff gcStart).chunks.get hash = db.chunks.get hash := by
  rw [swept, OrdMap.get_eraseAll, if_neg]
  intro hmem
  obtain ⟨item, hitem, rfl⟩ := List.mem_map.mp hmem
  obtain ⟨hentry, hdead⟩ := List.mem_filter.mp hitem
  have hlive : item.1 ∈ liveChunks db graceCutoff gcStart db.recipes.entries := by
    refine List.mem_append_left _ (List.mem_flatMap.mpr ⟨(digest, recipe), ?_, hhash⟩)
    exact List.mem_filter.mpr ⟨OrdMap.mem_entries_iff.mpr hget, hkeep⟩
  have hkey := hkeys _ _ (OrdMap.mem_entries_iff.mp hentry)
  rw [hkey] at hdead
  simp [hlive] at hdead

/-- The recipe of an object with a manifest is kept. -/
theorem keepsRecipe_of_manifest {item : D × ObjectRecipe D}
    (h : db.manifests.has item.1 = true) : keepsRecipe db graceCutoff item = true := by
  simp [keepsRecipe, h]

end Kept

/-- **A sweep keeps the store sound.** -/
theorem Sound.swept {w' : World D} (hs : Sound E H w)
    (hdb : w'.db = Gmeow.swept w.db graceCutoff gcStart) (hpacks : w'.packs = w.packs)
    (hactive : w'.active = w.active) (hdicts : w'.dicts = w.dicts)
    (hcache : w'.chunkCache = w.chunkCache) : Sound E H w' := by
  have hkeys : ∀ hash entry, w.db.chunks.get hash = some entry → entry.chunkHash = hash := by
    intro hash entry hget
    obtain ⟨chunk, dict, hstored⟩ := hs.chunks hash entry hget
    exact hstored.chunkHash
  have hok : PacksOK w' := by
    refine ⟨?_, ?_⟩
    · rw [hpacks]; exact hs.packs.synced
    · rw [hpacks, hactive]; exact hs.packs.active
  refine ⟨hok, by rw [hdicts]; exact hs.dicts, by rw [hcache]; exact hs.cache, ?_, ?_, ?_, ?_⟩
  · intro hash entry hget
    rw [hdb] at hget
    obtain ⟨chunk, dict, hstored⟩ := hs.chunks hash entry (swept_chunks_get hget)
    refine ⟨chunk, dict, hstored.mono (fun _ h => h) hok ?_ ?_⟩
    · rw [hpacks]; exact .refl _
    · rw [hdicts]; exact fun _ _ h => h
  · intro digest recipe hget hash hmem
    rw [hdb] at hget ⊢
    obtain ⟨hold, hkeep⟩ := swept_recipes_get hget
    rw [OrdMap.has, swept_chunks_keep hkeys hold hkeep hmem]
    exact hs.indexed digest recipe hold hash hmem
  · intro digest recipe hget
    rw [hdb] at hget
    exact hs.recipes digest recipe (swept_recipes_get hget).1
  · intro digest hhas
    rw [hdb] at hhas ⊢
    obtain ⟨recipe, hrecipe⟩ := OrdMap.has_iff.mp (hs.manifests digest hhas)
    exact OrdMap.has_iff.mpr ⟨recipe, swept_recipes_keep hrecipe (keepsRecipe_of_manifest hhas)⟩

/-- A sweep puts nothing new under a digest. -/
theorem ContentOnly.swept (h : ContentOnly E H db digest) :
    ContentOnly E H (Gmeow.swept db graceCutoff gcStart) digest :=
  fun recipe hget => h recipe (swept_recipes_get hget).1

end Gmeow
