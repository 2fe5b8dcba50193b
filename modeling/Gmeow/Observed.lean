import Gmeow.Maintenance

/-!
# What a call has observed

The store commits metadata that refers to other things: an index entry to bytes in a
pack, a recipe to index entries, a manifest to a recipe. What entitles an operation
to commit such a record is what it has seen itself: it appended those bytes and
synced the pack, it found that chunk in the index, it read that manifest.

* `Observed` — what the answers so far taught the caller; `learn` adds an answer.
* `Backed` — a batch is entitled to be committed by what its writer has observed.
* `objectContract` — every commit is backed, nothing is appended before a chunk was
  missed, and no pack is ever removed.

That every object operation keeps this contract is shown once, in
`Gmeow.Discipline`, whatever its requests are answered; what a true observation is
worth depends on who else is running, and is shown where it is used.
-/

namespace Gmeow

variable {D : Type} [LinearOrder D] {E : Env D} {entry : ChunkIndexEntry D}

/-- What a caller has learnt from its answers. -/
structure Observed (D : Type) [LinearOrder D] : Type where
  /-- contents hashed -/
  hashed : List Bytes := []
  /-- chunks found in the index, or committed to it -/
  hits : List D := []
  /-- chunks not found in the index -/
  missed : List D := []
  /-- index entries committed -/
  placed : List (D × ChunkIndexEntry D) := []
  /-- dictionaries chosen: id and bytes -/
  dicts : List (String × Bytes) := []
  /-- bytes appended: pack, offset, bytes -/
  appended : List (Nat × Nat × Bytes) := []
  /-- packs synced since last appended to -/
  synced : List Nat := []
  /-- whether the pack directory was synced since the last append -/
  linked : Bool := false
  /-- digests whose recipe was found, since the last commit -/
  recipes : List D := []
  /-- digests whose recipe was not found, since the last commit -/
  noRecipes : List D := []
  /-- digests whose manifest was found, since the last commit -/
  manifests : List D := []
  /-- digests whose manifest was not found, since the last commit -/
  noManifests : List D := []
  /-- digests whose recipe was committed -/
  stored : List D := []
  /-- batches committed, the last one first -/
  commits : List (List (Write D)) := []
  /-- the last snapshot taken -/
  snapshot : Option (Meta D) := none
  /-- the last scan of the recipes -/
  rescan : Option (List (D × ObjectRecipe D)) := none
  /-- the last scan of the chunk index -/
  scan : Option (List (D × ChunkIndexEntry D)) := none
  /-- the last active pack seen -/
  topPack : Option Nat := none
  /-- the first listing of the pack directory -/
  dir : Option (List Nat) := none
  /-- bytes read from packs: pack, offset, length, bytes -/
  raws : List (Nat × Nat × Nat × Bytes) := []

/-- The chunks a batch adds to the index. -/
def chunksAdded (writes : List (Write D)) : List D :=
  writes.filterMap fun
    | .chunk hash (some _) => some hash
    | _ => none

/-- The index entries a batch writes. -/
def entriesPlaced (writes : List (Write D)) : List (D × ChunkIndexEntry D) :=
  writes.filterMap fun
    | .chunk hash (some entry) => some (hash, entry)
    | _ => none

/-- The recipes a batch writes. -/
def recipesAdded (writes : List (Write D)) : List D :=
  writes.filterMap fun
    | .recipe digest (some _) => some digest
    | _ => none

/-- What an answer teaches. -/
def learn (k : Observed D) : (p : Prim D) → Resp p → Observed D
  | .blake3 content, _ => { k with hashed := content :: k.hashed }
  | .getChunk hash, some _ => { k with hits := hash :: k.hits }
  | .getChunk hash, none => { k with missed := hash :: k.missed }
  | .getRecipe digest, some _ => { k with recipes := digest :: k.recipes }
  | .getRecipe digest, none => { k with noRecipes := digest :: k.noRecipes }
  | .getManifest digest, some _ => { k with manifests := digest :: k.manifests }
  | .getManifest digest, none => { k with noManifests := digest :: k.noManifests }
  | .snapshot, db => { k with snapshot := some db }
  | .scanRecipes, recipes => { k with rescan := some recipes }
  | .scanChunks, entries => { k with scan := some entries }
  | .activeDictionary _, .ok dictionary => { k with dicts := dictionary :: k.dicts }
  | .appendToActivePackNoSync bytes, target =>
    { k with
      appended := (target.1, target.2, bytes) :: k.appended
      synced := k.synced.filter fun id => id ≠ target.1
      linked := false }
  | .syncPack id, true => { k with synced := id :: k.synced }
  | .syncPackDir, _ => { k with linked := true }
  | .activePack, top => { k with topPack := some top.1 }
  | .readPackDir, ids => { k with dir := some (k.dir.getD ids) }
  | .readPack id offset length, .ok raw => { k with raws := (id, offset, length, raw) :: k.raws }
  | .commit writes, _ =>
    { k with
      hits := chunksAdded writes ++ k.hits
      placed := entriesPlaced writes ++ k.placed
      recipes := [], noRecipes := [], manifests := [], noManifests := []
      stored := recipesAdded writes ++ k.stored
      commits := writes :: k.commits }
  | _, _ => k

/-- The world, watched by one caller. -/
abbrev watched (E : Env D) : Prog.Handler (Prim D) Resp (World D × Observed D) :=
  Prog.Handler.observing (handle E) learn

/-! ## Backed batches -/

/-- An index entry is backed: the caller hashed the chunk, did not find it in the
index, compressed it with the dictionary it recorded and appended exactly that. -/
structure ChunkBacked (E : Env D) (k : Observed D) (hash : D) (entry : ChunkIndexEntry D)
    (chunk dict : Bytes) : Prop where
  hashed : chunk ∈ k.hashed
  hash_eq : E.blake3Hex chunk = hash
  missed : hash ∈ k.missed
  chunkHash : entry.chunkHash = hash
  chosen : (entry.dictID, dict) ∈ k.dicts
  readable : dict ≠ [] → parseUint32 entry.dictID ≠ none
  appended : (entry.packID, entry.offset, E.zstdEncode dict chunk) ∈ k.appended
  length : entry.length = (E.zstdEncode dict chunk).length

/-- The pack an entry points to is on disk, directory entry included. -/
def Durable (k : Observed D) (entry : ChunkIndexEntry D) : Prop :=
  entry.packID ∈ k.synced ∧ k.linked = true

/-- Whose blob a recipe at `digest` over these chunks is: content under its own hash,
or — only where `compound` allows it and no recipe was found — a compound. -/
def RecipeOwner (E : Env D) (compound : Option D) (k : Observed D) (digest : D)
    (chunks : List Bytes) : Prop :=
  (chunks.flatten ∈ k.hashed ∧ E.blake3Hex chunks.flatten = digest) ∨
    (compound = some digest ∧ digest ∈ k.noRecipes ∧
      ∃ objectID, compoundIdentity objectID ∈ k.hashed ∧
        E.blake3Hex (compoundIdentity objectID) = digest)

/-- A recipe is backed: its hashes are those of chunks the caller hashed, and each is
in the index or in the same batch. -/
structure RecipeBacked (E : Env D) (compound : Option D) (k : Observed D)
    (writes : List (Write D)) (digest : D) (recipe : ObjectRecipe D) (chunks : List Bytes) :
    Prop where
  hashes : recipe.chunkHashes = chunks.map E.blake3Hex
  hashed : ∀ chunk ∈ chunks, chunk ∈ k.hashed
  indexed : ∀ hash ∈ recipe.chunkHashes, hash ∈ k.hits ∨ hash ∈ chunksAdded writes
  owner : RecipeOwner E compound k digest chunks

/-- A batch its writer is entitled to commit. -/
structure Backed (E : Env D) (compound : Option D) (k : Observed D)
    (writes : List (Write D)) : Prop where
  /-- index entries point to durable bytes, and none is deleted -/
  chunks : ∀ hash value, Write.chunk hash value ∈ writes →
    ∃ entry chunk dict, value = some entry ∧ ChunkBacked E k hash entry chunk dict ∧
      Durable k entry
  /-- recipes are backed -/
  recipes : ∀ digest recipe, Write.recipe digest (some recipe) ∈ writes →
    ∃ chunks, RecipeBacked E compound k writes digest recipe chunks
  /-- a recipe is deleted only together with its manifest, and where no compound is
  being written -/
  deletions : ∀ digest, Write.recipe digest none ∈ writes →
    compound = none ∧ Write.manifest digest none ∈ writes
  /-- a batch writes a manifest or deletes it, not both -/
  consistent : ∀ digest manifest, Write.manifest digest (some manifest) ∈ writes →
    Write.manifest digest none ∉ writes
  /-- a manifest comes with its recipe, or one was there -/
  manifests : ∀ digest manifest, Write.manifest digest (some manifest) ∈ writes →
    digest ∈ recipesAdded writes ∨ digest ∈ k.recipes ∨ digest ∈ k.manifests

/-- The contract of the object operations; `compound` is the digest of the compound
the operation writes, if it writes one. -/
def objectContract (E : Env D) (compound : Option D) :
    Prog.Contract (Prim D) Resp (Observed D) where
  pre k p :=
    match p with
    | .commit writes => Backed E compound k writes
    | .appendToActivePackNoSync _ => k.missed ≠ []
    | .removePack _ => False
    | .cachePut hash value => value ∈ k.hashed ∧ E.blake3Hex value = hash
    | _ => True
  post p r :=
    match p, r with
    | .blake3 content, digest => digest = E.blake3Hex content
    | _, _ => True
  learn := learn

/-- The answers the contract counts on are those the world gives. -/
theorem handle_objectContract (compound : Option D) {p : Prim D} {r : Resp p} {w w' : World D}
    (h : handle E p w = some (r, w')) : (objectContract E compound).post p r := by
  cases p with
  | blake3 content => cases h; rfl
  | _ => trivial

/-- What a caller knows only grows, apart from what a commit or an append makes
stale. -/
structure Grows (k k' : Observed D) : Prop where
  hashed : ∀ content ∈ k.hashed, content ∈ k'.hashed
  hits : ∀ hash ∈ k.hits, hash ∈ k'.hits
  missed : ∀ hash ∈ k.missed, hash ∈ k'.missed
  dicts : ∀ dict ∈ k.dicts, dict ∈ k'.dicts
  appended : ∀ item ∈ k.appended, item ∈ k'.appended

theorem Grows.refl (k : Observed D) : Grows k k :=
  ⟨fun _ h => h, fun _ h => h, fun _ h => h, fun _ h => h, fun _ h => h⟩

theorem Grows.trans {k₁ k₂ k₃ : Observed D} (h : Grows k₁ k₂) (h' : Grows k₂ k₃) : Grows k₁ k₃ :=
  ⟨fun x hx => h'.hashed x (h.hashed x hx), fun x hx => h'.hits x (h.hits x hx),
    fun x hx => h'.missed x (h.missed x hx), fun x hx => h'.dicts x (h.dicts x hx),
    fun x hx => h'.appended x (h.appended x hx)⟩

instance : IsTrans (Observed D) Grows := ⟨fun _ _ _ => Grows.trans⟩

/-- An answer about something else leaves all of it as it was. -/
theorem Grows.of_eq {k k' : Observed D} (hhashed : k'.hashed = k.hashed) (hhits : k'.hits = k.hits)
    (hmissed : k'.missed = k.missed) (hdicts : k'.dicts = k.dicts)
    (happended : k'.appended = k.appended) : Grows k k' := by
  refine ⟨?_, ?_, ?_, ?_, ?_⟩
  · rw [hhashed]; exact fun _ h => h
  · rw [hhits]; exact fun _ h => h
  · rw [hmissed]; exact fun _ h => h
  · rw [hdicts]; exact fun _ h => h
  · rw [happended]; exact fun _ h => h

/-- Every answer only adds to what is known. -/
theorem grows_learn (k : Observed D) (p : Prim D) (r : Resp p) : Grows k (learn k p r) := by
  have hcons : ∀ {α : Type} (x : α) (l : List α), ∀ y ∈ l, y ∈ x :: l :=
    fun x l y hy => List.mem_cons_of_mem x hy
  cases p with
  | blake3 content =>
    exact ⟨hcons _ _, fun _ h => h, fun _ h => h, fun _ h => h, fun _ h => h⟩
  | getChunk hash =>
    cases r with
    | none => exact ⟨fun _ h => h, fun _ h => h, hcons _ _, fun _ h => h, fun _ h => h⟩
    | some entry => exact ⟨fun _ h => h, hcons _ _, fun _ h => h, fun _ h => h, fun _ h => h⟩
  | getRecipe digest => cases r <;> exact .of_eq rfl rfl rfl rfl rfl
  | getManifest digest => cases r <;> exact .of_eq rfl rfl rfl rfl rfl
  | activeDictionary family =>
    cases r with
    | error e => exact .refl k
    | ok dictionary =>
      exact ⟨fun _ h => h, fun _ h => h, fun _ h => h, hcons _ _, fun _ h => h⟩
  | appendToActivePackNoSync bytes =>
    exact ⟨fun _ h => h, fun _ h => h, fun _ h => h, fun _ h => h, hcons _ _⟩
  | syncPack id => cases r <;> exact .of_eq rfl rfl rfl rfl rfl
  | readPack id offset length => cases r <;> exact .of_eq rfl rfl rfl rfl rfl
  | commit writes =>
    exact ⟨fun _ h => h, fun _ h => List.mem_append_right _ h, fun _ h => h, fun _ h => h,
      fun _ h => h⟩
  | _ => exact .of_eq rfl rfl rfl rfl rfl

variable {hash : D} {writes : List (Write D)}

theorem ChunkBacked.grows {k k' : Observed D} {chunk dict : Bytes}
    (h : ChunkBacked E k hash entry chunk dict) (hk : Grows k k') :
    ChunkBacked E k' hash entry chunk dict :=
  { h with
    hashed := hk.hashed _ h.hashed
    missed := hk.missed _ h.missed
    chosen := hk.dicts _ h.chosen
    appended := hk.appended _ h.appended }

theorem mem_chunksAdded :
    hash ∈ chunksAdded writes ↔ ∃ entry, Write.chunk hash (some entry) ∈ writes := by
  simp only [chunksAdded, List.mem_filterMap]
  constructor
  · rintro ⟨write, hmem, heq⟩
    split at heq
    · cases heq
      exact ⟨_, hmem⟩
    · cases heq
  · rintro ⟨entry, hmem⟩
    exact ⟨_, hmem, rfl⟩

theorem mem_entriesPlaced :
    (hash, entry) ∈ entriesPlaced writes ↔ Write.chunk hash (some entry) ∈ writes := by
  simp only [entriesPlaced, List.mem_filterMap]
  constructor
  · rintro ⟨write, hmem, heq⟩
    split at heq
    · cases heq
      exact hmem
    · cases heq
  · intro hmem
    exact ⟨_, hmem, rfl⟩

theorem mem_recipesAdded {digest : D} :
    digest ∈ recipesAdded writes ↔ ∃ recipe, Write.recipe digest (some recipe) ∈ writes := by
  simp only [recipesAdded, List.mem_filterMap]
  constructor
  · rintro ⟨write, hmem, heq⟩
    split at heq
    · cases heq
      exact ⟨_, hmem⟩
    · cases heq
  · rintro ⟨recipe, hmem⟩
    exact ⟨_, hmem, rfl⟩

end Gmeow
