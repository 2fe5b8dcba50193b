import Gmeow.Observed

/-!
# Object operations keep their contract

Every object operation commits only what it has observed (`objectContract`),
whatever its requests are answered. The argument follows the code: storing a chunk
leaves the batch with an entry for it or the caller with a hit, storing a blob does
so for each chunk, syncing the touched packs makes the entries durable, and the
remaining records of a batch refer to nothing.

* `Extends` — knowledge grown without committing in between;
* `BatchOK` — a batch that is backed but for the sync;
* `put_obeys`, `putCompound_obeys`, … — the operations.
-/

namespace Gmeow

open Prog

variable {D : Type} [LinearOrder D] {E : Env D} {compound : Option D} {k k' k₁ k₂ k₃ : Observed D}

/-! ## Knowledge between commits -/

/-- Knowledge grown without a commit in between: what was found is still what was
found. -/
structure Extends (k k' : Observed D) : Prop extends Grows k k' where
  recipes : ∀ digest ∈ k.recipes, digest ∈ k'.recipes
  noRecipes : ∀ digest ∈ k.noRecipes, digest ∈ k'.noRecipes
  manifests : ∀ digest ∈ k.manifests, digest ∈ k'.manifests

theorem Extends.refl (k : Observed D) : Extends k k :=
  ⟨.refl k, fun _ h => h, fun _ h => h, fun _ h => h⟩

theorem Extends.trans (h : Extends k₁ k₂) (h' : Extends k₂ k₃) : Extends k₁ k₃ :=
  ⟨h.toGrows.trans h'.toGrows, fun x hx => h'.recipes x (h.recipes x hx),
    fun x hx => h'.noRecipes x (h.noRecipes x hx), fun x hx => h'.manifests x (h.manifests x hx)⟩

instance : IsTrans (Observed D) Extends := ⟨fun _ _ _ => Extends.trans⟩

/-- Whether a request is a commit. -/
def Prim.isCommit : Prim D → Bool
  | .commit _ => true
  | _ => false

/-- What a request commits. -/
def Prim.committed : Prim D → List (Write D)
  | .commit writes => writes
  | _ => []

/-- Every answer but a commit's extends what is known. -/
theorem extends_learn (k : Observed D) (p : Prim D) (r : Resp p) (hp : p.isCommit = false) :
    Extends k (learn k p r) := by
  refine ⟨grows_learn k p r, ?_, ?_, ?_⟩
  all_goals
    cases p with
    | commit writes => cases hp
    | getChunk hash => cases r <;> exact fun _ h => h
    | getRecipe digest =>
      cases r <;> first | exact fun _ h => h | exact fun _ h => List.mem_cons_of_mem _ h
    | getManifest digest =>
      cases r <;> first | exact fun _ h => h | exact fun _ h => List.mem_cons_of_mem _ h
    | activeDictionary family => cases r <;> exact fun _ h => h
    | syncPack id => cases r <;> exact fun _ h => h
    | readPack id offset length => cases r <;> exact fun _ h => h
    | _ => exact fun _ h => h

/-! ## Batches under construction -/

/-- A batch that is backed but for the sync: every entry points into a touched pack. -/
structure BatchOK (E : Env D) (compound : Option D) (k : Observed D) (cb : CommitBatch D) :
    Prop where
  chunks : ∀ hash value, Write.chunk hash value ∈ cb.writes →
    ∃ entry chunk dict, value = some entry ∧ ChunkBacked E k hash entry chunk dict ∧
      entry.packID ∈ cb.touchedPacks
  seen : ∀ hash ∈ cb.seen, hash ∈ k.hits ∨ hash ∈ chunksAdded cb.writes
  recipes : ∀ digest recipe, Write.recipe digest (some recipe) ∈ cb.writes →
    ∃ chunks, RecipeBacked E compound k cb.writes digest recipe chunks
  noRecipeDeleted : ∀ digest, Write.recipe digest none ∉ cb.writes
  noManifestDeleted : ∀ digest, Write.manifest digest none ∉ cb.writes
  manifests : ∀ digest manifest, Write.manifest digest (some manifest) ∈ cb.writes →
    digest ∈ recipesAdded cb.writes ∨ digest ∈ k.recipes ∨ digest ∈ k.manifests

theorem BatchOK.empty : BatchOK E compound k {} where
  chunks := fun _ _ h => nomatch h
  seen := fun _ h => nomatch h
  recipes := fun _ _ h => nomatch h
  noRecipeDeleted := fun _ h => nomatch h
  noManifestDeleted := fun _ h => nomatch h
  manifests := fun _ _ h => nomatch h

variable {digest : D} {chunks : List Bytes} {cb : CommitBatch D} {write : Write D}

theorem RecipeOwner.extends (h : RecipeOwner E compound k digest chunks) (hk : Extends k k') :
    RecipeOwner E compound k' digest chunks := by
  rcases h with ⟨hh, heq⟩ | ⟨hc, hno, objectID, hh, heq⟩
  · exact Or.inl ⟨hk.hashed _ hh, heq⟩
  · exact Or.inr ⟨hc, hk.noRecipes _ hno, objectID, hk.hashed _ hh, heq⟩

theorem RecipeBacked.extends {writes writes' : List (Write D)} {recipe : ObjectRecipe D}
    (h : RecipeBacked E compound k writes digest recipe chunks) (hk : Extends k k')
    (hw : ∀ write ∈ writes, write ∈ writes') :
    RecipeBacked E compound k' writes' digest recipe chunks := by
  refine ⟨h.hashes, fun c hc => hk.hashed _ (h.hashed c hc), ?_, h.owner.extends hk⟩
  intro hash hmem
  rcases h.indexed hash hmem with hit | hadd
  · exact Or.inl (hk.hits _ hit)
  · obtain ⟨entry, hentry⟩ := mem_chunksAdded.mp hadd
    exact Or.inr (mem_chunksAdded.mpr ⟨entry, hw _ hentry⟩)

/-- Reads and appends in between leave a batch as sound as it was. -/
theorem BatchOK.extends (h : BatchOK E compound k cb) (hk : Extends k k') :
    BatchOK E compound k' cb := by
  refine ⟨?_, ?_, ?_, h.noRecipeDeleted, h.noManifestDeleted, ?_⟩
  · intro hash value hmem
    obtain ⟨entry, chunk, dict, hv, hb, ht⟩ := h.chunks hash value hmem
    exact ⟨entry, chunk, dict, hv, hb.grows hk.toGrows, ht⟩
  · intro hash hmem
    rcases h.seen hash hmem with hit | hadd
    · exact Or.inl (hk.hits _ hit)
    · exact Or.inr hadd
  · intro digest recipe hmem
    obtain ⟨chunks, hb⟩ := h.recipes digest recipe hmem
    exact ⟨chunks, hb.extends hk fun _ hw => hw⟩
  · intro digest manifest hmem
    rcases h.manifests digest manifest hmem with h | h | h
    · exact Or.inl h
    · exact Or.inr (Or.inl (hk.recipes _ h))
    · exact Or.inr (Or.inr (hk.manifests _ h))

/-- A record that refers to no other: anything but a chunk, recipe or manifest. -/
def Write.plain : Write D → Bool
  | .chunk _ _ => false
  | .recipe _ _ => false
  | .manifest _ _ => false
  | _ => true

theorem mem_add {other : Write D} :
    other ∈ (cb.add write).writes ↔ other ∈ cb.writes ∨ other = write := by
  simp [CommitBatch.add]

theorem chunksAdded_add {hash : D} (h : hash ∈ chunksAdded cb.writes) :
    hash ∈ chunksAdded (cb.add write).writes := by
  obtain ⟨entry, hentry⟩ := mem_chunksAdded.mp h
  exact mem_chunksAdded.mpr ⟨entry, mem_add.mpr (Or.inl hentry)⟩

theorem recipesAdded_add (h : digest ∈ recipesAdded cb.writes) :
    digest ∈ recipesAdded (cb.add write).writes := by
  obtain ⟨recipe, hrecipe⟩ := mem_recipesAdded.mp h
  exact mem_recipesAdded.mpr ⟨recipe, mem_add.mpr (Or.inl hrecipe)⟩

/-- Buffering one more record; the caller answers for the record itself. -/
theorem BatchOK.add (h : BatchOK E compound k cb) (write : Write D)
    (hchunk : ∀ hash value, write = .chunk hash value →
      ∃ entry chunk dict, value = some entry ∧ ChunkBacked E k hash entry chunk dict ∧
        entry.packID ∈ cb.touchedPacks) (hrecipe : ∀ digest value, write = .recipe digest value →
      ∃ recipe chunks, value = some recipe ∧
        RecipeBacked E compound k cb.writes digest recipe chunks)
    (hmanifest : ∀ digest value, write = .manifest digest value →
      ∃ manifest, value = some manifest ∧
        (digest ∈ recipesAdded cb.writes ∨ digest ∈ k.recipes ∨ digest ∈ k.manifests)) :
    BatchOK E compound k (cb.add write) := by
  have hw : ∀ other ∈ cb.writes, other ∈ (cb.add write).writes :=
    fun other ho => mem_add.mpr (Or.inl ho)
  refine ⟨?_, ?_, ?_, ?_, ?_, ?_⟩
  · intro hash value hmem
    rcases mem_add.mp hmem with hmem | heq
    · exact h.chunks hash value hmem
    · exact hchunk hash value heq.symm
  · intro hash hmem
    rcases h.seen hash hmem with hit | hadd
    · exact Or.inl hit
    · exact Or.inr (chunksAdded_add hadd)
  · intro digest recipe hmem
    rcases mem_add.mp hmem with hmem | heq
    · obtain ⟨chunks, hb⟩ := h.recipes digest recipe hmem
      exact ⟨chunks, hb.extends (.refl k) hw⟩
    · obtain ⟨recipe', chunks, hv, hb⟩ := hrecipe digest _ heq.symm
      cases hv
      exact ⟨chunks, hb.extends (.refl k) hw⟩
  · intro digest hmem
    rcases mem_add.mp hmem with hmem | heq
    · exact h.noRecipeDeleted digest hmem
    · obtain ⟨_, _, hv, _⟩ := hrecipe digest _ heq.symm
      cases hv
  · intro digest hmem
    rcases mem_add.mp hmem with hmem | heq
    · exact h.noManifestDeleted digest hmem
    · obtain ⟨_, hv, _⟩ := hmanifest digest _ heq.symm
      cases hv
  · intro digest manifest hmem
    rcases mem_add.mp hmem with hmem | heq
    · rcases h.manifests digest manifest hmem with h | h
      · exact Or.inl (recipesAdded_add h)
      · exact Or.inr h
    · obtain ⟨_, _, hb⟩ := hmanifest digest _ heq.symm
      rcases hb with h | h
      · exact Or.inl (recipesAdded_add h)
      · exact Or.inr h

theorem BatchOK.add_plain (h : BatchOK E compound k cb) (hw : write.plain = true) :
    BatchOK E compound k (cb.add write) := by
  refine h.add write ?_ ?_ ?_
  · rintro hash value rfl; cases hw
  · rintro digest value rfl; cases hw
  · rintro digest value rfl; cases hw

theorem BatchOK.see (h : BatchOK E compound k cb) {hash : D}
    (hhash : hash ∈ k.hits ∨ hash ∈ chunksAdded cb.writes) :
    BatchOK E compound k (cb.see hash) := by
  refine ⟨h.chunks, ?_, h.recipes, h.noRecipeDeleted, h.noManifestDeleted, h.manifests⟩
  intro other hmem
  rcases List.mem_cons.mp hmem with rfl | hmem
  · exact hhash
  · exact h.seen other hmem

theorem BatchOK.touch (h : BatchOK E compound k cb) (id : Nat) :
    BatchOK E compound k { cb with touchedPacks := cb.touchedPacks.insert id } := by
  refine ⟨?_, h.seen, h.recipes, h.noRecipeDeleted, h.noManifestDeleted, h.manifests⟩
  intro hash value hmem
  obtain ⟨entry, chunk, dict, hv, hb, ht⟩ := h.chunks hash value hmem
  exact ⟨entry, chunk, dict, hv, hb, List.mem_insert_of_mem ht⟩

/-- Once the touched packs are synced, the batch may be committed. -/
theorem BatchOK.backed (h : BatchOK E compound k cb)
    (hsync : ∀ id ∈ cb.touchedPacks, id ∈ k.synced ∧ k.linked = true) :
    Backed E compound k cb.writes := by
  refine ⟨?_, h.recipes, ?_, ?_, h.manifests⟩
  · intro hash value hmem
    obtain ⟨entry, chunk, dict, hv, hb, ht⟩ := h.chunks hash value hmem
    exact ⟨entry, chunk, dict, hv, hb, hsync _ ht⟩
  · intro digest hmem
    exact absurd hmem (h.noRecipeDeleted digest)
  · intro digest manifest _ hmem
    exact h.noManifestDeleted digest hmem

/-! ## Syncing and committing -/

/-- A critical section observes what its body observes. -/
theorem withLock_obeys {α : Type} {l : LockName D} {p : Proc D α}
    {Q : Except String α → Observed D → Prop} (h : p.Obeys (objectContract E compound) k Q) :
    (withLock l p).Obeys (objectContract E compound) k Q :=
  ⟨trivial, fun _ _ => obeys_deferring.mpr
    (h.mono fun _ _ hq => ⟨trivial, fun _ _ => hq⟩)⟩

/-- If it succeeds, all of the packs are synced; one that fails ends the loop. -/
theorem syncEach_obeys :
    ∀ (packs : List Nat) (k : Observed D),
      (syncEach packs).Obeys (objectContract E compound) k fun r k' =>
        Extends k k' ∧ (∀ id ∈ k.synced, id ∈ k'.synced) ∧
          (r = .ok () → ∀ id ∈ packs, id ∈ k'.synced) := by
  intro packs
  induction packs with
  | nil => intro k; exact ⟨.refl k, fun _ h => h, fun _ _ h => nomatch h⟩
  | cons id rest ih =>
    intro k
    refine ⟨trivial, fun r _ => ?_⟩
    cases r with
    | false => exact ⟨extends_learn k (.syncPack id) false rfl, fun _ h => h, fun h => nomatch h⟩
    | true =>
      refine (ih { k with synced := id :: k.synced }).mono ?_
      rintro r k' ⟨hext, hkeep, hall⟩
      refine ⟨(extends_learn k (.syncPack id) true rfl).trans hext,
        fun x hx => hkeep x (List.mem_cons_of_mem _ hx), fun hr x hx => ?_⟩
      rcases List.mem_cons.mp hx with rfl | hx
      · exact hkeep x (List.mem_cons_self ..)
      · exact hall hr x hx

theorem syncTouchedPacks_obeys (packs : List Nat) (k : Observed D) :
    (syncTouchedPacks packs).Obeys (objectContract E compound) k fun r k' =>
      Extends k k' ∧ (r = .ok () → ∀ id ∈ packs, id ∈ k'.synced ∧ k'.linked = true) := by
  rw [syncTouchedPacks]
  split
  · rename_i hnil
    subst hnil
    exact ⟨.refl k, fun _ _ h => nomatch h⟩
  · refine obeys_bind.mpr ((syncEach_obeys packs k).mono ?_)
    rintro (e | ⟨⟩) k' ⟨hext, -, hall⟩
    · exact ⟨hext, fun h => nomatch h⟩
    · refine ⟨trivial, fun _ _ => ⟨hext.trans (extends_learn k' .syncPackDir () rfl), ?_⟩⟩
      exact fun _ id hid => ⟨hall rfl id hid, rfl⟩

/-- Committing a batch that is backed but for the sync. -/
theorem CommitBatch.commit_obeys (hcb : BatchOK E compound k cb) :
    cb.commit.Obeys (objectContract E compound) k fun r k' =>
      Grows k k' ∧ (r = .ok () → ∀ digest ∈ recipesAdded cb.writes, digest ∈ k'.stored) := by
  refine obeys_bind.mpr ((syncTouchedPacks_obeys cb.touchedPacks k).mono ?_)
  rintro (e | ⟨⟩) k' ⟨hext, hsync⟩
  · exact ⟨hext.toGrows, fun h => nomatch h⟩
  · refine ⟨(hcb.extends hext).backed (hsync rfl), fun _ _ => ?_⟩
    refine ⟨hext.toGrows.trans (grows_learn k' (.commit cb.writes) ()), fun _ digest hd => ?_⟩
    exact List.mem_append_left _ hd

/-! ## Chunks -/

/-- The dictionary was looked up, and the id that goes into the entry can be parsed again. -/
theorem compressChunkContent_obeys (chunk : Bytes) (family : String) (k : Observed D) :
    (compressChunkContent E chunk family).Obeys (objectContract E compound) k fun r k' =>
      Extends k k' ∧ ∀ out, r = .ok out →
        ∃ dict, (out.2.1, dict) ∈ k'.dicts ∧ out.1 = E.zstdEncode dict chunk ∧
          (dict ≠ [] → parseUint32 out.2.1 ≠ none) := by
  refine ⟨trivial, fun r _ => ?_⟩
  have hext := extends_learn k (.activeDictionary family) r rfl
  rcases r with e | ⟨id, dict⟩
  · exact ⟨hext, fun _ h => nomatch h⟩
  · show ((if dict ≠ [] ∧ parseUint32 id = none then _ else _ : Proc D _)).Obeys _ _ _
    split
    · exact ⟨hext, fun _ h => nomatch h⟩
    · rename_i hparse
      refine ⟨hext, fun out hout => ?_⟩
      cases hout
      exact ⟨dict, List.mem_cons_self .., rfl, fun hne hnone => hparse ⟨hne, hnone⟩⟩

/-- What storing a chunk into a batch leaves: the batch backed as before, with the
chunk referred to. -/
theorem storeChunkBatched_obeys (hcb : BatchOK E compound k cb) (chunk : Bytes) (family : String) :
    (storeChunkBatched E cb chunk family).Obeys (objectContract E compound) k fun r k' =>
      Extends k k' ∧ ∀ hash cb', r = .ok (hash, cb') →
        BatchOK E compound k' cb' ∧ hash = E.blake3Hex chunk ∧ chunk ∈ k'.hashed ∧
          hash ∈ cb'.seen ∧ (∀ other ∈ cb.seen, other ∈ cb'.seen) := by
  refine ⟨trivial, fun hash (hhash : hash = E.blake3Hex chunk) => ?_⟩
  have hext₁ := extends_learn k (.blake3 chunk) hash rfl
  have hchunk : chunk ∈ (learn k (.blake3 chunk) hash).hashed := List.mem_cons_self ..
  -- the cases without an append: the chunk is known, and only `seen` changes
  have hknown : ∀ (k' : Observed D), Extends (learn k (.blake3 chunk) hash) k' → hash ∈ k'.hits →
      Extends k k' ∧ ∀ hash' cb', (Except.ok (hash, cb.see hash) :
          Except String (D × CommitBatch D)) = .ok (hash', cb') →
        BatchOK E compound k' cb' ∧ hash' = E.blake3Hex chunk ∧ chunk ∈ k'.hashed ∧
          hash' ∈ cb'.seen ∧ (∀ other ∈ cb.seen, other ∈ cb'.seen) := by
    intro k' hext hhit
    refine ⟨hext₁.trans hext, fun hash' cb' heq => ?_⟩
    cases heq
    exact ⟨(hcb.extends (hext₁.trans hext)).see (Or.inl hhit), hhash, hext.hashed _ hchunk,
      List.mem_cons_self .., fun _ h => List.mem_cons_of_mem _ h⟩
  show ((if hash ∈ cb.seen then _ else _ : Proc D _)).Obeys _ _ _
  split
  · -- already referred to by this object
    rename_i hseen
    refine ⟨hext₁, fun hash' cb' heq => ?_⟩
    cases heq
    exact ⟨hcb.extends hext₁, hhash, hchunk, hseen, fun _ h => h⟩
  · refine ⟨trivial, fun found _ => ?_⟩
    have hext₂ := extends_learn (learn k (.blake3 chunk) hash) (.getChunk hash) found rfl
    cases found with
    | some entry => exact hknown _ hext₂ (List.mem_cons_self ..)
    | none =>
      show (Prog.bind (compressChunkContent E chunk family) _).Obeys _ _ _
      refine obeys_bind.mpr ((compressChunkContent_obeys chunk family _).mono ?_)
      rintro (e | ⟨compressed, dictID, dictFamily⟩) k₂ ⟨hext₃, hout⟩
      · exact ⟨(hext₁.trans hext₂).trans hext₃, fun _ _ h => nomatch h⟩
      · obtain ⟨dict, hdict, rfl, hparse⟩ := hout _ rfl
        refine withLock_obeys ⟨trivial, fun found _ => ?_⟩
        have hext₄ := extends_learn k₂ (.getChunk hash) found rfl
        cases found with
        | some entry =>
          exact hknown _ ((hext₂.trans hext₃).trans hext₄) (List.mem_cons_self ..)
        | none =>
          refine ⟨List.cons_ne_nil _ _, fun target _ => ⟨trivial, fun now _ => ?_⟩⟩
          have hext₅ := ((hext₂.trans hext₃).trans hext₄).trans
            (extends_learn _ (.appendToActivePackNoSync (E.zstdEncode dict chunk)) target rfl)
          refine ⟨hext₁.trans hext₅, fun hash' cb' heq => ?_⟩
          cases heq
          have hok := (hcb.extends (hext₁.trans hext₅)).touch target.1
          have hadd := hok.add (.chunk hash (some
            (newChunkEntry now hash (E.zstdEncode dict chunk) dictID dictFamily target)))
            (by
              rintro hash' value heq
              cases heq
              exact ⟨_, chunk, dict, rfl,
                { hashed := hext₅.hashed _ hchunk
                  hash_eq := hhash.symm
                  missed := List.mem_cons_self ..
                  chunkHash := rfl
                  chosen := hdict
                  readable := hparse
                  appended := List.mem_cons_self ..
                  length := rfl }, List.mem_insert_self⟩)
            (by rintro digest value heq; cases heq) (by rintro digest value heq; cases heq)
          refine ⟨hadd.see (Or.inr (mem_chunksAdded.mpr ⟨_, mem_add.mpr (Or.inr rfl)⟩)), hhash,
            hext₅.hashed _ hchunk, List.mem_cons_self .., fun _ h => List.mem_cons_of_mem _ h⟩

/-- By induction on the chunks: the batch has seen every one of them, and stays backed but for the
sync. -/
theorem storeChunksBatched_obeys (family : String) :
    ∀ (chunks : List Bytes) (k : Observed D) (cb : CommitBatch D), BatchOK E compound k cb →
      (storeChunksBatched E family cb chunks).Obeys (objectContract E compound) k fun r k' =>
        Extends k k' ∧ ∀ hashes cb', r = .ok (hashes, cb') →
          BatchOK E compound k' cb' ∧ hashes = chunks.map E.blake3Hex ∧
            (∀ chunk ∈ chunks, chunk ∈ k'.hashed) ∧ (∀ hash ∈ hashes, hash ∈ cb'.seen) ∧
            (∀ other ∈ cb.seen, other ∈ cb'.seen) := by
  intro chunks
  induction chunks with
  | nil =>
    intro k cb hcb
    refine ⟨.refl k, fun hashes cb' heq => ?_⟩
    cases heq
    exact ⟨hcb, rfl, by simp, by simp, fun _ h => h⟩
  | cons chunk rest ih =>
    intro k cb hcb
    refine obeys_bind.mpr ((storeChunkBatched_obeys hcb chunk family).mono ?_)
    rintro (e | ⟨hash, cb₁⟩) k₁ ⟨hext₁, h₁⟩
    · exact ⟨hext₁, fun _ _ h => nomatch h⟩
    · obtain ⟨hcb₁, hhash, hchunk, hseen, hkeep⟩ := h₁ _ _ rfl
      refine obeys_bind.mpr ((ih k₁ cb₁ hcb₁).mono ?_)
      rintro (e | ⟨hashes, cb₂⟩) k₂ ⟨hext₂, h₂⟩
      · exact ⟨hext₁.trans hext₂, fun _ _ h => nomatch h⟩
      · obtain ⟨hcb₂, hhashes, hchunks, hseen₂, hkeep₂⟩ := h₂ _ _ rfl
        refine ⟨hext₁.trans hext₂, fun _ _ heq => ?_⟩
        cases heq
        refine ⟨hcb₂, by rw [List.map_cons, hhash, hhashes], ?_, ?_,
          fun other h => hkeep₂ other (hkeep other h)⟩
        · intro c hc
          rcases List.mem_cons.mp hc with rfl | hc
          · exact hext₂.hashed _ hchunk
          · exact hchunks c hc
        · intro h hh
          rcases List.mem_cons.mp hh with rfl | hh
          · exact hkeep₂ _ hseen
          · exact hseen₂ h hh

/-- A recipe over chunks the batch refers to may be buffered. -/
theorem BatchOK.add_recipe (hcb : BatchOK E compound k cb) (recipe : ObjectRecipe D) (digest : D)
    (hhashes : recipe.chunkHashes = chunks.map E.blake3Hex)
    (hhashed : ∀ chunk ∈ chunks, chunk ∈ k.hashed)
    (hseen : ∀ hash ∈ recipe.chunkHashes, hash ∈ cb.seen)
    (howner : RecipeOwner E compound k digest chunks) :
    BatchOK E compound k (cb.add (.recipe digest (some recipe))) ∧
      digest ∈ recipesAdded (cb.add (.recipe digest (some recipe))).writes := by
  refine ⟨hcb.add _ ?_ ?_ ?_, mem_recipesAdded.mpr ⟨recipe, mem_add.mpr (Or.inr rfl)⟩⟩
  · rintro hash value heq; cases heq
  · rintro digest value heq
    cases heq
    exact ⟨recipe, chunks, rfl, hhashes, hhashed,
      fun hash h => hcb.seen hash (hseen hash h), howner⟩
  · rintro digest value heq; cases heq

/-- As for a reader, for content that is in memory. The caller says why the digest may own the
recipe. -/
theorem storeBlobContentBatched_obeys (hcb : BatchOK E compound k cb) {content : Bytes}
    (mediaType : String) (contentRoles : List String)
    (howner : RecipeOwner E compound k digest (chunkContent content)) :
    (storeBlobContentBatched E cb digest content mediaType contentRoles).Obeys
      (objectContract E compound) k fun r k' =>
        Extends k k' ∧ ∀ cb', r = .ok cb' →
          BatchOK E compound k' cb' ∧ digest ∈ recipesAdded cb'.writes := by
  refine ⟨trivial, fun now _ => ?_⟩
  show (Prog.bind (storeChunksBatched E _ cb (chunkContent content)) _).Obeys _ _ _
  refine obeys_bind.mpr ((storeChunksBatched_obeys _ (chunkContent content) k cb hcb).mono ?_)
  rintro (e | ⟨hashes, cb'⟩) k' ⟨hext, h⟩
  · exact ⟨hext, fun _ h => nomatch h⟩
  · obtain ⟨hcb', hhashes, hhashed, hseen, -⟩ := h _ _ rfl
    refine ⟨hext, fun _ heq => ?_⟩
    cases heq
    exact hcb'.add_recipe _ _ hhashes hhashed hseen (howner.extends hext)

/-- The recipe of the content is in the batch under its hash; the batch stays backed but for the
sync. -/
theorem storeBlobReaderBatched_obeys (hcb : BatchOK E compound k cb) (reader : Reader)
    (mediaType : String) (contentRoles : List String) :
    (storeBlobReaderBatched E cb reader mediaType contentRoles).Obeys
      (objectContract E compound) k fun r k' =>
        Extends k k' ∧ ∀ digest sha256 size cb', r = .ok ((digest, sha256, size), cb') →
          BatchOK E compound k' cb' ∧ digest ∈ recipesAdded cb'.writes ∧
            digest = E.blake3Hex reader.content ∧ reader.content ∈ k'.hashed := by
  have hstream := streamChunks_ok reader
  rw [storeBlobReaderBatched]
  generalize streamChunks reader = out at hstream ⊢
  obtain ⟨chunks, failure⟩ := out
  refine obeys_bind.mpr ((storeChunksBatched_obeys _ chunks k cb hcb).mono ?_)
  rintro (e | ⟨hashes, cb'⟩) k' ⟨hext, h⟩
  · exact ⟨hext, fun _ _ _ _ h => nomatch h⟩
  · obtain ⟨hcb', hhashes, hhashed, hseen, -⟩ := h _ _ rfl
    cases failure with
    | some e => exact ⟨hext, fun _ _ _ _ h => nomatch h⟩
    | none =>
      refine ⟨trivial, fun digest (hdigest : digest = E.blake3Hex reader.content) =>
        ⟨trivial, fun now _ => ?_⟩⟩
      have hext' := extends_learn k' (.blake3 reader.content) digest rfl
      refine ⟨hext.trans hext', fun _ _ _ _ heq => ?_⟩
      cases heq
      have hflat : chunks.flatten = reader.content := by
        rw [show chunks = chunkContent reader.content from hstream rfl, flatten_chunkContent]
      obtain ⟨hok, hmem⟩ := (hcb'.extends hext').add_recipe
        { updatedAt := now, digest := digest, chunkHashes := hashes
          contentBytes := reader.content.length } digest
        hhashes (fun c hc => hext'.hashed _ (hhashed c hc)) hseen
        (Or.inl ⟨by rw [hflat]; exact List.mem_cons_self .., by rw [hflat]; exact hdigest.symm⟩)
      exact ⟨hok, hmem, hdigest, List.mem_cons_self ..⟩

end Gmeow
