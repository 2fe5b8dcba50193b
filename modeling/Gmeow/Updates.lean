import Gmeow.Effects

/-!
# What writing an object does to the tables

One statement per operation that writes an object, over the tables and the clock, for the
call run alone and whether it succeeds or fails:

* `Updated` — a manifest is written, with its change key and its source rows;
* `ParentsAdded` — the parent index has been added to;
* `put_does`, `putCompound_does`, `attachProvenance_does` — the calls.
-/

namespace Gmeow

open Prog

variable {D : Type} [LinearOrder D] {E : Env D} {α β : Type} {m m' : Meta D}
  {clock clock' : Nat → Time} {tables : List Table}

/-! ## Batches -/

/-- The same record applied on both sides. -/
theorem SameOutside.apply_both (h : SameOutside tables m m') (write : Write D) :
    SameOutside tables (m.apply write) (m'.apply write) := by
  cases write <;> constructor <;> intro hn <;> dsimp only [Meta.apply] <;>
    first
    | rw [h.chunks hn] | rw [h.recipes hn] | rw [h.manifests hn] | rw [h.annotated hn]
    | rw [h.sourceIndex hn] | rw [h.sourceAlias hn] | rw [h.compoundParents hn]
    | rw [h.recovery hn] | rw [h.changes hn] | rw [h.latest hn]

/-- The same batch applied on both sides. -/
theorem SameOutside.applyAll_both (h : SameOutside tables m m') (writes : List (Write D)) :
    SameOutside tables (m.applyAll writes) (m'.applyAll writes) := by
  induction writes generalizing m m' with
  | nil => exact h
  | cons write rest ih => exact ih (h.apply_both write)

/-- Records that add chunks and recipes. -/
def Blobs (writes : List (Write D)) : Prop :=
  ∀ write ∈ writes, write.table = .chunks ∨ ∃ digest recipe, write = .recipe digest (some recipe)

variable {writes rows : List (Write D)} {cb : CommitBatch D} {provenance : List Provenance}

theorem Blobs.outside (h : Blobs writes) (m : Meta D) :
    SameOutside [.chunks, .recipes] m (m.applyAll writes) := by
  refine .applyAll fun write hmem => ?_
  rcases h write hmem with htable | ⟨digest, recipe, rfl⟩
  · rw [htable]
    exact List.mem_cons_self ..
  · exact List.mem_cons_of_mem _ (List.mem_cons_self ..)

theorem Blobs.recipes (h : Blobs writes) (m : Meta D) {digest : D}
    (hhas : m.recipes.has digest = true) : (m.applyAll writes).recipes.has digest = true := by
  rcases m.applyAll_recipes writes digest with ⟨value, hmem, hvalue⟩ | ⟨-, hold⟩
  · rcases h _ hmem with htable | ⟨_, recipe, heq⟩
    · cases htable
    · cases heq
      exact OrdMap.has_iff.mpr ⟨recipe, hvalue⟩
  · rw [OrdMap.has, hold]
    exact hhas

/-- The recipe of a batch is there afterwards. -/
theorem Blobs.recipe (h : Blobs writes) (m : Meta D) {digest : D} {recipe : ObjectRecipe D}
    (hrecipe : Write.recipe digest (some recipe) ∈ writes) :
    (m.applyAll writes).recipes.has digest = true := by
  rcases m.applyAll_recipes writes digest with ⟨value, hmem, hvalue⟩ | ⟨hnone, -⟩
  · rcases h _ hmem with htable | ⟨_, recipe, heq⟩
    · cases htable
    · cases heq
      exact OrdMap.has_iff.mpr ⟨recipe, hvalue⟩
  · exact absurd hrecipe (hnone _)

theorem BlobStep.blobs {digest : D} (h : BlobStep digest {} cb) :
    Blobs cb.writes ∧ ∃ recipe, Write.recipe digest (some recipe) ∈ cb.writes := by
  obtain ⟨cb₁, recipe, ⟨rows, hrows, hchunks⟩, hwrites⟩ := h
  rw [hrows, List.nil_append] at hwrites
  rw [hwrites]
  refine ⟨fun write hmem => ?_, recipe, List.mem_append_right _ (List.mem_singleton_self _)⟩
  rcases List.mem_append.mp hmem with hmem | hmem
  · exact Or.inl (hchunks write hmem)
  · exact Or.inr ⟨digest, recipe, List.mem_singleton.mp hmem⟩

/-- The commit of a batch happens as a whole or not at all. -/
theorem batch_does (cb : CommitBatch D) (f : String → String) :
    Does E ((Sink.batch cb).commit.wrapping f) m clock fun r m' clock' =>
      Later clock clock' ∧ ((∃ e, r = .error e ∧ m' = m) ∨
        r = .ok () ∧ m' = m.applyAll cb.writes) := by
  refine Does.wrapping (Does.bind (Buffers.does (syncTouchedPacks_buffers _) m clock) ?_ ?_)
  · rintro u m₁ c₁ ⟨-, rfl, hlater⟩
    exact Does.commit (.ret ⟨hlater, Or.inr ⟨rfl, rfl⟩⟩)
  · rintro e m₁ c₁ ⟨-, rfl, hlater⟩
    exact ⟨hlater, Or.inl ⟨_, rfl, rfl⟩⟩

/-! ## Writing a manifest -/

/-- The change index once a digest is stamped. -/
structure Stamp (digest : D) (changedAt : Time) (m m' : Meta D) : Prop where
  changes : m'.changes = (m.applyAll (changeWrites m digest changedAt)).changes
  latest : m'.latest = (m.applyAll (changeWrites m digest changedAt)).latest

/-- The tables once a manifest is written, with its change key and its source rows. -/
structure Updated (E : Env D) (digest : D) (manifest : Manifest D)
    (provenance : List Provenance) (m m' : Meta D) : Prop where
  recipes : ∀ other, m.recipes.has other = true → m'.recipes.has other = true
  manifests : m'.manifests = m.manifests.set digest manifest
  annotated : m'.annotated = m.annotated
  compoundParents : m'.compoundParents = m.compoundParents
  stamp : Stamp digest manifest.updatedAt m m'
  rows : ∃ rows, SourceRows E digest provenance rows ∧
    m'.sourceIndex = (m.applyAll rows).sourceIndex ∧
    m'.sourceAlias = (m.applyAll rows).sourceAlias

/-- The records of an object: blobs, its manifest, its change key, its sidecar, its
source rows. -/
theorem Updated.of_batch {digest : D} {manifest : Manifest D} {blobs side : List (Write D)}
    (hblobs : Blobs blobs) (hside : ∀ write ∈ side, write.table = .recovery)
    (hrows : SourceRows E digest provenance rows) (m : Meta D) :
    Updated E digest manifest provenance m
      ((((m.applyAll blobs).withManifest digest manifest).applyAll side).applyAll rows) := by
  have h₁ := hblobs.outside m
  have h₂ := withManifest_outside (m.applyAll blobs) digest manifest
  have h₃ : SameOutside [.recovery] ((m.applyAll blobs).withManifest digest manifest)
      (((m.applyAll blobs).withManifest digest manifest).applyAll side) :=
    .applyAll fun write hmem => by rw [hside write hmem]; exact List.mem_cons_self ..
  have h₄ : SameOutside [.sourceIndex, .sourceAlias] _ ((((m.applyAll blobs).withManifest digest
      manifest).applyAll side).applyAll rows) := .applyAll hrows.in_tables
  -- the change index is written over the one of `m`
  have hchange : SameOutside [.chunks, .recipes, .manifests]
      (m.applyAll (changeWrites m digest manifest.updatedAt))
      ((m.applyAll blobs).withManifest digest manifest) := by
    rw [Meta.withManifest, changeWrites_congr (h₁.latest (by decide))]
    exact ((h₁.mono (by decide)).trans (.apply (by simp [Write.table]))).applyAll_both _
  have hbefore : SameOutside [.chunks, .recipes, .manifests, .changes, .latest, .recovery] m
      (((m.applyAll blobs).withManifest digest manifest).applyAll side) :=
    (h₁.mono (by decide)).trans ((h₂.mono (by decide)).trans (h₃.mono (by decide)))
  refine ⟨fun other hhas => ?_, ?_, ?_, ?_, ⟨?_, ?_⟩, rows, hrows, ?_, ?_⟩
  · rw [h₄.recipes (by decide), h₃.recipes (by decide), h₂.recipes (by decide)]
    exact hblobs.recipes m hhas
  · rw [h₄.manifests (by decide), h₃.manifests (by decide), withManifest_manifests,
      h₁.manifests (by decide)]
  · rw [h₄.annotated (by decide), hbefore.annotated (by decide)]
  · rw [h₄.compoundParents (by decide), hbefore.compoundParents (by decide)]
  · rw [h₄.changes (by decide), h₃.changes (by decide), hchange.changes (by decide)]
  · rw [h₄.latest (by decide), h₃.latest (by decide), hchange.latest (by decide)]
  · exact (hbefore.applyAll_both rows).sourceIndex (by decide)
  · exact (hbefore.applyAll_both rows).sourceAlias (by decide)

/-- A manifest written at once, with no source rows. -/
theorem Updated.of_manifest (E : Env D) (m : Meta D) (digest : D) (manifest : Manifest D) :
    Updated E digest manifest [] m (m.withManifest digest manifest) := by
  have hnone : ∀ write ∈ ([] : List (Write D)), write.table = .recovery := fun _ h => nomatch h
  have hblobs : Blobs ([] : List (Write D)) := fun _ h => nomatch h
  exact Updated.of_batch hblobs hnone .nil m

/-- The manifest to write over what is stored. -/
def Meta.merged (m : Meta D) (digest : D) (incoming : Manifest D) (now : Time) : Manifest D :=
  match m.manifests.get digest with
  | none => incoming
  | some existing => mergeManifest now existing incoming

theorem mergedManifest_does (digest : D) (incoming : Manifest D) :
    Does E (mergedManifest digest incoming) m clock fun r m' clock' =>
      r = .ok (m.merged digest incoming (clock 0)) ∧ m' = m ∧ Later clock clock' := by
  refine Does.ask rfl fun found hfound => ?_
  have hfound : found = m.manifests.get digest := hfound
  rw [Meta.merged, ← hfound]
  cases found with
  | none => exact .ret ⟨rfl, rfl, .refl _⟩
  | some existing => exact Does.now (.ret ⟨rfl, rfl, .next _⟩)

/-! ## Put -/

/-- What `Put` and `PutCompound` batch, in order. -/
structure ObjectBatch (digest : D) (manifest : Manifest D) (m : Meta D) (writes : List (Write D)) :
    Prop where
  split : ∃ blobs side, writes = blobs ++ (Write.manifest digest (some manifest) ::
      changeWrites m digest manifest.updatedAt) ++ side ∧ Blobs blobs ∧
    (∀ write ∈ side, write.table = .recovery) ∧ (m.applyAll blobs).recipes.has digest = true

theorem ObjectBatch.of_writes {digest : D} {manifest : Manifest D} {blobs : List (Write D)}
    (hwrites : writes = blobs ++ (Write.manifest digest (some manifest) ::
      changeWrites m digest manifest.updatedAt)) (hblobs : Blobs blobs)
    (hrecipe : (m.applyAll blobs).recipes.has digest = true) :
    ObjectBatch digest manifest m writes :=
  ⟨blobs, [], by rw [hwrites, List.append_nil], hblobs, (fun _ h => nomatch h), hrecipe⟩

/-- The batch of an object with its recovery sidecar. -/
theorem ObjectBatch.sidecar {digest : D} {manifest : Manifest D}
    (h : ObjectBatch digest manifest m cb.writes) (value : Option (RecoverySidecar D)) :
    ObjectBatch digest manifest m (cb.add (.recovery digest value)).writes := by
  obtain ⟨blobs, side, hwrites, hblobs, hside, hrecipe⟩ := h.split
  refine ⟨blobs, side ++ [.recovery digest value], ?_, hblobs, fun write hmem => ?_, hrecipe⟩
  · rw [CommitBatch.add, hwrites, List.append_assoc]
  · rcases List.mem_append.mp hmem with hmem | hmem
    · exact hside write hmem
    · rw [List.mem_singleton.mp hmem]
      rfl

/-- The batch of an object, with its source rows. -/
theorem ObjectBatch.updated {digest : D} {manifest : Manifest D}
    (h : ObjectBatch digest manifest m writes) (hrows : SourceRows E digest provenance rows) :
    Updated E digest manifest provenance m (m.applyAll (writes ++ rows)) ∧
      (m.applyAll (writes ++ rows)).recipes.has digest = true := by
  obtain ⟨blobs, side, rfl, hblobs, hside, hrecipe⟩ := h.split
  have heq : m.applyAll (blobs ++ (Write.manifest digest (some manifest) ::
      changeWrites m digest manifest.updatedAt) ++ side ++ rows) =
      ((((m.applyAll blobs).withManifest digest manifest).applyAll side).applyAll rows) := by
    rw [Meta.applyAll_append, Meta.applyAll_append, Meta.applyAll_append, Meta.withManifest,
      changeWrites_congr ((hblobs.outside m).latest (by decide))]
    rfl
  have hafter : SameOutside [.manifests, .changes, .latest, .recovery, .sourceIndex, .sourceAlias]
      (m.applyAll blobs) (m.applyAll (blobs ++ (Write.manifest digest (some manifest) ::
        changeWrites m digest manifest.updatedAt) ++ side ++ rows)) := by
    rw [heq]
    refine ((withManifest_outside _ digest manifest).mono (by decide)).trans
      (SameOutside.trans (.applyAll fun write hmem => ?_)
        (.applyAll fun write hmem => ?_))
    · rw [hside write hmem]
      decide
    · have hin := hrows.in_tables write hmem
      revert hin
      cases write.table <;> decide
  refine ⟨?_, by rw [hafter.recipes (by decide)]; exact hrecipe⟩
  rw [heq]
  exact Updated.of_batch hblobs hside hrows m

theorem writeManifestTo_batch (cb : CommitBatch D) (digest : D) (manifest : Manifest D) :
    Does E (writeManifestTo (.batch cb) digest manifest) m clock fun r m' clock' =>
      m' = m ∧ clock' = clock ∧ ∃ cb', r = .ok (.batch cb') ∧
        cb'.writes = cb.writes ++ (Write.manifest digest (some manifest) ::
          changeWrites m digest manifest.updatedAt) := by
  refine Does.mono (recordProjectionChangeTo_batch (cb.add (.manifest digest (some manifest)))
    digest manifest.updatedAt) ?_
  rintro r m' clock' ⟨hm, hc, cb', hr, hwrites⟩
  exact ⟨hm, hc, cb', hr, by rw [hwrites, CommitBatch.add, List.append_assoc]; rfl⟩

/-- The source rows and the commit of an object's batch. -/
theorem commitObject_does {digest : D} {manifest : Manifest D}
    (hcb : ObjectBatch digest manifest m cb.writes) (provenance : List Provenance)
    (f : String → String) {next : Proc D α} {Q : Except String α → Meta D → (Nat → Time) → Prop}
    (herror : ∀ e clock', Later clock clock' → Q (.error e) m clock')
    (hok : ∀ m' clock', Later clock clock' → Updated E digest manifest provenance m m' →
      m'.recipes.has digest = true → Does E next m' clock' Q) :
    Does E ((recordSourceObjectIndexesTo E (.batch cb) digest provenance).bind fun sink =>
      (sink.commit.wrapping f).bind fun _ => next) m clock Q := by
  refine Does.bind (recordSourceObjectIndexesTo_batch cb digest provenance) ?_ ?_
  · rintro sink m₁ c₁ ⟨rfl, hlater₁, hrows⟩
    obtain ⟨cb₁, rows, rfl, hwrites, hsource⟩ := hrows sink rfl
    refine Does.bind (batch_does cb₁ f) ?_ ?_
    · rintro u m₂ c₂ ⟨hlater₂, ⟨e, heq, -⟩ | ⟨-, rfl⟩⟩
      · cases heq
      · rw [hwrites]
        obtain ⟨hupdated, hrecipe⟩ := hcb.updated hsource
        exact hok _ c₂ (hlater₁.trans hlater₂) hupdated hrecipe
    · rintro e m₂ c₂ ⟨hlater₂, ⟨-, -, rfl⟩ | ⟨heq, -⟩⟩
      · exact herror e c₂ (hlater₁.trans hlater₂)
      · cases heq
  · rintro e m₁ c₁ ⟨rfl, hlater₁, -⟩
    exact herror e c₁ hlater₁

/-- The manifest a `put` hands in, but for the size. -/
def PutRequest.manifest (E : Env D) (request : PutRequest D) (now : Time) : Manifest D :=
  baseManifest now (E.blake3Hex request.reader.content)
    (E.text (E.blake3Hex request.reader.content)) .fileBlake3 request.mediaType
    request.reader.content.length request.contentRoles request.facets request.provenance
    request.relationships { isCompound := false }

/-- The manifest written over what is stored, but for the size. -/
def WrittenOver (m : Meta D) (digest : D) (incoming : Manifest D) (now : Time)
    (manifest : Manifest D) : Prop :=
  ∃ size, manifest = { m.merged digest incoming now with size := size }

theorem WrittenOver.of_size {digest : D} (incoming : Manifest D) {manifest : Manifest D} {now : Time}
    (size : Nat) (h : WrittenOver m digest { incoming with size := size } now manifest) :
    WrittenOver m digest incoming now manifest := by
  obtain ⟨size', rfl⟩ := h
  refine ⟨size', ?_⟩
  rw [Meta.merged, Meta.merged]
  cases m.manifests.get digest <;> rfl

/-- **The manifest of a Put.** Either the call fails and the tables are as they were, or one batch
has written the object over what was there and indexed its provenance. -/
theorem putManifest_does (request : PutRequest D) (sha256 : String) (size : Nat)
    (hblobs : Blobs cb.writes)
    (hrecipe : (m.applyAll cb.writes).recipes.has (E.blake3Hex request.reader.content) = true) :
    Does E (putManifest E request (E.blake3Hex request.reader.content) sha256 size cb) m clock
      fun r m' clock' => Later clock clock' ∧ ((∃ e, r = .error e ∧ m' = m) ∨
        (r = .ok (E.blake3Hex request.reader.content) ∧
          m'.recipes.has (E.blake3Hex request.reader.content) = true ∧ ∃ manifest,
          WrittenOver m (E.blake3Hex request.reader.content) (request.manifest E (clock 0))
            (clock 1) manifest ∧
          Updated E (E.blake3Hex request.reader.content) manifest request.provenance m m')) := by
  refine Does.now (Does.bind (mergedManifest_does _ _) ?_ ?_)
  · rintro manifest m₁ c₁ ⟨hmanifest, rfl, hlater₁⟩
    have hlater₁ := (Later.next clock).trans hlater₁
    have hover : WrittenOver m₁ (E.blake3Hex request.reader.content)
        (request.manifest E (clock 0)) (clock 1) manifest := by
      have hsize : baseManifest (clock 0) (E.blake3Hex request.reader.content)
          (E.text (E.blake3Hex request.reader.content)) .fileBlake3 request.mediaType size
          request.contentRoles request.facets request.provenance request.relationships
          { isCompound := false } = { request.manifest E (clock 0) with size := size } := by
        simp only [PutRequest.manifest, baseManifest]
      rw [hsize] at hmanifest
      exact WrittenOver.of_size _ size ⟨_, Except.ok.inj hmanifest⟩
    refine Does.bind (writeManifestTo_batch cb _ manifest) ?_ ?_
    · rintro sink m₂ c₂ ⟨rfl, rfl, cb₂, heq, hwrites⟩
      cases heq
      have hbatch := ObjectBatch.of_writes hwrites hblobs hrecipe
      refine Does.buffer (commitObject_does (hbatch.sidecar _) _ _ ?_ ?_)
      · exact fun e c' hlater => ⟨hlater₁.trans hlater, Or.inl ⟨e, rfl, rfl⟩⟩
      · intro m' c' hlater hupdated hhas
        exact .ret ⟨hlater₁.trans hlater, Or.inr ⟨rfl, hhas, manifest, hover, hupdated⟩⟩
    · rintro e m₂ c₂ ⟨-, -, cb₂, heq, -⟩
      cases heq
  · rintro e m₁ c₁ ⟨heq, -⟩
    cases heq

/-- **`Put`.** Nothing happens, or the manifest over what was stored is written. -/
theorem put_does (request : PutRequest D) :
    Does E (put E request) m clock fun r m' clock' =>
      Later clock clock' ∧ ((∃ e, r = .error e ∧ m' = m) ∨
        (r = .ok (E.blake3Hex request.reader.content) ∧
          m'.recipes.has (E.blake3Hex request.reader.content) = true ∧ ∃ c₁ manifest,
          Later clock c₁ ∧
          WrittenOver m (E.blake3Hex request.reader.content) (request.manifest E (c₁ 0))
            (c₁ 1) manifest ∧
          Updated E (E.blake3Hex request.reader.content) manifest request.provenance m m')) := by
  refine Does.check (fun u _ => ?_) fun e _ => ⟨.refl _, Or.inl ⟨e, rfl, rfl⟩⟩
  refine Does.bind (Buffers.does (storeBlobReaderBatched_buffers _ _ _ _) m clock) ?_ ?_
  · rintro ⟨⟨digest, sha256, size⟩, cb⟩ m₁ c₁ ⟨hblob, rfl, hlater₁⟩
    obtain ⟨rfl, hstep⟩ := hblob _ _ _ _ rfl
    obtain ⟨hblobs, recipe, hrecipe⟩ := hstep.blobs
    refine Does.withLock (Does.mono (putManifest_does request sha256 size hblobs
      (hblobs.recipe m₁ hrecipe)) ?_)
    rintro r m' c' ⟨hlater, herror | ⟨hr, hhas, manifest, hover, hupdated⟩⟩
    · exact ⟨hlater₁.trans hlater, Or.inl herror⟩
    · exact ⟨hlater₁.trans hlater,
        Or.inr ⟨hr, hhas, c₁, manifest, hlater₁, hover, hupdated⟩⟩
  · rintro e m₁ c₁ ⟨-, rfl, hlater₁⟩
    exact ⟨hlater₁, Or.inl ⟨e, rfl, rfl⟩⟩

/-! ## PutCompound -/

/-- The digest of a compound. -/
def CompoundPutRequest.digest (E : Env D) (request : CompoundPutRequest D) : D :=
  E.blake3Hex (compoundIdentity (trimSpace request.objectID))

/-- The manifest a `putCompound` hands in, but for the size. -/
def CompoundPutRequest.manifest (E : Env D) (request : CompoundPutRequest D) (now : Time) :
    Manifest D :=
  baseManifest now (request.digest E) (trimSpace request.objectID) .compoundStableID
    (firstNonEmpty [request.mediaType, "application/vnd.gmeow.compound+json"]) 0
    request.contentRoles request.facets request.provenance
    (relationshipsWithCompoundParts (request.digest E) request.relationships
      (normalizedParts request.parts))
    { isCompound := true, parts := normalizedParts request.parts }

/-- The batch of a new object, as its effect on the tables. -/
theorem commitNewObject_does (digest : D) (content : Bytes) (sourceHint : String)
    (manifest : Manifest D) :
    Does E (commitNewObject E {} digest content sourceHint manifest) m clock fun r m' clock' =>
      m' = m ∧ Later clock clock' ∧ ∀ sink, r = .ok sink → ∃ cb, sink = .batch cb ∧
        ObjectBatch digest manifest m cb.writes := by
  refine Does.bind_wrapping (Buffers.does (storeBlobContentBatched_buffers {} digest content
    manifest.mediaType manifest.contentRoles) m clock) ?_ ?_
  · rintro cb m₁ c₁ ⟨hblob, rfl, hlater⟩
    obtain ⟨hblobs, recipe, hrecipe⟩ := (hblob cb rfl).blobs
    refine Does.bind (writeManifestTo_batch cb digest manifest) ?_ ?_
    · rintro sink m₂ c₂ ⟨rfl, rfl, cb₂, heq, hwrites⟩
      cases heq
      have hbatch := ObjectBatch.of_writes hwrites hblobs (hblobs.recipe m₂ hrecipe)
      refine Does.ask rfl fun blake3 _ => .ret ⟨rfl, hlater, fun sink heq => ?_⟩
      cases heq
      exact ⟨_, rfl, hbatch.sidecar _⟩
    · rintro e m₂ c₂ ⟨-, -, cb₂, heq, -⟩
      cases heq
  · rintro e m₁ c₁ ⟨-, rfl, hlater⟩
    exact ⟨rfl, hlater, fun _ heq => nomatch heq⟩

/-- Nothing is committed yet: the object is in the batch, with its manifest merged over the one that
was there, and its recipe is stored or in front of it. -/
theorem writeObject_does (digest : D) (content : Bytes) (sourceHint : String)
    (incoming : Manifest D) :
    Does E (writeObject E {} digest content sourceHint incoming) m clock fun r m' clock' =>
      m' = m ∧ Later clock clock' ∧ ∀ sink, r = .ok sink → ∃ cb manifest, sink = .batch cb ∧
        WrittenOver m digest incoming (clock 0) manifest ∧
        ObjectBatch digest manifest m cb.writes := by
  refine Does.bind (mergedManifest_does digest incoming) ?_ ?_
  · rintro manifest m₁ c₁ ⟨hmanifest, rfl, hlater⟩
    have hover : ∀ size, WrittenOver m₁ digest incoming (clock 0)
        { manifest with size := size } := by
      cases hmanifest
      exact fun size => ⟨size, rfl⟩
    refine Does.ask rfl fun found hfound => ?_
    have hfound : found = m₁.recipes.get digest := hfound
    have hnew : ∀ content size, Does E (commitNewObject E {} digest content sourceHint
        { manifest with size := size }) m₁ c₁ fun r m' clock' =>
        m' = m₁ ∧ Later clock clock' ∧ ∀ sink, r = .ok sink → ∃ cb manifest, sink = .batch cb ∧
          WrittenOver m₁ digest incoming (clock 0) manifest ∧
          ObjectBatch digest manifest m₁ cb.writes := by
      intro content size
      refine Does.mono (commitNewObject_does digest content sourceHint _) ?_
      rintro r m' c' ⟨rfl, hlater', hsink⟩
      refine ⟨rfl, hlater.trans hlater', fun sink heq => ?_⟩
      obtain ⟨cb, hcb, hbatch⟩ := hsink sink heq
      exact ⟨cb, _, hcb, hover size, hbatch⟩
    split
    · rename_i hsome
      -- the recipe is there: only the manifest is written
      refine Does.mono (writeManifestTo_batch {} digest manifest) ?_
      rintro r m' c' ⟨rfl, rfl, cb, rfl, hwrites⟩
      refine ⟨rfl, hlater, fun sink heq => ?_⟩
      cases heq
      refine ⟨cb, manifest, rfl, hover manifest.size, ?_⟩
      refine ObjectBatch.of_writes hwrites (fun _ h => nomatch h) ?_
      show m'.recipes.has digest = true
      rw [OrdMap.has, ← hfound]
      exact hsome
    · split
      · exact hnew _ _
      · exact hnew content manifest.size
  · rintro e m₁ c₁ ⟨heq, -⟩
    cases heq

/-! ### The parent index -/

/-- The index has `parent` among the parents of `child`. -/
def HasParent (m : Meta D) (child parent : D) : Prop :=
  ∃ record, m.compoundParents.get child = some record ∧ record.childDigest = child ∧
    ∃ edge ∈ record.parents, edge.parentDigest = parent

/-- Every row of the parent index is under its own key. -/
def ParentsKeyed (m : Meta D) : Prop :=
  ∀ child record, m.compoundParents.get child = some record → record.childDigest = child

/-- The parent index has been added to. -/
structure ParentsAdded (m m' : Meta D) : Prop where
  outside : SameOutside [.compoundParents] m m'
  kept : ∀ child parent, HasParent m child parent → HasParent m' child parent
  keyed : ParentsKeyed m → ParentsKeyed m'

theorem ParentsAdded.refl (m : Meta D) : ParentsAdded m m := ⟨.refl _ m, fun _ _ h => h, fun h => h⟩

theorem ParentsAdded.trans {m₁ m₂ m₃ : Meta D} (h : ParentsAdded m₁ m₂) (h' : ParentsAdded m₂ m₃) :
    ParentsAdded m₁ m₃ :=
  ⟨h.outside.trans h'.outside, fun child parent hp => h'.kept child parent (h.kept child parent hp),
    fun hk => h'.keyed (h.keyed hk)⟩

/-- The edges of `mergeCompoundParentIndex`: one per parent and role, the last one. -/
def mergedEdges (edges : List (CompoundParentEdge D)) : OrdMap (D ×ₗ String) (CompoundParentEdge D) :=
  edges.foldl (fun m edge => m.set (toLex (edge.parentDigest, edge.role)) edge) ∅

/-- No parent is lost in merging edges. -/
theorem mergedEdges_parent (edges : List (CompoundParentEdge D)) {edge : CompoundParentEdge D}
    (h : edge ∈ edges) :
    ∃ other ∈ (mergedEdges edges).entries.map Prod.snd, other.parentDigest = edge.parentDigest := by
  have hlast : ∃ other, (mergedEdges edges).get (toLex (edge.parentDigest, edge.role)) = some other ∧
      other.parentDigest = edge.parentDigest := by
    rw [mergedEdges]
    -- whatever the map starts as, the key of an edge ends with an edge of its parent
    induction edges using List.reverseRecOn with
    | nil => cases h
    | append_singleton front last ih =>
      rw [List.foldl_append, List.foldl_cons, List.foldl_nil]
      by_cases hkey : toLex (edge.parentDigest, edge.role) = toLex (last.parentDigest, last.role)
      · refine ⟨last, by rw [hkey, OrdMap.get_set_self], ?_⟩
        exact (congrArg (fun key => (ofLex key).1) hkey).symm
      · rw [OrdMap.get_set_ne _ _ hkey]
        refine ih ((List.mem_append.mp h).resolve_right fun hmem => hkey ?_)
        rw [List.mem_singleton.mp hmem]
  obtain ⟨other, hget, hparent⟩ := hlast
  exact ⟨other, List.mem_map.mpr ⟨_, OrdMap.mem_entries_iff.mpr hget, rfl⟩, hparent⟩

/-- A row of the parent index written over the one stored. -/
theorem ParentsAdded.row {childDigest : D} (edges : List (CompoundParentEdge D)) (updatedAt : Time)
    (hkey : ((m.compoundParents.get childDigest).map fun record =>
      record.childDigest).getD childDigest = childDigest) :
    let row : CompoundParentIndex D :=
      { childDigest := childDigest, updatedAt := updatedAt
        parents := (mergedEdges (((m.compoundParents.get childDigest).map fun record =>
          record.parents).getD [] ++ edges)).entries.map Prod.snd }
    ParentsAdded m (m.applyAll [.compoundParents childDigest (some row)]) ∧
      ∀ edge ∈ edges, HasParent (m.applyAll [.compoundParents childDigest (some row)]) childDigest
        edge.parentDigest := by
  intro row
  have hget : (m.applyAll [.compoundParents childDigest (some row)]).compoundParents =
      m.compoundParents.set childDigest row := rfl
  refine ⟨⟨.applyAll fun write hmem => ?_, fun child parent hp => ?_, fun hk child record h => ?_⟩,
    fun edge hmem => ?_⟩
  · rw [List.mem_singleton.mp hmem]
    exact List.mem_cons_self ..
  · obtain ⟨record, hrecord, hchild, edge, hedge, hparent⟩ := hp
    by_cases heq : child = childDigest
    · subst heq
      obtain ⟨other, hother, hsame⟩ := mergedEdges_parent
        (((m.compoundParents.get child).map fun record => record.parents).getD [] ++ edges)
        (List.mem_append_left _ (by rw [hrecord]; exact hedge))
      exact ⟨row, by rw [hget, OrdMap.get_set_self], rfl, other, hother, hsame.trans hparent⟩
    · exact ⟨record, by rw [hget, OrdMap.get_set_ne _ _ heq, hrecord], hchild, edge, hedge, hparent⟩
  · rw [hget, OrdMap.get_set] at h
    split at h
    · rename_i heq
      cases h
      exact heq.symm
    · exact hk child record h
  · obtain ⟨other, hother, hsame⟩ := mergedEdges_parent
      (((m.compoundParents.get childDigest).map fun record => record.parents).getD [] ++ edges)
      (List.mem_append_right _ hmem)
    exact ⟨row, by rw [hget, OrdMap.get_set_self], rfl, other, hother, hsame⟩

/-- The edges are merged into those that were there; a record of another child is an error. -/
theorem mergeCompoundParentIndex_does (childDigest : D) (edges : List (CompoundParentEdge D)) :
    Does E (mergeCompoundParentIndex childDigest edges) m clock fun r m' clock' =>
      Later clock clock' ∧ ParentsAdded m m' ∧
        (r = .ok () → ∀ edge ∈ edges, HasParent m' childDigest edge.parentDigest) := by
  refine Does.withLock (Does.ask rfl fun index hindex => ?_)
  have hindex : index = m.compoundParents.get childDigest := hindex
  subst hindex
  split
  · exact .fail ⟨.refl _, .refl m, fun heq => nomatch heq⟩
  · rename_i hkey
    refine Does.now (Does.commit (.ret ?_))
    obtain ⟨hadded, hedges⟩ := ParentsAdded.row edges (clock 0) (not_not.mp hkey)
    exact ⟨.next _, hadded, fun _ => hedges⟩

/-- Children one after the other, each in a commit of its own; a failure keeps what was written
before. -/
theorem mergeParentEdges_does :
    ∀ (children : List (D × List (CompoundParentEdge D))) (m : Meta D) (clock : Nat → Time),
      Does E (mergeParentEdges children) m clock fun r m' clock' =>
        Later clock clock' ∧ ParentsAdded m m' ∧
          (r = .ok () → ∀ item ∈ children, ∀ edge ∈ item.2,
            HasParent m' item.1 edge.parentDigest) := by
  intro children
  induction children with
  | nil => exact fun m clock => .ret ⟨.refl _, .refl m, fun _ _ hmem => nomatch hmem⟩
  | cons child rest ih =>
    intro m clock
    refine Does.bind (mergeCompoundParentIndex_does child.1 child.2) ?_ ?_
    · rintro u m₁ c₁ ⟨hlater₁, hadded₁, hedges₁⟩
      refine Does.mono (ih m₁ c₁) ?_
      rintro r m' c' ⟨hlater, hadded, hedges⟩
      refine ⟨hlater₁.trans hlater, hadded₁.trans hadded, fun hr item hmem edge hedge => ?_⟩
      rcases List.mem_cons.mp hmem with rfl | hmem
      · exact hadded.kept _ _ (hedges₁ rfl edge hedge)
      · exact hedges hr item hmem edge hedge
    · rintro e m₁ c₁ ⟨hlater₁, hadded₁, -⟩
      exact ⟨hlater₁, hadded₁, fun heq => nomatch heq⟩

/-- The edges to record, by child. -/
def edgesByChild (parentDigest : D) (updatedAt : Time) (parts : List (CompoundPart D)) :
    OrdMap D (List (CompoundParentEdge D)) :=
  parts.foldl (fun m part =>
    m.set part.digest ((m.get part.digest).getD [] ++
      [{ parentDigest := parentDigest, role := part.role, updatedAt := updatedAt }])) ∅

/-- Every part has an edge to the parent, also where parts share their digest. -/
theorem edgesByChild_part (parentDigest : D) (updatedAt : Time) {parts : List (CompoundPart D)}
    {part : CompoundPart D} (h : part ∈ parts) :
    ∃ edges, (edgesByChild parentDigest updatedAt parts).get part.digest = some edges ∧
      ∃ edge ∈ edges, edge.parentDigest = parentDigest := by
  rw [edgesByChild]
  induction parts using List.reverseRecOn with
  | nil => cases h
  | append_singleton front last ih =>
    rw [List.foldl_append, List.foldl_cons, List.foldl_nil]
    by_cases heq : part.digest = last.digest
    · rw [heq, OrdMap.get_set_self]
      exact ⟨_, rfl, _, List.mem_append_right _ (List.mem_singleton_self _), rfl⟩
    · rw [OrdMap.get_set_ne _ _ heq]
      refine ih ((List.mem_append.mp h).resolve_right fun hmem => heq ?_)
      rw [List.mem_singleton.mp hmem]

/-- Edges are only added. If the call succeeds, every part leads to the new parent. -/
theorem recordCompoundParentIndexes_does (parentDigest : D) (parts : List (CompoundPart D)) :
    Does E (recordCompoundParentIndexes E parentDigest parts) m clock fun r m' clock' =>
      Later clock clock' ∧ ParentsAdded m m' ∧
        (r = .ok () → ∀ part ∈ parts, HasParent m' part.digest parentDigest) := by
  rw [recordCompoundParentIndexes]
  split
  · rename_i hnil
    subst hnil
    exact .ret ⟨.refl _, .refl m, fun _ _ hmem => by cases hmem⟩
  · refine Does.now (Does.check (fun u _ => ?_) fun e _ =>
      ⟨.next _, .refl m, fun heq => by cases heq⟩)
    refine Does.mono (mergeParentEdges_does (edgesByChild parentDigest (clock 0) parts).entries m
      (nextClock clock)) ?_
    rintro r m' c' ⟨hlater, hadded, hedges⟩
    refine ⟨(Later.next clock).trans hlater, hadded, fun hr part hmem => ?_⟩
    obtain ⟨edges, hget, edge, hedge, hparent⟩ := edgesByChild_part parentDigest (clock 0) hmem
    rw [← hparent]
    exact hedges hr _ (OrdMap.mem_entries_iff.mpr hget) edge hedge

/-- **`PutCompound`.** Nothing happens, or the manifest over what was stored is written and
then the parent index of the parts, in which the call may still fail. -/
theorem putCompound_does (request : CompoundPutRequest D) :
    Does E (putCompound E request) m clock fun r m' clock' =>
      Later clock clock' ∧ ((∃ e, r = .error e ∧ m' = m) ∨
        ∃ c₁ m₁ manifest, Later clock c₁ ∧
          WrittenOver m (request.digest E) (request.manifest E (c₁ 0)) (c₁ 1) manifest ∧
          Updated E (request.digest E) manifest request.provenance m m₁ ∧
          m₁.recipes.has (request.digest E) = true ∧ ParentsAdded m₁ m' ∧
          (∀ digest, r = .ok digest → digest = request.digest E ∧
            ∀ part ∈ normalizedParts request.parts, HasParent m' part.digest digest)) := by
  rw [putCompound]
  dsimp only
  split
  · exact .fail ⟨.refl _, Or.inl ⟨_, rfl, rfl⟩⟩
  · refine Does.check (fun u _ => ?_) fun e _ => ⟨.refl _, Or.inl ⟨e, rfl, rfl⟩⟩
    refine Does.check (fun u _ => ?_) fun e _ => ⟨.refl _, Or.inl ⟨e, rfl, rfl⟩⟩
    refine Does.ask rfl fun digest hdigest => ?_
    have hdigest : digest = request.digest E := hdigest
    subst hdigest
    refine Does.now (Does.bind (writeObject_does (request.digest E) _ _ _) ?_ ?_)
    · rintro sink m₁ c₁ ⟨rfl, hlater₁, hsink⟩
      obtain ⟨cb, manifest, rfl, hover, hbatch⟩ := hsink sink rfl
      have hlater₁ := (Later.next clock).trans hlater₁
      have hover : WrittenOver m₁ (request.digest E) (request.manifest E (clock 0)) (clock 1)
          manifest := by
        have hsize : ∀ size, baseManifest (clock 0) (request.digest E) (trimSpace request.objectID)
            .compoundStableID (firstNonEmpty [request.mediaType,
              "application/vnd.gmeow.compound+json"]) size request.contentRoles request.facets
            request.provenance (relationshipsWithCompoundParts (request.digest E)
              request.relationships (normalizedParts request.parts))
            { isCompound := true, parts := normalizedParts request.parts } =
              { request.manifest E (clock 0) with size := size } := by
          simp only [CompoundPutRequest.manifest, baseManifest, implies_true]
        rw [hsize] at hover
        exact WrittenOver.of_size _ _ hover
      refine commitObject_does hbatch _ _ ?_ ?_
      · exact fun e c' hlater => ⟨hlater₁.trans hlater, Or.inl ⟨e, rfl, rfl⟩⟩
      · intro m₂ c₂ hlater₂ hupdated hhas
        refine Does.bind (recordCompoundParentIndexes_does _ _) ?_ ?_
        · rintro u' m' c' ⟨hlater, hadded, hparents⟩
          refine .ret ⟨(hlater₁.trans hlater₂).trans hlater, Or.inr ⟨clock, m₂, manifest, .refl _,
            hover, hupdated, hhas, hadded, fun digest heq => ?_⟩⟩
          cases heq
          exact ⟨rfl, hparents rfl⟩
        · rintro e m' c' ⟨hlater, hadded, -⟩
          exact ⟨(hlater₁.trans hlater₂).trans hlater, Or.inr ⟨clock, m₂, manifest, .refl _,
            hover, hupdated, hhas, hadded, fun _ heq => by cases heq⟩⟩
    · rintro e m₁ c₁ ⟨rfl, hlater₁, -⟩
      exact ⟨(Later.next clock).trans hlater₁, Or.inl ⟨e, rfl, rfl⟩⟩

/-! ## AttachProvenance -/

/-- A manifest written at once, and its source rows after it. -/
theorem Updated.of_sync {digest : D} {manifest : Manifest D}
    (hrows : SourceRows E digest provenance rows) (m : Meta D) :
    Updated E digest manifest provenance m ((m.withManifest digest manifest).applyAll rows) := by
  have hnone : ∀ write ∈ ([] : List (Write D)), write.table = .recovery := fun _ h => nomatch h
  have hblobs : Blobs ([] : List (Write D)) := fun _ h => nomatch h
  exact Updated.of_batch hblobs hnone hrows m

/-- **`AttachProvenance`.** Nothing happens, or the merged provenance is written. -/
theorem attachProvenance_does (digest : D) (provenance : List Provenance) :
    Does E (attachProvenance E digest provenance) m clock fun r m' clock' =>
      Later clock clock' ∧
        ((m' = m ∧ ∀ changed, r = .ok changed → changed = false ∧ ∃ manifest,
            m.manifests.get digest = some manifest ∧
            provenanceAddsNew manifest.provenance provenance = false) ∨
          (r = .ok true ∧ ∃ manifest, m.manifests.get digest = some manifest ∧
            Updated E digest { manifest with
              provenance := mergeProvenance manifest.provenance provenance
              updatedAt := clock 0 } provenance m m')) := by
  rw [attachProvenance]
  split
  · exact .fail ⟨.refl _, Or.inl ⟨rfl, fun _ heq => nomatch heq⟩⟩
  · refine Does.check (fun u hvalid => ?_) fun e _ =>
      ⟨.refl _, Or.inl ⟨rfl, fun _ heq => nomatch heq⟩⟩
    refine Does.withLock (Does.ask rfl fun found hfound => ?_)
    have hfound : found = m.manifests.get digest := hfound
    cases found with
    | none => exact .fail ⟨.refl _, Or.inl ⟨rfl, fun _ heq => nomatch heq⟩⟩
    | some manifest =>
      dsimp only
      split
      · refine Does.now (Does.bind (writeManifest_does digest _) ?_ ?_)
        · rintro u m₁ c₁ ⟨rfl, rfl, -⟩
          refine Does.bind (recordSourceObjectIndexesTo_sync digest (validateProvenance_ok hvalid))
            ?_ ?_
          · rintro sink m₂ c₂ ⟨hlater, -, rows, hrows, rfl⟩
            exact .ret ⟨(Later.next clock).trans hlater,
              Or.inr ⟨rfl, manifest, hfound.symm, .of_sync hrows m⟩⟩
          · rintro e m₂ c₂ ⟨-, heq, -⟩
            cases heq
        · rintro e m₁ c₁ ⟨-, -, heq⟩
          cases heq
      · rename_i hold
        refine .ret ⟨.refl _, Or.inl ⟨rfl, fun changed heq => ?_⟩⟩
        cases heq
        exact ⟨rfl, manifest, hfound.symm, by simpa using hold⟩

end Gmeow
