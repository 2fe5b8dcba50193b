import Gmeow.Discipline

/-!
# The operations, one by one

`Gmeow.Discipline` carried to the public operations: the synchronous chunk store,
the sinks and side tables, reading, and then `put`, `putCompound`,
`attachProvenance`, `writeAnnotationRecord`, `writeOverlays`, `deleteObject` and
`deleteImport`. Each theorem says what the operation has observed when it returns —
for `put`, that the digest is the hash of the content and its recipe is stored.
-/

namespace Gmeow

open Prog

variable {D : Type} [LinearOrder D] {E : Env D} {compound : Option D} {k k' k₁ k₂ k₃ : Observed D}
  {write : Write D} {content : Bytes} {sink' sink₁ sink₂ : Sink D}

/-! ## Batches of one record -/

theorem Backed.of_plain {writes : List (Write D)} (h : ∀ write ∈ writes, write.plain = true) :
    Backed E compound k writes where
  chunks hash value hmem := by cases h _ hmem
  recipes digest recipe hmem := by cases h _ hmem
  deletions digest hmem := by cases h _ hmem
  consistent digest manifest hmem := by cases h _ hmem
  manifests digest manifest hmem := by cases h _ hmem

theorem Backed.plain_single (h : write.plain = true) : Backed E compound k [write] :=
  .of_plain fun other hmem => by rw [List.mem_singleton.mp hmem]; exact h

variable {digest : D} {p : Prim D} {sink : Sink D} {cb : CommitBatch D}

theorem Backed.manifest_single {manifest : Manifest D}
    (h : digest ∈ k.recipes ∨ digest ∈ k.manifests) :
    Backed E compound k [.manifest digest (some manifest)] where
  chunks hash value hmem := by simp at hmem
  recipes digest recipe hmem := by simp at hmem
  deletions digest hmem := by simp at hmem
  consistent digest manifest hmem := by simp
  manifests digest' manifest' hmem := by
    obtain ⟨rfl, -⟩ : digest' = digest ∧ manifest' = manifest := by simpa using hmem
    exact Or.inr h

theorem Backed.chunk_single {hash : D} {entry : ChunkIndexEntry D} (chunk dict : Bytes)
    (h : ChunkBacked E k hash entry chunk dict) (hd : Durable k entry) :
    Backed E compound k [.chunk hash (some entry)] where
  chunks hash' value hmem := by
    obtain ⟨rfl, rfl⟩ : hash' = hash ∧ value = some entry := by simpa using hmem
    exact ⟨entry, chunk, dict, rfl, h, hd⟩
  recipes digest recipe hmem := by simp at hmem
  deletions digest hmem := by simp at hmem
  consistent digest manifest hmem := by simp at hmem
  manifests digest manifest hmem := by simp at hmem

/-- A recipe can be committed on its own once its chunks are in the index. -/
theorem Backed.recipe_single {recipe : ObjectRecipe D} {chunks : List Bytes}
    (hhashes : recipe.chunkHashes = chunks.map E.blake3Hex)
    (hhashed : ∀ chunk ∈ chunks, chunk ∈ k.hashed)
    (hhits : ∀ hash ∈ recipe.chunkHashes, hash ∈ k.hits)
    (howner : RecipeOwner E compound k digest chunks) :
    Backed E compound k [.recipe digest (some recipe)] where
  chunks hash value hmem := by simp at hmem
  recipes digest' recipe' hmem := by
    obtain ⟨rfl, rfl⟩ : digest' = digest ∧ recipe' = recipe := by simpa using hmem
    exact ⟨chunks, hhashes, hhashed, fun hash h => Or.inl (hhits hash h), howner⟩
  deletions digest hmem := by simp at hmem
  consistent digest manifest hmem := by simp at hmem
  manifests digest manifest hmem := by simp at hmem

/-! ## Sequences

Knowledge only grows, so a sequence is treated part by part, each from where it starts. -/

theorem ask_grows {α : Type} {f : Resp p → Proc D α} (hpre : (objectContract E compound).pre k p)
    (hf : ∀ r, (objectContract E compound).post p r →
      (f r).Obeys (objectContract E compound) (learn k p r) fun _ k' => Grows (learn k p r) k') :
    ((ask p : Proc D (Resp p)).bind f).Obeys (objectContract E compound) k fun _ k' =>
      Grows k k' :=
  Obeys.ask_rel Grows hpre (grows_learn k p) hf

theorem ask_extends {α : Type} {f : Resp p → Proc D α} (hp : p.isCommit = false)
    (hpre : (objectContract E compound).pre k p) (hf : ∀ r, (objectContract E compound).post p r →
      (f r).Obeys (objectContract E compound) (learn k p r) fun _ k' =>
        Extends (learn k p r) k') :
    ((ask p : Proc D (Resp p)).bind f).Obeys (objectContract E compound) k fun _ k' =>
      Extends k k' :=
  Obeys.ask_rel Extends hpre (fun r => extends_learn k p r hp) hf

/-! ## The synchronous chunk store -/

/-- The bytes are synced, and the pack is linked in its directory, before the place is returned. -/
theorem appendToActivePack_obeys (bytes : Bytes) (hmissed : k.missed ≠ []) :
    (appendToActivePack bytes).Obeys (objectContract E compound) k fun r k' =>
      Extends k k' ∧ ∀ target, r = .ok target →
        (target.1, target.2, bytes) ∈ k'.appended ∧ target.1 ∈ k'.synced ∧ k'.linked = true := by
  refine ⟨hmissed, fun target _ => ⟨trivial, fun ok _ => ?_⟩⟩
  have hext := (extends_learn k (.appendToActivePackNoSync bytes) target rfl).trans
    (extends_learn _ (.syncPack target.1) ok rfl)
  cases ok with
  | false => exact ⟨trivial, fun _ _ => ⟨hext, fun _ h => nomatch h⟩⟩
  | true =>
    refine ⟨trivial, fun _ _ => ⟨hext.trans (extends_learn _ .syncPackDir () rfl), ?_⟩⟩
    rintro _ heq
    cases heq
    exact ⟨List.mem_cons_self .., List.mem_cons_self .., rfl⟩

/-- **Storing one chunk.** It is either found in the index, or compressed, appended, synced and then
committed: at the end its hash is known to be stored, and nothing known before is lost. -/
theorem storeChunk_obeys (chunk : Bytes) (family : String) (k : Observed D) :
    (storeChunk E chunk family).Obeys (objectContract E compound) k fun r k' =>
      Grows k k' ∧ ∀ hash, r = .ok hash →
        hash = E.blake3Hex chunk ∧ chunk ∈ k'.hashed ∧ hash ∈ k'.hits := by
  refine ⟨trivial, fun hash (hhash : hash = E.blake3Hex chunk) => ⟨trivial, fun found _ => ?_⟩⟩
  have hchunk : chunk ∈ (learn k (.blake3 chunk) hash).hashed := List.mem_cons_self ..
  have hext₁ := (extends_learn k (.blake3 chunk) hash rfl).trans
    (extends_learn _ (.getChunk hash) found rfl)
  have hchunk₁ := (extends_learn (learn k (.blake3 chunk) hash) (.getChunk hash) found
    rfl).hashed _ hchunk
  cases found with
  | some entry =>
    refine ⟨hext₁.toGrows, fun _ heq => ?_⟩
    cases heq
    exact ⟨hhash, hchunk₁, List.mem_cons_self ..⟩
  | none =>
    show (Prog.bind (compressChunkContent E chunk family) _).Obeys _ _ _
    refine obeys_bind.mpr ((compressChunkContent_obeys chunk family _).mono ?_)
    rintro (e | ⟨compressed, dictID, dictFamily⟩) k₂ ⟨hext₂, hout⟩
    · exact ⟨(hext₁.trans hext₂).toGrows, fun _ h => nomatch h⟩
    · obtain ⟨dict, hdict, rfl, hparse⟩ := hout _ rfl
      refine withLock_obeys ⟨trivial, fun found _ => ?_⟩
      have hext₃ := extends_learn k₂ (.getChunk hash) found rfl
      cases found with
      | some entry =>
        refine ⟨((hext₁.trans hext₂).trans hext₃).toGrows, fun _ heq => ?_⟩
        cases heq
        exact ⟨hhash, (hext₂.trans hext₃).hashed _ hchunk₁, List.mem_cons_self ..⟩
      | none =>
        show (Prog.bind ( appendToActivePack _) _).Obeys _ _ _
        refine obeys_bind.mpr
          ((appendToActivePack_obeys (E.zstdEncode dict chunk) (List.cons_ne_nil _ _)).mono ?_)
        rintro (e | target) k₃ ⟨hext₄, hput⟩
        · exact ⟨(((hext₁.trans hext₂).trans hext₃).trans hext₄).toGrows, fun _ h => nomatch h⟩
        · obtain ⟨happ, hsync, hlink⟩ := hput _ rfl
          have hchunk₃ := ((hext₂.trans hext₃).trans hext₄).hashed _ hchunk₁
          refine ⟨trivial, fun now _ => ⟨Backed.chunk_single chunk dict
            { hashed := hchunk₃
              hash_eq := hhash.symm
              missed := hext₄.missed _ (List.mem_cons_self ..)
              chunkHash := rfl
              chosen := (hext₃.trans hext₄).dicts _ hdict
              readable := hparse
              appended := happ
              length := rfl } ⟨hsync, hlink⟩, fun _ _ => ?_⟩⟩
          refine ⟨(((hext₁.trans hext₂).trans hext₃).trans hext₄).toGrows.trans
            (grows_learn _ (.commit _) ()), ?_⟩
          rintro _ heq
          cases heq
          exact ⟨hhash, hchunk₃,
            List.mem_append_left _ (mem_chunksAdded.mpr ⟨_, List.mem_singleton.mpr rfl⟩)⟩

/-- By induction on the chunks, each with what is known of those before. -/
theorem storeChunks_obeys (family : String) :
    ∀ (chunks : List Bytes) (k : Observed D),
      (storeChunks E family chunks).Obeys (objectContract E compound) k fun r k' =>
        Grows k k' ∧ ∀ hashes, r = .ok hashes →
          hashes = chunks.map E.blake3Hex ∧ (∀ chunk ∈ chunks, chunk ∈ k'.hashed) ∧
            (∀ hash ∈ hashes, hash ∈ k'.hits) := by
  intro chunks
  induction chunks with
  | nil =>
    intro k
    refine ⟨.refl k, fun _ heq => ?_⟩
    cases heq
    exact ⟨rfl, by simp, by simp⟩
  | cons chunk rest ih =>
    intro k
    refine Obeys.bind_ok Grows (storeChunk_obeys chunk family k) ?_
    rintro hash k₁ - ⟨hhash, hchunk, hhit⟩
    refine Obeys.bind_ok Grows (ih k₁) ?_
    rintro hashes k₂ hg₂ ⟨hhashes, hchunks, hhits⟩
    refine ⟨.refl k₂, fun _ heq => ?_⟩
    cases heq
    refine ⟨by rw [List.map_cons, hhash, hhashes], ?_, ?_⟩
    · intro c hc
      rcases List.mem_cons.mp hc with rfl | hc
      · exact hg₂.hashed _ hchunk
      · exact hchunks c hc
    · intro h hh
      rcases List.mem_cons.mp hh with rfl | hh
      · exact hg₂.hits _ hhit
      · exact hhits h hh

theorem storeBlobContent_obeys (mediaType : String) (contentRoles : List String)
    (hhashed : content ∈ k.hashed) (hdigest : E.blake3Hex content = digest) :
    (storeBlobContent E digest content mediaType contentRoles).Obeys
      (objectContract E compound) k fun _ k' => Grows k k' := by
  refine ⟨trivial, fun now _ => ?_⟩
  show (Prog.bind (storeChunks E _ (chunkContent content)) _).Obeys _ _ _
  refine obeys_bind.mpr ((storeChunks_obeys _ (chunkContent content) k).mono ?_)
  rintro (e | hashes) k' ⟨hext, h⟩
  · exact hext
  · obtain ⟨hhashes, hchunks, hhits⟩ := h _ rfl
    have hflat := flatten_chunkContent content
    refine ⟨Backed.recipe_single hhashes hchunks hhits (Or.inl ⟨?_, ?_⟩), fun _ _ => ?_⟩
    · rw [hflat]; exact hext.hashed _ hhashed
    · rw [hflat]; exact hdigest
    · exact hext.trans (grows_learn _ (.commit _) ())

/-! ## Reading -/

theorem decompressChunkContent_obeys (compressed : Bytes) (dictID : String) (k : Observed D) :
    (decompressChunkContent E compressed dictID).Obeys (objectContract E compound) k
      fun _ k' => Extends k k' := by
  rw [decompressChunkContent]
  split
  · cases E.zstdDecode [] compressed <;> exact Extends.refl k
  · refine ⟨trivial, fun dict _ => ?_⟩
    cases dict with
    | none => exact Extends.refl k
    | some dict =>
      show ((if parseUint32 dictID = none then _ else _ : Proc D _)).Obeys _ _ _
      split
      · exact Extends.refl k
      · cases E.zstdDecode dict compressed <;> exact Extends.refl k

/-- What is returned was hashed, and has the hash that it was asked for. -/
theorem readChunkAt_obeys (hash : D) (entry : ChunkIndexEntry D) (k : Observed D) :
    (readChunkAt E hash entry).Obeys (objectContract E compound) k fun r k' =>
      Extends k k' ∧ ∀ chunk, r = .ok (.ok chunk) →
        chunk ∈ k'.hashed ∧ E.blake3Hex chunk = hash := by
  refine ⟨trivial, fun raw _ => ?_⟩
  have hraw := extends_learn k (.readPack entry.packID entry.offset entry.length) raw rfl
  rcases raw with (_ | _) | compressed
  · exact ⟨hraw, fun _ h => nomatch h⟩
  · exact ⟨hraw, fun _ h => nomatch h⟩
  · show (Prog.bind (decompressChunkContent E compressed entry.dictID) _).Obeys _ _ _
    refine obeys_bind.mpr ((decompressChunkContent_obeys compressed entry.dictID _).mono ?_)
    rintro (e | (e | chunk)) k' hext
    · exact ⟨hraw.trans hext, fun _ h => nomatch h⟩
    · exact ⟨hraw.trans hext, fun _ h => nomatch h⟩
    · refine ⟨trivial, fun actual (hactual : actual = E.blake3Hex chunk) => ?_⟩
      have hext' := (hraw.trans hext).trans (extends_learn k' (.blake3 chunk) actual rfl)
      show ((if actual ≠ hash then _ else _ : Proc D _)).Obeys _ _ _
      split
      · exact ⟨hext', fun _ h => nomatch h⟩
      · rename_i heq
        refine ⟨hext', fun _ h => ?_⟩
        cases h
        exact ⟨List.mem_cons_self .., by rw [← hactual]; exact not_not.mp heq⟩

/-- A read only adds to what is known, also where the entry has moved and is looked up again. -/
theorem readChunk_obeys (hash : D) (k : Observed D) :
    (readChunk E hash).Obeys (objectContract E compound) k fun _ k' => Extends k k' := by
  refine ⟨trivial, fun cached _ => ?_⟩
  cases cached with
  | some value => exact Extends.refl k
  | none =>
    refine ⟨trivial, fun found _ => ?_⟩
    have hext₁ := extends_learn k (.getChunk hash) found rfl
    cases found with
    | none => exact hext₁
    | some entry =>
      show (Prog.bind (readChunkAt E hash entry) _).Obeys _ _ _
      refine obeys_bind.mpr ((readChunkAt_obeys hash entry _).mono ?_)
      rintro (e | (e | chunk)) k₂ ⟨hext₂, hread⟩
      · exact hext₁.trans hext₂
      · show ((if e.notExist = true then _ else _ : Proc D _)).Obeys _ _ _
        split
        · -- the pack is gone: look the chunk up once more
          refine ⟨trivial, fun found _ => ?_⟩
          have hext₃ := extends_learn k₂ (.getChunk hash) found rfl
          cases found with
          | none => exact (hext₁.trans hext₂).trans hext₃
          | some fresh =>
            show (Prog.bind (readChunkAt E hash fresh) _).Obeys _ _ _
            refine obeys_bind.mpr ((readChunkAt_obeys hash fresh _).mono ?_)
            rintro (e | (e | chunk)) k₄ ⟨hext₄, hread⟩
            · exact ((hext₁.trans hext₂).trans hext₃).trans hext₄
            · exact ((hext₁.trans hext₂).trans hext₃).trans hext₄
            · exact ⟨hread chunk rfl, fun _ _ => ((hext₁.trans hext₂).trans hext₃).trans hext₄⟩
        · exact hext₁.trans hext₂
      · exact ⟨hread chunk rfl, fun _ _ => hext₁.trans hext₂⟩

theorem readChunks_obeys :
    ∀ (hashes : List D) (k : Observed D),
      (readChunks E hashes).Obeys (objectContract E compound) k fun _ k' => Extends k k' := by
  intro hashes
  induction hashes with
  | nil => intro k; exact Extends.refl k
  | cons hash rest ih =>
    intro k
    refine Obeys.bind_rel Extends (readChunk_obeys hash k) fun chunk k₁ => ?_
    cases chunk with
    | error e => exact Extends.refl k₁
    | ok chunk =>
      show (Prog.bind (readChunks E rest) _).Obeys _ _ _
      exact Obeys.bind_rel Extends (ih k₁) fun _ k₂ => Extends.refl k₂

theorem readBlobContent_obeys (digest : D) (k : Observed D) :
    (readBlobContent E digest).Obeys (objectContract E compound) k fun _ k' => Extends k k' := by
  refine ask_extends rfl trivial fun found _ => ?_
  cases found with
  | none => exact Extends.refl _
  | some recipe =>
    exact Obeys.bind_rel Extends (readChunks_obeys recipe.chunkHashes _) fun _ k₂ => Extends.refl k₂

/-! ## Sinks -/

/-- From `sink`, with `k` known, to `sink'`, with `k'` known: a synchronous sink stays
one, a batch is still backed but for the sync and has kept its recipes. -/
def SinkStep (E : Env D) (compound : Option D) (k k' : Observed D) : Sink D → Sink D → Prop
  | .sync, .sync => Grows k k'
  | .batch cb, .batch cb' =>
    Extends k k' ∧ BatchOK E compound k' cb' ∧
      ∀ digest ∈ recipesAdded cb.writes, digest ∈ recipesAdded cb'.writes
  | _, _ => False

/-- A sink in order. -/
def SinkOK (E : Env D) (compound : Option D) (k : Observed D) : Sink D → Prop
  | .sync => True
  | .batch cb => BatchOK E compound k cb

theorem SinkOK.step (h : SinkOK E compound k sink) : SinkStep E compound k k sink sink := by
  cases sink with
  | sync => exact Grows.refl k
  | batch cb => exact ⟨.refl k, h, fun _ h => h⟩

theorem SinkStep.ok (h : SinkStep E compound k k' sink sink') : SinkOK E compound k' sink' := by
  cases sink <;> cases sink' <;> first | trivial | exact h.2.1

theorem SinkStep.grows (h : SinkStep E compound k k' sink sink') : Grows k k' := by
  cases sink <;> cases sink' <;> first | exact h | exact h.1.toGrows | exact h.elim

theorem SinkStep.trans {sink₃ : Sink D} (h : SinkStep E compound k₁ k₂ sink₁ sink₂)
    (h' : SinkStep E compound k₂ k₃ sink₂ sink₃) : SinkStep E compound k₁ k₃ sink₁ sink₃ := by
  match sink₁, sink₂, sink₃, h, h' with
  | .sync, .sync, .sync, h, h' => exact Grows.trans h h'
  | .batch _, .batch _, .batch _, ⟨hext, _, hkeep⟩, ⟨hext', hok, hkeep'⟩ =>
    exact ⟨hext.trans hext', hok, fun digest hd => hkeep' digest (hkeep digest hd)⟩

/-- What was asked before writing to a sink is known to it. -/
theorem SinkOK.ask (h : SinkOK E compound k sink) (p : Prim D) (r : Resp p)
    (hp : p.isCommit = false) : SinkStep E compound k (learn k p r) sink sink := by
  have hext := extends_learn k p r hp
  cases sink with
  | sync => exact hext.toGrows
  | batch cb => exact ⟨hext, BatchOK.extends h hext, fun _ h => h⟩

/-- What a sink program ends in. -/
def SinkPost (E : Env D) (compound : Option D) (k : Observed D) (sink : Sink D)
    (r : Except String (Sink D)) (k' : Observed D) : Prop :=
  Grows k k' ∧ ∀ sink', r = .ok sink' → SinkStep E compound k k' sink sink'

theorem SinkStep.post (sink sink' : Sink D) (h : SinkStep E compound k k' sink sink') :
    SinkPost E compound k sink (.ok sink') k' := by
  refine ⟨h.grows, fun other heq => ?_⟩
  cases heq
  exact h

theorem SinkStep.post_trans {r : Except String (Sink D)} (h : SinkStep E compound k₁ k₂ sink₁ sink₂)
    (h' : SinkPost E compound k₂ sink₂ r k₃) : SinkPost E compound k₁ sink₁ r k₃ :=
  ⟨h.grows.trans h'.1, fun sink' heq => h.trans (h'.2 sink' heq)⟩

/-- The rule of sequencing for sink programs. -/
theorem SinkPost.bind {p : Proc D (Sink D)} {f : Sink D → Proc D (Sink D)}
    (hp : p.Obeys (objectContract E compound) k (SinkPost E compound k sink))
    (hf : ∀ sink' k', SinkOK E compound k' sink' →
      (f sink').Obeys (objectContract E compound) k' (SinkPost E compound k' sink')) :
    (p.bind f).Obeys (objectContract E compound) k (SinkPost E compound k sink) := by
  refine obeys_bind.mpr (hp.mono ?_)
  rintro (e | sink') k' h
  · exact ⟨h.1, fun _ h => nomatch h⟩
  · have hstep := h.2 _ rfl
    exact (hf sink' k' hstep.ok).mono fun _ _ => hstep.post_trans

/-- Asking before a sink program. -/
theorem SinkPost.ask {f : Resp p → Proc D (Sink D)} (hs : SinkOK E compound k sink)
    (hp : p.isCommit = false) (hpre : (objectContract E compound).pre k p)
    (hf : ∀ r, SinkOK E compound (learn k p r) sink → (f r).Obeys (objectContract E compound)
      (learn k p r) (SinkPost E compound (learn k p r) sink)) :
    ((ask p : Proc D (Resp p)).bind f).Obeys (objectContract E compound) k
      (SinkPost E compound k sink) := by
  refine ⟨hpre, fun r _ => ?_⟩
  have hstep := hs.ask p r hp
  exact (hf r hstep.ok).mono fun _ _ => hstep.post_trans

/-- Writing a record that refers to nothing. -/
theorem Sink.write_obeys (hs : SinkOK E compound k sink) (hw : write.plain = true) :
    (sink.write write).Obeys (objectContract E compound) k (SinkPost E compound k sink) := by
  cases sink with
  | sync =>
    exact ⟨Backed.plain_single hw, fun _ _ =>
      SinkStep.post .sync .sync (grows_learn k (.commit _) ())⟩
  | batch cb =>
    exact SinkStep.post (.batch cb) (.batch (cb.add write))
      ⟨.refl k, BatchOK.add_plain hs hw, fun _ h => recipesAdded_add h⟩

/-- Whether a manifest of `digest` may be written to a sink. -/
def ManifestOK (k : Observed D) (digest : D) : Sink D → Prop
  | .sync => digest ∈ k.recipes ∨ digest ∈ k.manifests
  | .batch cb => digest ∈ recipesAdded cb.writes ∨ digest ∈ k.recipes ∨ digest ∈ k.manifests

/-- Writing a manifest. -/
theorem Sink.write_manifest_obeys (hs : SinkOK E compound k sink) (hd : ManifestOK k digest sink)
    (manifest : Manifest D) :
    (sink.write (.manifest digest (some manifest))).Obeys (objectContract E compound) k
      (SinkPost E compound k sink) := by
  cases sink with
  | sync =>
    exact ⟨Backed.manifest_single hd, fun _ _ =>
      SinkStep.post .sync .sync (grows_learn k (.commit _) ())⟩
  | batch cb =>
    refine SinkStep.post (.batch cb) (.batch (cb.add _))
      ⟨.refl k, BatchOK.add hs _ ?_ ?_ ?_, fun _ h => recipesAdded_add h⟩
    · rintro hash value heq; cases heq
    · rintro other value heq; cases heq
    · rintro other value heq
      cases heq
      exact ⟨manifest, rfl, hd⟩

/-- The change that was recorded last is read first, to be deleted with the write of the new one. -/
theorem recordProjectionChangeTo_obeys (sink : Sink D) (hs : SinkOK E compound k sink)
    (digest : D) (changedAt : Time) :
    (recordProjectionChangeTo sink digest changedAt).Obeys (objectContract E compound) k
      (SinkPost E compound k sink) := by
  rw [recordProjectionChangeTo]
  split
  · exact hs.step.post _ _
  · refine SinkPost.ask hs rfl trivial fun found hs₁ => ?_
    -- the two records of the new stamp, whatever happened to the old one
    have hrest : ∀ sink₂ k₂, SinkOK E compound k₂ sink₂ →
        (do let sink ← sink₂.write (.change (projectionChangeKey digest changedAt)
              (some ⟨projectionChangeKey digest changedAt, digest, changedAt⟩))
            sink.write (.latest digest
              (some ⟨projectionChangeKey digest changedAt, digest, changedAt⟩)) :
          Proc D (Sink D)).Obeys (objectContract E compound) k₂ (SinkPost E compound k₂ sink₂) :=
      fun sink₂ k₂ hs₂ =>
        SinkPost.bind (Sink.write_obeys hs₂ rfl) fun _ _ hs₃ => Sink.write_obeys hs₃ rfl
    cases found with
    | none => exact hrest sink _ hs₁
    | some previous => exact SinkPost.bind (Sink.write_obeys hs₁ rfl) hrest

theorem writeManifestTo_obeys (sink : Sink D) (hs : SinkOK E compound k sink)
    (hd : ManifestOK k digest sink) (manifest : Manifest D) :
    (writeManifestTo sink digest manifest).Obeys (objectContract E compound) k
      (SinkPost E compound k sink) :=
  SinkPost.bind (Sink.write_manifest_obeys hs hd manifest) fun sink₁ _ hs₁ =>
    recordProjectionChangeTo_obeys sink₁ hs₁ digest manifest.updatedAt

theorem writeManifest_obeys (hd : digest ∈ k.manifests) (manifest : Manifest D) :
    (writeManifest digest manifest).Obeys (objectContract E compound) k fun _ k' => Grows k k' :=
  Obeys.bind_rel Grows
    ((writeManifestTo_obeys .sync trivial (Or.inr hd) manifest).mono fun _ _ h => h.1)
    fun _ k' => Grows.refl k'

theorem recordSourceRefs_obeys (digest : D) (updatedAt : Time) :
    ∀ (provenance : List Provenance) (sink : Sink D) (k : Observed D),
      SinkOK E compound k sink →
      (recordSourceRefs E digest updatedAt sink provenance).Obeys (objectContract E compound) k
        (SinkPost E compound k sink) := by
  intro provenance
  induction provenance with
  | nil => intro sink k hs; exact hs.step.post _ _
  | cons item rest ih =>
    intro sink k hs
    rw [recordSourceRefs]
    split
    · exact ih sink k hs
    · cases validateSourceObjectRef (sourceObjectRefFromProvenance item) with
      | error e => exact ⟨.refl k, fun _ h => nomatch h⟩
      | ok u =>
        refine SinkPost.bind (Sink.write_obeys hs rfl) fun sink₁ k₁ hs₁ => ?_
        refine SinkPost.ask hs₁ rfl trivial fun now hs₂ => ?_
        exact SinkPost.bind (Sink.write_obeys hs₂ rfl) ih

theorem recordSourceObjectIndexesTo_obeys (sink : Sink D) (hs : SinkOK E compound k sink)
    (digest : D) (provenance : List Provenance) :
    (recordSourceObjectIndexesTo E sink digest provenance).Obeys (objectContract E compound) k
      (SinkPost E compound k sink) := by
  rw [recordSourceObjectIndexesTo]
  split
  · exact hs.step.post _ _
  · exact SinkPost.ask hs rfl trivial fun now hs₁ =>
      recordSourceRefs_obeys digest now provenance sink _ hs₁

/-! ## Put -/

theorem mergedManifest_obeys (digest : D) (incoming : Manifest D) (k : Observed D) :
    (mergedManifest digest incoming).Obeys (objectContract E compound) k
      fun _ k' => Extends k k' := by
  refine ⟨trivial, fun found _ => ?_⟩
  have hext := extends_learn k (.getManifest digest) found rfl
  cases found with
  | none => exact hext
  | some existing => exact ⟨trivial, fun now _ => hext⟩

/-- Committing what a batch sink has buffered; it holds the recipes the batch began
with. -/
theorem commit_obeys (h : SinkStep E compound k k₁ (.batch cb) sink) (f : String → String) :
    (sink.commit.wrapping f).Obeys (objectContract E compound) k₁ fun r k' =>
      Grows k k' ∧ (r = .ok () → ∀ digest ∈ recipesAdded cb.writes, digest ∈ k'.stored) := by
  cases sink with
  | sync => exact h.elim
  | batch cb₁ =>
    refine obeys_wrapping.mpr ((CommitBatch.commit_obeys h.2.1).mono ?_)
    rintro (e | ⟨⟩) k' ⟨hg, hstored⟩
    · exact ⟨h.grows.trans hg, fun h => nomatch h⟩
    · exact ⟨h.grows.trans hg, fun _ digest hd => hstored rfl digest (h.2.2 digest hd)⟩

/-- The batch holds the recipe already, so the manifest that is committed with it never names an
object that cannot be read. -/
theorem putManifest_obeys (request : PutRequest D) (sha256 : String) (size : Nat)
    (hcb : BatchOK E compound k cb) (hd : digest ∈ recipesAdded cb.writes) :
    (putManifest E request digest sha256 size cb).Obeys (objectContract E compound) k
      fun r k' => Grows k k' ∧ ∀ d, r = .ok d → d = digest ∧ d ∈ k'.stored := by
  refine ⟨trivial, fun now _ => ?_⟩
  show (Prog.bind (mergedManifest digest _) _).Obeys _ _ _
  refine obeys_bind.mpr ((mergedManifest_obeys digest _ k).mono ?_)
  rintro (e | manifest) k₁ hext
  · exact ⟨hext.toGrows, fun _ h => nomatch h⟩
  · have h₁ : SinkStep E compound k k₁ (.batch cb) (.batch cb) :=
      ⟨hext, hcb.extends hext, fun _ h => h⟩
    show (Prog.bind (writeManifestTo (.batch cb) digest manifest) _).Obeys _ _ _
    refine obeys_bind.mpr ((writeManifestTo_obeys _ h₁.ok (Or.inl hd) manifest).mono ?_)
    rintro (e | sink₂) k₂ h₂
    · exact ⟨h₁.grows.trans h₂.1, fun _ h => nomatch h⟩
    · have h₂' := h₁.trans (h₂.2 _ rfl)
      show (Prog.bind (sink₂.write _) _).Obeys _ _ _
      refine obeys_bind.mpr ((Sink.write_obeys h₂'.ok rfl).mono ?_)
      rintro (e | sink₃) k₃ h₃
      · exact ⟨h₂'.grows.trans h₃.1, fun _ h => nomatch h⟩
      · have h₃' := h₂'.trans (h₃.2 _ rfl)
        show (Prog.bind (recordSourceObjectIndexesTo E sink₃ digest _) _).Obeys _ _ _
        refine obeys_bind.mpr ((recordSourceObjectIndexesTo_obeys _ h₃'.ok digest _).mono ?_)
        rintro (e | sink₄) k₄ h₄
        · exact ⟨h₃'.grows.trans h₄.1, fun _ h => nomatch h⟩
        · show (Prog.bind (sink₄.commit.wrapping _) _).Obeys _ _ _
          refine obeys_bind.mpr ((commit_obeys (h₃'.trans (h₄.2 _ rfl)) _).mono ?_)
          rintro (e | ⟨⟩) k₅ ⟨hg, hstored⟩
          · exact ⟨hg, fun _ h => nomatch h⟩
          · refine ⟨hg, fun d heq => ?_⟩
            cases heq
            exact ⟨rfl, hstored rfl _ hd⟩

/-- **Put.** It commits only what it has observed, and when it returns a digest that is
the hash of the content it read, and the recipe is stored. -/
theorem put_obeys (request : PutRequest D) (k : Observed D) :
    (put E request).Obeys (objectContract E compound) k fun r k' =>
      Grows k k' ∧ ∀ d, r = .ok d →
        d = E.blake3Hex request.reader.content ∧ request.reader.content ∈ k'.hashed ∧
          d ∈ k'.stored := by
  rw [put]
  cases validateFacets request.facets with
  | error e => exact ⟨.refl k, fun _ h => nomatch h⟩
  | ok u =>
    show (Prog.bind (storeBlobReaderBatched E {} request.reader _ _) _).Obeys _ _ _
    refine obeys_bind.mpr ((storeBlobReaderBatched_obeys BatchOK.empty request.reader _ _).mono ?_)
    rintro (e | ⟨⟨digest, sha256, size⟩, cb⟩) k₁ ⟨hext, h⟩
    · exact ⟨hext.toGrows, fun _ h => nomatch h⟩
    · obtain ⟨hcb, hmem, hdigest, hhashed⟩ := h _ _ _ _ rfl
      refine withLock_obeys ((putManifest_obeys request sha256 size hcb hmem).mono ?_)
      rintro r k₂ ⟨hg, hput⟩
      refine ⟨hext.toGrows.trans hg, fun d heq => ?_⟩
      obtain ⟨rfl, hstored⟩ := hput d heq
      exact ⟨hdigest, hg.hashed _ hhashed, hstored⟩

/-! ## PutCompound -/

/-- The recipe goes into the batch in front of the manifest, so that the object can be read once it
is committed. -/
theorem commitNewObject_obeys (hcb : BatchOK E compound k cb) (sourceHint : String)
    (manifest : Manifest D) (howner : RecipeOwner E compound k digest (chunkContent content)) :
    (commitNewObject E cb digest content sourceHint manifest).Obeys (objectContract E compound) k
      fun r k' => Grows k k' ∧ ∀ sink, r = .ok sink →
        ∃ cb', sink = .batch cb' ∧ BatchOK E compound k' cb' := by
  show (Prog.bind ((storeBlobContentBatched E cb digest content _ _).wrapping _) _).Obeys _ _ _
  refine obeys_bind.mpr (obeys_wrapping.mpr
    ((storeBlobContentBatched_obeys hcb _ _ howner).mono ?_))
  rintro (e | cb₁) k₁ ⟨hext, h⟩
  · exact ⟨hext.toGrows, fun _ h => nomatch h⟩
  · obtain ⟨hcb₁, hmem⟩ := h _ rfl
    show (Prog.bind (writeManifestTo (.batch cb₁) digest manifest) _).Obeys _ _ _
    refine obeys_bind.mpr
      ((writeManifestTo_obeys (.batch cb₁) hcb₁ (Or.inl hmem) manifest).mono ?_)
    rintro (e | sink₂) k₂ h₂
    · exact ⟨hext.toGrows.trans h₂.1, fun _ h => nomatch h⟩
    · refine ⟨trivial, fun blake3 _ => ?_⟩
      have h₃ := (h₂.2 _ rfl).trans ((h₂.2 _ rfl).ok.ask (.blake3 content) blake3 rfl)
      refine (Sink.write_obeys h₃.ok rfl).mono ?_
      rintro (e | sink₄) k₄ h₄
      · exact ⟨(hext.toGrows.trans h₃.grows).trans h₄.1, fun _ h => nomatch h⟩
      · have h₄' := h₃.trans (h₄.2 _ rfl)
        refine ⟨hext.toGrows.trans h₄'.grows, fun sink heq => ?_⟩
        cases heq
        cases sink₄ with
        | sync => exact h₄'.elim
        | batch cb₄ => exact ⟨cb₄, rfl, h₄'.2.1⟩

/-- `writeObject` writes the recipe of a compound only where it has just found none. -/
theorem writeObject_obeys (objectID : String) (hcb : BatchOK E (some digest) k cb)
    (hid : compoundIdentity objectID ∈ k.hashed)
    (hdigest : E.blake3Hex (compoundIdentity objectID) = digest) (content : Bytes)
    (sourceHint : String) (incoming : Manifest D) :
    (writeObject E cb digest content sourceHint incoming).Obeys
      (objectContract E (some digest)) k fun r k' => Grows k k' ∧ ∀ sink, r = .ok sink →
        ∃ cb', sink = .batch cb' ∧ BatchOK E (some digest) k' cb' := by
  refine obeys_bind.mpr ((mergedManifest_obeys digest incoming k).mono ?_)
  rintro (e | manifest) k₁ hext₁
  · exact ⟨hext₁.toGrows, fun _ h => nomatch h⟩
  · refine ⟨trivial, fun found _ => ?_⟩
    have hext₂ := hext₁.trans (extends_learn k₁ (.getRecipe digest) found rfl)
    cases found with
    | some recipe =>
      have hcb₂ := hcb.extends hext₂
      refine (writeManifestTo_obeys (.batch cb) hcb₂
        (Or.inr (Or.inl (List.mem_cons_self ..))) manifest).mono ?_
      rintro r k₃ ⟨hg, h⟩
      refine ⟨hext₂.toGrows.trans hg, fun sink heq => ?_⟩
      have hstep := h sink heq
      cases sink with
      | sync => exact hstep.elim
      | batch cb₃ => exact ⟨cb₃, rfl, hstep.2.1⟩
    | none =>
      have hown : ∀ chunks, RecipeOwner E (some digest) (learn k₁ (.getRecipe digest) none)
          digest chunks := fun _ =>
        Or.inr ⟨rfl, List.mem_cons_self .., objectID, hext₂.hashed _ hid, hdigest⟩
      have hnew : ∀ content manifest,
          (commitNewObject E cb digest content sourceHint manifest).Obeys
            (objectContract E (some digest)) (learn k₁ (.getRecipe digest) none) fun r k' =>
              Grows k k' ∧ ∀ sink, r = .ok sink →
                ∃ cb', sink = .batch cb' ∧ BatchOK E (some digest) k' cb' := by
        intro content manifest
        refine (commitNewObject_obeys (hcb.extends hext₂) sourceHint manifest (hown _)).mono ?_
        rintro r k₃ ⟨hg, h⟩
        exact ⟨hext₂.toGrows.trans hg, h⟩
      show ((if manifest.identityStrategy = .compoundStableID then _ else _ : Proc D _)).Obeys _ _ _
      split
      · exact hnew _ _
      · exact hnew _ _

theorem mergeCompoundParentIndex_obeys (childDigest : D) (edges : List (CompoundParentEdge D))
    (k : Observed D) :
    (mergeCompoundParentIndex childDigest edges).Obeys (objectContract E compound) k
      fun _ k' => Grows k k' := by
  refine withLock_obeys ⟨trivial, fun index _ => ?_⟩
  show ((if _ then _ else _ : Proc D _)).Obeys _ _ _
  split
  · exact Grows.refl k
  · exact ⟨trivial, fun now _ => ⟨Backed.plain_single rfl, fun _ _ =>
      grows_learn k (.commit _) ()⟩⟩

theorem mergeParentEdges_obeys :
    ∀ (children : List (D × List (CompoundParentEdge D))) (k : Observed D),
      (mergeParentEdges children).Obeys (objectContract E compound) k fun _ k' => Grows k k' := by
  intro children
  induction children with
  | nil => intro k; exact Grows.refl k
  | cons item rest ih =>
    intro k
    exact Obeys.bind_rel Grows (mergeCompoundParentIndex_obeys item.1 item.2 k) fun _ => ih

theorem recordCompoundParentIndexes_obeys (parentDigest : D) (parts : List (CompoundPart D))
    (k : Observed D) :
    (recordCompoundParentIndexes E parentDigest parts).Obeys (objectContract E compound) k
      fun _ k' => Grows k k' := by
  rw [recordCompoundParentIndexes]
  split
  · exact Grows.refl k
  · refine ⟨trivial, fun now _ => ?_⟩
    cases validateCompoundParts E.text parts with
    | error e => exact Grows.refl k
    | ok u => exact mergeParentEdges_obeys _ k

/-- **PutCompound** commits only what it has observed, under the digest of its
identity. -/
theorem putCompound_obeys (request : CompoundPutRequest D) (k : Observed D) :
    (putCompound E request).Obeys
      (objectContract E (some (E.blake3Hex (compoundIdentity (trimSpace request.objectID))))) k
      fun r k' => Grows k k' ∧ ∀ d, r = .ok d →
        d = E.blake3Hex (compoundIdentity (trimSpace request.objectID)) ∧
          compoundIdentity (trimSpace request.objectID) ∈ k'.hashed := by
  rw [putCompound]
  split
  · exact ⟨.refl k, fun _ h => nomatch h⟩
  · cases validateFacets request.facets with
    | error e => exact ⟨.refl k, fun _ h => nomatch h⟩
    | ok u =>
      show (Prog.bind (ofExcept (validateCompoundParts E.text _)) _).Obeys _ _ _
      cases validateCompoundParts E.text (normalizedParts request.parts) with
      | error e => exact ⟨.refl k, fun _ h => nomatch h⟩
      | ok u =>
        refine ⟨trivial, fun digest (hdigest : digest = E.blake3Hex _) => ⟨trivial, fun now _ => ?_⟩⟩
        rw [← hdigest]
        have hext := extends_learn k (.blake3 (compoundIdentity (trimSpace request.objectID)))
          digest rfl
        show (Prog.bind (writeObject E {} digest _ _ _) _).Obeys _ _ _
        refine obeys_bind.mpr ((writeObject_obeys
          (trimSpace request.objectID) BatchOK.empty (List.mem_cons_self ..)
          hdigest.symm _ _ _).mono ?_)
        rintro (e | sink₁) k₁ ⟨hg₁, h₁⟩
        · exact ⟨hext.toGrows.trans hg₁, fun _ h => nomatch h⟩
        · obtain ⟨cb₁, rfl, hcb₁⟩ := h₁ _ rfl
          show (Prog.bind (recordSourceObjectIndexesTo E (.batch cb₁) digest _) _).Obeys _ _ _
          refine obeys_bind.mpr
            ((recordSourceObjectIndexesTo_obeys (.batch cb₁) hcb₁ digest _).mono ?_)
          rintro (e | sink₂) k₂ h₂
          · exact ⟨(hext.toGrows.trans hg₁).trans h₂.1, fun _ h => nomatch h⟩
          · show (Prog.bind (sink₂.commit.wrapping _) _).Obeys _ _ _
            refine obeys_bind.mpr ((commit_obeys (h₂.2 _ rfl) _).mono ?_)
            rintro (e | ⟨⟩) k₃ ⟨hg₃, -⟩
            · exact ⟨(hext.toGrows.trans hg₁).trans hg₃, fun _ h => nomatch h⟩
            · show (Prog.bind (recordCompoundParentIndexes E digest _) _).Obeys _ _ _
              refine obeys_bind.mpr ((recordCompoundParentIndexes_obeys digest _ k₃).mono ?_)
              rintro (e | ⟨⟩) k₄ hg₄
              · exact ⟨((hext.toGrows.trans hg₁).trans hg₃).trans hg₄, fun _ h => nomatch h⟩
              · refine ⟨((hext.toGrows.trans hg₁).trans hg₃).trans hg₄, fun d heq => ?_⟩
                cases heq
                exact ⟨rfl, ((hg₁.trans hg₃).trans hg₄).hashed _ (List.mem_cons_self ..)⟩

/-! ## AttachProvenance -/

theorem attachProvenance_obeys (digest : D) (provenance : List Provenance) (k : Observed D) :
    (attachProvenance E digest provenance).Obeys (objectContract E compound) k
      fun _ k' => Grows k k' := by
  rw [attachProvenance]
  split
  · exact Grows.refl k
  · cases validateProvenance provenance with
    | error e => exact Grows.refl k
    | ok u =>
      refine withLock_obeys (ask_grows trivial fun found _ => ?_)
      cases found with
      | none => exact Grows.refl _
      | some manifest =>
        show ((if _ then _ else _ : Proc D _)).Obeys _ _ _
        split
        · refine Obeys.ask_bind trivial fun now _ => ?_
          refine Obeys.bind_rel Grows (writeManifest_obeys (List.mem_cons_self ..) _) ?_
          intro _ k₁
          exact Obeys.bind_rel Grows ((recordSourceObjectIndexesTo_obeys .sync trivial digest
            provenance).mono fun _ _ h => h.1) fun _ k₂ => Grows.refl k₂
        · exact Grows.refl _

/-! ## Annotations and overlays -/

theorem placePayload_obeys (note : AnnotationRecord D) (k : Observed D) :
    (placePayload E note).Obeys (objectContract E compound) k fun _ k' => Grows k k' := by
  rw [placePayload]
  split
  · exact Grows.refl k
  · refine ask_grows trivial fun digest (hdigest : digest = E.blake3Hex _) => ?_
    exact Obeys.bind_rel Grows
      (storeBlobContent_obeys _ _ (List.mem_cons_self ..) hdigest.symm) fun _ k₁ => Grows.refl k₁

theorem writePackedAnnotationRecord_obeys (note : AnnotationRecord D) (k : Observed D) :
    (writePackedAnnotationRecord E note).Obeys (objectContract E compound) k
      fun _ k' => Grows k k' := by
  refine Obeys.ask_bind trivial fun now _ => ?_
  refine Obeys.bind_rel Grows (placePayload_obeys note k) fun _ k₁ => ?_
  refine ask_grows (Backed.plain_single rfl) fun _ _ => ?_
  exact Obeys.bind_rel Grows
    ((recordProjectionChangeTo_obeys .sync trivial _ _).mono fun _ _ h => h.1)
    fun _ k₂ => Grows.refl k₂

theorem resolvePackedAnnotationEntry_obeys (entry : PackedAnnotationEntry D) (k : Observed D) :
    (resolvePackedAnnotationEntry E entry).Obeys (objectContract E compound) k
      fun _ k' => Grows k k' := by
  rw [resolvePackedAnnotationEntry]
  split
  · exact Grows.refl k
  · exact Grows.refl k
  · refine obeys_bind.mpr ((readBlobContent_obeys _ k).mono ?_)
    rintro (e | (_ | content)) k₁ hext
    · exact hext.toGrows
    · exact hext.toGrows
    · rw [after]
      dsimp only
      cases E.unmarshalAnnotated content <;> exact hext.toGrows

theorem readPackedAnnotationRecord_obeys (digest : D) (kind analyzerName : String)
    (k : Observed D) :
    (readPackedAnnotationRecord E digest kind analyzerName).Obeys (objectContract E compound) k
      fun _ k' => Grows k k' := by
  refine Obeys.ask_bind trivial fun found _ => ?_
  cases found with
  | none => exact Grows.refl k
  | some entry =>
    exact Obeys.bind_rel Grows (resolvePackedAnnotationEntry_obeys entry k)
      fun _ k₁ => Grows.refl k₁

theorem resolveEntries_obeys :
    ∀ (entries : List (AnnotatedKey D × PackedAnnotationEntry D)) (k : Observed D),
      (resolveEntries E entries).Obeys (objectContract E compound) k fun _ k' => Grows k k' := by
  intro entries
  induction entries with
  | nil => intro k; exact Grows.refl k
  | cons item rest ih =>
    intro k
    refine Obeys.bind_rel Grows (resolvePackedAnnotationEntry_obeys item.2 k) fun _ k₁ => ?_
    exact Obeys.bind_rel Grows (ih k₁) fun _ k₂ => Grows.refl k₂

theorem readPackedAnnotations_obeys (digest : D) (k : Observed D) :
    (readPackedAnnotations E digest).Obeys (objectContract E compound) k
      fun _ k' => Grows k k' := by
  refine Obeys.ask_bind trivial fun entries _ => ?_
  exact Obeys.bind_rel Grows (resolveEntries_obeys entries k) fun _ k₁ => Grows.refl k₁

theorem refreshIndexedParentForSubobject_obeys (parentDigest childDigest : D)
    (summaries : List AnalysisSummary) (k : Observed D) :
    (refreshIndexedParentForSubobject parentDigest childDigest summaries).Obeys
      (objectContract E compound) k fun _ k' => Grows k k' := by
  refine withLock_obeys (ask_grows trivial fun found _ => ?_)
  cases found with
  | none => exact Grows.refl _
  | some manifest =>
    show ((if _ then _ else _ : Proc D _)).Obeys _ _ _
    split
    · exact ⟨trivial, fun refreshedAt _ => ⟨trivial, fun now _ =>
        writeManifest_obeys (List.mem_cons_self ..) _⟩⟩
    · exact Grows.refl _

theorem refreshParents_obeys (childDigest : D) (summaries : List AnalysisSummary) :
    ∀ (parents : List (CompoundParentEdge D)) (seen : List D) (k : Observed D),
      (refreshParents childDigest summaries seen parents).Obeys (objectContract E compound) k
        fun _ k' => Grows k k' := by
  intro parents
  induction parents with
  | nil => intro seen k; exact Grows.refl k
  | cons parent rest ih =>
    intro seen k
    rw [refreshParents]
    split
    · exact ih seen k
    · exact Obeys.bind_rel Grows (refreshIndexedParentForSubobject_obeys _ _ _ k)
        fun _ => ih _

/-- Parents are written again only where they are found in the tables. -/
theorem refreshIndexedParentsForSubobject_obeys (childDigest : D) (k : Observed D) :
    (refreshIndexedParentsForSubobject E childDigest).Obeys (objectContract E compound) k
      fun _ k' => Grows k k' := by
  have hparents : (compoundParentsForChild childDigest).Obeys (objectContract E compound) k
      fun _ k' => Grows k k' := by
    refine ⟨trivial, fun found _ => ?_⟩
    cases found with
    | none => exact Grows.refl k
    | some record =>
      show ((if _ then _ else _ : Proc D _)).Obeys _ _ _
      split <;> exact Grows.refl k
  refine Obeys.bind_rel Grows hparents fun parents k₁ => ?_
  show ((if parents = [] then _ else _ : Proc D _)).Obeys _ _ _
  split
  · exact Grows.refl k₁
  · refine Obeys.bind_rel Grows
      (obeys_wrapping.mpr (readPackedAnnotations_obeys childDigest k₁)) fun notes k₂ => ?_
    show ((if analysisSummaries notes = [] then _ else _ : Proc D _)).Obeys _ _ _
    split
    · exact Grows.refl k₂
    · exact refreshParents_obeys _ _ _ _ k₂

/-- The payload is stored before the row that points to it is committed; behind an analysis the
parents of the object are written again. -/
theorem writeAnnotationRecord_obeys (note : AnnotationRecord D) (k : Observed D) :
    (writeAnnotationRecord E note).Obeys (objectContract E compound) k
      fun _ k' => Grows k k' := by
  refine ask_grows trivial fun found _ => ?_
  cases found with
  | none => exact Grows.refl _
  | some manifest =>
    show (Prog.bind (ofExcept ( annotationFilename note.kind)) _).Obeys _ _ _
    cases annotationFilename note.kind with
    | error e => exact Grows.refl _
    | ok u =>
      -- what follows is the same whether the stamp was given or read from the clock
      have hrest : ∀ (stamped : AnnotationRecord D) (k : Observed D),
          (do let existing ← (readPackedAnnotationRecord E stamped.objectDigest stamped.kind
                stamped.analyzerName).wrapping fun e => "read existing annotation: " ++ e
              let note := (existing.map fun stored =>
                mergeAnnotationRecords stored stamped).getD stamped
              writePackedAnnotationRecord E note
              if note.kind = "analysis" then
                refreshIndexedParentsForSubobject E note.objectDigest
              else return () : Proc D Unit).Obeys (objectContract E compound) k
            fun _ k' => Grows k k' := by
        intro stamped k
        refine Obeys.bind_rel Grows
          (obeys_wrapping.mpr (readPackedAnnotationRecord_obeys _ _ _ k)) fun existing k₁ => ?_
        refine Obeys.bind_rel Grows (writePackedAnnotationRecord_obeys _ k₁) fun _ k₂ => ?_
        split
        · exact refreshIndexedParentsForSubobject_obeys _ k₂
        · exact Grows.refl k₂
      show ((if note.generatedAt = zeroTime then _ else _ : Proc D _)).Obeys _ _ _
      split
      · exact ⟨trivial, fun now _ => hrest { note with generatedAt := now } _⟩
      · exact hrest note _

theorem writeOverlays_obeys (digest : D) (overlays : Attrs) (k : Observed D) :
    (writeOverlays E digest overlays).Obeys (objectContract E compound) k
      fun _ k' => Grows k k' := by
  refine withLock_obeys (ask_grows trivial fun found _ => ?_)
  cases found with
  | none => exact Grows.refl _
  | some manifest =>
    refine Obeys.ask_bind trivial fun now _ => ?_
    exact Obeys.bind_rel Grows (writeManifest_obeys (List.mem_cons_self ..) _)
      fun _ k₁ => writePackedAnnotationRecord_obeys _ k₁

/-! ## DeleteObject and DeleteImport -/

theorem ownedSourceRows_obeys (digest : D) (ref : SourceObjectRef) (k : Observed D) :
    (ownedSourceRows E digest ref).Obeys (objectContract E compound) k fun r k' =>
      Extends k k' ∧ ∀ rows, r = .ok rows → ∀ write ∈ rows, write.plain = true := by
  rw [ownedSourceRows]
  cases validateSourceObjectRef ref with
  | error e =>
    refine ⟨.refl k, fun rows heq => ?_⟩
    cases heq
    simp
  | ok u =>
    refine ⟨trivial, fun index _ => ⟨trivial, fun aliased _ => ⟨.refl k, fun rows heq => ?_⟩⟩⟩
    cases heq
    intro write hmem
    rcases List.mem_append.mp hmem with hmem | hmem
    · split at hmem
      · rw [List.mem_singleton.mp hmem]; rfl
      · simp at hmem
    · split at hmem
      · rw [List.mem_singleton.mp hmem]; rfl
      · simp at hmem

theorem ownedRows_obeys (digest : D) :
    ∀ (refs : List SourceObjectRef) (k : Observed D),
      (ownedRows E digest refs).Obeys (objectContract E compound) k fun r k' =>
        Extends k k' ∧ ∀ rows, r = .ok rows → ∀ write ∈ rows, write.plain = true := by
  intro refs
  induction refs with
  | nil =>
    intro k
    refine ⟨.refl k, fun rows heq => ?_⟩
    cases heq
    simp
  | cons ref rest ih =>
    intro k
    refine Obeys.bind_ok Extends (ownedSourceRows_obeys digest ref k) ?_
    intro rows₁ k₁ _ h₁
    refine Obeys.bind_ok Extends (ih k₁) ?_
    intro rows₂ k₂ _ h₂
    refine ⟨.refl k₂, fun rows heq => ?_⟩
    cases heq
    intro write hmem
    rcases List.mem_append.mp hmem with hmem | hmem
    · exact h₁ write hmem
    · exact h₂ write hmem

/-- The batch of `deleteObject`: manifest and recipe of one digest go together. -/
theorem Backed.deletion {rows : List (Write D)} (h : ∀ write ∈ rows, write.plain = true) :
    Backed E none k ([.manifest digest none, .recipe digest none, .recovery digest none,
      .compoundParents digest none] ++ rows) := by
  have hcases : ∀ write, write ∈ [Write.manifest digest none, .recipe digest none,
      .recovery digest none, .compoundParents digest none] ++ rows →
      write = .manifest digest none ∨ write = .recipe digest none ∨ write.plain = true := by
    intro write hmem
    rcases List.mem_append.mp hmem with hmem | hmem
    · simp only [List.mem_cons, List.not_mem_nil, or_false] at hmem
      rcases hmem with rfl | rfl | rfl | rfl
      · exact Or.inl rfl
      · exact Or.inr (Or.inl rfl)
      · exact Or.inr (Or.inr rfl)
      · exact Or.inr (Or.inr rfl)
    · exact Or.inr (Or.inr (h write hmem))
  refine ⟨?_, ?_, ?_, ?_, ?_⟩
  · intro hash value hmem
    rcases hcases _ hmem with heq | heq | heq <;> cases heq
  · intro other recipe hmem
    rcases hcases _ hmem with heq | heq | heq <;> cases heq
  · intro other hmem
    rcases hcases _ hmem with heq | heq | heq <;> cases heq
    exact ⟨rfl, by simp⟩
  · intro other manifest hmem
    rcases hcases _ hmem with heq | heq | heq <;> cases heq
  · intro other manifest hmem
    rcases hcases _ hmem with heq | heq | heq <;> cases heq

/-- The manifest and the recipe go in one commit, so that no manifest is left without its content.
-/
theorem deleteObject_obeys (digest : D) (k : Observed D) :
    (deleteObject E digest).Obeys (objectContract E none) k fun _ k' => Grows k k' := by
  refine ⟨trivial, fun manifest _ => ?_⟩
  have hext := extends_learn k (.getManifest digest) manifest rfl
  show (Prog.bind (ownedRows E digest _) _).Obeys _ _ _
  refine obeys_bind.mpr ((ownedRows_obeys digest _ _).mono ?_)
  rintro (e | rows) k₁ ⟨hext₁, hrows⟩
  · exact (hext.trans hext₁).toGrows
  · refine ⟨trivial, fun notes _ => ⟨?_, fun _ _ => ?_⟩⟩
    · show Backed E none k₁ (([.manifest digest none, .recipe digest none, .recovery digest none,
        .compoundParents digest none] ++ rows) ++ notes.map fun item => .annotated item.1 none)
      rw [List.append_assoc]
      refine Backed.deletion fun write hmem => ?_
      rcases List.mem_append.mp hmem with hmem | hmem
      · exact hrows _ rfl write hmem
      · obtain ⟨item, -, rfl⟩ := List.mem_map.mp hmem
        rfl
    · exact (hext.trans hext₁).toGrows.trans (grows_learn k₁ (.commit _) ())

/-- An object that came from this source alone is deleted; another one is written without its
entries, and then their rows go. -/
theorem detachSourceFromObject_obeys (digest : D) (sourceKind sourceName : String)
    (k : Observed D) :
    (detachSourceFromObject E digest sourceKind sourceName).Obeys (objectContract E none) k
      fun _ k' => Grows k k' := by
  refine withLock_obeys (ask_grows trivial fun found _ => ?_)
  cases found with
  | none => exact Grows.refl _
  | some manifest =>
    show ((if _ then _ else _ : Proc D _)).Obeys _ _ _
    split
    · exact Grows.refl _
    · show ((if _ then _ else _ : Proc D _)).Obeys _ _ _
      split
      · exact Obeys.bind_rel Grows (deleteObject_obeys digest _) fun _ k₁ => Grows.refl k₁
      · refine Obeys.ask_bind trivial fun now _ => ?_
        refine Obeys.bind_rel Grows (writeManifest_obeys (List.mem_cons_self ..) _) ?_
        intro _ k₁
        show (Prog.bind (ownedRows E digest _) _).Obeys _ _ _
        refine obeys_bind.mpr ((ownedRows_obeys digest _ k₁).mono ?_)
        rintro (e | rows) k₂ ⟨hext₂, hrows⟩
        · exact hext₂.toGrows
        · show ((if rows = [] then _ else _ : Proc D _)).Obeys _ _ _
          split
          · exact hext₂.toGrows
          · exact ⟨Backed.of_plain (hrows _ rfl), fun _ _ =>
              hext₂.toGrows.trans (grows_learn k₂ (.commit _) ())⟩

theorem detachAll_obeys (sourceKind sourceName : String) :
    ∀ (digests : List D) (report : DeleteImportReport) (k : Observed D),
      (detachAll E sourceKind sourceName report digests).Obeys (objectContract E none) k
        fun _ k' => Grows k k' := by
  intro digests
  induction digests with
  | nil => intro report k; exact Grows.refl k
  | cons digest rest ih =>
    intro report k
    exact Obeys.bind_rel Grows (detachSourceFromObject_obeys digest _ _ k) fun _ => ih _

theorem deleteImport_obeys (sourceKind sourceName : String) (k : Observed D) :
    (deleteImport E sourceKind sourceName).Obeys (objectContract E none) k
      fun _ k' => Grows k k' := by
  rw [deleteImport]
  split
  · exact Grows.refl k
  · exact ⟨trivial, fun manifests _ => detachAll_obeys _ _ _ _ k⟩

end Gmeow
