import Gmeow.Reading
import Gmeow.Repacking
import Gmeow.Sweep

/-!
# Sequential durability

Calls run one at a time from an empty store. What a `put` stored reads back for as long
as its digest has a manifest, whatever was put, annotated, deleted, collected and
repacked in between — except that `putCompound` keeps its objects under digests of the
same kind: storing the bytes `compound:<id>`, deleting them and then storing the
compound `<id>` leaves the digest of the bytes with the compound's envelope.

* `Call`, `runCalls` — sequences of successful calls, with the contents they hash;
* `Kept.call` — each call keeps the store sound;
* `put_durable` — the result, in every run whose `putCompound` calls meet
  `CompoundGuarded`.
-/

namespace Gmeow

open Prog

variable {D : Type} [LinearOrder D] {E : Env D}

-- the operations are known by their specifications from here on
seal put putCompound attachProvenance writeAnnotationRecord writeOverlays deleteObject
  deleteImport repack

/-! ## Calls -/

/-- A call on the store. -/
inductive Call (D : Type) [LinearOrder D] : Type where
  | put : PutRequest D → Call D
  | putCompound : CompoundPutRequest D → Call D
  | attachProvenance : D → List Provenance → Call D
  | writeAnnotationRecord : AnnotationRecord D → Call D
  | writeOverlays : D → Attrs → Call D
  | deleteObject : D → Call D
  | deleteImport : String → String → Call D
  | gcWithGrace : Int → Call D
  | repack : Call D

/-- The operation called; of the results only the digest `put` returns is kept. -/
def Call.prog (E : Env D) : Call D → Proc D (Option D)
  | .put request => (Gmeow.put E request).bind fun digest => .ret (some digest)
  | .putCompound request => (Gmeow.putCompound E request).bind fun _ => .ret none
  | .attachProvenance digest provenance =>
    (Gmeow.attachProvenance E digest provenance).bind fun _ => .ret none
  | .writeAnnotationRecord note => (Gmeow.writeAnnotationRecord E note).bind fun _ => .ret none
  | .writeOverlays digest overlays => (Gmeow.writeOverlays E digest overlays).bind fun _ => .ret none
  | .deleteObject digest => (Gmeow.deleteObject E digest).bind fun _ => .ret none
  | .deleteImport sourceKind sourceName =>
    (Gmeow.deleteImport E sourceKind sourceName).bind fun _ => .ret none
  | .gcWithGrace grace => (Gmeow.gcWithGrace grace).bind fun _ => .ret none
  | .repack => Gmeow.repack.bind fun _ => .ret none

/-- The content a call stores, when it is a `put`. -/
def Call.contents : Call D → List Bytes
  | .put request => [request.reader.content]
  | _ => []

/-- A successful call: its result, the store after it, and the contents hashed by now. -/
def runCall (E : Env D) (op : Call D) (w : World D) (hashed : List Bytes) :
    Option (Option D × World D × List Bytes) :=
  match (Call.prog E op).run (watched E) (w, { hashed := hashed }) with
  | some (.ok out, w', k) => some (out, w', k.hashed)
  | _ => none

/-- A sequence of successful calls. -/
def runCalls (E : Env D) :
    List (Call D) → World D → List Bytes → Option (List (Option D) × World D × List Bytes)
  | [], w, hashed => some ([], w, hashed)
  | op :: rest, w, hashed =>
    match runCall E op w hashed with
    | none => none
    | some (out, w₁, hashed₁) =>
      match runCalls E rest w₁ hashed₁ with
      | none => none
      | some (outs, w₂, hashed₂) => some (out :: outs, w₂, hashed₂)

/-- A condition on the contents put so far, the store and the call holds before each
call of a sequence. -/
def CallsMeet (E : Env D) (cond : List Bytes → World D → Call D → Prop) :
    List (Call D) → List Bytes → World D → List Bytes → Prop
  | [], _, _, _ => True
  | op :: rest, contents, w, hashed =>
    cond contents w op ∧
      ∀ out w' hashed', runCall E op w hashed = some (out, w', hashed') →
        CallsMeet E cond rest (contents ++ op.contents) w' hashed'

/-- A compound whose identity was put as a content finds that content's recipe. -/
def CompoundGuarded (E : Env D) (contents : List Bytes) (w : World D) : Call D → Prop
  | .putCompound request =>
    compoundIdentity (trimSpace request.objectID) ∈ contents →
      w.db.recipes.has (E.blake3Hex (compoundIdentity (trimSpace request.objectID))) = true
  | _ => True

variable {op : Call D} {w w' : World D} {hashed hashed' contents final : List Bytes}
  {out compound : Option D} {k : Observed D} {H : Bytes → Prop} {request : CompoundPutRequest D}

theorem runCall_eq_some (h : runCall E op w hashed = some (out, w', hashed')) :
    ∃ k, (op.prog E).run (watched E) (w, { hashed := hashed }) =
      some (.ok out, w', k) ∧ k.hashed = hashed' := by
  rw [runCall] at h
  split at h
  · rename_i out₁ w₁ k hrun
    cases h
    exact ⟨k, hrun, rfl⟩
  · cases h

theorem runCall_hashed (h : runCall E op w hashed = some (out, w', hashed')) :
    ∀ content ∈ hashed, content ∈ hashed' := by
  obtain ⟨k, hrun, rfl⟩ := runCall_eq_some h
  exact (run_observing_mono Grows.refl (fun _ _ _ => Grows.trans) grows_learn hrun).hashed

/-- What was hashed once stays hashed along a run. -/
theorem runCalls_hashed :
    ∀ {calls : List (Call D)} {w w' : World D} {hashed hashed' : List Bytes}
      {outs : List (Option D)}, runCalls E calls w hashed = some (outs, w', hashed') →
      ∀ content ∈ hashed, content ∈ hashed' := by
  intro calls
  induction calls with
  | nil => intro w w' hashed hashed' outs h; cases h; exact fun _ h => h
  | cons op rest ih =>
    intro w w' hashed hashed' outs h content hmem
    rw [runCalls] at h
    split at h
    · cases h
    · rename_i out w₁ hashed₁ hcall
      split at h
      · cases h
      · rename_i outs₂ w₂ hashed₂ hcalls
        cases h
        exact ih hcalls content (runCall_hashed hcall content hmem)

/-! ## Each call keeps the store sound -/

/-- The store after a sequence: sound, with the contents put so far still standing for
themselves. -/
structure Kept (E : Env D) (contents : List Bytes) (w : World D) (hashed : List Bytes) : Prop where
  sound : Sound E (· ∈ hashed) w
  known : ∀ content ∈ contents, content ∈ hashed
  content : ∀ content ∈ contents, ContentOnly E (· ∈ hashed) w.db (E.blake3Hex content)

theorem Kept.objectInv (hk : Kept E contents w hashed)
    (hguard : ∀ content ∈ contents, compound = some (E.blake3Hex content) →
      w.db.recipes.has (E.blake3Hex content) = true) :
    ObjectInv E compound (contents.map E.blake3Hex) w { hashed := hashed } where
  sound := hk.sound
  evidence := .empty
  found := .empty
  content digest hd := by
    rcases hd with hd | ⟨-, hd⟩
    · obtain ⟨content, hmem, rfl⟩ := List.mem_map.mp hd
      exact hk.content content hmem
    · cases hd
  guard digest hd hcompound := by
    obtain ⟨content, hmem, rfl⟩ := List.mem_map.mp hd
    exact hguard content hmem hcompound

/-- Forgetting the result of an operation. -/
theorem obeys_void {α β : Type} {c : Contract (Prim D) Resp (Observed D)} {p : Proc D α} {f : α → β}
    {Q : Except String α → Observed D → Prop} (h : p.Obeys c k Q) :
    (p.bind fun a => .ret (f a) : Proc D β).Obeys c k fun _ _ => True :=
  obeys_bind.mpr (h.mono fun r _ _ => by cases r <;> trivial)

/-- An object operation that stores no content keeps the store. -/
theorem Kept.object_call {α : Type} {p : Proc D α} {Q : Except String α → Observed D → Prop}
    (hk : Kept E contents w hashed)
    (hguard : ∀ content ∈ contents, compound = some (E.blake3Hex content) →
      w.db.recipes.has (E.blake3Hex content) = true)
    (hobeys : p.Obeys (objectContract E compound) { hashed := hashed } Q)
    (hprog : op.prog E = p.bind fun _ => .ret none) (hnone : op.contents = [])
    (h : runCall E op w hashed = some (out, w', hashed')) :
    Kept E (contents ++ op.contents) w' hashed' := by
  have hgrow := runCall_hashed h
  obtain ⟨k, hrun, rfl⟩ := runCall_eq_some h
  rw [hprog] at hrun
  obtain ⟨hi, -⟩ := (obeys_void hobeys).run (objectContract_keeps compound _)
    (hk.objectInv hguard) hrun
  rw [hnone, List.append_nil]
  refine ⟨hi.sound, fun content hmem => hgrow content (hk.known content hmem), ?_⟩
  exact fun content hmem => hi.content _ (Or.inl (List.mem_map.mpr ⟨content, hmem, rfl⟩))

/-- A Put returns the hash of its content, and this content is kept from then on beside those
before. -/
theorem Kept.put_call {request : PutRequest D} (hk : Kept E contents w hashed)
    (h : runCall E (.put request) w hashed = some (out, w', hashed')) :
    Kept E (contents ++ [request.reader.content]) w' hashed' ∧
      out = some (E.blake3Hex request.reader.content) := by
  obtain ⟨k, hrun, rfl⟩ := runCall_eq_some h
  have hobeys : ((Gmeow.put E request).bind fun digest => .ret (some digest) :
      Proc D (Option D)).Obeys (objectContract E none) { hashed := hashed } fun r k' =>
        ∀ d, r = .ok d → d = some (E.blake3Hex request.reader.content) ∧
          request.reader.content ∈ k'.hashed ∧
            E.blake3Hex request.reader.content ∈ k'.stored := by
    refine obeys_bind.mpr ((put_obeys request _).mono ?_)
    rintro (e | digest) k' ⟨-, hput⟩
    · exact fun _ h => nomatch h
    · obtain ⟨rfl, hhashed, hstored⟩ := hput _ rfl
      intro d heq
      cases heq
      exact ⟨rfl, hhashed, hstored⟩
  obtain ⟨hi, hpost⟩ := hobeys.run (objectContract_keeps none _)
    (hk.objectInv fun _ _ heq => nomatch heq) hrun
  obtain ⟨hout, hhashed, hstored⟩ := hpost _ rfl
  refine ⟨⟨hi.sound, fun content hmem => ?_, fun content hmem => ?_⟩, hout⟩
  · rcases List.mem_append.mp hmem with hmem | hmem
    · exact runCall_hashed h content (hk.known content hmem)
    · rw [List.mem_singleton.mp hmem]
      exact hhashed
  · rcases List.mem_append.mp hmem with hmem | hmem
    · exact hi.content _ (Or.inl (List.mem_map.mpr ⟨content, hmem, rfl⟩))
    · rw [List.mem_singleton.mp hmem]
      exact hi.content _ (Or.inr ⟨rfl, hstored⟩)

/-- An operation whose result is only reworded. -/
theorem run_void {α β : Type} {p : Proc D α} {f : α → β} {r : Except String β}
    (h : runAlone E (p.bind fun a => .ret (f a) : Proc D β) w = some (r, w')) :
    ∃ r', runAlone E p w = some (r', w') := by
  have hwp : (p.bind fun a => .ret (f a) : Proc D β).wp (handle E) w fun _ s => s = w' :=
    wp_iff_run.mpr ⟨_, _, h, rfl⟩
  obtain ⟨r', w₁, hrun, hafter⟩ := wp_iff_run.mp (wp_bind.mp hwp)
  obtain rfl : w₁ = w' := by
    cases r' <;> exact hafter
  exact ⟨r', hrun⟩

theorem Kept.gc_call {grace : Int} (hk : Kept E contents w hashed)
    (h : runCall E (.gcWithGrace grace) w hashed = some (out, w', hashed')) :
    Kept E contents w' hashed' := by
  have hgrow := runCall_hashed h
  obtain ⟨k, hrun, rfl⟩ := runCall_eq_some h
  obtain ⟨r, hrun⟩ := run_void (run_observing hrun)
  obtain ⟨-, -, hdb, hpacks, hactive, hdicts, hcache, -⟩ :=
    wp_run (gcWithGrace_alone grace (withLock_free hrun)) hrun
  refine ⟨(hk.sound.swept hdb hpacks hactive hdicts hcache).mono hgrow,
    fun content hmem => hgrow content (hk.known content hmem), fun content hmem => ?_⟩
  rw [hdb]
  exact (hk.content content hmem).swept.mono hgrow

/-- What `repack` leaves alone: recipes, manifests, and which chunks are indexed. -/
structure Unmoved (w w' : World D) : Prop where
  recipes : w'.db.recipes = w.db.recipes
  manifests : w'.db.manifests = w.db.manifests
  chunks : ∀ hash, w.db.chunks.has hash = true → w'.db.chunks.has hash = true
  cache : ∀ item ∈ w'.chunkCache, item ∈ w.chunkCache

/-- A request of a repack may move an entry of the chunk index, but takes none away, and it keeps
every recipe and manifest. -/
theorem Unmoved.step {w₁ w₂ : World D} (hu : Unmoved w w₁) {p : Prim D} {r : Resp p}
    (hpre : (repackContract E).pre k p) (h : handle E p w₁ = some (r, w₂)) : Unmoved w w₂ := by
  by_cases hf : p.footprint = .db
  · cases p with
    | commit writes =>
      cases h
      obtain ⟨scan, entry, raw, id, offset, now, -, -, -, -, -, -, -, rfl⟩ := hpre
      refine ⟨hu.recipes, hu.manifests, fun hash hhas => ?_, hu.cache⟩
      show (w₁.db.applyAll _).chunks.has hash = true
      rw [OrdMap.has, get_applyAll_single]
      split
      · rfl
      · exact hu.chunks hash hhas
    | _ => cases hf
  · have hsame := handle_sameBut h
    refine ⟨by rw [hsame.db hf]; exact hu.recipes, by rw [hsame.db hf]; exact hu.manifests,
      by rw [hsame.db hf]; exact hu.chunks, ?_⟩
    by_cases hc : p.footprint = .chunkCache
    · cases p with
      | cacheGet hash => cases h; exact fun item hmem => hu.cache item (mem_cacheLookup hmem)
      | cachePut hash value => exact hpre.elim
      | _ => cases hc
    · rw [hsame.chunkCache hc]
      exact hu.cache

theorem Sound.repacked {kR kP : Observed D} (hs : Sound E H w) (hi : RepackInv E H w' kR kP)
    (hu : Unmoved w w') : Sound E H w' := by
  refine ⟨hi.packs, hi.dicts, fun hash value hmem => hs.cache hash value (hu.cache _ hmem),
    hi.chunks, ?_, ?_, ?_⟩
  · intro digest recipe hget hash hmem
    rw [hu.recipes] at hget
    exact hu.chunks hash (hs.indexed digest recipe hget hash hmem)
  · rw [hu.recipes]
    exact hs.recipes
  · rw [hu.recipes, hu.manifests]
    exact hs.manifests

/-- One request of `repack`, alone. -/
theorem repack_keeps :
    (repackContract E).Keeps (handle E) fun w₁ k₁ => RepackInv E H w₁ k₁ {} ∧ Unmoved w w₁ := by
  rintro w₁ k₁ p r w₂ ⟨hi, hu⟩ hpre hp
  exact ⟨handle_objectContract none hp, hi.repack_step hpre (hi.removalOK hpre) hp,
    hu.step hpre hp⟩

theorem Kept.repack_call (hk : Kept E contents w hashed)
    (h : runCall E .repack w hashed = some (out, w', hashed')) : Kept E contents w' hashed' := by
  have hgrow := runCall_hashed h
  obtain ⟨k, hrun, rfl⟩ := runCall_eq_some h
  obtain ⟨⟨hi, hu⟩, -⟩ := (obeys_void (repack_obeys hashed)).run repack_keeps
    ⟨.start hk.sound, rfl, rfl, fun _ h => h, fun _ h => h⟩ hrun
  refine ⟨(hk.sound.repacked hi hu).mono hgrow, fun content hmem => hgrow content (hk.known content hmem),
    fun content hmem => ContentOnly.mono ?_ hgrow⟩
  intro recipe hget
  rw [hu.recipes] at hget
  exact hk.content content hmem recipe hget

/-- A compound written hashed its identity. -/
theorem runCall_identity (h : runCall E (.putCompound request) w hashed = some (out, w', hashed')) :
    compoundIdentity (trimSpace request.objectID) ∈ hashed' := by
  obtain ⟨k, hrun, rfl⟩ := runCall_eq_some h
  have hpost : ((Gmeow.putCompound E request).bind fun _ => .ret none : Proc D (Option D)).Obeys
      (objectContract E (some (E.blake3Hex (compoundIdentity (trimSpace request.objectID)))))
      { hashed := hashed } fun r k' =>
      ∀ d, r = .ok d → compoundIdentity (trimSpace request.objectID) ∈ k'.hashed := by
    refine obeys_bind.mpr ((putCompound_obeys request _).mono ?_)
    rintro (e | digest) k' ⟨-, hput⟩
    · exact fun _ h => nomatch h
    · exact fun _ _ => (hput _ rfl).2
  have htrivial : (objectContract E (some (E.blake3Hex (compoundIdentity
      (trimSpace request.objectID))))).Keeps (handle E) fun _ _ => True :=
    fun _ _ _ _ _ _ _ hp => ⟨handle_objectContract _ hp, trivial⟩
  exact (hpost.run htrivial trivial hrun).2 out rfl

theorem Kept.compound_call (hk : Kept E contents w hashed)
    (hcond : CompoundGuarded E contents w (.putCompound request))
    (hfree : CollisionFree E (· ∈ final)) (hfinal : ∀ content ∈ hashed', content ∈ final)
    (h : runCall E (.putCompound request) w hashed = some (out, w', hashed')) :
    Kept E (contents ++ (Call.putCompound request).contents) w' hashed' := by
  refine hk.object_call ?_ (putCompound_obeys request _) rfl rfl h
  intro content hmem heq
  -- equal digests: the content put is the identity the compound hashed
  have hsame : content = compoundIdentity (trimSpace request.objectID) :=
    hfree content _ (hfinal _ (runCall_hashed h _ (hk.known content hmem)))
      (hfinal _ (runCall_identity h)) (Option.some.inj heq).symm
  rw [hsame] at hmem ⊢
  exact hcond hmem

/-- **Each call** keeps the store, a compound provided it is guarded. -/
theorem Kept.call (hk : Kept E contents w hashed) (hcond : CompoundGuarded E contents w op)
    (hfree : CollisionFree E (· ∈ final)) (hfinal : ∀ content ∈ hashed', content ∈ final)
    (h : runCall E op w hashed = some (out, w', hashed')) :
    Kept E (contents ++ op.contents) w' hashed' := by
  have hplain : ∀ content ∈ contents, (none : Option D) = some (E.blake3Hex content) →
      w.db.recipes.has (E.blake3Hex content) = true := fun _ _ heq => nomatch heq
  cases op with
  | put request => exact (hk.put_call h).1
  | putCompound request => exact hk.compound_call hcond hfree hfinal h
  | attachProvenance digest provenance =>
    exact hk.object_call hplain (attachProvenance_obeys digest provenance _) rfl rfl h
  | writeAnnotationRecord note =>
    exact hk.object_call hplain (writeAnnotationRecord_obeys note _) rfl rfl h
  | writeOverlays digest overlays =>
    exact hk.object_call hplain (writeOverlays_obeys digest overlays _) rfl rfl h
  | deleteObject digest =>
    exact hk.object_call hplain (deleteObject_obeys digest _) rfl rfl h
  | deleteImport sourceKind sourceName =>
    exact hk.object_call hplain (deleteImport_obeys sourceKind sourceName _) rfl rfl h
  | gcWithGrace grace =>
    rw [show (Call.gcWithGrace grace : Call D).contents = [] from rfl, List.append_nil]
    exact hk.gc_call h
  | repack =>
    rw [show (Call.repack : Call D).contents = [] from rfl, List.append_nil]
    exact hk.repack_call h

/-! ## Sequences -/

/-- A sequence of guarded calls keeps the store, and every digest a `put` in it returned
is that of a content it keeps. -/
theorem Kept.calls (hfree : CollisionFree E (· ∈ final)) :
    ∀ {calls : List (Call D)} {contents hashed : List Bytes} {w w' : World D}
      {outs : List (Option D)}, Kept E contents w hashed →
      CallsMeet E (CompoundGuarded E) calls contents w hashed →
      runCalls E calls w hashed = some (outs, w', final) →
      ∃ contents', Kept E contents' w' final ∧ (∀ content ∈ contents, content ∈ contents') ∧
        ∀ request digest, (Call.put request, some digest) ∈ calls.zip outs →
          request.reader.content ∈ contents' ∧ digest = E.blake3Hex request.reader.content := by
  intro calls
  induction calls with
  | nil =>
    intro contents hashed w w' outs hk _ hrun
    cases hrun
    exact ⟨contents, hk, fun _ h => h, fun _ _ h => nomatch h⟩
  | cons op rest ih =>
    intro contents hashed w w' outs hk hmeet hrun
    rw [runCalls] at hrun
    split at hrun
    · cases hrun
    · rename_i out w₁ hashed₁ hcall
      split at hrun
      · cases hrun
      · rename_i outs₂ w₂ hashed₂ hcalls
        cases hrun
        have hk₁ := hk.call hmeet.1 hfree (runCalls_hashed hcalls) hcall
        obtain ⟨contents', hk', hsub, hputs⟩ := ih hk₁ (hmeet.2 _ _ _ hcall) hcalls
        refine ⟨contents', hk', fun content hmem => hsub _ (List.mem_append_left _ hmem), ?_⟩
        intro request digest hmem
        rcases List.mem_cons.mp hmem with heq | hmem
        · obtain ⟨rfl, rfl⟩ := Prod.ext_iff.mp heq
          exact ⟨hsub _ (List.mem_append_right _ (List.mem_cons_self ..)),
            Option.some.inj (hk.put_call hcall).2⟩
        · exact hputs request digest hmem

/-- The empty store. -/
theorem Kept.empty (clock : Nat → Time) : Kept E [] { clock := clock } [] :=
  ⟨.empty _ clock, (fun _ h => nomatch h), (fun _ h => nomatch h)⟩

/-- **Sequential durability.** After any sequence of successful calls from an empty
store whose compounds are guarded, a digest some `put` returned, and that still has a
manifest, opens and reads back as the content put, whatever the buffer sizes. -/
theorem put_durable {calls : List (Call D)} {clock : Nat → Time} {outs : List (Option D)}
    {w : World D} {hashed : List Bytes} (hz : E.ZstdLossless)
    (hfree : CollisionFree E (· ∈ hashed))
    (hrun : runCalls E calls { clock := clock } [] = some (outs, w, hashed))
    (hmeet : CallsMeet E (CompoundGuarded E) calls [] { clock := clock } [])
    {request : PutRequest D} {digest : D} (hput : (.put request, some digest) ∈ calls.zip outs)
    (hmanifest : w.db.manifests.has digest = true) (sizes : Nat → Nat) (hsizes : ∀ n, sizes n ≠ 0)
    (fuel : Nat) (hfuel : request.reader.content.length < fuel) :
    ∃ w', runAlone E (do
      let reader ← openObject E digest
      readToEOF E sizes fuel reader) w = some (.ok request.reader.content, w') := by
  obtain ⟨contents, hk, -, hputs⟩ := (Kept.empty clock).calls hfree hmeet hrun
  obtain ⟨hmem, rfl⟩ := hputs request digest hput
  have hreads := openObject_reads hz hfree hk.sound (hk.known _ hmem) (hk.content _ hmem)
    (hk.sound.manifests _ hmanifest) hsizes hfuel
  obtain ⟨r, w', hrun', rfl, -, -⟩ := wp_iff_run.mp hreads
  exact ⟨w', hrun'⟩

/-- A file whose bytes are the identity of the compound `x`. -/
def aliasRequest : PutRequest Nat where
  reader := .short (utf8 "compound:x") short_compound
  facets := [{ kind := "file" }]

/-- Store the file, delete it, store the compound. -/
def aliasCalls : List (Call Nat) :=
  [.put aliasRequest, .deleteObject (numeral (utf8 "compound:x")),
    .putCompound { objectID := "x", facets := [{ kind := "message" }] }]

/-- Unguarded, the digest the `put` returned has a manifest again and reads back as
something else, here as the envelope `[1]`. -/
theorem put_durable_unguarded :
    ∃ outs w hashed, runCalls plainEnv aliasCalls {} [] = some (outs, w, hashed) ∧
      CollisionFree plainEnv (· ∈ hashed) ∧ plainEnv.ZstdLossless ∧
      (Call.put aliasRequest, some (numeral (utf8 "compound:x"))) ∈ aliasCalls.zip outs ∧
      w.db.manifests.has (numeral (utf8 "compound:x")) = true ∧
      ∃ w', runAlone plainEnv (do
        let reader ← openObject plainEnv (numeral (utf8 "compound:x"))
        readToEOF plainEnv (fun _ => 64) 64 reader) w = some (.ok [1], w') ∧
      aliasRequest.reader.content ≠ [1] := by
  have heval : ((runCalls plainEnv aliasCalls {} []).any fun out =>
      out.1 == [some (numeral (utf8 "compound:x")), none, none] &&
      out.2.1.db.manifests.has (numeral (utf8 "compound:x")) &&
      (runAlone plainEnv (do
        let reader ← openObject plainEnv (numeral (utf8 "compound:x"))
        readToEOF plainEnv (fun _ => 64) 64 reader) out.2.1).any
          fun out => decide (out.1.toOption = some [1])) = true := by decide +kernel
  obtain ⟨⟨outs, w, hashed⟩, hrun, hout⟩ := (Option.any_eq_true _ _).mp heval
  simp only [Bool.and_eq_true, beq_iff_eq] at hout
  obtain ⟨⟨rfl, hmanifest⟩, hread⟩ := hout
  obtain ⟨⟨r, w'⟩, hread, hr⟩ := (Option.any_eq_true _ _).mp hread
  refine ⟨_, w, hashed, hrun, fun _ _ _ _ heq => numeral_injective heq, plainEnv_lossless,
    List.mem_cons_self .., hmanifest, w', ?_, by decide +kernel⟩
  cases r with
  | error e => simp [Except.toOption] at hr
  | ok got =>
    rw [hread, Option.some.inj (of_decide_eq_true hr)]

/-- A file to keep. -/
def keptRequest : PutRequest Nat where
  reader := .short (utf8 "kept") (by decide)
  facets := [{ kind := "file" }]

/-- A file stays readable next to one that is deleted, collected and repacked away, and to
a compound. -/
def keptCalls : List (Call Nat) :=
  [.put keptRequest, .put aliasRequest, .deleteObject (numeral (utf8 "compound:x")),
    .putCompound { objectID := "y", facets := [{ kind := "message" }] }, .gcWithGrace 0, .repack]

theorem put_durable_kept :
    ∃ outs w hashed w', runCalls plainEnv keptCalls {} [] = some (outs, w, hashed) ∧
      runAlone plainEnv (do
        let reader ← openObject plainEnv (numeral (utf8 "kept"))
        readToEOF plainEnv (fun _ => 3) 8 reader) w = some (.ok (utf8 "kept"), w') := by
  have heval : ((runCalls plainEnv keptCalls {} []).any fun out =>
      out.1 == [some (numeral (utf8 "kept")), some (numeral (utf8 "compound:x")), none, none,
        none, none] &&
      out.2.1.db.manifests.has (numeral (utf8 "kept"))) = true := by decide +kernel
  obtain ⟨⟨outs, w, hashed⟩, hrun, hout⟩ := (Option.any_eq_true _ _).mp heval
  simp only [Bool.and_eq_true, beq_iff_eq] at hout
  obtain ⟨rfl, hmanifest⟩ := hout
  have hmeet : CallsMeet plainEnv (CompoundGuarded plainEnv) keptCalls [] {} [] := by
    refine ⟨trivial, fun _ _ _ _ => ⟨trivial, fun _ _ _ _ => ⟨trivial, fun _ _ _ _ =>
      ⟨fun hmem => ?_, fun _ _ _ _ => ⟨trivial, fun _ _ _ _ => ⟨trivial, fun _ _ _ _ =>
        trivial⟩⟩⟩⟩⟩⟩
    exact absurd hmem (by decide +kernel)
  obtain ⟨w', hread⟩ := put_durable plainEnv_lossless (fun _ _ _ _ heq => numeral_injective heq)
    hrun hmeet (List.mem_cons_self ..) hmanifest (fun _ => 3) (fun _ => by decide) 8
    (by decide +kernel)
  exact ⟨_, w, hashed, w', hrun, hread⟩

end Gmeow
