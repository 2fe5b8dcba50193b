import Gmeow.Integrity

/-!
# Reading back from a sound store

In a sound store whose hashed contents do not collide, reading finds what was stored:

* `readChunk_reads` — a chunk, from the cache or from its pack;
* `readToEOF_reads` — a blob behind `chunkRecipeReader`, to the first `io.EOF`, whatever
  the sizes of the buffers;
* `openObject_reads` — the object under a digest, verified or not.

Reading changes nothing but the chunk cache, so each result also hands the sound store on.
-/

namespace Gmeow

open Prog

variable {D : Type} [LinearOrder D] {E : Env D} {H : Bytes → Prop} {w w' : World D} {p : Prim D}
  {r : Resp p} {hash : D} {entry : ChunkIndexEntry D} {chunk dict : Bytes}
  {reader : ChunkRecipeReader D}

/-- No two of the contents hashed have the same hash. -/
def CollisionFree (E : Env D) (H : Bytes → Prop) : Prop :=
  ∀ a b, H a → H b → E.blake3Hex a = E.blake3Hex b → a = b

/-- A reader ends with `value`, in a sound store with the same tables. -/
def Reads {α : Type} (E : Env D) (H : Bytes → Prop) (p : Proc D α) (w : World D) (value : α) :
    Prop :=
  p.wp (handle E) w fun r w' => r = .ok value ∧ w'.db = w.db ∧ Sound E H w'

/-- Reading in sequence. -/
theorem Reads.bind {α β : Type} {p : Proc D α} {f : α → Proc D β} {a : α} {b : β}
    (hp : Reads E H p w a) (hf : ∀ w', w'.db = w.db → Sound E H w' → Reads E H (f a) w' b) :
    Reads E H (p.bind f) w b := by
  refine wp_bind.mpr (wp_mono hp ?_)
  rintro r w' ⟨rfl, hdb, hs⟩
  refine wp_mono (hf w' hdb hs) ?_
  rintro r w'' ⟨rfl, hdb', hs'⟩
  exact ⟨rfl, hdb'.trans hdb, hs'⟩

/-- Whether a request writes nothing the store depends on. -/
def Prim.readOnly : Prim D → Bool
  | .commit _ => false
  | .removePack _ => false
  | .cachePut _ _ => false
  | _ => true

/-- Handing a sound store on over one request. -/
theorem Reads.call {α : Type} {f : Resp p → Proc D α} {a : α} (hdb : p.footprint ≠ .db)
    (h : handle E p w = some (r, w')) (hf : Reads E H (f r) w' a) :
    Reads E H ((Prog.ask p).bind f) w a := by
  have hsame := (handle_sameBut h).db hdb
  refine ⟨r, w', h, wp_mono hf ?_⟩
  rintro out w'' ⟨rfl, hdb', hs'⟩
  exact ⟨rfl, hdb'.trans hsame, hs'⟩

/-- One request that only reads. -/
theorem Reads.ask (hs : Sound E H w) {α : Type} {f : Resp p → Proc D α} {a : α}
    (h : handle E p w = some (r, w')) (hp : p.readOnly = true)
    (hf : Sound E H w' → Reads E H (f r) w' a) : Reads E H ((Prog.ask p).bind f) w a := by
  have hdb : p.footprint ≠ .db := by
    intro hdb
    cases p with
    | commit writes => cases hp
    | _ => cases hdb
  have hrm : p.isRemoval = false := by
    cases p with
    | removePack id => cases hp
    | _ => rfl
  refine Reads.call hdb h (hf (hs.step (fun _ h => h) hdb hrm ?_ h))
  rintro hash value rfl
  cases hp

theorem Reads.ret (hs : Sound E H w) {α : Type} (a : α) : Reads E H (.ret a : Proc D α) w a :=
  ⟨rfl, rfl, hs⟩

/-! ## Chunks -/

/-- Decompressing a stored chunk gives the chunk. -/
theorem decompressChunkContent_reads (hz : E.ZstdLossless) (hs : Sound E H w)
    (hstored : Stored E H w hash entry chunk dict) :
    Reads E H (decompressChunkContent E (E.zstdEncode dict chunk) entry.dictID) w (.ok chunk) := by
  have hchosen := hstored.chosen
  rw [decompressChunkContent]
  split
  · -- no dictionary was recorded, so none was used
    rename_i hid
    rw [hid, dictionaryBytes, if_pos rfl] at hchosen
    cases hchosen
    rw [hz [] chunk]
    exact Reads.ret hs _
  · rename_i hid
    obtain ⟨hfile, hne⟩ := dictionaryBytes_file hchosen hid
    refine Reads.ask hs (r := w.dicts.files.get entry.dictID) rfl rfl fun hs => ?_
    simp only [hfile, if_neg (hstored.readable hne), hz dict chunk]
    exact Reads.ret hs _

/-- A chunk that is stored can be read, with the dictionary of its entry. -/
theorem readChunkAt_reads (hz : E.ZstdLossless) (hs : Sound E H w)
    (hstored : Stored E H w hash entry chunk dict) :
    Reads E H (readChunkAt E hash entry) w (.ok chunk) := by
  obtain ⟨pack, hpack, -, hle, hsynced, hslice⟩ := hstored.pack
  have hread : readPackAt w.packs entry.packID entry.offset entry.length =
      .ok (E.zstdEncode dict chunk) := by
    rw [readPackAt, hpack]
    dsimp only
    rw [if_pos (by omega)]
    exact congrArg Except.ok hslice
  refine Reads.ask hs (r := readPackAt w.packs entry.packID entry.offset entry.length) rfl rfl
    fun hs => ?_
  rw [hread]
  refine Reads.bind (decompressChunkContent_reads hz hs hstored) fun w₁ _ hs₁ => ?_
  refine Reads.ask hs₁ (r := E.blake3Hex chunk) rfl rfl fun hs₂ => ?_
  rw [if_neg (not_not.mpr hstored.hash_eq)]
  exact Reads.ret hs₂ _

/-- **Reading a chunk.** Whatever chunk is hashed and indexed reads back. -/
theorem readChunk_reads (hz : E.ZstdLossless) (hfree : CollisionFree E H) (hs : Sound E H w)
    (hH : H chunk) (hhas : w.db.chunks.has (E.blake3Hex chunk) = true) :
    Reads E H (readChunk E (E.blake3Hex chunk)) w (.ok chunk) := by
  refine Reads.ask hs (r := (cacheLookup w.chunkCache (E.blake3Hex chunk)).1) rfl rfl
    fun hs₁ => ?_
  cases hcached : (cacheLookup w.chunkCache (E.blake3Hex chunk)).1 with
  | some value =>
    -- a cached value has this hash, and so is the chunk
    have hmem : (E.blake3Hex chunk, value) ∈ w.chunkCache := by
      rw [cacheLookup] at hcached
      split at hcached
      · cases hcached
      · rename_i item hfind
        cases hcached
        have hkey : item.1 = E.blake3Hex chunk := by simpa using List.find?_some hfind
        rw [← hkey]
        exact List.mem_of_find?_eq_some hfind
    obtain ⟨hvalue, heq⟩ := hs.cache _ _ hmem
    rw [hfree value chunk hvalue hH heq]
    exact Reads.ret hs₁ _
  | none =>
    obtain ⟨entry, hentry⟩ := OrdMap.has_iff.mp hhas
    refine Reads.ask hs₁ (r := w.db.chunks.get (E.blake3Hex chunk)) rfl rfl fun hs₂ => ?_
    rw [hentry]
    obtain ⟨stored, dict, hstored⟩ := hs₂.chunks _ _ hentry
    have heq := hfree stored chunk hstored.hashed hH hstored.hash_eq
    rw [heq] at hstored
    refine Reads.bind (readChunkAt_reads hz hs₂ hstored) fun w₃ _ hs₃ => ?_
    refine Reads.call (by simp [Prim.footprint]) rfl (Reads.ret ?_ _)
    refine hs₃.step (fun _ h => h) (p := .cachePut (E.blake3Hex chunk) chunk) (r := ())
      (by simp [Prim.footprint]) rfl ?_ rfl
    rintro hash value h
    cases h
    exact ⟨hH, rfl⟩

/-! ## The streaming reader -/

/-- The first chunk that is not empty, and the chunks after it. -/
def skipEmpty : List Bytes → Bytes × List Bytes
  | [] => ([], [])
  | chunk :: rest => if chunk = [] then skipEmpty rest else (chunk, rest)

theorem skipEmpty_spec (chunks : List Bytes) :
    (skipEmpty chunks).1 ++ (skipEmpty chunks).2.flatten = chunks.flatten ∧
      ((skipEmpty chunks).1 = [] → (skipEmpty chunks).2 = []) ∧
      ∀ chunk ∈ (skipEmpty chunks).2, chunk ∈ chunks := by
  induction chunks with
  | nil => exact ⟨rfl, fun _ => rfl, fun _ h => h⟩
  | cons chunk rest ih =>
    rw [skipEmpty]
    split
    · rename_i hempty
      obtain ⟨hflat, hend, hsub⟩ := ih
      refine ⟨by rw [hflat, hempty]; rfl, hend, fun c hc => List.mem_cons_of_mem _ (hsub c hc)⟩
    · rename_i hne
      exact ⟨rfl, fun h => absurd h hne, fun c hc => List.mem_cons_of_mem _ hc⟩

/-- `fetchPending` brings the first chunk that is not empty, and hashes it if asked. -/
theorem fetchPending_reads (hz : E.ZstdLossless) (hfree : CollisionFree E H) (verify : Bool)
    (hasher : Bytes) :
    ∀ (chunks : List Bytes) (w : World D), Sound E H w → (∀ chunk ∈ chunks, H chunk) →
      (∀ hash ∈ chunks.map E.blake3Hex, w.db.chunks.has hash = true) →
      Reads E H (fetchPending E verify (chunks.map E.blake3Hex) hasher) w
        (.ok (skipEmpty chunks).1, (skipEmpty chunks).2.map E.blake3Hex,
          if verify then hasher ++ (skipEmpty chunks).1 else hasher) := by
  intro chunks
  induction chunks with
  | nil =>
    intro w hs _ _
    simp only [skipEmpty, List.append_nil, ite_self]
    exact Reads.ret hs _
  | cons chunk rest ih =>
    intro w hs hH hhas
    refine Reads.bind (readChunk_reads hz hfree hs (hH chunk (List.mem_cons_self ..))
      (hhas _ (List.mem_cons_self ..))) fun w₁ hdb₁ hs₁ => ?_
    by_cases hempty : chunk = []
    · -- an empty chunk is skipped, and adds nothing to the hasher
      simp only [skipEmpty, if_pos hempty]
      have hsame : (if verify = true then hasher ++ chunk else hasher) = hasher := by
        rw [hempty, List.append_nil, ite_self]
      rw [hsame]
      refine ih w₁ hs₁ (fun c hc => hH c (List.mem_cons_of_mem _ hc)) fun hash hmem => ?_
      rw [hdb₁]
      exact hhas hash (List.mem_cons_of_mem _ hmem)
    · simp only [skipEmpty, if_neg hempty]
      exact Reads.ret hs₁ _

/-- A reader that has still to fetch `chunks`, and will then find the digest it
verifies against, if any. -/
structure ReaderAt (E : Env D) (reader : ChunkRecipeReader D) (chunks : List Bytes) : Prop where
  hashes : reader.hashes = chunks.map E.blake3Hex
  verified : reader.verified = false
  digest : ∀ digest, reader.verifyDigest = some digest →
    E.blake3Hex (reader.hasher ++ chunks.flatten) = digest

/-- The end of the recipe: the digest is the one expected. -/
theorem handOut_reads_eof (hr : ReaderAt E reader []) (size : Nat) :
    ∃ reader', ∀ w, Sound E H w → Reads E H (reader.handOut E [] size) w (.eof, reader') := by
  rw [ChunkRecipeReader.handOut, if_neg (not_not.mpr rfl), hr.verified]
  cases hverify : reader.verifyDigest with
  | none => exact ⟨reader, fun w hs => Reads.ret hs _⟩
  | some digest =>
    have hdigest : E.blake3Hex reader.hasher = digest := by
      simpa using hr.digest digest hverify
    refine ⟨{ reader with verifyDigest := some digest, verified := true }, fun w hs => ?_⟩
    refine Reads.ask hs (r := E.blake3Hex reader.hasher) rfl rfl fun hs₁ => ?_
    rw [if_neg (not_not.mpr hdigest)]
    exact Reads.ret hs₁ _

/-- What `Read` goes on with: the pending bytes, or the next chunk that is not empty. -/
def atHand (reader : ChunkRecipeReader D) (chunks : List Bytes) : Bytes × List Bytes :=
  if reader.pending = [] then skipEmpty chunks else (reader.pending, chunks)

omit [LinearOrder D] in
theorem atHand_spec (reader : ChunkRecipeReader D) (chunks : List Bytes) :
    (atHand reader chunks).1 ++ (atHand reader chunks).2.flatten =
        reader.pending ++ chunks.flatten ∧
      ((atHand reader chunks).1 = [] → (atHand reader chunks).2 = []) ∧
      ∀ chunk ∈ (atHand reader chunks).2, chunk ∈ chunks := by
  rw [atHand]
  split
  · rename_i hempty
    rw [hempty]
    exact skipEmpty_spec chunks
  · rename_i hne
    exact ⟨rfl, fun h => absurd h hne, fun _ h => h⟩

/-- One `Read`: the reader moves on to what is at hand, and hands out of it. -/
theorem read_reads (hz : E.ZstdLossless) (hfree : CollisionFree E H) (hs : Sound E H w)
    {chunks : List Bytes} (hr : ReaderAt E reader chunks) (hH : ∀ chunk ∈ chunks, H chunk)
    (hhas : ∀ hash ∈ chunks.map E.blake3Hex, w.db.chunks.has hash = true) (size : Nat) :
    ∃ reader₁, ReaderAt E reader₁ (atHand reader chunks).2 ∧
      ∀ out, (∀ w₁, w₁.db = w.db → Sound E H w₁ →
          Reads E H (reader₁.handOut E (atHand reader chunks).1 size) w₁ out) →
        Reads E H (reader.read E size) w out := by
  rw [ChunkRecipeReader.read, atHand]
  by_cases hpending : reader.pending = []
  · rw [if_pos hpending, if_pos hpending]
    obtain ⟨hflat, -, -⟩ := skipEmpty_spec chunks
    have hfetch := fetchPending_reads hz hfree reader.verifyDigest.isSome reader.hasher chunks w hs
      hH hhas
    rw [← hr.hashes] at hfetch
    refine ⟨{ reader with
      hashes := (skipEmpty chunks).2.map E.blake3Hex
      hasher := if reader.verifyDigest.isSome then reader.hasher ++ (skipEmpty chunks).1
        else reader.hasher
      pending := [] }, ⟨rfl, hr.verified, ?_⟩, fun out hout => Reads.bind hfetch hout⟩
    intro digest hverify
    have hdigest := hr.digest digest hverify
    dsimp only at hverify ⊢
    rw [hverify, Option.isSome_some, if_pos rfl, List.append_assoc, hflat]
    exact hdigest
  · rw [if_neg hpending, if_neg hpending]
    refine ⟨{ reader with pending := [] }, ⟨hr.hashes, hr.verified, hr.digest⟩, fun out hout => ?_⟩
    exact hout w rfl hs

/-- **Reading to the end.** Whatever the sizes of the buffers, as long as none is empty,
the reader hands out what it has pending and then its chunks, in order and once. -/
theorem readToEOF_reads (hz : E.ZstdLossless) (hfree : CollisionFree E H) :
    ∀ (fuel : Nat) (sizes : Nat → Nat) (reader : ChunkRecipeReader D) (chunks : List Bytes)
      (w : World D), (∀ n, sizes n ≠ 0) → Sound E H w → ReaderAt E reader chunks →
      (∀ chunk ∈ chunks, H chunk) →
      (∀ hash ∈ chunks.map E.blake3Hex, w.db.chunks.has hash = true) →
      (reader.pending ++ chunks.flatten).length < fuel →
      Reads E H (readToEOF E sizes fuel reader) w (reader.pending ++ chunks.flatten) := by
  intro fuel
  induction fuel with
  | zero => intro _ _ _ _ _ _ _ _ _ h; exact absurd h (Nat.not_lt_zero _)
  | succ fuel ih =>
    intro sizes reader chunks w hsizes hs hr hH hhas hfuel
    obtain ⟨hflat, hend, hsub⟩ := atHand_spec reader chunks
    obtain ⟨reader₁, hr₁, hread⟩ := read_reads hz hfree hs hr hH hhas (sizes 0)
    rw [← hflat] at hfuel ⊢
    by_cases hempty : (atHand reader chunks).1 = []
    · rw [hend hempty] at hr₁
      rw [hempty] at hread
      rw [hempty, hend hempty]
      obtain ⟨reader₂, heof⟩ := handOut_reads_eof (H := H) hr₁ (sizes 0)
      exact Reads.bind (hread _ fun w₁ _ hs₁ => heof w₁ hs₁) fun w₂ _ hs₂ => Reads.ret hs₂ _
    · obtain ⟨next, hnext⟩ : ∃ next, next = atHand reader chunks := ⟨_, rfl⟩
      rw [← hnext] at hempty hread hr₁ hfuel hsub ⊢
      have hout : ∀ w₁, w₁.db = w.db → Sound E H w₁ →
          Reads E H (reader₁.handOut E next.1 (sizes 0)) w₁
            (.bytes (next.1.take (sizes 0)), { reader₁ with pending := next.1.drop (sizes 0) }) := by
        intro w₁ _ hs₁
        rw [ChunkRecipeReader.handOut, if_pos hempty]
        exact Reads.ret hs₁ _
      refine Reads.bind (hread _ hout) fun w₂ hdb₂ hs₂ => ?_
      -- at least one byte was handed out, so the fuel lasts
      have hpos : 0 < next.1.length := List.length_pos_iff.mpr hempty
      have hsize := hsizes 0
      have hrest := ih (fun n => sizes (n + 1)) { reader₁ with pending := next.1.drop (sizes 0) }
        next.2 w₂ (fun n => hsizes (n + 1)) hs₂ ⟨hr₁.hashes, hr₁.verified, hr₁.digest⟩
        (fun c hc => hH c (hsub c hc))
        (fun hash hmem => by
          rw [hdb₂]
          obtain ⟨c, hc, rfl⟩ := List.mem_map.mp hmem
          exact hhas _ (List.mem_map.mpr ⟨c, hsub c hc, rfl⟩))
        (by
          rw [List.length_append] at hfuel
          simp only [List.length_append, List.length_drop]
          omega)
      refine Reads.bind hrest fun w₃ _ hs₃ => ?_
      have hjoin : next.1 ++ next.2.flatten =
          next.1.take (sizes 0) ++ (next.1.drop (sizes 0) ++ next.2.flatten) := by
        rw [← List.append_assoc, List.take_append_drop]
      rw [hjoin]
      exact Reads.ret hs₃ _

/-! ## Objects -/

/-- **Opening an object.** The digest of a content under which only contents are kept
opens, and reads back as that content. -/
theorem openObject_reads (hz : E.ZstdLossless) (hfree : CollisionFree E H) (hs : Sound E H w)
    {content : Bytes} (hH : H content) (honly : ContentOnly E H w.db (E.blake3Hex content))
    (hhas : w.db.recipes.has (E.blake3Hex content) = true) {sizes : Nat → Nat}
    (hsizes : ∀ n, sizes n ≠ 0) {fuel : Nat} (hfuel : content.length < fuel) :
    Reads E H (do let reader ← openObject E (E.blake3Hex content); readToEOF E sizes fuel reader)
      w content := by
  obtain ⟨recipe, hget⟩ := OrdMap.has_iff.mp hhas
  obtain ⟨chunks, hrecipe, hflatten, heq⟩ := honly recipe hget
  have hcontent : chunks.flatten = content := hfree _ _ hflatten hH heq
  have hindexed := hs.indexed _ _ hget
  rw [hrecipe.hashes] at hindexed
  -- the reader opened, verifying or not
  obtain ⟨verify, hverify⟩ : ∃ verify : Option D,
      verify = if (w.db.manifests.get (E.blake3Hex content)).map (fun m => m.identityStrategy) =
        some .compoundStableID then none else some (E.blake3Hex content) := ⟨_, rfl⟩
  have hopen : Reads E H (openObject E (E.blake3Hex content)) w
      { hashes := recipe.chunkHashes, verifyDigest := verify } := by
    refine Reads.ask hs (r := w.db.manifests.get (E.blake3Hex content)) rfl rfl fun hs₁ => ?_
    refine Reads.bind (a := some { hashes := recipe.chunkHashes, verifyDigest := verify }) ?_
      fun w₂ _ hs₂ => Reads.ret hs₂ _
    rw [hverify]
    refine Reads.ask hs₁ (r := w.db.recipes.get (E.blake3Hex content)) rfl rfl fun hs₂ => ?_
    rw [hget]
    exact Reads.ret hs₂ _
  refine Reads.bind hopen fun w₁ hdb₁ hs₁ => ?_
  have hread := readToEOF_reads hz hfree fuel sizes
    { hashes := recipe.chunkHashes, verifyDigest := verify } chunks w₁ hsizes hs₁
    ⟨hrecipe.hashes, rfl, ?_⟩ hrecipe.hashed (by rw [hdb₁]; exact hindexed)
    (by rw [List.nil_append, hcontent]; exact hfuel)
  · rw [List.nil_append, hcontent] at hread
    exact hread
  · intro digest hdigest
    rw [List.nil_append, heq]
    rw [hverify] at hdigest
    split at hdigest
    · cases hdigest
    · exact Option.some.inj hdigest

/-! ## Readers run alone -/

/-- What a reader finds, run alone. -/
def ReadsBack {β : Type} (E : Env D) (p : Proc D β) (w : World D) (value : β) : Prop :=
  ∃ w', runAlone E p w = some (.ok value, w')

/-- Evaluate a reader. -/
def readResult {β : Type} (E : Env D) (p : Proc D β) (w : World D) : Option β :=
  match runAlone E p w with
  | some (.ok value, _) => some value
  | _ => none

theorem readsBack_of_result {β : Type} {p : Proc D β} {value : β}
    (h : readResult E p w = some value) : ReadsBack E p w value := by
  rw [readResult] at h
  split at h
  · rename_i out w' hrun
    cases h
    exact ⟨w', hrun⟩
  · cases h

theorem Reads.back {β : Type} {H : Bytes → Prop} {p : Proc D β} {value : β}
    (h : Reads E H p w value) : ReadsBack E p w value := by
  obtain ⟨r, w', hrun, rfl, -⟩ := wp_iff_run.mp h
  exact ⟨w', hrun⟩

end Gmeow
