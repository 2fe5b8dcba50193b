import Gmeow.Integrity

/-!
# Repacking

`repack` works from what it has seen: the active pack, one scan of the index, one
listing of the directory. It copies the scanned chunks of a pack elsewhere and then
removes the pack. Removing is safe when no index entry points into the pack, now or
once a running `put` commits.

* `repackContract` — what `repack` knows before it repoints an entry or removes a pack;
* `RepackInv` — what holds between its requests, with another caller `kP` storing an
  object at the same time;
* `RepackInv.repack_step`, `RepackInv.put_commit_step` — both keep it, provided each removal
  meets `RemovalOK`: the pack is older than the active pack seen, and whatever the
  other caller appended to it was in the scan.

Nobody else running is the case `kP = {}`.
-/

namespace Gmeow

open Prog

variable {D : Type} [LinearOrder D] {E : Env D} {H : Bytes → Prop} {w w' : World D}
  {k k' k₁ k₂ kR kP : Observed D}

/-! ## What repack does -/

/-- A batch repoints one scanned entry to the place its bytes were copied to. -/
def Relocates (k : Observed D) (writes : List (Write D)) : Prop :=
  ∃ scan entry raw id offset now, k.scan = some scan ∧ entry ∈ scan.map Prod.snd ∧
    (entry.packID, entry.offset, entry.length, raw) ∈ k.raws ∧ (id, offset, raw) ∈ k.appended ∧
    id ∈ k.synced ∧ k.linked = true ∧ entry.chunkHash ∈ k.hits ∧
    writes = [.chunk entry.chunkHash (some { entry with
      packID := id, offset := offset, updatedAt := now })]

/-- Every scanned entry of a listed pack, not the active one, was repointed or is gone. -/
def Emptied (k : Observed D) (id : Nat) : Prop :=
  ∃ scan top ids, k.scan = some scan ∧ k.topPack = some top ∧ k.dir = some ids ∧ id ∈ ids ∧
    id ≠ top ∧ ∀ entry ∈ liveIn scan id,
      entry.chunkHash ∈ k.missed ∨ entry.chunkHash ∈ k.placed.map Prod.fst

/-- The contract of `repack`. -/
def repackContract (E : Env D) : Prog.Contract (Prim D) Resp (Observed D) where
  pre k p :=
    match p with
    | .activePack => k.topPack = none
    | .scanChunks => k.topPack ≠ none ∧ k.missed = [] ∧ k.raws = []
    | .readPackDir => k.topPack ≠ none ∧ (k.dir = none → k.appended = [])
    | .appendToActivePackNoSync _ => k.topPack ≠ none
    | .commit writes => Relocates k writes
    | .removePack id => Emptied k id
    | .cachePut _ _ => False
    | _ => True
  post := (objectContract E none).post
  learn := learn

/-- What `repack` keeps in mind from one request to the next. -/
structure Steady (k k' : Observed D) : Prop where
  scan : k'.scan = k.scan
  topPack : k'.topPack = k.topPack
  dir : k'.dir = k.dir
  missed : ∀ hash ∈ k.missed, hash ∈ k'.missed
  placed : ∀ item ∈ k.placed, item ∈ k'.placed

theorem Steady.refl (k : Observed D) : Steady k k := ⟨rfl, rfl, rfl, fun _ h => h, fun _ h => h⟩

theorem Steady.trans (h : Steady k k₁) (h' : Steady k₁ k₂) : Steady k k₂ :=
  ⟨h'.scan.trans h.scan, h'.topPack.trans h.topPack, h'.dir.trans h.dir,
    fun x hx => h'.missed x (h.missed x hx), fun x hx => h'.placed x (h.placed x hx)⟩

theorem withLock_obeys_repack {α : Type} {l : LockName D} {p : Proc D α}
    {Q : Except String α → Observed D → Prop} (h : p.Obeys (repackContract E) k Q) :
    (withLock l p).Obeys (repackContract E) k Q :=
  ⟨trivial, fun _ _ => obeys_deferring.mpr
    (h.mono fun _ _ hq => ⟨trivial, fun _ _ => hq⟩)⟩

theorem sumPackSizes_obeys :
    ∀ (ids : List Nat) (k : Observed D),
      (sumPackSizes ids).Obeys (repackContract E) k fun _ k' => k' = k := by
  intro ids
  induction ids with
  | nil => intro k; rfl
  | cons id rest ih =>
    intro k
    refine ⟨trivial, fun size _ => ?_⟩
    cases size with
    | none => rfl
    | some size =>
      show (Prog.bind (sumPackSizes rest) _).Obeys _ _ _
      refine obeys_bind.mpr ((ih k).mono ?_)
      rintro (e | total) k' rfl <;> rfl

theorem readPackBytes_obeys (id offset length : Nat) (k : Observed D) :
    (readPackBytes id offset length).Obeys (repackContract E) k fun r k' =>
      Steady k k' ∧ ∀ raw, r = .ok raw → (id, offset, length, raw) ∈ k'.raws := by
  refine ⟨trivial, fun raw _ => ?_⟩
  rcases raw with (_ | _) | raw
  · exact ⟨.refl k, fun _ h => nomatch h⟩
  · exact ⟨.refl k, fun _ h => nomatch h⟩
  · refine ⟨⟨rfl, rfl, rfl, fun _ h => h, fun _ h => h⟩, fun _ heq => ?_⟩
    cases heq
    exact List.mem_cons_self ..

theorem appendToActivePack_obeys_repack (bytes : Bytes) (htop : k.topPack ≠ none) :
    (appendToActivePack bytes).Obeys (repackContract E) k fun r k' =>
      Steady k k' ∧ k'.raws = k.raws ∧ ∀ target, r = .ok target →
        (target.1, target.2, bytes) ∈ k'.appended ∧ target.1 ∈ k'.synced ∧ k'.linked = true := by
  refine ⟨htop, fun target _ => ⟨trivial, fun ok _ => ?_⟩⟩
  cases ok with
  | false =>
    exact ⟨trivial, fun _ _ =>
      ⟨⟨rfl, rfl, rfl, fun _ h => h, fun _ h => h⟩, rfl, fun _ h => nomatch h⟩⟩
  | true =>
    refine ⟨trivial, fun _ _ => ⟨⟨rfl, rfl, rfl, fun _ h => h, fun _ h => h⟩, rfl, ?_⟩⟩
    rintro _ heq
    cases heq
    exact ⟨List.mem_cons_self .., List.mem_cons_self .., rfl⟩

variable {scan : List (D × ChunkIndexEntry D)} {p : Prim D} {r : Resp p} {hash : D}
  {id offset top : Nat} {entry : ChunkIndexEntry D} {raw chunk dict : Bytes}
  {writes : List (Write D)}

/-- Relocating leaves every entry of the list repointed, or found gone. -/
theorem relocateLiveChunks_obeys :
    ∀ (live : List (ChunkIndexEntry D)) (k : Observed D), k.scan = some scan →
      k.topPack ≠ none → (∀ entry ∈ live, entry ∈ scan.map Prod.snd) →
      (relocateLiveChunks live).Obeys (repackContract E) k fun r k' =>
        Steady k k' ∧ ∀ moved, r = .ok moved → ∀ entry ∈ live,
          entry.chunkHash ∈ k'.missed ∨ entry.chunkHash ∈ k'.placed.map Prod.fst := by
  intro live
  induction live with
  | nil => intro k _ _ _; exact ⟨.refl k, fun _ _ _ h => nomatch h⟩
  | cons entry rest ih =>
    intro k hscan htop hlive
    show (Prog.bind (readPackBytes _ _ _) _).Obeys _ _ _
    refine obeys_bind.mpr ((readPackBytes_obeys _ _ _ k).mono ?_)
    rintro (e | raw) k₁ ⟨hsteady₁, hraw⟩
    · exact ⟨hsteady₁, fun _ h => nomatch h⟩
    · show (Prog.bind (withLock .packMu ( appendToActivePack raw)) _).Obeys _ _ _
      refine obeys_bind.mpr ((withLock_obeys_repack
        (appendToActivePack_obeys_repack raw (by rw [hsteady₁.topPack]; exact htop))).mono ?_)
      rintro (e | target) k₂ ⟨hsteady₂, hraws, happend⟩
      · exact ⟨hsteady₁.trans hsteady₂, fun _ h => nomatch h⟩
      · obtain ⟨happended, hsynced, hlinked⟩ := happend _ rfl
        have hsteady := hsteady₁.trans hsteady₂
        refine ⟨trivial, fun found _ => ?_⟩
        -- the rest of the list, with this entry accounted for
        have hrest : ∀ k₃, Steady k k₃ →
            (entry.chunkHash ∈ k₃.missed ∨ entry.chunkHash ∈ k₃.placed.map Prod.fst) →
            ∀ (f : Nat → Nat), (do let moved ← relocateLiveChunks rest; return f moved :
                Proc D Nat).Obeys (repackContract E) k₃ fun r k' =>
              Steady k k' ∧ ∀ moved, r = .ok moved → ∀ other ∈ entry :: rest,
                other.chunkHash ∈ k'.missed ∨ other.chunkHash ∈ k'.placed.map Prod.fst := by
          intro k₃ hsteady₃ hentry f
          refine obeys_bind.mpr ((ih k₃ (hsteady₃.scan.trans hscan)
            (by rw [hsteady₃.topPack]; exact htop)
            fun other h => hlive other (List.mem_cons_of_mem _ h)).mono ?_)
          rintro (e | moved) k₄ ⟨hsteady₄, hmoved⟩
          · exact ⟨hsteady₃.trans hsteady₄, fun _ h => nomatch h⟩
          · refine ⟨hsteady₃.trans hsteady₄, fun _ _ other hother => ?_⟩
            rcases List.mem_cons.mp hother with rfl | hother
            · rcases hentry with h | h
              · exact Or.inl (hsteady₄.missed _ h)
              · obtain ⟨item, hitem, heq⟩ := List.mem_map.mp h
                exact Or.inr (List.mem_map.mpr ⟨item, hsteady₄.placed _ hitem, heq⟩)
            · exact hmoved _ rfl other hother
        cases found with
        | none =>
          have hmissed := hrest (learn k₂ (.getChunk entry.chunkHash) none)
            (hsteady.trans ⟨rfl, rfl, rfl, fun _ h => List.mem_cons_of_mem _ h, fun _ h => h⟩)
            (Or.inl (List.mem_cons_self ..)) id
          have hid : (do let moved ← relocateLiveChunks rest; return id moved : Proc D Nat) =
              relocateLiveChunks rest := by
            generalize relocateLiveChunks rest = p
            induction p with
            | ret a => rfl
            | fail e => rfl
            | call q f ihp => exact congrArg (Prog.call q) (funext ihp)
          rw [hid] at hmissed
          exact hmissed
        | some current =>
          refine ⟨trivial, fun now _ => ⟨?_, fun _ _ => ?_⟩⟩
          · refine ⟨scan, entry, raw, target.1, target.2, now, ?_,
              hlive entry (List.mem_cons_self ..), ?_, happended, hsynced, hlinked,
              List.mem_cons_self .., rfl⟩
            · exact hsteady.scan.trans hscan
            · show _ ∈ k₂.raws
              rw [hraws]
              exact hraw _ rfl
          · refine hrest _ ?_ (Or.inr ?_) (· + 1)
            · exact hsteady.trans ⟨rfl, rfl, rfl, fun _ h => h,
                fun _ h => List.mem_append_right _ h⟩
            · exact List.mem_cons_self ..

/-- Every live chunk of the pack has a new place, or is no longer in the index. -/
theorem relocatePack_obeys (live : List (ChunkIndexEntry D)) (report : RepackReport)
    (k : Observed D) (hscan : k.scan = some scan) (htop : k.topPack ≠ none)
    (hlive : ∀ entry ∈ live, entry ∈ scan.map Prod.snd) :
    (relocatePack live report).Obeys (repackContract E) k fun r k' =>
      Steady k k' ∧ ∀ report', r = .ok report' → ∀ entry ∈ live,
        entry.chunkHash ∈ k'.missed ∨ entry.chunkHash ∈ k'.placed.map Prod.fst := by
  rw [relocatePack]
  split
  · rename_i hempty
    rw [hempty]
    exact ⟨.refl k, fun _ _ _ h => nomatch h⟩
  · refine obeys_bind.mpr ((relocateLiveChunks_obeys live k hscan htop hlive).mono ?_)
    rintro (e | moved) k₁ ⟨hsteady, hmoved⟩
    · exact ⟨hsteady, fun _ h => nomatch h⟩
    · exact ⟨hsteady, fun _ _ => hmoved _ rfl⟩

/-- Pack after pack, never the one that is active: the scan and the directory from the start are
what all of them are judged by. -/
theorem repackPacks_obeys {activeID : Nat} {ids : List Nat} :
    ∀ (rest : List Nat) (report : RepackReport) (k : Observed D), k.scan = some scan →
      k.topPack = some activeID → k.dir = some ids → (∀ id ∈ rest, id ∈ ids) →
      (repackPacks activeID scan report rest).Obeys (repackContract E) k fun _ k' =>
        Steady k k' := by
  intro rest
  induction rest with
  | nil => intro report k _ _ _ _; exact Steady.refl k
  | cons id rest ih =>
    intro report k hscan htop hdir hids
    have hrest : ∀ other ∈ rest, other ∈ ids := fun other h => hids other (List.mem_cons_of_mem _ h)
    rw [repackPacks]
    split
    · exact ih _ k hscan htop hdir hrest
    · rename_i hne
      refine ⟨trivial, fun size _ => ?_⟩
      cases size with
      | none => exact Steady.refl k
      | some size =>
        show ((if liveIn scan id ≠ [] ∧ _ then _ else _ : Proc D _)).Obeys _ _ _
        split
        · exact ih _ k hscan htop hdir hrest
        · have hlive : ∀ entry ∈ liveIn scan id, entry ∈ scan.map Prod.snd :=
            fun entry h => (List.mem_filter.mp h).1
          show (Prog.bind (relocatePack (liveIn scan id) _) _).Obeys _ _ _
          refine obeys_bind.mpr ((relocatePack_obeys _ _ k hscan
            (by rw [htop]; exact Option.some_ne_none _) hlive).mono ?_)
          rintro (e | report) k₁ ⟨hsteady, hmoved⟩
          · exact hsteady
          · refine ⟨⟨scan, activeID, ids, hsteady.scan.trans hscan, hsteady.topPack.trans htop,
              hsteady.dir.trans hdir, hids id (List.mem_cons_self ..), hne, hmoved _ rfl⟩,
              fun _ _ => ?_⟩
            exact (ih _ k₁ (hsteady.scan.trans hscan) (hsteady.topPack.trans htop)
              (hsteady.dir.trans hdir) hrest).mono fun _ _ h => hsteady.trans h

/-- **Repack** repoints only what it has copied, and removes a pack only when every
entry it scanned there is repointed or gone. -/
theorem repack_obeys (hashed : List Bytes) :
    (repack : Proc D RepackReport).Obeys (repackContract E) { hashed := hashed }
      fun _ _ => True := by
  refine withLock_obeys_repack ⟨rfl, fun active _ => ⟨⟨Option.some_ne_none _, rfl, rfl⟩,
    fun scan _ => ⟨⟨Option.some_ne_none _, fun _ => rfl⟩, fun ids _ =>
      ⟨⟨Option.some_ne_none _, fun h => nomatch h⟩, fun again _ => ?_⟩⟩⟩⟩
  show (Prog.bind (sumPackSizes again) _).Obeys _ _ _
  refine obeys_bind.mpr ((sumPackSizes_obeys again _).mono ?_)
  rintro (e | before) k₁ rfl
  · trivial
  · show (Prog.bind (repackPacks active.1 scan _ ids) _).Obeys _ _ _
    refine obeys_bind.mpr ((repackPacks_obeys ids _ _ rfl rfl rfl fun _ h => h).mono ?_)
    rintro (e | report) k₂ hsteady
    · trivial
    · refine ⟨⟨?_, ?_⟩, fun ids _ => ?_⟩
      · rw [hsteady.topPack]; exact Option.some_ne_none _
      · rw [hsteady.dir]; exact fun h => nomatch h
      · show (Prog.bind (sumPackSizes ids) _).Obeys _ _ _
        refine obeys_bind.mpr ((sumPackSizes_obeys ids _).mono ?_)
        rintro (e | after) k₃ - <;> trivial

/-! ## What an answer adds -/

/-- Whether a request teaches `repack` what it decides by. -/
def Prim.plans : Prim D → Bool
  | .activePack => true
  | .scanChunks => true
  | .readPackDir => true
  | .commit _ => true
  | _ => false

theorem learn_plan (k : Observed D) (r : Resp p) (hp : p.plans = false) :
    (learn k p r).scan = k.scan ∧ (learn k p r).topPack = k.topPack ∧
      (learn k p r).dir = k.dir ∧ (learn k p r).placed = k.placed ∧
      (learn k p r).stored = k.stored := by
  cases p with
  | activePack | scanChunks | readPackDir | commit => cases hp
  | getChunk | getRecipe | getManifest | activeDictionary | syncPack | readPack =>
    cases r <;> exact ⟨rfl, rfl, rfl, rfl, rfl⟩
  | _ => exact ⟨rfl, rfl, rfl, rfl, rfl⟩

theorem learn_missed (h : handle E p w = some (r, w')) (hmem : hash ∈ (learn k p r).missed) :
    hash ∈ k.missed ∨ w.db.chunks.get hash = none := by
  cases p with
  | getChunk key =>
    cases h
    cases hget : w.db.chunks.get key with
    | some entry => rw [hget] at hmem; exact Or.inl hmem
    | none =>
      rw [hget] at hmem
      rcases List.mem_cons.mp hmem with rfl | hmem
      · exact Or.inr hget
      · exact Or.inl hmem
  | getRecipe | getManifest | activeDictionary | syncPack | readPack =>
    cases r <;> exact Or.inl hmem
  | _ => exact Or.inl hmem

theorem learn_raws (h : handle E p w = some (r, w')) {length : Nat}
    (hmem : (id, offset, length, raw) ∈ (learn k p r).raws) :
    (id, offset, length, raw) ∈ k.raws ∨ readPackAt w.packs id offset length = .ok raw := by
  cases p with
  | readPack id' offset' length' =>
    cases h
    cases hread : readPackAt w.packs id' offset' length' with
    | error e => rw [hread] at hmem; exact Or.inl hmem
    | ok bytes =>
      rw [hread] at hmem
      rcases List.mem_cons.mp hmem with heq | hmem
      · cases heq
        exact Or.inr hread
      · exact Or.inl hmem
  | getChunk | getRecipe | getManifest | activeDictionary | syncPack =>
    cases r <;> exact Or.inl hmem
  | _ => exact Or.inl hmem

theorem learn_appended (h : handle E p w = some (r, w')) {bytes : Bytes}
    (hmem : (id, offset, bytes) ∈ (learn k p r).appended) :
    (id, offset, bytes) ∈ k.appended ∨ id = (appendTarget w).1 := by
  cases p with
  | appendToActivePackNoSync content =>
    cases h
    rcases List.mem_cons.mp hmem with heq | hmem
    · cases heq
      exact Or.inr rfl
    · exact Or.inl hmem
  | getChunk | getRecipe | getManifest | activeDictionary | syncPack | readPack =>
    cases r <;> exact Or.inl hmem
  | _ => exact Or.inl hmem

/-- A pack that was not there before is the target of an append. -/
theorem handle_newPack (h : handle E p w = some (r, w')) (hid : w'.packs.has id = true) :
    w.packs.has id = true ∨ (id = (appendTarget w).1 ∧ (learn k p r).appended ≠ []) := by
  by_cases hf : p.footprint = .packs
  · cases p with
    | appendToActivePackNoSync bytes =>
      cases h
      by_cases htarget : id = (appendTarget w).1
      · exact Or.inr ⟨htarget, List.cons_ne_nil _ _⟩
      · left
        have hkeep : (appendPack w.packs (appendTarget w).1 bytes).get id = w.packs.get id := by
          rw [appendPack]
          split <;> exact OrdMap.get_set_ne _ _ htarget
        rw [OrdMap.has, ← hkeep]
        exact hid
    | forgetActivePack => cases h; exact Or.inl hid
    | syncPack target =>
      cases h
      left
      cases hget : w.packs.get target with
      | none =>
        have hsame : syncFile w.packs target = w.packs := by rw [syncFile, hget]
        rw [← hsame]
        exact hid
      | some file =>
        have hset : syncFile w.packs target =
            w.packs.set target { file with synced := file.bytes.length } := by rw [syncFile, hget]
        by_cases heq : id = target
        · rw [heq, OrdMap.has, hget]; rfl
        · rw [OrdMap.has, ← OrdMap.get_set_ne w.packs _ heq, ← hset]
          exact hid
    | syncPackDir =>
      cases h
      left
      have hlink : (linkPacks w.packs).has id = true := hid
      rw [OrdMap.has, get_linkPacks, Option.isSome_map] at hlink
      exact hlink
    | removePack target =>
      cases h
      left
      obtain ⟨pack, hpack⟩ := OrdMap.has_iff.mp hid
      have herase : (w.packs.erase target).get id = some pack := hpack
      rw [OrdMap.get_erase] at herase
      split at herase
      · cases herase
      · exact OrdMap.has_iff.mpr ⟨pack, herase⟩
    | _ => cases hf
  · rw [(handle_sameBut h).packs hf] at hid
    exact Or.inl hid

/-! ## The invariant -/

/-- What `repack` can rely on about an entry it scanned: which chunk it is, that the
bytes it read for it are the chunk's, and that the entry's pack still holds them — or
was removed, being older than the active pack. -/
structure Scanned (E : Env D) (H : Bytes → Prop) (w : World D) (kR : Observed D) (hash : D)
    (entry : ChunkIndexEntry D) (chunk dict : Bytes) : Prop where
  hashed : H chunk
  hash_eq : E.blake3Hex chunk = hash
  chunkHash : entry.chunkHash = hash
  chosen : dictionaryBytes w.dicts entry.dictID = some dict
  readable : dict ≠ [] → parseUint32 entry.dictID ≠ none
  indexed : w.db.chunks.has hash = true
  raws : ∀ raw, (entry.packID, entry.offset, entry.length, raw) ∈ kR.raws →
    raw = E.zstdEncode dict chunk ∧ raw.length = entry.length
  pack : (∃ pack, w.packs.get entry.packID = some pack ∧
      entry.offset + entry.length ≤ pack.bytes.length ∧
      slice pack.bytes entry.offset entry.length = E.zstdEncode dict chunk) ∨
    (w.packs.get entry.packID = none ∧ ∀ top, kR.topPack = some top → entry.packID < top)

/-- What holds between the requests of `repack`, which knows `kR`, and of a caller
storing an object, which knows `kP`. -/
structure RepackInv (E : Env D) (H : Bytes → Prop) (w : World D) (kR kP : Observed D) : Prop where
  packs : PacksOK w
  dicts : DictionariesOK w.dicts
  chunks : ∀ hash entry, w.db.chunks.get hash = some entry →
    ∃ chunk dict, Stored E H w hash entry chunk dict
  evidence : Evidence w kR
  /-- the active pack comes first -/
  noTop : kR.topPack = none →
    kR.appended = [] ∧ kR.scan = none ∧ kR.dir = none ∧ kR.placed = []
  /-- the active pack seen is still there, and copies go to it or after it -/
  top : ∀ top, kR.topPack = some top → (top = 0 ∨ w.packs.has top = true) ∧
    ∀ id offset bytes, (id, offset, bytes) ∈ kR.appended → top ≤ id
  scanned : ∀ scan, kR.scan = some scan → ∀ hash entry, (hash, entry) ∈ scan →
    ∃ chunk dict, Scanned E H w kR hash entry chunk dict
  /-- an entry was scanned, or points past the active pack, or is new -/
  covered : ∀ scan top, kR.scan = some scan → kR.topPack = some top → ∀ hash entry,
    w.db.chunks.get hash = some entry → (hash, entry) ∈ scan ∨ top ≤ entry.packID ∨
      (hash ∈ kP.missed ∧ (∀ other, (hash, other) ∉ scan) ∧
        ∃ offset bytes, (entry.packID, offset, bytes) ∈ kP.appended)
  /-- what was repointed points past the active pack -/
  moved : ∀ top, kR.topPack = some top → ∀ hash ∈ kR.placed.map Prod.fst,
    ∃ entry, w.db.chunks.get hash = some entry ∧ top ≤ entry.packID
  notMissed : ∀ scan, kR.scan = some scan → ∀ hash ∈ kR.missed, ∀ entry, (hash, entry) ∉ scan
  /-- while nobody else appends, the listing goes no further than the active pack -/
  listed : kP.appended = [] → ∀ top ids, kR.topPack = some top → kR.dir = some ids →
    ∀ id ∈ ids, id ≤ top
  existing : kP.appended = [] → kR.appended = [] → ∀ top, kR.topPack = some top →
    ∀ id, w.packs.has id = true → id ≤ top
  /-- until it commits, the other caller's appends stand and its chunks are new -/
  putEvidence : kP.stored = [] → Evidence w kP
  putMissed : kP.stored = [] → ∀ hash ∈ kP.missed, w.db.chunks.get hash = none
  putAppended : kP.appended ≠ [] → kP.missed ≠ []

/-- When `repack` may remove a pack: it is older than the active pack seen, and if the
other caller appended to it, the chunks that caller had to append were in the scan. -/
def RemovalOK (kR kP : Observed D) : Prim D → Prop
  | .removePack id =>
    (∀ top ∈ kR.topPack, id < top) ∧
      (id ∈ kP.appended.map Prod.fst → ∀ hash ∈ kP.missed, ∀ scan ∈ kR.scan,
        hash ∈ scan.map Prod.fst)
  | _ => True

instance (kR kP : Observed D) (p : Prim D) : Decidable (RemovalOK kR kP p) := by
  cases p with
  | removePack id =>
    exact decidable_of_iff ((∀ top ∈ kR.topPack, id < top) ∧
      (id ∈ kP.appended.map Prod.fst → ∀ hash ∈ kP.missed, ∀ scan ∈ kR.scan,
        (scan.map Prod.fst).contains hash = true)) (by simp [RemovalOK])
  | _ => exact .isTrue trivial

/-- Before `repack` has started, a sound store is all it needs. -/
theorem RepackInv.start (hs : Sound E H w) {hashed : List Bytes} :
    RepackInv E H w { hashed := hashed } {} where
  packs := hs.packs
  dicts := hs.dicts
  chunks := hs.chunks
  evidence := .empty
  noTop _ := ⟨rfl, rfl, rfl, rfl⟩
  top _ h := nomatch h
  scanned _ h := nomatch h
  covered _ _ h := nomatch h
  moved _ h := nomatch h
  notMissed _ h := nomatch h
  listed _ _ _ h := nomatch h
  existing _ _ _ h := nomatch h
  putEvidence _ := .empty
  putMissed _ _ h := nomatch h
  putAppended h := absurd rfl h

/-- With nobody else appending, a removal `repack` is entitled to is in order. -/
theorem RepackInv.removalOK (hi : RepackInv E H w kR {}) (hpre : (repackContract E).pre kR p) :
    RemovalOK kR {} p := by
  cases p with
  | removePack id =>
    obtain ⟨scan, top, ids, -, htop, hdir, hid, hne, -⟩ := hpre
    refine ⟨fun top' htop' => ?_, (fun h => nomatch h)⟩
    rw [Option.mem_def, htop] at htop'
    cases htop'
    exact lt_of_le_of_ne (hi.listed rfl top ids htop hdir id hid) hne
  | _ => trivial

/-- The target of an append is not below the active pack seen. -/
theorem RepackInv.le_target (hi : RepackInv E H w kR kP) (htop : kR.topPack = some top) :
    top ≤ (appendTarget w).1 := by
  rcases (hi.top top htop).1 with rfl | hhas
  · exact Nat.zero_le _
  · obtain ⟨pack, hpack⟩ := OrdMap.has_iff.mp hhas
    exact (appendTarget_spec hi.packs).2 top pack hpack

/-- The index is scanned only once the active pack is known. -/
theorem RepackInv.exists_top (hi : RepackInv E H w kR kP) (hscan : kR.scan ≠ none) :
    ∃ top, kR.topPack = some top := by
  cases htop : kR.topPack with
  | none => exact absurd (hi.noTop htop).2.1 hscan
  | some top => exact ⟨top, rfl⟩

/-- What was scanned is still in the index. -/
theorem RepackInv.scanned_get (hi : RepackInv E H w kR kP) (hscan : kR.scan = some scan)
    (hmem : (hash, entry) ∈ scan) : w.db.chunks.get hash ≠ none := by
  intro hnone
  obtain ⟨chunk, dict, hs⟩ := hi.scanned scan hscan hash entry hmem
  have hindexed := hs.indexed
  rw [OrdMap.has, hnone] at hindexed
  cases hindexed

/-- While packs and dictionaries grow, what is stored stays so. -/
theorem RepackInv.chunks_grow (hi : RepackInv E H w kR kP) (hdb : w'.db = w.db)
    (hok : PacksOK w') (hgrow : PacksGrow w.packs w'.packs) (hfiles : FilesKept w.dicts w'.dicts)
    (hash : D) (entry : ChunkIndexEntry D) (hget : w'.db.chunks.get hash = some entry) :
    ∃ chunk dict, Stored E H w' hash entry chunk dict := by
  rw [hdb] at hget
  obtain ⟨chunk, dict, hstored⟩ := hi.chunks hash entry hget
  exact ⟨chunk, dict, hstored.mono (fun _ h => h) hok hgrow hfiles⟩

/-- While packs grow, the active pack seen stays where it was. -/
theorem RepackInv.top_grow (hi : RepackInv E H w kR kP) (hgrow : PacksGrow w.packs w'.packs)
    (htop : kR.topPack = some top) : top = 0 ∨ w'.packs.has top = true := by
  refine (hi.top top htop).1.imp_right fun hhas => ?_
  obtain ⟨pack, hpack⟩ := OrdMap.has_iff.mp hhas
  obtain ⟨pack', hpack', -⟩ := hgrow top pack hpack
  exact OrdMap.has_iff.mpr ⟨pack', hpack'⟩

/-- What has been appended so far was not appended before. -/
theorem Grows.appended_eq_nil {k k' : Observed D} (h : Grows k k') (hnil : k'.appended = []) :
    k.appended = [] := by
  refine List.eq_nil_iff_forall_not_mem.mpr fun item hitem => ?_
  have hlater := h.appended item hitem
  rw [hnil] at hlater
  cases hlater

/-- A scanned entry stays as it is while packs and dictionaries grow. -/
theorem Scanned.grow (hi : RepackInv E H w kR kP) {kR' : Observed D}
    (hs : Scanned E H w kR hash entry chunk dict) (hscan : kR.scan ≠ none)
    (hdb : w'.db.chunks.has hash = true) (hgrow : PacksGrow w.packs w'.packs)
    (hfiles : FilesKept w.dicts w'.dicts)
    (hnew : ∀ id, w'.packs.has id = true → w.packs.has id = true ∨ id = (appendTarget w).1)
    (htop : kR'.topPack = kR.topPack)
    (hraws : ∀ id offset length raw, (id, offset, length, raw) ∈ kR'.raws →
      (id, offset, length, raw) ∈ kR.raws ∨ readPackAt w.packs id offset length = .ok raw) :
    Scanned E H w' kR' hash entry chunk dict := by
  refine { hs with chosen := hfiles.bytes hs.chosen, indexed := hdb, raws := ?_, pack := ?_ }
  · intro raw hmem
    rcases hraws _ _ _ _ hmem with hmem | hread
    · exact hs.raws raw hmem
    · rw [readPackAt] at hread
      rcases hs.pack with ⟨pack, hpack, hle, hslice⟩ | ⟨hnone, -⟩
      · rw [hpack] at hread
        dsimp only at hread
        rw [if_pos hle] at hread
        have hraw : slice pack.bytes entry.offset entry.length = raw := Except.ok.inj hread
        refine ⟨hraw.symm.trans hslice, ?_⟩
        rw [← hraw, slice, List.length_take, List.length_drop]
        omega
      · rw [hnone] at hread
        cases hread
  · rcases hs.pack with ⟨pack, hpack, hle, hslice⟩ | ⟨hnone, hlt⟩
    · obtain ⟨pack', hpack', hfront, -, -⟩ := hgrow _ _ hpack
      have hlength := hfront.length_le
      exact Or.inl ⟨pack', hpack', by omega, by rw [slice_extended hfront hle]; exact hslice⟩
    · right
      rw [htop]
      refine ⟨?_, hlt⟩
      cases hget : w'.packs.get entry.packID with
      | none => rfl
      | some pack =>
        -- a pack that was removed is not created again: appends go past it
        exfalso
        rcases hnew _ (OrdMap.has_iff.mpr ⟨pack, hget⟩) with hold | htarget
        · rw [OrdMap.has, hnone] at hold
          cases hold
        · obtain ⟨top, htop'⟩ := hi.exists_top hscan
          have := hlt top htop'
          have := hi.le_target htop'
          omega

/-! ## One request of repack -/

/-- A request that decides nothing and removes nothing. -/
theorem RepackInv.quiet_step (hi : RepackInv E H w kR kP) (hplans : p.plans = false)
    (hrm : p.isRemoval = false) (hpre : (repackContract E).pre kR p)
    (h : handle E p w = some (r, w')) : RepackInv E H w' (learn kR p r) kP := by
  have hdbf : p.footprint ≠ .db := by
    intro hf
    cases p with
    | commit writes => cases hplans
    | _ => cases hf
  have hdb := (handle_sameBut h).db hdbf
  obtain ⟨hgrow, hok'⟩ := handle_packsGrow hi.packs hrm h
  obtain ⟨hfiles, hdicts'⟩ := handle_dicts hi.dicts h
  obtain ⟨hscan, htop, hdir, hplaced, -⟩ := learn_plan kR r hplans
  refine ⟨hok', hdicts', hi.chunks_grow hdb hok' hgrow hfiles,
    hi.evidence.learn hi.packs hi.dicts hrm h, ?_, ?_, ?_, ?_, ?_, ?_, ?_, ?_, ?_, ?_,
    hi.putAppended⟩
  · -- appends come after the active pack is known
    rw [hscan, htop, hdir, hplaced]
    intro hnone
    obtain ⟨happended, hrest⟩ := hi.noTop hnone
    refine ⟨?_, hrest⟩
    by_cases hf : p.footprint = .packs
    · cases p with
      | appendToActivePackNoSync bytes => exact absurd hnone hpre
      | syncPack id => cases r <;> exact happended
      | removePack id => cases hrm
      | forgetActivePack => exact happended
      | syncPackDir => exact happended
      | _ => cases hf
    · rw [(learn_packs kR r hf).1]
      exact happended
  · intro top htop'
    rw [htop] at htop'
    refine ⟨hi.top_grow hgrow htop', fun id offset bytes hmem => ?_⟩
    rcases learn_appended h hmem with hmem | rfl
    · exact (hi.top top htop').2 id offset bytes hmem
    · exact hi.le_target htop'
  · rw [hscan]
    intro scan hscan' hash entry hmem
    obtain ⟨chunk, dict, hs⟩ := hi.scanned scan hscan' hash entry hmem
    refine ⟨chunk, dict, hs.grow hi (by rw [hscan']; exact Option.some_ne_none _)
      (by rw [hdb]; exact hs.indexed) hgrow hfiles ?_ htop fun _ _ _ _ hraw => learn_raws h hraw⟩
    intro id hid
    rcases handle_newPack (k := kR) h hid with hid | ⟨hid, -⟩
    · exact Or.inl hid
    · exact Or.inr hid
  · rw [hscan, htop, hdb]; exact hi.covered
  · rw [htop, hplaced, hdb]; exact hi.moved
  · rw [hscan]
    intro scan hscan' hash hmem entry hentry
    rcases learn_missed h hmem with hmem | hnone
    · exact hi.notMissed scan hscan' hash hmem entry hentry
    · exact hi.scanned_get hscan' hentry hnone
  · rw [htop, hdir]; exact hi.listed
  · rw [htop]
    intro hput happended top htop' id hid
    rcases handle_newPack (k := kR) h hid with hid | ⟨-, hne⟩
    · exact hi.existing hput ((grows_learn kR p r).appended_eq_nil happended) top htop' id hid
    · exact absurd happended hne
  · exact fun hstored => (hi.putEvidence hstored).mono hgrow hfiles
  · rw [hdb]; exact hi.putMissed

/-- Looking up the active pack. -/
theorem RepackInv.activePack_step (hi : RepackInv E H w kR kP) (hnone : kR.topPack = none) :
    RepackInv E H w (learn kR .activePack (highestPack w.packs)) kP := by
  obtain ⟨happended, hscan, hdir, hplaced⟩ := hi.noTop hnone
  refine ⟨hi.packs, hi.dicts, hi.chunks, ⟨hi.evidence.appended, hi.evidence.dicts⟩,
    fun h => (nomatch h), ?_, ?_, ?_, ?_, ?_, ?_, ?_, hi.putEvidence, hi.putMissed,
    hi.putAppended⟩
  · intro top htop
    cases htop
    refine ⟨?_, fun id offset bytes hmem => ?_⟩
    · rcases highestPack_spec w.packs with ⟨-, heq⟩ | ⟨pack, hpack, -⟩
      · exact Or.inl (by rw [heq])
      · exact Or.inr (OrdMap.has_iff.mpr ⟨pack, hpack⟩)
    · have hmem' : (id, offset, bytes) ∈ kR.appended := hmem
      rw [happended] at hmem'
      cases hmem'
  · exact fun scan hscan' => absurd (hscan'.symm.trans hscan) (Option.some_ne_none _)
  · exact fun scan top hscan' => absurd (hscan'.symm.trans hscan) (Option.some_ne_none _)
  · intro top _ hash (hmem : hash ∈ kR.placed.map Prod.fst)
    rw [hplaced] at hmem
    cases hmem
  · exact fun scan hscan' => absurd (hscan'.symm.trans hscan) (Option.some_ne_none _)
  · exact fun _ top ids _ hdir' => absurd (hdir'.symm.trans hdir) (Option.some_ne_none _)
  · intro _ _ top htop id hid
    cases htop
    obtain ⟨pack, hpack⟩ := OrdMap.has_iff.mp hid
    exact le_highestPack hpack

/-- Scanning the index. -/
theorem RepackInv.scan_step (hi : RepackInv E H w kR kP) (htop : kR.topPack ≠ none)
    (hmissed : kR.missed = []) (hraws : kR.raws = []) :
    RepackInv E H w (learn kR .scanChunks w.db.chunks.entries) kP := by
  refine ⟨hi.packs, hi.dicts, hi.chunks, ⟨hi.evidence.appended, hi.evidence.dicts⟩,
    fun h => absurd h htop, hi.top, ?_, ?_, hi.moved, ?_, hi.listed, hi.existing, hi.putEvidence,
    hi.putMissed, hi.putAppended⟩
  · intro scan heq hash entry hmem
    cases heq
    obtain ⟨chunk, dict, hs⟩ := hi.chunks hash entry (OrdMap.mem_entries_iff.mp hmem)
    obtain ⟨pack, hpack, -, hle, hsynced, hslice⟩ := hs.pack
    refine ⟨chunk, dict, hs.hashed, hs.hash_eq, hs.chunkHash, hs.chosen, hs.readable,
      OrdMap.has_iff.mpr ⟨entry, OrdMap.mem_entries_iff.mp hmem⟩, ?_,
      Or.inl ⟨pack, hpack, by omega, hslice⟩⟩
    intro raw hraw
    have hraw' : (entry.packID, entry.offset, entry.length, raw) ∈ kR.raws := hraw
    rw [hraws] at hraw'
    cases hraw'
  · intro scan top heq _ hash entry hget
    cases heq
    exact Or.inl (OrdMap.mem_entries_iff.mpr hget)
  · intro scan _ hash hmem
    have hmem' : hash ∈ kR.missed := hmem
    rw [hmissed] at hmem'
    cases hmem'

/-- Listing the directory. -/
theorem RepackInv.readPackDir_step (hi : RepackInv E H w kR kP) (htop : kR.topPack ≠ none)
    (hdir : kR.dir = none → kR.appended = []) :
    RepackInv E H w (learn kR .readPackDir (w.packs.entries.map Prod.fst)) kP := by
  refine ⟨hi.packs, hi.dicts, hi.chunks, ⟨hi.evidence.appended, hi.evidence.dicts⟩,
    fun h => absurd h htop, hi.top, ?_, hi.covered, hi.moved, hi.notMissed, ?_, hi.existing,
    hi.putEvidence, hi.putMissed, hi.putAppended⟩
  · intro scan hscan hash entry hmem
    obtain ⟨chunk, dict, hs⟩ := hi.scanned scan hscan hash entry hmem
    exact ⟨chunk, dict, { hs with raws := hs.raws, pack := hs.pack }⟩
  · intro hput top ids htop' hids id hid
    cases hdir' : kR.dir with
    | none =>
      have heq : ids = w.packs.entries.map Prod.fst := by
        have : (some (kR.dir.getD (w.packs.entries.map Prod.fst)) : Option (List Nat)) = some ids :=
          hids
        rw [hdir'] at this
        exact (Option.some.inj this).symm
      rw [heq] at hid
      obtain ⟨item, hitem, rfl⟩ := List.mem_map.mp hid
      exact hi.existing hput (hdir hdir') top htop' item.1
        (OrdMap.has_iff.mpr ⟨item.2, OrdMap.mem_entries_iff.mp hitem⟩)
    | some old =>
      have heq : old = ids := by
        have : (some (kR.dir.getD (w.packs.entries.map Prod.fst)) : Option (List Nat)) = some ids :=
          hids
        rw [hdir'] at this
        exact Option.some.inj this
      rw [← heq] at hid
      exact hi.listed hput top old htop' hdir' id hid

theorem get_applyAll_single {db : Meta D} {key : D} :
    (db.applyAll [.chunk hash (some entry)]).chunks.get key =
      if key = hash then some entry else db.chunks.get key :=
  OrdMap.get_set db.chunks hash key entry

/-- A copy is stored under the new place: the bytes copied are the chunk's. -/
theorem RepackInv.stored_moved (hi : RepackInv E H w kR kP)
    (hs : Scanned E H w kR hash entry chunk dict)
    (hraw : (entry.packID, entry.offset, entry.length, raw) ∈ kR.raws)
    (happended : (id, offset, raw) ∈ kR.appended) (hsynced : id ∈ kR.synced)
    (hlinked : kR.linked = true) (now : Time) :
    Stored E H w hash { entry with packID := id, offset := offset, updatedAt := now } chunk
      dict := by
  obtain ⟨hbytes, hlength⟩ := hs.raws raw hraw
  obtain ⟨pack, hpack, hfits, hslice, hsync, hlink⟩ := hi.evidence.appended _ _ _ happended
  refine ⟨hs.hashed, hs.hash_eq, hs.chunkHash, hs.chosen, hs.readable, pack, hpack,
    hlink hlinked, ?_, hi.packs.synced _ _ hpack, ?_⟩
  · have := hsync hsynced
    dsimp only
    omega
  · dsimp only
    rw [← hlength, hslice, hbytes]

/-- Repointing an entry. -/
theorem RepackInv.commit_step (hi : RepackInv E H w kR kP) (hpre : Relocates kR writes) :
    RepackInv E H { w with db := w.db.applyAll writes } (learn kR (.commit writes) ()) kP := by
  obtain ⟨scan, entry, raw, id, offset, now, hscan, hmem, hraw, happended, hsynced, hlinked, -,
    rfl⟩ := hpre
  obtain ⟨⟨hash, entry⟩, hitem, rfl⟩ := List.mem_map.mp hmem
  dsimp only at hraw ⊢
  obtain ⟨chunk, dict, hs⟩ := hi.scanned scan hscan hash entry hitem
  obtain ⟨htop, htopEq⟩ := hi.exists_top (by rw [hscan]; exact Option.some_ne_none _)
  have hstored := hi.stored_moved hs hraw happended hsynced hlinked now
  have hle : htop ≤ id := (hi.top htop htopEq).2 id offset raw happended
  generalize hmoved : ({ entry with packID := id, offset := offset, updatedAt := now } :
    ChunkIndexEntry D) = moved at hstored ⊢
  rw [hs.chunkHash]
  have hle : htop ≤ moved.packID := hmoved ▸ hle
  have hok : PacksOK { w with db := w.db.applyAll [.chunk hash (some moved)] } :=
    ⟨hi.packs.synced, hi.packs.active⟩
  have hkeep : ∀ key, w.db.chunks.has key = true →
      (w.db.applyAll [.chunk hash (some moved)]).chunks.has key = true := by
    intro key hkey
    rw [OrdMap.has, get_applyAll_single]
    split
    · rfl
    · exact hkey
  refine ⟨hok, hi.dicts, ?_, ⟨hi.evidence.appended, hi.evidence.dicts⟩, ?_, hi.top, ?_, ?_, ?_,
    hi.notMissed, hi.listed, hi.existing, ?_, ?_, hi.putAppended⟩
  · intro key found hget
    have hget' : (w.db.applyAll [.chunk hash (some moved)]).chunks.get key = some found := hget
    rw [get_applyAll_single] at hget'
    split at hget'
    · rename_i hkey
      cases hget'
      rw [hkey]
      exact ⟨chunk, dict, hstored.mono (fun _ h => h) hok (.refl _) fun _ _ h => h⟩
    · obtain ⟨chunk', dict', hstored⟩ := hi.chunks key found hget'
      exact ⟨chunk', dict', hstored.mono (fun _ h => h) hok (.refl _) fun _ _ h => h⟩
  · intro hnone
    rw [show (learn kR (.commit _) ()).topPack = kR.topPack from rfl, htopEq] at hnone
    cases hnone
  · intro scan' hscan' key found hmem'
    obtain ⟨chunk', dict', hs'⟩ := hi.scanned scan' hscan' key found hmem'
    exact ⟨chunk', dict', { hs' with
      indexed := hkeep key hs'.indexed, raws := hs'.raws, pack := hs'.pack }⟩
  · intro scan' top' hscan' htop' key found hget
    have hget' : (w.db.applyAll [.chunk hash (some moved)]).chunks.get key = some found := hget
    rw [get_applyAll_single] at hget'
    split at hget'
    · cases hget'
      rw [show (learn kR (.commit _) ()).topPack = kR.topPack from rfl, htopEq] at htop'
      cases htop'
      exact Or.inr (Or.inl hle)
    · exact hi.covered scan' top' hscan' htop' key found hget'
  · intro top' htop' key hkey
    rw [show (learn kR (.commit _) ()).topPack = kR.topPack from rfl, htopEq] at htop'
    cases htop'
    show ∃ found, (w.db.applyAll [.chunk hash (some moved)]).chunks.get key = some found ∧ _
    rw [get_applyAll_single]
    by_cases heq : key = hash
    · exact ⟨moved, if_pos heq, hle⟩
    · rw [if_neg heq]
      refine hi.moved htop htopEq key ?_
      obtain ⟨item, hitem', rfl⟩ := List.mem_map.mp hkey
      rcases List.mem_append.mp hitem' with hnew | hold
      · have := mem_entriesPlaced.mp hnew
        simp only [List.mem_singleton, Write.chunk.injEq] at this
        exact absurd this.1 heq
      · exact List.mem_map.mpr ⟨item, hold, rfl⟩
  · intro hstored
    exact ⟨(hi.putEvidence hstored).appended, (hi.putEvidence hstored).dicts⟩
  · intro hstored key hkey
    have hnone := hi.putMissed hstored key hkey
    show (w.db.applyAll [.chunk hash (some moved)]).chunks.get key = none
    rw [get_applyAll_single, if_neg]
    · exact hnone
    · rintro rfl
      exact hi.scanned_get hscan hitem hnone

/-- No index entry points into a pack that may be removed. -/
theorem RepackInv.unreferenced (hi : RepackInv E H w kR kP) (hpre : Emptied kR id)
    (hremoval : RemovalOK kR kP (.removePack id)) (hget : w.db.chunks.get hash = some entry) :
    entry.packID ≠ id := by
  intro hid
  obtain ⟨scan, top, ids, hscan, htop, -, -, -, hlive⟩ := hpre
  obtain ⟨hlt, hput⟩ := hremoval
  have hlt := hlt top htop
  rcases hi.covered scan top hscan htop hash entry hget with hmem | hle | ⟨hmissed, hnew, happended⟩
  · -- scanned: repointed since, unless it was found gone, which a scanned entry is not
    obtain ⟨chunk, dict, hs⟩ := hi.scanned scan hscan hash entry hmem
    have hin : entry ∈ liveIn scan id :=
      List.mem_filter.mpr ⟨List.mem_map.mpr ⟨_, hmem, rfl⟩, decide_eq_true hid⟩
    rcases hlive entry hin with hgone | hplaced
    · rw [hs.chunkHash] at hgone
      exact hi.notMissed scan hscan hash hgone entry hmem
    · rw [hs.chunkHash] at hplaced
      obtain ⟨found, hfound, hle⟩ := hi.moved top htop hash hplaced
      rw [hget] at hfound
      cases hfound
      omega
  · omega
  · -- new: its writer appended to the pack without having been scanned
    obtain ⟨offset, bytes, happended⟩ := happended
    rw [hid] at happended
    obtain ⟨⟨_, other⟩, hother, rfl⟩ := List.mem_map.mp
      (hput (List.mem_map.mpr ⟨_, happended, rfl⟩) hash hmissed scan hscan)
    exact hnew other hother

/-- Removing a pack. -/
theorem RepackInv.remove_step (hi : RepackInv E H w kR kP) (hpre : Emptied kR id)
    (hremoval : RemovalOK kR kP (.removePack id)) :
    RepackInv E H { w with packs := w.packs.erase id } kR kP := by
  have hunref : ∀ {hash entry}, w.db.chunks.get hash = some entry → entry.packID ≠ id :=
    hi.unreferenced hpre hremoval
  obtain ⟨scan, top, ids, hscan, htop, hdir, -, -, -⟩ := hpre
  obtain ⟨hlt, hput⟩ := hremoval
  have hlt := hlt top htop
  have hhas : w.packs.has top = true := by
    rcases (hi.top top htop).1 with rfl | hhas
    · exact absurd hlt (Nat.not_lt_zero _)
    · exact hhas
  have hget : ∀ other, other ≠ id → (w.packs.erase id).get other = w.packs.get other :=
    fun other hne => OrdMap.get_erase_ne _ hne
  have hsome : ∀ other pack, (w.packs.erase id).get other = some pack →
      w.packs.get other = some pack := by
    intro other pack hpack
    rw [OrdMap.get_erase] at hpack
    split at hpack
    · cases hpack
    · exact hpack
  have hok : PacksOK { w with packs := w.packs.erase id } := by
    refine ⟨fun other pack hpack => hi.packs.synced other pack (hsome other pack hpack), ?_⟩
    intro active size hactive
    obtain ⟨⟨pack, hpack, hlength⟩, hmax⟩ := hi.packs.active active size hactive
    obtain ⟨topPack, htopPack⟩ := OrdMap.has_iff.mp hhas
    have hle := hmax top topPack htopPack
    exact ⟨⟨pack, (hget active (by omega)).trans hpack, hlength⟩,
      fun other file hfile => hmax other file (hsome other file hfile)⟩
  refine ⟨hok, hi.dicts, ?_, ?_, hi.noTop, ?_, ?_, hi.covered, hi.moved, hi.notMissed, hi.listed,
    ?_, ?_, hi.putMissed, hi.putAppended⟩
  · intro hash entry hentry
    obtain ⟨chunk, dict, hs⟩ := hi.chunks hash entry hentry
    obtain ⟨pack, hpack, hrest⟩ := hs.pack
    exact ⟨chunk, dict, { hs with
      chosen := hs.chosen
      pack := ⟨pack, (hget _ (hunref hentry)).trans hpack, hrest⟩ }⟩
  · refine ⟨fun other offset bytes hmem => ?_, hi.evidence.dicts⟩
    obtain ⟨pack, hpack, hrest⟩ := hi.evidence.appended other offset bytes hmem
    have := (hi.top top htop).2 other offset bytes hmem
    exact ⟨pack, (hget other (by omega)).trans hpack, hrest⟩
  · intro top' htop'
    obtain ⟨-, hle⟩ := hi.top top' htop'
    rw [htop] at htop'
    cases htop'
    refine ⟨Or.inr ?_, hle⟩
    show (w.packs.erase id).has top = true
    rw [OrdMap.has, hget top (by omega)]
    exact hhas
  · intro scan' hscan' hash entry hmem
    obtain ⟨chunk, dict, hs⟩ := hi.scanned scan' hscan' hash entry hmem
    refine ⟨chunk, dict, { hs with chosen := hs.chosen, indexed := hs.indexed, pack := ?_ }⟩
    by_cases hid : entry.packID = id
    · refine Or.inr ⟨?_, fun top' htop' => ?_⟩
      · rw [hid]
        exact OrdMap.get_erase_self ..
      · rw [htop] at htop'
        cases htop'
        omega
    · rcases hs.pack with ⟨pack, hpack, hrest⟩ | ⟨hnone, hbelow⟩
      · exact Or.inl ⟨pack, (hget _ hid).trans hpack, hrest⟩
      · exact Or.inr ⟨(hget _ hid).trans hnone, hbelow⟩
  · intro hp hr top' htop' other hother
    obtain ⟨pack, hpack⟩ := OrdMap.has_iff.mp hother
    exact hi.existing hp hr top' htop' other (OrdMap.has_iff.mpr ⟨pack, hsome other pack hpack⟩)
  · -- the other caller appended nothing to this pack that it has still to commit
    intro hstored
    have he := hi.putEvidence hstored
    refine ⟨fun other offset bytes hmem => ?_, he.dicts⟩
    obtain ⟨pack, hpack, hrest⟩ := he.appended other offset bytes hmem
    refine ⟨pack, (hget other ?_).trans hpack, hrest⟩
    rintro rfl
    obtain ⟨hash, hmissed⟩ := List.exists_mem_of_ne_nil _
      (hi.putAppended (List.ne_nil_of_mem hmem))
    obtain ⟨⟨key, entry⟩, hentry, hkey⟩ := List.mem_map.mp
      (hput (List.mem_map.mpr ⟨_, hmem, rfl⟩) hash hmissed scan hscan)
    rw [show key = hash from hkey] at hentry
    exact hi.scanned_get hscan hentry (hi.putMissed hstored hash hmissed)

/-- **One request of repack** keeps the invariant, given `RemovalOK`. -/
theorem RepackInv.repack_step (hi : RepackInv E H w kR kP) (hpre : (repackContract E).pre kR p)
    (hremoval : RemovalOK kR kP p) (h : handle E p w = some (r, w')) :
    RepackInv E H w' (learn kR p r) kP := by
  by_cases hrm : p.isRemoval = true
  · cases p with
    | removePack id => cases h; exact hi.remove_step hpre hremoval
    | _ => cases hrm
  · by_cases hplans : p.plans = true
    · cases p with
      | activePack => cases h; exact hi.activePack_step hpre
      | scanChunks => cases h; exact hi.scan_step hpre.1 hpre.2.1 hpre.2.2
      | readPackDir => cases h; exact hi.readPackDir_step hpre.1 hpre.2
      | commit writes => cases h; exact hi.commit_step hpre
      | _ => cases hplans
    · exact hi.quiet_step (Bool.not_eq_true _ ▸ hplans) (Bool.not_eq_true _ ▸ hrm) hpre h

/-! ## One request of a caller storing an object -/

/-- A request of the other caller that commits nothing. -/
theorem RepackInv.put_quiet_step (hi : RepackInv E H w kR kP) (hdbf : p.footprint ≠ .db)
    (hrm : p.isRemoval = false) (hpre : (objectContract E none).pre kP p)
    (h : handle E p w = some (r, w')) : RepackInv E H w' kR (learn kP p r) := by
  have hdb := (handle_sameBut h).db hdbf
  obtain ⟨hgrow, hok'⟩ := handle_packsGrow hi.packs hrm h
  obtain ⟨hfiles, hdicts'⟩ := handle_dicts hi.dicts h
  have hgrows := grows_learn kP p r
  have hstored := learn_stored kP r hdbf
  refine ⟨hok', hdicts', hi.chunks_grow hdb hok' hgrow hfiles, hi.evidence.mono hgrow hfiles,
    hi.noTop, fun top htop => ⟨hi.top_grow hgrow htop, (hi.top top htop).2⟩, ?_, ?_, ?_,
    hi.notMissed, fun hnil => hi.listed (hgrows.appended_eq_nil hnil), ?_, ?_, ?_, ?_⟩
  · intro scan hscan hash entry hmem
    obtain ⟨chunk, dict, hs⟩ := hi.scanned scan hscan hash entry hmem
    refine ⟨chunk, dict, hs.grow hi (by rw [hscan]; exact Option.some_ne_none _)
      (by rw [hdb]; exact hs.indexed) hgrow hfiles ?_ rfl fun _ _ _ _ hraw => Or.inl hraw⟩
    intro id hid
    rcases handle_newPack (k := kP) h hid with hid | ⟨hid, -⟩
    · exact Or.inl hid
    · exact Or.inr hid
  · rw [hdb]
    intro scan top hscan htop hash entry hget
    rcases hi.covered scan top hscan htop hash entry hget with
      hmem | hle | ⟨hmissed, hnew, offset, bytes, happended⟩
    · exact Or.inl hmem
    · exact Or.inr (Or.inl hle)
    · exact Or.inr (Or.inr ⟨hgrows.missed _ hmissed, hnew, offset, bytes,
        hgrows.appended _ happended⟩)
  · rw [hdb]; exact hi.moved
  · intro hnil hr top htop id hid
    rcases handle_newPack (k := kP) h hid with hid | ⟨-, hne⟩
    · exact hi.existing (hgrows.appended_eq_nil hnil) hr top htop id hid
    · exact absurd hnil hne
  · rw [hstored]
    exact fun hnil => (hi.putEvidence hnil).learn hi.packs hi.dicts hrm h
  · rw [hstored, hdb]
    intro hnil hash hmem
    rcases learn_missed h hmem with hmem | hnone
    · exact hi.putMissed hnil hash hmem
    · exact hnone
  · intro hne
    obtain ⟨item, hitem⟩ := List.exists_mem_of_ne_nil _ hne
    have hmissed : kP.missed ≠ [] := by
      by_cases hf : p.footprint = .packs
      · cases p with
        | appendToActivePackNoSync bytes => exact hpre
        | forgetActivePack => exact hi.putAppended hne
        | syncPack id => cases r <;> exact hi.putAppended hne
        | syncPackDir => exact hi.putAppended hne
        | removePack id => cases hrm
        | _ => cases hf
      · rw [(learn_packs kP r hf).1] at hne
        exact hi.putAppended hne
    obtain ⟨hash, hhash⟩ := List.exists_mem_of_ne_nil _ hmissed
    exact List.ne_nil_of_mem (hgrows.missed hash hhash)

/-- The one commit of the other caller. -/
theorem RepackInv.put_commit_step (hi : RepackInv E (fun _ => True) w kR kP)
    (hb : Backed E none kP writes) (hstored : kP.stored = [])
    (hrecipes : recipesAdded writes ≠ []) :
    RepackInv E (fun _ => True) { w with db := w.db.applyAll writes } kR
      (learn kP (.commit writes) ()) := by
  have hok : PacksOK { w with db := w.db.applyAll writes } := ⟨hi.packs.synced, hi.packs.active⟩
  have he := hi.putEvidence hstored
  have hnew : ∀ hash value, Write.chunk hash value ∈ writes → w.db.chunks.get hash = none := by
    intro hash value hmem
    obtain ⟨entry, chunk, dict, -, hchunk, -⟩ := hb.chunks hash value hmem
    exact hi.putMissed hstored hash hchunk.missed
  have hkeep : ∀ hash entry, w.db.chunks.get hash = some entry →
      (w.db.applyAll writes).chunks.get hash = some entry := by
    intro hash entry hget
    rcases w.db.applyAll_chunks writes hash with ⟨value, hmem, -⟩ | ⟨-, hold⟩
    · rw [hnew hash value hmem] at hget
      cases hget
    · exact hold.trans hget
  refine ⟨hok, hi.dicts, ?_, ⟨hi.evidence.appended, hi.evidence.dicts⟩, hi.noTop, hi.top, ?_, ?_,
    ?_, hi.notMissed, hi.listed, hi.existing, ?_, ?_, hi.putAppended⟩
  · intro hash entry hget
    rcases w.db.applyAll_chunks writes hash with ⟨value, hmem, hvalue⟩ | ⟨-, hold⟩
    · obtain ⟨entry', chunk, dict, rfl, hchunk, hdurable⟩ := hb.chunks hash value hmem
      have heq : entry' = entry := Option.some.inj (hvalue.symm.trans hget)
      rw [← heq]
      exact ⟨chunk, dict, (hchunk.stored hdurable he hi.packs fun _ h => h).mono (fun _ _ => trivial) hok
        (.refl _) fun _ _ h => h⟩
    · obtain ⟨chunk, dict, hs⟩ := hi.chunks hash entry (hold.symm.trans hget)
      exact ⟨chunk, dict, hs.mono (fun _ h => h) hok (.refl _) fun _ _ h => h⟩
  · intro scan hscan hash entry hmem
    obtain ⟨chunk, dict, hs⟩ := hi.scanned scan hscan hash entry hmem
    exact ⟨chunk, dict, { hs with
      chosen := hs.chosen, pack := hs.pack, indexed := hb.has_chunk (Or.inl hs.indexed) }⟩
  · intro scan top hscan htop hash entry hget
    rcases w.db.applyAll_chunks writes hash with ⟨value, hmem, hvalue⟩ | ⟨-, hold⟩
    · obtain ⟨entry', chunk, dict, rfl, hchunk, -⟩ := hb.chunks hash value hmem
      have heq : entry' = entry := Option.some.inj (hvalue.symm.trans hget)
      rw [heq] at hchunk
      refine Or.inr (Or.inr ⟨hchunk.missed, fun other hother => ?_, _, _, hchunk.appended⟩)
      exact hi.scanned_get hscan hother (hi.putMissed hstored hash hchunk.missed)
    · exact hi.covered scan top hscan htop hash entry (hold.symm.trans hget)
  · intro top htop hash hmem
    obtain ⟨entry, hget, hle⟩ := hi.moved top htop hash hmem
    exact ⟨entry, hkeep hash entry hget, hle⟩
  · intro hnil
    rw [show (learn kP (.commit writes) ()).stored = recipesAdded writes ++ kP.stored from rfl,
      List.append_eq_nil_iff] at hnil
    exact absurd hnil.1 hrecipes
  · intro hnil
    rw [show (learn kP (.commit writes) ()).stored = recipesAdded writes ++ kP.stored from rfl,
      List.append_eq_nil_iff] at hnil
    exact absurd hnil.1 hrecipes

end Gmeow
