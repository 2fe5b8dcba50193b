import Gmeow.Batching
import Gmeow.Durability

/-!
# A put beside the collector

One `put` and one maintenance pass over the same store, their requests interleaved by
an arbitrary schedule. This module is about `gcWithGrace`: does an object whose `put`
succeeds keep the chunks its recipe lists?

The chunks the `put` appended itself are safe in every interleaving: before its commit
the index does not have them, so a snapshot taken then does not, and a snapshot taken
afterwards sees the recipe with its manifest. The chunks it *found* are not: one that
no recipe refers to any more can be found, swept, and then referred to. Neither is its
recipe, when an orphan of the same digest was there before.

* `Role`, `beside` — the two callers;
* `collectContract` — what the collector deletes, from what it has seen;
* `CollectInv` — what holds between any two requests;
* `put_survives_gc` — the result, for schedules whose sweeps meet `SweepSpares`.
-/

namespace Gmeow

open Prog

variable {D : Type} [LinearOrder D] {E : Env D} {w w' : World D} {k k' kP kG : Observed D}

/-! ## The two callers -/

/-- Who makes a request. -/
inductive Role : Type where
  | put : Role
  | maintenance : Role
  deriving DecidableEq

/-- A `put` and a maintenance pass over one store. -/
def beside (E : Env D) (request : PutRequest D) (pass : Call D) (w : World D) :
    Pool Role (Prim D) Resp (World D) (Observed D) (Option D) where
  threads
    | .put => ⟨(Call.put request).prog E, {}⟩
    | .maintenance => ⟨pass.prog E, {}⟩
  state := w

/-- The two after a schedule. -/
def runBeside (E : Env D) (request : PutRequest D) (pass : Call D) (w : World D)
    (schedule : List Role) : Pool Role (Prim D) Resp (World D) (Observed D) (Option D) :=
  (beside E request pass w).run (handle E) learn schedule

/-- What a `put` keeps to: `objectContract`, and one batch. -/
def storing (E : Env D) (digest : D) (k : Observed D) (p : Prim D) : Prop :=
  (objectContract E none).pre k p ∧ (commitContract E (Ingests digest)).pre k p

theorem put_storing (request : PutRequest D) :
    ((Call.put request).prog E).Obeys
      ⟨storing E (E.blake3Hex request.reader.content), (objectContract E none).post, learn⟩ {}
      fun r k' => ∀ digest, r = .ok (some digest) → digest ∈ k'.stored := by
  refine obeys_bind.mpr (((put_obeys request {}).and (put_commits request rfl)).mono ?_)
  rintro (e | digest) k' ⟨⟨-, hput⟩, -⟩
  · exact fun _ heq => nomatch heq
  · intro other heq
    cases heq
    exact (hput _ rfl).2.2

/-! ## What the collector does -/

/-- The sweep of the chunks, from a snapshot and a later scan of the recipes. -/
def SweepsChunks (k : Observed D) (writes : List (Write D)) : Prop :=
  k.commits = [] ∧ ∃ db rescan graceCutoff gcStart, k.snapshot = some db ∧
    k.rescan = some rescan ∧
    writes = (deadChunks db graceCutoff gcStart rescan).map fun hash => .chunk hash none

/-- The sweep of the recipes, afterwards. -/
def SweepsRecipes (k : Observed D) (writes : List (Write D)) : Prop :=
  k.commits ≠ [] ∧ ∃ digests : List D, writes = digests.map fun digest => .recipe digest none

/-- The collector commits its two sweeps only. -/
abbrev collectContract (E : Env D) : Prog.Contract (Prim D) Resp (Observed D) :=
  commitContract E fun k writes => SweepsChunks k writes ∨ SweepsRecipes k writes

/-- Looking again for the manifests of the orphans commits nothing. -/
theorem stillOrphans_commits :
    ∀ (digests : List D) (k : Observed D),
      (stillOrphans digests).Obeys (collectContract E) k fun _ k' => k'.commits = k.commits := by
  intro digests
  induction digests with
  | nil => intro k; rfl
  | cons digest rest ih =>
    intro k
    refine ⟨trivial, fun found _ => ?_⟩
    show (Prog.bind (stillOrphans rest) _).Obeys _ _ _
    refine obeys_bind.mpr ((ih _).mono ?_)
    have hlearn : (learn k (.getManifest digest) found).commits = k.commits := by
      cases found <;> rfl
    rintro (e | swept) k' hk'
    · exact hk'.trans hlearn
    · exact hk'.trans hlearn

/-- **A collection commits its two sweeps and nothing else**: the chunks that are dead by its
snapshot and by the recipes scanned after it, and behind them recipes. -/
theorem gcWithGrace_commits (grace : Int) :
    ((Call.gcWithGrace grace).prog E).Obeys (collectContract E) {} fun _ _ => True := by
  refine obeys_void (withLock_commits (Q := fun _ _ => True) ?_)
  refine ⟨trivial, fun gcStart _ => ⟨trivial, fun db _ => ⟨trivial, fun rescan _ =>
    ⟨Or.inl ⟨rfl, db, rescan, _, _, rfl, rfl, rfl⟩, fun _ _ => ?_⟩⟩⟩⟩
  show (Prog.bind (stillOrphans _) _).Obeys _ _ _
  refine obeys_bind.mpr ((stillOrphans_commits _ _).mono ?_)
  rintro (e | swept) k' hk'
  · trivial
  · exact ⟨Or.inr ⟨by rw [hk']; exact List.cons_ne_nil _ _, swept, rfl⟩, fun _ _ => trivial⟩

/-! ## The invariant -/

/-- An index entry carries the hash it is kept under. -/
def KeyedChunks (db : Meta D) : Prop :=
  ∀ hash entry, db.chunks.get hash = some entry → entry.chunkHash = hash

/-- What holds between the requests of a `put`, which knows `kP`, and of the collector,
which knows `kG`. -/
structure CollectInv (w : World D) (kP kG : Observed D) : Prop where
  keyed : KeyedChunks w.db
  /-- nothing is stored or placed before the commit -/
  waiting : kP.commits = [] → kP.stored = [] ∧ kP.placed = []
  /-- chunks not found are not there, until the commit -/
  missed : kP.commits = [] → ∀ hash ∈ kP.missed, w.db.chunks.get hash = none
  /-- chunks found are there -/
  hits : ∀ hash ∈ kP.hits, hash ∉ kP.placed.map Prod.fst → w.db.chunks.has hash = true
  /-- the object committed is complete -/
  stored : ∀ digest ∈ kP.stored, w.db.manifests.has digest = true ∧
    ∃ recipe, w.db.recipes.get digest = some recipe ∧
      ∀ hash ∈ recipe.chunkHashes, hash ∈ kP.hits ∧ w.db.chunks.has hash = true
  /-- the snapshot, until the sweep: its chunks are still there -/
  grown : ∀ db, kG.snapshot = some db → kG.commits = [] → KeyedChunks db ∧
    ∀ hash, db.chunks.has hash = true → w.db.chunks.has hash = true
  /-- it has no chunk the `put` has to add -/
  before : ∀ db, kG.snapshot = some db → kG.commits = [] → kP.commits = [] →
    ∀ hash ∈ kP.missed, db.chunks.get hash = none
  /-- and of those it added, only with the object they are for -/
  fresh : ∀ db, kG.snapshot = some db → kG.commits = [] → ∀ digest ∈ kP.stored,
    ∀ recipe, w.db.recipes.get digest = some recipe → ∀ hash ∈ kP.placed.map Prod.fst,
      db.chunks.get hash = none ∨
        (db.manifests.has digest = true ∧ db.recipes.get digest = some recipe)

theorem CollectInv.start (hkeys : KeyedChunks w.db) : CollectInv w {} {} where
  keyed := hkeys
  waiting _ := ⟨rfl, rfl⟩
  missed _ _ hmem := nomatch hmem
  hits _ hmem := nomatch hmem
  stored _ hmem := nomatch hmem
  grown _ heq := nomatch heq
  before _ heq := nomatch heq
  fresh _ heq := nomatch heq

/-! ## Requests of the put -/

variable {p : Prim D} {r : Resp p} {writes : List (Write D)}

theorem learn_placed (k : Observed D) (r : Resp p) (hp : p.footprint ≠ .db) :
    (learn k p r).placed = k.placed := by
  cases p with
  | commit => exact absurd rfl hp
  | getChunk | getRecipe | getManifest | activeDictionary | syncPack | readPack => cases r <;> rfl
  | _ => rfl

theorem learn_hits (hp : p.footprint ≠ .db) (h : handle E p w = some (r, w')) {hash : D}
    (hmem : hash ∈ (learn k p r).hits) : hash ∈ k.hits ∨ w.db.chunks.has hash = true := by
  cases p with
  | commit => exact absurd rfl hp
  | getChunk key =>
    cases h
    cases hget : w.db.chunks.get key with
    | none => rw [hget] at hmem; exact Or.inl hmem
    | some entry =>
      rw [hget] at hmem
      rcases List.mem_cons.mp hmem with rfl | hmem
      · exact Or.inr (OrdMap.has_iff.mpr ⟨entry, hget⟩)
      · exact Or.inl hmem
  | getRecipe | getManifest | activeDictionary | syncPack | readPack =>
    cases r <;> exact Or.inl hmem
  | _ => exact Or.inl hmem

/-- A request of the `put` that commits nothing. -/
theorem CollectInv.put_quiet_step (hi : CollectInv w kP kG) (hp : p.footprint ≠ .db)
    (h : handle E p w = some (r, w')) : CollectInv w' (learn kP p r) kG := by
  have hdb := (handle_sameBut h).db hp
  have hstored := learn_stored kP r hp
  have hplaced := learn_placed kP r hp
  have hcommits := learn_commits kP r hp
  have hgrows := grows_learn kP p r
  refine ⟨by rw [hdb]; exact hi.keyed, ?_, ?_, ?_, ?_, ?_, ?_, ?_⟩
  · rw [hcommits, hstored, hplaced]
    exact hi.waiting
  · rw [hcommits, hdb]
    intro hnil hash hmem
    rcases learn_missed h hmem with hmem | hnone
    · exact hi.missed hnil hash hmem
    · exact hnone
  · rw [hplaced, hdb]
    intro hash hmem hnew
    rcases learn_hits hp h hmem with hmem | hhas
    · exact hi.hits hash hmem hnew
    · exact hhas
  · rw [hstored, hdb]
    intro digest hmem
    obtain ⟨hmanifest, recipe, hget, hhashes⟩ := hi.stored digest hmem
    exact ⟨hmanifest, recipe, hget, fun hash hhash =>
      ⟨hgrows.hits hash (hhashes hash hhash).1, (hhashes hash hhash).2⟩⟩
  · rw [hdb]
    exact hi.grown
  · intro db hsnap hnil
    rw [hcommits]
    intro hwait hash hmem
    rcases learn_missed h hmem with hmem | hnone
    · exact hi.before db hsnap hnil hwait hash hmem
    · -- missed just now: so the snapshot, all of which is still there, has not got it
      rw [← Option.not_isSome_iff_eq_none]
      intro hsome
      have hhas := (hi.grown db hsnap hnil).2 hash hsome
      rw [OrdMap.has, hnone] at hhas
      cases hhas
  · rw [hdb, hstored, hplaced]
    exact hi.fresh

/-- The commit of the `put`. -/
theorem CollectInv.put_commit_step (hi : CollectInv w kP kG) {digest : D}
    (hb : Backed E none kP writes) (hin : Ingests digest kP writes) :
    CollectInv { w with db := w.db.applyAll writes } (learn kP (.commit writes) ()) kG := by
  obtain ⟨hstored, hplaced⟩ := hi.waiting hin.first
  have hadded : ∀ hash, hash ∈ (learn kP (.commit writes) ()).placed.map Prod.fst →
      hash ∈ kP.missed := by
    intro hash hmem
    obtain ⟨⟨_, entry⟩, hitem, rfl⟩ := List.mem_map.mp hmem
    rcases List.mem_append.mp hitem with hitem | hitem
    · obtain ⟨_, chunk, dict, -, hchunk, -⟩ := hb.chunks _ _ (mem_entriesPlaced.mp hitem)
      exact hchunk.missed
    · rw [hplaced] at hitem
      cases hitem
  have hhits : ∀ hash ∈ kP.hits, w.db.chunks.has hash = true := fun hash hmem =>
    hi.hits hash hmem (by rw [hplaced]; exact List.not_mem_nil)
  have hdone : (learn kP (.commit writes) ()).commits ≠ [] := List.cons_ne_nil _ _
  refine ⟨?_, fun hnil => absurd hnil hdone, fun hnil => absurd hnil hdone, ?_, ?_, ?_,
    fun _ _ _ hnil => absurd hnil hdone, ?_⟩
  · intro hash entry hget
    rcases w.db.applyAll_chunks writes hash with ⟨value, hmem, hvalue⟩ | ⟨-, hold⟩
    · obtain ⟨entry', chunk, dict, rfl, hchunk, -⟩ := hb.chunks hash value hmem
      rw [← Option.some.inj (hvalue.symm.trans hget)]
      exact hchunk.chunkHash
    · exact hi.keyed hash entry (hold.symm.trans hget)
  · intro hash hmem _
    rcases List.mem_append.mp hmem with hmem | hmem
    · exact hb.has_chunk (Or.inr hmem)
    · exact hb.has_chunk (Or.inl (hhits hash hmem))
  · intro other hmem
    obtain rfl : other = digest := by
      rw [show (learn kP (.commit writes) ()).stored = recipesAdded writes ++ kP.stored from rfl,
        hin.recipes, hstored] at hmem
      exact List.mem_singleton.mp hmem
    obtain ⟨manifest, hmanifest⟩ := hin.manifest
    refine ⟨?_, ?_⟩
    · show (w.db.applyAll writes).manifests.has other = true
      rcases w.db.applyAll_manifests writes other with ⟨value, hwrite, hvalue⟩ | ⟨hnone, -⟩
      · cases value with
        | none => exact absurd hwrite (hb.consistent other manifest hmanifest)
        | some stored => exact OrdMap.has_iff.mpr ⟨stored, hvalue⟩
      · exact absurd hmanifest (hnone _)
    · rcases w.db.applyAll_recipes writes other with ⟨value, hwrite, hvalue⟩ | ⟨hnone, -⟩
      · cases value with
        | none =>
          exact absurd (hb.deletions other hwrite).2 (hb.consistent other manifest hmanifest)
        | some recipe =>
          obtain ⟨chunks, hrecipe⟩ := hb.recipes other recipe hwrite
          refine ⟨recipe, hvalue, fun hash hhash => ?_⟩
          rcases hrecipe.indexed hash hhash with hhit | hadd
          · exact ⟨List.mem_append_right _ hhit, hb.has_chunk (Or.inl (hhits hash hhit))⟩
          · exact ⟨List.mem_append_left _ hadd, hb.has_chunk (Or.inr hadd)⟩
      · obtain ⟨recipe, hwrite⟩ := mem_recipesAdded.mp
          (hin.recipes ▸ List.mem_singleton_self other)
        exact absurd hwrite (hnone _)
  · intro db hsnap hnil
    obtain ⟨hkeyed, hgrown⟩ := hi.grown db hsnap hnil
    exact ⟨hkeyed, fun hash hhas => hb.has_chunk (Or.inl (hgrown hash hhas))⟩
  · intro db hsnap hnil digest _ recipe _ hash hmem
    exact Or.inl (hi.before db hsnap hnil hin.first hash (hadded hash hmem))

/-! ## Requests of the collector -/

/-- A record of a sweep spares what a `put` that knows `k` relies on: it deletes no chunk
the `put` has found in the index, and no recipe it has committed. -/
def Spared (k : Observed D) : Write D → Prop
  | .chunk hash none => hash ∈ k.hits → hash ∈ k.placed.map Prod.fst
  | .recipe digest none => digest ∉ k.stored
  | _ => True

/-- The sweeps of the collector spare the `put`. -/
def SweepSpares (_ : World D) (known : Role → Observed D) : Role → Prim D → Prop
  | .maintenance, .commit writes => ∀ write ∈ writes, Spared (known .put) write
  | _, _ => True

instance (k : Observed D) (write : Write D) : Decidable (Spared k write) :=
  match write with
  | .chunk hash none =>
    decidable_of_iff (k.hits.contains hash = true →
      (k.placed.map Prod.fst).contains hash = true) (by simp [Spared])
  | .recipe digest none => decidable_of_iff (k.stored.contains digest = false) (by simp [Spared])
  | .chunk _ (some _) | .recipe _ (some _) | .manifest .. | .annotated .. | .sourceIndex ..
  | .sourceAlias .. | .compoundParents .. | .recovery .. | .change .. | .latest .. => .isTrue trivial

instance (w : World D) (known : Role → Observed D) (i : Role) (p : Prim D) :
    Decidable (SweepSpares w known i p) :=
  decidable_of_iff (i = .maintenance → ∀ write ∈ p.committed, Spared (known .put) write)
    (by cases i <;> cases p <;> simp [SweepSpares, Prim.committed])

theorem learn_snapshot (h : handle E p w = some (r, w')) {db : Meta D}
    (hsnap : (learn k p r).snapshot = some db) : k.snapshot = some db ∨ db = w.db := by
  cases p with
  | snapshot => cases h; exact Or.inr (Option.some.inj hsnap).symm
  | getChunk | getRecipe | getManifest | activeDictionary | syncPack | readPack =>
    cases r <;> exact Or.inl hsnap
  | _ => exact Or.inl hsnap

/-- A request of the collector that commits nothing. -/
theorem CollectInv.gc_quiet_step (hi : CollectInv w kP kG) (hp : p.footprint ≠ .db)
    (h : handle E p w = some (r, w')) : CollectInv w' kP (learn kG p r) := by
  have hdb := (handle_sameBut h).db hp
  have hcommits := learn_commits kG r hp
  refine ⟨by rw [hdb]; exact hi.keyed, hi.waiting, by rw [hdb]; exact hi.missed,
    by rw [hdb]; exact hi.hits, by rw [hdb]; exact hi.stored, ?_, ?_, ?_⟩
  · rw [hcommits, hdb]
    intro db hsnap hnil
    rcases learn_snapshot h hsnap with hsnap | rfl
    · exact hi.grown db hsnap hnil
    · exact ⟨hi.keyed, fun _ hhas => hhas⟩
  · rw [hcommits]
    intro db hsnap hnil
    rcases learn_snapshot h hsnap with hsnap | rfl
    · exact hi.before db hsnap hnil
    · exact hi.missed
  · rw [hcommits, hdb]
    intro db hsnap hnil digest hmem recipe hget hash hplaced
    rcases learn_snapshot h hsnap with hsnap | rfl
    · exact hi.fresh db hsnap hnil digest hmem recipe hget hash hplaced
    · exact Or.inr ⟨(hi.stored digest hmem).1, hget⟩

/-- A chunk of an object in the snapshot is not swept. -/
theorem not_dead {db : Meta D} {graceCutoff gcStart : Time} {rescan : List (D × ObjectRecipe D)}
    (hkeyed : KeyedChunks db) {digest hash : D} {recipe : ObjectRecipe D}
    (hmanifest : db.manifests.has digest = true) (hget : db.recipes.get digest = some recipe)
    (hmem : hash ∈ recipe.chunkHashes) : hash ∉ deadChunks db graceCutoff gcStart rescan := by
  intro hdead
  simp only [deadChunks, List.mem_map, List.mem_filter] at hdead
  obtain ⟨⟨key, entry⟩, ⟨hentry, hlive⟩, rfl⟩ := hdead
  rw [Bool.and_eq_true, Bool.not_eq_true', List.contains_eq_mem, decide_eq_false_iff_not] at hlive
  refine hlive.1 (List.mem_append_left _ (List.mem_flatMap.mpr ⟨(digest, recipe), ?_, ?_⟩))
  · refine List.mem_filter.mpr ⟨OrdMap.mem_entries_iff.mpr hget, ?_⟩
    rw [keepsRecipe, hmanifest]
    rfl
  · rw [hkeyed key entry (OrdMap.mem_entries_iff.mp hentry)]
    exact hmem

/-- The sweep of the chunks. -/
theorem CollectInv.sweep_chunks (hi : CollectInv w kP kG) (hsweep : SweepsChunks kG writes)
    (hspares : ∀ write ∈ writes, Spared kP write) :
    CollectInv { w with db := w.db.applyAll writes } kP (learn kG (.commit writes) ()) := by
  obtain ⟨hnil, db, rescan, graceCutoff, gcStart, hsnap, -, rfl⟩ := hsweep
  have hkeyed := (hi.grown db hsnap hnil).1
  generalize hdead : deadChunks db graceCutoff gcStart rescan = dead at hspares ⊢
  have hget : ∀ hash, ((w.db.applyAll (dead.map fun hash => .chunk hash none)).chunks).get hash =
      if hash ∈ dead then none else w.db.chunks.get hash := by
    intro hash
    rw [applyAll_chunk_none]
    exact OrdMap.get_eraseAll ..
  have hkeep : ∀ hash, hash ∉ dead → w.db.chunks.has hash = true →
      (w.db.applyAll (dead.map fun hash => .chunk hash none)).chunks.has hash = true := by
    intro hash hnot hhas
    rw [OrdMap.has, hget, if_neg hnot]
    exact hhas
  have hspared : ∀ hash, hash ∈ kP.hits → hash ∉ kP.placed.map Prod.fst → hash ∉ dead :=
    fun hash hhit hnew hmem => hnew (hspares _ (List.mem_map.mpr ⟨hash, hmem, rfl⟩) hhit)
  have hdone : (learn kG (.commit (dead.map fun hash => .chunk hash none)) ()).commits ≠ [] :=
    List.cons_ne_nil _ _
  refine ⟨?_, hi.waiting, ?_, ?_, ?_, fun _ _ hn => absurd hn hdone,
    fun _ _ hn => absurd hn hdone, fun _ _ hn => absurd hn hdone⟩
  · intro hash entry hentry
    rw [hget] at hentry
    split at hentry
    · cases hentry
    · exact hi.keyed hash entry hentry
  · intro hwait hash hmem
    rw [hget, hi.missed hwait hash hmem, ite_self]
  · exact fun hash hmem hnew => hkeep hash (hspared hash hmem hnew) (hi.hits hash hmem hnew)
  · rw [applyAll_chunk_none] at hkeep ⊢
    intro digest hmem
    obtain ⟨hmanifest, recipe, hrecipe, hhashes⟩ := hi.stored digest hmem
    refine ⟨hmanifest, recipe, hrecipe, fun hash hhash => ?_⟩
    obtain ⟨hhit, hhas⟩ := hhashes hash hhash
    refine ⟨hhit, hkeep hash ?_ hhas⟩
    by_cases hplaced : hash ∈ kP.placed.map Prod.fst
    · -- added by the `put` itself: not in the snapshot, or there with its object
      rw [← hdead]
      rcases hi.fresh db hsnap hnil digest hmem recipe hrecipe hash hplaced with
        hnone | ⟨hm, hr⟩
      · intro hdead
        simp only [deadChunks, List.mem_map, List.mem_filter] at hdead
        obtain ⟨⟨key, entry⟩, ⟨hentry, -⟩, rfl⟩ := hdead
        rw [OrdMap.mem_entries_iff.mp hentry] at hnone
        cases hnone
      · exact not_dead hkeyed hm hr hhash
    · exact hspared hash hhit hplaced

/-- The sweep of the recipes. -/
theorem CollectInv.sweep_recipes (hi : CollectInv w kP kG) (hsweep : SweepsRecipes kG writes)
    (hspares : ∀ write ∈ writes, Spared kP write) :
    CollectInv { w with db := w.db.applyAll writes } kP (learn kG (.commit writes) ()) := by
  obtain ⟨-, digests, rfl⟩ := hsweep
  have hdone : (learn kG (.commit (digests.map fun digest => .recipe digest none)) ()).commits ≠ [] :=
    List.cons_ne_nil _ _
  rw [applyAll_recipe_none]
  refine ⟨hi.keyed, hi.waiting, hi.missed, hi.hits, ?_, fun _ _ hn => absurd hn hdone,
    fun _ _ hn => absurd hn hdone, fun _ _ hn => absurd hn hdone⟩
  intro digest hmem
  obtain ⟨hmanifest, recipe, hrecipe, hhashes⟩ := hi.stored digest hmem
  refine ⟨hmanifest, recipe, ?_, hhashes⟩
  show (w.db.recipes.eraseAll digests).get digest = some recipe
  rw [OrdMap.get_eraseAll, if_neg]
  · exact hrecipe
  · exact fun hswept => hspares _ (List.mem_map.mpr ⟨digest, hswept, rfl⟩) hmem

/-! ## Every interleaving -/

/-- **A `put` beside the collector.** In every interleaving whose sweeps spare what the
`put` relies on, once the `put` has returned, the recipe of its digest is there and every
chunk it lists is indexed. -/
theorem put_survives_gc {request : PutRequest D} {grace : Int} {w : World D}
    (hkeys : KeyedChunks w.db) {schedule : List Role}
    (hspares : Pool.AllSteps (handle E) learn SweepSpares
      (beside E request (.gcWithGrace grace) w) schedule) {digest : D}
    (hput : ((runBeside E request (.gcWithGrace grace) w schedule).threads .put).prog =
      .ret (some digest)) :
    ∃ recipe, (runBeside E request (.gcWithGrace grace) w schedule).state.db.recipes.get digest =
        some recipe ∧
      ∀ hash ∈ recipe.chunkHashes,
        (runBeside E request (.gcWithGrace grace) w schedule).state.db.chunks.has hash = true := by
  let pre : Role → Observed D → Prim D → Prop
    | .put => storing E (E.blake3Hex request.reader.content)
    | .maintenance => (collectContract E).pre
  let post : Role → Except String (Option D) → Observed D → Prop
    | .put => fun r k' => ∀ digest, r = .ok (some digest) → digest ∈ k'.stored
    | .maintenance => fun _ _ => True
  have hstep : ∀ w₁ known i p r w₂, CollectInv w₁ (known .put) (known .maintenance) →
      pre i (known i) p → SweepSpares w₁ known i p → handle E p w₁ = some (r, w₂) →
      (objectContract E none).post p r ∧
        CollectInv w₂ (Function.update known i (learn (known i) p r) .put)
          (Function.update known i (learn (known i) p r) .maintenance) := by
    intro w₁ known i p r w₂ hi hpre hcond hp
    refine ⟨handle_objectContract none hp, ?_⟩
    cases i with
    | put =>
      rw [Function.update_self, Function.update_of_ne (by decide)]
      by_cases hdb : p.footprint = .db
      · cases p with
        | commit writes => cases hp; exact hi.put_commit_step hpre.1 hpre.2
        | _ => cases hdb
      · exact hi.put_quiet_step hdb hp
    | maintenance =>
      rw [Function.update_self, Function.update_of_ne (by decide)]
      by_cases hdb : p.footprint = .db
      · cases p with
        | commit writes =>
          cases hp
          rcases hpre with hsweep | hsweep
          · exact hi.sweep_chunks hsweep hcond
          · exact hi.sweep_recipes hsweep hcond
        | _ => cases hdb
      · exact hi.gc_quiet_step hdb hp
  obtain ⟨hi, hobeys⟩ := Pool.invariant (Q := post) hstep schedule
    (beside E request (.gcWithGrace grace) w)
    (fun i => by cases i; exacts [put_storing request, gcWithGrace_commits grace])
    (.start hkeys) hspares
  have hret := hobeys .put
  rw [runBeside] at hput
  rw [hput] at hret
  obtain ⟨-, recipe, hget, hhashes⟩ := hi.stored digest (hret digest rfl)
  exact ⟨recipe, hget, fun hash hmem => (hhashes hash hmem).2⟩

/-- A small file. -/
def smallRequest : PutRequest Nat where
  reader := .short (utf8 "a") short_a
  facets := [{ kind := "file" }]

/-- A store with one chunk left that no recipe refers to: the file was put and deleted. The
clock moves by a grace period with each reading. -/
def leftover : Option (List (Option Nat) × World Nat × List Bytes) :=
  runCalls plainEnv [.put smallRequest, .deleteObject (numeral (utf8 "a"))]
    { clock := fun n => n * gcGracePeriod } []

/-- The file is put again beside a collection: its chunk is found, then swept, then
referred to. -/
theorem put_refers_to_swept :
    ∃ outs w hashed, leftover = some (outs, w, hashed) ∧ ∃ schedule,
      let pool := runBeside plainEnv smallRequest (.gcWithGrace gcGracePeriod) w schedule
      (pool.threads .put).prog = .ret (some (numeral (utf8 "a"))) ∧
      (pool.threads .maintenance).prog = .ret none ∧
      ∃ recipe, pool.state.db.recipes.get (numeral (utf8 "a")) = some recipe ∧
        ∃ hash ∈ recipe.chunkHashes, pool.state.db.chunks.has hash = false := by
  let schedule : List Role := List.replicate 2 .put ++ List.replicate 10 .maintenance ++
    List.replicate 20 .put
  have heval : (leftover.any fun out =>
      let pool := runBeside plainEnv smallRequest (.gcWithGrace gcGracePeriod) out.2.1 schedule
      decide ((pool.threads .put).prog.returned = some (some (numeral (utf8 "a")))) &&
      decide ((pool.threads .maintenance).prog.returned = some none) &&
      (pool.state.db.recipes.get (numeral (utf8 "a"))).any fun recipe =>
        recipe.chunkHashes.any fun hash => !pool.state.db.chunks.has hash) = true := by
    decide +kernel
  obtain ⟨⟨outs, w, hashed⟩, hleft, hout⟩ := (Option.any_eq_true _ _).mp heval
  simp only [Bool.and_eq_true, decide_eq_true_eq] at hout
  obtain ⟨⟨hput, hgc⟩, hrecipe⟩ := hout
  obtain ⟨recipe, hget, hhash⟩ := (Option.any_eq_true _ _).mp hrecipe
  obtain ⟨hash, hmem, hgone⟩ := List.any_eq_true.mp hhash
  exact ⟨outs, w, hashed, hleft, schedule, eq_ret_of_returned hput, eq_ret_of_returned hgc,
    recipe, hget, hash, hmem, by simpa using hgone⟩

/-- Swept before the `put` looks for it, the chunk is stored anew. -/
theorem put_survives_gc_small :
    ∃ outs w hashed, leftover = some (outs, w, hashed) ∧ ∃ schedule recipe,
      let pool := runBeside plainEnv smallRequest (.gcWithGrace gcGracePeriod) w schedule
      pool.state.db.recipes.get (numeral (utf8 "a")) = some recipe ∧
        ∀ hash ∈ recipe.chunkHashes, pool.state.db.chunks.has hash = true := by
  let schedule : List Role := [.put] ++ List.replicate 10 .maintenance ++ List.replicate 30 .put
  have heval : (leftover.any fun out =>
      (out.2.1.db.chunks.entries.all fun item => decide (item.2.chunkHash = item.1)) &&
      Pool.checkSteps (handle plainEnv) learn SweepSpares
        (beside plainEnv smallRequest (.gcWithGrace gcGracePeriod) out.2.1) schedule &&
      decide (((runBeside plainEnv smallRequest (.gcWithGrace gcGracePeriod) out.2.1
        schedule).threads .put).prog.returned = some (some (numeral (utf8 "a"))))) = true := by
    decide +kernel
  obtain ⟨⟨outs, w, hashed⟩, hleft, hout⟩ := (Option.any_eq_true _ _).mp heval
  simp only [Bool.and_eq_true, decide_eq_true_eq, List.all_eq_true] at hout
  obtain ⟨⟨hkeys, hsteps⟩, hput⟩ := hout
  obtain ⟨recipe, hget, hhashes⟩ := put_survives_gc
    (fun hash entry h => hkeys (hash, entry) (OrdMap.mem_entries_iff.mpr h))
    (Pool.allSteps_of_check hsteps) (eq_ret_of_returned hput)
  exact ⟨outs, w, hashed, hleft, schedule, recipe, hget, hhashes⟩

end Gmeow
