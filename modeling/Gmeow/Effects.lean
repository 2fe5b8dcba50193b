import Gmeow.Batching

/-!
# What an operation does to the tables, run alone

Packs, caches and locks do not matter to what the metadata tables say after a call. Here
programs are seen as they act on the tables and the clock only:

* `Does` — what a program run alone does, if it ends, with its rules;
* `SameOutside`, `Later` — other tables are as before, the clock has moved on;
* `changeWrites`, `SourceRows` — the rows that follow from a manifest;
* `Ingested` — the one batch of an object, and what it does to each table.
-/

namespace Gmeow

open Prog

variable {D : Type} [LinearOrder D] {E : Env D} {α β : Type} {m m' : Meta D}
  {clock clock' : Nat → Time}

/-! ## Programs on tables and clock -/

/-- Whatever world has these tables and this clock, `p` run alone in it ends, if it ends,
with an outcome, tables and a clock in `Q`. -/
def Does (E : Env D) (p : Proc D α) (m : Meta D) (clock : Nat → Time)
    (Q : Except String α → Meta D → (Nat → Time) → Prop) : Prop :=
  ∀ w : World D, w.db = m → w.clock = clock →
    p.wlp (handle E) w fun r w' => Q r w'.db w'.clock

/-- The time after one reading. -/
def nextClock (clock : Nat → Time) : Nat → Time := fun n => clock (n + 1)

/-- A request that changes neither tables nor clock. -/
def Prim.observes (p : Prim D) : Bool := decide (p.footprint ≠ .db) && decide (p.footprint ≠ .clock)

/-- What such a request is answered, as far as the tables determine it. -/
def Prim.reading (E : Env D) : (p : Prim D) → Meta D → Resp p → Prop
  | .blake3 content, _, digest => digest = E.blake3Hex content
  | .getRecipe digest, m, found => found = m.recipes.get digest
  | .getManifest digest, m, found => found = m.manifests.get digest
  | .getAnnotated key, m, found => found = m.annotated.get key
  | .getSourceIndex key, m, found => found = m.sourceIndex.get key
  | .getSourceAlias key, m, found => found = m.sourceAlias.get key
  | .getCompoundParents digest, m, found => found = m.compoundParents.get digest
  | .getLatest digest, m, found => found = m.latest.get digest
  | .scanManifests, m, entries => entries = m.manifests.entries
  | .scanAnnotated digest, m, entries =>
    entries = m.annotated.entries.filter fun item => (ofLex item.1).1 = digest
  | .scanChanges lower, m, entries =>
    entries = m.changes.entries.filter fun item =>
      decide (lower ≤ toLex ((ofLex item.1).1, (ofLex (ofLex item.1).2).1))
  | _, _, _ => True

theorem handle_observes {p : Prim D} {r : Resp p} {w w' : World D} (hp : p.observes = true)
    (h : handle E p w = some (r, w')) : w'.db = w.db ∧ w'.clock = w.clock ∧ p.reading E w.db r := by
  rw [Prim.observes, Bool.and_eq_true, decide_eq_true_eq, decide_eq_true_eq] at hp
  refine ⟨(handle_sameBut h).db hp.1, handle_clock hp.2 h, ?_⟩
  cases p with
  | blake3 | getRecipe | getManifest | getAnnotated | getSourceIndex | getSourceAlias
  | getCompoundParents | getLatest | scanManifests | scanAnnotated | scanChanges =>
    cases h
    rfl
  | _ => trivial

section Rules

variable {Q : Except String β → Meta D → (Nat → Time) → Prop}

variable {p : Proc D α} {f : α → Proc D β} {R : Except String α → Meta D → (Nat → Time) → Prop}
  {g : String → String} {write : Write D}

theorem Does.mono {Q Q' : Except String α → Meta D → (Nat → Time) → Prop} (h : Does E p m clock Q)
    (hQ : ∀ r m' clock', Q r m' clock' → Q' r m' clock') : Does E p m clock Q' :=
  fun w hm hc => wlp_mono (h w hm hc) fun r w' hq => hQ r w'.db w'.clock hq

/-- The rule of sequencing. -/
theorem Does.bind (h : Does E p m clock R)
    (hok : ∀ a m' clock', R (.ok a) m' clock' → Does E (f a) m' clock' Q)
    (herror : ∀ e m' clock', R (.error e) m' clock' → Q (.error e) m' clock') :
    Does E (p.bind f) m clock Q := by
  intro w hm hc
  refine wlp_bind.mpr (wlp_mono (h w hm hc) ?_)
  rintro (e | a) w' hq
  · exact herror e _ _ hq
  · exact hok a _ _ hq w' rfl rfl

theorem Does.ret {a : α} {Q : Except String α → Meta D → (Nat → Time) → Prop}
    (h : Q (.ok a) m clock) : Does E (.ret a) m clock Q := by
  rintro w rfl rfl
  exact h

theorem Does.fail {e : String} {Q : Except String α → Meta D → (Nat → Time) → Prop}
    (h : Q (.error e) m clock) : Does E (.fail e : Proc D α) m clock Q := by
  rintro w rfl rfl
  exact h

/-- One request that changes neither tables nor clock. -/
theorem Does.ask {p : Prim D} {f : Resp p → Proc D β} (hp : p.observes = true)
    (hf : ∀ r, p.reading E m r → Does E (f r) m clock Q) :
    Does E ((Prog.ask p : Proc D (Resp p)).bind f) m clock Q := by
  rintro w rfl rfl r w' hr
  obtain ⟨hm, hc, hread⟩ := handle_observes hp hr
  exact hf r hread w' hm hc

theorem Does.now {f : Time → Proc D β} (hf : Does E (f (clock 0)) m (nextClock clock) Q) :
    Does E ((Prog.ask (Prim.now : Prim D) : Proc D Time).bind f) m clock Q := by
  rintro w rfl rfl r w' hr
  cases hr
  exact hf _ rfl rfl

theorem Does.commit {writes : List (Write D)} {f : Unit → Proc D β}
    (hf : Does E (f ()) (m.applyAll writes) clock Q) :
    Does E ((Prog.ask (Prim.commit writes) : Proc D Unit).bind f) m clock Q := by
  rintro w rfl rfl r w' hr
  cases hr
  exact hf _ rfl rfl

theorem Does.withLock {l : LockName D} {Q : Except String α → Meta D → (Nat → Time) → Prop}
    (h : Does E p m clock Q) : Does E (withLock l p) m clock Q := by
  refine Does.ask rfl fun _ _ w hm hc => wlp_deferring.mpr (wlp_mono (h w hm hc) ?_)
  intro r w₁ hq u w₂ hu
  cases hu
  exact hq

theorem Does.wrapping {Q : Except String α → Meta D → (Nat → Time) → Prop}
    (h : Does E p m clock fun r m' clock' => Q (r.mapError g) m' clock') :
    Does E (p.wrapping g) m clock Q :=
  fun w hm hc => wlp_wrapping.mpr (h w hm hc)

/-- A program whose errors are wrapped, then on. -/
theorem Does.bind_wrapping (h : Does E p m clock R)
    (hok : ∀ a m' clock', R (.ok a) m' clock' → Does E (f a) m' clock' Q)
    (herror : ∀ e m' clock', R (.error e) m' clock' → Q (.error (g e)) m' clock') :
    Does E ((p.wrapping g).bind f) m clock Q := by
  refine Does.bind (R := fun r m' clock' => (∃ a, r = .ok a ∧ R (.ok a) m' clock') ∨
    ∃ e, r = .error (g e) ∧ R (.error e) m' clock') (Does.wrapping (Does.mono h ?_)) ?_ ?_
  · rintro (e | a) m' clock' hr
    · exact Or.inr ⟨e, rfl, hr⟩
    · exact Or.inl ⟨a, rfl, hr⟩
  · rintro a m' clock' (⟨_, ⟨⟩, hr⟩ | ⟨_, heq, -⟩)
    · exact hok a m' clock' hr
    · cases heq
  · rintro e m' clock' (⟨_, heq, -⟩ | ⟨_, ⟨⟩, hr⟩)
    · cases heq
    · exact herror _ m' clock' hr

/-- A check, then on. -/
theorem Does.check {result : Except String α} (hok : ∀ a, result = .ok a → Does E (f a) m clock Q)
    (herror : ∀ e, result = .error e → Q (.error e) m clock) :
    Does E ((Prog.ofExcept result : Proc D α).bind f) m clock Q := by
  cases result with
  | error e => exact .fail (herror e rfl)
  | ok a => exact hok a rfl

/-- Buffer a record, then on. -/
theorem Does.buffer {cb : CommitBatch D} {f : Sink D → Proc D β}
    (hf : Does E (f (.batch (cb.add write))) m clock Q) :
    Does E (((Sink.batch cb).write write).bind f) m clock Q := hf

/-- Write a record at once, then on. -/
theorem Does.writeSync {f : Sink D → Proc D β}
    (hf : Does E (f .sync) (m.applyAll [write]) clock Q) :
    Does E ((Sink.sync.write write).bind f) m clock Q :=
  Does.commit hf

/-- What a program does, the run that happened did. -/
theorem Does.run {Q : Except String α → Meta D → (Nat → Time) → Prop} {w w' : World D}
    {r : Except String α} (h : Does E p w.db w.clock Q) (hrun : runAlone E p w = some (r, w')) :
    Q r w'.db w'.clock :=
  wlp_run (h w rfl rfl) hrun

end Rules

/-! ## Other tables, later times -/

/-- The clock has been read some times. -/
def Later (clock clock' : Nat → Time) : Prop := ∃ n, clock' = fun i => clock (n + i)

theorem Later.refl (clock : Nat → Time) : Later clock clock := ⟨0, by simp⟩

theorem Later.next (clock : Nat → Time) : Later clock (nextClock clock) :=
  ⟨1, funext fun i => by rw [nextClock, Nat.add_comm]⟩

theorem Later.trans {c₁ c₂ c₃ : Nat → Time} (h : Later c₁ c₂) (h' : Later c₂ c₃) : Later c₁ c₃ := by
  obtain ⟨n, rfl⟩ := h
  obtain ⟨k, rfl⟩ := h'
  exact ⟨n + k, funext fun i => by rw [Nat.add_assoc]⟩

/-- Two databases agree outside these tables. -/
structure SameOutside (tables : List Table) (m m' : Meta D) : Prop where
  chunks : .chunks ∉ tables → m'.chunks = m.chunks
  recipes : .recipes ∉ tables → m'.recipes = m.recipes
  manifests : .manifests ∉ tables → m'.manifests = m.manifests
  annotated : .annotated ∉ tables → m'.annotated = m.annotated
  sourceIndex : .sourceIndex ∉ tables → m'.sourceIndex = m.sourceIndex
  sourceAlias : .sourceAlias ∉ tables → m'.sourceAlias = m.sourceAlias
  compoundParents : .compoundParents ∉ tables → m'.compoundParents = m.compoundParents
  recovery : .recovery ∉ tables → m'.recovery = m.recovery
  changes : .changes ∉ tables → m'.changes = m.changes
  latest : .latest ∉ tables → m'.latest = m.latest

variable {tables : List Table}

theorem SameOutside.refl (tables : List Table) (m : Meta D) : SameOutside tables m m :=
  ⟨fun _ => rfl, fun _ => rfl, fun _ => rfl, fun _ => rfl, fun _ => rfl, fun _ => rfl, fun _ => rfl,
    fun _ => rfl, fun _ => rfl, fun _ => rfl⟩

theorem SameOutside.trans {m₁ m₂ m₃ : Meta D} (h : SameOutside tables m₁ m₂)
    (h' : SameOutside tables m₂ m₃) : SameOutside tables m₁ m₃ :=
  ⟨fun hn => (h'.chunks hn).trans (h.chunks hn), fun hn => (h'.recipes hn).trans (h.recipes hn),
    fun hn => (h'.manifests hn).trans (h.manifests hn),
    fun hn => (h'.annotated hn).trans (h.annotated hn),
    fun hn => (h'.sourceIndex hn).trans (h.sourceIndex hn),
    fun hn => (h'.sourceAlias hn).trans (h.sourceAlias hn),
    fun hn => (h'.compoundParents hn).trans (h.compoundParents hn),
    fun hn => (h'.recovery hn).trans (h.recovery hn),
    fun hn => (h'.changes hn).trans (h.changes hn), fun hn => (h'.latest hn).trans (h.latest hn)⟩

theorem SameOutside.mono {tables' : List Table} (h : SameOutside tables m m')
    (hsub : tables ⊆ tables') : SameOutside tables' m m' :=
  ⟨fun hn => h.chunks fun hm => hn (hsub hm), fun hn => h.recipes fun hm => hn (hsub hm),
    fun hn => h.manifests fun hm => hn (hsub hm), fun hn => h.annotated fun hm => hn (hsub hm),
    fun hn => h.sourceIndex fun hm => hn (hsub hm), fun hn => h.sourceAlias fun hm => hn (hsub hm),
    fun hn => h.compoundParents fun hm => hn (hsub hm), fun hn => h.recovery fun hm => hn (hsub hm),
    fun hn => h.changes fun hm => hn (hsub hm), fun hn => h.latest fun hm => hn (hsub hm)⟩

theorem SameOutside.apply {write : Write D} (h : write.table ∈ tables) :
    SameOutside tables m (m.apply write) := by
  cases write <;> constructor <;> intro hn <;> first | rfl | exact absurd h hn

/-- A batch changes its tables only. -/
theorem SameOutside.applyAll {writes : List (Write D)}
    (h : ∀ write ∈ writes, write.table ∈ tables) : SameOutside tables m (m.applyAll writes) := by
  induction writes generalizing m with
  | nil => exact .refl _ m
  | cons write rest ih =>
    exact (SameOutside.apply (h write (List.mem_cons_self ..))).trans
      (ih fun other hmem => h other (List.mem_cons_of_mem _ hmem))

/-- What a program that only buffers does. -/
theorem Buffers.does {p : Proc D α} {Q : Except String α → Prop} (h : Buffers E p Q) (m : Meta D)
    (clock : Nat → Time) :
    Does E p m clock fun r m' clock' => Q r ∧ m' = m ∧ Later clock clock' := by
  rintro w rfl rfl
  refine wlp_mono (Stays.wlp (fun w w' : World D => w'.db = w.db ∧ Later w.clock w'.clock)
    (fun w => ⟨rfl, .refl _⟩) (fun _ _ _ h h' => ⟨h'.1.trans h.1, h.2.trans h'.2⟩)
    (fun w p r w' hp hr => ?_) h) fun r w' hq => hq
  refine ⟨handle_objectContract none hr, ?_⟩
  cases p with
  | commit writes => cases hp
  | now =>
    cases hr
    exact ⟨rfl, .next _⟩
  | _ =>
    obtain ⟨hm, hc, -⟩ := handle_observes rfl hr
    exact ⟨hm, hc ▸ .refl _⟩

/-! ## The change index -/

/-- The change entry of a digest at a time. -/
def changeEntry (digest : D) (changedAt : Time) : ProjectionChange D :=
  { key := projectionChangeKey digest changedAt, digest := digest, changedAt := changedAt }

/-- The records that move the change key of a digest. -/
def changeWrites (m : Meta D) (digest : D) (changedAt : Time) : List (Write D) :=
  if changedAt = zeroTime then []
  else
    (match m.latest.get digest with
      | some previous => [.change previous.key none]
      | none => []) ++
      [.change (changeEntry digest changedAt).key (some (changeEntry digest changedAt)),
        .latest digest (some (changeEntry digest changedAt))]

theorem changeWrites_congr (h : m'.latest = m.latest) (digest : D) (changedAt : Time) :
    changeWrites m' digest changedAt = changeWrites m digest changedAt := by
  rw [changeWrites, changeWrites, h]

theorem changeWrites_tables (m : Meta D) (digest : D) (changedAt : Time) :
    ∀ write ∈ changeWrites m digest changedAt, write.table ∈ [.changes, .latest] := by
  intro write hmem
  rw [changeWrites] at hmem
  split at hmem
  · cases hmem
  · split at hmem <;>
      simp only [List.cons_append, List.nil_append, List.mem_cons, List.not_mem_nil, or_false]
        at hmem
    · rcases hmem with rfl | rfl | rfl <;> simp [Write.table]
    · rcases hmem with rfl | rfl <;> simp [Write.table]

/-- In a batch the change is read from the tables as they were before. -/
theorem recordProjectionChangeTo_batch (cb : CommitBatch D) (digest : D) (changedAt : Time) :
    Does E (recordProjectionChangeTo (.batch cb) digest changedAt) m clock fun r m' clock' =>
      m' = m ∧ clock' = clock ∧ ∃ cb', r = .ok (.batch cb') ∧
        cb'.writes = cb.writes ++ changeWrites m digest changedAt := by
  rw [recordProjectionChangeTo]
  split
  · rename_i hzero
    exact .ret ⟨rfl, rfl, cb, rfl, by rw [changeWrites, if_pos hzero, List.append_nil]⟩
  · rename_i hzero
    refine Does.ask rfl fun found hfound => ?_
    have hfound : found = m.latest.get digest := hfound
    cases found with
    | none =>
      refine .ret ⟨rfl, rfl, _, rfl, ?_⟩
      rw [changeWrites, if_neg hzero, ← hfound]
      simp [CommitBatch.add, changeEntry]
    | some previous =>
      refine .ret ⟨rfl, rfl, _, rfl, ?_⟩
      rw [changeWrites, if_neg hzero, ← hfound]
      simp [CommitBatch.add, changeEntry]

theorem Meta.applyAll_append (m : Meta D) (front back : List (Write D)) :
    m.applyAll (front ++ back) = (m.applyAll front).applyAll back := by
  rw [Meta.applyAll, List.foldl_append]
  rfl

theorem recordProjectionChangeTo_sync (digest : D) (changedAt : Time) :
    Does E (recordProjectionChangeTo .sync digest changedAt) m clock fun r m' clock' =>
      m' = m.applyAll (changeWrites m digest changedAt) ∧ clock' = clock ∧ r = .ok .sync := by
  rw [recordProjectionChangeTo]
  split
  · rename_i hzero
    exact .ret ⟨by rw [changeWrites, if_pos hzero]; rfl, rfl, rfl⟩
  · rename_i hzero
    refine Does.ask rfl fun found hfound => ?_
    rw [changeWrites, if_neg hzero, ← hfound]
    cases found with
    | none => exact Does.commit (Does.commit (.ret ⟨rfl, rfl, rfl⟩))
    | some previous => exact Does.commit (Does.commit (Does.commit (.ret ⟨rfl, rfl, rfl⟩)))

/-- A manifest and its change entry. -/
def Meta.withManifest (m : Meta D) (digest : D) (manifest : Manifest D) : Meta D :=
  (m.apply (.manifest digest (some manifest))).applyAll (changeWrites m digest manifest.updatedAt)

theorem withManifest_outside (m : Meta D) (digest : D) (manifest : Manifest D) :
    SameOutside [.manifests, .changes, .latest] m (m.withManifest digest manifest) :=
  (SameOutside.apply (by simp [Write.table])).trans
    ((SameOutside.applyAll (changeWrites_tables m digest _)).mono (by decide))

theorem withManifest_manifests (m : Meta D) (digest : D) (manifest : Manifest D) :
    (m.withManifest digest manifest).manifests = m.manifests.set digest manifest :=
  (SameOutside.applyAll (changeWrites_tables m digest _)).manifests (by decide)

theorem writeManifest_does (digest : D) (manifest : Manifest D) :
    Does E (writeManifest digest manifest) m clock fun r m' clock' =>
      m' = m.withManifest digest manifest ∧ clock' = clock ∧ r = .ok () := by
  refine Does.bind (R := fun r m' clock' => m' = m.withManifest digest manifest ∧ clock' = clock ∧
    r = .ok .sync) (Does.commit (recordProjectionChangeTo_sync digest _)) ?_ ?_
  · rintro sink m' clock' ⟨hm, hc, -⟩
    exact .ret ⟨hm, hc, rfl⟩
  · rintro e m' clock' ⟨-, -, heq⟩
    cases heq

/-! ## Source rows -/

/-- The rows of the source index and the aliases that a provenance list gives. -/
inductive SourceRows (E : Env D) (digest : D) : List Provenance → List (Write D) → Prop where
  | nil : SourceRows E digest [] []
  /-- an entry without a full reference -/
  | skip {item : Provenance} {rest : List Provenance} {rows : List (Write D)} :
      item.sourceKind = "" ∨ item.sourceName = "" ∨ item.externalID = "" →
      SourceRows E digest rest rows → SourceRows E digest (item :: rest) rows
  /-- an entry with one -/
  | row {item : Provenance} {rest : List Provenance} {rows : List (Write D)}
      {entry : SourceIndexEntry D} {aliased : SourceAliasEntry D} :
      ¬(item.sourceKind = "" ∨ item.sourceName = "" ∨ item.externalID = "") →
      validateSourceObjectRef (sourceObjectRefFromProvenance item) = .ok () →
      entry.objectDigest = digest → entry.sourceObject = sourceObjectRefFromProvenance item →
      aliased.digest = digest → SourceRows E digest rest rows →
      SourceRows E digest (item :: rest)
        (.sourceIndex (sourceObjectRefKey E (sourceObjectRefFromProvenance item)) (some entry) ::
          .sourceAlias (sourceAliasKey E (sourceObjectRefFromProvenance item)) (some aliased) ::
          rows)

variable {provenance : List Provenance}

theorem SourceRows.in_tables {digest : D} {rows : List (Write D)}
    (h : SourceRows E digest provenance rows) :
    ∀ write ∈ rows, write.table ∈ [.sourceIndex, .sourceAlias] := by
  induction h with
  | nil => exact fun _ hmem => nomatch hmem
  | skip _ _ ih => exact ih
  | row _ _ _ _ _ _ ih =>
    intro write hmem
    rcases List.mem_cons.mp hmem with rfl | hmem
    · simp [Write.table]
    · rcases List.mem_cons.mp hmem with rfl | hmem
      · simp [Write.table]
      · exact ih write hmem

/-- With a batch nothing is written: the rows of the references are appended to it. -/
theorem recordSourceRefs_batch (digest : D) (updatedAt : Time) :
    ∀ (provenance : List Provenance) (cb : CommitBatch D) (clock : Nat → Time),
      Does E (recordSourceRefs E digest updatedAt (.batch cb) provenance) m clock
        fun r m' clock' => m' = m ∧ Later clock clock' ∧ ∀ sink, r = .ok sink →
          ∃ cb' rows, sink = .batch cb' ∧ cb'.writes = cb.writes ++ rows ∧
            SourceRows E digest provenance rows := by
  intro provenance
  induction provenance with
  | nil =>
    intro cb clock
    refine .ret ⟨rfl, .refl _, fun _ heq => ?_⟩
    cases heq
    exact ⟨cb, [], rfl, (List.append_nil _).symm, .nil⟩
  | cons item rest ih =>
    intro cb clock
    rw [recordSourceRefs]
    split
    · rename_i hskip
      refine Does.mono (ih cb clock) ?_
      rintro r m' clock' ⟨hm, hlater, hrows⟩
      refine ⟨hm, hlater, fun sink heq => ?_⟩
      obtain ⟨cb', rows, hsink, hwrites, hsource⟩ := hrows sink heq
      exact ⟨cb', rows, hsink, hwrites, .skip hskip hsource⟩
    · rename_i hskip
      refine Does.check (fun u hvalid => ?_) fun e _ => ⟨rfl, .refl _, fun _ heq => by cases heq⟩
      refine Does.buffer (Does.now (Does.buffer (Does.mono (ih _ _) ?_)))
      rintro r m' clock' ⟨hm, hlater, hrows⟩
      refine ⟨hm, (Later.next clock).trans hlater, fun sink heq => ?_⟩
      obtain ⟨cb', rows, hsink, hwrites, hsource⟩ := hrows sink heq
      refine ⟨cb', _, hsink,
        hwrites.trans ((List.append_assoc _ _ _).trans (List.append_assoc _ _ _)), ?_⟩
      exact .row hskip hvalid rfl rfl rfl hsource

theorem recordSourceObjectIndexesTo_batch (cb : CommitBatch D) (digest : D)
    (provenance : List Provenance) :
    Does E (recordSourceObjectIndexesTo E (.batch cb) digest provenance) m clock
      fun r m' clock' => m' = m ∧ Later clock clock' ∧ ∀ sink, r = .ok sink →
        ∃ cb' rows, sink = .batch cb' ∧ cb'.writes = cb.writes ++ rows ∧
          SourceRows E digest provenance rows := by
  rw [recordSourceObjectIndexesTo]
  split
  · rename_i hnil
    subst hnil
    refine .ret ⟨rfl, .refl _, fun _ heq => ?_⟩
    cases heq
    exact ⟨cb, [], rfl, (List.append_nil _).symm, .nil⟩
  · refine Does.now (Does.mono (recordSourceRefs_batch digest _ provenance cb _) ?_)
    rintro r m' clock' ⟨hm, hlater, hrows⟩
    exact ⟨hm, (Later.next clock).trans hlater, hrows⟩

/-- The references of a provenance list that passed validation. -/
theorem validateProvenance_ok (h : validateProvenance provenance = .ok ()) :
    ∀ item ∈ provenance, validateSourceObjectRef (sourceObjectRefFromProvenance item) = .ok () := by
  induction provenance with
  | nil => exact fun _ hmem => nomatch hmem
  | cons first rest ih =>
    rw [validateProvenance] at h
    split at h
    · cases h
    · rename_i hfirst
      intro item hmem
      rcases List.mem_cons.mp hmem with rfl | hmem
      · exact hfirst
      · exact ih h item hmem

/-- Without a batch each row is written at once; since all references are valid, none of them stops
the loop. -/
theorem recordSourceRefs_sync (digest : D) (updatedAt : Time) :
    ∀ (provenance : List Provenance) (m : Meta D) (clock : Nat → Time),
      (∀ item ∈ provenance,
        validateSourceObjectRef (sourceObjectRefFromProvenance item) = .ok ()) →
      Does E (recordSourceRefs E digest updatedAt .sync provenance) m clock
        fun r m' clock' => Later clock clock' ∧ r = .ok .sync ∧
          ∃ rows, SourceRows E digest provenance rows ∧ m' = m.applyAll rows := by
  intro provenance
  induction provenance with
  | nil => exact fun m clock _ => .ret ⟨.refl _, rfl, [], .nil, rfl⟩
  | cons item rest ih =>
    intro m clock hvalid
    have hrest := fun other hmem => hvalid other (List.mem_cons_of_mem item hmem)
    rw [recordSourceRefs]
    split
    · rename_i hskip
      refine Does.mono (ih m clock hrest) ?_
      rintro r m' clock' ⟨hlater, hr, rows, hsource, hm⟩
      exact ⟨hlater, hr, rows, .skip hskip hsource, hm⟩
    · rename_i hskip
      have hitem := hvalid item (List.mem_cons_self ..)
      refine Does.check (fun u _ => ?_) fun e herror => ?_
      · refine Does.writeSync (Does.now (Does.writeSync (Does.mono (ih _ _ hrest) ?_)))
        rintro r m' clock' ⟨hlater, hr, rows, hsource, hm⟩
        exact ⟨(Later.next clock).trans hlater, hr, _, .row hskip hitem rfl rfl rfl hsource, hm⟩
      · rw [hitem] at herror
        cases herror

theorem recordSourceObjectIndexesTo_sync (digest : D) (hvalid : ∀ item ∈ provenance,
      validateSourceObjectRef (sourceObjectRefFromProvenance item) = .ok ()) :
    Does E (recordSourceObjectIndexesTo E .sync digest provenance) m clock
      fun r m' clock' => Later clock clock' ∧ r = .ok .sync ∧
        ∃ rows, SourceRows E digest provenance rows ∧ m' = m.applyAll rows := by
  rw [recordSourceObjectIndexesTo]
  split
  · rename_i hnil
    subst hnil
    exact .ret ⟨.refl _, rfl, [], .nil, rfl⟩
  · refine Does.now (Does.mono (recordSourceRefs_sync digest _ provenance m _ hvalid) ?_)
    rintro r m' clock' ⟨hlater, h⟩
    exact ⟨(Later.next clock).trans hlater, h⟩

end Gmeow
