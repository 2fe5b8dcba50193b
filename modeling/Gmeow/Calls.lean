import Gmeow.Crash
import Gmeow.Updates

/-!
# What deleting does to the tables

As `Updates`, for the calls that delete:

* `Deleted`, `Detached` — everything under a digest is gone, or what it had of a source,
  with the source rows it owned;
* `CallsFrom` — the stores reached by calls that each meet a condition.

Invariants over sequences of calls are proved from these statements.
-/

namespace Gmeow

open Prog

variable {D : Type} [LinearOrder D] {E : Env D} {α β : Type} {m m' : Meta D}
  {clock clock' : Nat → Time} {digest : D} {write : Write D} {cond : World D → Call D → Prop}

/-! ## Deletions -/

/-- A deletion of a source or alias row of one of the references that `digest` owns. -/
inductive OwnedRow (E : Env D) (digest : D) (refs : List SourceObjectRef) (m : Meta D) :
    Write D → Prop where
  | index {ref : SourceObjectRef} {entry : SourceIndexEntry D} : ref ∈ refs →
      m.sourceIndex.get (sourceObjectRefKey E ref) = some entry → entry.objectDigest = digest →
      OwnedRow E digest refs m (.sourceIndex (sourceObjectRefKey E ref) none)
  | aliased {ref : SourceObjectRef} {entry : SourceAliasEntry D} : ref ∈ refs →
      m.sourceAlias.get (sourceAliasKey E ref) = some entry → entry.digest = digest →
      OwnedRow E digest refs m (.sourceAlias (sourceAliasKey E ref) none)

theorem OwnedRow.mono {refs refs' : List SourceObjectRef} (h : OwnedRow E digest refs m write)
    (hsub : refs ⊆ refs') : OwnedRow E digest refs' m write := by
  cases h with
  | index hmem hget howner => exact .index (hsub hmem) hget howner
  | aliased hmem hget howner => exact .aliased (hsub hmem) hget howner

theorem OwnedRow.in_tables {refs : List SourceObjectRef} (h : OwnedRow E digest refs m write) :
    write.table ∈ [.sourceIndex, .sourceAlias] := by
  cases h with
  | index => exact List.mem_cons_self ..
  | aliased => exact List.mem_cons_of_mem _ (List.mem_cons_self ..)

/-- Rows of the reference are deleted only where they name the object; those that another object
owns stay. -/
theorem ownedSourceRows_does (digest : D) (ref : SourceObjectRef) :
    Does E (ownedSourceRows E digest ref) m clock fun r m' clock' =>
      m' = m ∧ clock' = clock ∧ ∃ rows, r = .ok rows ∧
        ∀ write ∈ rows, OwnedRow E digest [ref] m write := by
  rw [ownedSourceRows]
  split
  · exact .ret ⟨rfl, rfl, [], rfl, fun _ h => by cases h⟩
  · refine Does.ask rfl fun index hindex => Does.ask rfl fun aliased haliased => ?_
    have hindex : index = m.sourceIndex.get (sourceObjectRefKey E ref) := hindex
    have haliased : aliased = m.sourceAlias.get (sourceAliasKey E ref) := haliased
    refine .ret ⟨rfl, rfl, _, rfl, fun write hmem => ?_⟩
    rcases List.mem_append.mp hmem with hmem | hmem
    · split at hmem
      · rename_i howner
        obtain ⟨entry, hentry, heq⟩ := Option.map_eq_some_iff.mp howner
        rw [List.mem_singleton.mp hmem]
        exact .index (List.mem_singleton_self _) (hindex.symm.trans hentry) heq
      · cases hmem
    · split at hmem
      · rename_i howner
        obtain ⟨entry, hentry, heq⟩ := Option.map_eq_some_iff.mp howner
        rw [List.mem_singleton.mp hmem]
        exact .aliased (List.mem_singleton_self _) (haliased.symm.trans hentry) heq
      · cases hmem

/-- The rows to delete are collected without a write. -/
theorem ownedRows_does (digest : D) :
    ∀ refs : List SourceObjectRef, Does E (ownedRows E digest refs) m clock fun r m' clock' =>
      m' = m ∧ clock' = clock ∧ ∃ rows, r = .ok rows ∧
        ∀ write ∈ rows, OwnedRow E digest refs m write := by
  intro refs
  induction refs with
  | nil => exact .ret ⟨rfl, rfl, [], rfl, fun _ h => nomatch h⟩
  | cons ref rest ih =>
    refine Does.bind (ownedSourceRows_does digest ref) ?_ ?_
    · rintro rows m₁ c₁ ⟨rfl, rfl, _, ⟨⟩, hrows⟩
      refine Does.bind ih ?_ ?_
      · rintro more m₂ c₂ ⟨rfl, rfl, _, ⟨⟩, hmore⟩
        refine .ret ⟨rfl, rfl, _, rfl, fun write hmem => ?_⟩
        rcases List.mem_append.mp hmem with hmem | hmem
        · exact (hrows write hmem).mono fun _ h => by
            rw [List.mem_singleton.mp h]
            exact List.mem_cons_self ..
        · exact (hmore write hmem).mono fun _ h => List.mem_cons_of_mem _ h
      · rintro e m₂ c₂ ⟨-, -, _, heq, -⟩
        cases heq
    · rintro e m₁ c₁ ⟨-, -, _, heq, -⟩
      cases heq

/-- The source tables once rows that `digest` owned are deleted. -/
structure Disowned (E : Env D) (digest : D) (refs : List SourceObjectRef) (m m' : Meta D) :
    Prop where
  sourceIndex : ∀ key, m'.sourceIndex.get key = m.sourceIndex.get key ∨
    (m'.sourceIndex.get key = none ∧ ∃ ref ∈ refs, key = sourceObjectRefKey E ref ∧
      ∃ entry, m.sourceIndex.get key = some entry ∧ entry.objectDigest = digest)
  sourceAlias : ∀ key, m'.sourceAlias.get key = m.sourceAlias.get key ∨
    (m'.sourceAlias.get key = none ∧ ∃ ref ∈ refs, key = sourceAliasKey E ref ∧
      ∃ entry, m.sourceAlias.get key = some entry ∧ entry.digest = digest)

theorem Meta.applyAll_sourceIndex (m : Meta D) (writes : List (Write D)) (key : String) :
    (∃ value, Write.sourceIndex key value ∈ writes ∧
        (m.applyAll writes).sourceIndex.get key = value) ∨
      ((∀ value, Write.sourceIndex key value ∉ writes) ∧
        (m.applyAll writes).sourceIndex.get key = m.sourceIndex.get key) := by
  refine Meta.applyAll_table Meta.sourceIndex Write.sourceIndex (fun _ _ _ => rfl) ?_ m writes key
  intro m write hne
  cases write with
  | sourceIndex key value => exact absurd rfl (hne key value)
  | _ => rfl

theorem Meta.applyAll_sourceAlias (m : Meta D) (writes : List (Write D)) (key : String) :
    (∃ value, Write.sourceAlias key value ∈ writes ∧
        (m.applyAll writes).sourceAlias.get key = value) ∨
      ((∀ value, Write.sourceAlias key value ∉ writes) ∧
        (m.applyAll writes).sourceAlias.get key = m.sourceAlias.get key) := by
  refine Meta.applyAll_table Meta.sourceAlias Write.sourceAlias (fun _ _ _ => rfl) ?_ m writes key
  intro m write hne
  cases write with
  | sourceAlias key value => exact absurd rfl (hne key value)
  | _ => rfl

/-- A batch that touches the source tables in owned rows only. -/
theorem Disowned.of_batch {refs : List SourceObjectRef} {writes : List (Write D)}
    (h : ∀ write ∈ writes, write.table ∈ [.sourceIndex, .sourceAlias] →
      OwnedRow E digest refs m write) : Disowned E digest refs m (m.applyAll writes) := by
  refine ⟨fun key => ?_, fun key => ?_⟩
  · rcases m.applyAll_sourceIndex writes key with ⟨value, hmem, hvalue⟩ | ⟨-, hold⟩
    · have howned := h _ hmem (List.mem_cons_self ..)
      cases howned with
      | index href hget howner => exact Or.inr ⟨hvalue, _, href, rfl, _, hget, howner⟩
    · exact Or.inl hold
  · rcases m.applyAll_sourceAlias writes key with ⟨value, hmem, hvalue⟩ | ⟨-, hold⟩
    · have howned := h _ hmem (List.mem_cons_of_mem _ (List.mem_cons_self ..))
      cases howned with
      | aliased href hget howner => exact Or.inr ⟨hvalue, _, href, rfl, _, hget, howner⟩
    · exact Or.inl hold

/-- The references a stored manifest has. -/
def Meta.refs (m : Meta D) (digest : D) : List SourceObjectRef :=
  ((m.manifests.get digest).map fun manifest =>
    manifest.provenance.map sourceObjectRefFromProvenance).getD []

/-- The tables once everything under a digest is deleted. -/
structure Deleted (E : Env D) (digest : D) (m m' : Meta D) : Prop where
  recipes : m'.recipes = m.recipes.erase digest
  manifests : m'.manifests = m.manifests.erase digest
  compoundParents : m'.compoundParents = m.compoundParents.erase digest
  annotated : ∀ key, m'.annotated.get key =
    if (ofLex key).1 = digest then none else m.annotated.get key
  disowned : Disowned E digest (m.refs digest) m m'
  chunks : m'.chunks = m.chunks
  changes : m'.changes = m.changes
  latest : m'.latest = m.latest

/-- The batch of `DeleteObject`. -/
theorem Deleted.of_batch {rows : List (Write D)}
    (hrows : ∀ write ∈ rows, OwnedRow E digest (m.refs digest) m write) :
    Deleted E digest m (m.applyAll ([.manifest digest none, .recipe digest none,
      .recovery digest none, .compoundParents digest none] ++ rows ++
      (m.annotated.entries.filter fun item => (ofLex item.1).1 = digest).map fun item =>
        .annotated item.1 none)) := by
  have hdisowned : Disowned E digest (m.refs digest) m (m.applyAll ([.manifest digest none,
      .recipe digest none, .recovery digest none, .compoundParents digest none] ++ rows ++
      (m.annotated.entries.filter fun item => (ofLex item.1).1 = digest).map fun item =>
        .annotated item.1 none)) := by
    refine .of_batch fun write hmem htable => ?_
    rcases List.mem_append.mp hmem with hmem | hmem
    · rcases List.mem_append.mp hmem with hmem | hmem
      · simp only [List.mem_cons, List.not_mem_nil, or_false] at hmem
        rcases hmem with rfl | rfl | rfl | rfl <;> simp [Write.table] at htable
      · exact hrows write hmem
    · obtain ⟨item, -, rfl⟩ := List.mem_map.mp hmem
      simp [Write.table] at htable
  rw [Meta.applyAll_append, Meta.applyAll_append] at hdisowned ⊢
  have hsource := SameOutside.applyAll (m := m.applyAll [.manifest digest none,
    .recipe digest none, .recovery digest none, .compoundParents digest none])
    fun write hmem => (hrows write hmem).in_tables
  generalize hm₂ : (m.applyAll [.manifest digest none, .recipe digest none, .recovery digest none,
    .compoundParents digest none]).applyAll rows = m₂ at hsource hdisowned ⊢
  have hnotes : SameOutside [.annotated] m₂ (m₂.applyAll ((m.annotated.entries.filter fun item =>
      (ofLex item.1).1 = digest).map fun item => .annotated item.1 none)) := by
    refine .applyAll fun write hmem => ?_
    obtain ⟨item, -, rfl⟩ := List.mem_map.mp hmem
    exact List.mem_cons_self ..
  refine ⟨?_, ?_, ?_, fun key => ?_, hdisowned, ?_, ?_, ?_⟩
  · rw [hnotes.recipes (by decide), hsource.recipes (by decide)]
    rfl
  · rw [hnotes.manifests (by decide), hsource.manifests (by decide)]
    rfl
  · rw [hnotes.compoundParents (by decide), hsource.compoundParents (by decide)]
    rfl
  · have hrow : m₂.annotated = m.annotated := hsource.annotated (by decide)
    rcases m₂.applyAll_annotated ((m.annotated.entries.filter fun item =>
      (ofLex item.1).1 = digest).map fun item => .annotated item.1 none) key with
      ⟨value, hmem, hvalue⟩ | ⟨hnone, hold⟩
    · obtain ⟨item, hitem, heq⟩ := List.mem_map.mp hmem
      cases heq
      have hdigest := (List.mem_filter.mp hitem).2
      rw [hvalue, if_pos (of_decide_eq_true hdigest)]
    · rw [hold, hrow]
      split
      · rename_i hdigest
        cases hget : m.annotated.get key with
        | none => rfl
        | some entry =>
          refine absurd (List.mem_map.mpr ⟨(key, entry), ?_, rfl⟩) (hnone none)
          exact List.mem_filter.mpr ⟨OrdMap.mem_entries_iff.mpr hget, decide_eq_true hdigest⟩
      · rfl
  · rw [hnotes.chunks (by decide), hsource.chunks (by decide)]
    rfl
  · rw [hnotes.changes (by decide), hsource.changes (by decide)]
    rfl
  · rw [hnotes.latest (by decide), hsource.latest (by decide)]
    rfl

/-- **`DeleteObject`.** -/
theorem deleteObject_does (digest : D) :
    Does E (deleteObject E digest) m clock fun r m' clock' =>
      r = .ok () ∧ clock' = clock ∧ Deleted E digest m m' := by
  refine Does.ask rfl fun manifest hmanifest => ?_
  have hmanifest : manifest = m.manifests.get digest := hmanifest
  subst hmanifest
  refine Does.bind (ownedRows_does digest (m.refs digest)) ?_ ?_
  · rintro rows m₁ c₁ ⟨rfl, rfl, _, ⟨⟩, hrows⟩
    refine Does.ask rfl fun notes hnotes => ?_
    have hnotes : notes = m₁.annotated.entries.filter fun item => (ofLex item.1).1 = digest := hnotes
    rw [hnotes]
    exact Does.commit (.ret ⟨rfl, rfl, .of_batch hrows⟩)
  · rintro e m₁ c₁ ⟨-, -, _, heq, -⟩
    cases heq

/-- The entries a manifest keeps when a source is detached. -/
def Manifest.without (manifest : Manifest D) (sourceKind sourceName : String) (now : Time) :
    Manifest D :=
  { manifest with
    provenance := manifest.provenance.filter fun item => !item.ofSource sourceKind sourceName
    updatedAt := now }

/-- What detaching a source from an object does: nothing; or the object is deleted, having
no other source; or the entries of the source are removed, and the rows they owned. -/
inductive Detached (E : Env D) (sourceKind sourceName : String) (digest : D) (now : Time)
    (m : Meta D) : Meta D → Prop where
  | nothing : (∀ manifest, m.manifests.get digest = some manifest →
        manifestHasSource manifest sourceKind sourceName = false) →
      Detached E sourceKind sourceName digest now m m
  | deleted {manifest : Manifest D} {m' : Meta D} : m.manifests.get digest = some manifest →
      manifestHasSource manifest sourceKind sourceName = true →
      (∀ item ∈ manifest.provenance, item.ofSource sourceKind sourceName = true) →
      Deleted E digest m m' → Detached E sourceKind sourceName digest now m m'
  | removed {manifest : Manifest D} {m₁ m' : Meta D} : m.manifests.get digest = some manifest →
      manifestHasSource manifest sourceKind sourceName = true →
      (∃ item ∈ manifest.provenance, item.ofSource sourceKind sourceName = false) →
      Updated E digest (manifest.without sourceKind sourceName now) [] m m₁ →
      SameOutside [.sourceIndex, .sourceAlias] m₁ m' →
      Disowned E digest ((manifest.provenance.filter
        (Provenance.ofSource sourceKind sourceName)).map sourceObjectRefFromProvenance) m₁ m' →
      Detached E sourceKind sourceName digest now m m'

/-- **`detachSourceFromObject`.** -/
theorem detachSourceFromObject_does (digest : D) (sourceKind sourceName : String) :
    Does E (detachSourceFromObject E digest sourceKind sourceName) m clock fun r m' clock' =>
      Later clock clock' ∧ (∃ out, r = .ok out) ∧
        Detached E sourceKind sourceName digest (clock 0) m m' := by
  refine Does.withLock (Does.ask rfl fun found hfound => ?_)
  have hfound : found = m.manifests.get digest := hfound
  cases found with
  | none =>
    refine .ret ⟨.refl _, ⟨_, rfl⟩, .nothing fun manifest hget => ?_⟩
    rw [← hfound] at hget
    cases hget
  | some manifest =>
    dsimp only
    split
    · rename_i hnone
      refine .ret ⟨.refl _, ⟨_, rfl⟩, .nothing fun other hget => ?_⟩
      rw [← hfound] at hget
      cases hget
      rw [manifestHasSource, List.any_eq_false]
      exact fun item hmem hof => by simpa using List.filter_eq_nil_iff.mp hnone item hmem hof
    · rename_i hsome
      have hhas : manifestHasSource manifest sourceKind sourceName = true := by
        obtain ⟨item, hmem⟩ := List.exists_mem_of_ne_nil _ hsome
        obtain ⟨hin, hof⟩ := List.mem_filter.mp hmem
        exact List.any_eq_true.mpr ⟨item, hin, hof⟩
      split
      · rename_i hkept
        refine Does.bind (deleteObject_does digest) ?_ ?_
        · rintro u m₁ c₁ ⟨-, rfl, hdeleted⟩
          refine .ret ⟨.refl _, ⟨_, rfl⟩, .deleted hfound.symm hhas (fun item hmem => ?_) hdeleted⟩
          simpa using List.filter_eq_nil_iff.mp hkept item hmem
        · rintro e m₁ c₁ ⟨heq, -⟩
          cases heq
      · rename_i hkept
        have hother : ∃ item ∈ manifest.provenance,
            item.ofSource sourceKind sourceName = false := by
          obtain ⟨item, hmem⟩ := List.exists_mem_of_ne_nil _ hkept
          obtain ⟨hin, hof⟩ := List.mem_filter.mp hmem
          exact ⟨item, hin, by simpa using hof⟩
        refine Does.now (Does.bind (writeManifest_does digest _) ?_ ?_)
        · rintro u m₁ c₁ ⟨rfl, rfl, -⟩
          have hupdated := Updated.of_manifest E m digest
            (manifest.without sourceKind sourceName (clock 0))
          refine Does.bind (ownedRows_does digest _) ?_ ?_
          · rintro rows m₂ c₂ ⟨rfl, rfl, _, ⟨⟩, hrows⟩
            split
            · exact .ret ⟨.next _, ⟨_, rfl⟩, .removed hfound.symm hhas hother hupdated (.refl _ _)
                ⟨fun _ => Or.inl rfl, fun _ => Or.inl rfl⟩⟩
            · exact Does.commit (.ret ⟨.next _, ⟨_, rfl⟩, .removed hfound.symm hhas hother hupdated
                (.applyAll fun write hmem => (hrows write hmem).in_tables)
                (.of_batch fun write hmem _ => hrows write hmem)⟩)
          · rintro e m₂ c₂ ⟨-, -, _, heq, -⟩
            cases heq
        · rintro e m₁ c₁ ⟨-, -, heq⟩
          cases heq

/-- A source detached from several objects, one after the other. -/
inductive Detaches (E : Env D) (sourceKind sourceName : String) :
    List D → Meta D → Meta D → Prop where
  | nil {m : Meta D} : Detaches E sourceKind sourceName [] m m
  | cons {digest : D} {rest : List D} {now : Time} {m m₁ m' : Meta D} :
      Detached E sourceKind sourceName digest now m m₁ →
      Detaches E sourceKind sourceName rest m₁ m' →
      Detaches E sourceKind sourceName (digest :: rest) m m'

/-- By induction on the digests: no detach fails, so that all of them are gone through. -/
theorem detachAll_does (sourceKind sourceName : String) :
    ∀ (digests : List D) (report : DeleteImportReport) (m : Meta D) (clock : Nat → Time),
      Does E (detachAll E sourceKind sourceName report digests) m clock fun r m' clock' =>
        Later clock clock' ∧ (∃ out, r = .ok out) ∧
          Detaches E sourceKind sourceName digests m m' := by
  intro digests
  induction digests with
  | nil => exact fun report m clock => .ret ⟨.refl _, ⟨_, rfl⟩, .nil⟩
  | cons digest rest ih =>
    intro report m clock
    refine Does.bind (detachSourceFromObject_does digest sourceKind sourceName) ?_ ?_
    · rintro out m₁ c₁ ⟨hlater₁, -, hdetached⟩
      refine Does.mono (ih _ m₁ c₁) ?_
      rintro r m' c' ⟨hlater, hr, hrest⟩
      exact ⟨hlater₁.trans hlater, hr, .cons hdetached hrest⟩
    · rintro e m₁ c₁ ⟨-, ⟨_, heq⟩, -⟩
      cases heq

/-- The objects `DeleteImport` detaches a source from. -/
def Meta.ofSource (m : Meta D) (sourceKind sourceName : String) : List D :=
  (m.manifests.entries.filter fun item =>
    manifestHasSource item.2 sourceKind sourceName).map Prod.fst

/-- **`DeleteImport`.** -/
theorem deleteImport_does (sourceKind sourceName : String) :
    Does E (deleteImport E sourceKind sourceName) m clock fun r m' clock' =>
      Later clock clock' ∧ ((∃ e, r = .error e ∧ m' = m) ∨
        (∃ out, r = .ok out) ∧
          Detaches E sourceKind sourceName (m.ofSource sourceKind sourceName) m m') := by
  rw [deleteImport]
  split
  · exact .fail ⟨.refl _, Or.inl ⟨_, rfl, rfl⟩⟩
  · refine Does.ask rfl fun manifests hmanifests => ?_
    have hmanifests : manifests = m.manifests.entries := hmanifests
    subst hmanifests
    refine Does.mono (detachAll_does sourceKind sourceName _ _ m clock) ?_
    rintro r m' c' ⟨hlater, hr, hdetaches⟩
    exact ⟨hlater, Or.inr ⟨hr, hdetaches⟩⟩

/-! ## Sequences of calls -/

/-- The stores reached from `start` by calls, successful or not, each of which meets a
condition on the store before it. -/
inductive CallsFrom (E : Env D) (cond : World D → Call D → Prop) (start : World D) :
    World D → Prop where
  | start : CallsFrom E cond start start
  | call {op : Call D} {r : Except String (Option D)} {w w' : World D} :
      CallsFrom E cond start w → cond w op → runAlone E (op.prog E) w = some (r, w') →
      CallsFrom E cond start w'

theorem CallsFrom.reachable {w : World D} (h : CallsFrom E cond { clock := clock } w) :
    Reachable E SweepsWhole w := by
  induction h with
  | start => exact .empty clock
  | call _ _ hrun ih => exact ih.call hrun

/-- Evaluate a condition before each call of a sequence. -/
def checkSequence (E : Env D) (cond : World D → Call D → Prop) [∀ w op, Decidable (cond w op)] :
    List (Call D) → World D → Bool
  | [], _ => true
  | op :: rest, w => decide (cond w op) &&
    match runAlone E (op.prog E) w with
    | none => true
    | some out => checkSequence E cond rest out.2

/-- By induction on the calls, each of which is checked in the state it starts from. -/
theorem CallsFrom.sequence [∀ w op, Decidable (cond w op)] {start : World D} :
    ∀ {calls : List (Call D)} {w w' : World D}, CallsFrom E cond start w →
      checkSequence E cond calls w = true → runSequence E calls w = some w' →
      CallsFrom E cond start w' := by
  intro calls
  induction calls with
  | nil =>
    intro w w' h _ hrun
    cases hrun
    exact h
  | cons op rest ih =>
    intro w w' h hcheck hrun
    rw [checkSequence, Bool.and_eq_true, decide_eq_true_eq] at hcheck
    rw [runSequence] at hrun
    cases hop : runAlone E (op.prog E) w with
    | none => rw [hop] at hrun; cases hrun
    | some out =>
      rw [hop] at hrun hcheck
      exact ih (h.call hcheck.1 hop) hcheck.2 hrun

end Gmeow
