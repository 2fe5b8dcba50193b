import Gmeow.Sources

/-!
# Attaching provenance again

`AttachProvenance` writes the manifest first and the rows of the source index behind it. If a write
fails in between, the caller tries again, but the manifest then lists the references already, and
the call returns without a write.

* `FailsTo` — an attempt that stops at some request, with what it has committed by then; the lock
  is released;
* `StopsClean`, `Retries` — attempts that stop before their first commit or behind that of the last
  index row;
* `attaching_invariant` — what the tables hold at any such point: the manifest lists the
  references, and each row that was committed is there;
* `attach_retry_finds` — behind those, an attempt that succeeds leaves every reference found;
* `attach_retry_loses` — an attempt that stops between the manifest and the index.
-/

namespace Gmeow

open Prog

variable {D : Type} [LinearOrder D] {E : Env D} {m m' : Meta D}

/-- A call fails at some request, when it knows `k`: what it did before stays, and its lock is
released. -/
def FailsTo {α : Type} (E : Env D) (p : Proc D α) (w : World D) (k : Observed D) (w' : World D) :
    Prop :=
  ∃ w₁, Visits (watched E) p (w, {}) (w₁, k) ∧ w' = { w₁ with locks := w.locks }

/-- The references given have rows that lead to objects that carry them. -/
def GivenIndexed (E : Env D) (provenance : List Provenance) (m : Meta D) : Prop :=
  ∀ item ∈ provenance, (sourceObjectRefFromProvenance item).Full →
    Indexed E m (sourceObjectRefFromProvenance item)

/-- Some batch of these has a row for the reference. -/
def RowCommitted (E : Env D) (commits : List (List (Write D))) (ref : SourceObjectRef) : Prop :=
  ∃ batch ∈ commits, ∃ write ∈ batch, ∃ value, write = .sourceIndex (sourceObjectRefKey E ref) value

/-- **Where an attempt may stop**: before its first commit, or behind that of the index rows of all
references with a kind, a name and an id. -/
def StopsClean (E : Env D) (provenance : List Provenance) (k : Observed D) : Prop :=
  k.commits = [] ∨ ∀ item ∈ provenance, (sourceObjectRefFromProvenance item).Full →
    RowCommitted E k.commits (sourceObjectRefFromProvenance item)

/-- Attempts that fail, each at such a point. -/
inductive Retries (E : Env D) (digest : D) (provenance : List Provenance) (w : World D) :
    World D → Prop where
  | first : Retries E digest provenance w w
  | again {w₁ w₂ : World D} {k : Observed D} : Retries E digest provenance w w₁ →
      FailsTo E (attachProvenance E digest provenance) w₁ k w₂ → StopsClean E provenance k →
      Retries E digest provenance w w₂

/-! ## What an attempt commits -/

section Attaching

variable {digest : D} {provenance : List Provenance} {k : Observed D} {w w' : World D}

/-- The references are listed, up to their keys. -/
def Lists (E : Env D) (provenance : List Provenance) (manifest : Manifest D) : Prop :=
  ∀ item ∈ provenance, ∃ other ∈ manifest.provenance,
    sourceObjectRefKey E (sourceObjectRefFromProvenance other) =
      sourceObjectRefKey E (sourceObjectRefFromProvenance item)

/-- The row of a reference that was given, to the object. -/
def LeadsTo (digest : D) (provenance : List Provenance) (E : Env D) (key : String)
    (value : Option (SourceIndexEntry D)) : Prop :=
  ∃ item ∈ provenance, key = sourceObjectRefKey E (sourceObjectRefFromProvenance item) ∧
    ∃ entry, value = some entry ∧ entry.sourceObject = sourceObjectRefFromProvenance item ∧
      entry.objectDigest = digest

/-- What an attempt may write: the manifest of the object, with the references in it, and their
rows; beside these, aliases and the change index. -/
def Attaches (E : Env D) (digest : D) (provenance : List Provenance) : Write D → Prop
  | .manifest key value =>
    key = digest ∧ ∃ manifest, value = some manifest ∧ Lists E provenance manifest
  | .sourceIndex key value => LeadsTo digest provenance E key value
  | _ => True

/-- An attempt commits the manifest first. -/
def Attaching (E : Env D) (digest : D) (provenance : List Provenance) (k : Observed D)
    (writes : List (Write D)) : Prop :=
  (∀ write ∈ writes, Attaches E digest provenance write) ∧
    (k.commits = [] → ∃ value, Write.manifest digest value ∈ writes)

/-- A single row behind the manifest. -/
theorem attaching_row {write : Write D} (h : Attaches E digest provenance write)
    (hk : k.commits ≠ []) : Attaching E digest provenance k [write] :=
  ⟨fun _ hmem => List.mem_singleton.mp hmem ▸ h, fun hnil => absurd hnil hk⟩

theorem recordProjectionChangeTo_attaching (changedAt : Time) (hk : k.commits ≠ []) :
    (recordProjectionChangeTo .sync digest changedAt).Obeys
      (commitContract E (Attaching E digest provenance)) k fun _ k' => k'.commits ≠ [] := by
  have hrows : ∀ k₁ : Observed D, k₁.commits ≠ [] → ∀ entry : ProjectionChange D,
      (Sink.sync.write (.change entry.key (some entry)) >>= fun sink =>
        sink.write (.latest digest (some entry)) : Proc D (Sink D)).Obeys
        (commitContract E (Attaching E digest provenance)) k₁ fun _ k' => k'.commits ≠ [] :=
    fun k₁ hk₁ entry => ⟨attaching_row trivial hk₁, fun _ _ =>
      ⟨attaching_row trivial (List.cons_ne_nil _ _), fun _ _ => List.cons_ne_nil _ _⟩⟩
  rw [recordProjectionChangeTo]
  split
  · exact hk
  refine ⟨trivial, fun previous _ => ?_⟩
  cases previous with
  | none => exact hrows _ hk _
  | some previous =>
    exact ⟨attaching_row trivial hk, fun _ _ => hrows _ (List.cons_ne_nil _ _) _⟩

theorem recordSourceRefs_attaching (updatedAt : Time) (rest : List Provenance)
    (hrest : ∀ item ∈ rest, item ∈ provenance) (hk : k.commits ≠ []) :
    (recordSourceRefs E digest updatedAt .sync rest).Obeys
      (commitContract E (Attaching E digest provenance)) k fun _ _ => True := by
  induction rest generalizing k with
  | nil => exact trivial
  | cons item rest ih =>
    obtain ⟨hitem, hrest⟩ := List.forall_mem_cons.mp hrest
    rw [recordSourceRefs]
    split
    · exact ih hrest hk
    cases validateSourceObjectRef (sourceObjectRefFromProvenance item) with
    | error e => exact trivial
    | ok u =>
      exact ⟨attaching_row ⟨item, hitem, rfl, _, rfl, rfl, rfl⟩ hk, fun _ _ =>
        ⟨trivial, fun now _ => ⟨attaching_row trivial (List.cons_ne_nil _ _), fun _ _ =>
          ih hrest (List.cons_ne_nil _ _)⟩⟩⟩

/-- **What `AttachProvenance` commits**: the manifest with the references merged in, and then rows
of the change index, of the source index and aliases, one by one. -/
theorem attachProvenance_attaching (digest : D) (provenance : List Provenance) :
    (attachProvenance E digest provenance).Obeys
      (commitContract E (Attaching E digest provenance)) {} fun _ _ => True := by
  rw [attachProvenance]
  split
  · exact trivial
  cases validateProvenance provenance with
  | error e => exact trivial
  | ok u =>
    refine withLock_commits ⟨trivial, fun found _ => ?_⟩
    cases found with
    | none => exact trivial
    | some manifest =>
      show ((if _ then _ else _ : Proc D _)).Obeys _ _ _
      split
      · refine ⟨trivial, fun now _ => ⟨⟨fun write hmem => ?_, fun _ => ⟨_, List.mem_cons_self⟩⟩,
          fun _ _ => ?_⟩⟩
        · -- the merge drops no key
          obtain rfl := List.mem_singleton.mp hmem
          refine ⟨rfl, _, rfl, fun item hitem => ?_⟩
          obtain ⟨other, hother, hkey⟩ := mergeProvenance_key (.inr hitem)
          exact ⟨other, hother, by rw [sourceObjectRefKey_mergeKey, hkey]; rfl⟩
        · refine obeys_bind.mpr (obeys_bind.mpr ((recordProjectionChangeTo_attaching now
            (List.cons_ne_nil _ _)).mono ?_))
          rintro (e | sink) k₁ hk₁
          · exact trivial
          refine obeys_void (Q := fun _ _ => True) ?_
          rw [recordSourceObjectIndexesTo]
          split
          · exact trivial
          · exact ⟨trivial, fun updatedAt _ =>
              recordSourceRefs_attaching updatedAt provenance (fun _ h => h) hk₁⟩
      · exact trivial

/-- What the tables hold while an attempt is under way. -/
structure Attached (E : Env D) (digest : D) (provenance : List Provenance) (before : Meta D)
    (w : World D) (k : Observed D) : Prop where
  unwritten : k.commits = [] → w.db = before
  manifest : k.commits ≠ [] → ∃ manifest, w.db.manifests.get digest = some manifest ∧
    Lists E provenance manifest
  rows : ∀ batch ∈ k.commits, ∀ key value, Write.sourceIndex key value ∈ batch →
    LeadsTo digest provenance E key (w.db.sourceIndex.get key)

/-- A batch that is allowed: each row of this batch or an earlier one is there, or was replaced by
another row for a reference with its key. -/
theorem Attached.commit {before : Meta D} {writes : List (Write D)}
    (h : Attached E digest provenance before w k) (hw : Attaching E digest provenance k writes) :
    Attached E digest provenance before { w with db := w.db.applyAll writes }
      (learn k (.commit writes) ()) := by
  obtain ⟨hwrites, hfirst⟩ := hw
  refine ⟨fun hnil => absurd hnil (List.cons_ne_nil _ _), fun _ => ?_, fun batch hbatch key value
    hmem => ?_⟩
  · rcases w.db.applyAll_manifests writes digest with ⟨value, hvalue, hget⟩ | ⟨hnone, hget⟩
    · obtain ⟨-, manifest, rfl, hlists⟩ := hwrites _ hvalue
      exact ⟨manifest, hget, hlists⟩
    · obtain ⟨manifest, hold, hlists⟩ := h.manifest fun hnil => by
        obtain ⟨value, hvalue⟩ := hfirst hnil
        exact hnone value hvalue
      exact ⟨manifest, hget.trans hold, hlists⟩
  · show LeadsTo digest provenance E key ((w.db.applyAll writes).sourceIndex.get key)
    rcases w.db.applyAll_sourceIndex writes key with ⟨value, hvalue, hget⟩ | ⟨hnone, hget⟩
    · rw [hget]
      exact hwrites _ hvalue
    · rw [hget]
      rcases List.mem_cons.mp hbatch with rfl | hbatch
      · exact absurd hmem (hnone value)
      · exact h.rows batch hbatch key value hmem

/-- **At any point of an attempt**: before its first commit nothing has changed, behind it the
manifest lists the references, and the rows that were committed are there. -/
theorem attaching_invariant {w : World D}
    (hv : Visits (watched E) (attachProvenance E digest provenance) (w, {}) (w', k)) :
    Attached E digest provenance w.db w' k := by
  have hkeeps : (commitContract E (Attaching E digest provenance)).Keeps (handle E)
      (Attached E digest provenance w.db) := by
    intro w₁ k₁ p r w₂ hi hpre hp
    refine ⟨handle_objectContract none hp, ?_⟩
    by_cases hf : p.footprint = .db
    · cases p with
      | commit writes =>
        cases hp
        exact hi.commit hpre
      | _ => cases hf
    · have hdb := (handle_sameBut hp).db hf
      have hcommits := learn_commits k₁ r hf
      refine ⟨fun hnil => hdb.trans (hi.unwritten (hcommits ▸ hnil)), fun hne => ?_, ?_⟩
      · rw [hdb]
        exact hi.manifest (hcommits ▸ hne)
      · show ∀ batch ∈ (learn k₁ p r).commits, _
        rw [hdb, hcommits]
        exact hi.rows
  exact (attachProvenance_attaching digest provenance).watched hkeeps
    ⟨fun _ => rfl, fun hne => absurd rfl hne, fun _ hmem => nomatch hmem⟩ hv

/-- **Behind its index rows an attempt has indexed what it was given**, if keys are not shared: the
row of a reference leads to the object, and the manifest of the object lists the reference. -/
theorem Attached.givenIndexed {before : Meta D} (h : Attached E digest provenance before w k)
    (hrows : ∀ item ∈ provenance, (sourceObjectRefFromProvenance item).Full →
      RowCommitted E k.commits (sourceObjectRefFromProvenance item))
    (hapart : KeysApart E (w.db.carried ++ provenance.map sourceObjectRefFromProvenance)) :
    GivenIndexed E provenance w.db := by
  intro item hitem hfull
  have hgiven : ∀ other ∈ provenance, sourceObjectRefFromProvenance other ∈
      w.db.carried ++ provenance.map sourceObjectRefFromProvenance := fun other hother =>
    List.mem_append_right _ (List.mem_map.mpr ⟨other, hother, rfl⟩)
  obtain ⟨batch, hbatch, write, hwrite, value, rfl⟩ := hrows item hitem hfull
  obtain ⟨other, hother, hkey, entry, hget, hrow, howner⟩ := h.rows batch hbatch _ _ hwrite
  obtain ⟨manifest, hmanifest, hlists⟩ := h.manifest (List.ne_nil_of_mem hbatch)
  obtain ⟨listed, hlisted, hkey'⟩ := hlists item hitem
  have hcarries : Carries w.db digest (sourceObjectRefFromProvenance listed) :=
    carries_iff.mpr ⟨manifest, hmanifest, listed, hlisted, rfl⟩
  have hsame := hapart _ (hgiven item hitem) _ (hgiven other hother) hkey
  have hsame' := hapart _ (List.mem_append_left _ hcarries.mem) _ (hgiven item hitem) hkey'
  exact ⟨entry, hget, hrow.trans hsame.symm, howner ▸ hsame' ▸ hcarries⟩

end Attaching

section Retrying

variable {digest : D} {provenance : List Provenance} {manifest : Manifest D} {w w₁ w' : World D}

/-- A reference that was added is there. -/
theorem mem_of_addsNew_eq_false {existing : List Provenance}
    (h : provenanceAddsNew existing provenance = false) {item : Provenance}
    (hitem : item ∈ provenance) :
    ∃ other ∈ existing, provenanceMergeKey other = provenanceMergeKey item := by
  have hknown := List.any_eq_false.mp h item hitem
  rw [Bool.not_eq_true, Bool.not_eq_false', List.contains_iff_mem] at hknown
  exact List.mem_map.mp hknown

/-- A write of an object leaves the references given indexed, if keys are not shared. -/
theorem Updated.givenIndexed (hupdated : Updated E digest manifest provenance m m')
    (habsorbs : Absorbs E m digest provenance manifest)
    (hapart : KeysApart E (m.carried ++ provenance.map sourceObjectRefFromProvenance)) :
    GivenIndexed E provenance m' := by
  intro item hitem hfull
  obtain ⟨rows, hrows, hindex, -⟩ := hupdated.rows
  have hgiven : ∀ other ∈ provenance, sourceObjectRefFromProvenance other ∈
      m.carried ++ provenance.map sourceObjectRefFromProvenance := fun other hother =>
    List.mem_append_right _ (List.mem_map.mpr ⟨other, hother, rfl⟩)
  -- the manifest has an entry with the key of the reference, which is this reference
  have hcarries : Carries m' digest (sourceObjectRefFromProvenance item) := by
    obtain ⟨other, hother, hkey⟩ := habsorbs.given item hitem
    have hknown : sourceObjectRefFromProvenance other ∈
        m.carried ++ provenance.map sourceObjectRefFromProvenance := by
      rcases habsorbs.source other hother with hold | hnew
      · exact List.mem_append_left _ hold.mem
      · exact hgiven other hnew
    rw [carries_set hupdated.manifests, if_pos rfl, ← hapart _ hknown _ (hgiven item hitem) hkey]
    exact List.mem_map.mpr ⟨other, hother, rfl⟩
  rw [Indexed, hindex]
  rcases hrows.get m (sourceObjectRefKey E (sourceObjectRefFromProvenance item)) with
    ⟨other, hother, entry, hget, hkey, howner, hrow⟩ | ⟨-, hnone⟩
  · have hsame := hapart _ (hgiven item hitem) _ (hgiven other hother) hkey
    exact ⟨entry, hget, hrow.trans hsame.symm, howner ▸ hcarries⟩
  · exact absurd rfl (hnone item hitem hfull)

/-- Where the manifest lists the references already, the index has them. -/
theorem SourcesIndexed.givenIndexed (h : SourcesIndexed E (fun _ => True) m)
    (hapart : KeysApart E (m.carried ++ provenance.map sourceObjectRefFromProvenance))
    (hget : m.manifests.get digest = some manifest)
    (hold : provenanceAddsNew manifest.provenance provenance = false) :
    GivenIndexed E provenance m := by
  intro item hitem hfull
  obtain ⟨other, hother, hkey⟩ := mem_of_addsNew_eq_false hold hitem
  have hcarries : Carries m digest (sourceObjectRefFromProvenance other) :=
    carries_iff.mpr ⟨manifest, hget, other, hother, rfl⟩
  have hsame : sourceObjectRefFromProvenance other = sourceObjectRefFromProvenance item := by
    refine hapart _ (List.mem_append_left _ hcarries.mem) _
      (List.mem_append_right _ (List.mem_map.mpr ⟨item, hitem, rfl⟩)) ?_
    rw [sourceObjectRefKey_mergeKey, sourceObjectRefKey_mergeKey, hkey]
  rw [hsame] at hcarries
  exact h.rows digest _ hcarries hfull trivial

/-- Behind such failures, nothing was written or the references are indexed. -/
theorem Retries.clean (h : Retries E digest provenance w w₁)
    (hapart : KeysApart E (w₁.db.carried ++ provenance.map sourceObjectRefFromProvenance)) :
    w₁.db = w.db ∨ GivenIndexed E provenance w₁.db := by
  induction h with
  | first => exact .inl rfl
  | again _ hfails hclean ih =>
    obtain ⟨w₂, hv, rfl⟩ := hfails
    have hattached := attaching_invariant hv
    rcases hclean with hnone | hrows
    · have hsame := hattached.unwritten hnone
      rw [show ({ w₂ with locks := _ } : World D).db = _ from hsame] at hapart ⊢
      exact ih hapart
    · exact .inr (hattached.givenIndexed hrows hapart)

/-- An attempt that succeeds was given valid references. -/
theorem valid_of_attached {changed : Bool}
    (hrun : runAlone E (attachProvenance E digest provenance) w = some (.ok changed, w')) :
    validateProvenance provenance = .ok () := by
  rw [attachProvenance] at hrun
  split at hrun
  · cases hrun
  · cases hvalid : validateProvenance provenance with
    | ok u => rfl
    | error e =>
      rw [hvalid] at hrun
      cases hrun

/-- **`AttachProvenance` may be tried again,** if each attempt that fails stops before its first
write or behind its last index row: once an attempt succeeds, every reference with a kind, a name
and an id is found, and the object found carries it. -/
theorem attach_retry_finds (hindexed : SourcesIndexed E (fun _ => True) w.db)
    (hretries : Retries E digest provenance w w₁)
    (hapart : KeysApart E (w₁.db.carried ++ provenance.map sourceObjectRefFromProvenance))
    {changed : Bool} (hrun : runAlone E (attachProvenance E digest provenance) w₁ =
      some (.ok changed, w')) {item : Provenance} (hitem : item ∈ provenance)
    (hfull : (sourceObjectRefFromProvenance item).Full) :
    ∃ found, ReadsBack E (lookupSourceObject E { } (sourceObjectRefFromProvenance item)) w'
        (some found) ∧
      Carries w'.db found (sourceObjectRefFromProvenance item) := by
  have hvalid := validateProvenance_ok (valid_of_attached hrun) item hitem
  refine lookupSourceObject_finds { } hvalid ?_
  obtain ⟨-, ⟨hsame, hold⟩ | ⟨-, manifest, hget, hupdated⟩⟩ :=
    (attachProvenance_does digest provenance).run hrun
  · obtain ⟨-, manifest, hget, hold⟩ := hold changed rfl
    rw [hsame]
    rcases hretries.clean hapart with hdb | hgiven
    · rw [hdb] at hget hapart ⊢
      exact hindexed.givenIndexed hapart hget hold item hitem hfull
    · exact hgiven item hitem hfull
  · exact hupdated.givenIndexed (.merge hget (fun _ => Iff.rfl) rfl) hapart item hitem hfull

end Retrying

/-! ## Stopped behind the manifest -/

/-- A letter without a source. -/
def putUnseen : Call Nat :=
  .put { reader := .short (utf8 "a") short_a, facets := [{ kind := "file" }] }

/-- The message is attached to the letter. -/
def attachSeen : Proc Nat Bool :=
  attachProvenance namedEnv (namedEnv.blake3Hex (utf8 "a")) [seenMessage]

/-- An attempt that stops behind some requests, what it has committed, and one that ends. -/
def retryOnce {α : Type} (E : Env D) (p : Proc D α) (requests : Nat) (w : World D) :
    Option ((Observed D × World D) × α × World D) := do
  let (stopped, k) ← stateAfter (watched E) requests p (w, {})
  match runAlone E p { stopped with locks := w.locks } with
  | some (.ok value, w') => some ((k, { stopped with locks := w.locks }), value, w')
  | _ => none

theorem retryOnce_spec {α : Type} {p : Proc D α} {requests : Nat} {w w₁ w' : World D} {value : α}
    {k : Observed D} (h : retryOnce E p requests w = some ((k, w₁), value, w')) :
    FailsTo E p w k w₁ ∧ runAlone E p w₁ = some (.ok value, w') := by
  obtain ⟨⟨stopped, k'⟩, hstopped, h⟩ := Option.bind_eq_some_iff.mp h
  dsimp only at h
  split at h
  · rename_i hrun
    cases h
    exact ⟨⟨stopped, .of_stateAfter hstopped, rfl⟩, hrun⟩
  · cases h

/-- `RowCommitted`, evaluated. -/
def rowCommitted (E : Env D) (commits : List (List (Write D))) (ref : SourceObjectRef) : Bool :=
  commits.any fun batch => batch.any fun
    | .sourceIndex key _ => decide (key = sourceObjectRefKey E ref)
    | _ => false

theorem RowCommitted.of_check {commits : List (List (Write D))} {ref : SourceObjectRef}
    (h : rowCommitted E commits ref = true) : RowCommitted E commits ref := by
  obtain ⟨batch, hbatch, hany⟩ := List.any_eq_true.mp h
  obtain ⟨write, hwrite, hkey⟩ := List.any_eq_true.mp hany
  split at hkey
  · obtain rfl := of_decide_eq_true hkey
    exact ⟨batch, hbatch, _, hwrite, _, rfl⟩
  · cases hkey

/-- An attempt that stops behind the index row, when the alias is to be written. -/
theorem attach_retry_finds_indexed :
    ∃ (w w₁ w' : World Nat) (k : Observed Nat), runSequence namedEnv [putUnseen] { } = some w ∧
      FailsTo namedEnv attachSeen w k w₁ ∧ runAlone namedEnv attachSeen w₁ = some (.ok false, w') ∧
      ∃ found, ReadsBack namedEnv (lookupSourceObject namedEnv { }
          (sourceObjectRefFromProvenance seenMessage)) w' (some found) ∧
        Carries w'.db found (sourceObjectRefFromProvenance seenMessage) := by
  have heval : (checkSequence namedEnv (SourcesKept namedEnv) [putUnseen] { } &&
      (runSequence namedEnv [putUnseen] { }).any fun w =>
        (retryOnce namedEnv attachSeen 11 w).any fun out => !out.2.1 &&
          (rowCommitted namedEnv out.1.1.commits (sourceObjectRefFromProvenance seenMessage) &&
            decide (KeysApart namedEnv (out.1.2.db.carried ++
              [seenMessage].map sourceObjectRefFromProvenance)))) = true := by
    decide +kernel
  rw [Bool.and_eq_true] at heval
  obtain ⟨hcheck, heval⟩ := heval
  obtain ⟨w, hw, heval⟩ := (Option.any_eq_true _ _).mp heval
  obtain ⟨⟨⟨k, w₁⟩, changed, w'⟩, hout, heval⟩ := (Option.any_eq_true _ _).mp heval
  rw [Bool.and_eq_true, Bool.and_eq_true, Bool.not_eq_true', decide_eq_true_eq] at heval
  obtain ⟨rfl, hrow, hapart⟩ := heval
  obtain ⟨hfails, hrun⟩ := retryOnce_spec hout
  have hclean : StopsClean namedEnv [seenMessage] k := .inr fun item hitem _ => by
    rw [List.mem_singleton.mp hitem]
    exact .of_check hrow
  have hstart : CallsFrom namedEnv (SourcesKept namedEnv) { } w := .sequence .start hcheck hw
  exact ⟨w, w₁, w', k, hw, hfails, hrun, attach_retry_finds hstart.sourcesIndexed
    (.again .first hfails hclean) hapart hrun List.mem_cons_self (by decide)⟩

/-- **An attempt that stops behind the manifest:** the next one writes nothing and succeeds, and
the reference is not found. -/
theorem attach_retry_loses :
    ∃ (w w₁ w' : World Nat) (k : Observed Nat), runSequence namedEnv [putUnseen] { } = some w ∧
      FailsTo namedEnv attachSeen w k w₁ ∧ runAlone namedEnv attachSeen w₁ = some (.ok false, w') ∧
      (sourceObjectRefFromProvenance seenMessage).Full ∧
      ReadsBack namedEnv (lookupSourceObject namedEnv { }
        (sourceObjectRefFromProvenance seenMessage)) w' none := by
  have heval : ((runSequence namedEnv [putUnseen] { }).any fun w =>
      (retryOnce namedEnv attachSeen 4 w).any fun out => !out.2.1 &&
        decide (readResult namedEnv (lookupSourceObject namedEnv { }
          (sourceObjectRefFromProvenance seenMessage)) out.2.2 = some none)) = true := by
    decide +kernel
  obtain ⟨w, hw, heval⟩ := (Option.any_eq_true _ _).mp heval
  obtain ⟨⟨⟨k, w₁⟩, changed, w'⟩, hout, heval⟩ := (Option.any_eq_true _ _).mp heval
  rw [Bool.and_eq_true, Bool.not_eq_true', decide_eq_true_eq] at heval
  obtain ⟨rfl, hread⟩ := heval
  obtain ⟨hfails, hrun⟩ := retryOnce_spec hout
  exact ⟨w, w₁, w', k, hw, hfails, hrun, by decide, readsBack_of_result hread⟩

end Gmeow
