import Gmeow.Calls

/-!
# Projections

`WalkProjection` visits every object with its annotations; `WalkChangedProjection` visits
those changed after a time, found through the change index. The index keeps one key per
digest, moved by every write; what an object's last change is, is read off its manifest and
its annotations.

* `ChangesIndexed` — the two tables of the change index say the same;
* `Yields` — what a program that only reads returns, in every sound store with given tables;
* `walkProjectionWith_yields`, `walkChangedProjection_yields` — what the two walks visit.
-/

namespace Gmeow

open Prog

variable {D : Type} [LinearOrder D] {E : Env D} {m m' : Meta D} {clock clock' : Nat → Time}

/-! ## The walks -/

/-- `ProjectionFinding`; the path follows from the digest. -/
structure ProjectionFinding (D : Type) : Type where
  digest : D
  code : String
  message : String
  deriving DecidableEq

/-- `ProjectionObject`; the path follows from the digest. -/
structure ProjectionObject (D : Type) [LinearOrder D] : Type where
  digest : D
  manifest : Manifest D
  annotations : List (AnnotationRecord D) := []
  findings : List (ProjectionFinding D) := []
  deriving DecidableEq

/-- `attachProjectionAnnotations`: an annotation that cannot be read is a finding. -/
def attachProjectionAnnotations (E : Env D) (object : ProjectionObject D) :
    Proc D (ProjectionObject D) := do
  match ← (readPackedAnnotations E object.digest).attempt with
  | .error e => return { object with findings := object.findings ++
      [{ digest := object.digest, code := "annotation_read_failed", message := e }] }
  | .ok notes => return { object with annotations := object.annotations ++ notes }

/-- `ProjectionObject`. -/
def projectionObject (E : Env D) (digest : D) : Proc D (Option (ProjectionObject D)) := do
  match ← ask (.getManifest digest) with
  | none => return none
  | some manifest =>
    let object ← attachProjectionAnnotations E { digest := digest, manifest := manifest }
    return some object

/-- The loop of `WalkProjection`; `fn` returns what it hands on. -/
def walkManifests (E : Env D) (fn : ProjectionObject D → Proc D (List (ProjectionObject D))) :
    List (D × Manifest D) → Proc D (List (ProjectionObject D))
  | [] => return []
  | item :: rest => do
    let object ← attachProjectionAnnotations E { digest := item.1, manifest := item.2 }
    let visited ← fn object
    let more ← walkManifests E fn rest
    return visited ++ more

/-- `WalkProjection` with a callback. -/
def walkProjectionWith (E : Env D) (fn : ProjectionObject D → Proc D (List (ProjectionObject D))) :
    Proc D (List (ProjectionObject D)) := do
  let manifests ← ask .scanManifests
  walkManifests E fn manifests

/-- `WalkProjection`: the objects visited. -/
def walkProjection (E : Env D) : Proc D (List (ProjectionObject D)) :=
  walkProjectionWith E fun object => return [object]

/-- `projectionObjectChangedAfter`. -/
def projectionObjectChangedAfter (object : ProjectionObject D) (since : Time) : Bool :=
  if since = zeroTime then true
  else if since < object.manifest.updatedAt ∨ since < object.manifest.createdAt then true
  else object.annotations.any fun note => since < note.generatedAt

/-- `projectionObjectChangedAt`. -/
def projectionObjectChangedAt (object : ProjectionObject D) : Time :=
  object.annotations.foldl (fun changedAt note => max changedAt note.generatedAt)
    (max object.manifest.updatedAt object.manifest.createdAt)

/-- `projectionChangeScanLowerBound`; the nanosecond after `since` may wrap around. -/
def projectionChangeScanLowerBound (since : Time) : Nat ×ₗ Nat :=
  changeStamp (unixNano (unixNano since + 1))

/-- `projectionChangeDigestFromKey`. -/
def projectionChangeDigestFromKey (key : ChangeKey D) : D := (ofLex (ofLex key).2).2

/-- The scan of `WalkChangedProjection`: each digest once. -/
def visitChanged (E : Env D) (since : Time) :
    List D → List D → Proc D (List (ProjectionObject D))
  | _, [] => return []
  | seen, digest :: rest =>
    if seen.contains digest then visitChanged E since seen rest
    else do
      let found ← projectionObject E digest
      let more ← visitChanged E since (digest :: seen) rest
      match found with
      | none => return more
      | some object =>
        if object.findings ≠ [] ∨ projectionObjectChangedAfter object since = true then
          return object :: more
        else return more

/-- `WalkChangedProjection`: the objects visited. Without any key in range it falls back to
the full walk and indexes what it visits. -/
def walkChangedProjection (E : Env D) (since : Time) : Proc D (List (ProjectionObject D)) := do
  if since = zeroTime then walkProjection E
  else
    let keys ← ask (.scanChanges (projectionChangeScanLowerBound since))
    let visited ← visitChanged E since []
      (keys.map fun item => projectionChangeDigestFromKey item.1)
    if keys ≠ [] then return visited
    else
      walkProjectionWith E fun object =>
        if object.findings ≠ [] ∨ projectionObjectChangedAfter object since = true then do
          if object.findings = [] then
            let _ ← recordProjectionChangeTo .sync object.digest (projectionObjectChangedAt object)
          return [object]
        else return []

/-! ## The change index -/

/-- The two tables of the change index say the same: one key per digest, the latest. -/
structure ChangesIndexed (m : Meta D) : Prop where
  latest : ∀ digest entry, m.latest.get digest = some entry →
    entry = changeEntry digest entry.changedAt
  changes : ∀ key entry, m.changes.get key = some entry ↔
    m.latest.get entry.digest = some entry ∧ key = entry.key

variable {digest : D} {changedAt : Time}

omit [LinearOrder D] in
theorem changeEntry_key_ne {other : D} (h : other ≠ digest) (s t : Time) :
    (changeEntry other s).key ≠ (changeEntry digest t).key :=
  fun heq => h (congrArg projectionChangeDigestFromKey heq)

/-- The latest change after a stamp. -/
theorem Stamp.latest_get (h : Stamp digest changedAt m m') (hne : changedAt ≠ zeroTime)
    (other : D) :
    m'.latest.get other =
      if other = digest then some (changeEntry digest changedAt) else m.latest.get other := by
  rw [h.latest, changeWrites, if_neg hne]
  cases m.latest.get digest with
  | none => exact OrdMap.get_set ..
  | some previous => exact OrdMap.get_set ..

/-- The change keys after a stamp. -/
theorem Stamp.changes_get (h : Stamp digest changedAt m m') (hne : changedAt ≠ zeroTime)
    (key : ChangeKey D) :
    m'.changes.get key =
      if key = (changeEntry digest changedAt).key then some (changeEntry digest changedAt)
      else if ∃ previous, m.latest.get digest = some previous ∧ key = previous.key then none
      else m.changes.get key := by
  rw [h.changes, changeWrites, if_neg hne]
  cases m.latest.get digest with
  | none =>
    have hnone : ¬∃ previous, (none : Option (ProjectionChange D)) = some previous ∧
        key = previous.key := by
      rintro ⟨_, heq, -⟩
      cases heq
    rw [if_neg hnone]
    exact OrdMap.get_set ..
  | some previous =>
    have hsome : (∃ other, some previous = some other ∧ key = other.key) ↔ key = previous.key := by
      simp
    show ((m.changes.erase previous.key).set _ _).get key = _
    rw [OrdMap.get_set, OrdMap.get_erase]
    simp only [hsome]

/-- Moving a key keeps the index consistent. -/
theorem ChangesIndexed.stamp (hi : ChangesIndexed m) (h : Stamp digest changedAt m m')
    (hne : changedAt ≠ zeroTime) : ChangesIndexed m' := by
  refine ⟨fun other entry hget => ?_, fun key entry => ?_⟩
  · rw [h.latest_get hne] at hget
    split at hget
    · rename_i heq
      cases hget
      rw [heq]
      rfl
    · exact hi.latest other entry hget
  · rw [h.changes_get hne, h.latest_get hne]
    constructor
    · intro hget
      split at hget
      · rename_i hkey
        cases hget
        exact ⟨if_pos rfl, hkey⟩
      · split at hget
        · cases hget
        · rename_i hprevious
          obtain ⟨hlatest, rfl⟩ := (hi.changes key entry).mp hget
          have hother : entry.digest ≠ digest := by
            rintro heq
            rw [heq] at hlatest
            exact hprevious ⟨entry, hlatest, rfl⟩
          exact ⟨(if_neg hother).trans hlatest, rfl⟩
    · rintro ⟨hlatest, rfl⟩
      split at hlatest
      · cases hlatest
        exact if_pos rfl
      · rename_i hother
        have hentry := hi.latest _ entry hlatest
        rw [if_neg, if_neg]
        · exact (hi.changes _ entry).mpr ⟨hlatest, rfl⟩
        · rintro ⟨previous, hprevious, hkey⟩
          rw [hentry, hi.latest _ previous hprevious] at hkey
          exact changeEntry_key_ne hother _ _ hkey
        · intro hkey
          rw [hentry] at hkey
          exact changeEntry_key_ne hother _ _ hkey

theorem ChangesIndexed.same (hi : ChangesIndexed m) (hchanges : m'.changes = m.changes)
    (hlatest : m'.latest = m.latest) : ChangesIndexed m' := by
  refine ⟨?_, ?_⟩
  · rw [hlatest]
    exact hi.latest
  · rw [hlatest, hchanges]
    exact hi.changes

/-! ## Times -/

/-- A time whose nanoseconds are a positive 64-bit integer. -/
def Epochal (t : Time) : Prop := 0 ≤ t ∧ t < 2 ^ 63

theorem Epochal.ne_zero {t : Time} (h : Epochal t) : t ≠ zeroTime := by
  rintro rfl
  exact absurd h.1 (by decide)

/-- A clock that never goes back, between 1970 and 2262. -/
def SteadyClock (clock : Nat → Time) : Prop := ∀ n, Epochal (clock n) ∧ clock n ≤ clock (n + 1)

/-! ## What the walks find -/

/-- `p` returns `value` in every sound store with these tables. -/
def Yields {α : Type} (E : Env D) (H : Bytes → Prop) (m : Meta D) (p : Proc D α) (value : α) : Prop :=
  ∀ w : World D, w.db = m → Sound E H w → Reads E H p w value

section Reading

variable {H : Bytes → Prop} {α β : Type}

theorem Yields.bind {p : Proc D α} {f : α → Proc D β} {a : α} {b : β} (hp : Yields E H m p a)
    (hf : Yields E H m (f a) b) : Yields E H m (p.bind f) b :=
  fun w hm hs => Reads.bind (hp w hm hs) fun w' hdb hs' => hf w' (hdb.trans hm) hs'

theorem Yields.ret (a : α) : Yields E H m (.ret a : Proc D α) a := fun _ _ hs => Reads.ret hs a

/-- A request whose answer the tables determine. -/
theorem Yields.ask {p : Prim D} {r : Resp p} {f : Resp p → Proc D β} {b : β}
    (h : ∀ w : World D, w.db = m → handle E p w = some (r, w)) (hp : p.readOnly = true)
    (hf : Yields E H m (f r) b) : Yields E H m ((Prog.ask p).bind f) b :=
  fun w hm hs => Reads.ask hs (h w hm) hp fun hs' => hf w hm hs'

theorem Yields.attempt {p : Proc D α} {a : α} (hp : Yields E H m p a) :
    Yields E H m p.attempt (.ok a) := by
  intro w hm hs
  refine wp_attempt.mpr (wp_mono (hp w hm hs) ?_)
  rintro r w' ⟨rfl, hw⟩
  exact ⟨rfl, hw⟩

section Walks

variable {notes : D → List (AnnotationRecord D)}

/-- An object as both walks hand it on. -/
def viewed (notes : D → List (AnnotationRecord D)) (digest : D) (manifest : Manifest D) :
    ProjectionObject D :=
  { digest := digest, manifest := manifest, annotations := notes digest }

theorem attachProjectionAnnotations_yields (digest : D) (manifest : Manifest D)
    (hnotes : Yields E H m (readPackedAnnotations E digest) (notes digest)) :
    Yields E H m (attachProjectionAnnotations E { digest := digest, manifest := manifest })
      (viewed notes digest manifest) :=
  Yields.bind hnotes.attempt (.ret _)

theorem projectionObject_yields (digest : D)
    (hnotes : Yields E H m (readPackedAnnotations E digest) (notes digest)) :
    Yields E H m (projectionObject E digest) ((m.manifests.get digest).map (viewed notes digest)) := by
  refine Yields.ask (r := m.manifests.get digest) (fun w hm => by rw [← hm]; rfl) rfl ?_
  cases m.manifests.get digest with
  | none => exact .ret _
  | some manifest =>
    exact Yields.bind (attachProjectionAnnotations_yields digest manifest hnotes) (.ret _)

/-- The full walk, whatever its callback does with an object. -/
theorem walkProjectionWith_yields (hnotes : ∀ digest,
      Yields E H m (readPackedAnnotations E digest) (notes digest))
    {fn : ProjectionObject D → Proc D (List (ProjectionObject D))}
    (out : ProjectionObject D → List (ProjectionObject D))
    (hfn : ∀ item ∈ m.manifests.entries,
      Yields E H m (fn (viewed notes item.1 item.2)) (out (viewed notes item.1 item.2))) :
    Yields E H m (walkProjectionWith E fn)
      (m.manifests.entries.flatMap fun item => out (viewed notes item.1 item.2)) := by
  refine Yields.ask (r := m.manifests.entries) (fun w hm => by rw [← hm]; rfl) rfl ?_
  revert hfn
  induction m.manifests.entries with
  | nil => exact fun _ => .ret _
  | cons item rest ih =>
    intro hfn
    refine Yields.bind (attachProjectionAnnotations_yields item.1 item.2 (hnotes item.1)) ?_
    refine Yields.bind (hfn item (List.mem_cons_self ..)) ?_
    exact Yields.bind (ih fun other hmem => hfn other (List.mem_cons_of_mem _ hmem)) (.ret _)

/-- An object with a manifest under `digest` that has changed since. -/
def ChangedView (m : Meta D) (notes : D → List (AnnotationRecord D)) (since : Time) (digest : D)
    (object : ProjectionObject D) : Prop :=
  ∃ manifest, m.manifests.get digest = some manifest ∧ object = viewed notes digest manifest ∧
    projectionObjectChangedAfter object since = true

/-- The objects found under the scanned keys that have changed. -/
theorem visitChanged_yields (since : Time) (hnotes : ∀ digest,
      Yields E H m (readPackedAnnotations E digest) (notes digest)) :
    ∀ (digests seen : List D), ∃ visited, Yields E H m (visitChanged E since seen digests) visited ∧
      ∀ object, object ∈ visited ↔
        ∃ digest ∈ digests, digest ∉ seen ∧ ChangedView m notes since digest object := by
  intro digests
  induction digests with
  | nil => exact fun seen => ⟨[], .ret _, by simp⟩
  | cons digest rest ih =>
    intro seen
    by_cases hseen : digest ∈ seen
    · obtain ⟨visited, hvisited, hmem⟩ := ih seen
      refine ⟨visited, ?_, fun object => ?_⟩
      · rw [visitChanged, if_pos (List.contains_iff_mem.mpr hseen)]
        exact hvisited
      · rw [hmem]
        constructor
        · rintro ⟨other, hother, hrest⟩
          exact ⟨other, List.mem_cons_of_mem _ hother, hrest⟩
        · rintro ⟨other, hother, hnot, hrest⟩
          rcases List.mem_cons.mp hother with rfl | hother
          · exact absurd hseen hnot
          · exact ⟨other, hother, hnot, hrest⟩
    · obtain ⟨visited, hvisited, hmem⟩ := ih (digest :: seen)
      -- the objects of the rest, and the one of this key
      have hsplit : ∀ object, (∃ other ∈ digest :: rest, other ∉ seen ∧
          ChangedView m notes since other object) ↔
          ChangedView m notes since digest object ∨ object ∈ visited := by
        intro object
        rw [hmem]
        constructor
        · rintro ⟨other, hother, hnot, hview⟩
          by_cases heq : other = digest
          · exact Or.inl (heq ▸ hview)
          · refine Or.inr ⟨other, (List.mem_cons.mp hother).resolve_left heq, ?_, hview⟩
            simp [heq, hnot]
        · rintro (hview | ⟨other, hother, hnot, hview⟩)
          · exact ⟨digest, List.mem_cons_self .., hseen, hview⟩
          · exact ⟨other, List.mem_cons_of_mem _ hother,
              fun hmem => hnot (List.mem_cons_of_mem _ hmem), hview⟩
      simp only [hsplit]
      rw [visitChanged, if_neg (mt List.contains_iff_mem.mp hseen)]
      have hobject := projectionObject_yields digest (hnotes digest)
      cases hget : m.manifests.get digest with
      | none =>
        rw [hget] at hobject
        refine ⟨visited, hobject.bind (hvisited.bind (.ret _)), fun object => ?_⟩
        simp [ChangedView, hget]
      | some manifest =>
        rw [hget] at hobject
        by_cases hchanged :
            projectionObjectChangedAfter (viewed notes digest manifest) since = true
        · refine ⟨viewed notes digest manifest :: visited,
            hobject.bind (hvisited.bind ?_), fun object => ?_⟩
          · show Yields E H m (if _ then _ else _) _
            rw [if_pos (Or.inr hchanged)]
            exact .ret _
          · rw [List.mem_cons]
            refine or_congr ⟨?_, ?_⟩ Iff.rfl
            · rintro rfl
              exact ⟨manifest, hget, rfl, hchanged⟩
            · rintro ⟨other, hother, rfl, -⟩
              cases hget.symm.trans hother
              rfl
        · refine ⟨visited, hobject.bind (hvisited.bind ?_), fun object => ?_⟩
          · show Yields E H m (if _ then _ else _) _
            rw [if_neg (by simpa [viewed] using hchanged)]
            exact .ret _
          · refine ⟨Or.inr, fun h => h.resolve_left ?_⟩
            rintro ⟨other, hother, rfl, hother'⟩
            cases hget.symm.trans hother
            exact hchanged hother'

end Walks

end Reading

/-! ## The keys in range -/

theorem unixNano_eq {t : Int} (hlow : -(2 ^ 63) ≤ t) (hhigh : t < 2 ^ 63) : unixNano t = t := by
  rw [unixNano, Int.emod_eq_of_lt] <;> omega

/-- The scan reaches the key of every change after `since`. -/
theorem lowerBound_le {since t : Int} (hsince : -(2 ^ 63) ≤ since) (ht : Epochal t)
    (hlt : since < t) : projectionChangeScanLowerBound since ≤ changeStamp (unixNano t) := by
  have hlow : (0 : Int) ≤ t := ht.1
  have hhigh : t < (2 ^ 63 : Int) := ht.2
  have hnext : unixNano (unixNano since + 1) = since + 1 := by
    rw [unixNano_eq hsince (by omega), unixNano_eq (by omega) (by omega)]
  have ht' : changeStamp t = toLex (1, t.natAbs) := if_neg (by omega)
  rw [projectionChangeScanLowerBound, hnext, unixNano_eq (by omega) hhigh, ht', changeStamp]
  split
  · exact Prod.Lex.toLex_le_toLex.mpr (Or.inl Nat.zero_lt_one)
  · exact Prod.Lex.toLex_le_toLex.mpr (Or.inr ⟨rfl, show (since + 1).natAbs ≤ t.natAbs by omega⟩)

/-- The keys a scan since some time finds. -/
def changedKeys (m : Meta D) (since : Time) : List (ChangeKey D × ProjectionChange D) :=
  m.changes.entries.filter fun item => decide (projectionChangeScanLowerBound since ≤
    toLex ((ofLex item.1).1, (ofLex (ofLex item.1).2).1))

/-- The changed walk, through the index or without it, if every object that has changed has a key
in range. -/
theorem walkChangedProjection_yields {H : Bytes → Prop} {notes : D → List (AnnotationRecord D)}
    {since : Time} (hscanned : ∀ digest object, ChangedView m notes since digest object →
      ∃ item ∈ changedKeys m since, projectionChangeDigestFromKey item.1 = digest)
    (hread : ∀ digest, Yields E H m (readPackedAnnotations E digest) (notes digest))
    (hne : since ≠ zeroTime) :
    ∃ changed, Yields E H m (walkChangedProjection E since) changed ∧
      ∀ object, object ∈ changed ↔ ∃ digest, ChangedView m notes since digest object := by
  have hscan : ∀ w : World D, w.db = m →
      handle E (.scanChanges (projectionChangeScanLowerBound since)) w =
        some (changedKeys m since, w) := by
    rintro w rfl
    rfl
  obtain ⟨visited, hvisited, hmem⟩ := visitChanged_yields since hread
    ((changedKeys m since).map fun item => projectionChangeDigestFromKey item.1) []
  have hall : ∀ object, object ∈ visited ↔ ∃ digest, ChangedView m notes since digest object := by
    intro object
    rw [hmem]
    constructor
    · rintro ⟨digest, -, -, hview⟩
      exact ⟨digest, hview⟩
    · rintro ⟨digest, hview⟩
      obtain ⟨item, hitem, hdigest⟩ := hscanned digest object hview
      exact ⟨digest, List.mem_map.mpr ⟨item, hitem, hdigest⟩, List.not_mem_nil, hview⟩
  rw [walkChangedProjection, if_neg hne]
  by_cases hkeys : changedKeys m since = []
  · -- no key in range: the full walk finds nothing changed
    have hnone : ∀ digest object, ¬ChangedView m notes since digest object := by
      intro digest object hview
      obtain ⟨other, hother, -⟩ := (hmem object).mp ((hall object).mpr ⟨digest, hview⟩)
      rw [hkeys] at hother
      cases hother
    refine ⟨[], Yields.ask hscan rfl (hvisited.bind ?_), fun object => ?_⟩
    · rw [if_neg (not_not.mpr hkeys)]
      have hnil : (m.manifests.entries.flatMap fun _ => ([] : List (ProjectionObject D))) = [] :=
        List.flatMap_eq_nil_iff.mpr fun _ _ => rfl
      refine (congrArg (Yields E H m _) hnil).mp
        (walkProjectionWith_yields hread (fun _ => []) fun item hitem => ?_)
      rw [if_neg]
      · exact .ret _
      · rintro (hfinding | hchanged)
        · exact hfinding rfl
        · exact hnone item.1 _ ⟨item.2, OrdMap.mem_entries_iff.mp hitem, rfl, hchanged⟩
    · exact ⟨fun h => (nomatch h), fun ⟨digest, hview⟩ => absurd hview (hnone digest object)⟩
  · refine ⟨visited, Yields.ask hscan rfl (hvisited.bind ?_), hall⟩
    rw [if_pos hkeys]
    exact .ret _

/-! ## Two objects and an annotation -/

/-- A `put` of the text `a`, or of `b`. -/
def putLetter (second : Bool) : Call Nat :=
  .put { reader := if second then .short (utf8 "b") short_b else .short (utf8 "a") short_a
         facets := [{ kind := "file" }] }

/-- A clock that starts at `10` and advances by one, up to `110`. -/
def tenOn : Nat → Time := fun n => 10 + (min n 100 : Nat)

theorem tenOn_steady : SteadyClock tenOn := by
  intro n
  refine ⟨⟨?_, ?_⟩, ?_⟩
  · show (0 : Int) ≤ 10 + (min n 100 : Nat)
    omega
  · show (10 + (min n 100 : Nat) : Int) < 2 ^ 63
    omega
  · show (10 + (min n 100 : Nat) : Int) ≤ 10 + (min (n + 1) 100 : Nat)
    omega

end Gmeow
