import Gmeow.Annotations
import Gmeow.Projection

/-!
# Rows of deleted objects

`ProjectChanged` hands the objects that have changed to the projection, which writes a row for each.
An object that was deleted has no manifest to be handed on, so nothing takes its row away.

* `projectRow`, `projectChanged`, `rebuild` — the digests with a row in `query_objects`;
* `Walkable` — every object has changed after `since`, and the change index says so;
* `projected_rows_iff` — behind a run of `ProjectChanged` the rows are those of a rebuild exactly if
  no row was there of an object that is deleted;
* `deleted_row_stays` — a letter, projected and then deleted.
-/

namespace Gmeow

open Prog

variable {D : Type} [LinearOrder D] {E : Env D} {m m' : Meta D} {clock : Nat → Time}

/-- `projectIndexObject`, as far as `query_objects` goes: an object with findings loses its row. -/
def projectRow (rows : List D) (object : ProjectionObject D) : List D :=
  if object.findings ≠ [] then rows.filter fun row => decide (row ≠ object.digest)
  else object.manifest.objectDigest ::
    rows.filter fun row => decide (row ≠ object.manifest.objectDigest)

/-- `ProjectChanged`. -/
def projectChanged (E : Env D) (since : Time) (rows : List D) : Proc D (List D) := do
  let visited ← walkChangedProjection E since
  return visited.foldl projectRow rows

/-- `Rebuild`: the table is truncated first. -/
def rebuild (E : Env D) : Proc D (List D) := do
  let visited ← walkProjection E
  return visited.foldl projectRow []

/-- Where nothing has a finding, a walk adds the rows of all objects that it visits. -/
theorem mem_foldl_projectRow {visited : List (ProjectionObject D)}
    (hclean : ∀ object ∈ visited, object.findings = []) {rows : List D} {row : D} :
    row ∈ visited.foldl projectRow rows ↔
      row ∈ rows ∨ ∃ object ∈ visited, object.manifest.objectDigest = row := by
  induction visited generalizing rows with
  | nil => simp
  | cons object rest ih =>
    have hone : row ∈ projectRow rows object ↔
        object.manifest.objectDigest = row ∨ row ∈ rows := by
      rw [projectRow, if_neg (not_not.mpr (hclean object List.mem_cons_self)), List.mem_cons,
        List.mem_filter, decide_eq_true_eq]
      by_cases heq : row = object.manifest.objectDigest
      · exact ⟨fun _ => .inl heq.symm, fun _ => .inl heq⟩
      · exact ⟨fun h => .inr (h.resolve_left heq).1,
          fun h => .inr ⟨h.resolve_left (Ne.symm heq), heq⟩⟩
    rw [List.foldl_cons, ih fun o ho => hclean o (List.mem_cons_of_mem _ ho), hone]
    constructor
    · rintro ((hself | hrow) | ⟨other, hother, heq⟩)
      · exact .inr ⟨object, List.mem_cons_self, hself⟩
      · exact .inl hrow
      · exact .inr ⟨other, List.mem_cons_of_mem _ hother, heq⟩
    · rintro (hrow | ⟨other, hother, heq⟩)
      · exact .inl (.inr hrow)
      · rcases List.mem_cons.mp hother with rfl | hother
        · exact .inl (.inl heq)
        · exact .inr ⟨other, hother, heq⟩

/-! ## Histories -/

/-- `Put`, `DeleteObject` and `DeleteImport`. -/
def PutOrDelete (_ : World D) : Call D → Prop
  | .put _ => True
  | .deleteObject _ => True
  | .deleteImport _ _ => True
  | _ => False

instance (w : World D) : ∀ op : Call D, Decidable (PutOrDelete w op)
  | .put _ => .isTrue trivial
  | .deleteObject _ => .isTrue trivial
  | .deleteImport _ _ => .isTrue trivial
  | .putCompound _ => .isFalse id
  | .attachProvenance _ _ => .isFalse id
  | .writeAnnotationRecord _ => .isFalse id
  | .writeOverlays _ _ => .isFalse id
  | .gcWithGrace _ => .isFalse id
  | .repack => .isFalse id

/-- A time after `since`, with nanoseconds that are a positive 64-bit integer. -/
def After (since t : Time) : Prop := Epochal t ∧ since < t

/-- Every object has changed after `since`, has a change key after it, and no annotation. -/
structure Walkable (since : Time) (m : Meta D) : Prop where
  indexed : ChangesIndexed m
  bare : ∀ key, m.annotated.get key = none
  manifests : ∀ digest manifest, m.manifests.get digest = some manifest →
    manifest.objectDigest = digest ∧ After since manifest.updatedAt ∧
      ∃ entry, m.latest.get digest = some entry ∧ After since entry.changedAt

section Histories

variable {since now : Time} {digest : D} {manifest : Manifest D} {sourceKind sourceName : String}

theorem Walkable.empty : Walkable since (({ clock := clock } : World D).db) :=
  ⟨⟨nofun, fun _ _ => ⟨nofun, fun h => nomatch h.1⟩⟩, fun _ => rfl, nofun⟩

/-- A manifest is written at a time after `since`. -/
theorem Walkable.updated {provenance : List Provenance} (h : Walkable since m)
    (hupdated : Updated E digest manifest provenance m m')
    (hdigest : manifest.objectDigest = digest) (hafter : After since manifest.updatedAt) :
    Walkable since m' := by
  have hne := hafter.1.ne_zero
  refine ⟨h.indexed.stamp hupdated.stamp hne, ?_, fun other stored hget => ?_⟩
  · rw [hupdated.annotated]
    exact h.bare
  · rw [hupdated.manifests, OrdMap.get_set] at hget
    rw [hupdated.stamp.latest_get hne]
    split at hget
    · rename_i heq
      cases hget
      exact ⟨hdigest.trans heq.symm, hafter, _, if_pos heq, hafter⟩
    · rename_i hother
      rw [if_neg hother]
      exact h.manifests other stored hget

/-- What is written over a manifest, or as the first one. -/
theorem Walkable.written {incoming : Manifest D} (h : Walkable since m)
    (hover : WrittenOver m digest incoming now manifest) (hdigest : incoming.objectDigest = digest)
    (hfirst : After since incoming.updatedAt) (hnow : After since now) :
    manifest.objectDigest = digest ∧ After since manifest.updatedAt := by
  obtain ⟨size, rfl⟩ := hover
  rw [Meta.merged]
  cases hget : m.manifests.get digest with
  | none => exact ⟨hdigest, hfirst⟩
  | some existing => exact ⟨(h.manifests digest existing hget).1, hnow⟩

theorem Walkable.deleted (h : Walkable since m) (hdeleted : Deleted E digest m m') :
    Walkable since m' := by
  refine ⟨h.indexed.same hdeleted.changes hdeleted.latest, fun key => ?_,
    fun other stored hget => ?_⟩
  · rw [hdeleted.annotated, h.bare]
    exact ite_self _
  · rw [hdeleted.manifests, OrdMap.get_erase] at hget
    rw [hdeleted.latest]
    split at hget
    · cases hget
    · exact h.manifests other stored hget

theorem Walkable.detached (h : Walkable since m) (hafter : After since now)
    (hdetached : Detached E sourceKind sourceName digest now m m') : Walkable since m' := by
  cases hdetached with
  | nothing => exact h
  | deleted _ _ _ hdeleted => exact h.deleted hdeleted
  | removed hget _ _ hupdated houtside _ =>
    have h₁ := h.updated hupdated (h.manifests digest _ hget).1 hafter
    refine ⟨h₁.indexed.same (houtside.changes (by decide)) (houtside.latest (by decide)), ?_, ?_⟩
    · rw [houtside.annotated (by decide)]
      exact h₁.bare
    · rw [houtside.manifests (by decide), houtside.latest (by decide)]
      exact h₁.manifests

/-- `detachAll` at times after `since`. -/
theorem Walkable.detachAll :
    ∀ (digests : List D) (report : DeleteImportReport) (m : Meta D) (clock : Nat → Time),
      Walkable since m → (∀ n, After since (clock n)) →
      Does E (detachAll E sourceKind sourceName report digests) m clock fun _ m' clock' =>
        Walkable since m' ∧ ∀ n, After since (clock' n) := by
  intro digests
  induction digests with
  | nil => exact fun report m clock h hclock => .ret ⟨h, hclock⟩
  | cons digest rest ih =>
    intro report m clock h hclock
    refine Does.bind (detachSourceFromObject_does digest sourceKind sourceName) ?_ ?_
    · rintro out m₁ c₁ ⟨⟨k, rfl⟩, -, hdetached⟩
      exact ih _ m₁ _ (h.detached (hclock 0) hdetached) fun n => hclock (k + n)
    · rintro e m₁ c₁ ⟨-, ⟨_, heq⟩, -⟩
      cases heq

/-- **One call** leaves every manifest where a walk of the changes finds it, as long as the clock
stays behind the start. -/
theorem Walkable.call {op : Call D} {r : Except String (Option D)} {w w' : World D}
    (h : Walkable since w.db) (hclock : ∀ n, After since (w.clock n)) (hcond : PutOrDelete w op)
    (hrun : runAlone E (op.prog E) w = some (r, w')) :
    Walkable since w'.db ∧ ∀ n, After since (w'.clock n) := by
  cases op with
  | put request =>
    obtain ⟨r', hrun⟩ := run_void hrun
    obtain ⟨⟨k, hlater⟩, hdone⟩ := (put_does request).run hrun
    refine ⟨?_, fun n => hlater ▸ hclock (k + n)⟩
    rcases hdone with ⟨-, -, heq⟩ | ⟨-, -, c₁, manifest, ⟨j, rfl⟩, hover, hupdated⟩
    · rw [heq]
      exact h
    · obtain ⟨hdigest, hafter⟩ := h.written hover rfl (hclock (j + 0)) (hclock (j + 1))
      exact h.updated hupdated hdigest hafter
  | deleteObject digest =>
    obtain ⟨r', hrun⟩ := run_void hrun
    obtain ⟨-, hlater, hdeleted⟩ := (deleteObject_does digest).run hrun
    exact ⟨h.deleted hdeleted, hlater ▸ hclock⟩
  | deleteImport sourceKind sourceName =>
    obtain ⟨r', hrun⟩ := run_void hrun
    have hdoes : Does E (deleteImport E sourceKind sourceName) w.db w.clock fun _ m' clock' =>
        Walkable since m' ∧ ∀ n, After since (clock' n) := by
      rw [deleteImport]
      split
      · exact .fail ⟨h, hclock⟩
      · exact Does.ask rfl fun _ _ => Walkable.detachAll _ _ _ _ h hclock
    exact hdoes.run hrun
  | _ => exact hcond.elim

theorem CallsFrom.walkable {w : World D} (hclock : ∀ n, After since (clock n))
    (h : CallsFrom E PutOrDelete { clock := clock } w) :
    Walkable since w.db := by
  have hall : Walkable since w.db ∧ ∀ n, After since (w.clock n) := by
    induction h with
    | start => exact ⟨.empty, hclock⟩
    | call _ hcond hrun ih => exact ih.1.call ih.2 hcond hrun
  exact hall.1

end Histories

/-! ## What the walks find -/

section Walking

variable {since : Time} {H : Bytes → Prop}

/-- There is no annotation to read. -/
theorem Walkable.reads (h : Walkable since m) (digest : D) :
    Yields E H m (readPackedAnnotations E digest) [] := by
  have hnone : m.annotated.entries = [] := by
    refine List.eq_nil_iff_forall_not_mem.mpr fun item hitem => ?_
    have hget := OrdMap.mem_entries_iff.mp hitem
    rw [h.bare] at hget
    cases hget
  refine Yields.ask (r := []) (fun w hm => ?_) rfl (.bind (.ret []) (.ret _))
  rw [← hm] at hnone
  rw [handle, hnone]
  rfl

/-- Every object has changed, and has a key in range. -/
theorem Walkable.scanned (h : Walkable since m) (hsince : -(2 ^ 63) ≤ since) {digest : D}
    {object : ProjectionObject D} (hview : ChangedView m (fun _ => []) since digest object) :
    ∃ item ∈ changedKeys m since, projectionChangeDigestFromKey item.1 = digest := by
  obtain ⟨manifest, hget, -, -⟩ := hview
  obtain ⟨-, -, entry, hentry, hafter⟩ := h.manifests digest manifest hget
  have hkey := h.indexed.latest digest entry hentry
  have hdigest : entry.digest = digest := by rw [hkey]; rfl
  refine ⟨(entry.key, entry), List.mem_filter.mpr ⟨OrdMap.mem_entries_iff.mpr
    ((h.indexed.changes _ entry).mpr ⟨hdigest ▸ hentry, rfl⟩), decide_eq_true ?_⟩, ?_⟩
  · rw [hkey]
    exact lowerBound_le hsince hafter.1 hafter.2
  · rw [hkey]
    rfl

/-- The full walk hands on every object. -/
theorem Walkable.full (h : Walkable since m) :
    Yields E H m (walkProjection E)
      (m.manifests.entries.map fun item => viewed (fun _ => []) item.1 item.2) := by
  rw [List.map_eq_flatMap]
  exact walkProjectionWith_yields (fun digest => h.reads digest) (fun object => [object])
    fun item _ => .ret _

/-- Both walks hand on every object. -/
theorem Walkable.changed (h : Walkable since m) (hsince : since = zeroTime ∨ -(2 ^ 63) ≤ since) :
    ∃ visited, Yields E H m (walkChangedProjection E since) visited ∧
      ∀ object, object ∈ visited ↔
        ∃ item ∈ m.manifests.entries, viewed (fun _ => []) item.1 item.2 = object := by
  by_cases hne : since = zeroTime
  · refine ⟨_, ?_, fun object => List.mem_map⟩
    rw [walkChangedProjection, if_pos hne]
    exact h.full
  · obtain ⟨visited, hvisited, hmem⟩ := walkChangedProjection_yields
      (fun _ _ => h.scanned (hsince.resolve_left hne)) (fun digest => h.reads digest) hne
    refine ⟨visited, hvisited, fun object => (hmem object).trans ⟨?_, ?_⟩⟩
    · rintro ⟨digest, manifest, hget, rfl, -⟩
      exact ⟨(digest, manifest), OrdMap.mem_entries_iff.mpr hget, rfl⟩
    · rintro ⟨item, hitem, rfl⟩
      have hget := OrdMap.mem_entries_iff.mp hitem
      refine ⟨item.1, item.2, hget, rfl, ?_⟩
      rw [projectionObjectChangedAfter, if_neg hne,
        if_pos (.inl (h.manifests item.1 item.2 hget).2.1.2)]

/-- The digests of the objects handed on are those with a manifest. -/
theorem Walkable.rows (h : Walkable since m) {visited : List (ProjectionObject D)}
    (hvisited : ∀ object, object ∈ visited ↔
      ∃ item ∈ m.manifests.entries, viewed (fun _ => []) item.1 item.2 = object)
    {rows : List D} {digest : D} :
    digest ∈ visited.foldl projectRow rows ↔ digest ∈ rows ∨ m.manifests.has digest = true := by
  rw [mem_foldl_projectRow, OrdMap.has_iff]
  · refine or_congr_right ⟨?_, ?_⟩
    · rintro ⟨object, hobject, rfl⟩
      obtain ⟨item, hitem, rfl⟩ := (hvisited object).mp hobject
      have hget := OrdMap.mem_entries_iff.mp hitem
      exact ⟨item.2, (h.manifests item.1 item.2 hget).1.symm ▸ hget⟩
    · rintro ⟨manifest, hget⟩
      exact ⟨_, (hvisited _).mpr ⟨(digest, manifest), OrdMap.mem_entries_iff.mpr hget, rfl⟩,
        (h.manifests digest manifest hget).1⟩
  · intro object hobject
    obtain ⟨item, -, rfl⟩ := (hvisited object).mp hobject
    rfl

end Walking

/-- **Rows of deleted objects stay.** In every store made by `Put`, `DeleteObject` and
`DeleteImport` at times after `since`, `ProjectChanged` and `Rebuild` succeed. A rebuild leaves the
rows of the objects that have a manifest; `ProjectChanged` leaves the same exactly if there was no
row before of an object without one. -/
theorem projected_rows_iff {w : World D} {since : Time} (hclock : ∀ n, After since (clock n))
    (h : CallsFrom E PutOrDelete { clock := clock } w)
    (hsince : since = zeroTime ∨ -(2 ^ 63) ≤ since) (rows : List D) :
    ∃ rows' full, ReadsBack E (projectChanged E since rows) w rows' ∧
      ReadsBack E (rebuild E) w full ∧
      (∀ digest, digest ∈ full ↔ w.db.manifests.has digest = true) ∧
      ((∀ digest, digest ∈ rows' ↔ w.db.manifests.has digest = true) ↔
        ∀ digest ∈ rows, w.db.manifests.has digest = true) := by
  have hwalkable := h.walkable hclock
  obtain ⟨hashed, hsound⟩ := h.reachable.sound
  obtain ⟨visited, hyields, hvisited⟩ := hwalkable.changed (E := E) (H := (· ∈ hashed)) hsince
  have hfull : Yields E (· ∈ hashed) w.db (rebuild E) _ := hwalkable.full.bind (.ret _)
  have hchanged : Yields E (· ∈ hashed) w.db (projectChanged E since rows) _ :=
    hyields.bind (.ret _)
  refine ⟨_, _, (hchanged w rfl hsound).back, (hfull w rfl hsound).back, fun digest => ?_, ?_⟩
  · rw [hwalkable.rows fun object => List.mem_map]
    exact or_iff_right List.not_mem_nil
  · simp only [hwalkable.rows hvisited]
    exact ⟨fun hall digest hrow => (hall digest).mp (.inl hrow),
      fun hrows digest => or_iff_right_of_imp (hrows digest)⟩

/-! ## A letter -/

/-- Two letters, and the first run of the projection. -/
theorem projected_rows_iff_kept :
    ∃ w rows' full, runSequence codecEnv [putLetter false, putLetter true] { clock := tenOn } =
        some w ∧
      ReadsBack codecEnv (projectChanged codecEnv 5 []) w rows' ∧
      ReadsBack codecEnv (rebuild codecEnv) w full ∧
      (∀ digest, digest ∈ full ↔ w.db.manifests.has digest = true) ∧
      ((∀ digest, digest ∈ rows' ↔ w.db.manifests.has digest = true) ↔
        ∀ digest ∈ [], w.db.manifests.has digest = true) := by
  have heval : (checkSequence codecEnv PutOrDelete [putLetter false, putLetter true]
      { clock := tenOn } && (runSequence codecEnv [putLetter false, putLetter true]
        { clock := tenOn }).isSome) = true := by
    decide +kernel
  rw [Bool.and_eq_true] at heval
  obtain ⟨w, hw⟩ := Option.isSome_iff_exists.mp heval.2
  have hclock : ∀ n, After 5 (tenOn n) := fun n =>
    ⟨(tenOn_steady n).1, show (5 : Int) < 10 + (min n 100 : Nat) by omega⟩
  have hcalls := CallsFrom.sequence .start heval.1 hw
  obtain ⟨rows', full, hrest⟩ := projected_rows_iff hclock hcalls (.inr (by decide)) []
  exact ⟨w, rows', full, hw, hrest⟩

/-- **A letter is put and projected, then deleted; the next run leaves its row.** -/
theorem deleted_row_stays :
    ∃ w rows w' rows', runSequence codecEnv [putLetter false] { clock := tenOn } = some w ∧
      ReadsBack codecEnv (projectChanged codecEnv 5 []) w rows ∧
      runSequence codecEnv [.deleteObject (codecEnv.blake3Hex (utf8 "a"))] w = some w' ∧
      ReadsBack codecEnv (projectChanged codecEnv 5 rows) w' rows' ∧
      codecEnv.blake3Hex (utf8 "a") ∈ rows' ∧
      w'.db.manifests.has (codecEnv.blake3Hex (utf8 "a")) = false := by
  have heval : (runSequence codecEnv [putLetter false] { clock := tenOn }).any (fun w =>
      (readResult codecEnv (projectChanged codecEnv 5 []) w).any fun rows =>
        (runSequence codecEnv [.deleteObject (codecEnv.blake3Hex (utf8 "a"))] w).any fun w' =>
          (readResult codecEnv (projectChanged codecEnv 5 rows) w').any fun rows' =>
            decide (codecEnv.blake3Hex (utf8 "a") ∈ rows') &&
              !w'.db.manifests.has (codecEnv.blake3Hex (utf8 "a"))) = true := by
    decide +kernel
  obtain ⟨w, hw, heval⟩ := (Option.any_eq_true _ _).mp heval
  obtain ⟨rows, hrows, heval⟩ := (Option.any_eq_true _ _).mp heval
  obtain ⟨w', hw', heval⟩ := (Option.any_eq_true _ _).mp heval
  obtain ⟨rows', hrows', heval⟩ := (Option.any_eq_true _ _).mp heval
  rw [Bool.and_eq_true, decide_eq_true_eq, Bool.not_eq_true'] at heval
  exact ⟨w, rows, w', rows', hw, readsBack_of_result hrows, hw', readsBack_of_result hrows', heval⟩

end Gmeow
