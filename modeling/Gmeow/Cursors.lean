import Gmeow.Backfill

/-!
# Cursors of several backfills

The cursors of the backfills of one source are kept in one record, each under its key. A save
reads the record, puts its own cursor into it and writes it back; nothing keeps another save from
coming in between.

* `SavesUnder` — a backfill writes the record it read, with its own cursor under its own key;
* `saveUndisturbed` — a condition on a step: the record written is made from the stored one;
* `cursors_isolated` — in every interleaving whose steps meet the condition, under each key is the
  cursor that its backfill saved last.
-/

namespace Gmeow

open Prog

/-- The cursor saved last under a key. -/
def lastSaved (saves : List (String × PageCursor)) (key : String) : Option PageCursor :=
  (saves.find? fun save => save.1 = key).map Prod.snd

/-- The condition on a step: a record that is written is made from the stored one. -/
def saveUndisturbed (s : BackfillWorld) : BackfillPrim → Bool
  | .writeSourceCursor _ save => save.basis = s.record
  | _ => true

section Isolation

variable {formatTime : Time → String} {adapter : PullAdapter} {key : String}

/-- The requests of a backfill of a key: what it writes is the record it read, with its own
cursor under its key. -/
def MaySave (formatTime : Time → String) (key : String) : BackfillPrim → Prop
  | .writeSourceCursor record save => save.key = key ∧ ∃ stored now,
      record.cursor = namespacedCursor formatTime (save.basis.getD stored) save.next key now
  | _ => True

/-- A program that writes such records only. -/
def SavesUnder {α : Type} (formatTime : Time → String) (key : String) (p : BackfillProc α) : Prop :=
  p.Stays (MaySave formatTime key) (fun _ _ => True) fun _ => True

theorem ofExcept_saves {α : Type} (result : Except String α) :
    SavesUnder formatTime key (Prog.ofExcept result) := by
  cases result with
  | error e => trivial
  | ok a => trivial

theorem SavesUnder.attempt {α : Type} {p : BackfillProc α} (h : SavesUnder formatTime key p) :
    SavesUnder formatTime key p.attempt :=
  obeys_attempt.mpr (Obeys.mono h fun _ _ _ => trivial)

theorem writeBackfillCursor_savesUnder {stored : SourceCursor} {next : PageCursor}
    {page : List String} (hkey : key ≠ "") :
    SavesUnder formatTime key
      (writeBackfillCursor formatTime adapter stored next key page) := by
  rw [writeBackfillCursor, if_neg hkey]
  refine Stays.ask_bind trivial fun latest _ => Stays.bind (ofExcept_saves _) fun basis =>
    Stays.ask_bind trivial fun now _ => Stays.ask_bind trivial fun later _ =>
    Stays.bind (ofExcept_saves _) fun _ => Stays.ask_bind ?_ fun out _ => ofExcept_saves out
  exact ⟨rfl, stored, now, rfl⟩

section Request

variable {request : BackfillRequest} (hkey : request.cursorKey ≠ "") {stored : SourceCursor}
  {report : BackfillReport} {pulled : PullAnswer}

include hkey

theorem savePulled_savesUnder : SavesUnder formatTime request.cursorKey
      (savePulled formatTime adapter request stored report pulled) := by
  rw [savePulled]
  dsimp only
  split
  · split
    · exact Stays.bind (writeBackfillCursor_savesUnder hkey).attempt fun _ => trivial
    · trivial
  · refine Stays.bind (writeBackfillCursor_savesUnder hkey).attempt fun out => ?_
    cases out with
    | error e => trivial
    | ok => trivial

theorem ingestPulled_savesUnder : SavesUnder formatTime request.cursorKey
      (ingestPulled formatTime adapter request stored report pulled) := by
  refine Stays.ask_bind trivial fun results _ =>
    Stays.bind (writeBackfillCursor_savesUnder hkey).attempt fun out => ?_
  cases out with
  | error e => trivial
  | ok =>
    dsimp only
    split
    · trivial
    · trivial

/-- Whatever the pages contain, every write of the cursor is one of this key. -/
theorem runPages_savesUnder :
    ∀ (fuel : Nat) (cursor : PageCursor) (report : BackfillReport),
      SavesUnder formatTime request.cursorKey
        (runPages formatTime adapter request stored fuel cursor report) := by
  intro fuel
  induction fuel with
  | zero => exact fun _ _ => trivial
  | succ fuel ih =>
    intro cursor report
    rw [runPages]
    split
    · have hrelief : SavesUnder formatTime request.cursorKey
          (if request.priorityClass = "background" then askSource .awaitPressureRelief
            else .ret none : BackfillProc (Option String)) := by
        split
        · exact ⟨trivial, fun _ _ => trivial⟩
        · trivial
      refine Stays.bind hrelief fun relief => ?_
      cases relief with
      | some e => trivial
      | none =>
        refine Stays.ask_bind trivial fun pulled _ => ?_
        split
        · exact savePulled_savesUnder hkey
        · refine Stays.bind (ingestPulled_savesUnder hkey) ?_
          rintro ⟨report', next, _ | e⟩
          · dsimp only
            split
            · trivial
            · exact ih next report'
          · trivial
    · trivial

/-- The same of the whole backfill, with what it writes before and behind the pages. -/
theorem runBackfill_savesUnder (fuel : Nat) : SavesUnder formatTime request.cursorKey
    (runBackfill formatTime adapter request fuel) := by
  rw [runBackfill]
  split
  · have hstart : SavesUnder formatTime request.cursorKey (startCursor request) := by
      rw [startCursor, if_neg hkey]
      refine Stays.ask_bind trivial fun latest _ => Stays.bind (ofExcept_saves _) ?_
      rintro (_ | stored)
      · trivial
      · dsimp only
        split
        · trivial
        · trivial
    refine Stays.bind hstart ?_
    rintro ⟨cursor, stored⟩
    dsimp only
    split
    · exact Stays.ask_bind trivial fun now _ => Stays.ask_bind trivial fun later _ => trivial
    · exact runPages_savesUnder hkey fuel cursor { }
  · trivial

end Request

variable {ι : Type} [DecidableEq ι]

/-- Backfills of one source at the same time. -/
def backfillPool (formatTime : Time → String) (adapter : PullAdapter)
    (requests : ι → BackfillRequest) (fuel : ι → Nat) (start : BackfillWorld) :
    Pool ι BackfillPrim BackfillResp BackfillWorld Unit (BackfillReport × Option String) where
  threads i := ⟨runBackfill formatTime adapter (requests i) (fuel i), ()⟩
  state := start

/-- Under each key is what was saved last. -/
def CursorsKept (keys : ι → String) (s : BackfillWorld) : Prop :=
  ∀ i cursor, lastSaved s.saves (keys i) = some cursor → ∃ record, s.record = some record ∧
    mapCursorValue record.cursor (keys i) = some cursor

/-- One request. -/
theorem CursorsKept.step {keys : ι → String} {s s' : BackfillWorld} {p : BackfillPrim}
    {r : BackfillResp p} {i : ι}
    (hkeys : ∀ i j, i ≠ j → keys i ≠ keys j ∧ keys i ≠ keys j ++ "_updated_at")
    (h : CursorsKept keys s) (hp : MaySave formatTime (keys i) p)
    (hcond : saveUndisturbed s p = true) (hstep : handleBackfill p s = some (r, s')) :
    CursorsKept keys s' := by
  cases p with
  | writeSourceCursor record save =>
    obtain ⟨hkey, stored, now, hcursor⟩ := hp
    have hbasis : save.basis = s.record := of_decide_eq_true hcond
    rw [handleBackfill] at hstep
    split at hstep
    · cases hstep
      exact h
    · cases hstep
      intro j cursor hlast
      refine ⟨record, rfl, ?_⟩
      rw [lastSaved, List.find?_cons] at hlast
      by_cases hij : j = i
      · subst hij
        rw [hkey, decide_eq_true rfl] at hlast
        cases hlast
        rw [mapCursorValue, hcursor, namespacedCursor, OrdMap.get_set_ne _ _ (ne_updatedAt _),
          OrdMap.get_set_self]
      · obtain ⟨hne, hsuffix⟩ := hkeys j i hij
        rw [hkey, decide_eq_false (Ne.symm hne)] at hlast
        obtain ⟨old, hrecord, hold⟩ := h j cursor hlast
        rw [hbasis, hrecord, Option.getD_some] at hcursor
        rw [mapCursorValue] at hold ⊢
        rw [hcursor, namespacedCursor, OrdMap.get_set_ne _ _ hsuffix, OrdMap.get_set_ne _ _ hne]
        exact hold
  | _ =>
    cases hstep
    exact h

/-- **Isolation of cursors.** Backfills of one source with different keys, however interleaved:
in every run in which a save finds the record as it was when the save read it, under each key is
the cursor that its backfill saved last; provided that no key is another one with
`_updated_at`. -/
theorem cursors_isolated (requests : ι → BackfillRequest)
    (hnamed : ∀ i, (requests i).cursorKey ≠ "")
    (hkeys : ∀ i j, i ≠ j → (requests i).cursorKey ≠ (requests j).cursorKey ∧
      (requests i).cursorKey ≠ (requests j).cursorKey ++ "_updated_at")
    (fuel : ι → Nat) {start : BackfillWorld} (hsaves : start.saves = []) (schedule : List ι)
    (hsteps : Pool.AllSteps handleBackfill (fun u _ _ => u)
      (fun s _ _ p => saveUndisturbed s p = true)
      (backfillPool formatTime adapter requests fuel start) schedule) :
    let s := ((backfillPool formatTime adapter requests fuel start).run handleBackfill
      (fun u _ _ => u) schedule).state
    ∀ i cursor, lastSaved s.saves (requests i).cursorKey = some cursor →
      ∃ record, s.record = some record ∧
        mapCursorValue record.cursor (requests i).cursorKey = some cursor := by
  have hstep : ∀ (s : BackfillWorld) (ks : ι → Unit) (i : ι) (p : BackfillPrim)
      (r : BackfillResp p) (s' : BackfillWorld),
      CursorsKept (fun i => (requests i).cursorKey) s →
      MaySave formatTime (requests i).cursorKey p → saveUndisturbed s p = true →
      handleBackfill p s = some (r, s') →
        True ∧ CursorsKept (fun i => (requests i).cursorKey) s' :=
    fun s ks i p r s' hs hp hcond hstep => ⟨trivial, hs.step hkeys hp hcond hstep⟩
  have hobeys : ∀ i, ((backfillPool formatTime adapter requests fuel start).threads i).prog.Obeys
      ⟨fun _ p => MaySave formatTime (requests i).cursorKey p, fun _ _ => True, fun u _ _ => u⟩
      ((backfillPool formatTime adapter requests fuel start).known i) fun _ _ => True :=
    fun i => runBackfill_savesUnder (hnamed i) (fuel i)
  have hstart : CursorsKept (fun i => (requests i).cursorKey)
      (backfillPool formatTime adapter requests fuel start).state := by
    intro i cursor hlast
    rw [show (backfillPool formatTime adapter requests fuel start).state.saves = [] from hsaves]
      at hlast
    cases hlast
  exact (Pool.invariant (I := fun s _ => CursorsKept (fun i => (requests i).cursorKey) s) hstep
    schedule _ hobeys hstart hsteps).1

end Isolation

/-! ## A save lost -/

/-- A source of one page with nothing on it. -/
def emptyPage : BackfillWorld where
  clock := fun n => n
  pulls _ _ := { next := (∅ : PageCursor).set "completed" (.bool true) }
  outcomes _ _ := .created

/-- Two backfills of it, with the keys `a` and `b`. -/
def twoKeys (i : Fin 2) : BackfillRequest := { cursorKey := if i.val = 0 then "a" else "b" }

/-- The two backfills, by a schedule. -/
def twoBackfills (schedule : List (Fin 2)) :
    Pool (Fin 2) BackfillPrim BackfillResp BackfillWorld Unit (BackfillReport × Option String) :=
  (backfillPool (fun _ => "") pagedAdapter twoKeys (fun _ => 2) emptyPage).run handleBackfill
    (fun u _ _ => u) schedule

/-- The second save reads the record before the first writes it. -/
def crossed : List (Fin 2) :=
  let one : Fin 2 := ⟨0, Nat.two_pos⟩
  let other : Fin 2 := ⟨1, Nat.one_lt_two⟩
  [one, one, one, other, other, other, one, one, one, other, other, other]

/-- When both backfills have finished there is nothing under `a`, where the first saved a
cursor. -/
theorem save_lost : ∃ cursor record,
    (∀ i, ∃ out, ((twoBackfills crossed).threads i).prog = .ret out) ∧
    lastSaved (twoBackfills crossed).state.saves "a" = some cursor ∧
    (twoBackfills crossed).state.record = some record ∧
    mapCursorValue record.cursor "a" = none := by
  have hfinished : ∀ i, ((twoBackfills crossed).threads i).prog.returned.isSome = true := by
    decide +kernel
  have hsaved : (lastSaved (twoBackfills crossed).state.saves "a").isSome = true := by
    decide +kernel
  have hlost : ((twoBackfills crossed).state.record.any fun record =>
      (mapCursorValue record.cursor "a").isNone) = true := by
    decide +kernel
  obtain ⟨cursor, hcursor⟩ := Option.isSome_iff_exists.mp hsaved
  obtain ⟨record, hrecord, hnone⟩ := (Option.any_eq_true _ _).mp hlost
  refine ⟨cursor, record, fun i => ?_, hcursor, hrecord, Option.isNone_iff_eq_none.mp hnone⟩
  obtain ⟨out, hout⟩ := Option.isSome_iff_exists.mp (hfinished i)
  exact ⟨out, eq_ret_of_returned hout⟩

/-- One save after the other. -/
def ordered : List (Fin 2) :=
  List.replicate 6 ⟨0, Nat.two_pos⟩ ++ List.replicate 6 ⟨1, Nat.one_lt_two⟩

/-- When one backfill has finished before the other starts, the cursor of the first is under its
key at the end. -/
theorem cursors_isolated_ordered : ∃ cursor record,
    lastSaved (twoBackfills ordered).state.saves "a" = some cursor ∧
    (twoBackfills ordered).state.record = some record ∧
    mapCursorValue record.cursor "a" = some cursor := by
  have hcheck : Pool.checkSteps handleBackfill (fun u _ _ => u)
      (fun s _ _ p => saveUndisturbed s p = true)
      (backfillPool (fun _ => "") pagedAdapter twoKeys (fun _ => 2) emptyPage) ordered = true := by
    decide +kernel
  have hsaved : (lastSaved (twoBackfills ordered).state.saves "a").isSome = true := by
    decide +kernel
  obtain ⟨cursor, hcursor⟩ := Option.isSome_iff_exists.mp hsaved
  obtain ⟨record, hrecord, hkept⟩ := cursors_isolated twoKeys (by decide) (by decide +kernel)
    (fun _ => 2) rfl ordered (Pool.allSteps_of_check hcheck) 0 cursor hcursor
  exact ⟨cursor, record, hcursor, hrecord, hkept⟩

end Gmeow
