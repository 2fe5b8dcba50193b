import Gmeow.Runs

/-!
# Operations and those who wait for them

A request becomes an operation: a row of a table, marked as running, and a goroutine that executes
it. A later request with the same hash attaches to the running row. Those who wait read the row
again and again and hand the progress they have not seen to their observers.

* `OperationTable`, `step` — rows, and the executors of all processes;
* `attached_is_executed` — as long as no executor is lost, a running row has one;
  `attached_to_dead` — behind a crash it has none;
* `Watched`, `watch` — one operation with its executor and its callers;
* `progress_once_iff` — an observer sees each stored event once unless the executor calls it too.
-/

namespace Gmeow.OperationRuns

open Runs

/-- `OperationStatus`. -/
inductive OperationStatus : Type where
  | running : OperationStatus
  | complete : OperationStatus
  | failed : OperationStatus
  deriving DecidableEq

/-! ## Rows and executors -/

/-- The columns of a row that decide who attaches to it. -/
structure OperationRecord : Type where
  operationID : String
  requestHash : String
  status : OperationStatus
  deriving DecidableEq

/-- The rows in the order of their creation, and who executes what: goroutines of processes that
are alive. -/
structure OperationTable : Type where
  rows : List OperationRecord := []
  executing : List (Nat × String) := []

/-- `runningOperationByRequestHash`. -/
def runningOperationByRequestHash (w : OperationTable) (requestHash : String) :
    Option OperationRecord :=
  w.rows.find? fun row => decide (row.requestHash = requestHash ∧ row.status = .running)

/-- What can happen. -/
inductive Act : Type where
  /-- A process calls `runOperation`: `CreateOrGet`, and the executor if the row is new. -/
  | runOperation (process : Nat) (operationID requestHash : String) : Act
  /-- The row is inserted, but the connection is lost before the process hears of it. -/
  | insertUnheard (operationID requestHash : String) : Act
  /-- `Complete` or `Fail` is written; if the executor hears of it, it ends. -/
  | persist (process : Nat) (operationID : String) (succeeded heard : Bool) : Act
  /-- The executor ends, whether or not it could write how. -/
  | giveUp (process : Nat) (operationID : String) : Act
  /-- A process dies; it may be started again. -/
  | crash (process : Nat) : Act

/-- An executor is gone. -/
def OperationTable.drop (w : OperationTable) (gone : Nat × String → Bool) : OperationTable :=
  { w with executing := w.executing.filter fun item => !gone item }

/-- A new row. -/
def OperationTable.insert (w : OperationTable) (operationID requestHash : String) :
    OperationTable :=
  { w with rows := w.rows ++ [{ operationID, requestHash, status := .running }] }

/-- `UPDATE … SET status`. -/
def OperationTable.update (w : OperationTable) (operationID : String) (status : OperationStatus) :
    OperationTable :=
  { w with rows := w.rows.map fun row =>
      if row.operationID = operationID then { row with status } else row }

/-- One step. A running row that is found is returned, and nothing changes. -/
def step (w : OperationTable) : Act → Option OperationTable
  | .runOperation process operationID requestHash =>
    if (runningOperationByRequestHash w requestHash).isSome then some w
    else if w.rows.any fun row => decide (row.operationID = operationID) then none
    else
      let inserted := w.insert operationID requestHash
      some { inserted with executing := inserted.executing ++ [(process, operationID)] }
  | .insertUnheard operationID requestHash => some (w.insert operationID requestHash)
  | .persist process operationID succeeded heard =>
    if (process, operationID) ∈ w.executing then
      let written := w.update operationID (if succeeded then .complete else .failed)
      some (if heard then written.drop fun item => decide (item = (process, operationID))
        else written)
    else none
  | .giveUp process operationID =>
    some (w.drop fun item => decide (item = (process, operationID)))
  | .crash process => some (w.drop fun item => decide (item.1 = process))

/-- The operation of a row is running. -/
def OperationTable.Runs (w : OperationTable) (operationID : String) : Prop :=
  ∃ row ∈ w.rows, row.operationID = operationID ∧ row.status = .running

instance (w : OperationTable) (operationID : String) : Decidable (w.Runs operationID) :=
  inferInstanceAs
    (Decidable (∃ row ∈ w.rows, row.operationID = operationID ∧ row.status = .running))

/-- **No executor of a running operation is lost.** -/
def KeepsExecutors (w : OperationTable) : Act → Prop
  | .insertUnheard _ _ => False
  | .giveUp _ operationID => ¬w.Runs operationID
  | .crash process => ∀ item ∈ w.executing, item.1 = process → ¬w.Runs item.2
  | _ => True

instance (w : OperationTable) : (a : Act) → Decidable (KeepsExecutors w a)
  | .runOperation _ _ _ => .isTrue trivial
  | .insertUnheard _ _ => .isFalse id
  | .persist _ _ _ _ => .isTrue trivial
  | .giveUp _ operationID => inferInstanceAs (Decidable (¬w.Runs operationID))
  | .crash process =>
    inferInstanceAs (Decidable (∀ item ∈ w.executing, item.1 = process → ¬w.Runs item.2))

/-- Every running operation is executed. -/
def Executed (w : OperationTable) : Prop :=
  ∀ operationID, w.Runs operationID → ∃ process, (process, operationID) ∈ w.executing

section Executors

variable {w : OperationTable}

/-- What may go away without a loss. -/
theorem Executed.drop (h : Executed w) {gone : Nat × String → Bool}
    (hgone : ∀ item ∈ w.executing, gone item = true → ¬w.Runs item.2) : Executed (w.drop gone) := by
  intro operationID hruns
  obtain ⟨process, hexecuting⟩ := h operationID hruns
  refine ⟨process, List.mem_filter.mpr ⟨hexecuting, ?_⟩⟩
  cases hcase : gone (process, operationID) with
  | false => rfl
  | true => exact absurd hruns (hgone _ hexecuting hcase)

theorem runs_update {operationID other : String} {status : OperationStatus}
    (hstatus : status ≠ .running) (h : (w.update operationID status).Runs other) :
    w.Runs other ∧ other ≠ operationID := by
  obtain ⟨row, hrow, hid, hrunning⟩ := h
  obtain ⟨row', hrow', rfl⟩ := List.mem_map.mp hrow
  split at hid
  · rw [if_pos ‹_›] at hrunning
    exact absurd hrunning hstatus
  · rw [if_neg ‹_›] at hrunning
    exact ⟨⟨row', hrow', hid, hrunning⟩, hid ▸ ‹¬_›⟩

theorem Executed.update (h : Executed w) (operationID : String) {status : OperationStatus}
    (hstatus : status ≠ .running) : Executed (w.update operationID status) :=
  fun other hruns => h other (runs_update hstatus hruns).1

theorem Executed.insert (h : Executed w) (process : Nat) (operationID requestHash : String) :
    Executed { w.insert operationID requestHash with
      executing := w.executing ++ [(process, operationID)] } := by
  rintro other ⟨row, hrow, hid, hrunning⟩
  rcases List.mem_append.mp hrow with hrow | hrow
  · obtain ⟨process', hexecuting⟩ := h other ⟨row, hrow, hid, hrunning⟩
    exact ⟨process', List.mem_append_left _ hexecuting⟩
  · rw [List.mem_singleton.mp hrow] at hid
    exact ⟨process, List.mem_append_right _ (List.mem_singleton.mpr (hid ▸ rfl))⟩

/-- A step that loses no executor. -/
theorem Executed.step {a : Act} {w' : OperationTable} (h : Executed w)
    (hstep : within KeepsExecutors step w a = some w') : Executed w' := by
  obtain ⟨hkeeps, hstep⟩ := within_eq_some.mp hstep
  cases a with
  | runOperation process operationID requestHash =>
    simp only [OperationRuns.step] at hstep
    split at hstep
    · exact Option.some.inj hstep ▸ h
    split at hstep
    · cases hstep
    · exact Option.some.inj hstep ▸ h.insert process operationID requestHash
  | insertUnheard operationID requestHash => exact absurd hkeeps id
  | persist process operationID succeeded heard =>
    have hstatus : (if succeeded then OperationStatus.complete else .failed) ≠ .running := by
      cases succeeded <;> decide
    simp only [OperationRuns.step] at hstep
    split at hstep
    · rw [← Option.some.inj hstep]
      cases heard with
      | false => exact h.update operationID hstatus
      | true =>
        refine (h.update operationID hstatus).drop fun item _ hgone hruns => ?_
        rw [of_decide_eq_true hgone] at hruns
        exact (runs_update hstatus hruns).2 rfl
    · cases hstep
  | giveUp process operationID =>
    rw [← Option.some.inj hstep]
    refine h.drop fun item _ hgone => ?_
    rw [of_decide_eq_true hgone]
    exact hkeeps
  | crash process =>
    rw [← Option.some.inj hstep]
    exact h.drop fun item hitem hgone => hkeeps item hitem (of_decide_eq_true hgone)

end Executors

/-- **Whoever attaches to a running operation waits for an executor that is alive,** if no executor
of a running operation was lost before. -/
theorem attached_is_executed {acts : List Act} {w : OperationTable}
    (hrun : exec (within KeepsExecutors step) {} acts = some w) {requestHash : String}
    {row : OperationRecord} (hfound : runningOperationByRequestHash w requestHash = some row) :
    ∃ process, (process, row.operationID) ∈ w.executing := by
  have hexecuted : Executed w := exec_invariant Executed.step (fun _ hruns => by
    obtain ⟨row, hrow, -⟩ := hruns
    cases hrow) hrun
  have hrow := List.mem_of_find?_eq_some hfound
  have hmatches := List.find?_some hfound
  rw [decide_eq_true_eq] at hmatches
  exact hexecuted _ ⟨row, hrow, rfl, hmatches.2⟩

/-- A row that one process has created is executed when another attaches to it, also behind the
crash of a third. -/
theorem attached_is_executed_twice :
    ∃ w, exec (within KeepsExecutors step) {} [.runOperation 0 "op" "h", .crash 2,
        .runOperation 1 "op2" "h"] = some w ∧ ∃ process, (process, "op") ∈ w.executing :=
  ⟨_, rfl, @attached_is_executed
    [.runOperation 0 "op" "h", .crash 2, .runOperation 1 "op2" "h"] _ rfl "h" ⟨"op", "h", .running⟩
    rfl⟩

/-- **Behind a crash, a request attaches to an operation that nobody executes.** -/
theorem attached_to_dead :
    ((exec step {} [.runOperation 0 "op" "h", .crash 0]).bind fun w =>
      runningOperationByRequestHash w "h") = some ⟨"op", "h", .running⟩ ∧
    ((exec step {} [.runOperation 0 "op" "h", .crash 0]).map OperationTable.executing) =
      some [] := by
  decide

/-! ## Progress -/

/-- What an observer is called with: an event, and its place in the record if it was stored. -/
abbrev Delivery (Ev : Type) : Type := Ev × Option Nat

/-- A caller of `runOperation` in `waitForOperation`. -/
structure Caller (Ev : Type) : Type where
  /-- It passed an observer. -/
  observer : Bool
  /-- `seenProgress`. -/
  seen : Nat := 0
  /-- What was read and not yet handed to the observer, with its place in the record. -/
  pending : List (Ev × Nat) := []
  /-- The record that was read last was not running any more. -/
  finished : Bool := false
  /-- What the observer was called with. -/
  delivered : List (Delivery Ev) := []
  returned : Bool := false

/-- One operation: its record, its executor and its callers, the creator first. -/
structure Watched (Ev : Type) : Type where
  progress : List Ev := []
  status : OperationStatus := .running
  /-- The work is under way. -/
  working : Bool := true
  /-- What the sink has stored, or failed to, and not yet handed to the creator's observer. -/
  direct : Option (Delivery Ev) := none
  callers : List (Caller Ev)

/-- What the executor and the callers do. -/
inductive Watch (Ev : Type) : Type where
  /-- The sink calls `AppendProgress`, which may fail. -/
  | append (event : Ev) (stored : Bool) : Watch Ev
  /-- The sink calls the observer of the creator. -/
  | hand : Watch Ev
  /-- `Complete` or `Fail` is written. -/
  | persist (succeeded : Bool) : Watch Ev
  /-- Another caller attaches. -/
  | attach (observer : Bool) : Watch Ev
  /-- A caller reads the record. -/
  | poll (caller : Nat) : Watch Ev
  /-- It hands an event it has read to its observer. -/
  | deliver (caller : Nat) : Watch Ev
  /-- It returns. -/
  | leave (caller : Nat) : Watch Ev

variable {Ev : Type}

/-- The observer, if there is one, is called. -/
def Caller.receive (c : Caller Ev) (d : Delivery Ev) : Caller Ev :=
  if c.observer then { c with delivered := c.delivered ++ [d] } else c

/-- The events of the record among what the observer was called with, in the order of the calls. -/
def Caller.appended (c : Caller Ev) : List (Ev × Nat) :=
  c.delivered.filterMap fun d => d.2.map (d.1, ·)

/-- What one caller does, with the record it may read. -/
def Caller.act (w : Watched Ev) (c : Caller Ev) : Watch Ev → Option (Caller Ev)
  | .poll _ =>
    if c.pending.isEmpty && !c.finished then
      some { c with
        pending := w.progress.zipIdx.drop c.seen
        seen := w.progress.length
        finished := decide (w.status ≠ .running) }
    else none
  | .deliver _ =>
    match c.pending with
    | [] => none
    | (event, place) :: rest => some { c.receive (event, some place) with pending := rest }
  | .leave _ => if c.pending.isEmpty && c.finished then some { c with returned := true } else none
  | _ => none

/-- The caller an action is of. -/
def Watch.caller : Watch Ev → Nat
  | .poll caller => caller
  | .deliver caller => caller
  | .leave caller => caller
  | _ => 0

/-- One step. -/
def watch (w : Watched Ev) : Watch Ev → Option (Watched Ev)
  | .append event stored =>
    if w.working && w.direct.isNone then
      some { w with
        progress := if stored then w.progress ++ [event] else w.progress
        direct := some (event, if stored then some w.progress.length else none) }
    else none
  | .hand =>
    w.direct.map fun d =>
      { w with direct := none, callers := w.callers.modify 0 (Caller.receive · d) }
  | .persist succeeded =>
    if w.direct.isNone then
      some { w with status := if succeeded then .complete else .failed, working := false }
    else none
  | .attach observer =>
    if w.status = .running then some { w with callers := w.callers ++ [{ observer }] } else none
  | a => do
    let c ← w.callers[a.caller]?
    let c' ← c.act w a
    some { w with callers := w.callers.set a.caller c' }

/-- The operation is created. -/
def created (observer : Bool) : Watched Ev := { callers := [{ observer }] }

/-- An event of the record is still to be handed to the creator's observer. -/
def Watched.due (w : Watched Ev) : Nat := if (w.direct.bind Prod.snd).isSome then 1 else 0

/-- What is known of a caller with an observer. One that has attached has got what it has read of
the record. The creator gets every event of the record from the sink as well. -/
structure Kept (w : Watched Ev) (i : Nat) (c : Caller Ev) : Prop where
  seen : c.seen ≤ w.progress.length
  finished : c.finished = true → c.seen = w.progress.length ∧ w.working = false
  returned : c.returned = true → c.finished = true ∧ c.pending = []
  once : i ≠ 0 → c.appended ++ c.pending = w.progress.zipIdx.take c.seen
  twice : i = 0 → c.appended.length + c.pending.length + w.due = c.seen + w.progress.length

/-- The invariant: what is known of the callers, and that the sink is at rest when the work is
over. -/
structure Watching (w : Watched Ev) : Prop where
  created : w.callers ≠ []
  ended : w.status ≠ .running → w.working = false
  atRest : w.working = false → w.direct = none
  callers : ∀ i c, w.callers[i]? = some c → c.observer = true → Kept w i c

section Watching

variable {w w' : Watched Ev} {c c' : Caller Ev} {i : Nat}

theorem Kept.withCallers (h : Kept w i c) (callers : List (Caller Ev)) :
    Kept { w with callers } i c :=
  ⟨h.seen, h.finished, h.returned, h.once, h.twice⟩

theorem receive_observer (c : Caller Ev) (d : Delivery Ev) :
    (c.receive d).observer = c.observer := by
  rw [Caller.receive]
  split
  · rfl
  · rfl

theorem appended_receive (hobserver : c.observer = true) (d : Delivery Ev) :
    (c.receive d).appended = c.appended ++ (d.2.map (d.1, ·)).toList := by
  rw [Caller.receive, if_pos hobserver, Caller.appended, List.filterMap_append, Caller.appended]
  cases hplace : d.2 <;> simp [hplace]

/-- What a caller does of its own. -/
theorem Kept.act (h : Kept w i c) (hover : w.status ≠ .running → w.working = false)
    (hobserver : c.observer = true) {a : Watch Ev} (hact : c.act w a = some c') : Kept w i c' := by
  cases a with
  | poll =>
    rw [Caller.act] at hact
    split at hact
    · rename_i hready
      rw [Bool.and_eq_true, List.isEmpty_iff, Bool.not_eq_true'] at hready
      obtain rfl := Option.some.inj hact
      refine ⟨Nat.le_refl _, fun hdone => ⟨rfl, hover (of_decide_eq_true hdone)⟩, ?_, ?_, ?_⟩
      · intro hreturned
        rw [(h.returned hreturned).1] at hready
        cases hready.2
      · intro hother
        have honce := h.once hother
        rw [hready.1, List.append_nil] at honce
        show c.appended ++ w.progress.zipIdx.drop c.seen = _
        rw [honce, List.take_append_drop, ← List.length_zipIdx, List.take_length]
      · intro hcreator
        have hsum := h.twice hcreator
        have hseen := h.seen
        rw [hready.1, List.length_nil, Nat.add_zero] at hsum
        show c.appended.length + (w.progress.zipIdx.drop c.seen).length + w.due =
          w.progress.length + w.progress.length
        rw [List.length_drop, List.length_zipIdx]
        omega
    · cases hact
  | deliver =>
    rw [Caller.act] at hact
    split at hact
    · cases hact
    · rename_i event place rest hpending
      obtain rfl := Option.some.inj hact
      have happended := appended_receive hobserver (event, some place)
      rw [Caller.receive, if_pos hobserver] at happended ⊢
      refine ⟨h.seen, h.finished, ?_, ?_, ?_⟩
      · intro hreturned
        rw [(h.returned hreturned).2] at hpending
        cases hpending
      · intro hother
        refine (congrArg (· ++ rest) happended).trans ?_
        rw [← h.once hother, hpending]
        exact List.append_assoc _ _ _
      · intro hcreator
        have hsum := h.twice hcreator
        have hlength := congrArg List.length happended
        rw [List.length_append] at hlength
        rw [hpending, List.length_cons] at hsum
        exact (congrArg (· + rest.length + w.due) hlength).trans (by simpa using by omega)
  | leave =>
    rw [Caller.act] at hact
    split at hact
    · rename_i hready
      rw [Bool.and_eq_true, List.isEmpty_iff] at hready
      obtain rfl := Option.some.inj hact
      exact ⟨h.seen, h.finished, fun _ => ⟨hready.2, hready.1⟩, h.once, h.twice⟩
    · cases hact
  | append | hand | persist | attach => cases hact

theorem observer_act {a : Watch Ev} (hact : c.act w a = some c') : c'.observer = c.observer := by
  cases a with
  | poll | leave =>
    rw [Caller.act] at hact
    split at hact
    · rw [← Option.some.inj hact]
    · cases hact
  | deliver =>
    rw [Caller.act] at hact
    split at hact
    · cases hact
    · rw [← Option.some.inj hact]
      exact receive_observer c _
  | append | hand | persist | attach => cases hact

/-- A step of a caller. -/
theorem Watching.act (h : Watching w) {a : Watch Ev} (hc : w.callers[i]? = some c)
    (hact : c.act w a = some c') : Watching { w with callers := w.callers.set i c' } := by
  refine ⟨by simpa using h.created, h.ended, h.atRest, fun j d hd hobserver => ?_⟩
  dsimp only at hd
  by_cases hij : i = j
  · subst hij
    obtain ⟨hlt, -⟩ := List.getElem?_eq_some_iff.mp hc
    rw [List.getElem?_set_self hlt] at hd
    obtain rfl := Option.some.inj hd
    rw [observer_act hact] at hobserver
    exact ((h.callers i c hc hobserver).act h.ended hobserver hact).withCallers _
  · rw [List.getElem?_set_ne hij] at hd
    exact (h.callers j d hd hobserver).withCallers _

/-- The sink stores an event, or fails to. Nobody who is finished is behind. -/
theorem Watching.append (h : Watching w) (hworking : w.working = true) (hdirect : w.direct = none)
    (event : Ev) (stored : Bool) : Watching { w with
      progress := if stored then w.progress ++ [event] else w.progress
      direct := some (event, if stored then some w.progress.length else none) } := by
  refine ⟨h.created, h.ended, fun hrest => ?_, fun i c hc hobserver => ?_⟩
  · cases hworking.symm.trans hrest
  have hkept := h.callers i c hc hobserver
  have hopen : c.finished = true → False := fun hdone => by
    rw [(hkept.finished hdone).2] at hworking
    cases hworking
  have hdue : w.due = 0 := by rw [Watched.due, hdirect]; rfl
  have htwice := hkept.twice
  rw [hdue] at htwice
  cases stored with
  | false =>
    exact ⟨hkept.seen, fun hdone => (hopen hdone).elim, hkept.returned, hkept.once, htwice⟩
  | true =>
    refine ⟨?_, fun hdone => (hopen hdone).elim, hkept.returned, fun hother => ?_, fun hcreator => ?_⟩
    · exact Nat.le_trans hkept.seen (by simp)
    · rw [if_pos rfl, List.zipIdx_append, List.take_append_of_le_length (by simpa using hkept.seen)]
      exact hkept.once hother
    · have hsum := htwice hcreator
      rw [if_pos rfl, List.length_append]
      exact (congrArg (· + 1) hsum).trans (Nat.add_assoc _ _ _)

/-- The sink calls the observer of the creator: what was due is delivered. -/
theorem Watching.hand (h : Watching w) {d : Delivery Ev} (hdirect : w.direct = some d) :
    Watching { w with direct := none, callers := w.callers.modify 0 (Caller.receive · d) } := by
  refine ⟨by simpa using h.created, h.ended, fun _ => rfl, fun i c hc hobserver => ?_⟩
  dsimp only at hc
  rw [List.getElem?_modify] at hc
  obtain ⟨e, he, hmodified⟩ := Option.map_eq_some_iff.mp hc
  by_cases hi : 0 = i
  · rw [if_pos hi] at hmodified
    rw [← hmodified, receive_observer] at hobserver
    have hkept := h.callers i e he hobserver
    have hlength := congrArg List.length (appended_receive hobserver d)
    rw [Caller.receive, if_pos hobserver] at hmodified hlength
    subst hmodified
    refine ⟨hkept.seen, hkept.finished, hkept.returned, fun hother => absurd hi.symm hother,
      fun hcreator => ?_⟩
    have hsum := hkept.twice hcreator
    rw [Watched.due, hdirect] at hsum
    refine (congrArg (· + e.pending.length + 0) hlength).trans ?_
    cases hplace : d.2 <;> simp [hplace] at hsum ⊢ <;> omega
  · rw [if_neg hi] at hmodified
    subst hmodified
    have hkept := h.callers i e he hobserver
    exact ⟨hkept.seen, hkept.finished, hkept.returned, hkept.once,
      fun hcreator => absurd hcreator.symm hi⟩

/-- The outcome is written. -/
theorem Watching.persist (h : Watching w) (hdirect : w.direct = none) (status : OperationStatus) :
    Watching { w with status := status, working := false } := by
  refine ⟨h.created, fun _ => rfl, fun _ => hdirect, fun i c hc hobserver => ?_⟩
  have hkept := h.callers i c hc hobserver
  exact ⟨hkept.seen, fun hdone => ⟨(hkept.finished hdone).1, rfl⟩, hkept.returned, hkept.once,
    hkept.twice⟩

/-- Another caller attaches: it has seen nothing, and is not the creator. -/
theorem Watching.attach (h : Watching w) (observer : Bool) :
    Watching { w with callers := w.callers ++ [{ observer }] } := by
  refine ⟨by simp, h.ended, h.atRest, fun i c hc hobserver => ?_⟩
  dsimp only at hc
  by_cases hi : i < w.callers.length
  · rw [List.getElem?_append_left hi] at hc
    exact (h.callers i c hc hobserver).withCallers _
  · rw [List.getElem?_append_right (Nat.le_of_not_lt hi), List.getElem?_singleton] at hc
    split at hc
    · obtain rfl := Option.some.inj hc
      refine ⟨Nat.zero_le _, nofun, nofun, fun _ => rfl, fun hcreator => ?_⟩
      have hlength := List.length_pos_iff.mpr h.created
      omega
    · cases hc

/-- One step. -/
theorem Watching.watch (h : Watching w) {a : Watch Ev} (hstep : watch w a = some w') :
    Watching w' := by
  have hcaller : (do
      let c ← w.callers[a.caller]?
      let c' ← c.act w a
      some { w with callers := w.callers.set a.caller c' }) = some w' → Watching w' := by
    intro hstep
    obtain ⟨c, hc, hstep⟩ := Option.bind_eq_some_iff.mp hstep
    obtain ⟨c', hact, hstep⟩ := Option.bind_eq_some_iff.mp hstep
    exact Option.some.inj hstep ▸ h.act hc hact
  cases a with
  | poll | deliver | leave => exact hcaller hstep
  | append event stored =>
    rw [OperationRuns.watch] at hstep
    split at hstep
    · rename_i hready
      rw [Bool.and_eq_true, Option.isNone_iff_eq_none] at hready
      exact Option.some.inj hstep ▸ h.append hready.1 hready.2 event stored
    · cases hstep
  | hand =>
    rw [OperationRuns.watch] at hstep
    obtain ⟨d, hdirect, rfl⟩ := Option.map_eq_some_iff.mp hstep
    exact h.hand hdirect
  | persist succeeded =>
    rw [OperationRuns.watch] at hstep
    split at hstep
    · rename_i hrest
      exact Option.some.inj hstep ▸ h.persist (Option.isNone_iff_eq_none.mp hrest) _
    · cases hstep
  | attach observer =>
    rw [OperationRuns.watch] at hstep
    split at hstep
    · exact Option.some.inj hstep ▸ h.attach observer
    · cases hstep

end Watching

/-- **When an observer sees each event once.** A caller that waits until the operation is over has
every event that was appended to the record delivered to its observer, each once and in the order of
the record, if and only if it is not the creator or nothing was appended. -/
theorem progress_once_iff {observer : Bool} {acts : List (Watch Ev)} {w : Watched Ev}
    (hrun : exec watch (created observer) acts = some w) {i : Nat} {c : Caller Ev}
    (hc : w.callers[i]? = some c) (hobserver : c.observer = true) (hreturned : c.returned = true) :
    c.appended = w.progress.zipIdx ↔ i ≠ 0 ∨ w.progress = [] := by
  have hstart : Watching (created observer : Watched Ev) := by
    refine ⟨by simp [created], nofun, fun _ => rfl, fun i c hc _ => ?_⟩
    dsimp only [created] at hc
    rw [List.getElem?_singleton] at hc
    split at hc
    · obtain rfl := Option.some.inj hc
      exact ⟨Nat.zero_le _, nofun, nofun, fun _ => rfl, fun _ => rfl⟩
    · cases hc
  have hwatching : Watching w := exec_invariant (fun h hstep => h.watch hstep) hstart hrun
  have hkept := hwatching.callers i c hc hobserver
  obtain ⟨hfinished, hpending⟩ := hkept.returned hreturned
  obtain ⟨hseen, hover⟩ := hkept.finished hfinished
  by_cases hi : i = 0
  · -- the creator was called twice for each event, once by the sink and once by itself
    have hdue : w.due = 0 := by rw [Watched.due, hwatching.atRest hover]; rfl
    have hsum := hkept.twice hi
    rw [hpending, hseen, hdue, List.length_nil, Nat.add_zero] at hsum
    constructor
    · intro hall
      rw [hall, List.length_zipIdx] at hsum
      exact Or.inr (List.length_eq_zero_iff.mp (by omega))
    · rintro (hother | hnone)
      · exact absurd hi hother
      · rw [hnone] at hsum ⊢
        exact List.length_eq_zero_iff.mp hsum
  · have honce := hkept.once hi
    rw [hpending, hseen, List.append_nil, ← List.length_zipIdx, List.take_length] at honce
    exact ⟨fun _ => Or.inl hi, fun _ => honce⟩

/-- A caller that has attached sees the event of another's operation once. -/
theorem progress_once_attached :
    ∃ w c, exec watch (created true) [.attach true, .append "accepted" true, .hand, .poll 1,
        .deliver 1, .persist true, .poll 1, .leave 1] = some w ∧ w.callers[1]? = some c ∧
      c.appended = w.progress.zipIdx :=
  ⟨_, _, rfl, rfl, (@progress_once_iff String true [.attach true, .append "accepted" true, .hand,
    .poll 1, .deliver 1, .persist true, .poll 1, .leave 1] _ rfl 1 _ rfl rfl rfl).mpr
    (Or.inl Nat.one_ne_zero)⟩

/-- **The creator sees it twice.** -/
theorem progress_twice :
    (exec watch (created true) [.append "accepted" true, .hand, .persist true, .poll 0, .deliver 0,
      .leave 0]).map (fun w => (w.progress.zipIdx, w.callers.map fun c => (c.returned, c.appended))) =
    some ([("accepted", 0)], [(true, [("accepted", 0), ("accepted", 0)])]) := by
  decide

end Gmeow.OperationRuns
