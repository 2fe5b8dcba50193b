import Gmeow.Contracts
import Gmeow.Prog
import Gmeow.Text

/-!
# Backfills and their cursors

A backfill pulls pages of messages from a source, ingests them and saves where it stands in the
cursor record of the source. The cursors of several backfills are kept in one record, each
under a key; a save reads the record, replaces its own entry and writes the record back.

* `runBackfill` — the loop over pages, `writeBackfillCursor` — one save;
* `Covered` — every message of a page the cursor is past was ingested or is listed as failed;
* `backfills_cover` — so it is after every sequence of resumed backfills, if each starts when the
  messages listed as failed were ingested, and none is being ingested elsewhere.
-/

namespace Gmeow

open Prog

/-! ## Cursors -/

/-- A field of a page cursor. -/
inductive CursorField : Type where
  | bool : Bool → CursorField
  | num : Int → CursorField
  | str : String → CursorField
  | strs : List String → CursorField
  deriving DecidableEq

/-- Where a backfill stands: `map[string]any`. -/
abbrev PageCursor : Type := OrdMap String CursorField

/-- An entry of the cursor record: a field, or the cursor under a key. -/
inductive CursorEntry : Type where
  | field : CursorField → CursorEntry
  | nested : PageCursor → CursorEntry
  deriving DecidableEq

/-- `contracts.SourceCursor`. -/
structure SourceCursor : Type where
  updatedAt : Time := zeroTime
  cursor : OrdMap String CursorEntry := ∅
  sourceKind : String := ""
  sourceName : String := ""
  deriving DecidableEq

/-- `boolCursorValue`. -/
def boolCursorValue (cursor : PageCursor) (key : String) : Bool :=
  cursor.get key = some (.bool true)

/-- `mapCursorValue`. -/
def mapCursorValue (cursor : OrdMap String CursorEntry) (key : String) : Option PageCursor :=
  match cursor.get key with
  | some (.nested nested) => some nested
  | _ => none

/-- A page cursor as the whole record. -/
def flatCursor (cursor : PageCursor) : OrdMap String CursorEntry := cursor.mapValues .field

/-! ## The service -/

/-- `source.BackfillRequest`. -/
structure BackfillRequest : Type where
  cursor : PageCursor := ∅
  priorityClass : String := ""
  cursorKey : String := ""
  pageSize : Int := 0
  maxPages : Int := 0
  resume : Bool := false

/-- `source.BackfillReport`. -/
structure BackfillReport : Type where
  finalCursor : SourceCursor := { }
  failedMessageIDs : List String := []
  processed : Nat := 0
  created : Nat := 0
  skipped : Nat := 0
  failed : Nat := 0
  pages : Nat := 0
  completed : Bool := false

/-- `source.PullAdapter`; what `Pull` returns is up to the world. -/
structure PullAdapter : Type where
  kind : String
  name : String
  capabilities : List String

/-- What `Pull` returned: the ids of the messages, the next cursor, and an error. A cursor is of
the source itself or of none, as the zero `SourceCursor` is. -/
structure PullAnswer : Type where
  objects : List String := []
  next : PageCursor := ∅
  named : Bool := true
  error : Option String := none

/-- How the ingest of a message ended. -/
inductive IngestOutcome : Type where
  | created : IngestOutcome
  | existing : IngestOutcome
  /-- `ErrSourceIngestInProgress` -/
  | inProgress : IngestOutcome
  | failed : String → IngestOutcome
  deriving DecidableEq

/-- Whether a message is there after its ingest. -/
def IngestOutcome.done : IngestOutcome → Bool
  | .created => true
  | .existing => true
  | _ => false

/-- What a save is about: the backfill, its cursor, the page the cursor is past, and the record
the one written is made from. -/
structure Save : Type where
  key : String
  next : PageCursor
  page : List String
  basis : Option SourceCursor

/-- The requests of a backfill. -/
inductive BackfillPrim : Type where
  | now : BackfillPrim
  /-- wait for the analyses; the error of a cancelled context -/
  | awaitPressureRelief : BackfillPrim
  | pull : PageCursor → Int → BackfillPrim
  /-- `ingestBackfillPage`: the messages that were handed to a worker -/
  | ingestPage : List String → BackfillPrim
  | readSourceCursor : BackfillPrim
  | writeSourceCursor : SourceCursor → Save → BackfillPrim

/-- Their answers. -/
@[reducible] def BackfillResp : BackfillPrim → Type
  | .now => Time
  | .awaitPressureRelief => Option String
  | .pull _ _ => PullAnswer
  | .ingestPage _ => List (String × IngestOutcome)
  | .readSourceCursor => Except String (Option SourceCursor)
  | .writeSourceCursor _ _ => Except String Unit

/-- The cursor record of a source, and what the source, the store and the context do next. -/
structure BackfillWorld : Type where
  record : Option SourceCursor := none
  clock : Nat → Time
  /-- the answers of `Pull`, by call -/
  pulls : Nat → PageCursor → PullAnswer
  /-- the outcomes of the messages of a page, by page and position -/
  outcomes : Nat → Nat → IngestOutcome
  /-- after how many messages of a page the context is cancelled, if it is -/
  cancelAfter : Nat → Option Nat := fun _ => none
  cancelled : Bool := false
  /-- errors of the store and of waiting -/
  errors : Nat → Option String := fun _ => none
  /-- the messages ingested -/
  ingested : List String := []
  /-- the messages of the pages a saved cursor is past -/
  past : List String := []
  /-- the cursors saved, the last one first -/
  saves : List (String × PageCursor) := []

/-- The error of the next call of the store. -/
def BackfillWorld.error (s : BackfillWorld) : Option String :=
  if s.cancelled then some "context canceled" else s.errors 0

/-- One request of a backfill. -/
def handleBackfill : Handler BackfillPrim BackfillResp BackfillWorld
  | .now, s => some (s.clock 0, { s with clock := fun n => s.clock (n + 1) })
  | .awaitPressureRelief, s => some (s.error, { s with errors := fun n => s.errors (n + 1) })
  | .pull cursor _, s => some (s.pulls 0 cursor, { s with pulls := fun n => s.pulls (n + 1) })
  | .ingestPage page, s =>
    -- objects not handed to a worker when the context is cancelled are left
    let handed := (s.cancelAfter 0).elim page fun n => page.take n
    let results := handed.mapIdx fun i id => (id, s.outcomes 0 i)
    some (results, { s with
      outcomes := fun n => s.outcomes (n + 1)
      cancelAfter := fun n => s.cancelAfter (n + 1)
      cancelled := s.cancelled || handed.length ≠ page.length
      ingested := (results.filter fun result => result.2.done).map Prod.fst ++ s.ingested })
  | .readSourceCursor, s =>
    some (s.error.elim (.ok s.record) .error, { s with errors := fun n => s.errors (n + 1) })
  | .writeSourceCursor record save, s =>
    match s.error with
    | some e => some (.error e, { s with errors := fun n => s.errors (n + 1) })
    | none => some (.ok (), { s with
        errors := fun n => s.errors (n + 1)
        record := some record
        past := save.page ++ s.past
        saves := (save.key, save.next) :: s.saves })

/-- Programs of the source service. -/
abbrev BackfillProc (α : Type) : Type := Prog BackfillPrim BackfillResp α

/-- One request. -/
abbrev askSource (p : BackfillPrim) : BackfillProc (BackfillResp p) := Prog.ask p

/-! ## Saving a cursor -/

/-- `namespacedCursor`: the cursor under its key in the stored record. -/
def namespacedCursor (formatTime : Time → String) (stored : SourceCursor) (next : PageCursor)
    (key : String) (now : Time) : OrdMap String CursorEntry :=
  (stored.cursor.set key (.nested next)).set (key ++ "_updated_at")
    (.field (.str (formatTime now)))

/-- The checks of `WriteSourceCursor`. -/
def validateSourceCursor (cursor : SourceCursor) : Except String Unit :=
  if blank cursor.sourceKind then .error "source cursor kind is required"
  else if blank cursor.sourceName then .error "source cursor name is required"
  else .ok ()

/-- `WriteCursor`, of the adapter's own source; an answer of the store is its outcome. -/
def writeCursor (adapter : PullAdapter) (cursor : OrdMap String CursorEntry) (save : Save) :
    BackfillProc Unit := do
  let now ← askSource .now
  let record : SourceCursor :=
    { updatedAt := now, cursor := cursor, sourceKind := adapter.kind, sourceName := adapter.name }
  ofExcept (validateSourceCursor record)
  let out ← askSource (.writeSourceCursor record save)
  ofExcept out

/-- `writeBackfillCursor`, for the cursor that is past `page`. -/
def writeBackfillCursor (formatTime : Time → String) (adapter : PullAdapter)
    (stored : SourceCursor) (next : PageCursor) (key : String) (page : List String) :
    BackfillProc Unit :=
  if key = "" then
    writeCursor adapter (flatCursor next) { key := key, next := next, page := page, basis := none }
  else do
    let latest ← askSource .readSourceCursor
    let basis ← ofExcept latest
    let now ← askSource .now
    writeCursor adapter (namespacedCursor formatTime (basis.getD stored) next key now)
      { key := key, next := next, page := page, basis := basis }

/-! ## The backfill -/

/-- `MaxPagesNotReached`. -/
def BackfillReport.maxPagesNotReached (report : BackfillReport) (maxPages : Int) : Bool :=
  maxPages ≤ 0 || (report.pages : Int) < maxPages

/-- The report of `ingestBackfillPage`. -/
def pageReport : List (String × IngestOutcome) → BackfillReport
  | [] => { }
  | (id, outcome) :: rest =>
    let report := pageReport rest
    let report := { report with processed := report.processed + 1 }
    match outcome with
    | .created => { report with created := report.created + 1 }
    | .existing => { report with skipped := report.skipped + 1 }
    | .inProgress => { report with skipped := report.skipped + 1 }
    | .failed _ => { report with
        failed := report.failed + 1, failedMessageIDs := id :: report.failedMessageIDs }

/-- The report with a page added. -/
def BackfillReport.addPage (report page : BackfillReport) : BackfillReport :=
  { report with
    processed := report.processed + page.processed
    created := report.created + page.created
    skipped := report.skipped + page.skipped
    failed := report.failed + page.failed
    failedMessageIDs := report.failedMessageIDs ++ page.failedMessageIDs
    pages := report.pages + 1 }

/-- `mergeBackfillCounts`. -/
def mergeBackfillCounts (cursor : PageCursor) (report : BackfillReport) : PageCursor :=
  ((((cursor.set "processed_count" (.num report.processed)).set
    "created_count" (.num report.created)).set
    "skipped_count" (.num report.skipped)).set
    "failed_count" (.num report.failed)).set
    "failed_message_ids" (.strs report.failedMessageIDs)

section Run

variable (formatTime : Time → String) (adapter : PullAdapter) (request : BackfillRequest)

/-- The record of a cursor that the report names. -/
def finalCursor (cursor : PageCursor) (updatedAt : Time) : SourceCursor :=
  { updatedAt := updatedAt, cursor := flatCursor cursor
    sourceKind := adapter.kind, sourceName := adapter.name }

/-- A page that was pulled: it is ingested and the cursor past it is saved. -/
def ingestPulled (stored : SourceCursor) (report : BackfillReport) (pulled : PullAnswer) :
    BackfillProc (BackfillReport × PageCursor × Option String) := do
  let results ← askSource (.ingestPage pulled.objects)
  let page := pageReport results
  let report := report.addPage page
  let next := mergeBackfillCounts pulled.next report
  let report := { report with
    completed := boolCursorValue next "completed", finalCursor := finalCursor adapter next zeroTime }
  match ← (writeBackfillCursor formatTime adapter stored next request.cursorKey
      pulled.objects).attempt with
  | .error e => return (report, next, some e)
  | .ok () =>
    if page.failed > 0 then
      return (report, next,
        some ("source backfill failed for " ++ toString page.failed ++ " message(s)"))
    else return (report, next, none)

/-- What `Pull` returned with an error, or an empty last page: the cursor is saved as it is. -/
def savePulled (stored : SourceCursor) (report : BackfillReport) (pulled : PullAnswer) :
    BackfillProc (BackfillReport × Option String) := do
  let report := { report with finalCursor := finalCursor adapter pulled.next zeroTime }
  match pulled.error with
  | some e =>
    if pulled.named then
      let _ ← (writeBackfillCursor formatTime adapter stored pulled.next request.cursorKey
        []).attempt
      return (report, some e)
    else return (report, some e)
  | none =>
    match ← (writeBackfillCursor formatTime adapter stored pulled.next request.cursorKey
        []).attempt with
    | .error e => return ({ report with completed := true }, some e)
    | .ok () => return ({ report with completed := true }, none)

/-- The loop of `RunBackfill`, for at most `fuel` pages. -/
def runPages (stored : SourceCursor) :
    Nat → PageCursor → BackfillReport → BackfillProc (BackfillReport × Option String)
  | 0, _, report => return (report, none)
  | fuel + 1, cursor, report =>
    if report.maxPagesNotReached request.maxPages then do
      let relief ← (if request.priorityClass = "background" then askSource .awaitPressureRelief
        else .ret none : BackfillProc (Option String))
      match relief with
      | some e => return (report, some e)
      | none =>
        let pulled ← askSource (.pull cursor (if request.pageSize ≤ 0 then 100 else request.pageSize))
        if pulled.error.isSome ||
            (pulled.objects.isEmpty && boolCursorValue pulled.next "completed") then
          savePulled formatTime adapter request stored report pulled
        else
          match ← ingestPulled formatTime adapter request stored report pulled with
          | (report, _, some e) => return (report, some e)
          | (report, next, none) =>
            if report.completed then return (report, none)
            else runPages stored fuel next report
    else return (report, none)

/-- The cursor a backfill starts from, and the record that was stored. -/
def startCursor : BackfillProc (PageCursor × SourceCursor) :=
  if request.cursorKey = "" then return (request.cursor, { })
  else do
    let latest ← askSource .readSourceCursor
    let found ← ofExcept latest
    match found with
    | none => return (request.cursor, { })
    | some stored =>
      if request.resume then
        return ((mapCursorValue stored.cursor request.cursorKey).getD request.cursor, stored)
      else return (request.cursor, stored)

/-- `RunBackfill`: the report and the error. -/
def runBackfill (fuel : Nat) : BackfillProc (BackfillReport × Option String) :=
  if adapter.capabilities.contains "backfill" then do
    let (cursor, stored) ← startCursor request
    if boolCursorValue cursor "completed" then
      let now ← askSource .now
      let final := finalCursor adapter cursor now
      if request.cursorKey = "" then return ({ completed := true, finalCursor := final }, none)
      else
        let later ← askSource .now
        return ({ completed := true, finalCursor := { final with
          cursor := namespacedCursor formatTime stored cursor request.cursorKey later } }, none)
    else runPages formatTime adapter request stored fuel cursor { }
  else .fail ("unsupported source operation: source " ++ adapter.kind ++ "/" ++ adapter.name ++
    " does not support backfill")

end Run

/-! ## Nothing is lost -/

/-- The messages a cursor lists as failed. -/
def failedMessageIDs (cursor : PageCursor) : List String :=
  match cursor.get "failed_message_ids" with
  | some (.strs ids) => ids
  | _ => []

/-- The messages the stored cursor of a key lists as failed. -/
def listedFailed (record : Option SourceCursor) (key : String) : List String :=
  match record with
  | none => []
  | some record =>
    if key = "" then
      match record.cursor.get "failed_message_ids" with
      | some (.field (.strs ids)) => ids
      | _ => []
    else
      match mapCursorValue record.cursor key with
      | some cursor => failedMessageIDs cursor
      | none => []

/-- Every message of a page the cursor is past was ingested or is listed as failed. -/
def Covered (key : String) (s : BackfillWorld) : Prop :=
  ∀ id ∈ s.past, id ∈ s.ingested ∨ id ∈ listedFailed s.record key

section Cover

variable {formatTime : Time → String} {adapter : PullAdapter} {request : BackfillRequest}

-- a save is checked before it is made; what the checks are does not matter here
seal validateSourceCursor

/-- What a save leaves alone. -/
structure SameMessages (s s' : BackfillWorld) : Prop where
  ingested : s'.ingested = s.ingested
  outcomes : s'.outcomes = s.outcomes

/-- A save: the cursor is stored and is past the page, or nothing has changed. -/
def Saved (key : String) (next : PageCursor) (page : List String) (s : BackfillWorld)
    (r : Except String Unit) (s' : BackfillWorld) : Prop :=
  SameMessages s s' ∧
    ((∃ e, r = .error e) ∧ s'.past = s.past ∧ s'.record = s.record ∨
      s.cancelled = false ∧ s'.past = page ++ s.past ∧
        listedFailed s'.record key = failedMessageIDs next)

variable {key : String} {next : PageCursor} {s s' : BackfillWorld} {stored : SourceCursor}
  {page : List String} {report : BackfillReport} {pulled : PullAnswer}

theorem writeCursor_saves {cursor : OrdMap String CursorEntry} {save : Save}
    (hlisted : ∀ record : SourceCursor, record.cursor = cursor →
      listedFailed (some record) key = failedMessageIDs next) :
    (writeCursor adapter cursor save).wlp handleBackfill s
      (Saved key next save.page s) := by
  rw [writeCursor]
  refine wlp_ask_bind fun now s₁ hnow => ?_
  cases hnow
  refine wlp_bind.mpr ?_
  generalize validateSourceCursor _ = valid
  cases valid with
  | error e => exact ⟨⟨rfl, rfl⟩, Or.inl ⟨⟨e, rfl⟩, rfl, rfl⟩⟩
  | ok =>
    refine wlp_ask_bind fun out s₂ hout => ?_
    rw [handleBackfill] at hout
    split at hout
    · cases hout
      exact ⟨⟨rfl, rfl⟩, Or.inl ⟨⟨_, rfl⟩, rfl, rfl⟩⟩
    · rename_i hnone
      cases hout
      refine ⟨⟨rfl, rfl⟩, Or.inr ⟨?_, rfl, hlisted _ rfl⟩⟩
      rw [BackfillWorld.error] at hnone
      split at hnone
      · cases hnone
      · rename_i hcancelled
        exact Bool.eq_false_iff.mpr hcancelled

theorem listedFailed_flat (next : PageCursor) (record : SourceCursor)
    (h : record.cursor = flatCursor next) :
    listedFailed (some record) "" = failedMessageIDs next := by
  rw [listedFailed, if_pos rfl, h, flatCursor, OrdMap.get_mapValues, failedMessageIDs]
  cases next.get "failed_message_ids" with
  | none => rfl
  | some field => cases field <;> rfl

/-- A key is not the key of its own time. -/
theorem ne_updatedAt (key : String) : key ≠ key ++ "_updated_at" := by
  intro heq
  have hlength := congrArg String.length heq
  rw [String.length_append] at hlength
  have hsuffix : "_updated_at".length = 11 := by decide
  omega

theorem listedFailed_nested (hkey : key ≠ "") (stored : SourceCursor) (next : PageCursor)
    (now : Time) (record : SourceCursor)
    (h : record.cursor = namespacedCursor formatTime stored next key now) :
    listedFailed (some record) key = failedMessageIDs next := by
  have hnested : mapCursorValue record.cursor key = some next := by
    rw [mapCursorValue, h, namespacedCursor, OrdMap.get_set_ne _ _ (ne_updatedAt key),
      OrdMap.get_set_self]
  rw [listedFailed, if_neg hkey, hnested]

/-- One save. -/
theorem writeBackfillCursor_saves :
    (writeBackfillCursor formatTime adapter stored next key page).wlp handleBackfill s
      (Saved key next page s) := by
  rw [writeBackfillCursor]
  split
  · rename_i hkey
    subst hkey
    exact writeCursor_saves (listedFailed_flat next)
  · rename_i hkey
    refine wlp_ask_bind fun latest s₁ hlatest => ?_
    cases hlatest
    cases herror : s.error with
    | some e => exact ⟨⟨rfl, rfl⟩, Or.inl ⟨⟨_, rfl⟩, rfl, rfl⟩⟩
    | none =>
      refine wlp_bind.mpr ?_
      refine wlp_ask_bind fun now s₂ hnow => ?_
      cases hnow
      refine wlp_mono (writeCursor_saves (listedFailed_nested hkey _ next _)) ?_
      rintro r s' ⟨⟨hingested, houtcomes⟩, hsaved⟩
      exact ⟨⟨hingested, houtcomes⟩, hsaved⟩

/-- The failed messages of a page are those whose ingestion failed. -/
theorem mem_pageReport {id : String} : ∀ {results : List (String × IngestOutcome)},
    id ∈ (pageReport results).failedMessageIDs ↔ ∃ e, (id, IngestOutcome.failed e) ∈ results := by
  intro results
  induction results with
  | nil => simp [pageReport]
  | cons result rest ih =>
    obtain ⟨first, outcome⟩ := result
    cases outcome with
    | failed e =>
      rw [pageReport]
      dsimp only
      rw [List.mem_cons, ih]
      constructor
      · rintro (rfl | ⟨e', hmem⟩)
        · exact ⟨e, List.mem_cons_self ..⟩
        · exact ⟨e', List.mem_cons_of_mem _ hmem⟩
      · rintro ⟨e', hmem⟩
        rcases List.mem_cons.mp hmem with heq | hmem
        · cases heq
          exact Or.inl rfl
        · exact Or.inr ⟨e', hmem⟩
    | _ =>
      rw [pageReport]
      dsimp only
      rw [ih]
      constructor
      · exact fun ⟨e', hmem⟩ => ⟨e', List.mem_cons_of_mem _ hmem⟩
      · rintro ⟨e', hmem⟩
        rcases List.mem_cons.mp hmem with heq | hmem
        · cases heq
        · exact ⟨e', hmem⟩

/-- The failures are counted. -/
theorem pageReport_failed : ∀ results : List (String × IngestOutcome),
    (pageReport results).failed = (pageReport results).failedMessageIDs.length := by
  intro results
  induction results with
  | nil => rfl
  | cons result rest ih =>
    obtain ⟨first, outcome⟩ := result
    cases outcome with
    | failed e =>
      rw [pageReport]
      dsimp only
      rw [ih, List.length_cons]
    | _ => exact ih

/-- Every message past the cursor was ingested. -/
def AllIngested (s : BackfillWorld) : Prop := ∀ id ∈ s.past, id ∈ s.ingested

/-- No message is being ingested elsewhere. -/
def NoneInProgress (s : BackfillWorld) : Prop := ∀ page i, s.outcomes page i ≠ .inProgress

theorem AllIngested.covered (h : AllIngested s) :
    Covered key s := fun id hid => Or.inl (h id hid)

/-- The ingest of a page: all its messages are ingested or reported, unless the context was
cancelled. -/
theorem ingestPage_reports {results : List (String × IngestOutcome)} (hnone : NoneInProgress s)
    (h : handleBackfill (.ingestPage page) s = some (results, s')) :
    NoneInProgress s' ∧ s'.past = s.past ∧ s'.record = s.record ∧
      (∀ id ∈ s.ingested, id ∈ s'.ingested) ∧
      (s'.cancelled = false → ∀ id ∈ page,
        id ∈ s'.ingested ∨ id ∈ (pageReport results).failedMessageIDs) := by
  cases h
  refine ⟨fun page i => hnone (page + 1) i, rfl, rfl,
    fun id hid => List.mem_append_right _ hid, fun hcancelled id hid => ?_⟩
  dsimp only at hcancelled ⊢
  obtain ⟨handed, hhanded⟩ : ∃ handed, (s.cancelAfter 0).elim page (fun n => page.take n) = handed :=
    ⟨_, rfl⟩
  rw [hhanded] at hcancelled ⊢
  -- every message was handed to a worker
  have hall : handed = page := by
    have hlength : handed.length = page.length := by
      rw [Bool.or_eq_false_iff] at hcancelled
      exact not_not.mp (of_decide_eq_false hcancelled.2)
    cases hcancel : s.cancelAfter 0 with
    | none => rw [hcancel] at hhanded; exact hhanded.symm
    | some n =>
      rw [hcancel] at hhanded
      subst hhanded
      exact (List.take_prefix n page).eq_of_length hlength
  subst hall
  obtain ⟨i, hi, rfl⟩ := List.mem_iff_getElem.mp hid
  have hresult : (handed[i], s.outcomes 0 i) ∈ handed.mapIdx fun i id => (id, s.outcomes 0 i) := by
    rw [List.mem_mapIdx]
    exact ⟨i, hi, rfl⟩
  cases houtcome : s.outcomes 0 i with
  | inProgress => exact absurd houtcome (hnone 0 i)
  | failed e =>
    rw [houtcome] at hresult
    exact Or.inr (mem_pageReport.mpr ⟨e, hresult⟩)
  | _ =>
    rw [houtcome] at hresult
    refine Or.inl (List.mem_append_left _ (List.mem_map.mpr ⟨_, List.mem_filter.mpr ⟨hresult, ?_⟩, rfl⟩))
    rfl

/-- One page. -/
theorem ingestPulled_covers (hs : AllIngested s) (hnone : NoneInProgress s)
    (hreport : report.failedMessageIDs = []) :
    (ingestPulled formatTime adapter request stored report pulled).wlp handleBackfill s
      fun r s' => NoneInProgress s' ∧ Covered request.cursorKey s' ∧
        ∀ report' next, r = .ok (report', next, none) →
          AllIngested s' ∧ report'.failedMessageIDs = [] := by
  refine wlp_ask_bind fun results s₁ hresults => ?_
  obtain ⟨hnone₁, hpast, hrecord, hmore, hpage⟩ := ingestPage_reports hnone hresults
  have hs₁ : AllIngested s₁ := fun id hid => hmore id (hs id (hpast ▸ hid))
  refine wlp_attempt_bind fun out s₂ hrun => ?_
  obtain ⟨⟨hingested, houtcomes⟩, ⟨⟨e, rfl⟩, hpast₂, hrecord₂⟩ | ⟨hcancelled, hpast₂, hlisted⟩⟩ :=
    wlp_run writeBackfillCursor_saves hrun
  · have hs₂ : AllIngested s₂ := by
      intro id hid
      rw [hpast₂] at hid
      rw [hingested]
      exact hs₁ id hid
    refine ⟨fun page i => houtcomes ▸ hnone₁ page i, hs₂.covered, fun report' next heq => ?_⟩
    cases heq
  · have hfailed : failedMessageIDs (mergeBackfillCounts pulled.next
        (report.addPage (pageReport results))) = (pageReport results).failedMessageIDs := by
      rw [failedMessageIDs, mergeBackfillCounts, OrdMap.get_set_self, BackfillReport.addPage, hreport]
      rfl
    rw [hfailed] at hlisted
    have hcovered : Covered request.cursorKey s₂ := by
      intro id hid
      rw [hpast₂] at hid
      rw [hingested, hlisted]
      rcases List.mem_append.mp hid with hid | hid
      · exact hpage hcancelled id hid
      · exact Or.inl (hs₁ id hid)
    have hnone₂ : NoneInProgress s₂ := fun page i => houtcomes ▸ hnone₁ page i
    cases out with
    | error e => exact ⟨hnone₂, hcovered, fun _ _ heq => nomatch heq⟩
    | ok =>
      dsimp only
      split
      · exact ⟨hnone₂, hcovered, fun _ _ heq => nomatch heq⟩
      · rename_i hzero
        have hnil : (pageReport results).failedMessageIDs = [] := by
          rw [pageReport_failed, gt_iff_lt, List.length_pos_iff, not_not] at hzero
          exact hzero
        refine ⟨hnone₂, hcovered, fun report' next heq => ?_⟩
        cases heq
        refine ⟨fun id hid => (hcovered id hid).resolve_right ?_, ?_⟩
        · rw [hlisted, hnil]
          exact List.not_mem_nil
        · rw [BackfillReport.addPage]
          dsimp only
          rw [hreport, hnil]
          rfl

/-- What the pages of a run end with: all is covered, and no outcome is in progress. -/
def RunCovers {α : Type} (key : String) (_ : Except String α) (s : BackfillWorld) : Prop :=
  NoneInProgress s ∧ Covered key s

/-- A save that is past no page. -/
theorem save_covers {r : Except String Unit} (hs : AllIngested s) (hnone : NoneInProgress s)
    (hrun : (writeBackfillCursor formatTime adapter stored next request.cursorKey []).run
      handleBackfill s = some (r, s')) : RunCovers request.cursorKey r s' := by
  obtain ⟨⟨hingested, houtcomes⟩, hsaved⟩ := wlp_run writeBackfillCursor_saves hrun
  have hpast : s'.past = s.past := by
    rcases hsaved with ⟨-, hpast, -⟩ | ⟨-, hpast, -⟩
    · exact hpast
    · exact hpast
  have hs' : AllIngested s' := by
    intro id hid
    rw [hingested]
    exact hs id (hpast ▸ hid)
  exact ⟨fun page i => houtcomes ▸ hnone page i, hs'.covered⟩

theorem savePulled_covers (hs : AllIngested s) (hnone : NoneInProgress s) :
    (savePulled formatTime adapter request stored report pulled).wlp handleBackfill s
      (RunCovers request.cursorKey) := by
  rw [savePulled]
  dsimp only
  split
  · split
    · exact wlp_attempt_bind fun r s' hrun => save_covers hs hnone hrun
    · exact ⟨hnone, hs.covered⟩
  · refine wlp_attempt_bind fun r s' hrun => ?_
    have hcovers := save_covers hs hnone hrun
    cases r with
    | error e => exact hcovers
    | ok => exact hcovers

/-- The pages of a run, by induction over them: until one fails, all is ingested. -/
theorem runPages_covers :
    ∀ {fuel : Nat} {cursor : PageCursor} {report : BackfillReport} {s : BackfillWorld},
      AllIngested s → NoneInProgress s → report.failedMessageIDs = [] →
      (runPages formatTime adapter request stored fuel cursor report).wlp handleBackfill s
        (RunCovers request.cursorKey) := by
  intro fuel
  induction fuel with
  | zero => exact fun hs hnone _ => ⟨hnone, hs.covered⟩
  | succ fuel ih =>
    intro cursor report s hs hnone hreport
    rw [runPages]
    split
    · have hrelief : (if request.priorityClass = "background" then
          askSource .awaitPressureRelief else .ret none : BackfillProc (Option String)).wlp
          handleBackfill s fun r s' => (∃ out, r = .ok out) ∧ AllIngested s' ∧ NoneInProgress s' := by
        split
        · intro out s' hout
          cases hout
          exact ⟨⟨_, rfl⟩, hs, hnone⟩
        · exact ⟨⟨_, rfl⟩, hs, hnone⟩
      refine wlp_bind.mpr (wlp_mono hrelief ?_)
      rintro _ s₁ ⟨⟨relief, rfl⟩, hs₁, hnone₁⟩
      cases relief with
      | some e => exact ⟨hnone₁, hs₁.covered⟩
      | none =>
        refine wlp_ask_bind fun pulled s₂ hpulled => ?_
        cases hpulled
        split
        · exact savePulled_covers hs₁ hnone₁
        · refine wlp_bind.mpr (wlp_mono (ingestPulled_covers hs₁ hnone₁ hreport) ?_)
          rintro r s₃ ⟨hnone₃, hcovered, hgoes⟩
          cases r with
          | error e => exact ⟨hnone₃, hcovered⟩
          | ok out =>
            obtain ⟨report', next, stopped⟩ := out
            cases stopped with
            | some e => exact ⟨hnone₃, hcovered⟩
            | none =>
              obtain ⟨hs₃, hreport'⟩ := hgoes report' next rfl
              dsimp only [after]
              split
              · exact ⟨hnone₃, hcovered⟩
              · exact ih hs₃ hnone₃ hreport'
    · exact ⟨hnone, hs.covered⟩

/-- One backfill. -/
theorem runBackfill_covers {fuel : Nat} (hs : AllIngested s) (hnone : NoneInProgress s) :
    (runBackfill formatTime adapter request fuel).wlp handleBackfill s
      (RunCovers request.cursorKey) := by
  rw [runBackfill]
  split
  · have hstart : (startCursor request).wlp handleBackfill s fun _ s' =>
        AllIngested s' ∧ NoneInProgress s' := by
      rw [startCursor]
      split
      · exact ⟨hs, hnone⟩
      · refine wlp_ask_bind fun latest s₁ hlatest => ?_
        cases hlatest
        refine wlp_bind.mpr ?_
        cases s.error with
        | some e => exact ⟨hs, hnone⟩
        | none =>
          cases s.record with
          | none => exact ⟨hs, hnone⟩
          | some stored =>
            dsimp only [after, wlp, Prog.ofExcept, Option.elim]
            split
            · exact ⟨hs, hnone⟩
            · exact ⟨hs, hnone⟩
    refine wlp_bind.mpr (wlp_mono hstart ?_)
    rintro (e | ⟨cursor, stored⟩) s₁ ⟨hs₁, hnone₁⟩
    · exact ⟨hnone₁, hs₁.covered⟩
    · dsimp only [after]
      split
      · refine wlp_ask_bind fun now s₂ hnow => ?_
        cases hnow
        split
        · exact ⟨hnone₁, hs₁.covered⟩
        · refine wlp_ask_bind fun later s₃ hlater => ?_
          cases hlater
          exact ⟨hnone₁, hs₁.covered⟩
      · exact runPages_covers hs₁ hnone₁ rfl
  · exact ⟨hnone, hs.covered⟩

end Cover

/-- Sequences of backfills of one key. Messages may be ingested by other means between them, and
each has a context of its own. A backfill starts only when the messages listed as failed were
ingested. -/
inductive Backfills (formatTime : Time → String) (adapter : PullAdapter) (key : String)
    (start : BackfillWorld) : BackfillWorld → Prop where
  | start : Backfills formatTime adapter key start start
  | elsewhere {s : BackfillWorld} {ids : List String} : Backfills formatTime adapter key start s →
      Backfills formatTime adapter key start { s with ingested := ids ++ s.ingested }
  | run {s s' : BackfillWorld} {request : BackfillRequest} {fuel : Nat}
      {r : Except String (BackfillReport × Option String)} :
      Backfills formatTime adapter key start s → request.cursorKey = key →
      (∀ id ∈ listedFailed s.record key, id ∈ s.ingested) →
      (runBackfill formatTime adapter request fuel).run handleBackfill
        { s with cancelled := false } = some (r, s') →
      Backfills formatTime adapter key start s'

/-- **Backfills lose nothing.** After every sequence of backfills of a key, from any page contents
and any outcomes of the ingests, every message of a page the stored cursor is past was ingested
or is listed as failed in it; provided that each backfill starts only when the messages listed as
failed were ingested, and that no ingest ends with the message in progress elsewhere. -/
theorem backfills_cover {formatTime : Time → String} {adapter : PullAdapter} {key : String}
    {start s : BackfillWorld} (hpast : start.past = [])
    (hnone : ∀ page i, start.outcomes page i ≠ .inProgress)
    (h : Backfills formatTime adapter key start s) :
    ∀ id ∈ s.past, id ∈ s.ingested ∨ id ∈ listedFailed s.record key := by
  have hcovers : NoneInProgress s ∧ Covered key s := by
    induction h with
    | start =>
      refine ⟨hnone, fun id hid => ?_⟩
      rw [hpast] at hid
      cases hid
    | elsewhere _ ih =>
      refine ⟨ih.1, fun id hid => ?_⟩
      rcases ih.2 id hid with hingested | hlisted
      · exact Or.inl (List.mem_append_right _ hingested)
      · exact Or.inr hlisted
    | @run s s' request fuel r _ hkey hcleared hrun ih =>
      subst hkey
      have hall : AllIngested { s with cancelled := false } := by
        intro id hid
        rcases ih.2 id hid with hingested | hlisted
        · exact hingested
        · exact hcleared id hlisted
      exact wlp_run (runBackfill_covers hall ih.1) hrun
  exact hcovers.2

/-! ## A failure forgotten -/

/-- A source of two pages with one message each; the ingest of the first fails once. -/
def twoPages : BackfillWorld where
  clock := fun n => n
  pulls n _ :=
    if n = 0 then { objects := ["m1"], next := (∅ : PageCursor).set "page_token" (.str "2") }
    else { objects := ["m2"], next := (∅ : PageCursor).set "completed" (.bool true) }
  outcomes page _ := if page = 0 then .failed "refused" else .created

/-- The adapter of that source. -/
def pagedAdapter : PullAdapter := { kind := "gmail", name := "me", capabilities := ["backfill"] }

/-- The backfill of the key `backfill`, resumed. -/
def resumedBackfill : BackfillProc (BackfillReport × Option String) :=
  runBackfill (fun _ => "") pagedAdapter { cursorKey := "backfill", resume := true } 10

/-- The second backfill goes on after the page with the failure and forgets it: `m1` was not
ingested and is not listed. -/
theorem failure_forgotten :
    ∃ r₁ s₁ r₂ s₂, resumedBackfill.run handleBackfill twoPages = some (r₁, s₁) ∧
      resumedBackfill.run handleBackfill s₁ = some (r₂, s₂) ∧
      "m1" ∈ s₂.past ∧ "m1" ∉ s₂.ingested ∧ "m1" ∉ listedFailed s₂.record "backfill" := by
  have heval : ((resumedBackfill.run handleBackfill twoPages).any fun out₁ =>
      (resumedBackfill.run handleBackfill out₁.2).any fun out₂ =>
        decide ("m1" ∈ out₂.2.past) && decide ("m1" ∉ out₂.2.ingested) &&
        decide ("m1" ∉ listedFailed out₂.2.record "backfill")) = true := by
    decide +kernel
  obtain ⟨⟨r₁, s₁⟩, hrun₁, heval⟩ := (Option.any_eq_true _ _).mp heval
  obtain ⟨⟨r₂, s₂⟩, hrun₂, heval⟩ := (Option.any_eq_true _ _).mp heval
  simp only [Bool.and_eq_true, decide_eq_true_eq] at heval
  exact ⟨r₁, s₁, r₂, s₂, hrun₁, hrun₂, heval.1.1, heval.1.2, heval.2⟩

/-- When `m1` is ingested before the backfill goes on, both messages are there at the end. -/
theorem backfills_cover_retried :
    ∃ r₁ s₁ r₂ s₂, resumedBackfill.run handleBackfill twoPages = some (r₁, s₁) ∧
      resumedBackfill.run handleBackfill { s₁ with ingested := ["m1"] ++ s₁.ingested } =
        some (r₂, s₂) ∧ s₂.past = ["m2", "m1"] ∧
      ∀ id ∈ s₂.past, id ∈ s₂.ingested ∨ id ∈ listedFailed s₂.record "backfill" := by
  have heval : ((resumedBackfill.run handleBackfill twoPages).any fun out₁ =>
      decide (listedFailed out₁.2.record "backfill" = ["m1"]) && !out₁.2.cancelled &&
      (resumedBackfill.run handleBackfill
        { out₁.2 with ingested := ["m1"] ++ out₁.2.ingested }).any fun out₂ =>
          decide (out₂.2.past = ["m2", "m1"])) = true := by
    decide +kernel
  obtain ⟨⟨r₁, s₁⟩, hrun₁, heval⟩ := (Option.any_eq_true _ _).mp heval
  simp only [Bool.and_eq_true, decide_eq_true_eq, Option.any_eq_true, Bool.not_eq_true'] at heval
  obtain ⟨⟨hlisted, hcancelled⟩, ⟨r₂, s₂⟩, hrun₂, hpast⟩ := heval
  have hfirst : Backfills (fun _ => "") pagedAdapter "backfill" twoPages s₁ :=
    .run .start rfl (fun _ hmem => nomatch hmem) hrun₁
  have hretried : Backfills (fun _ => "") pagedAdapter "backfill" twoPages
      { s₁ with ingested := ["m1"] ++ s₁.ingested } := .elsewhere hfirst
  have hsame : ({ s₁ with ingested := ["m1"] ++ s₁.ingested, cancelled := false } : BackfillWorld) =
      { s₁ with ingested := ["m1"] ++ s₁.ingested } := by
    rw [← hcancelled]
  have hsecond : Backfills (fun _ => "") pagedAdapter "backfill" twoPages s₂ := by
    refine .run hretried rfl (fun id hid => ?_) (hsame ▸ hrun₂)
    rw [hlisted] at hid
    exact List.mem_append_left _ hid
  refine ⟨r₁, s₁, r₂, s₂, hrun₁, hrun₂, hpast, backfills_cover rfl (fun page i => ?_) hsecond⟩
  rw [twoPages]
  dsimp only
  split
  · exact fun heq => nomatch heq
  · exact fun heq => nomatch heq

end Gmeow
