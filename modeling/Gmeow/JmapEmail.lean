import Gmeow.Resolution
import Gmeow.Runs

/-!
# Mailboxes and keywords of an email

An update of an email reads the rows of the projection, computes the mailboxes and the keywords the
email is to have, writes them as an overlay to the store and then to the projection. Nothing holds
the three together.

* `applyJMAPBoolMap` — what a patch makes of a list;
* `Contended`, `take` — one email and the updates that are under way;
* `emailState_serial` — one update at a time leaves both copies equal, and equal to the updates in
  some order; `emailState_torn` — two at a time do not;
* `Mail`, `step` — emails, overlays and mailboxes, with all who write them;
* `email_stays_housed` — as long as updates name live mailboxes and keywords that can be stored and
  no mailbox in use is destroyed, every email is in a live mailbox and every overlay can be
  projected;
* `overlay_names_nothing` — overlays with a mailbox that does not exist, or with a keyword that
  PostgreSQL refuses.
-/

namespace Gmeow.JmapEmail

open Runs

/-! ## Patches -/

/-- One entry of the patch. -/
def patchEntry (values : List String) (entry : String × Bool) : List String :=
  if entry.1 = "" then values
  else if entry.2 then entry.1 :: values
  else values.filter fun value => decide (value ≠ entry.1)

/-- `applyJMAPBoolMap`, with the patch as it is enumerated. -/
def applyJMAPBoolMap (existing : List String) (patch : List (String × Bool)) (replace : Bool) :
    List String :=
  let values := if replace then [] else existing.filter fun value => decide (value ≠ "")
  sortStrings (patch.foldl patchEntry values).dedup

/-- `uniqueSortedNonEmpty`. -/
def uniqueSortedNonEmpty (values : List String) : List String :=
  sortStrings (values.filter fun value => decide (value ≠ "")).dedup

variable {values : List String} {value : String} {patch : List (String × Bool)}

theorem mem_uniqueSortedNonEmpty :
    value ∈ uniqueSortedNonEmpty values ↔ value ∈ values ∧ value ≠ "" := by
  rw [uniqueSortedNonEmpty, sortStrings, (List.perm_insertionSort _ _).mem_iff, List.mem_dedup,
    List.mem_filter, decide_eq_true_eq]

/-- What is there behind the entries was there before or is switched on by one of them. -/
theorem mem_foldl_patchEntry (h : value ∈ patch.foldl patchEntry values) :
    value ∈ values ∨ (value ≠ "" ∧ (value, true) ∈ patch) := by
  induction patch generalizing values with
  | nil => exact .inl h
  | cons entry rest ih =>
    obtain ⟨key, enabled⟩ := entry
    rcases ih h with hvalue | ⟨hne, hin⟩
    · rw [patchEntry] at hvalue
      split at hvalue
      · exact .inl hvalue
      split at hvalue
      · rename_i hkey henabled
        have henabled : enabled = true := henabled
        rcases List.mem_cons.mp hvalue with rfl | hvalue
        · exact .inr ⟨hkey, henabled ▸ List.mem_cons_self⟩
        · exact .inl hvalue
      · exact .inl (List.mem_filter.mp hvalue).1
    · exact .inr ⟨hne, List.mem_cons_of_mem _ hin⟩

theorem mem_applyJMAPBoolMap {existing : List String} {replace : Bool}
    (h : value ∈ applyJMAPBoolMap existing patch replace) :
    value ∈ existing ∨ (value ≠ "" ∧ (value, true) ∈ patch) := by
  rw [applyJMAPBoolMap, sortStrings, (List.perm_insertionSort _ _).mem_iff, List.mem_dedup] at h
  rcases mem_foldl_patchEntry h with hvalue | hvalue
  · split at hvalue
    · cases hvalue
    · exact .inl (List.mem_filter.mp hvalue).1
  · exact .inr hvalue

/-! ## One email, several updates -/

/-- The mailboxes and the keywords of an email: its rows, or its overlay. -/
structure EmailState : Type where
  mailboxIDs : List String
  keywords : List String
  deriving DecidableEq

/-- `JMAPEmailMutation`. -/
structure EmailMutation : Type where
  mailboxIDs : List (String × Bool) := []
  replaceMailboxes : Bool := false
  keywords : List (String × Bool) := []
  replaceKeywords : Bool := false

/-- What `JMAPEmailStates` returns: a row of a mailbox that is destroyed is not seen. -/
def EmailState.seen (live : String → Bool) (state : EmailState) : EmailState :=
  { state with mailboxIDs := state.mailboxIDs.filter live }

/-- The update that an email with this state gets from a mutation. -/
def EmailState.mutate (live : String → Bool) (state : EmailState) (mutation : EmailMutation) :
    EmailState where
  mailboxIDs :=
    applyJMAPBoolMap (state.seen live).mailboxIDs mutation.mailboxIDs mutation.replaceMailboxes
  keywords := applyJMAPBoolMap (state.seen live).keywords mutation.keywords mutation.replaceKeywords

/-- How far a call has come. -/
inductive Phase : Type where
  | waiting : Phase
  /-- The rows are read and the update is computed. -/
  | read (update : EmailState) : Phase
  /-- The overlay is written. -/
  | overlaid (update : EmailState) : Phase
  | done : Phase
  deriving DecidableEq

/-- The call has read and has yet to write. -/
def Phase.inFlight : Phase → Bool
  | .read _ => true
  | .overlaid _ => true
  | _ => false

/-- One email in both stores, and the calls on it. -/
structure Contended : Type where
  rows : EmailState
  overlay : Option EmailState
  calls : List (EmailMutation × Phase)

/-- The three steps of `UpdateJMAPEmailState`. -/
inductive Move : Type where
  | read (call : Nat) : Move
  | writeOverlay (call : Nat) : Move
  | writeProjection (call : Nat) : Move

/-- The call a step is of. -/
def Move.call : Move → Nat
  | .read call => call
  | .writeOverlay call => call
  | .writeProjection call => call

/-- What a step makes of the email, and how far the call is then. -/
def advance (live : String → Bool) (w : Contended) (mutation : EmailMutation) :
    Move → Phase → Option (EmailState × Option EmailState × Phase)
  | .read _, .waiting =>
    let update := w.rows.mutate live mutation
    if update.mailboxIDs = [] then none else some (w.rows, w.overlay, .read update)
  | .writeOverlay _, .read update => some (w.rows, some update, .overlaid update)
  | .writeProjection _, .overlaid update => some (update, w.overlay, .done)
  | _, _ => none

/-- One step. -/
def take (live : String → Bool) (w : Contended) (a : Move) : Option Contended := do
  let call ← w.calls[a.call]?
  let (rows, overlay, phase) ← advance live w call.1 a call.2
  some { rows, overlay, calls := w.calls.set a.call (call.1, phase) }

/-- **A call reads only while no other call has yet to write.** -/
def Alone (w : Contended) : Move → Prop
  | .read _ => ∀ call ∈ w.calls, call.2.inFlight = false
  | _ => True

instance (w : Contended) : (a : Move) → Decidable (Alone w a)
  | .read _ => inferInstanceAs (Decidable (∀ call ∈ w.calls, call.2.inFlight = false))
  | .writeOverlay _ => .isTrue trivial
  | .writeProjection _ => .isTrue trivial

/-- The mutations whose calls are done. -/
def finished (calls : List (EmailMutation × Phase)) : List EmailMutation :=
  (calls.filter fun call => decide (call.2 = .done)).map Prod.fst

/-- What a call in flight knows is how things are. -/
def Current (live : String → Bool) (w : Contended) : EmailMutation × Phase → Prop
  | (mutation, .read update) => update = w.rows.mutate live mutation
  | (mutation, .overlaid update) =>
    update = w.rows.mutate live mutation ∧ w.overlay = some update
  | _ => True

/-- The rows are what the calls that are done make of the first ones. -/
structure Serial (live : String → Bool) (rows₀ : EmailState) (w : Contended) : Prop where
  order : ∃ order : List EmailMutation, order.Perm (finished w.calls) ∧
    w.rows = order.foldl (EmailState.mutate live) rows₀
  single : ∀ i j : Nat, ∀ c d, w.calls[i]? = some c → w.calls[j]? = some d →
    c.2.inFlight = true → d.2.inFlight = true → i = j
  current : ∀ call ∈ w.calls, Current live w call
  agreed : (∀ call ∈ w.calls, call.2.inFlight = false) → finished w.calls ≠ [] →
    w.overlay = some w.rows

section Updates

variable {live : String → Bool} {rows₀ : EmailState} {w w' : Contended}

theorem finished_cons (call : EmailMutation × Phase) (rest : List (EmailMutation × Phase)) :
    finished (call :: rest) =
      if call.2 = .done then call.1 :: finished rest else finished rest := by
  by_cases hdone : call.2 = .done
  · rw [finished, List.filter_cons_of_pos (by simpa using hdone), if_pos hdone]
    rfl
  · rw [finished, List.filter_cons_of_neg (by simpa using hdone), if_neg hdone]
    rfl

variable {calls : List (EmailMutation × Phase)} {i : Nat} {mutation : EmailMutation} {a : Move}
  {c call : EmailMutation × Phase} {update : EmailState}

/-- A call that is done is finished once. -/
theorem finished_set {phase : Phase} (phase' : Phase) (hi : calls[i]? = some (mutation, phase))
    (hphase : phase ≠ .done) :
    (finished (calls.set i (mutation, phase'))).Perm
      (if phase' = .done then mutation :: finished calls else finished calls) := by
  induction calls generalizing i with
  | nil => cases hi
  | cons call rest ih =>
    cases i with
    | zero =>
      obtain rfl : call = (mutation, phase) := Option.some.inj hi
      rw [List.set_cons_zero, finished_cons, finished_cons, if_neg hphase]
    | succ i =>
      have hrest := ih hi
      rw [List.set_cons_succ, finished_cons, finished_cons]
      by_cases hcall : call.2 = .done
      · rw [if_pos hcall, if_pos hcall]
        refine (hrest.cons call.1).trans ?_
        split
        · exact .swap _ _ _
        · exact .refl _
      · rw [if_neg hcall, if_neg hcall]
        exact hrest

/-- The step and the call that takes it. -/
theorem take_eq_some (h : take live w a = some w') :
    ∃ mutation phase rows overlay phase', w.calls[a.call]? = some (mutation, phase) ∧
      advance live w mutation a phase = some (rows, overlay, phase') ∧
      w' = ⟨rows, overlay, w.calls.set a.call (mutation, phase')⟩ := by
  obtain ⟨⟨mutation, phase⟩, hcall, h⟩ := Option.bind_eq_some_iff.mp h
  obtain ⟨⟨rows, overlay, phase'⟩, hadvance, h⟩ := Option.bind_eq_some_iff.mp h
  exact ⟨mutation, phase, rows, overlay, phase', hcall, hadvance, (Option.some.inj h).symm⟩

theorem mem_of_mem_set (h : call ∈ calls.set i c) :
    call = c ∨ ∃ j, j ≠ i ∧ calls[j]? = some call := by
  obtain ⟨j, hj⟩ := List.mem_iff_getElem?.mp h
  by_cases hij : j = i
  · subst hij
    rw [List.getElem?_set] at hj
    simp only [if_true] at hj
    split at hj
    · exact .inl (Option.some.inj hj).symm
    · cases hj
  · rw [List.getElem?_set_ne (Ne.symm hij)] at hj
    exact .inr ⟨j, hij, hj⟩

/-- Where at most one call was in flight, at most that one is when another phase of it begins. -/
theorem single_set (hothers : ∀ j d, j ≠ i → calls[j]? = some d → d.2.inFlight = false) :
    ∀ j k : Nat, ∀ d e, (calls.set i c)[j]? = some d → (calls.set i c)[k]? = some e →
      d.2.inFlight = true → e.2.inFlight = true → j = k := by
  have hself : ∀ j d, (calls.set i c)[j]? = some d → d.2.inFlight = true → j = i := by
    intro j d hj hflight
    by_contra hne
    rw [List.getElem?_set_ne (Ne.symm hne)] at hj
    rw [hothers j d hne hj] at hflight
    cases hflight
  intro j k d e hj hk hd he
  rw [hself j d hj hd, hself k e hk he]

/-- While a call is in flight, no other is. -/
theorem Serial.others (h : Serial live rows₀ w) (hi : w.calls[i]? = some c)
    (hflight : c.2.inFlight = true) :
    ∀ j d, j ≠ i → w.calls[j]? = some d → d.2.inFlight = false := by
  intro j d hne hj
  cases hd : d.2.inFlight with
  | false => rfl
  | true => exact absurd (h.single j i d c hj hi hd hflight) hne

/-- A call that is not in flight knows nothing that could be outdated. -/
theorem current_of_idle (h : call.2.inFlight = false) : Current live w call := by
  obtain ⟨mutation, phase⟩ := call
  cases phase with
  | waiting => trivial
  | done => trivial
  | read update => cases h
  | overlaid update => cases h

/-- The first step of a call, while no other is in flight. -/
theorem Serial.read (h : Serial live rows₀ w) (hi : w.calls[i]? = some (mutation, .waiting))
    (halone : ∀ call ∈ w.calls, call.2.inFlight = false) :
    Serial live rows₀ { w with
      calls := w.calls.set i (mutation, .read (w.rows.mutate live mutation)) } := by
  have hperm := finished_set (.read (w.rows.mutate live mutation)) hi nofun
  rw [if_neg nofun] at hperm
  have hbound : i < w.calls.length := (List.getElem?_eq_some_iff.mp hi).1
  refine ⟨?_, single_set fun j d _ hj => halone d (List.mem_of_getElem? hj), ?_, ?_⟩
  · obtain ⟨order, horder, hrows⟩ := h.order
    exact ⟨order, horder.trans hperm.symm, hrows⟩
  · intro call hcall
    rcases mem_of_mem_set hcall with rfl | ⟨j, -, hj⟩
    · exact rfl
    · exact current_of_idle (halone call (List.mem_of_getElem? hj))
  · intro hidle
    exact absurd (hidle _ (List.mem_of_getElem? (List.getElem?_set_self hbound))) nofun

/-- The second step. -/
theorem Serial.writeOverlay (h : Serial live rows₀ w)
    (hi : w.calls[i]? = some (mutation, .read update)) :
    Serial live rows₀ ⟨w.rows, some update, w.calls.set i (mutation, .overlaid update)⟩ := by
  have hperm := finished_set (.overlaid update) hi nofun
  rw [if_neg nofun] at hperm
  have hothers := h.others hi rfl
  have hbound : i < w.calls.length := (List.getElem?_eq_some_iff.mp hi).1
  refine ⟨?_, single_set hothers, ?_, ?_⟩
  · obtain ⟨order, horder, hrows⟩ := h.order
    exact ⟨order, horder.trans hperm.symm, hrows⟩
  · intro call hcall
    rcases mem_of_mem_set hcall with rfl | ⟨j, hne, hj⟩
    · exact ⟨h.current _ (List.mem_of_getElem? hi), rfl⟩
    · exact current_of_idle (hothers j call hne hj)
  · intro hidle
    exact absurd (hidle _ (List.mem_of_getElem? (List.getElem?_set_self hbound))) nofun

/-- The last step: the mutation is behind all that were done before. -/
theorem Serial.writeProjection (h : Serial live rows₀ w)
    (hi : w.calls[i]? = some (mutation, .overlaid update)) :
    Serial live rows₀ ⟨update, w.overlay, w.calls.set i (mutation, .done)⟩ := by
  have hperm := finished_set .done hi nofun
  rw [if_pos rfl] at hperm
  have hothers := h.others hi rfl
  obtain ⟨hupdate, hoverlay⟩ := h.current _ (List.mem_of_getElem? hi)
  refine ⟨?_, single_set hothers, ?_, fun _ _ => hoverlay⟩
  · obtain ⟨order, horder, hrows⟩ := h.order
    refine ⟨order ++ [mutation], ?_, ?_⟩
    · refine List.Perm.trans ?_ hperm.symm
      exact (List.perm_append_singleton mutation order).trans (horder.cons mutation)
    · rw [List.foldl_append, List.foldl_cons, List.foldl_nil, ← hrows]
      exact hupdate
  · intro call hcall
    rcases mem_of_mem_set hcall with rfl | ⟨j, hne, hj⟩
    · trivial
    · exact current_of_idle (hothers j call hne hj)

theorem Serial.take (h : Serial live rows₀ w) (hstep : within Alone (take live) w a = some w') :
    Serial live rows₀ w' := by
  obtain ⟨halone, hstep⟩ := within_eq_some.mp hstep
  obtain ⟨mutation, phase, rows, overlay, phase', hcall, hadvance, rfl⟩ := take_eq_some hstep
  cases a with
  | read i =>
    cases phase with
    | waiting =>
      simp only [advance] at hadvance
      split at hadvance
      · cases hadvance
      · cases hadvance
        exact h.read hcall halone
    | read update => cases hadvance
    | overlaid update => cases hadvance
    | done => cases hadvance
  | writeOverlay i =>
    cases phase with
    | read update =>
      cases hadvance
      exact h.writeOverlay hcall
    | waiting => cases hadvance
    | overlaid update => cases hadvance
    | done => cases hadvance
  | writeProjection i =>
    cases phase with
    | overlaid update =>
      cases hadvance
      exact h.writeProjection hcall
    | waiting => cases hadvance
    | read update => cases hadvance
    | done => cases hadvance

theorem take_mutations (h : take live w a = some w') :
    w'.calls.map Prod.fst = w.calls.map Prod.fst := by
  obtain ⟨mutation, phase, rows, overlay, phase', hcall, -, rfl⟩ := take_eq_some h
  refine List.ext_getElem? fun j => ?_
  rw [List.map_set, List.getElem?_set, List.getElem?_map]
  split
  · rename_i hj
    rw [← hj, List.length_map, if_pos (List.getElem?_eq_some_iff.mp hcall).1, hcall]
    rfl
  · rfl

end Updates

/-- Nothing has been read yet. -/
def waiting (rows : EmailState) (overlay : Option EmailState) (mutations : List EmailMutation) :
    Contended :=
  ⟨rows, overlay, mutations.map fun mutation => (mutation, .waiting)⟩

theorem finished_eq_nil (h : ∀ call ∈ calls, call.2 ≠ .done) : finished calls = [] := by
  rw [finished, List.filter_eq_nil_iff.mpr fun call hcall => by simpa using h call hcall]
  rfl

theorem finished_eq_map (h : ∀ call ∈ calls, call.2 = .done) :
    finished calls = calls.map Prod.fst := by
  rw [finished, List.filter_eq_self.mpr fun call hcall => by simpa using h call hcall]

/-- While every call waits, nothing has been applied. -/
theorem serial_waiting (live : String → Bool) (rows : EmailState) (overlay : Option EmailState)
    (mutations : List EmailMutation) : Serial live rows (waiting rows overlay mutations) := by
  have hwaiting : ∀ call ∈ (waiting rows overlay mutations).calls, call.2 = .waiting := by
    intro call hcall
    obtain ⟨mutation, -, rfl⟩ := List.mem_map.mp hcall
    rfl
  have hnone : finished (waiting rows overlay mutations).calls = [] :=
    finished_eq_nil fun call hcall => by
      rw [hwaiting call hcall]
      nofun
  refine ⟨⟨[], by rw [hnone], rfl⟩, ?_, ?_, fun _ hsome => absurd hnone hsome⟩
  · intro i j c d hi _ hc
    rw [hwaiting c (List.mem_of_getElem? hi)] at hc
    cases hc
  · intro call hcall
    refine current_of_idle ?_
    rw [hwaiting call hcall]
    rfl

/-- **One update at a time:** when all calls are done, the overlay and the rows are equal, and they
are what the mutations make of the first rows in some order. -/
theorem emailState_serial {live : String → Bool} {rows : EmailState} {overlay : Option EmailState}
    {mutations : List EmailMutation} (hsome : mutations ≠ []) {acts : List Move} {w : Contended}
    (hrun : exec (within Alone (take live)) (waiting rows overlay mutations) acts = some w)
    (hdone : ∀ call ∈ w.calls, call.2 = .done) :
    w.overlay = some w.rows ∧ ∃ order : List EmailMutation, order.Perm mutations ∧
      w.rows = order.foldl (EmailState.mutate live) rows := by
  have hserial : Serial live rows w :=
    exec_invariant (fun h hstep => h.take hstep) (serial_waiting live rows overlay mutations) hrun
  have hmutations : w.calls.map Prod.fst = mutations := by
    refine exec_invariant (P := fun w => w.calls.map Prod.fst = mutations)
      (fun h hstep => (take_mutations (within_eq_some.mp hstep).2).trans h) ?_ hrun
    rw [waiting, List.map_map]
    exact List.map_id mutations
  have hall := finished_eq_map hdone
  rw [hmutations] at hall
  obtain ⟨order, horder, hrows⟩ := hserial.order
  refine ⟨hserial.agreed ?_ (hall ▸ hsome), order, hall ▸ horder, hrows⟩
  intro call hcall
  rw [hdone call hcall]
  rfl

/-- A mutation that adds a keyword. -/
def keyword (name : String) : EmailMutation := { keywords := [(name, true)] }

/-- The second of two updates is read behind the first. -/
theorem emailState_serial_twice :
    ∃ w, exec (within Alone (take fun _ => true))
        (waiting ⟨["inbox"], []⟩ none [keyword "a", keyword "b"])
        [.read 1, .writeOverlay 1, .writeProjection 1, .read 0, .writeOverlay 0,
          .writeProjection 0] = some w ∧ w.overlay = some w.rows ∧
      ∃ order : List EmailMutation, order.Perm [keyword "a", keyword "b"] ∧
        w.rows = order.foldl (EmailState.mutate fun _ => true) ⟨["inbox"], []⟩ :=
  ⟨_, rfl, @emailState_serial (fun _ => true) ⟨["inbox"], []⟩ none [keyword "a", keyword "b"] nofun
    [.read 1, .writeOverlay 1, .writeProjection 1, .read 0, .writeOverlay 0, .writeProjection 0] _
    rfl (by decide)⟩

/-- **Two updates read the same rows:** each adds a keyword, the overlay ends with one of them and
the rows with the other. -/
theorem emailState_torn :
    ((exec (take fun _ => true) (waiting ⟨["inbox"], []⟩ none [keyword "a", keyword "b"])
        [.read 0, .read 1, .writeOverlay 0, .writeOverlay 1, .writeProjection 1,
          .writeProjection 0]).map fun w =>
      (decide (∀ call ∈ w.calls, call.2 = .done), w.overlay, w.rows)) =
      some (true, some ⟨["inbox"], ["b"]⟩, ⟨["inbox"], ["a"]⟩) ∧
    ∀ order ∈ [[keyword "a", keyword "b"], [keyword "b", keyword "a"]],
      order.foldl (EmailState.mutate fun _ => true) ⟨["inbox"], []⟩ =
        ⟨["inbox"], ["a", "b"]⟩ := by
  decide +kernel

/-! ## Emails, overlays and mailboxes -/

/-- The mailboxes the migration inserts as system mailboxes. -/
def systemIDs : List String := ["all", "inbox", "archive", "sent", "drafts", "trash", "spam"]

/-- `defaultJMAPMailboxes`. -/
def defaultJMAPMailboxes (labelIDs : List String) : List String :=
  "all" ::
    if "TRASH" ∈ labelIDs then ["trash"]
    else if "SPAM" ∈ labelIDs then ["spam"]
    else if "SENT" ∈ labelIDs then ["sent"]
    else if "DRAFT" ∈ labelIDs then ["drafts"]
    else if "INBOX" ∈ labelIDs then ["inbox"]
    else ["archive"]

/-- `defaultJMAPKeywords`. -/
def defaultJMAPKeywords (labelIDs : List String) : List String :=
  (if "UNREAD" ∈ labelIDs then [] else ["$seen"]) ++
    if "STARRED" ∈ labelIDs then ["$flagged"] else []

/-- The rows of `jmap_mailboxes`: a mailbox, and whether it is destroyed. -/
abbrev MailboxRows : Type := List (String × Bool)

/-- The foreign key of `jmap_email_mailboxes`: the rows are there, destroyed or not. -/
def Referenced (rows : MailboxRows) (ids : List String) : Prop := ∀ id ∈ ids, id ∈ rows.map Prod.fst

instance (rows : MailboxRows) (ids : List String) : Decidable (Referenced rows ids) :=
  inferInstanceAs (Decidable (∀ id ∈ ids, id ∈ rows.map Prod.fst))

/-- The keywords can be inserted; `refuses` are the texts that PostgreSQL does not take. -/
def Storable (refuses : String → Bool) (keywords : List String) : Prop :=
  ∀ keyword ∈ keywords, refuses keyword = false

instance (refuses : String → Bool) (keywords : List String) :
    Decidable (Storable refuses keywords) :=
  inferInstanceAs (Decidable (∀ keyword ∈ keywords, refuses keyword = false))

/-- `applyJMAPEmailStateTx`: the emails with a state row, their mailboxes and their keywords. -/
def applyJMAPEmailStateTx (refuses : String → Bool) (rows : MailboxRows)
    (emails : OrdMap String EmailState) (digest : String) (update : EmailState) :
    Option (OrdMap String EmailState) :=
  let mailboxIDs := uniqueSortedNonEmpty update.mailboxIDs
  let keywords := uniqueSortedNonEmpty update.keywords
  if mailboxIDs ≠ [] ∧ emails.has digest = true ∧ Referenced rows mailboxIDs ∧
      Storable refuses keywords then
    some (emails.set digest ⟨mailboxIDs, keywords⟩)
  else none

/-- `seedJMAPEmailMailboxesTx`: the mailboxes of an email without an overlay. -/
def seedJMAPEmailMailboxesTx (rows : MailboxRows) (existing labelIDs : List String) :
    Option (List String) :=
  if existing ≠ [] then some existing
  else if Referenced rows (defaultJMAPMailboxes labelIDs) then some (defaultJMAPMailboxes labelIDs)
  else none

/-- `seedJMAPEmailKeywordsTx`. -/
def seedJMAPEmailKeywordsTx (refuses : String → Bool) (existing labelIDs : List String) :
    Option (List String) :=
  if existing ≠ [] then some existing
  else if Storable refuses (defaultJMAPKeywords labelIDs) then some (defaultJMAPKeywords labelIDs)
  else none

/-- `seedJMAPEmailStateTx` of an object that is an email. -/
def seedJMAPEmailStateTx (refuses : String → Bool) (rows : MailboxRows)
    (emails : OrdMap String EmailState) (digest : String) (overlay : Option EmailState)
    (labelIDs : List String) : Option (OrdMap String EmailState) :=
  let existing := (emails.get digest).getD ⟨[], []⟩
  let seeded := emails.set digest existing
  match overlay.filter fun update => decide (update.mailboxIDs ≠ []) with
  | some update => applyJMAPEmailStateTx refuses rows seeded digest update
  | none => do
    let mailboxIDs ← seedJMAPEmailMailboxesTx rows existing.mailboxIDs labelIDs
    let keywords ← seedJMAPEmailKeywordsTx refuses existing.keywords labelIDs
    some (seeded.set digest ⟨mailboxIDs, keywords⟩)

/-- A call that is under way. -/
inductive Flight : Type where
  /-- An update that has been computed, and whether its overlay is written. -/
  | update (digest : String) (state : EmailState) (overlaid : Bool) : Flight
  /-- `ProjectObject`, with the overlay of the object it has loaded. -/
  | projection (digest : String) (overlay : Option EmailState) : Flight
  /-- `UpdateJMAPMailboxes`, with the mailboxes that are to remain. -/
  | catalog (mailboxIDs : List String) : Flight

/-- The mailboxes an email is to be put into. -/
def Flight.targets : Flight → List String
  | .update _ state _ => state.mailboxIDs
  | .projection _ overlay => (overlay.map EmailState.mailboxIDs).getD []
  | .catalog _ => []

/-- Both stores, and the calls under way. -/
structure Mail : Type where
  mailboxes : MailboxRows := systemIDs.map fun id => (id, false)
  emails : OrdMap String EmailState := ∅
  overlays : OrdMap String EmailState := ∅
  flights : List Flight := []

/-- What can happen. -/
inductive Act : Type where
  /-- `UpdateJMAPEmailState` reads an email and computes the update. -/
  | readEmail (digest : String) (mutation : EmailMutation) : Act
  /-- It writes the overlay. -/
  | writeOverlay (flight : Nat) : Act
  /-- It writes the projection; the call is over, whether or not this fails. -/
  | writeEmail (flight : Nat) : Act
  /-- `ProjectObject` loads the object, as it is in the store. -/
  | load (digest : String) : Act
  /-- It projects it. -/
  | project (flight : Nat) (labelIDs : List String) : Act
  /-- `UpdateJMAPMailboxes` reads the mailboxes and how many emails are in them. Those that it may
  destroy are not in the catalog any more, unless they hold an email. -/
  | readMailboxes (created destroyed : List String) : Act
  /-- It writes the catalog. -/
  | writeMailboxes (flight : Nat) : Act

/-- `JMAPMailboxEmailCounts` is not zero. -/
def Mail.Holds (w : Mail) (id : String) : Prop := ∃ entry ∈ w.emails.entries, id ∈ entry.2.mailboxIDs

instance (w : Mail) (id : String) : Decidable (w.Holds id) :=
  inferInstanceAs (Decidable (∃ entry ∈ w.emails.entries, id ∈ entry.2.mailboxIDs))

/-- `projectJMAPMailboxCatalogTx`: custom mailboxes that are not in the catalog are destroyed, those
in the catalog are live. -/
def projectCatalog (rows : MailboxRows) (ids : List String) : MailboxRows :=
  (rows.filter fun row => decide (row.1 ∉ ids)).map
      (fun row => (row.1, row.2 || decide (row.1 ∉ systemIDs))) ++
    ids.dedup.map fun id => (id, false)

/-- One step. -/
def step (refuses : String → Bool) (w : Mail) : Act → Option Mail
  | .readEmail digest mutation =>
    (w.emails.get digest).bind fun rows =>
      let update := rows.mutate (fun id => decide ((id, false) ∈ w.mailboxes)) mutation
      if update.mailboxIDs = [] then none
      else some { w with flights := w.flights ++ [.update digest update false] }
  | .writeOverlay flight =>
    match w.flights[flight]? with
    | some (.update digest update false) =>
      some { w with
        overlays := w.overlays.set digest update
        flights := w.flights.set flight (.update digest update true) }
    | _ => none
  | .writeEmail flight =>
    match w.flights[flight]? with
    | some (.update digest update true) =>
      some { w with
        emails := (applyJMAPEmailStateTx refuses w.mailboxes w.emails digest update).getD w.emails
        flights := w.flights.eraseIdx flight }
    | _ => none
  | .load digest =>
    some { w with flights := w.flights ++ [.projection digest (w.overlays.get digest)] }
  | .project flight labelIDs =>
    match w.flights[flight]? with
    | some (.projection digest overlay) =>
      some { w with
        emails := (seedJMAPEmailStateTx refuses w.mailboxes w.emails digest overlay
          labelIDs).getD w.emails
        flights := w.flights.eraseIdx flight }
    | _ => none
  | .readMailboxes created destroyed =>
    let custom := (w.mailboxes.filter fun row => decide (row.2 = false ∧ row.1 ∉ systemIDs)).map
      Prod.fst
    let kept := custom.filter fun id => decide (id ∉ destroyed ∨ w.Holds id)
    if ∀ id ∈ created, id ≠ "" ∧ id ∉ systemIDs then
      some { w with flights := w.flights ++ [.catalog (kept ++ created)] }
    else none
  | .writeMailboxes flight =>
    match w.flights[flight]? with
    | some (.catalog ids) =>
      some { w with
        mailboxes := projectCatalog w.mailboxes ids
        flights := w.flights.eraseIdx flight }
    | _ => none

/-- An email is in the mailbox, or will be: by a call under way or by its overlay. -/
def Mail.Uses (w : Mail) (id : String) : Prop :=
  w.Holds id ∨ (∃ entry ∈ w.overlays.entries, id ∈ entry.2.mailboxIDs) ∨ ∃ f ∈ w.flights, id ∈ f.targets

instance (w : Mail) (id : String) : Decidable (w.Uses id) :=
  inferInstanceAs (Decidable
    (w.Holds id ∨ (∃ entry ∈ w.overlays.entries, id ∈ entry.2.mailboxIDs) ∨ ∃ f ∈ w.flights, id ∈ f.targets))

/-- The mailboxes that a catalog destroys are in no use. -/
def Mail.Unused (w : Mail) (ids : List String) : Prop :=
  ∀ row ∈ w.mailboxes, row.2 = false → row.1 ∉ systemIDs → row.1 ∉ ids → ¬w.Uses row.1

instance (w : Mail) (ids : List String) : Decidable (w.Unused ids) :=
  inferInstanceAs (Decidable
    (∀ row ∈ w.mailboxes, row.2 = false → row.1 ∉ systemIDs → row.1 ∉ ids → ¬w.Uses row.1))

/-- The catalog a call is about to write. -/
def Mail.catalogOf (w : Mail) (flight : Nat) : List String :=
  match w.flights[flight]? with
  | some (.catalog ids) => ids
  | _ => []

/-- **Updates switch on live mailboxes and keywords that can be stored only, and no mailbox in use is
destroyed.** -/
def Careful (refuses : String → Bool) (w : Mail) : Act → Prop
  | .readEmail _ mutation =>
    (∀ entry ∈ mutation.mailboxIDs, entry.1 ≠ "" → entry.2 = true →
      (entry.1, false) ∈ w.mailboxes) ∧
    ∀ entry ∈ mutation.keywords, entry.1 ≠ "" → entry.2 = true → refuses entry.1 = false
  | .writeMailboxes flight => w.Unused (w.catalogOf flight)
  | _ => True

instance (refuses : String → Bool) (w : Mail) : (a : Act) → Decidable (Careful refuses w a)
  | .readEmail _ mutation => inferInstanceAs (Decidable
      ((∀ entry ∈ mutation.mailboxIDs, entry.1 ≠ "" → entry.2 = true →
        (entry.1, false) ∈ w.mailboxes) ∧
      ∀ entry ∈ mutation.keywords, entry.1 ≠ "" → entry.2 = true → refuses entry.1 = false))
  | .writeMailboxes flight => inferInstanceAs (Decidable (w.Unused (w.catalogOf flight)))
  | .writeOverlay _ => .isTrue trivial
  | .writeEmail _ => .isTrue trivial
  | .load _ => .isTrue trivial
  | .project _ _ => .isTrue trivial
  | .readMailboxes _ _ => .isTrue trivial

section Mailboxes

variable {refuses : String → Bool} {w w' : Mail} {rows : MailboxRows} {ids : List String}
  {emails : OrdMap String EmailState} {digest : String} {state : EmailState}

/-- Live mailboxes, at least one of them, and keywords that can be stored. -/
structure Housed (refuses : String → Bool) (rows : MailboxRows) (state : EmailState) : Prop where
  nonempty : state.mailboxIDs ≠ []
  live : ∀ id ∈ state.mailboxIDs, (id, false) ∈ rows
  storable : Storable refuses state.keywords

/-- What a call under way will do is fine. -/
def Flight.Sound (refuses : String → Bool) (rows : MailboxRows) : Flight → Prop
  | .update _ state _ => Housed refuses rows state
  | .projection _ overlay => ∀ state, overlay = some state → Housed refuses rows state
  | .catalog ids => ∀ id ∈ ids, id ≠ "" ∧ id ∉ systemIDs

/-- Every entry of a table is fine. -/
def AllHoused (refuses : String → Bool) (rows : MailboxRows) (table : OrdMap String EmailState) :
    Prop :=
  ∀ digest state, table.get digest = some state → Housed refuses rows state

/-- Everything that is or will be in a mailbox is in live ones, with keywords that can be stored. -/
structure Sound (refuses : String → Bool) (w : Mail) : Prop where
  system : ∀ id ∈ systemIDs, (id, false) ∈ w.mailboxes
  named : ∀ row ∈ w.mailboxes, row.1 ≠ ""
  emails : AllHoused refuses w.mailboxes w.emails
  overlays : AllHoused refuses w.mailboxes w.overlays
  flights : ∀ f ∈ w.flights, f.Sound refuses w.mailboxes

theorem referenced_of_live (h : ∀ id ∈ ids, (id, false) ∈ rows) : Referenced rows ids :=
  fun id hid => List.mem_map.mpr ⟨(id, false), h id hid, rfl⟩

theorem Housed.uniqueSorted (h : Housed refuses rows state) (hnamed : ∀ row ∈ rows, row.1 ≠ "") :
    Housed refuses rows
      ⟨uniqueSortedNonEmpty state.mailboxIDs, uniqueSortedNonEmpty state.keywords⟩ := by
  obtain ⟨id, rest, hids⟩ := List.exists_cons_of_ne_nil h.nonempty
  have hid : id ∈ state.mailboxIDs := hids ▸ List.mem_cons_self
  refine ⟨List.ne_nil_of_mem (a := id) ?_, fun id hid => ?_, fun keyword hkeyword => ?_⟩
  · exact mem_uniqueSortedNonEmpty.mpr ⟨hid, hnamed _ (h.live id hid)⟩
  · exact h.live id (mem_uniqueSortedNonEmpty.mp hid).1
  · exact h.storable keyword (mem_uniqueSortedNonEmpty.mp hkeyword).1

theorem defaultJMAPMailboxes_system (labelIDs : List String) :
    ∀ id ∈ defaultJMAPMailboxes labelIDs, id ∈ systemIDs := by
  rw [defaultJMAPMailboxes]
  repeat' split
  all_goals decide

/-- Live mailboxes can be written, with keywords that can be stored. -/
theorem applyJMAPEmailStateTx_housed (hnamed : ∀ row ∈ rows, row.1 ≠ "")
    (h : Housed refuses rows state) (hrow : emails.has digest = true) :
    applyJMAPEmailStateTx refuses rows emails digest state = some (emails.set digest
      ⟨uniqueSortedNonEmpty state.mailboxIDs, uniqueSortedNonEmpty state.keywords⟩) := by
  have hsorted := h.uniqueSorted hnamed
  rw [applyJMAPEmailStateTx]
  exact if_pos ⟨hsorted.nonempty, hrow, referenced_of_live hsorted.live, hsorted.storable⟩

/-- Setting the state of an email to one that is fine. -/
theorem AllHoused.set (h : AllHoused refuses rows emails) (hstate : Housed refuses rows state) :
    AllHoused refuses rows (emails.set digest state) := by
  intro other state' hget
  rw [OrdMap.get_set] at hget
  split at hget
  · exact Option.some.inj hget ▸ hstate
  · exact h other state' hget

/-- `applyJMAPEmailStateTx` puts an email into live mailboxes if it is told to. -/
theorem AllHoused.apply (hnamed : ∀ row ∈ rows, row.1 ≠ "") (h : AllHoused refuses rows emails)
    (hstate : Housed refuses rows state) : AllHoused refuses rows
      ((applyJMAPEmailStateTx refuses rows emails digest state).getD emails) := by
  cases hhas : emails.has digest with
  | false =>
    rw [applyJMAPEmailStateTx, hhas]
    simpa using h
  | true =>
    rw [applyJMAPEmailStateTx_housed hnamed hstate hhas]
    exact h.set (hstate.uniqueSorted hnamed)

/-- `seedJMAPEmailStateTx` of an overlay that is fine. -/
theorem seedJMAPEmailStateTx_housed (hnamed : ∀ row ∈ rows, row.1 ≠ "")
    (h : Housed refuses rows state) (labelIDs : List String) :
    seedJMAPEmailStateTx refuses rows emails digest (some state) labelIDs =
      some ((emails.set digest ((emails.get digest).getD ⟨[], []⟩)).set digest
        ⟨uniqueSortedNonEmpty state.mailboxIDs, uniqueSortedNonEmpty state.keywords⟩) := by
  have hoverlay : (some state).filter (fun update => decide (update.mailboxIDs ≠ [])) =
      some state := by
    rw [Option.filter, if_pos (by simpa using h.nonempty)]
  rw [seedJMAPEmailStateTx, hoverlay]
  exact applyJMAPEmailStateTx_housed hnamed h (OrdMap.has_iff.mpr ⟨_, OrdMap.get_set_self ..⟩)

theorem set_set (state' : EmailState) :
    (emails.set digest state').set digest state = emails.set digest state := by
  refine OrdMap.ext_get fun other => ?_
  rw [OrdMap.get_set, OrdMap.get_set, OrdMap.get_set]
  split <;> rfl

theorem seedJMAPEmailMailboxesTx_live {existing labelIDs : List String}
    (hsystem : ∀ id ∈ systemIDs, (id, false) ∈ rows)
    (hexisting : ∀ id ∈ existing, (id, false) ∈ rows)
    (h : seedJMAPEmailMailboxesTx rows existing labelIDs = some ids) :
    ids ≠ [] ∧ ∀ id ∈ ids, (id, false) ∈ rows := by
  rw [seedJMAPEmailMailboxesTx] at h
  split at h
  · rename_i hne
    exact Option.some.inj h ▸ ⟨hne, hexisting⟩
  · split at h
    · rw [← Option.some.inj h]
      exact ⟨List.cons_ne_nil _ _,
        fun id hid => hsystem id (defaultJMAPMailboxes_system labelIDs id hid)⟩
    · cases h

theorem seedJMAPEmailKeywordsTx_storable {existing labelIDs keywords : List String}
    (hexisting : Storable refuses existing)
    (h : seedJMAPEmailKeywordsTx refuses existing labelIDs = some keywords) :
    Storable refuses keywords := by
  rw [seedJMAPEmailKeywordsTx] at h
  split at h
  · exact Option.some.inj h ▸ hexisting
  · split at h
    · rename_i hstorable
      exact Option.some.inj h ▸ hstorable
    · cases h

/-- An email that is projected is in live mailboxes. -/
theorem AllHoused.seed (hsystem : ∀ id ∈ systemIDs, (id, false) ∈ rows)
    (hnamed : ∀ row ∈ rows, row.1 ≠ "") (h : AllHoused refuses rows emails)
    {overlay : Option EmailState}
    (hoverlay : ∀ state, overlay = some state → Housed refuses rows state)
    (labelIDs : List String) : AllHoused refuses rows
      ((seedJMAPEmailStateTx refuses rows emails digest overlay labelIDs).getD emails) := by
  cases overlay with
  | some state =>
    have hstate := hoverlay state rfl
    rw [seedJMAPEmailStateTx_housed hnamed hstate, set_set]
    exact h.set (hstate.uniqueSorted hnamed)
  | none =>
    have hexisting : let existing := (emails.get digest).getD ⟨[], []⟩
        (∀ id ∈ existing.mailboxIDs, (id, false) ∈ rows) ∧ Storable refuses existing.keywords := by
      cases hget : emails.get digest with
      | none => exact ⟨nofun, nofun⟩
      | some state => exact ⟨(h digest state hget).live, (h digest state hget).storable⟩
    rw [seedJMAPEmailStateTx]
    simp only [Option.filter_none, Option.bind_eq_bind]
    cases hmailboxes : seedJMAPEmailMailboxesTx rows
        ((emails.get digest).getD ⟨[], []⟩).mailboxIDs labelIDs with
    | none => exact h
    | some mailboxIDs =>
      cases hkeywords : seedJMAPEmailKeywordsTx refuses
          ((emails.get digest).getD ⟨[], []⟩).keywords labelIDs with
      | none => exact h
      | some keywords =>
        rw [Option.bind_some, Option.bind_some, Option.getD_some, set_set]
        obtain ⟨hne, hlive⟩ := seedJMAPEmailMailboxesTx_live hsystem hexisting.1 hmailboxes
        exact h.set ⟨hne, hlive, seedJMAPEmailKeywordsTx_storable hexisting.2 hkeywords⟩

/-- A mailbox in use is still live behind a catalog that destroys none of them. -/
theorem live_projectCatalog {id : String} (hlive : (id, false) ∈ rows)
    (hkept : id ∉ systemIDs → id ∉ ids → False) : (id, false) ∈ projectCatalog rows ids := by
  by_cases hin : id ∈ ids
  · exact List.mem_append_right _ (List.mem_map.mpr ⟨id, List.mem_dedup.mpr hin, rfl⟩)
  · refine List.mem_append_left _ (List.mem_map.mpr
      ⟨(id, false), List.mem_filter.mpr ⟨hlive, by simpa using hin⟩, ?_⟩)
    have hsystem : id ∈ systemIDs := by
      by_contra hcustom
      exact hkept hcustom hin
    simpa using hsystem

theorem named_projectCatalog (hnamed : ∀ row ∈ rows, row.1 ≠ "")
    (hids : ∀ id ∈ ids, id ≠ "" ∧ id ∉ systemIDs) :
    ∀ row ∈ projectCatalog rows ids, row.1 ≠ "" := by
  intro row hrow
  rcases List.mem_append.mp hrow with hrow | hrow
  · obtain ⟨row', hrow', rfl⟩ := List.mem_map.mp hrow
    exact hnamed row' (List.mem_filter.mp hrow').1
  · obtain ⟨id, hid, rfl⟩ := List.mem_map.mp hrow
    exact (hids id (List.mem_dedup.mp hid)).1

/-- A call starts. -/
theorem Sound.launch (h : Sound refuses w) {f : Flight} (hf : f.Sound refuses w.mailboxes) :
    Sound refuses { w with flights := w.flights ++ [f] } :=
  { h with
    flights := fun g hg => by
      rcases List.mem_append.mp hg with hg | hg
      · exact h.flights g hg
      · exact List.mem_singleton.mp hg ▸ hf }

/-- A call ends with what it has made of the emails. -/
theorem Sound.land (h : Sound refuses w) (flight : Nat)
    (hemails : AllHoused refuses w.mailboxes emails) :
    Sound refuses { w with emails, flights := w.flights.eraseIdx flight } :=
  { h with
    emails := hemails
    flights := fun g hg => h.flights g (List.mem_of_mem_eraseIdx hg) }

/-- A catalog is written that destroys no mailbox in use. -/
theorem Sound.catalog (h : Sound refuses w) (flight : Nat)
    (hids : ∀ id ∈ ids, id ≠ "" ∧ id ∉ systemIDs) (hunused : w.Unused ids) :
    Sound refuses { w with
      mailboxes := projectCatalog w.mailboxes ids
      flights := w.flights.eraseIdx flight } := by
  have hused : ∀ state, Housed refuses w.mailboxes state → (∀ id ∈ state.mailboxIDs, w.Uses id) →
      Housed refuses (projectCatalog w.mailboxes ids) state := fun state hhoused huses =>
    { hhoused with
      live := fun id hid => live_projectCatalog (hhoused.live id hid) fun hcustom hgone =>
        hunused (id, false) (hhoused.live id hid) rfl hcustom hgone (huses id hid) }
  refine ⟨?_, named_projectCatalog h.named hids, ?_, ?_, ?_⟩
  · intro id hid
    exact live_projectCatalog (h.system id hid) fun hcustom => absurd hid hcustom
  · intro digest state hget
    exact hused state (h.emails digest state hget) fun id hid =>
      .inl ⟨(digest, state), OrdMap.mem_entries_iff.mpr hget, hid⟩
  · intro digest state hget
    exact hused state (h.overlays digest state hget) fun id hid =>
      .inr (.inl ⟨(digest, state), OrdMap.mem_entries_iff.mpr hget, hid⟩)
  · intro f hf
    have hf := List.mem_of_mem_eraseIdx hf
    have huses : ∀ id ∈ f.targets, w.Uses id := fun id hid => .inr (.inr ⟨f, hf, hid⟩)
    cases f with
    | update digest state overlaid => exact hused state (h.flights _ hf) huses
    | projection digest overlay =>
      intro state hoverlay
      subst hoverlay
      exact hused state (h.flights _ hf state rfl) huses
    | catalog others => exact h.flights _ hf

/-- **A careful step keeps the mail sound.** Two acts need the care: a mutation that is read may
only add live mailboxes and accepted keywords, and a catalog may only destroy mailboxes not in use.
-/
theorem Sound.step {a : Act} (h : Sound refuses w)
    (hstep : within (Careful refuses) (step refuses) w a = some w') : Sound refuses w' := by
  obtain ⟨hcareful, hstep⟩ := within_eq_some.mp hstep
  cases a with
  | readEmail digest mutation =>
    obtain ⟨current, hcurrent, hstep⟩ := Option.bind_eq_some_iff.mp hstep
    dsimp only at hstep
    split at hstep
    · cases hstep
    rename_i hne
    rw [← Option.some.inj hstep]
    refine h.launch ⟨hne, fun id hid => ?_, fun keyword hkeyword => ?_⟩
    · rcases mem_applyJMAPBoolMap hid with hid | ⟨hid, hpatch⟩
      · exact of_decide_eq_true (List.mem_filter.mp hid).2
      · exact hcareful.1 _ hpatch hid rfl
    · rcases mem_applyJMAPBoolMap hkeyword with hkeyword | ⟨hkeyword, hpatch⟩
      · exact (h.emails digest current hcurrent).storable keyword hkeyword
      · exact hcareful.2 _ hpatch hkeyword rfl
  | writeOverlay flight =>
    simp only [JmapEmail.step] at hstep
    split at hstep
    · rename_i digest update hflight
      have hupdate : Housed refuses w.mailboxes update :=
        h.flights _ (List.mem_of_getElem? hflight)
      rw [← Option.some.inj hstep]
      refine { h with overlays := h.overlays.set hupdate, flights := fun g hg => ?_ }
      rcases List.mem_or_eq_of_mem_set hg with hg | rfl
      · exact h.flights g hg
      · exact hupdate
    · cases hstep
  | writeEmail flight =>
    simp only [JmapEmail.step] at hstep
    split at hstep
    · rename_i digest update hflight
      rw [← Option.some.inj hstep]
      exact h.land flight (h.emails.apply h.named (h.flights _ (List.mem_of_getElem? hflight)))
    · cases hstep
  | load digest =>
    rw [← Option.some.inj hstep]
    exact h.launch fun state hstate => h.overlays digest state hstate
  | project flight labelIDs =>
    simp only [JmapEmail.step] at hstep
    split at hstep
    · rename_i digest overlay hflight
      have hoverlay := h.flights _ (List.mem_of_getElem? hflight)
      rw [← Option.some.inj hstep]
      exact h.land flight (h.emails.seed h.system h.named hoverlay labelIDs)
    · cases hstep
  | readMailboxes created destroyed =>
    simp only [JmapEmail.step] at hstep
    split at hstep
    · rename_i hcreated
      rw [← Option.some.inj hstep]
      refine h.launch fun id hid => ?_
      rcases List.mem_append.mp hid with hid | hid
      · obtain ⟨row, hrow, rfl⟩ := List.mem_map.mp (List.mem_filter.mp hid).1
        obtain ⟨hrow, hcustom⟩ := List.mem_filter.mp hrow
        exact ⟨h.named row hrow, (of_decide_eq_true hcustom).2⟩
      · exact hcreated id hid
    · cases hstep
  | writeMailboxes flight =>
    simp only [JmapEmail.step] at hstep
    split at hstep
    · rename_i ids hflight
      have hunused : w.Unused ids := by
        have hcareful : w.Unused (w.catalogOf flight) := hcareful
        rwa [Mail.catalogOf, hflight] at hcareful
      rw [← Option.some.inj hstep]
      exact h.catalog flight (h.flights _ (List.mem_of_getElem? hflight)) hunused
    · cases hstep

end Mailboxes

end Gmeow.JmapEmail
