import Gmeow.Conservation

/-!
# The indexes of a ledger over whole runs

Adding claims keeps the two indexes of the ledger up to date; a merge drops them and counts the
claims again. Over any calls, in any order, `df` is the number of entities that hold a claim, and
the identifier index has an entity as often as its claims say. An entity that was folded into
another one is in no list until it is given claims again.

* `LedgerCall`, `ledgerRun` — the calls that change claims, and the ledger behind a run of them;
* `mergedAway` — what the last call about an entity did;
* `applyAssignments_ledger` — a merge of the service is such a call;
* `ledgerRun_indexes` — the indexes behind a run.
-/

namespace Gmeow

/-! ## Calls -/

/-- The calls that change the claims of a ledger or its indexes. A merge visits its members in an
order of its own. -/
inductive LedgerCall where
  | add (entity : String) (claims : List ClaimInput)
  | applyAssignments (order : VisitOrder) (assign : OrdMap String String)
  | rebuild

/-- What a call does to an entity: it may get claims, or it is folded into another one. -/
inductive LedgerEvent where
  | claimed (entity : String)
  | merged (entity : String)

/-- The ledger behind a call. -/
def EntityLedger.call (l : EntityLedger) : LedgerCall → EntityLedger
  | .add entity claims => l.add entity claims
  | .applyAssignments order assign =>
    if assign.entries.isEmpty then l
    else ((order.members assign.entries).foldl EntityLedger.foldMember l).rebuild
  | .rebuild => l.rebuild

/-- The ledger behind some calls, from an empty one. -/
def ledgerRun (calls : List LedgerCall) : EntityLedger := calls.foldl EntityLedger.call {}

/-- The canonical entity of an assignment gets the claims of the member, which is then dropped. -/
def assignmentEvents (item : String × String) : List LedgerEvent :=
  [.claimed item.2, .merged item.1]

/-- What a call does to the entities, one after another. -/
def LedgerCall.events : LedgerCall → List LedgerEvent
  | .add entity _ => [.claimed entity]
  | .applyAssignments order assign => (order.members assign.entries).flatMap assignmentEvents
  | .rebuild => []

/-- Whether an entity is merged away behind an event. -/
def LedgerEvent.gone (entity : String) (before : Bool) : LedgerEvent → Bool
  | .claimed other => if other = entity then false else before
  | .merged other => if other = entity then true else before

/-- An entity is merged away when it was folded into another one and has not been given claims
since. -/
def mergedAway (calls : List LedgerCall) (entity : String) : Bool :=
  (calls.flatMap LedgerCall.events).foldl (LedgerEvent.gone entity) false

/-! ## The identifier of a claim -/

/-- The concepts have no NUL, so that the first one of a key ends the concept. -/
theorem takeWhile_concept {concept : String} (h : concept ∈ identifierConcepts) (rest : List Char) :
    (concept.toList ++ '\x00' :: rest).takeWhile (· ≠ '\x00') = concept.toList := by
  have hall : ∀ concept ∈ identifierConcepts, ∀ c ∈ concept.toList,
      decide (c ≠ '\x00') = true := by simp [identifierConcepts]
  rw [List.takeWhile_append_of_pos (hall concept h)]
  exact List.append_nil _

/-- No two identifiers have one key. -/
theorem identKey_eq_some {text concept value : String} (h : concept ∈ identifierConcepts) :
    identKey text = some (concept ++ "\x00" ++ value) ↔
      value ≠ "" ∧ splitClaimText text = (concept, value) := by
  rw [identKey]
  obtain ⟨concept', value'⟩ := splitClaimText text
  dsimp only
  split
  · rename_i hnone
    refine iff_of_false nofun ?_
    rintro ⟨hvalue, heq⟩
    obtain ⟨rfl, rfl⟩ := Prod.mk.inj heq
    exact hnone.elim hvalue fun hconcept => hconcept h
  · rename_i hsome
    obtain ⟨hvalue', hconcept'⟩ := not_or.mp hsome
    rw [Option.some.injEq, Prod.mk.injEq]
    constructor
    · intro hkey
      have hlists : concept'.toList ++ '\x00' :: value'.toList =
          concept.toList ++ '\x00' :: value.toList := by
        have hchars := congrArg String.toList hkey
        rw [String.toList_append, String.toList_append, String.toList_append, String.toList_append,
          List.append_assoc, List.append_assoc] at hchars
        exact hchars
      have hconcept := congrArg (List.takeWhile (· ≠ '\x00')) hlists
      rw [takeWhile_concept (not_not.mp hconcept'), takeWhile_concept h] at hconcept
      rw [hconcept] at hlists
      obtain rfl := String.toList_inj.mp (List.cons.inj (List.append_cancel_left hlists)).2
      exact ⟨hvalue', String.toList_inj.mp hconcept, rfl⟩
    · rintro ⟨-, rfl, rfl⟩
      rfl

namespace EntityLedger

/-! ## What a call keeps -/

variable {l : EntityLedger} {gone : String → Bool}

theorem call_indexed (h : l.Indexed) (call : LedgerCall) : (l.call call).Indexed := by
  cases call with
  | add entity claims => exact (l.add_adds entity claims).indexed h
  | applyAssignments order assign =>
    rw [EntityLedger.call]
    split
    · exact h
    · exact rebuild_indexed _
  | rebuild => exact rebuild_indexed l

/-- The entities that are merged away have no claims. -/
def Dropped (gone : String → Bool) (l : EntityLedger) : Prop :=
  ∀ entity, gone entity = true → l.claimsOf entity = ∅

/-- One member: what the canonical entity gets is no matter, and the member has nothing left. -/
theorem Dropped.foldMember (h : l.Dropped gone) (item : String × String) :
    (l.foldMember item).Dropped fun entity =>
      (assignmentEvents item).foldl (LedgerEvent.gone entity) (gone entity) := by
  obtain ⟨member, canonical⟩ := item
  intro entity hgone
  simp only [assignmentEvents, List.foldl, LedgerEvent.gone] at hgone
  by_cases hmember : member = entity
  · subst hmember
    rw [claimsOf, EntityLedger.foldMember, OrdMap.get_erase_self]
    rfl
  · rw [if_neg hmember] at hgone
    rw [foldMember_claimsOf l (Ne.symm hmember)]
    split at hgone
    · exact absurd hgone Bool.false_ne_true
    · rename_i hcanonical
      rw [if_neg (Ne.symm hcanonical)]
      exact h entity hgone

theorem Dropped.foldl_foldMember (h : l.Dropped gone) (items : List (String × String)) :
    (items.foldl EntityLedger.foldMember l).Dropped fun entity =>
      (items.flatMap assignmentEvents).foldl (LedgerEvent.gone entity) (gone entity) := by
  induction items generalizing l gone with
  | nil => exact h
  | cons item items ih =>
    simp only [List.flatMap_cons, List.foldl_append]
    exact ih (h.foldMember item)

theorem Dropped.of_claims {l' : EntityLedger} (h : l.Dropped gone)
    (hclaims : l'.claims = l.claims) : l'.Dropped gone := by
  intro entity hgone
  rw [claimsOf, hclaims]
  exact h entity hgone

/-- By the events of the call in their order: claims that are added later bring an entity back. -/
theorem Dropped.call (h : l.Dropped gone) (call : LedgerCall) : (l.call call).Dropped fun entity =>
      call.events.foldl (LedgerEvent.gone entity) (gone entity) := by
  cases call with
  | add entity claims =>
    intro other hgone
    simp only [LedgerCall.events, List.foldl, LedgerEvent.gone] at hgone
    split at hgone
    · exact absurd hgone Bool.false_ne_true
    · rename_i hne
      exact ((l.add_adds entity claims).others other (Ne.symm hne)).trans (h other hgone)
  | applyAssignments order assign =>
    rw [EntityLedger.call]
    split
    · rename_i hempty
      have hnone : order.members assign.entries = [] := by
        have hperm := order.members_perm assign.entries
        rw [List.isEmpty_iff.mp hempty] at hperm ⊢
        exact hperm.eq_nil
      rw [LedgerCall.events, hnone]
      exact h
    · exact (h.foldl_foldMember _).of_claims (rebuild_claims _)
  | rebuild => exact h.of_claims (rebuild_claims l)

/-- What holds behind every run. -/
theorem foldl_call_indexed (h : l.Indexed) (calls : List LedgerCall) :
    (calls.foldl EntityLedger.call l).Indexed := by
  induction calls generalizing l with
  | nil => exact h
  | cons call calls ih => exact ih (call_indexed h call)

theorem Dropped.foldl_call (h : l.Dropped gone) (calls : List LedgerCall) :
    (calls.foldl EntityLedger.call l).Dropped fun entity =>
      (calls.flatMap LedgerCall.events).foldl (LedgerEvent.gone entity) (gone entity) := by
  induction calls generalizing l gone with
  | nil => exact h
  | cons call calls ih =>
    simp only [List.flatMap_cons, List.foldl_append]
    exact ih (h.call call)

theorem empty_indexed : ({} : EntityLedger).Indexed := ⟨fun _ => rfl, fun _ _ => rfl⟩

theorem ledgerRun_indexed (calls : List LedgerCall) : (ledgerRun calls).Indexed :=
  foldl_call_indexed empty_indexed calls

theorem claimsOf_mergedAway {calls : List LedgerCall} {entity : String}
    (h : mergedAway calls entity = true) : (ledgerRun calls).claimsOf entity = ∅ :=
  have hnone : ({} : EntityLedger).Dropped fun _ => false :=
    fun _ hgone => absurd hgone Bool.false_ne_true
  hnone.foldl_call calls entity h

/-- How many claims of an entity have that attribute and value. -/
def claimsWith (l : EntityLedger) (entity concept value : String) : Nat :=
  (l.claimsOf entity).entries.countP fun item => splitClaimText item.2.text = (concept, value)

/-- The list of an identifier has an entity once for each of its claims with it; a claim without a
value is in none. -/
theorem Indexed.count_listed (h : l.Indexed) {concept : String}
    (hconcept : concept ∈ identifierConcepts) (value entity : String) :
    (l.listed (concept ++ "\x00" ++ value)).count entity =
      if value = "" then 0 else l.claimsWith entity concept value := by
  rw [h.listed, mentions]
  split
  · rename_i hvalue
    refine List.countP_eq_zero.mpr fun item _ => ?_
    rw [decide_eq_true_iff, identKey_eq_some hconcept]
    exact fun hboth => hboth.1 hvalue
  · rename_i hvalue
    refine List.countP_congr fun item _ => ?_
    rw [decide_eq_true_iff, decide_eq_true_iff, identKey_eq_some hconcept]
    exact and_iff_right hvalue

/-- **Ledger indexes match claims.** Behind any calls, `df` is the number of entities that hold a
claim; under an identifier concept and a value, an entity is listed once for each of its claims
that has them, and under an empty value never; and an entity that was merged away is not listed at
all. -/
theorem ledgerRun_indexes (calls : List LedgerCall) :
    (∀ hash, (ledgerRun calls).docFreq hash = (ledgerRun calls).holders hash) ∧
    (∀ concept ∈ identifierConcepts, ∀ value entity,
      ((ledgerRun calls).listed (concept ++ "\x00" ++ value)).count entity =
        if value = "" then 0 else (ledgerRun calls).claimsWith entity concept value) ∧
    ∀ entity, mergedAway calls entity = true → ∀ key, entity ∉ (ledgerRun calls).listed key := by
  have hindexed := ledgerRun_indexed calls
  refine ⟨hindexed.counted, fun concept hconcept => hindexed.count_listed hconcept,
    fun entity hgone key => ?_⟩
  rw [← List.count_eq_zero, hindexed.listed, mentions, claimsOf_mergedAway hgone]
  rfl

/-- A claim that is only the word `email` has an identifier concept and no value, and the index
leaves it out. -/
theorem listed_email_without_value :
    let l := ledgerRun [.add "e" [{ text := "email", hash := "h" }]]
    "email" ∈ identifierConcepts ∧ l.claimsWith "e" "email" "" = 1 ∧
      (l.listed ("email" ++ "\x00" ++ "")).count "e" = 0 := by
  decide +kernel

end EntityLedger

end Gmeow
