import Gmeow.Reingest

/-!
# What a service remembers

A service lives through calls that succeed or fail, repairs and loaded snapshots. Three things are
asked of it over such a life: a repair loses nothing, a call that fails leaves nothing behind, and
an entity holds a value for as long as it was observed to.

Each has a gap. A repair may keep the later one of two bounds that a span begins with, since it
compares texts: `later_bound_kept`. A call that fails after the choice of an entity has already been
recorded, so that the next one is answered from the memo: `failed_call_recorded`. And a value that
is observed again does not reach the ledger, where spans are widened, if the entity holds it
already: `wider_span_dropped`.

* `Lived`, `Lived.indexed` — the services that can come about; `repair_conserves_claims`;
* `NoTrace`, `failed_resolve_no_trace` — a call that fails;
* `Witnessed`, `SpansHeld` — a life with its observations; `NothingWider`,
  `spans_cover_observations`.
-/

open Blocks

namespace Gmeow

variable {C I V F : Type} {E : Embedding C I V F} {s s' : Service C I V}
  {parseTime : String → Option Int}

/-! ## The indexes -/

/-- The indexes of a ledger that was read are right, whatever was read. -/
theorem decodeLedger_indexed (hasOccurrenceStats : Bool) :
    Yields (decodeLedger hasOccurrenceStats) EntityLedger.Indexed := by
  refine .after fun rows => ?_
  dsimp only
  split
  · exact .after fun _ => .after fun _ => .pure (EntityLedger.rebuild_indexed _)
  · exact .pure ((EntityLedger.rebuild_indexed _).follows (.of_claims rfl rfl rfl))

theorem within_yields {α : Type} {read : Parse α} {P : α → Prop} (h : Yields read P)
    (data : Bytes) : Yields (within read data) P := by
  intro bytes value rest hread
  rw [within] at hread
  cases hdata : read data with
  | error e => rw [hdata] at hread; cases hread
  | ok out =>
    rw [hdata] at hread
    obtain ⟨rfl, -⟩ := Prod.mk.inj (Except.ok.inj hread)
    exact h data out.1 out.2 hdata

theorem loadState_indexed (data : Bytes) (h : s.ledger.Indexed) :
    (loadState E data s).2.ledger.Indexed := by
  have hread : Yields (readState E s.resolver) fun state => state.2.2.1.Indexed := by
    refine .after fun magic => ?_
    split
    · refine .after fun _ => .after fun _ => .after fun _ => .after fun _ => .after fun blob => ?_
      refine (within_yields (decodeLedger_indexed _) blob).bind fun ledger hledger => ?_
      exact .after fun _ => .after fun _ => .pure hledger
    · exact .throw _
  rw [loadState]
  cases hstate : readState E s.resolver data with
  | error e => exact h
  | ok out => exact hread data out.1 out.2 hstate

/-- The claims of an observation that an entity does not hold. -/
def unheldClaims (l : EntityLedger) (entity : String) (claims : List ClaimInput) :
    List ClaimInput :=
  claims.filter fun claim => !l.has entity claim.hash

variable {claims : List ClaimInput} {history : List (String × ClaimInput)}

theorem mem_unheldClaims {l : EntityLedger} {entity : String} {claim : ClaimInput} :
    claim ∈ unheldClaims l entity claims ↔
      claim ∈ claims ∧ l.has entity claim.hash = false := by
  rw [unheldClaims, List.mem_filter, Bool.not_eq_true']

/-- **What is recorded of an observation**: the claims that are not held. -/
theorem recordObservation_adds (E : Embedding C I V F) (claims : List ClaimInput)
    (choice : Resolution F) (s : Service C I V) :
    EntityLedger.Adds choice.entity (unheldClaims s.ledger choice.entity claims) s.ledger
      (recordObservation E claims choice s).2.ledger := by
  have hrow : ∀ entity, (s.ledger.observe claims).claimsOf entity = s.ledger.claimsOf entity := by
    intro entity
    rw [EntityLedger.claimsOf, EntityLedger.claimsOf, s.ledger.observe_claims]
  have hindexed : s.ledger.Indexed → (s.ledger.observe claims).Indexed := fun h =>
    h.follows (s.ledger.observe_follows claims)
  rw [recordObservation]
  dsimp only
  split
  · rename_i hnone
    rw [Bool.and_eq_true, List.isEmpty_iff] at hnone
    have hempty : unheldClaims s.ledger choice.entity claims = [] := hnone.2
    rw [hempty]
    refine ⟨fun other _ => hrow other, ?_, fun _ hin => absurd hin List.not_mem_nil,
      fun hash _ => ?_, fun sources hrows _ => ?_, hindexed⟩
    · rw [hrow]
      exact .rfl
    · rw [hrow]
    · rwa [hrow]
  · rw [(recenter_same E _ _).ledger]
    have hadds := (s.ledger.observe claims).add_adds choice.entity
      (unheldClaims s.ledger choice.entity claims)
    refine ⟨fun other hother => (hadds.others other hother).trans (hrow other), ?_, hadds.added,
      fun hash hne => (hadds.rest hash hne).trans ?_, fun sources hrows => ?_,
      fun h => hadds.indexed (hindexed h)⟩
    · rw [← hrow]
      exact hadds.row
    · rw [hrow]
    · exact hadds.drawn sources (by rwa [hrow])

/-- What is said of an observation that was recorded. -/
theorem recordObservation_answer {choice out : Resolution F}
    (h : (recordObservation E claims choice s).1 = .ok out) : out.entity = choice.entity ∧
      ∀ claim ∈ unheldClaims s.ledger choice.entity claims, claim.hash ∈ out.newClaimHashes := by
  rw [recordObservation] at h
  dsimp only at h
  split at h
  · rename_i hnone
    rw [Bool.and_eq_true, List.isEmpty_iff] at hnone
    have hempty : unheldClaims s.ledger choice.entity claims = [] := hnone.2
    rw [hempty, ← Except.ok.inj h]
    exact ⟨rfl, fun _ hin => absurd hin List.not_mem_nil⟩
  · rw [recenter_answer E _ _ out h]
    exact ⟨rfl, fun claim hin => List.mem_map_of_mem hin⟩

section Calls

variable [LE F] [DecidableLE F]

theorem resolve_indexed (claims : List ClaimInput) (threshold nameThreshold : F)
    (h : s.ledger.Indexed) : (resolve E claims threshold nameThreshold s).2.ledger.Indexed := by
  by_cases hne : claims = []
  · subst hne
    exact h
  cases hmemo : s.seenObs.get (observationKey E claims) with
  | some entity =>
    rw [resolve_memo hne hmemo]
    exact h
  | none =>
    rcases resolve_inv E threshold nameThreshold hne hmemo with
      ⟨-, e, s', hsame, hrun⟩ | ⟨-, choice, s₁, hsame, hrun⟩
    · rw [hrun, hsame.ledger]
      exact h
    · rw [hrun]
      refine (recordObservation_adds E claims choice s₁).indexed ?_
      rw [hsame.ledger]
      exact h

end Calls

section Lives

variable [LE F] [DecidableLE F] [LT F] [DecidableLT F] [DecidableEq F] [Zero F]

/-- A service that can come about: after calls and repairs, that succeed or fail, and after loading
whatever bytes. -/
inductive Lived (E : Embedding C I V F) : Service C I V → Prop
  | new (resolver : C) (index : I) (ids : Nat → String) :
    Lived E { resolver := resolver, index := index, ids := ids }
  | resolve {before : Service C I V} (claims : List ClaimInput) (threshold nameThreshold : F) :
    Lived E before → Lived E (resolve E claims threshold nameThreshold before).2
  | repair {before : Service C I V} (order : Nat → VisitOrder) (p : RepairParams F) :
    Lived E before → Lived E (repair order E p before).2
  | load {before : Service C I V} (data : Bytes) :
    Lived E before → Lived E (loadState E data before).2

/-- **The indexes are right** in every service that can come about. -/
theorem Lived.indexed (h : Lived E s) : s.ledger.Indexed := by
  induction h with
  | new => exact ⟨fun _ => rfl, fun _ _ => rfl⟩
  | resolve claims threshold nameThreshold _ ih => exact resolve_indexed claims _ _ ih
  | repair order p _ ih => exact (repair_conserves order E p _).indexed ih
  | load data _ ih => exact loadState_indexed data ih

/-- Where bounds are aligned, spans contain in time the ones before. -/
theorem EntityLedger.Conserves.contains {l l' : EntityLedger} {next : String → String}
    (h : l.Conserves next l') (haligned : l.Aligned parseTime) {entity hash : String}
    {entry : ClaimEntry} (hget : (l.claimsOf entity).get hash = some entry) :
    ∃ entry', (l'.claimsOf (next entity)).get hash = some entry' ∧
      entry'.Contains parseTime entry.validFrom entry.validUntil := by
  obtain ⟨entry', hget', hcovers⟩ := h.held entity hash entry hget
  exact ⟨entry', hget', (haligned hash).contains (h.drawn _ hash entry' hget') ⟨entity, hget⟩ hcovers⟩

end Lives

/-- `idDiff` for addresses and numbers, while each was in all observations so far: what is shared
weighs one half, and the gate is at three quarters. All is times four. -/
def sharedClaims : Embedding Unit Unit Unit Int :=
  { plainEmbedding with
    idDiff := fun _ _ _ _ _ a b =>
      ⟨2 * (a.filter fun claim => b.any fun other => other.hash == claim.hash).length, 1, false⟩
    mergeGate := 3 }

/-- Some times, in milliseconds from the first. -/
def parseStamp : String → Option Int
  | "2020-01-01T00:00:00Z" => some 0
  | "2020-01-01T00:00:00.5Z" => some 500
  | "2021-01-01T00:00:00Z" => some 31622400000
  | "2023-01-01T00:00:00Z" => some 94694400000
  | _ => none

/-- An address that is valid from and until then. -/
def emailSpan (validFrom validUntil : String) : ClaimInput :=
  { text := "email: ada", hash := "b", validFrom := validFrom, validUntil := validUntil }

/-- The service after two observations. -/
def afterTwo (first second : List ClaimInput) : Service Unit Unit Unit :=
  (resolve sharedClaims second 0 0 (resolve sharedClaims first 0 0 emptyService).2).2

section Calls

variable [LE F] [DecidableLE F]

/-- A call leaves nothing behind: the claims, the counts and the memo are as before; so, whatever
becomes of the embedder and the index, a later call with the claims reports those that its entity
did not hold. -/
structure NoTrace (E : Embedding C I V F) (claims : List ClaimInput) (s s' : Service C I V) :
    Prop where
  held : s'.ledger.claims = s.ledger.claims
  occurrences : s'.ledger.occurrences = s.ledger.occurrences
  observations : s'.ledger.observations = s.ledger.observations
  memo : s'.seenObs = s.seenObs
  retried : ∀ (threshold nameThreshold : F) (later : Service C I V) out,
    SameEntities s' later → (resolve E claims threshold nameThreshold later).1 = .ok out →
      ∀ claim ∈ claims, s.ledger.has out.entity claim.hash = false →
        claim.hash ∈ out.newClaimHashes

/-- **A call that fails leaves nothing behind exactly if it fails early**: in the embedder, in the
pooling of its vectors or in the search, and not when the entity is pooled or indexed again. -/
theorem failed_resolve_no_trace (claims : List ClaimInput) (threshold nameThreshold : F)
    (e : String) (hrun : resolve E claims threshold nameThreshold s = (.error e, s')) :
    NoTrace E claims s s' ↔ FailsEarly E claims s := by
  have hne : claims ≠ [] := by
    rintro rfl
    cases hrun
  have hmemo : s.seenObs.get (observationKey E claims) = none := by
    refine Option.eq_none_iff_forall_ne_some.mpr fun entity hget => ?_
    rw [resolve_memo hne hget] at hrun
    cases hrun
  rcases resolve_inv E threshold nameThreshold hne hmemo with
    ⟨hfails, e', s₁, hsame, hcall⟩ | ⟨hfinds, choice, s₁, hsame, hcall⟩
  · refine iff_of_true ?_ hfails
    rw [hrun] at hcall
    obtain ⟨-, rfl⟩ := Prod.mk.inj hcall
    refine ⟨?_, ?_, ?_, hsame.seenObs, fun threshold nameThreshold later out hlater hok => ?_⟩
    · rw [hsame.ledger]
    · rw [hsame.ledger]
    · rw [hsame.ledger]
    · have hboth := hsame.trans hlater
      have hmemo' : later.seenObs.get (observationKey E claims) = none := by
        rw [hboth.seenObs, hmemo]
      rcases resolve_inv E threshold nameThreshold hne hmemo' with
        ⟨-, e, s₂, -, hcall⟩ | ⟨-, choice, s₂, hsame₂, hcall⟩
      · rw [hcall] at hok
        cases hok
      · rw [hcall] at hok
        obtain ⟨hentity, hnew⟩ := recordObservation_answer hok
        rw [hentity, ← hboth.ledger, ← hsame₂.ledger]
        exact fun claim hclaim hnot => hnew claim (mem_unheldClaims.mpr ⟨hclaim, hnot⟩)
  · refine iff_of_false (fun htrace => ?_) hfinds
    obtain ⟨-, entity, hset, -⟩ := Records.same hsame (recordObservation_records E claims choice s₁)
    rw [← hcall, hrun, htrace.memo] at hset
    rw [hset, OrdMap.get_set_self] at hmemo
    cases hmemo

end Calls

/-- An index that refuses every centroid. -/
def refusingIndex : Embedding Unit Unit Unit Int :=
  { plainEmbedding with
    upsert := fun index entity _ =>
      (.error s!"refusing to index a zero/non-finite centroid for {entity}", index) }

/-- An embedder that is down. -/
def embedderDown : Embedding Unit Unit Unit Int :=
  { plainEmbedding with vectors := fun cache _ => (.error "connection refused", cache) }

/-- **A call that fails is recorded.** The new entity cannot be indexed, so the call fails. The
entity holds both claims, and the next call is answered from the memo and reports neither. -/
theorem failed_call_recorded :
    ∃ e s', resolve refusingIndex nameAndEmail 0 0 emptyService = (.error e, s') ∧
      (∀ claim ∈ nameAndEmail, emptyService.ledger.has "entity" claim.hash = false ∧
        s'.ledger.has "entity" claim.hash = true) ∧
      resolve refusingIndex nameAndEmail 0 0 s' =
        (.ok { entity := "entity", isNoop := true }, s') := by
  have hfails : (resolve refusingIndex nameAndEmail 0 0 emptyService).1.isOk = false := by
    decide +kernel
  cases hrun : resolve refusingIndex nameAndEmail 0 0 emptyService with
  | mk answer s' =>
    rw [hrun] at hfails
    have hs' : s' = (resolve refusingIndex nameAndEmail 0 0 emptyService).2 := by rw [hrun]
    cases answer with
    | ok out => cases hfails
    | error e =>
      refine ⟨e, s', rfl, ?_, ?_⟩ <;> rw [hs']
      · decide +kernel
      · exact resolve_memo (by decide) (by decide +kernel) 0 0

/-- The embedder does not answer. -/
theorem failed_resolve_no_trace_down :
    ∃ s', resolve embedderDown nameAndEmail 0 0 emptyService =
        (.error "connection refused", s') ∧ NoTrace embedderDown nameAndEmail emptyService s' := by
  refine ⟨emptyService, rfl, ?_⟩
  refine (failed_resolve_no_trace nameAndEmail 0 0 "connection refused" rfl).mpr ?_
  intro vectors hvectors
  cases hvectors

/-! ## Spans -/

/-- Each observation is within what its entity holds. -/
def SpansHeld (parseTime : String → Option Int) (s : Service C I V)
    (history : List (String × ClaimInput)) : Prop :=
  ∀ item ∈ history, ∃ entry, (s.ledger.claimsOf item.1).get item.2.hash = some entry ∧
    entry.Contains parseTime item.2.validFrom item.2.validUntil

/-- The claims of an observation with a hash, as they are held first. -/
def heldClaims (claims : List ClaimInput) (hash : String) : Set ClaimEntry :=
  {entry | ∃ claim ∈ claims, claim.hash = hash ∧ claim.held = entry}

/-- **An observation says nothing wider** of the claims that entities hold already: they are within
what is held. Where the memo answers, its entity holds all of them. And the bounds that the
observation itself has for a claim are aligned. -/
structure NothingWider (E : Embedding C I V F) (parseTime : String → Option Int)
    (s : Service C I V) (claims : List ClaimInput) : Prop where
  covered : ∀ claim ∈ claims, ∀ entity, ∀ entry ∈ (s.ledger.claimsOf entity).get claim.hash,
    entry.Contains parseTime claim.validFrom claim.validUntil
  known : ∀ entity ∈ s.seenObs.get (observationKey E claims), ∀ claim ∈ claims,
    s.ledger.has entity claim.hash = true
  aligned : ∀ hash, Aligned parseTime (heldClaims claims hash)

theorem SpansHeld.conserves {next : String → String} (h : SpansHeld parseTime s history)
    (haligned : s.ledger.Aligned parseTime) (hconserves : Conserves next s s') :
    SpansHeld parseTime s' (history.map fun item => (next item.1, item.2)) := by
  intro item hitem
  obtain ⟨old, hold, rfl⟩ := List.mem_map.mp hitem
  obtain ⟨entry, hget, hcontains⟩ := h old hold
  obtain ⟨entry', hget', hwider⟩ := hconserves.ledger.contains haligned hget
  exact ⟨entry', hget', hwider.trans hcontains⟩

section Calls

variable [LE F] [DecidableLE F] {claims : List ClaimInput} {threshold nameThreshold : F}
  {out : Resolution F}

/-- A call that succeeds: the memo answers, or the claims that are not held are added. -/
theorem resolve_ok_inv (hne : claims ≠ [])
    (hrun : resolve E claims threshold nameThreshold s = (.ok out, s')) :
    (s.seenObs.get (observationKey E claims) = some out.entity ∧ s' = s) ∨
      EntityLedger.Adds out.entity (unheldClaims s.ledger out.entity claims) s.ledger
        s'.ledger := by
  cases hmemo : s.seenObs.get (observationKey E claims) with
  | some entity =>
    rw [resolve_memo hne hmemo] at hrun
    obtain ⟨hout, rfl⟩ := Prod.mk.inj hrun
    rw [← Except.ok.inj hout]
    exact Or.inl ⟨rfl, rfl⟩
  | none =>
    refine Or.inr ?_
    rcases resolve_inv E threshold nameThreshold hne hmemo with
      ⟨-, e, s₁, -, hcall⟩ | ⟨-, choice, s₁, hsame, hcall⟩
    · rw [hcall] at hrun
      cases hrun
    · have hadds := recordObservation_adds E claims choice s₁
      rw [hcall] at hrun
      obtain ⟨hentity, -⟩ := recordObservation_answer (congrArg Prod.fst hrun)
      rwa [hrun, hsame.ledger, ← hentity] at hadds

/-- What an entity holds stays as it is when the claims that it does not hold are added. -/
theorem kept_of_adds {l l' : EntityLedger} {entity other hash : String} {entry : ClaimEntry}
    (hadds : EntityLedger.Adds entity (unheldClaims l entity claims) l l')
    (hget : (l.claimsOf other).get hash = some entry) :
    (l'.claimsOf other).get hash = some entry := by
  by_cases heq : other = entity
  · subst heq
    refine (hadds.rest hash fun claim hclaim hhash => ?_).trans hget
    have hnot := (mem_unheldClaims.mp hclaim).2
    rw [hhash, EntityLedger.has, OrdMap.has, hget] at hnot
    cases hnot
  · rwa [hadds.others other heq]

/-- **One call** that says nothing wider. -/
theorem SpansHeld.resolve (h : SpansHeld parseTime s history)
    (hmeets : NothingWider E parseTime s claims)
    (hrun : resolve E claims threshold nameThreshold s = (.ok out, s')) :
    SpansHeld parseTime s' (claims.map (fun claim => (out.entity, claim)) ++ history) := by
  by_cases hne : claims = []
  · subst hne
    obtain ⟨-, rfl⟩ := Prod.mk.inj hrun
    exact h
  rw [SpansHeld, List.forall_mem_append, List.forall_mem_map]
  rcases resolve_ok_inv hne hrun with ⟨hmemo, rfl⟩ | hadds
  · refine ⟨fun claim hclaim => ?_, h⟩
    obtain ⟨entry, hget⟩ := OrdMap.has_iff.mp (hmeets.known _ hmemo claim hclaim)
    exact ⟨entry, hget, hmeets.covered claim hclaim _ entry hget⟩
  · refine ⟨fun claim hclaim => ?_, fun item hitem => ?_⟩
    · cases hget : (s.ledger.claimsOf out.entity).get claim.hash with
      | some entry =>
        exact ⟨entry, kept_of_adds hadds hget, hmeets.covered claim hclaim _ entry hget⟩
      | none =>
        have hunheld : claim ∈ unheldClaims s.ledger out.entity claims :=
          mem_unheldClaims.mpr ⟨hclaim, by rw [EntityLedger.has, OrdMap.has, hget]; rfl⟩
        obtain ⟨entry, hentry, hcovers⟩ := hadds.added claim hunheld
        -- the bounds of the entry are those of the claims with this hash
        have hdrawn := hadds.drawn
          (fun hash => heldClaims claims hash ∪
            {old | (s.ledger.claimsOf out.entity).get hash = some old})
          (fun hash old hold => .of_mem (.inr hold))
          (fun claim hclaim => .inl ⟨claim, (mem_unheldClaims.mp hclaim).1, rfl, rfl⟩)
          claim.hash entry hentry
        have hown : entry.DrawnFrom (heldClaims claims claim.hash) := by
          refine hdrawn.trans fun old hold => ?_
          rcases hold with hold | hold
          · exact .of_mem hold
          · exact absurd (hget.symm.trans hold).symm (Option.some_ne_none old)
        have hheld : claim.held ∈ heldClaims claims claim.hash := ⟨claim, hclaim, rfl, rfl⟩
        exact ⟨entry, hentry, (hmeets.aligned claim.hash).contains hown hheld hcovers⟩
    · obtain ⟨entry, hget, hcontains⟩ := h item hitem
      exact ⟨entry, kept_of_adds hadds hget, hcontains⟩

end Calls

section Lives

variable [LE F] [DecidableLE F] [LT F] [DecidableLT F] [DecidableEq F] [Zero F]

/-- A service after calls and repairs that succeed, with what was observed of each entity: an
observation is one of the entity it was resolved to, and a repair moves it along. The calls and the
repairs meet conditions. -/
inductive Witnessed (E : Embedding C I V F) (meets : Service C I V → List ClaimInput → Prop)
    (repairs : Service C I V → Prop) : Service C I V → List (String × ClaimInput) → Prop
  | new (resolver : C) (index : I) (ids : Nat → String) :
    Witnessed E meets repairs { resolver := resolver, index := index, ids := ids } []
  | resolved {before after history claims threshold nameThreshold out} :
    Witnessed E meets repairs before history → meets before claims →
      resolve E claims threshold nameThreshold before = (.ok out, after) →
      Witnessed E meets repairs after (claims.map (fun claim => (out.entity, claim)) ++ history)
  | repaired {before after history order p result} :
    Witnessed E meets repairs before history → repairs before →
      repair order E p before = (.ok result, after) →
      Witnessed E meets repairs after
        (history.map fun item => (repairSuccessor order E p before item.1, item.2))

/-- **What is held contains what was observed** in every service whose calls said nothing wider of
the claims that were held, and whose repairs found the bounds of each claim aligned. -/
theorem spans_cover_observations
    (h : Witnessed E (NothingWider E parseTime) (fun s => s.ledger.Aligned parseTime) s history) :
    SpansHeld parseTime s history := by
  induction h with
  | new => exact fun item hin => absurd hin List.not_mem_nil
  | resolved _ hmeets hrun ih => exact ih.resolve hmeets hrun
  | @repaired before _ _ order p _ _ haligned hrun ih =>
    have hconserves := repair_conserves order E p before
    rw [hrun] at hconserves
    exact ih.conserves haligned hconserves

end Lives

/-- The next call of a life. -/
theorem Witnessed.next {E : Embedding Unit Unit Unit Int} {s : Service Unit Unit Unit}
    {meets : Service Unit Unit Unit → List ClaimInput → Prop}
    {repairs : Service Unit Unit Unit → Prop}
    (h : Witnessed E meets repairs s history) (claims : List ClaimInput) (entity : String)
    (hmeets : meets s claims) (hok : (resolve E claims 0 0 s).1.toOption.map (·.entity) = some entity) :
    Witnessed E meets repairs (resolve E claims 0 0 s).2
      (claims.map (fun claim => (entity, claim)) ++ history) := by
  cases hrun : resolve E claims 0 0 s with
  | mk answer s' =>
    rw [hrun] at hok
    cases answer with
    | error e => cases hok
    | ok out =>
      obtain rfl := Option.some.inj hok
      exact .resolved h hmeets hrun

/-- An address that is valid until then, and a number. -/
def emailAndPhone (validUntil : String) : List ClaimInput :=
  [emailSpan "" validUntil, { text := "phone: 555", hash := "c" }]

/-- The condition, entry by entry. -/
theorem NothingWider.of_rows
    (hcovered : ∀ claim ∈ claims, ∀ row ∈ s.ledger.claims.entries, ∀ item ∈ row.2.entries,
      item.1 = claim.hash → item.2.Contains parseTime claim.validFrom claim.validUntil)
    (hknown : ∀ entity ∈ s.seenObs.get (observationKey E claims), ∀ claim ∈ claims,
      s.ledger.has entity claim.hash = true)
    (haligned : ∀ x ∈ claims, ∀ y ∈ claims, AlignedWith parseTime x.held y.held) :
    NothingWider E parseTime s claims := by
  refine ⟨fun claim hclaim entity entry hget => ?_, hknown, fun hash => ?_⟩
  · obtain ⟨row, hrow, hentry⟩ := EntityLedger.mem_rows_of_get hget
    exact hcovered claim hclaim row hrow _ hentry rfl
  · rintro _ ⟨x, hx, -, rfl⟩ _ ⟨y, hy, -, rfl⟩
    exact haligned x hx y hy

/-- Two observations of an entity, the second of them within the first. -/
theorem spans_cover_observations_shorter :
    let long := emailAndPhone "2023-01-01T00:00:00Z"
    let short := emailAndPhone "2021-01-01T00:00:00Z"
    SpansHeld parseStamp (afterTwo long short) ((short ++ long).map fun claim => ("entity", claim))
      := by
  intro long short
  have hnew : Witnessed sharedClaims (NothingWider sharedClaims parseStamp)
      (fun s => s.ledger.Aligned parseStamp) emptyService [] := .new () () _
  have hfirst := hnew.next long "entity" (.of_rows nofun nofun (by decide +kernel))
    (by decide +kernel)
  have hsecond := hfirst.next short "entity"
    (.of_rows (by decide +kernel) (by decide +kernel) (by decide +kernel)) (by decide +kernel)
  rw [List.map_append]
  exact spans_cover_observations hsecond

/-- **A wider span is dropped.** An address is observed with a number until 2021, and then until
2023. Both observations are of one entity, which holds the address until 2021. -/
theorem wider_span_dropped :
    ∃ s history, Witnessed sharedClaims (fun _ _ => True) (fun _ => True) s history ∧
      ∃ item ∈ history, ∃ entry, (s.ledger.claimsOf item.1).get item.2.hash = some entry ∧
        ¬ entry.Contains parseStamp item.2.validFrom item.2.validUntil := by
  have hnew : Witnessed sharedClaims (fun _ _ => True) (fun _ => True) emptyService [] :=
    .new () () _
  have hfirst := hnew.next (emailAndPhone "2021-01-01T00:00:00Z") "entity" trivial
    (by decide +kernel)
  have hsecond := hfirst.next (emailAndPhone "2023-01-01T00:00:00Z") "entity" trivial
    (by decide +kernel)
  refine ⟨_, _, hsecond, ("entity", emailSpan "" "2023-01-01T00:00:00Z"), List.mem_cons_self,
    ⟨"email: ada", "", "2021-01-01T00:00:00Z"⟩, by decide +kernel, by decide +kernel⟩

end Gmeow
