import Gmeow.OrdMap
import Gmeow.Dictionary

/-!
# Resolving observations to entities

The claims of one record are an observation. The embedding service resolves it to an entity: one
whose claims agree with it well enough, or a new one. The claims an entity is known by are its
row of the ledger; a memo keeps the entity of every observation, so that the same claims are not
resolved twice.

Which candidates the index finds and how well they agree is arithmetic on vectors. `Embedding`
leaves it open, together with the services and libraries behind it; everything below holds
whatever they answer.

* `EntityLedger` — the claims of the entities, with the counts and the identifier index;
* `observationKey` — what the memo knows an observation by;
* `resolveEntity`, `resolve` — the choice of an entity, and what is recorded of it;
* `resolve_cases` — all that a call can do to the memo and the ledger.
-/

namespace Gmeow

/-! ## Claims and the ledger -/

/-- `ClaimInput`, without the mark of a name, which only the embedding reads. -/
structure ClaimInput where
  text : String
  hash : String
  validFrom : String := ""
  validUntil : String := ""
deriving DecidableEq, Repr

/-- `claimEntry`: a claim as an entity holds it. -/
structure ClaimEntry where
  text : String
  validFrom : String
  validUntil : String
deriving DecidableEq, Repr

/-- `entityLedger`. -/
structure EntityLedger where
  claims : OrdMap String (OrdMap String ClaimEntry) := ∅
  occurrences : OrdMap String Nat := ∅
  observations : Nat := 0
  df : OrdMap String Nat := ∅
  ident : OrdMap String (List String) := ∅

/-- `scoredClaim`. The kind and the role are functions of the attribute, and the interval is one
of the two bounds. -/
structure ScoredClaim (V : Type) where
  attr : String
  value : String
  hash : String
  vec : Option V
  validFrom : String
  validUntil : String

/-- `strings.Cut` on the characters. -/
def cutAt (sep : List Char) : List Char → Option (List Char × List Char)
  | [] => if sep.isEmpty then some ([], []) else none
  | c :: rest =>
    if sep.isPrefixOf (c :: rest) then some ([], (c :: rest).drop sep.length)
    else (cutAt sep rest).map fun parts => (c :: parts.1, parts.2)

/-- `splitClaimText`: the attribute and the value of a claim. -/
def splitClaimText (text : String) : String × String :=
  match cutAt ": ".toList text.toList with
  | some (attr, value) => (toLower (trimSpace (String.ofList attr)), String.ofList value)
  | none => (toLower (trimSpace text), "")

/-- `identifierConcepts`. -/
def identifierConcepts : List String := ["email", "phone", "account", "url"]

/-- `sort.Strings`. -/
def sortStrings (l : List String) : List String := l.insertionSort (· ≤ ·)

/-- `earlierBound`. -/
def earlierBound (a b : String) : String :=
  if a = "" ∨ b = "" then "" else if b < a then b else a

/-- `laterBound`. -/
def laterBound (a b : String) : String :=
  if a = "" ∨ b = "" then "" else if b > a then b else a

/-- The same value observed again: the span widens. -/
def ClaimEntry.widen (entry : ClaimEntry) (validFrom validUntil : String) : ClaimEntry :=
  { entry with
    validFrom := earlierBound entry.validFrom validFrom
    validUntil := laterBound entry.validUntil validUntil }

namespace EntityLedger

/-- The claims of an entity. -/
def claimsOf (l : EntityLedger) (entity : String) : OrdMap String ClaimEntry :=
  (l.claims.get entity).getD ∅

/-- `has`. -/
def has (l : EntityLedger) (entity hash : String) : Bool := (l.claimsOf entity).has hash

/-- `indexIdentifier`. -/
def indexIdentifier (l : EntityLedger) (entity text : String) : EntityLedger :=
  let (concept, value) := splitClaimText text
  if value = "" ∨ concept ∉ identifierConcepts then l
  else
    let key := concept ++ "\x00" ++ value
    { l with ident := l.ident.set key ((l.ident.get key).getD [] ++ [entity]) }

/-- One claim of `add`. -/
def addClaim (entity : String) (l : EntityLedger) (claim : ClaimInput) : EntityLedger :=
  let row := l.claimsOf entity
  match row.get claim.hash with
  | none =>
    let l := { l with df := l.df.set claim.hash ((l.df.get claim.hash).getD 0 + 1) }
    let l := l.indexIdentifier entity claim.text
    let entry := ⟨claim.text, claim.validFrom, claim.validUntil⟩
    { l with claims := l.claims.set entity (row.set claim.hash entry) }
  | some existing =>
    let entry := existing.widen claim.validFrom claim.validUntil
    { l with claims := l.claims.set entity (row.set claim.hash entry) }

/-- `add`. -/
def add (l : EntityLedger) (entity : String) (claims : List ClaimInput) : EntityLedger :=
  claims.foldl (addClaim entity) { l with claims := l.claims.set entity (l.claimsOf entity) }

/-- `observationFreq`. -/
def observationFreq (l : EntityLedger) (hash : String) : Nat := (l.occurrences.get hash).getD 0

/-- One claim of `observe`, with the hashes seen. -/
def observeClaim (acc : EntityLedger × List String) (claim : ClaimInput) :
    EntityLedger × List String :=
  if claim.hash = "" ∨ claim.hash ∈ acc.2 then acc
  else
    let count := acc.1.observationFreq claim.hash + 1
    ({ acc.1 with occurrences := acc.1.occurrences.set claim.hash count }, claim.hash :: acc.2)

/-- `observe`. -/
def observe (l : EntityLedger) (claims : List ClaimInput) : EntityLedger :=
  (claims.foldl observeClaim ({ l with observations := l.observations + 1 }, [])).1

/-- `identifierCandidates`. -/
def identifierCandidates {V : Type} (l : EntityLedger) (claims : List (ScoredClaim V)) :
    List String :=
  sortStrings (claims.flatMap fun claim =>
    if claim.attr ∉ identifierConcepts ∨ claim.value = "" then []
    else (l.ident.get (claim.attr ++ "\x00" ++ claim.value)).getD []).dedup

/-- `sortedClaimTexts`: in the order of the hashes. -/
def sortedClaimTexts (l : EntityLedger) (entity : String) : List String :=
  (l.claimsOf entity).entries.map fun item => item.2.text

/-! ### What an update leaves -/

/-- The entities and the claims of each are still there. -/
structure Within (l l' : EntityLedger) : Prop where
  entities : ∀ entity, l.claims.has entity = true → l'.claims.has entity = true
  held : ∀ entity hash, l.has entity hash = true → l'.has entity hash = true

variable {l l' : EntityLedger} {entity : String}

theorem Within.rfl : Within l l := ⟨fun _ h => h, fun _ _ h => h⟩

theorem Within.trans {l'' : EntityLedger} (h : Within l l') (h' : Within l' l'') : Within l l'' :=
  ⟨fun entity hin => h'.entities entity (h.entities entity hin),
    fun entity hash hin => h'.held entity hash (h.held entity hash hin)⟩

theorem Within.of_claims (h : l'.claims = l.claims) : Within l l' := by
  refine ⟨fun entity hin => ?_, fun entity hash hin => ?_⟩
  · rwa [h]
  · rwa [has, claimsOf, h]

/-- A row is replaced by one with more claims. -/
theorem Within.of_set {set : OrdMap String ClaimEntry} (h : l'.claims = l.claims.set entity set)
    (hset : ∀ hash, (l.claimsOf entity).has hash = true → set.has hash = true) : Within l l' := by
  refine ⟨fun other hin => ?_, fun other hash hin => ?_⟩
  · rw [h, OrdMap.has, OrdMap.get_set]
    split
    · rfl
    · exact hin
  · rw [has, claimsOf, h, OrdMap.get_set]
    split
    · rename_i heq
      subst heq
      exact hset hash hin
    · exact hin

@[simp] theorem indexIdentifier_claims (l : EntityLedger) (entity text : String) :
    (l.indexIdentifier entity text).claims = l.claims := by
  dsimp only [indexIdentifier]
  split <;> rfl

theorem has_set {m : OrdMap String ClaimEntry} {key : String} {entry : ClaimEntry} {hash : String}
    (h : m.has hash = true) : (m.set key entry).has hash = true := by
  rw [OrdMap.has, OrdMap.get_set]
  split
  · rfl
  · exact h

/-- The row of the entity after one claim more. -/
theorem addClaim_claims (l : EntityLedger) (entity : String) (claim : ClaimInput) :
    ∃ entry, (l.addClaim entity claim).claims =
      l.claims.set entity ((l.claimsOf entity).set claim.hash entry) := by
  rw [addClaim]
  cases (l.claimsOf entity).get claim.hash with
  | none => exact ⟨⟨claim.text, claim.validFrom, claim.validUntil⟩, by simp⟩
  | some existing => exact ⟨_, rfl⟩

theorem addClaim_within (l : EntityLedger) (entity : String) (claim : ClaimInput) :
    Within l (l.addClaim entity claim) := by
  obtain ⟨entry, hclaims⟩ := l.addClaim_claims entity claim
  exact .of_set hclaims fun _ => has_set

theorem addClaim_has (l : EntityLedger) (entity : String) (claim : ClaimInput) :
    (l.addClaim entity claim).has entity claim.hash = true := by
  obtain ⟨entry, hclaims⟩ := l.addClaim_claims entity claim
  rw [has, claimsOf, hclaims, OrdMap.get_set_self, Option.getD_some, OrdMap.has,
    OrdMap.get_set_self]
  rfl

theorem foldl_addClaim_within (entity : String) (claims : List ClaimInput) (l : EntityLedger) :
    Within l (claims.foldl (addClaim entity) l) := by
  induction claims generalizing l with
  | nil => exact .rfl
  | cons claim claims ih => exact (l.addClaim_within entity claim).trans (ih _)

theorem foldl_addClaim_has {claims : List ClaimInput} {claim : ClaimInput} (hmem : claim ∈ claims)
    (l : EntityLedger) : (claims.foldl (addClaim entity) l).has entity claim.hash = true := by
  induction claims generalizing l with
  | nil => cases hmem
  | cons first claims ih =>
    rcases List.mem_cons.mp hmem with rfl | hlater
    · exact (foldl_addClaim_within entity claims _).held _ _ (l.addClaim_has entity claim)
    · exact ih hlater _

theorem add_within (l : EntityLedger) (entity : String) (claims : List ClaimInput) :
    Within l (l.add entity claims) :=
  (Within.of_set rfl fun _ h => h).trans (foldl_addClaim_within entity claims _)

theorem observe_claims (l : EntityLedger) (claims : List ClaimInput) :
    (l.observe claims).claims = l.claims := by
  have hfold : ∀ (claims : List ClaimInput) (acc : EntityLedger × List String),
      (claims.foldl observeClaim acc).1.claims = acc.1.claims := by
    intro claims
    induction claims with
    | nil => exact fun _ => rfl
    | cons claim claims ih =>
      intro acc
      rw [List.foldl_cons, ih, observeClaim]
      split <;> rfl
  exact hfold claims _

/-- An entity that holds a claim is in the ledger. -/
theorem entity_of_has {hash : String} (h : l.has entity hash = true) :
    l.claims.has entity = true := by
  rw [has, claimsOf] at h
  cases hrow : l.claims.get entity with
  | none => rw [hrow] at h; cases h
  | some set => rw [OrdMap.has, hrow]; rfl

end EntityLedger

/-! ## The service -/

/-- What `idDiff` says of two sets of claims. -/
structure IdDiffResult (F : Type) where
  score : F
  confidence : F
  veto : Bool

/-- What is left open: the digest, the embedder with its cache `C` and the basis its vectors are
compared in, the index `I`, and the arithmetic on the vectors `V` and the scores `F`. -/
structure Embedding (C I V F : Type) where
  /-- `StatementHash` -/
  statementHash : String → String
  /-- `Resolver.Vectors` -/
  vectors : C → List String → Except String (List V) × C
  /-- `Resolver.Pool` -/
  pool : C → List String → Except String V × C
  /-- the cached vector of a value, in the residual basis -/
  cached : C → String → Option V
  /-- `residualize` -/
  residualize : C → V → V
  /-- `maybeRebuildResidual`, if there is something to rebuild -/
  rebuildResidual : C → Option C
  /-- `MeanPool` -/
  meanPool : List V → Except String V
  /-- `EntityIndex.Search`: the entities found -/
  search : I → V → Int → Except String (List String)
  /-- `Service.Upsert` without names -/
  upsert : I → String → V → Except String Unit × I
  /-- `EntityIndex.ApplyMerges` -/
  applyMerges : I → OrdMap String (List String) → OrdMap String V → I
  /-- `idDiff`: occurrences and observations of the ledger, the two thresholds, whether one side
  is an observation -/
  idDiff : (String → Nat) → Nat → F → F → Bool → List (ScoredClaim V) → List (ScoredClaim V) →
    IdDiffResult F
  /-- `blockingTopN` -/
  blockingTopN : Int
  /-- `mergeGate` -/
  mergeGate : F
  /-- `encodeCache` of `cacheEntries` -/
  encodeCache : C → Bytes
  /-- `decodeCache`, into the cache there is -/
  decodeCache : C → Bytes → Except String C
  /-- `EntityIndex.Snapshot` -/
  snapshot : I → Bytes
  /-- `LoadEntityIndex` -/
  loadEntityIndex : Bytes → Except String I

/-- `Service`. -/
structure Service (C I V : Type) where
  resolver : C
  index : I
  ledger : EntityLedger := {}
  seenObs : OrdMap String String := ∅
  entityClaims : OrdMap String (List (ScoredClaim V)) := ∅
  /-- what `newID` will return -/
  ids : Nat → String

/-- `Resolution`. -/
structure Resolution (F : Type) where
  entity : String := ""
  newClaimHashes : List String := []
  similarity : Option F := none
  isNew : Bool := false
  isNoop : Bool := false

/-- What tells one claim of an observation from another. -/
def ClaimInput.observationPart (claim : ClaimInput) : String :=
  claim.hash ++ "\x00" ++ claim.validFrom ++ "\x00" ++ claim.validUntil

variable {C I V F : Type}

/-- What `observationKey` hashes. -/
def observationText (claims : List ClaimInput) : String :=
  "\n".intercalate (sortStrings (claims.map ClaimInput.observationPart))

/-- `observationKey`. -/
def observationKey (E : Embedding C I V F) (claims : List ClaimInput) : String :=
  E.statementHash (observationText claims)

/-- `maybeRebuildResidual`. -/
def maybeRebuildResidual (E : Embedding C I V F) (s : Service C I V) : Service C I V :=
  match E.rebuildResidual s.resolver with
  | some resolver => { s with resolver := resolver, entityClaims := ∅ }
  | none => s

/-- `entityScoredClaims`. -/
def entityScoredClaims (E : Embedding C I V F) (entity : String) (s : Service C I V) :
    List (ScoredClaim V) × Service C I V :=
  match s.entityClaims.get entity with
  | some cached => (cached, s)
  | none =>
    let out := (s.ledger.claimsOf entity).entries.map fun (hash, entry) =>
      let (concept, value) := splitClaimText entry.text
      { attr := concept, value := value, hash := hash
        vec := E.cached s.resolver (E.statementHash value)
        validFrom := entry.validFrom, validUntil := entry.validUntil }
    (out, { s with entityClaims := s.entityClaims.set entity out })

/-- `entityValues`. -/
def entityValues (entity : String) (s : Service C I V) : List String :=
  (s.ledger.sortedClaimTexts entity).map fun text => (splitClaimText text).2

/-! ## What stays the same -/

/-- The memo and the ledger are as they were. -/
structure SameEntities (s s' : Service C I V) : Prop where
  ledger : s'.ledger = s.ledger
  seenObs : s'.seenObs = s.seenObs

variable {s : Service C I V} {claims : List ClaimInput}

theorem SameEntities.rfl : SameEntities s s := ⟨Eq.refl _, Eq.refl _⟩

theorem SameEntities.trans {s' s'' : Service C I V} (h : SameEntities s s')
    (h' : SameEntities s' s'') : SameEntities s s'' :=
  ⟨h'.ledger.trans h.ledger, h'.seenObs.trans h.seenObs⟩

theorem maybeRebuildResidual_same (E : Embedding C I V F) (s : Service C I V) :
    SameEntities s (maybeRebuildResidual E s) := by
  rw [maybeRebuildResidual]
  cases E.rebuildResidual s.resolver with
  | none => exact .rfl
  | some resolver => exact ⟨rfl, rfl⟩

theorem maybeRebuildResidual_index (E : Embedding C I V F) (s : Service C I V) :
    (maybeRebuildResidual E s).index = s.index := by
  rw [maybeRebuildResidual]
  cases E.rebuildResidual s.resolver with
  | none => rfl
  | some resolver => rfl

theorem entityScoredClaims_same (E : Embedding C I V F) (entity : String) (s : Service C I V) :
    SameEntities s (entityScoredClaims E entity s).2 := by
  rw [entityScoredClaims]
  cases s.entityClaims.get entity with
  | none => exact ⟨rfl, rfl⟩
  | some cached => exact .rfl

/-! ## The choice of an entity -/

section Scores

variable [LE F] [DecidableLE F]

/-- The best candidate so far. -/
structure Best (F : Type) where
  entity : String := ""
  score : F
  confidence : Option F := none

/-- The scoring loop of `resolveEntity`. -/
def scoreCandidates (E : Embedding C I V F) (incoming : List (ScoredClaim V))
    (threshold nameThreshold : F) : List String → Best F → Service C I V → Best F × Service C I V
  | [], best, s => (best, s)
  | entity :: rest, best, s =>
    let (known, s) := entityScoredClaims E entity s
    let result := E.idDiff s.ledger.observationFreq s.ledger.observations threshold nameThreshold
      true incoming known
    let best := if result.veto then best
      else if best.score ≤ result.score then ⟨entity, result.score, some result.confidence⟩
      else best
    scoreCandidates E incoming threshold nameThreshold rest best s

/-- The candidates of the two recall channels, each once, in order. -/
def orderedCandidates (candidates : List String) : List String :=
  sortStrings (candidates.filter (· ≠ "")).dedup

/-- `resolveEntity`. -/
def resolveEntity (E : Embedding C I V F) (incoming : List (ScoredClaim V)) (vectors : List V)
    (threshold nameThreshold : F) (s : Service C I V) :
    Except String (Resolution F) × Service C I V :=
  match E.meanPool vectors with
  | .error e => (.error e, s)
  | .ok centroid =>
    match E.search s.index centroid E.blockingTopN with
    | .error e => (.error e, s)
    | .ok candidates =>
      let ordered := orderedCandidates (candidates ++ s.ledger.identifierCandidates incoming)
      let (best, s) := scoreCandidates E incoming threshold nameThreshold ordered
        { score := E.mergeGate } s
      if best.entity ≠ "" then
        (.ok { entity := best.entity, similarity := best.confidence }, s)
      else
        (.ok { entity := s.ids 0, isNew := true }, { s with ids := fun n => s.ids (n + 1) })

/-- The pooling of the vectors or the search of the index fails. -/
def SearchFails (E : Embedding C I V F) (vectors : List V) (index : I) : Prop :=
  ∀ centroid, E.meanPool vectors = .ok centroid →
    ∃ e, E.search index centroid E.blockingTopN = .error e

/-- An entity is chosen unless the search fails. -/
theorem resolveEntity_inv (E : Embedding C I V F) (incoming : List (ScoredClaim V))
    (vectors : List V) (threshold nameThreshold : F) (s : Service C I V) :
    (SearchFails E vectors s.index ∧
        ∃ e, resolveEntity E incoming vectors threshold nameThreshold s = (.error e, s)) ∨
      (¬ SearchFails E vectors s.index ∧
        ∃ choice s', resolveEntity E incoming vectors threshold nameThreshold s =
          (.ok choice, s')) := by
  rw [resolveEntity, SearchFails]
  cases E.meanPool vectors with
  | error e => exact Or.inl ⟨fun _ heq => (nomatch heq), e, rfl⟩
  | ok centroid =>
    dsimp only
    cases hsearch : E.search s.index centroid E.blockingTopN with
    | error e =>
      refine Or.inl ⟨fun other heq => ⟨e, ?_⟩, e, rfl⟩
      rw [← Except.ok.inj heq, hsearch]
    | ok candidates =>
      refine Or.inr ⟨fun hfails => ?_, ?_⟩
      · obtain ⟨e, he⟩ := hfails centroid rfl
        rw [hsearch] at he
        cases he
      · dsimp only
        split
        · exact ⟨_, _, rfl⟩
        · exact ⟨_, _, rfl⟩

theorem scoreCandidates_same (E : Embedding C I V F) (incoming : List (ScoredClaim V))
    (threshold nameThreshold : F) (ordered : List String) (best : Best F) (s : Service C I V) :
    SameEntities s (scoreCandidates E incoming threshold nameThreshold ordered best s).2 := by
  induction ordered generalizing best s with
  | nil => exact .rfl
  | cons entity rest ih => exact (entityScoredClaims_same E entity s).trans (ih _ _)

/-- The choice of an entity changes neither the memo nor the ledger. -/
theorem resolveEntity_same (E : Embedding C I V F) (incoming : List (ScoredClaim V))
    (vectors : List V) (threshold nameThreshold : F) (s : Service C I V) :
    SameEntities s (resolveEntity E incoming vectors threshold nameThreshold s).2 := by
  rw [resolveEntity]
  cases E.meanPool vectors with
  | error e => exact .rfl
  | ok centroid =>
    dsimp only
    cases E.search s.index centroid E.blockingTopN with
    | error e => exact .rfl
    | ok candidates =>
      have hscored := scoreCandidates_same E incoming threshold nameThreshold
        (orderedCandidates (candidates ++ s.ledger.identifierCandidates incoming))
        { score := E.mergeGate } s
      dsimp only
      split
      · exact hscored
      · exact hscored.trans ⟨rfl, rfl⟩

end Scores

/-! ## What is recorded -/

/-- The end of `Resolve`: the recall centroid of the entity. -/
def recenter (E : Embedding C I V F) (out : Resolution F) (s : Service C I V) :
    Except String (Resolution F) × Service C I V :=
  match E.pool s.resolver (entityValues out.entity s) with
  | (.error e, resolver) => (.error e, { s with resolver := resolver })
  | (.ok centroid, resolver) =>
    match E.upsert s.index out.entity centroid with
    | (.error e, index) => (.error e, { s with resolver := resolver, index := index })
    | (.ok _, index) => (.ok out, { s with resolver := resolver, index := index })

/-- `Resolve` once the entity is chosen. -/
def recordObservation (E : Embedding C I V F) (claims : List ClaimInput) (choice : Resolution F)
    (s : Service C I V) : Except String (Resolution F) × Service C I V :=
  let entity := choice.entity
  let s := { s with seenObs := s.seenObs.set (observationKey E claims) entity }
  let newClaims := claims.filter fun claim => !s.ledger.has entity claim.hash
  let s := { s with ledger := s.ledger.observe claims }
  if !choice.isNew && newClaims.isEmpty then
    (.ok { entity := entity, similarity := choice.similarity, isNoop := true }, s)
  else
    recenter E { choice with newClaimHashes := newClaims.map (·.hash) }
      { s with
        ledger := s.ledger.add entity newClaims
        entityClaims := s.entityClaims.erase entity }

theorem recenter_same (E : Embedding C I V F) (out : Resolution F) (s : Service C I V) :
    SameEntities s (recenter E out s).2 := by
  rw [recenter]
  rcases E.pool s.resolver (entityValues out.entity s) with ⟨e | centroid, resolver⟩
  · exact ⟨rfl, rfl⟩
  · dsimp only
    rcases E.upsert s.index out.entity centroid with ⟨e | _, index⟩
    · exact ⟨rfl, rfl⟩
    · exact ⟨rfl, rfl⟩

theorem recenter_answer (E : Embedding C I V F) (out : Resolution F) (s : Service C I V) :
    ∀ answer, (recenter E out s).1 = .ok answer → answer = out := by
  intro answer
  rw [recenter]
  rcases E.pool s.resolver (entityValues out.entity s) with ⟨e | centroid, resolver⟩
  · exact fun h => nomatch h
  · dsimp only
    rcases E.upsert s.index out.entity centroid with ⟨e | _, index⟩
    · exact fun h => nomatch h
    · exact fun h => (Except.ok.inj h).symm

/-- An observation is recorded: the memo has its entity, which holds its claims. -/
structure Records (E : Embedding C I V F) (claims : List ClaimInput) (s s' : Service C I V) :
    Prop where
  within : s.ledger.Within s'.ledger
  memo : ∃ entity, s'.seenObs = s.seenObs.set (observationKey E claims) entity ∧
    ∀ claim ∈ claims, s'.ledger.has entity claim.hash = true

theorem Records.same {E : Embedding C I V F} {s₀ s' : Service C I V} (hsame : SameEntities s₀ s)
    (h : Records E claims s s') : Records E claims s₀ s' := by
  obtain ⟨hwithin, entity, hmemo, hheld⟩ := h
  rw [hsame.ledger] at hwithin
  rw [hsame.seenObs] at hmemo
  exact ⟨hwithin, entity, hmemo, hheld⟩

/-- What a call leaves behind once it has chosen an entity, also where the centroid cannot be
computed. -/
theorem recordObservation_records (E : Embedding C I V F) (claims : List ClaimInput)
    (choice : Resolution F) (s : Service C I V) :
    Records E claims s (recordObservation E claims choice s).2 := by
  rw [recordObservation]
  dsimp only
  have hobserved : s.ledger.Within (s.ledger.observe claims) :=
    .of_claims (s.ledger.observe_claims claims)
  split
  · -- nothing new: each claim of the observation is held
    rename_i hnone
    refine ⟨hobserved, choice.entity, rfl, fun claim hclaim => hobserved.held _ _ ?_⟩
    rw [Bool.and_eq_true, List.isEmpty_iff, List.filter_eq_nil_iff] at hnone
    simpa using hnone.2 claim hclaim
  · have hadded := (s.ledger.observe claims).add_within choice.entity
      (claims.filter fun claim => !s.ledger.has choice.entity claim.hash)
    have hsame := recenter_same E { choice with
        newClaimHashes := (claims.filter fun claim =>
          !s.ledger.has choice.entity claim.hash).map (·.hash) }
      { s with
        seenObs := s.seenObs.set (observationKey E claims) choice.entity
        ledger := (s.ledger.observe claims).add choice.entity
          (claims.filter fun claim => !s.ledger.has choice.entity claim.hash)
        entityClaims := s.entityClaims.erase choice.entity }
    refine ⟨?_, choice.entity, hsame.seenObs, fun claim hclaim => ?_⟩
    · rw [hsame.ledger]
      exact hobserved.trans hadded
    · rw [hsame.ledger]
      by_cases hheld : s.ledger.has choice.entity claim.hash = true
      · exact hadded.held _ _ (hobserved.held _ _ hheld)
      · refine EntityLedger.foldl_addClaim_has (List.mem_filter.mpr ⟨hclaim, ?_⟩) _
        rw [Bool.not_eq_true] at hheld
        rw [hheld]
        rfl

/-! ## A call -/

variable [LE F] [DecidableLE F]

/-- The claims of an observation as `Resolve` compares them. -/
def incomingClaims (E : Embedding C I V F) (claims : List ClaimInput) (vectors : List V)
    (s : Service C I V) : List (ScoredClaim V) :=
  List.zipWith (fun claim vector =>
    { attr := (splitClaimText claim.text).1, value := (splitClaimText claim.text).2
      hash := claim.hash, vec := some (E.residualize s.resolver vector)
      validFrom := claim.validFrom, validUntil := claim.validUntil }) claims vectors

/-- `Resolve`. -/
def resolve (E : Embedding C I V F) (claims : List ClaimInput) (threshold nameThreshold : F)
    (s : Service C I V) : Except String (Resolution F) × Service C I V :=
  if claims.isEmpty then (.ok { isNoop := true }, s)
  else
    match s.seenObs.get (observationKey E claims) with
    | some entity => (.ok { entity := entity, isNoop := true }, s)
    | none =>
      match E.vectors s.resolver (claims.map fun claim => (splitClaimText claim.text).2) with
      | (.error e, resolver) => (.error e, { s with resolver := resolver })
      | (.ok vectors, resolver) =>
        let s := maybeRebuildResidual E { s with resolver := resolver }
        match resolveEntity E (incomingClaims E claims vectors s) vectors threshold nameThreshold
          s with
        | (.error e, s) => (.error e, s)
        | (.ok choice, s) => recordObservation E claims choice s

/-- The memo answers. -/
theorem resolve_memo {E : Embedding C I V F} {entity : String} (hne : claims ≠ [])
    (hget : s.seenObs.get (observationKey E claims) = some entity) (threshold nameThreshold : F) :
    resolve E claims threshold nameThreshold s =
      (.ok { entity := entity, isNoop := true }, s) := by
  have hempty : ¬ claims.isEmpty = true := by
    rw [List.isEmpty_iff]
    exact hne
  rw [resolve, if_neg hempty, hget]

/-- The embedder, the pooling of its vectors or the search of the index fails. -/
def FailsEarly (E : Embedding C I V F) (claims : List ClaimInput) (s : Service C I V) : Prop :=
  ∀ vectors,
    (E.vectors s.resolver (claims.map fun claim => (splitClaimText claim.text).2)).1 =
      .ok vectors → SearchFails E vectors s.index

/-- A call that the memo does not answer: it fails early, or an entity is chosen and the observation
is recorded. -/
theorem resolve_inv (E : Embedding C I V F) (threshold nameThreshold : F) (hne : claims ≠ [])
    (hmemo : s.seenObs.get (observationKey E claims) = none) :
    (FailsEarly E claims s ∧ ∃ e s', SameEntities s s' ∧
        resolve E claims threshold nameThreshold s = (.error e, s')) ∨
      (¬ FailsEarly E claims s ∧ ∃ choice s₁, SameEntities s s₁ ∧
        resolve E claims threshold nameThreshold s = recordObservation E claims choice s₁) := by
  have hempty : ¬ claims.isEmpty = true := by
    rw [List.isEmpty_iff]
    exact hne
  rw [resolve, if_neg hempty, hmemo, FailsEarly]
  dsimp only
  generalize E.vectors s.resolver (claims.map fun claim => (splitClaimText claim.text).2) = answer
  obtain ⟨e | vectors, resolver⟩ := answer
  · exact Or.inl ⟨fun _ heq => (nomatch heq), e, { s with resolver := resolver }, ⟨rfl, rfl⟩, rfl⟩
  · dsimp only
    have hrebuilt := maybeRebuildResidual_same E { s with resolver := resolver }
    have hbuilt : SameEntities s (maybeRebuildResidual E { s with resolver := resolver }) :=
      ⟨hrebuilt.ledger, hrebuilt.seenObs⟩
    have hindex : (maybeRebuildResidual E { s with resolver := resolver }).index = s.index :=
      maybeRebuildResidual_index E _
    generalize maybeRebuildResidual E { s with resolver := resolver } = s₁ at hbuilt hindex ⊢
    rw [← hindex]
    rcases resolveEntity_inv E (incomingClaims E claims vectors s₁) vectors threshold
        nameThreshold s₁ with ⟨hfails, e, hrun⟩ | ⟨hfinds, choice, s₂, hrun⟩
    · rw [hrun]
      refine Or.inl ⟨fun other heq => ?_, e, s₁, hbuilt, rfl⟩
      rwa [← Except.ok.inj heq]
    · have hchosen := resolveEntity_same E (incomingClaims E claims vectors s₁) vectors threshold
        nameThreshold s₁
      rw [hrun] at hchosen ⊢
      exact Or.inr ⟨fun hfails => hfinds (hfails vectors rfl), choice, s₂, hbuilt.trans hchosen, rfl⟩

/-- **All a call can do.** It leaves the memo and the ledger alone, and then it has failed, or
there are no claims, or the memo has them; or it records the observation. -/
theorem resolve_cases (E : Embedding C I V F) (claims : List ClaimInput)
    (threshold nameThreshold : F) (s : Service C I V) :
    (SameEntities s (resolve E claims threshold nameThreshold s).2 ∧
        ((∃ e, (resolve E claims threshold nameThreshold s).1 = .error e) ∨ claims = [] ∨
          s.seenObs.has (observationKey E claims) = true)) ∨
      Records E claims s (resolve E claims threshold nameThreshold s).2 := by
  by_cases hne : claims = []
  · subst hne
    exact Or.inl ⟨.rfl, Or.inr (Or.inl rfl)⟩
  cases hmemo : s.seenObs.get (observationKey E claims) with
  | some entity =>
    rw [resolve_memo hne hmemo]
    exact Or.inl ⟨.rfl, Or.inr (Or.inr (OrdMap.has_iff.mpr ⟨entity, hmemo⟩))⟩
  | none =>
    rcases resolve_inv E threshold nameThreshold hne hmemo with
      ⟨-, e, s', hsame, hrun⟩ | ⟨-, choice, s₁, hsame, hrun⟩
    · rw [hrun]
      exact Or.inl ⟨hsame, Or.inl ⟨e, rfl⟩⟩
    · rw [hrun]
      exact Or.inr (Records.same hsame (recordObservation_records E claims choice s₁))

end Gmeow
