import Gmeow.Conservation
import Gmeow.StateArtifact

/-!
# The same observation again

An observation that was resolved once is found in the memo when it comes again, in whatever order
its claims are: nothing is recorded, and the entity returned holds all of them. This is an
invariant of the memo and the ledger over all that a service can go through: calls that succeed
or fail, repairs that fold entities together, and snapshots that are loaded.

The memo knows an observation by its claims joined with line feeds, and each claim by its hash and
its bounds joined with zero characters. Claims with these characters in them can be mistaken for
others: `observation_mistaken`. Without them they cannot (`ClaimInput.Plain`,
`hash_mem_of_text_eq`).

* `Reached` — the services that can come about, with the observations they were given;
* `MemoHolds` — the invariant;
* `reingest_noop` — what follows for an observation that comes again.
-/

namespace Gmeow

/-! ## What the memo knows an observation by -/

/-- What an observation says of a value. -/
def ClaimInput.asserted (claim : ClaimInput) : String × String × String :=
  (claim.hash, claim.validFrom, claim.validUntil)

/-- A claim whose hash and bounds are apart when they are joined, and apart from other claims. -/
structure ClaimInput.Plain (claim : ClaimInput) : Prop where
  hash : '\x00' ∉ claim.hash.toList ∧ '\n' ∉ claim.hash.toList
  validFrom : '\n' ∉ claim.validFrom.toList
  validUntil : '\n' ∉ claim.validUntil.toList

instance (claim : ClaimInput) : Decidable claim.Plain :=
  decidable_of_iff (('\x00' ∉ claim.hash.toList ∧ '\n' ∉ claim.hash.toList) ∧
    '\n' ∉ claim.validFrom.toList ∧ '\n' ∉ claim.validUntil.toList)
    ⟨fun h => ⟨h.1, h.2.1, h.2.2⟩, fun h => ⟨h.hash, h.validFrom, h.validUntil⟩⟩

theorem ClaimInput.toList_observationPart (claim : ClaimInput) :
    claim.observationPart.toList = claim.hash.toList ++ '\x00' :: (claim.validFrom.toList ++
      '\x00' :: claim.validUntil.toList) := by
  simp [observationPart, String.toList_append]

variable {claim : ClaimInput} {claims claims' : List ClaimInput}

theorem ClaimInput.Plain.part (h : claim.Plain) : '\n' ∉ claim.observationPart.toList := by
  rw [claim.toList_observationPart]
  simp [h.hash.2, h.validFrom, h.validUntil]

/-- The hash is what stands before the first zero character. -/
theorem ClaimInput.Plain.takeWhile_part (h : claim.Plain) :
    claim.observationPart.toList.takeWhile (· ≠ '\x00') = claim.hash.toList := by
  have hall : ∀ c ∈ claim.hash.toList, decide (c ≠ '\x00') = true := by
    intro c hc
    refine decide_eq_true ?_
    rintro rfl
    exact h.hash.1 hc
  rw [claim.toList_observationPart, List.takeWhile_append_of_pos hall]
  simp

/-- Plain observations with the same text have the same hashes. -/
theorem hash_mem_of_text_eq (hplain : ∀ claim ∈ claims, claim.Plain)
    (hplain' : ∀ claim ∈ claims', claim.Plain) (hne' : claims' ≠ [])
    (htext : observationText claims = observationText claims') (hclaim : claim ∈ claims) :
    ∃ claim' ∈ claims', claim'.hash = claim.hash := by
  have hsplit : ∀ claims : List ClaimInput, (∀ claim ∈ claims, claim.Plain) → claims ≠ [] →
      (observationText claims).toList.splitOn '\n' =
        (sortStrings (claims.map ClaimInput.observationPart)).map String.toList := by
    intro claims hplain hne
    rw [observationText, String.toList_intercalate]
    refine List.splitOn_intercalate '\n' (fun part hpart => ?_) fun hnil => ?_
    · obtain ⟨text, htext, rfl⟩ := List.mem_map.mp hpart
      obtain ⟨claim, hclaim, rfl⟩ := List.mem_map.mp ((List.mem_insertionSort _).mp htext)
      exact (hplain claim hclaim).part
    · have hlength := congrArg List.length hnil
      rw [List.length_map, sortStrings, List.length_insertionSort, List.length_map] at hlength
      exact hne (List.length_eq_zero_iff.mp hlength)
  have hne : claims ≠ [] := List.ne_nil_of_mem hclaim
  have hparts := hsplit claims hplain hne
  rw [htext, hsplit claims' hplain' hne'] at hparts
  have hin : claim.observationPart ∈ sortStrings (claims'.map ClaimInput.observationPart) := by
    have hmem : claim.observationPart.toList ∈
        (sortStrings (claims.map ClaimInput.observationPart)).map String.toList :=
      List.mem_map_of_mem ((List.mem_insertionSort _).mpr (List.mem_map_of_mem hclaim))
    rw [← hparts] at hmem
    obtain ⟨text, htext, heq⟩ := List.mem_map.mp hmem
    rwa [← String.toList_inj.mp heq]
  obtain ⟨claim', hclaim', hpart⟩ := List.mem_map.mp ((List.mem_insertionSort _).mp hin)
  refine ⟨claim', hclaim', String.toList_inj.mp ?_⟩
  rw [← (hplain' claim' hclaim').takeWhile_part, hpart, (hplain claim hclaim).takeWhile_part]

/-- The order of the claims does not matter, nor does what is not asserted. -/
theorem observationText_perm
    (h : (claims'.map ClaimInput.asserted).Perm (claims.map ClaimInput.asserted)) :
    observationText claims' = observationText claims := by
  have hparts : (claims'.map ClaimInput.observationPart).Perm
      (claims.map ClaimInput.observationPart) := by
    have hmap := h.map fun said : String × String × String =>
      said.1 ++ "\x00" ++ said.2.1 ++ "\x00" ++ said.2.2
    rwa [List.map_map, List.map_map] at hmap
  have hsorted : sortStrings (claims'.map ClaimInput.observationPart) =
      sortStrings (claims.map ClaimInput.observationPart) := by
    refine List.Perm.eq_of_pairwise' (List.pairwise_insertionSort _ _)
      (List.pairwise_insertionSort _ _) ?_
    exact (List.perm_insertionSort _ _).trans (hparts.trans (List.perm_insertionSort _ _).symm)
  rw [observationText, observationText, hsorted]

/-! ## The invariant -/

variable {C I V F : Type} {E : Embedding C I V F} {s s' : Service C I V}
  {observed resolved : List (List ClaimInput)}

/-- An entity of the memo holds the claims of every observation it is the entity of. -/
structure MemoHolds (E : Embedding C I V F) (s : Service C I V)
    (observed resolved : List (List ClaimInput)) : Prop where
  entities : ∀ obs entity, s.seenObs.get obs = some entity → s.ledger.claims.has entity = true
  origin : ∀ obs entity, s.seenObs.get obs = some entity →
    ∃ claims ∈ observed, claims ≠ [] ∧ observationKey E claims = obs
  held : ∀ claims ∈ observed, ∀ entity, s.seenObs.get (observationKey E claims) = some entity →
    ∀ claim ∈ claims, s.ledger.has entity claim.hash = true
  known : ∀ claims ∈ resolved, claims ≠ [] → s.seenObs.has (observationKey E claims) = true

/-- Two observations the memo does not tell apart have the same hashes. -/
def ToldApart (E : Embedding C I V F) (observed : List (List ClaimInput)) : Prop :=
  ∀ claims ∈ observed, ∀ claims' ∈ observed, claims' ≠ [] →
    observationKey E claims = observationKey E claims' →
      ∀ claim ∈ claims, ∃ claim' ∈ claims', claim'.hash = claim.hash

theorem ToldApart.tail (h : ToldApart E (claims :: observed)) : ToldApart E observed :=
  fun other hother other' hother' =>
    h other (List.mem_cons_of_mem _ hother) other' (List.mem_cons_of_mem _ hother')

theorem toldApart_of_plain
    (hhash : Set.InjOn E.statementHash {text | ∃ claims ∈ observed, text = observationText claims})
    (hplain : ∀ claims ∈ observed, ∀ claim ∈ claims, claim.Plain) : ToldApart E observed := by
  intro claims hclaims claims' hclaims' hne' hkey claim hclaim
  have htext := hhash ⟨claims, hclaims, rfl⟩ ⟨claims', hclaims', rfl⟩ hkey
  exact hash_mem_of_text_eq (hplain claims hclaims) (hplain claims' hclaims') hne' htext hclaim

/-- The memo and the ledger are as they were, and one more observation was given. -/
theorem MemoHolds.same (h : MemoHolds E s observed resolved)
    (hapart : ToldApart E (claims :: observed)) (hsame : SameEntities s s') :
    MemoHolds E s' (claims :: observed) resolved := by
  refine ⟨?_, ?_, ?_, ?_⟩ <;> rw [hsame.seenObs]
  · rw [hsame.ledger]
    exact h.entities
  · intro obs entity hget
    obtain ⟨other, hother, hother'⟩ := h.origin obs entity hget
    exact ⟨other, List.mem_cons_of_mem _ hother, hother'⟩
  · intro other hother entity hget claim hclaim
    rw [hsame.ledger]
    -- the entity holds the claims of the observation it was recorded for
    obtain ⟨first, hfirst, hne, hkey⟩ := h.origin _ entity hget
    obtain ⟨claim', hclaim', hhash⟩ := hapart other hother first (List.mem_cons_of_mem _ hfirst)
      hne hkey.symm claim hclaim
    rw [← hhash]
    exact h.held first hfirst entity (hkey ▸ hget) claim' hclaim'
  · exact h.known

/-- An observation is recorded. -/
theorem MemoHolds.records (h : MemoHolds E s observed resolved)
    (hapart : ToldApart E (claims :: observed)) (hne : claims ≠ [])
    (hrecords : Records E claims s s') : MemoHolds E s' (claims :: observed) resolved := by
  obtain ⟨hwithin, entity, hmemo, hheld⟩ := hrecords
  refine ⟨?_, ?_, ?_, ?_⟩ <;> rw [hmemo]
  · intro obs other hget
    rw [OrdMap.get_set] at hget
    split at hget
    · rw [← Option.some.inj hget]
      obtain ⟨claim, hclaim⟩ := List.exists_mem_of_ne_nil claims hne
      exact EntityLedger.entity_of_has (hheld claim hclaim)
    · exact hwithin.entities other (h.entities obs other hget)
  · intro obs other hget
    rw [OrdMap.get_set] at hget
    split at hget
    · rename_i heq
      exact ⟨claims, List.mem_cons_self, hne, heq.symm⟩
    · obtain ⟨first, hfirst, hfirst'⟩ := h.origin obs other hget
      exact ⟨first, List.mem_cons_of_mem _ hfirst, hfirst'⟩
  · intro other hother entity' hget claim hclaim
    rw [OrdMap.get_set] at hget
    split at hget
    · rename_i heq
      rw [← Option.some.inj hget]
      obtain ⟨claim', hclaim', hhash⟩ := hapart other hother claims List.mem_cons_self hne heq
        claim hclaim
      rw [← hhash]
      exact hheld claim' hclaim'
    · rename_i hkey
      rcases List.mem_cons.mp hother with rfl | hother
      · exact absurd rfl hkey
      · exact hwithin.held _ _ (h.held other hother entity' hget claim hclaim)
  · intro other hother hne'
    rw [OrdMap.has, OrdMap.get_set]
    split
    · rfl
    · exact h.known other hother hne'

/-- Entities are folded together. -/
theorem MemoHolds.refolds (h : MemoHolds E s observed resolved) (hfold : Refolds s s') :
    MemoHolds E s' observed resolved := by
  obtain ⟨next, hmemo, hentities, hheld⟩ := hfold
  have hbefore : ∀ obs entity', s'.seenObs.get obs = some entity' →
      ∃ entity, s.seenObs.get obs = some entity ∧ next entity = entity' := by
    intro obs entity' hget
    rw [hmemo] at hget
    exact Option.map_eq_some_iff.mp hget
  refine ⟨fun obs entity' hget => ?_, fun obs entity' hget => ?_,
    fun claims hclaims entity' hget claim hclaim => ?_, fun claims hclaims hne => ?_⟩
  · obtain ⟨entity, hbefore, rfl⟩ := hbefore obs entity' hget
    exact hentities entity (h.entities obs entity hbefore)
  · obtain ⟨entity, hbefore, rfl⟩ := hbefore obs entity' hget
    exact h.origin obs entity hbefore
  · obtain ⟨entity, hbefore, rfl⟩ := hbefore _ entity' hget
    exact hheld entity _ (h.held claims hclaims entity hbefore claim hclaim)
  · obtain ⟨entity, hget⟩ := OrdMap.has_iff.mp (h.known claims hclaims hne)
    exact OrdMap.has_iff.mpr ⟨next entity, by rw [hmemo, hget, Option.map_some]⟩

/-- A service with the claims and the memo of another. -/
theorem MemoHolds.congr (h : MemoHolds E s observed resolved)
    (hclaims : s'.ledger.claims = s.ledger.claims) (hmemo : s'.seenObs = s.seenObs) :
    MemoHolds E s' observed resolved := by
  have hwithin : s.ledger.Within s'.ledger := .of_claims hclaims
  refine ⟨?_, ?_, ?_, ?_⟩ <;> rw [hmemo]
  · exact fun obs entity hget => hwithin.entities _ (h.entities obs entity hget)
  · exact h.origin
  · exact fun claims hclaims entity hget claim hclaim =>
      hwithin.held _ _ (h.held claims hclaims entity hget claim hclaim)
  · exact h.known

variable [LE F] [DecidableLE F]

/-- A call. -/
theorem MemoHolds.resolve {threshold nameThreshold : F} {r : Except String (Resolution F)}
    (h : MemoHolds E s observed resolved) (hapart : ToldApart E (claims :: observed))
    (hrun : resolve E claims threshold nameThreshold s = (r, s')) :
    MemoHolds E s' (claims :: observed) resolved ∧
      ((∃ out, r = .ok out) → claims ≠ [] → s'.seenObs.has (observationKey E claims) = true) := by
  have hempty : claims = [] → s' = s := by
    rintro rfl
    exact (congrArg Prod.snd hrun).symm
  have hcases := resolve_cases E claims threshold nameThreshold s
  rw [hrun] at hcases
  rcases hcases with ⟨hsame, hwhy⟩ | hrecords
  · refine ⟨h.same hapart hsame, ?_⟩
    rintro ⟨out, rfl⟩ hne
    rcases hwhy with ⟨e, hfail⟩ | hnil | hin
    · cases hfail
    · exact absurd hnil hne
    · rwa [hsame.seenObs]
  · by_cases hne : claims = []
    · rw [hempty hne]
      exact ⟨h.same hapart .rfl, fun _ hnot => absurd hne hnot⟩
    · refine ⟨h.records hapart hne hrecords, fun _ _ => ?_⟩
      obtain ⟨-, entity, hmemo, -⟩ := hrecords
      rw [hmemo, OrdMap.has, OrdMap.get_set_self]
      rfl

/-- What the memo answers for an observation that was resolved. -/
theorem MemoHolds.again (h : MemoHolds E s observed resolved) (hresolved : claims ∈ resolved)
    (hobserved : claims ∈ observed)
    (hperm : (claims'.map ClaimInput.asserted).Perm (claims.map ClaimInput.asserted))
    (threshold nameThreshold : F) :
    ∃ entity, Gmeow.resolve E claims' threshold nameThreshold s =
        (.ok { entity := entity, isNoop := true }, s) ∧
      ∀ claim ∈ claims', s.ledger.has entity claim.hash = true := by
  by_cases hempty : claims' = []
  · subst hempty
    exact ⟨"", rfl, fun _ hmem => nomatch hmem⟩
  have hne : claims ≠ [] := by
    rintro rfl
    exact hempty (List.map_eq_nil_iff.mp hperm.eq_nil)
  have hkey : observationKey E claims' = observationKey E claims :=
    congrArg E.statementHash (observationText_perm hperm)
  obtain ⟨entity, hget⟩ := OrdMap.has_iff.mp (h.known claims hresolved hne)
  refine ⟨entity, ?_, fun claim hclaim => ?_⟩
  · exact resolve_memo hempty (hkey ▸ hget) threshold nameThreshold
  · have hsaid := hperm.subset (List.mem_map_of_mem hclaim)
    obtain ⟨claim', hclaim', heq⟩ := List.mem_map.mp hsaid
    have hhash : claim'.hash = claim.hash := congrArg Prod.fst heq
    rw [← hhash]
    exact h.held claims hobserved entity hget claim' hclaim'

/-! ## What a service can go through -/

variable [LT F] [DecidableLT F] [DecidableEq F] [Zero F]

section Services

variable [TextCodec]

/-- A service that can come about, with the observations it was given and those of them whose
call succeeded. One that loads a snapshot is given what the other one was. -/
inductive Reached (E : Embedding C I V F) :
    Service C I V → List (List ClaimInput) → List (List ClaimInput) → Prop
  | new (resolver : C) (index : I) (ids : Nat → String) :
    Reached E { resolver := resolver, index := index, ids := ids } [] []
  | resolved {s s' observed resolved claims threshold nameThreshold out} :
    Reached E s observed resolved → resolve E claims threshold nameThreshold s = (.ok out, s') →
      Reached E s' (claims :: observed) (claims :: resolved)
  | failed {s s' observed resolved claims threshold nameThreshold e} :
    Reached E s observed resolved → resolve E claims threshold nameThreshold s = (.error e, s') →
      Reached E s' (claims :: observed) resolved
  | repaired {s s' observed resolved order p out} :
    Reached E s observed resolved → repair order E p s = (out, s') → Reached E s' observed resolved
  | loaded {s s' s'' observed resolved observed' resolved' data} :
    Reached E s observed resolved → Reached E s' observed' resolved' →
      snapshotState E s' = some data → loadState E data s = (.ok (), s'') →
      Reached E s'' observed' resolved'
  | notLoaded {s s' s'' observed resolved observed' resolved' data e} :
    Reached E s observed resolved → Reached E s' observed' resolved' →
      snapshotState E s' = some data → loadState E data s = (.error e, s'') →
      Reached E s'' observed resolved

/-- **The memo holds** in every service that can come about, if it tells the observations
apart. -/
theorem Reached.memoHolds (h : Reached E s observed resolved) (hapart : ToldApart E observed) :
    MemoHolds E s observed resolved := by
  induction h with
  | new resolver index ids =>
    exact ⟨fun _ _ hget => (nomatch hget), fun _ _ hget => (nomatch hget),
      fun _ hmem => (nomatch hmem), fun _ hmem => (nomatch hmem)⟩
  | resolved hreached hrun ih =>
    obtain ⟨hholds, hknown⟩ := (ih hapart.tail).resolve hapart hrun
    refine { hholds with known := fun other hother hne => ?_ }
    rcases List.mem_cons.mp hother with rfl | hother
    · exact hknown ⟨_, rfl⟩ hne
    · exact hholds.known other hother hne
  | failed hreached hrun ih => exact ((ih hapart.tail).resolve hapart hrun).1
  | @repaired before _ _ _ order p _ _ hrun ih =>
    have hfold := repair_refolds order E p before
    rw [hrun] at hfold
    exact (ih hapart).refolds hfold
  | @loaded before _ _ _ _ _ _ _ _ _ hdata hload ih ih' =>
    have hcases := loadState_snapshotState hdata before
    rw [hload] at hcases
    rcases hcases with ⟨⟨e, hfail⟩, -⟩ | ⟨-, hclaims, hmemo⟩
    · cases hfail
    · exact (ih' hapart).congr hclaims hmemo
  | @notLoaded before _ _ _ _ _ _ _ _ _ _ hdata hload ih ih' =>
    have hcases := loadState_snapshotState hdata before
    rw [hload] at hcases
    rcases hcases with ⟨-, hsame⟩ | ⟨hok, -⟩
    · rw [← hsame] at ih
      exact ih hapart
    · cases hok

theorem Reached.resolved_subset (h : Reached E s observed resolved) : resolved ⊆ observed := by
  induction h with
  | new => exact List.Subset.refl _
  | resolved _ _ ih => exact List.cons_subset_cons _ ih
  | failed _ _ ih => exact fun _ hmem => List.mem_cons_of_mem _ (ih hmem)
  | repaired _ _ ih => exact ih
  | loaded _ _ _ _ _ ih => exact ih
  | notLoaded _ _ _ _ ih _ => exact ih

/-- **The same observation again changes nothing.** In every service that can come about from
plain observations, the entities of the memo are in the ledger and hold the claims of their
observations; so an observation that was resolved and comes again, in any order, is answered
with an entity that holds its claims, and the service stays as it is. -/
theorem reingest_noop (hreached : Reached E s observed resolved)
    (hhash : Set.InjOn E.statementHash {text | ∃ claims ∈ observed, text = observationText claims})
    (hplain : ∀ claims ∈ observed, ∀ claim ∈ claims, claim.Plain) :
    (∀ obs entity, s.seenObs.get obs = some entity →
      s.ledger.claims.has entity = true ∧
      (∃ claims ∈ observed, observationKey E claims = obs) ∧
      ∀ claims ∈ observed, observationKey E claims = obs →
        ∀ claim ∈ claims, s.ledger.has entity claim.hash = true) ∧
    ∀ claims ∈ resolved, ∀ claims' : List ClaimInput,
      (claims'.map ClaimInput.asserted).Perm (claims.map ClaimInput.asserted) →
      ∀ threshold nameThreshold : F, ∃ entity,
        resolve E claims' threshold nameThreshold s =
          (.ok { entity := entity, isNoop := true }, s) ∧
        ∀ claim ∈ claims', s.ledger.has entity claim.hash = true := by
  have hholds := hreached.memoHolds (toldApart_of_plain hhash hplain)
  refine ⟨fun obs entity hget => ⟨hholds.entities obs entity hget, ?_, ?_⟩, ?_⟩
  · obtain ⟨claims, hclaims, -, hkey⟩ := hholds.origin obs entity hget
    exact ⟨claims, hclaims, hkey⟩
  · rintro claims hclaims rfl
    exact hholds.held claims hclaims entity hget
  · intro claims hresolved claims' hperm
    exact hholds.again hresolved (hreached.resolved_subset hresolved) hperm

theorem Reached.of_ok {threshold nameThreshold : F} (h : Reached E s observed resolved)
    (hok : (resolve E claims threshold nameThreshold s).1.isOk = true) :
    Reached E (resolve E claims threshold nameThreshold s).2 (claims :: observed)
      (claims :: resolved) := by
  cases hrun : resolve E claims threshold nameThreshold s with
  | mk r s' =>
    rw [hrun] at hok
    cases r with
    | error e => cases hok
    | ok out => exact .resolved h hrun

end Services

/-- An embedder with one vector, and an index that finds nothing. -/
def plainEmbedding : Embedding Unit Unit Unit Int where
  statementHash text := text
  vectors cache values := (.ok (values.map fun _ => ()), cache)
  pool cache _ := (.ok (), cache)
  cached _ _ := none
  residualize _ vector := vector
  rebuildResidual _ := none
  meanPool _ := .ok ()
  search _ _ _ := .ok []
  upsert index _ _ := (.ok (), index)
  applyMerges index _ _ := index
  idDiff _ _ _ _ _ _ _ := ⟨0, 0, false⟩
  blockingTopN := 24
  mergeGate := 1
  encodeCache _ := []
  decodeCache cache _ := .ok cache
  snapshot _ := []
  loadEntityIndex _ := .ok ()

/-- A new service. -/
def emptyService : Service Unit Unit Unit where
  resolver := ()
  index := ()
  ids n := "entity" ++ String.ofList (List.replicate n '+')

/-- Two claims of a person. -/
def nameAndEmail : List ClaimInput :=
  [{ text := "name: Ada", hash := "a" }, { text := "email: ada", hash := "b" }]

/-- One claim whose bound reads like the end of it and another claim. -/
def smuggledClaim : List ClaimInput :=
  [{ text := "name: Ada", hash := "a", validUntil := "\nb\x00\x00" }]

/-- **An observation is mistaken for another.** A claim is resolved whose bound contains a line
feed and zero characters. Two claims are taken for it: they are resolved, again and again, to an
entity that does not hold the second. -/
theorem observation_mistaken :
    ∃ s observed resolved, Reached plainEmbedding s observed resolved ∧
      ∃ claims ∈ resolved, ∃ entity,
        resolve plainEmbedding claims 0 0 s = (.ok { entity := entity, isNoop := true }, s) ∧
        ∃ claim ∈ claims, s.ledger.has entity claim.hash = false := by
  have hfirst : Reached plainEmbedding (resolve plainEmbedding smuggledClaim 0 0 emptyService).2
      [smuggledClaim] [smuggledClaim] := Reached.of_ok (.new () () _) (by decide +kernel)
  have hboth : Reached plainEmbedding (resolve plainEmbedding nameAndEmail 0 0
      (resolve plainEmbedding smuggledClaim 0 0 emptyService).2).2
      [nameAndEmail, smuggledClaim] [nameAndEmail, smuggledClaim] :=
    hfirst.of_ok (by decide +kernel)
  refine ⟨_, _, _, hboth, nameAndEmail, List.mem_cons_self, "entity", ?_, ?_⟩
  · exact resolve_memo (by decide) (by decide +kernel) 0 0
  · decide +kernel

/-- The two claims are resolved, and come again the other way round. -/
theorem reingest_noop_swapped :
    ∃ s, (∃ observed, Reached plainEmbedding s observed [nameAndEmail]) ∧ ∃ entity,
      resolve plainEmbedding nameAndEmail.reverse 0 0 s =
        (.ok { entity := entity, isNoop := true }, s) ∧
      ∀ claim ∈ nameAndEmail.reverse, s.ledger.has entity claim.hash = true := by
  have hreached : Reached plainEmbedding (resolve plainEmbedding nameAndEmail 0 0 emptyService).2
      [nameAndEmail] [nameAndEmail] := Reached.of_ok (.new () () _) (by decide +kernel)
  refine ⟨_, ⟨_, hreached⟩, ?_⟩
  exact (reingest_noop hreached (fun _ _ _ _ h => h) (by decide)).2 nameAndEmail
    List.mem_cons_self nameAndEmail.reverse (nameAndEmail.reverse_perm.map _) 0 0

end Gmeow
