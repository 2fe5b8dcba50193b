import Gmeow.Resolution

/-!
# Folding entities together

`Repair` looks for entities that were kept apart and should not have been. Each round scores the
entities against their neighbours, links the strongest pairs first unless a veto stands between
two clusters, and folds the members of each cluster into the one with the smallest id: their
claims move, the memo is pointed at it, and they are gone from the ledger.

* `UnionFind` — the disjoint sets, with path halving; `find_root` — the loop finds a root;
* `clusterByConstrainedLinkage`, `ClustersApart` — the clusters, and that they share no entity;
* `applyAssignments` — the fold;
* `repair` — the rounds.
-/

namespace Gmeow

/-! ## Disjoint sets -/

/-- `unionFind`. -/
structure UnionFind where
  parent : OrdMap String String := ∅

namespace UnionFind

/-- `newUnionFind`. -/
def ofEntities (entities : List String) : UnionFind :=
  ⟨entities.foldl (fun parent e => parent.set e e) ∅⟩

/-- `u.parent[x]`: the empty string where there is none. -/
def parentOf (u : UnionFind) (x : String) : String := (u.parent.get x).getD ""

/-- The loop of `find`. -/
def findFrom : Nat → UnionFind → String → String × UnionFind
  | 0, u, x => (x, u)
  | fuel + 1, u, x =>
    if u.parentOf x = x then (x, u)
    else
      -- path halving
      let up := u.parentOf (u.parentOf x)
      findFrom fuel ⟨u.parent.set x up⟩ up

/-- `find`. The loop descends along distinct elements (`find_root`). -/
def find (u : UnionFind) (x : String) : String × UnionFind :=
  findFrom (u.parent.entries.length + 2) u x

/-- `union`. -/
def union (u : UnionFind) (a b : String) : String × UnionFind :=
  let (ra, u) := u.find a
  let (rb, u) := u.find b
  if ra = rb then (ra, u)
  else if rb < ra then (rb, ⟨u.parent.set ra rb⟩)
  else (ra, ⟨u.parent.set rb ra⟩)

end UnionFind

/-! ## Edges and clusters -/

/-- `SignedEdge`. -/
structure SignedEdge (F : Type) where
  a : String
  b : String
  weight : F
  veto : Bool := false

/-- `orderedKey`. -/
def orderedKey (a b : String) : String × String := if a > b then (b, a) else (a, b)

/-- `RepairParams`. -/
structure RepairParams (F : Type) where
  threshold : F
  nameThreshold : F
  mergeThreshold : F
  topN : Int

/-- `RepairResult`. -/
structure RepairResult where
  entitiesBefore : Nat
  entitiesAfter : Nat
  merges : Nat
  clusters : Nat

variable {C I V F : Type} {members : OrdMap String (List String)} {member canonical : String}

/-- `entityIDs`. -/
def entityIDs (s : Service C I V) : List String := s.ledger.claims.entries.map (·.1)

/-- The scoring loop of `ScoreEdges`. -/
def scoreNeighbours (E : Embedding C I V F) (entity : String) (subject : List (ScoredClaim V))
    (threshold nameThreshold : F) :
    List String → Service C I V → List (SignedEdge F) × Service C I V
  | [], s => ([], s)
  | candidate :: rest, s =>
    let (known, s) := entityScoredClaims E candidate s
    let result := E.idDiff s.ledger.observationFreq s.ledger.observations threshold nameThreshold
      false subject known
    let (edges, s) := scoreNeighbours E entity subject threshold nameThreshold rest s
    ({ a := entity, b := candidate, weight := result.score, veto := result.veto } :: edges, s)

/-- `ScoreEdges`. -/
def scoreEdges (E : Embedding C I V F) (entity : String) (topN : Int) (threshold nameThreshold : F)
    (s : Service C I V) : Except String (List (SignedEdge F)) × Service C I V :=
  match E.pool s.resolver (entityValues entity s) with
  | (.error e, resolver) => (.error e, { s with resolver := resolver })
  | (.ok centroid, resolver) =>
    let (subject, s) := entityScoredClaims E entity { s with resolver := resolver }
    match E.search s.index centroid (topN + 1) with
    | .error e => (.error e, s)
    | .ok candidates =>
      let neighbours := (candidates ++ s.ledger.identifierCandidates subject).filter fun e =>
        e ≠ "" ∧ e ≠ entity
      let (edges, s) := scoreNeighbours E entity subject threshold nameThreshold
        (sortStrings neighbours.dedup) s
      (.ok edges, s)

/-- What `repairEdges` collects. -/
structure RepairEdges (F : Type) where
  positive : List (SignedEdge F) := []
  cannot : List (String × String) := []
  seen : List (String × String) := []

/-- The clusters while they are linked. -/
structure Clustering where
  uf : UnionFind
  members : OrdMap String (List String)

/-- `members[r]`. -/
def Clustering.membersOf (c : Clustering) (root : String) : List String :=
  (c.members.get root).getD []

/-- `cannotMerge`. -/
def Clustering.cannotMerge (c : Clustering) (cannot : List (String × String))
    (ra rb : String) : Bool :=
  (c.membersOf ra).any fun x => (c.membersOf rb).any fun y => cannot.contains (orderedKey x y)

/-- One edge of the linkage. -/
def Clustering.link (cannot : List (String × String)) (c : Clustering) (edge : SignedEdge F) :
    Clustering :=
  let (ra, uf) := c.uf.find edge.a
  let (rb, uf) := uf.find edge.b
  if ra = rb ∨ c.cannotMerge cannot ra rb = true then { c with uf := uf }
  else
    let (root, uf) := uf.union ra rb
    let other := if root = ra then rb else ra
    let merged := c.membersOf root ++ c.membersOf other
    { uf := uf, members := (c.members.set root merged).erase other }

/-- Every entity on its own. -/
def Clustering.start (entities : List String) : Clustering where
  uf := .ofEntities entities
  members := entities.foldl (fun members e => members.set e [e]) ∅

section Scores

variable [LE F] [DecidableLE F] [LT F] [DecidableLT F] [DecidableEq F]

/-- One edge of `repairEdges`. -/
def RepairEdges.add (mergeThreshold : F) (acc : RepairEdges F) (edge : SignedEdge F) :
    RepairEdges F :=
  let key := orderedKey edge.a edge.b
  let acc := if edge.veto then { acc with cannot := key :: acc.cannot } else acc
  if key ∈ acc.seen then acc
  else
    let acc := { acc with seen := key :: acc.seen }
    if mergeThreshold ≤ edge.weight then
      { acc with positive := acc.positive ++ [{ a := key.1, b := key.2, weight := edge.weight }] }
    else acc

/-- `repairEdges`. -/
def repairEdges (E : Embedding C I V F) (p : RepairParams F) :
    List String → RepairEdges F → Service C I V → Except String (RepairEdges F) × Service C I V
  | [], acc, s => (.ok acc, s)
  | entity :: rest, acc, s =>
    match scoreEdges E entity p.topN p.threshold p.nameThreshold s with
    | (.error e, s) => (.error e, s)
    | (.ok edges, s) => repairEdges E p rest (edges.foldl (RepairEdges.add p.mergeThreshold) acc) s

/-- The order of the linkage: the strongest edge first, then by the entities. -/
def strongerEdge (x y : SignedEdge F) : Bool :=
  if x.weight ≠ y.weight then decide (x.weight > y.weight)
  else if x.a ≠ y.a then decide (x.a < y.a) else decide (x.b < y.b)

/-- `clusterByConstrainedLinkage`. -/
def clusterByConstrainedLinkage (entities : List String) (positive : List (SignedEdge F))
    (cannot : List (String × String)) : List (List String) :=
  let linked := (sliceStable strongerEdge positive).foldl (Clustering.link cannot)
    (.start entities)
  sliceStable (fun x y => decide (x.headD "" < y.headD ""))
    (linked.members.entries.map fun item => sortStrings item.2)

end Scores

/-! ## The fold -/

/-- The assignments of one cluster: each further member to the first. -/
def assignCluster (assignments : OrdMap String String) (members : List String) :
    OrdMap String String :=
  match members with
  | [] => assignments
  | canonical :: rest => rest.foldl (fun assignments m => assignments.set m canonical) assignments

/-- The claims of a member join those of the canonical entity, which gives way where both hold
one, up to the bounds. -/
def foldClaims (row : OrdMap String ClaimEntry) (item : String × ClaimEntry) :
    OrdMap String ClaimEntry :=
  match row.get item.1 with
  | some existing =>
    row.set item.1 { item.2 with
      validFrom := earlierBound existing.validFrom item.2.validFrom
      validUntil := laterBound existing.validUntil item.2.validUntil }
  | none => row.set item.1 item.2

namespace EntityLedger

/-- One member of `applyAssignments`. -/
def foldMember (l : EntityLedger) (item : String × String) : EntityLedger :=
  let row := (l.claimsOf item.1).entries.foldl foldClaims (l.claimsOf item.2)
  { l with claims := (l.claims.set item.2 row).erase item.1 }

/-- One claim of `rebuild`. -/
def rebuildClaim (entity : String) (l : EntityLedger) (item : String × ClaimEntry) :
    EntityLedger :=
  let l := { l with df := l.df.set item.1 ((l.df.get item.1).getD 0 + 1) }
  l.indexIdentifier entity item.2.text

/-- `rebuild`. -/
def rebuild (l : EntityLedger) : EntityLedger :=
  l.claims.entries.foldl (fun l item => item.2.entries.foldl (rebuildClaim item.1) l)
    { l with df := ∅, ident := ∅ }

end EntityLedger

/-- An order in which Go visits the members of a round, and then its canonical entities. -/
structure VisitOrder where
  members : List (String × String) → List (String × String)
  members_perm : ∀ l, (members l).Perm l
  canonicals : List String → List String
  canonicals_perm : ∀ l, (canonicals l).Perm l

/-- The order of the texts. -/
def VisitOrder.sorted : VisitOrder where
  members l := l
  members_perm := List.Perm.refl
  canonicals l := l
  canonicals_perm := List.Perm.refl

/-- `mergesByCanonical`, with the members in an order. -/
def mergesByCanonical (order : VisitOrder) (assign : OrdMap String String) :
    OrdMap String (List String) :=
  (order.members assign.entries).foldl
    (fun merges item => merges.set item.2 ((merges.get item.2).getD [] ++ [item.1])) ∅

/-- The centroids of the canonical entities; the first failure ends the loop. -/
def poolCanonicals (E : Embedding C I V F) :
    List String → OrdMap String V → Service C I V →
      Except String (OrdMap String V) × Service C I V
  | [], centroids, s => (.ok centroids, s)
  | canonical :: rest, centroids, s =>
    let s := { s with entityClaims := s.entityClaims.erase canonical }
    match E.pool s.resolver (entityValues canonical s) with
    | (.error e, resolver) => (.error e, { s with resolver := resolver })
    | (.ok centroid, resolver) =>
      poolCanonicals E rest (centroids.set canonical centroid) { s with resolver := resolver }

/-- Where an entity went. -/
def successor (assign : OrdMap String String) (entity : String) : String :=
  (assign.get entity).getD entity

/-- `applyAssignments` up to the centroids, with the members in an order. -/
def foldAssigned (order : VisitOrder) (assign : OrdMap String String) (s : Service C I V) :
    Service C I V :=
  { s with
    ledger := ((order.members assign.entries).foldl EntityLedger.foldMember s.ledger).rebuild
    entityClaims := s.entityClaims.eraseAll ((order.members assign.entries).map (·.1))
    seenObs := s.seenObs.mapValues (successor assign) }

/-- `applyAssignments` in an order. -/
def applyAssignments (order : VisitOrder) (E : Embedding C I V F)
    (assign : OrdMap String String) (s : Service C I V) : Except String Unit × Service C I V :=
  if assign.entries.isEmpty then (.ok (), s)
  else
    let merges := mergesByCanonical order assign
    match poolCanonicals E (order.canonicals (merges.entries.map (·.1))) ∅
      (foldAssigned order assign s) with
    | (.error e, s) => (.error e, s)
    | (.ok centroids, s) => (.ok (), { s with index := E.applyMerges s.index merges centroids })

section Scores

variable [LE F] [DecidableLE F] [LT F] [DecidableLT F] [DecidableEq F]

/-- The assignments of all clusters. -/
def assignmentsOf (grouped : List (List String)) : OrdMap String String :=
  grouped.foldl assignCluster ∅

/-- `repairRound` in an order. -/
def repairRound (order : VisitOrder) (E : Embedding C I V F) (p : RepairParams F)
    (s : Service C I V) : Except String (Nat × Nat) × Service C I V :=
  let entities := entityIDs s
  match repairEdges E p entities {} s with
  | (.error e, s) => (.error e, s)
  | (.ok found, s) =>
    let grouped := clusterByConstrainedLinkage entities found.positive found.cannot
    let assignments := assignmentsOf grouped
    let multi := (grouped.filter fun members => 1 < members.length).length
    match applyAssignments order E assignments s with
    | (.error e, s) => (.error e, s)
    | (.ok _, s) => (.ok (assignments.entries.length, multi), s)

/-- `repairMaxRounds`. -/
def repairMaxRounds : Nat := 12

/-- The rounds of `Repair`, to a fixpoint or the cap, each in an order of its own. -/
def repairRounds (order : Nat → VisitOrder) (E : Embedding C I V F) (p : RepairParams F) :
    Nat → Nat × Nat → Service C I V → Except String (Nat × Nat) × Service C I V
  | 0, totals, s => (.ok totals, s)
  | rounds + 1, totals, s =>
    match repairRound (order rounds) E p s with
    | (.error e, s) => (.error e, s)
    | (.ok (merges, clusters), s) =>
      if merges = 0 then (.ok totals, s)
      else repairRounds order E p rounds (totals.1 + merges, totals.2 + clusters) s

/-- The parameters of a repair, with the defaults of the service. -/
def RepairParams.withDefaults [Zero F] (p : RepairParams F) (E : Embedding C I V F) :
    RepairParams F :=
  let p := if p.topN ≤ 0 then { p with topN := E.blockingTopN } else p
  if p.mergeThreshold ≤ 0 then { p with mergeThreshold := E.mergeGate } else p

/-- `Repair`, with the orders Go may visit its maps in. -/
def repair [Zero F] (order : Nat → VisitOrder) (E : Embedding C I V F) (p : RepairParams F)
    (s : Service C I V) : Except String RepairResult × Service C I V :=
  let before := (entityIDs s).length
  match repairRounds order E (p.withDefaults E) repairMaxRounds (0, 0) s with
  | (.error e, s) => (.error e, s)
  | (.ok (merges, clusters), s) => (.ok ⟨before, (entityIDs s).length, merges, clusters⟩, s)

end Scores

/-! ## The search ends at a root -/

namespace UnionFind

/-- Parents are not larger, and each is an element itself or the empty string. -/
structure Descends (u : UnionFind) : Prop where
  below : ∀ x, u.parentOf x ≤ x
  known : ∀ x, u.parentOf x ≠ "" → u.parent.has (u.parentOf x) = true

theorem parentOf_set (u : UnionFind) (x up y : String) :
    (⟨u.parent.set x up⟩ : UnionFind).parentOf y = if y = x then up else u.parentOf y := by
  rw [parentOf, OrdMap.get_set]
  split <;> rfl

variable {x y up : String} {u : UnionFind}

theorem has_set_of_has {m : OrdMap String String} (h : m.has y = true) :
    (m.set x up).has y = true := by
  rw [OrdMap.has, OrdMap.get_set]
  split
  · rfl
  · exact h

/-- An element is pointed at a smaller one. -/
theorem Descends.set (h : u.Descends) (hle : up ≤ x) (hup : up ≠ "" → u.parent.has up = true) :
    (⟨u.parent.set x up⟩ : UnionFind).Descends := by
  refine ⟨fun y => ?_, fun y hy => ?_⟩
  · rw [parentOf_set]
    split
    · rename_i heq
      rw [heq]
      exact hle
    · exact h.below y
  · rw [parentOf_set] at hy ⊢
    split at hy
    · rename_i heq
      rw [if_pos heq]
      exact has_set_of_has (hup hy)
    · rename_i hne
      rw [if_neg hne]
      exact has_set_of_has (h.known y hy)

/-- What the halving writes. -/
theorem Descends.halve (h : u.Descends) (x : String) :
    (⟨u.parent.set x (u.parentOf (u.parentOf x))⟩ : UnionFind).Descends :=
  h.set ((h.below _).trans (h.below x)) (h.known _)

theorem Descends.findFrom (h : u.Descends) (fuel : Nat) (x : String) :
    (findFrom fuel u x).2.Descends := by
  induction fuel generalizing u x with
  | zero => exact h
  | succ fuel ih =>
    rw [UnionFind.findFrom]
    split
    · exact h
    · exact ih (h.halve x) _

/-- In the beginning every entity is its own parent. -/
theorem Descends.ofEntities (entities : List String) : (ofEntities entities).Descends := by
  have hfold : ∀ (entities : List String) (parent : OrdMap String String),
      (∀ x y, parent.get x = some y → y = x) → ∀ x y,
        (entities.foldl (fun parent e => parent.set e e) parent).get x = some y → y = x := by
    intro entities
    induction entities with
    | nil => exact fun _ h => h
    | cons e entities ih =>
      intro parent h
      refine ih _ fun x y hget => ?_
      rw [OrdMap.get_set] at hget
      split at hget
      · rename_i heq
        rw [← Option.some.inj hget, heq]
      · exact h x y hget
  have hself := hfold entities ∅ fun x y hget => nomatch hget
  refine ⟨fun x => ?_, fun x hx => ?_⟩
  · rw [parentOf]
    cases hget : (UnionFind.ofEntities entities).parent.get x with
    | none => exact empty_le x
    | some y => exact (hself x y hget).le
  · rw [parentOf] at hx ⊢
    cases hget : (UnionFind.ofEntities entities).parent.get x with
    | none => rw [hget] at hx; exact absurd rfl hx
    | some y =>
      rw [Option.getD_some, hself x y hget]
      exact OrdMap.has_iff.mpr ⟨y, hget⟩

/-- The elements below one. -/
def below (u : UnionFind) (x : String) : Finset String :=
  ((u.parent.entries.map (·.1)).filter (· < x)).toFinset

theorem mem_below : y ∈ u.below x ↔ u.parent.has y = true ∧ y < x := by
  rw [below, List.mem_toFinset, List.mem_filter, decide_eq_true_iff]
  refine and_congr_left fun _ => ?_
  rw [List.mem_map, OrdMap.has_iff]
  constructor
  · rintro ⟨⟨k, v⟩, hin, rfl⟩
    exact ⟨v, OrdMap.mem_entries_iff.mp hin⟩
  · rintro ⟨v, hget⟩
    exact ⟨(y, v), OrdMap.mem_entries_iff.mpr hget, rfl⟩

/-- The loop ends at a root: every other step comes to an element further below. -/
theorem Descends.findFrom_root (h : u.Descends) (fuel : Nat) (x : String)
    (hfuel : (u.below x).card + 2 ≤ fuel) :
    (UnionFind.findFrom fuel u x).2.parentOf (UnionFind.findFrom fuel u x).1 =
      (UnionFind.findFrom fuel u x).1 := by
  induction fuel generalizing u x with
  | zero => omega
  | succ fuel ih =>
    rw [UnionFind.findFrom]
    split
    · rename_i hroot
      exact hroot
    · rename_i hne
      have hlt : u.parentOf (u.parentOf x) < x :=
        (h.below _).trans_lt (lt_of_le_of_ne (h.below x) hne)
      have hhalved := h.halve x
      by_cases hempty : u.parentOf (u.parentOf x) = ""
      · -- nothing is below the empty string
        cases fuel with
        | zero => omega
        | succ fuel =>
          have hroot := le_antisymm (hhalved.below "") (empty_le _)
          dsimp only
          rw [hempty] at hroot ⊢
          rw [UnionFind.findFrom, if_pos hroot]
          exact hroot
      · refine ih hhalved _ ?_
        have hsub : (⟨u.parent.set x (u.parentOf (u.parentOf x))⟩ : UnionFind).below
            (u.parentOf (u.parentOf x)) ⊂ u.below x := by
          refine (Finset.ssubset_iff_of_subset fun y hy => ?_).mpr
            ⟨_, mem_below.mpr ⟨h.known _ hempty, hlt⟩, fun hin => ?_⟩
          · obtain ⟨hin, hbelow⟩ := mem_below.mp hy
            rw [OrdMap.has, OrdMap.get_set_ne _ _ (hbelow.trans hlt).ne] at hin
            exact mem_below.mpr ⟨hin, hbelow.trans hlt⟩
          · exact absurd (mem_below.mp hin).2 (lt_irrefl _)
        have hcard := Finset.card_lt_card hsub
        omega

/-- **A search ends at a root.** -/
theorem Descends.find_root (h : u.Descends) (x : String) :
    (u.find x).2.parentOf (u.find x).1 = (u.find x).1 := by
  refine h.findFrom_root _ x ?_
  have hcard := List.toFinset_card_le ((u.parent.entries.map (·.1)).filter (· < x))
  have hlength := List.length_filter_le (· < x) (u.parent.entries.map (·.1))
  rw [List.length_map] at hlength
  rw [UnionFind.below]
  omega

theorem has_findFrom (h : u.parent.has y = true) (fuel : Nat) (x : String) :
    (findFrom fuel u x).2.parent.has y = true := by
  induction fuel generalizing u x with
  | zero => exact h
  | succ fuel ih =>
    rw [findFrom]
    split
    · exact h
    · exact ih (has_set_of_has h) _

/-- The roots that a search finds are elements, or the empty string. -/
theorem Descends.find_has (h : u.Descends) (x : String) (hne : (u.find x).1 ≠ "") :
    (u.find x).2.parent.has (u.find x).1 = true := by
  have hroot := h.find_root x
  have hfound : (u.find x).2.Descends := h.findFrom _ x
  have hknown := hfound.known (u.find x).1
  rw [hroot] at hknown
  exact hknown hne

theorem Descends.union (h : u.Descends) (a b : String) : (u.union a b).2.Descends := by
  have ha : (u.find a).2.Descends := h.findFrom _ a
  have hb : ((u.find a).2.find b).2.Descends := ha.findFrom _ b
  rw [UnionFind.union]
  dsimp only
  split
  · exact hb
  split
  · rename_i hlt
    exact hb.set hlt.le fun hne => ha.find_has b hne
  · rename_i hnot
    exact hb.set (not_lt.mp hnot) fun hne => has_findFrom (h.find_has a hne) _ b

end UnionFind

/-! ## Clusters share no entity -/

/-- No entity is in two clusters, or twice in one. -/
structure ClustersApart (members : OrdMap String (List String)) : Prop where
  once : ∀ r r' l l' x, members.get r = some l → members.get r' = some l' → x ∈ l → x ∈ l' → r = r'
  nodup : ∀ r l, members.get r = some l → l.Nodup

/-- Clusters of one entity have nothing in common. -/
theorem ClustersApart.start (entities : List String) :
    ClustersApart (Clustering.start entities).members := by
  have hfold : ∀ (entities : List String) (members : OrdMap String (List String)),
      (∀ r l, members.get r = some l → l = [r]) → ∀ r l,
        (entities.foldl (fun members e => members.set e [e]) members).get r = some l → l = [r] := by
    intro entities
    induction entities with
    | nil => exact fun members h => h
    | cons e entities ih =>
      intro members h
      refine ih _ fun r l hget => ?_
      rw [OrdMap.get_set] at hget
      split at hget
      · rename_i heq
        rw [← Option.some.inj hget, heq]
      · exact h r l hget
  have hsingle := hfold entities ∅ fun r l hget => nomatch hget
  refine ⟨fun r r' l l' x hget hget' hx hx' => ?_, fun r l hget => ?_⟩
  · rw [hsingle r l hget, List.mem_singleton] at hx
    rw [hsingle r' l' hget', List.mem_singleton] at hx'
    exact hx.symm.trans hx'
  · rw [hsingle r l hget]
    exact List.nodup_singleton r

/-- Two clusters become one. -/
theorem ClustersApart.join (h : ClustersApart members) {root other : String} (hne : root ≠ other) :
    ClustersApart ((members.set root
      ((members.get root).getD [] ++ (members.get other).getD [])).erase other) := by
  have hmem : ∀ r x, x ∈ (members.get r).getD [] → ∃ l, members.get r = some l ∧ x ∈ l := by
    intro r x hx
    cases hget : members.get r with
    | none => rw [hget] at hx; cases hx
    | some l => rw [hget] at hx; exact ⟨l, rfl, hx⟩
  -- where an entity of a new cluster was before
  have hbefore : ∀ r l x, ((members.set root ((members.get root).getD [] ++
      (members.get other).getD [])).erase other).get r = some l → x ∈ l →
        ∃ r₀ l₀, members.get r₀ = some l₀ ∧ x ∈ l₀ ∧ (r₀ = r ∨ r₀ = other ∧ r = root) ∧
          r ≠ other := by
    intro r l x hget hx
    rw [OrdMap.get_erase, OrdMap.get_set] at hget
    split at hget
    · cases hget
    rename_i hother
    split at hget
    · rename_i hroot
      subst hroot
      rw [← Option.some.inj hget, List.mem_append] at hx
      rcases hx with hx | hx
      · obtain ⟨l₀, hl₀, hin⟩ := hmem r x hx
        exact ⟨r, l₀, hl₀, hin, Or.inl rfl, hother⟩
      · obtain ⟨l₀, hl₀, hin⟩ := hmem other x hx
        exact ⟨other, l₀, hl₀, hin, Or.inr ⟨rfl, rfl⟩, hother⟩
    · exact ⟨r, l, hget, hx, Or.inl rfl, hother⟩
  refine ⟨fun r r' l l' x hget hget' hx hx' => ?_, fun r l hget => ?_⟩
  · obtain ⟨r₀, l₀, hl₀, hin, hr, hr₁⟩ := hbefore r l x hget hx
    obtain ⟨r₀', l₀', hl₀', hin', hr', hr₁'⟩ := hbefore r' l' x hget' hx'
    have heq := h.once r₀ r₀' l₀ l₀' x hl₀ hl₀' hin hin'
    rcases hr with rfl | ⟨rfl, rfl⟩ <;> rcases hr' with rfl | ⟨rfl, rfl⟩
    · exact heq
    · exact absurd heq hr₁
    · exact absurd heq.symm hr₁'
    · rfl
  · rw [OrdMap.get_erase, OrdMap.get_set] at hget
    split at hget
    · cases hget
    split at hget
    · have hnodup : ∀ r, ((members.get r).getD []).Nodup := by
        intro r
        cases hr : members.get r with
        | none => exact List.nodup_nil
        | some l => exact h.nodup r l hr
      rw [← Option.some.inj hget]
      refine List.nodup_append.mpr ⟨hnodup root, hnodup other, fun x hx y hy hxy => ?_⟩
      obtain ⟨l₀, hl₀, hin⟩ := hmem root x hx
      obtain ⟨l₁, hl₁, hin'⟩ := hmem other y hy
      exact hne (h.once root other l₀ l₁ x hl₀ hl₁ hin (hxy ▸ hin'))
    · exact h.nodup r l hget

theorem ClustersApart.link {c : Clustering} (h : ClustersApart c.members)
    (cannot : List (String × String)) (edge : SignedEdge F) : ClustersApart (c.link cannot edge).members := by
  rw [Clustering.link]
  dsimp only
  split
  · exact h
  · rename_i hne
    refine h.join ?_
    -- whatever the roots are, one is kept and another is given up
    rw [not_or] at hne
    split
    · rename_i hroot
      rw [hroot]
      exact hne.1
    · rename_i hroot
      exact hroot

/-- The clusters of a linkage are sorted and share no entity. -/
structure Grouped (grouped : List (List String)) : Prop where
  nodup : ∀ members ∈ grouped, members.Nodup
  once : ∀ members ∈ grouped, ∀ others ∈ grouped, ∀ x ∈ members, x ∈ others → members = others

variable {grouped : List (List String)}

theorem Grouped.of_apart (h : ClustersApart members)
    (hmem : ∀ l ∈ grouped, ∃ r l₀, members.get r = some l₀ ∧ l = sortStrings l₀) :
    Grouped grouped := by
  refine ⟨fun l hl => ?_, fun l hl l' hl' x hx hx' => ?_⟩
  · obtain ⟨r, l₀, hget, rfl⟩ := hmem l hl
    exact ((List.perm_insertionSort (· ≤ ·) l₀).nodup_iff).mpr (h.nodup r l₀ hget)
  · obtain ⟨r, l₀, hget, rfl⟩ := hmem l hl
    obtain ⟨r', l₀', hget', rfl⟩ := hmem l' hl'
    have heq := h.once r r' l₀ l₀' x hget hget' ((List.mem_insertionSort _).mp hx)
      ((List.mem_insertionSort _).mp hx')
    subst heq
    rw [Option.some.inj (hget.symm.trans hget')]

/-- No entity is in two clusters, or in one of them twice. -/
theorem clusterByConstrainedLinkage_grouped [LE F] [DecidableLE F] [LT F] [DecidableLT F]
    [DecidableEq F] (entities : List String) (positive : List (SignedEdge F))
    (cannot : List (String × String)) :
    Grouped (clusterByConstrainedLinkage entities positive cannot) := by
  have hfold : ∀ (edges : List (SignedEdge F)) (c : Clustering), ClustersApart c.members →
      ClustersApart (edges.foldl (Clustering.link cannot) c).members := by
    intro edges
    induction edges with
    | nil => exact fun _ h => h
    | cons edge edges ih => exact fun c h => ih _ (h.link cannot edge)
  refine .of_apart (hfold (sliceStable strongerEdge positive) _ (.start entities)) fun l hl => ?_
  rw [clusterByConstrainedLinkage, mem_sliceStable, List.mem_map] at hl
  obtain ⟨⟨r, l₀⟩, hin, rfl⟩ := hl
  exact ⟨r, l₀, OrdMap.mem_entries_iff.mp hin, rfl⟩

/-! ## Members and canonical entities -/

/-- An assignment sends a further member of a cluster to the first. -/
theorem assignmentsOf_get (h : (assignmentsOf grouped).get member = some canonical) :
    ∃ rest, canonical :: rest ∈ grouped ∧ member ∈ rest := by
  have hcluster : ∀ (rest : List String) (canonical : String) (acc : OrdMap String String) {m c},
      (rest.foldl (fun acc m => acc.set m canonical) acc).get m = some c →
        (m ∈ rest ∧ c = canonical) ∨ acc.get m = some c := by
    intro rest canonical
    induction rest with
    | nil => exact fun acc m c h => Or.inr h
    | cons first rest ih =>
      intro acc m c h
      rcases ih _ h with ⟨hin, hc⟩ | hget
      · exact Or.inl ⟨List.mem_cons_of_mem _ hin, hc⟩
      · rw [OrdMap.get_set] at hget
        split at hget
        · rename_i heq
          exact Or.inl ⟨heq ▸ List.mem_cons_self, (Option.some.inj hget).symm⟩
        · exact Or.inr hget
  have hfold : ∀ (clusters : List (List String)) (acc : OrdMap String String) {m c},
      (clusters.foldl assignCluster acc).get m = some c →
        (∃ rest, c :: rest ∈ clusters ∧ m ∈ rest) ∨ acc.get m = some c := by
    intro clusters
    induction clusters with
    | nil => exact fun acc m c h => Or.inr h
    | cons members clusters ih =>
      intro acc m c h
      rcases ih _ h with ⟨rest, hin, hm⟩ | hget
      · exact Or.inl ⟨rest, List.mem_cons_of_mem _ hin, hm⟩
      · cases members with
        | nil => exact Or.inr hget
        | cons first rest =>
          rcases hcluster rest first acc hget with ⟨hin, rfl⟩ | hget
          · exact Or.inl ⟨rest, List.mem_cons_self, hin⟩
          · exact Or.inr hget
  rcases hfold grouped ∅ h with hfound | hnone
  · exact hfound
  · cases hnone

/-- A canonical entity is assigned to none. -/
theorem Grouped.canonical_stays (h : Grouped grouped)
    (hget : (assignmentsOf grouped).get member = some canonical) :
    (assignmentsOf grouped).get canonical = none := by
  cases hagain : (assignmentsOf grouped).get canonical with
  | none => rfl
  | some other =>
    obtain ⟨rest, hin, -⟩ := assignmentsOf_get hget
    obtain ⟨rest', hin', hcanonical⟩ := assignmentsOf_get hagain
    have heq := h.once _ hin _ hin' canonical List.mem_cons_self
      (List.mem_cons_of_mem _ hcanonical)
    have hnodup := h.nodup _ hin
    rw [(List.cons.inj heq).2] at hnodup
    exact absurd hcanonical (List.nodup_cons.mp hnodup).1

/-! ## What stays the same -/

namespace EntityLedger

/-- Only the indexes are computed again. -/
theorem rebuild_eq (l : EntityLedger) :
    ∃ df ident, l.rebuild = { l with df := df, ident := ident } := by
  have hinner : ∀ (items : List (String × ClaimEntry)) (entity : String) (l : EntityLedger),
      ∃ df ident, items.foldl (rebuildClaim entity) l = { l with df := df, ident := ident } := by
    intro items entity
    induction items with
    | nil => exact fun l => ⟨l.df, l.ident, rfl⟩
    | cons item items ih =>
      intro l
      obtain ⟨df, ident, hrest⟩ := ih (rebuildClaim entity l item)
      refine ⟨df, ident, hrest.trans ?_⟩
      dsimp only [rebuildClaim, indexIdentifier]
      split <;> rfl
  have houter : ∀ (rows : List (String × OrdMap String ClaimEntry)) (l : EntityLedger),
      ∃ df ident, rows.foldl (fun l item => item.2.entries.foldl (rebuildClaim item.1) l) l =
        { l with df := df, ident := ident } := by
    intro rows
    induction rows with
    | nil => exact fun l => ⟨l.df, l.ident, rfl⟩
    | cons row rows ih =>
      intro l
      obtain ⟨df, ident, hfirst⟩ := hinner row.2.entries row.1 l
      obtain ⟨df', ident', hrest⟩ := ih (row.2.entries.foldl (rebuildClaim row.1) l)
      refine ⟨df', ident', hrest.trans ?_⟩
      rw [hfirst]
  exact houter _ _

theorem rebuild_claims (l : EntityLedger) : l.rebuild.claims = l.claims := by
  obtain ⟨df, ident, heq⟩ := l.rebuild_eq
  rw [heq]

end EntityLedger

theorem poolCanonicals_same (E : Embedding C I V F) (canonicals : List String)
    (centroids : OrdMap String V) (s : Service C I V) :
    SameEntities s (poolCanonicals E canonicals centroids s).2 := by
  induction canonicals generalizing centroids s with
  | nil => exact .rfl
  | cons canonical rest ih =>
    rw [poolCanonicals]
    dsimp only
    generalize E.pool s.resolver (entityValues canonical { s with
      entityClaims := s.entityClaims.erase canonical }) = answer
    obtain ⟨e | centroid, resolver⟩ := answer
    · exact ⟨rfl, rfl⟩
    · have hrest := ih (centroids.set canonical centroid) { s with
        entityClaims := s.entityClaims.erase canonical, resolver := resolver }
      exact ⟨hrest.ledger, hrest.seenObs⟩

theorem scoreNeighbours_same (E : Embedding C I V F) (entity : String)
    (subject : List (ScoredClaim V)) (threshold nameThreshold : F) (ordered : List String)
    (s : Service C I V) :
    SameEntities s (scoreNeighbours E entity subject threshold nameThreshold ordered s).2 := by
  induction ordered generalizing s with
  | nil => exact .rfl
  | cons candidate rest ih => exact (entityScoredClaims_same E candidate s).trans (ih _)

/-- Scoring changes neither the memo nor the ledger. -/
theorem scoreEdges_same (E : Embedding C I V F) (entity : String) (topN : Int)
    (threshold nameThreshold : F) (s : Service C I V) :
    SameEntities s (scoreEdges E entity topN threshold nameThreshold s).2 := by
  rw [scoreEdges]
  generalize E.pool s.resolver (entityValues entity s) = answer
  obtain ⟨e | centroid, resolver⟩ := answer
  · exact ⟨rfl, rfl⟩
  · have hscored := entityScoredClaims_same E entity { s with resolver := resolver }
    have hsame : SameEntities s (entityScoredClaims E entity { s with resolver := resolver }).2 :=
      ⟨hscored.ledger, hscored.seenObs⟩
    dsimp only
    generalize entityScoredClaims E entity { s with resolver := resolver } = known at hsame ⊢
    cases E.search known.2.index centroid (topN + 1) with
    | error e => exact hsame
    | ok candidates => exact hsame.trans (scoreNeighbours_same E entity _ _ _ _ _)

section Scores

variable [LE F] [DecidableLE F] [LT F] [DecidableLT F] [DecidableEq F]

omit [LT F] [DecidableLT F] [DecidableEq F] in
theorem repairEdges_same (E : Embedding C I V F) (p : RepairParams F) (entities : List String)
    (acc : RepairEdges F) (s : Service C I V) :
    SameEntities s (repairEdges E p entities acc s).2 := by
  induction entities generalizing acc s with
  | nil => exact .rfl
  | cons entity rest ih =>
    rw [repairEdges]
    have hscored := scoreEdges_same E entity p.topN p.threshold p.nameThreshold s
    generalize scoreEdges E entity p.topN p.threshold p.nameThreshold s = out at hscored ⊢
    obtain ⟨e | edges, s'⟩ := out
    · exact hscored
    · exact hscored.trans (ih _ _)

end Scores

end Gmeow
