import Gmeow.Repair

/-!
# The clusters of a linkage

`clusterByConstrainedLinkage` keeps the clusters twice: as disjoint sets, whose parents the
searches keep rewriting, and as the lists of members under their roots. The two agree because
rewriting the parents never changes where a chain of parents ends.

* `UnionFind.Leads` — the chain of parents ends at a root; `find_eq` — a search finds that root;
* `Linked` — the lists of members are the entities that lead to their root, and no two of one
  cluster are kept apart;
* `Answered` — an edge inside one cluster, or between two that are kept apart; it stays so while
  the clusters grow;
* `Clustering.link_spec`, `linkAll_spec` — one edge, and all of them.
-/

namespace Keyed

variable {α K : Type*} [LinearOrder K]

/-- The key of the one is not larger. -/
def KeyLe (key : α → K) (x y : α) : Prop := decide (key y < key x) = false

variable {key : α → K}

theorem keyLe_iff {x y : α} : KeyLe key x y ↔ key x ≤ key y := by
  rw [KeyLe, decide_eq_false_iff_not, not_lt]

instance : DecidableRel (KeyLe key) := fun _ _ => inferInstanceAs (Decidable (_ = false))

instance : Std.Total (KeyLe key) := ⟨fun x y => by
  rw [keyLe_iff, keyLe_iff]
  exact le_total _ _⟩

instance : IsTrans α (KeyLe key) := ⟨fun x y z hxy hyz => by
  rw [keyLe_iff] at hxy hyz ⊢
  exact hxy.trans hyz⟩

end Keyed

namespace Gmeow

open Keyed

namespace UnionFind

/-! ## Where the parents lead -/

/-- The chain of parents from the first element ends at the second. -/
inductive Leads (u : UnionFind) : String → String → Prop
  | root {r : String} (hroot : u.parentOf r = r) : Leads u r r
  | step {x r : String} (hne : u.parentOf x ≠ x) (h : Leads u (u.parentOf x) r) : Leads u x r

variable {u : UnionFind} {x y r r' : String}

/-- The parent of an element leads where the element does. -/
theorem Leads.parent (h : u.Leads x r) : u.Leads (u.parentOf x) r := by
  cases h with
  | root hroot =>
    rw [hroot]
    exact .root hroot
  | step hne h => exact h

theorem Leads.of_parent (h : u.Leads (u.parentOf x) r) : u.Leads x r := by
  by_cases hroot : u.parentOf x = x
  · rwa [hroot] at h
  · exact .step hroot h

theorem Leads.is_root (h : u.Leads x r) : u.parentOf r = r := by
  induction h with
  | root hroot => exact hroot
  | step hne h ih => exact ih

theorem Leads.eq_of_root (h : u.Leads x r) (hroot : u.parentOf x = x) : x = r := by
  cases h with
  | root => rfl
  | step hne h => exact absurd hroot hne

/-- Halving a path does not change its end. -/
theorem Leads.halve (h : u.Leads y r) (x : String) :
    (⟨u.parent.set x (u.parentOf (u.parentOf x))⟩ : UnionFind).Leads y r := by
  induction h with
  | root hroot =>
    refine .root ?_
    rw [parentOf_set]
    split
    · rename_i heq
      rw [← heq, hroot, hroot]
    · exact hroot
  | step hne h ih =>
    refine .of_parent ?_
    rw [parentOf_set]
    split
    · -- the element that skips its parent
      rename_i heq
      have hup := ih.parent
      rw [heq] at hne hup
      rwa [parentOf_set, if_neg hne] at hup
    · exact ih

theorem Leads.findFrom (h : u.Leads y r) (fuel : Nat) (x : String) :
    (findFrom fuel u x).2.Leads y r := by
  induction fuel generalizing u x with
  | zero => exact h
  | succ fuel ih =>
    rw [UnionFind.findFrom]
    split
    · exact h
    · exact ih (h.halve x) _

/-- Where the loop stands leads to the same root. -/
theorem Leads.findFrom_fst (h : u.Leads x r) (fuel : Nat) :
    (UnionFind.findFrom fuel u x).2.Leads (UnionFind.findFrom fuel u x).1 r := by
  induction fuel generalizing u x with
  | zero => exact h
  | succ fuel ih =>
    rw [UnionFind.findFrom]
    split
    · exact h
    · have hup := (h.halve x).parent
      rw [parentOf_set, if_pos rfl] at hup
      exact ih hup

/-- **A search finds the root that an element leads to.** -/
theorem Leads.find_eq (h : u.Leads x r) (hu : u.Descends) : (u.find x).1 = r :=
  (h.findFrom_fst _).eq_of_root (hu.find_root x)

theorem find_of_root (hroot : u.parentOf x = x) : u.find x = (x, u) := by
  rw [find, findFrom, if_pos hroot]

/-- The union of two roots: the larger is pointed at the smaller. -/
theorem union_roots (hr : u.parentOf r = r) (hr' : u.parentOf r' = r') (hne : r ≠ r') :
    u.union r r' = (r', ⟨u.parent.set r r'⟩) ∨ u.union r r' = (r, ⟨u.parent.set r' r⟩) := by
  rw [union, find_of_root hr]
  dsimp only
  rw [find_of_root hr', if_neg hne]
  split
  · exact Or.inl rfl
  · exact Or.inr rfl

/-- A root that is pointed at another takes its elements along. -/
theorem Leads.attach {root other : String} (h : u.Leads y r) (hroot : u.parentOf root = root)
    (hother : u.parentOf other = other) (hne : root ≠ other) :
    (⟨u.parent.set other root⟩ : UnionFind).Leads y (if r = other then root else r) := by
  induction h with
  | root hr =>
    split
    · rename_i heq
      refine .of_parent ?_
      rw [parentOf_set, if_pos heq]
      refine .root ?_
      rw [parentOf_set, if_neg hne, hroot]
    · rename_i hneq
      refine .root ?_
      rw [parentOf_set, if_neg hneq, hr]
  | step hmoves h ih =>
    refine .of_parent ?_
    rw [parentOf_set, if_neg]
    · exact ih
    · rintro rfl
      exact hmoves hother

theorem ofEntities_parentOf {entities : List String} (h : x ∈ entities) :
    (ofEntities entities).parentOf x = x := by
  have hfold : ∀ (entities : List String) (parent : OrdMap String String),
      x ∈ entities ∨ parent.get x = some x →
        (entities.foldl (fun parent e => parent.set e e) parent).get x = some x := by
    intro entities
    induction entities with
    | nil => exact fun parent h => h.resolve_left List.not_mem_nil
    | cons e entities ih =>
      intro parent h
      refine ih _ ?_
      rw [OrdMap.get_set]
      by_cases heq : x = e
      · rw [if_pos heq, heq]
        exact Or.inr rfl
      · rw [if_neg heq]
        exact h.imp_left fun hin => (List.mem_cons.mp hin).resolve_left heq
  rw [parentOf, ofEntities, hfold entities ∅ (Or.inl h)]
  rfl

end UnionFind

/-! ## The two views of the clusters agree -/

theorem orderedKey_comm (a b : String) : orderedKey a b = orderedKey b a := by
  rw [orderedKey, orderedKey]
  rcases lt_trichotomy a b with hlt | rfl | hgt
  · rw [if_neg (not_lt.mpr hlt.le), if_pos hlt]
  · rfl
  · rw [if_pos hgt, if_neg (not_lt.mpr hgt.le)]

section Linkage

variable {F : Type} {entities : List String} {cannot : List (String × String)}
  {root root' : String → String} {c : Clustering} {edge : SignedEdge F}

/-- The state of a linkage, with the root of each entity. -/
structure Linked (entities : List String) (cannot : List (String × String))
    (root : String → String) (c : Clustering) : Prop where
  descends : c.uf.Descends
  leads : ∀ x ∈ entities, c.uf.Leads x (root x)
  members : ∀ r l, c.members.get r = some l → l ≠ [] ∧ ∀ x, x ∈ l ↔ x ∈ entities ∧ root x = r
  listed : ∀ x ∈ entities, c.members.has (root x) = true
  apart : ∀ x ∈ entities, ∀ y ∈ entities, root x = root y → x ≠ y → orderedKey x y ∉ cannot

/-- The ends of the edge share a cluster, or an entity of the one cluster is kept apart from one
of the other. -/
def Answered (entities : List String) (cannot : List (String × String)) (root : String → String)
    (edge : SignedEdge F) : Prop :=
  root edge.a ≠ root edge.b → ∃ x ∈ entities, ∃ y ∈ entities,
    root x = root edge.a ∧ root y = root edge.b ∧ orderedKey x y ∈ cannot

/-- The clusters only grow. -/
def Coarser (root root' : String → String) : Prop := ∀ x y, root x = root y → root' x = root' y

/-- What kept an edge out is still there when the clusters have grown. -/
theorem Answered.mono (h : Answered entities cannot root edge) (hgrow : Coarser root root') :
    Answered entities cannot root' edge := by
  intro hne
  obtain ⟨x, hx, y, hy, hxa, hyb, hkey⟩ := h fun heq => hne (hgrow _ _ heq)
  exact ⟨x, hx, y, hy, hgrow _ _ hxa, hgrow _ _ hyb, hkey⟩

/-- In the beginning every entity is a cluster of its own, so that no two that may not be linked are
in one. -/
theorem Linked.start (entities : List String) (cannot : List (String × String)) :
    Linked entities cannot id (.start entities) := by
  have hfold : ∀ (rest : List String) (members : OrdMap String (List String)) (r : String),
      (rest.foldl (fun members e => members.set e [e]) members).get r =
        if r ∈ rest then some [r] else members.get r := by
    intro rest
    induction rest with
    | nil => exact fun members r => (if_neg List.not_mem_nil).symm
    | cons e rest ih =>
      intro members r
      rw [List.foldl_cons, ih, OrdMap.get_set]
      by_cases hin : r ∈ rest
      · rw [if_pos hin, if_pos (List.mem_cons_of_mem _ hin)]
      · by_cases heq : r = e
        · rw [if_neg hin, if_pos heq, heq, if_pos List.mem_cons_self]
        · rw [if_neg hin, if_neg heq, if_neg]
          exact fun h => (List.mem_cons.mp h).elim heq hin
  have hget : ∀ r, (Clustering.start entities).members.get r =
      if r ∈ entities then some [r] else none := fun r => hfold entities ∅ r
  refine ⟨.ofEntities entities, fun x hx => .root (UnionFind.ofEntities_parentOf hx), ?_, ?_, ?_⟩
  · intro r l hl
    rw [hget] at hl
    split at hl
    · rename_i hr
      rw [← Option.some.inj hl]
      refine ⟨List.cons_ne_nil _ _, fun x => ?_⟩
      rw [List.mem_singleton]
      exact ⟨fun heq => ⟨heq ▸ hr, heq⟩, And.right⟩
    · cases hl
  · intro x hx
    rw [OrdMap.has, id, hget, if_pos hx]
    rfl
  · exact fun x _ y _ heq hne => absurd heq hne

variable {r x into other : String}

theorem Linked.mem_membersOf (h : Linked entities cannot root c) :
    x ∈ c.membersOf r ↔ x ∈ entities ∧ root x = r := by
  rw [Clustering.membersOf]
  cases hget : c.members.get r with
  | none =>
    refine ⟨fun hin => absurd hin List.not_mem_nil, ?_⟩
    rintro ⟨hx, rfl⟩
    have hhas := h.listed x hx
    rw [OrdMap.has, hget] at hhas
    cases hhas
  | some l => exact (h.members r l hget).2 x

/-- Two clusters are kept apart if any two of their members are. -/
theorem Linked.cannotMerge_iff (h : Linked entities cannot root c) {r' : String} :
    c.cannotMerge cannot r r' = true ↔ ∃ x ∈ entities, ∃ y ∈ entities,
      root x = r ∧ root y = r' ∧ orderedKey x y ∈ cannot := by
  rw [Clustering.cannotMerge, List.any_eq_true]
  constructor
  · rintro ⟨x, hx, hany⟩
    obtain ⟨y, hy, hkey⟩ := List.any_eq_true.mp hany
    obtain ⟨hxin, hxr⟩ := h.mem_membersOf.mp hx
    obtain ⟨hyin, hyr⟩ := h.mem_membersOf.mp hy
    exact ⟨x, hxin, y, hyin, hxr, hyr, List.contains_iff_mem.mp hkey⟩
  · rintro ⟨x, hx, y, hy, hxr, hyr, hkey⟩
    refine ⟨x, h.mem_membersOf.mpr ⟨hx, hxr⟩, List.any_eq_true.mpr ⟨y, ?_, ?_⟩⟩
    · exact h.mem_membersOf.mpr ⟨hy, hyr⟩
    · exact List.contains_iff_mem.mpr hkey

/-- A search changes the parents and nothing else. -/
theorem Linked.find (h : Linked entities cannot root c) (x : String) :
    Linked entities cannot root { c with uf := (c.uf.find x).2 } where
  descends := h.descends.findFrom _ x
  leads y hy := (h.leads y hy).findFrom _ x
  members := h.members
  listed := h.listed
  apart := h.apart

/-- The roots after the cluster `other` has joined the cluster `into`. -/
def joined (root : String → String) (into other : String) (x : String) : String :=
  if root x = other then into else root x

theorem joined_coarser (root : String → String) (into other : String) :
    Coarser root (joined root into other) := by
  intro x y heq
  rw [joined, joined, heq]

theorem joined_eq_into : joined root into other x = into ↔ root x = into ∨ root x = other := by
  rw [joined]
  split
  · rename_i heq
    exact ⟨fun _ => Or.inr heq, fun _ => rfl⟩
  · rename_i hneq
    exact ⟨Or.inl, fun h => h.resolve_right hneq⟩

/-- A root that took no part keeps its entities. -/
theorem joined_eq_of_ne (hinto : r ≠ into) (hother : r ≠ other) :
    joined root into other x = r ↔ root x = r := by
  rw [joined]
  split
  · rename_i heq
    exact ⟨fun h => absurd h.symm hinto, fun h => absurd (h.symm.trans heq) hother⟩
  · exact Iff.rfl

/-- One cluster joins another. -/
theorem Linked.join (h : Linked entities cannot root c) (hne : into ≠ other)
    (hinto : c.members.has into = true)
    (hfree : ∀ x ∈ entities, ∀ y ∈ entities, root x = into → root y = other →
      orderedKey x y ∉ cannot) {uf : UnionFind} (hdescends : uf.Descends)
    (hleads : ∀ x ∈ entities, uf.Leads x (joined root into other x)) :
    Linked entities cannot (joined root into other)
      { uf := uf
        members := (c.members.set into (c.membersOf into ++ c.membersOf other)).erase other } := by
  have hget : ∀ r, ((c.members.set into (c.membersOf into ++ c.membersOf other)).erase other).get r
      = if r = other then none
        else if r = into then some (c.membersOf into ++ c.membersOf other)
        else c.members.get r := by
    intro r
    rw [OrdMap.get_erase, OrdMap.get_set]
  refine ⟨hdescends, hleads, ?_, ?_, ?_⟩
  · intro r l hl
    rw [hget] at hl
    split at hl
    · cases hl
    rename_i hother
    split at hl
    · rename_i hr
      subst hr
      rw [← Option.some.inj hl]
      refine ⟨fun hnil => ?_, fun x => ?_⟩
      · obtain ⟨l₀, hl₀⟩ := OrdMap.has_iff.mp hinto
        rw [Clustering.membersOf, hl₀, Option.getD_some] at hnil
        exact (h.members r l₀ hl₀).1 (List.append_eq_nil_iff.mp hnil).1
      · rw [List.mem_append, h.mem_membersOf, h.mem_membersOf, joined_eq_into, and_or_left]
    · rename_i hr
      refine ⟨(h.members r l hl).1, fun x => ?_⟩
      rw [(h.members r l hl).2 x, joined_eq_of_ne hr hother]
  · intro x hx
    rw [OrdMap.has, hget]
    by_cases hother : root x = other
    · rw [joined, if_pos hother, if_neg hne, if_pos rfl]
      rfl
    · rw [joined, if_neg hother, if_neg hother]
      split
      · rfl
      · exact h.listed x hx
  · intro x hx y hy heq hxy
    by_cases hsame : root x = root y
    · exact h.apart x hx y hy hsame hxy
    -- otherwise one of the two came from each cluster
    rw [joined, joined] at heq
    split at heq
    · rename_i hxo
      rw [if_neg fun hyo => hsame (hxo.trans hyo.symm)] at heq
      rw [orderedKey_comm]
      exact hfree y hy x hx heq.symm hxo
    · split at heq
      · rename_i hyo
        exact hfree x hx y hy heq hyo
      · exact absurd heq hsame

/-! ## One edge, and all of them -/

/-- **One edge of the linkage**: the clusters stay clusters, they only grow, and the edge is
settled. -/
theorem Clustering.link_spec (h : Linked entities cannot root c) (ha : edge.a ∈ entities)
    (hb : edge.b ∈ entities) : ∃ root', Linked entities cannot root' (c.link cannot edge) ∧
      Coarser root root' ∧ Answered entities cannot root' edge := by
  have hfound := (h.find edge.a).find edge.b
  have hra : (c.uf.find edge.a).1 = root edge.a := (h.leads _ ha).find_eq h.descends
  have hrb : ((c.uf.find edge.a).2.find edge.b).1 = root edge.b :=
    ((h.find edge.a).leads _ hb).find_eq (h.find edge.a).descends
  rw [Clustering.link]
  dsimp only
  rw [hra, hrb]
  split
  · rename_i hstays
    refine ⟨root, hfound, fun _ _ heq => heq, fun hne => ?_⟩
    exact h.cannotMerge_iff.mp (hstays.resolve_left hne)
  rename_i hmerge
  rw [not_or] at hmerge
  obtain ⟨hne, hfree⟩ : root edge.a ≠ root edge.b ∧ _ := hmerge
  rw [h.cannotMerge_iff] at hfree
  have hroota := (hfound.leads _ ha).is_root
  have hrootb := (hfound.leads _ hb).is_root
  have hdescends := hfound.descends.union (root edge.a) (root edge.b)
  -- whichever root gives way, both ends have the other one afterwards
  have hends : ∀ into other, (root edge.a = into ∨ root edge.a = other) →
      (root edge.b = into ∨ root edge.b = other) →
        Answered entities cannot (joined root into other) edge := by
    intro into other hina hinb hdiff
    exact absurd ((joined_eq_into.mpr hina).trans (joined_eq_into.mpr hinb).symm) hdiff
  rcases UnionFind.union_roots hroota hrootb hne with hunion | hunion
  · rw [hunion] at hdescends ⊢
    rw [if_neg hne.symm]
    refine ⟨_, h.join hne.symm (h.listed _ hb) ?_ hdescends fun x hx => ?_,
      joined_coarser _ _ _, hends _ _ (Or.inr rfl) (Or.inl rfl)⟩
    · intro x hx y hy hxr hyr hkey
      exact hfree ⟨y, hy, x, hx, hyr, hxr, orderedKey_comm x y ▸ hkey⟩
    · exact (hfound.leads x hx).attach hrootb hroota hne.symm
  · rw [hunion] at hdescends ⊢
    rw [if_pos rfl]
    refine ⟨_, h.join hne (h.listed _ ha) ?_ hdescends fun x hx => ?_,
      joined_coarser _ _ _, hends _ _ (Or.inl rfl) (Or.inr rfl)⟩
    · intro x hx y hy hxr hyr hkey
      exact hfree ⟨x, hx, y, hy, hxr, hyr, hkey⟩
    · exact (hfound.leads x hx).attach hroota hrootb hne

/-- **All edges**: every one of them is settled in the end. -/
theorem Clustering.linkAll_spec (edges : List (SignedEdge F))
    (hends : ∀ e ∈ edges, e.a ∈ entities ∧ e.b ∈ entities) (h : Linked entities cannot root c) :
    ∃ root', Linked entities cannot root' (edges.foldl (Clustering.link cannot) c) ∧
      Coarser root root' ∧ ∀ e ∈ edges, Answered entities cannot root' e := by
  induction edges generalizing root c with
  | nil => exact ⟨root, h, fun _ _ heq => heq, fun e he => absurd he List.not_mem_nil⟩
  | cons edge edges ih =>
    obtain ⟨ha, hb⟩ := hends edge List.mem_cons_self
    obtain ⟨mid, hmid, hgrow, hedge⟩ := Clustering.link_spec h ha hb
    obtain ⟨root', hroot', hgrow', hrest⟩ :=
      ih (fun e he => hends e (List.mem_cons_of_mem _ he)) hmid
    refine ⟨root', hroot', fun x y heq => hgrow' _ _ (hgrow _ _ heq), fun e he => ?_⟩
    rcases List.mem_cons.mp he with rfl | he
    · exact hedge.mono hgrow'
    · exact hrest e he

/-! ## The clusters that come out -/

section Clusters

variable [LE F] [DecidableLE F] [LT F] [DecidableLT F] [DecidableEq F]

/-- The lists of members under their roots, each sorted, in the order of their first members. -/
def Clustering.grouped (c : Clustering) : List (List String) :=
  sliceStable (fun x y => decide (x.headD "" < y.headD ""))
    (c.members.entries.map fun item => sortStrings item.2)

theorem mem_sortStrings {l : List String} {x : String} : x ∈ sortStrings l ↔ x ∈ l :=
  List.mem_insertionSort _

/-- A cluster that comes out has all the entities of one root. -/
theorem Linked.of_mem_grouped (h : Linked entities cannot root c) {l : List String}
    (hl : l ∈ c.grouped) : l ≠ [] ∧ ∃ r, ∀ x, x ∈ l ↔ x ∈ entities ∧ root x = r := by
  rw [Clustering.grouped, mem_sliceStable, List.mem_map] at hl
  obtain ⟨⟨r, l₀⟩, hin, rfl⟩ := hl
  obtain ⟨hne, hmem⟩ := h.members r l₀ (OrdMap.mem_entries_iff.mp hin)
  refine ⟨fun hnil => hne ?_, r, fun x => mem_sortStrings.trans (hmem x)⟩
  exact (List.nil_perm.mp (hnil ▸ List.perm_insertionSort (· ≤ ·) l₀))

/-- Every entity comes out. -/
theorem Linked.exists_grouped (h : Linked entities cannot root c) {x : String}
    (hx : x ∈ entities) : ∃ l ∈ c.grouped, x ∈ l := by
  obtain ⟨l₀, hget⟩ := OrdMap.has_iff.mp (h.listed x hx)
  refine ⟨sortStrings l₀, ?_, mem_sortStrings.mpr (((h.members _ l₀ hget).2 x).mpr ⟨hx, rfl⟩)⟩
  rw [Clustering.grouped, mem_sliceStable, List.mem_map]
  exact ⟨(root x, l₀), OrdMap.mem_entries_iff.mpr hget, rfl⟩

/-- No two positions hold the same entity. -/
theorem Linked.disjoint_grouped (h : Linked entities cannot root c) :
    c.grouped.Pairwise List.Disjoint := by
  refine ((List.perm_insertionSort _ _).pairwise_iff fun h => h.symm).mpr ?_
  rw [List.pairwise_map]
  refine c.members.sorted.imp_of_mem fun {p q} hp hq hlt x hx hx' => ?_
  obtain ⟨-, hmemp⟩ := h.members p.1 p.2 (OrdMap.mem_entries_iff.mp hp)
  obtain ⟨-, hmemq⟩ := h.members q.1 q.2 (OrdMap.mem_entries_iff.mp hq)
  have hrp := ((hmemp x).mp (mem_sortStrings.mp hx)).2
  have hrq := ((hmemq x).mp (mem_sortStrings.mp hx')).2
  exact hlt.ne (hrp.symm.trans hrq)

theorem headD_mem {l : List String} (h : l ≠ []) : l.headD "" ∈ l := by
  cases l with
  | nil => exact absurd rfl h
  | cons e l => exact List.mem_cons_self

/-- The clusters are in the order of their first members, and no two have the same. -/
theorem Linked.ordered_grouped (h : Linked entities cannot root c) :
    c.grouped.Pairwise fun x y => x.headD "" < y.headD "" := by
  have hsorted : c.grouped.Pairwise (KeyLe fun l => l.headD "") := List.pairwise_insertionSort _ _
  refine (hsorted.and h.disjoint_grouped).imp_of_mem fun {x y} hx hy hxy => ?_
  refine lt_of_le_of_ne (keyLe_iff.mp hxy.1) fun heq => ?_
  refine hxy.2 (headD_mem (h.of_mem_grouped hx).1) ?_
  rw [heq]
  exact headD_mem (h.of_mem_grouped hy).1

/-- A partition of the entities that keeps the vetoed ones apart and cannot be made coarser along
the edges. -/
structure ConstrainedPartition (entities : List String) (positive : List (SignedEdge F))
    (cannot : List (String × String)) (grouped : List (List String)) : Prop where
  partition : grouped.flatten.Perm entities
  nonempty : ∀ members ∈ grouped, members ≠ []
  sorted : ∀ members ∈ grouped, members.Pairwise (· < ·)
  ordered : grouped.Pairwise fun x y => x.headD "" < y.headD ""
  apart : ∀ members ∈ grouped, ∀ x ∈ members, ∀ y ∈ members, x ≠ y → orderedKey x y ∉ cannot
  maximal : ∀ edge ∈ positive, ∀ members ∈ grouped, ∀ others ∈ grouped, edge.a ∈ members →
    edge.b ∈ others → members ≠ others → ∃ x ∈ members, ∃ y ∈ others, orderedKey x y ∈ cannot

/-- **Constrained linkage**: the clusters partition the entities, sorted and in order; none holds
a cannot-link pair, and every edge between two clusters has one in its way. -/
theorem linkage_partitions (entities : List String) (positive : List (SignedEdge F))
    (cannot : List (String × String)) (hentities : entities.Nodup)
    (hends : ∀ e ∈ positive, e.a ∈ entities ∧ e.b ∈ entities) :
    ConstrainedPartition entities positive cannot
      (clusterByConstrainedLinkage entities positive cannot) := by
  obtain ⟨root, h, -, hkept⟩ := Clustering.linkAll_spec (sliceStable strongerEdge positive)
    (fun e he => hends e (mem_sliceStable.mp he)) (Linked.start entities cannot)
  have hgrouped := clusterByConstrainedLinkage_grouped entities positive cannot
  refine ⟨?_, fun l hl => (h.of_mem_grouped hl).1, ?_, h.ordered_grouped, ?_, ?_⟩
  · refine (List.perm_ext_iff_of_nodup (List.nodup_flatten.mpr ⟨hgrouped.nodup, ?_⟩)
      hentities).mpr fun x => ?_
    · exact h.disjoint_grouped
    rw [List.mem_flatten]
    refine ⟨?_, h.exists_grouped⟩
    rintro ⟨l, hl, hx⟩
    obtain ⟨-, r, hmem⟩ := h.of_mem_grouped hl
    exact ((hmem x).mp hx).1
  · intro l hl
    have hnodup := hgrouped.nodup l hl
    rw [clusterByConstrainedLinkage, mem_sliceStable, List.mem_map] at hl
    obtain ⟨item, -, rfl⟩ := hl
    have hsorted : (sortStrings item.2).Pairwise (· ≤ ·) := List.pairwise_insertionSort _ _
    exact (hsorted.and hnodup).imp fun hle => lt_of_le_of_ne hle.1 hle.2
  · intro l hl x hx y hy hxy
    obtain ⟨-, r, hmem⟩ := h.of_mem_grouped hl
    obtain ⟨hxin, hxr⟩ := (hmem x).mp hx
    obtain ⟨hyin, hyr⟩ := (hmem y).mp hy
    exact h.apart x hxin y hyin (hxr.trans hyr.symm) hxy
  · intro edge hedge l hl l' hl' ha hb hne
    obtain ⟨-, r, hmem⟩ := h.of_mem_grouped hl
    obtain ⟨-, r', hmem'⟩ := h.of_mem_grouped hl'
    obtain ⟨-, hra⟩ := (hmem _).mp ha
    obtain ⟨hbin, hrb⟩ := (hmem' _).mp hb
    have hroots : root edge.a ≠ root edge.b := by
      intro heq
      have hin : edge.b ∈ l := (hmem _).mpr ⟨hbin, heq.symm.trans hra⟩
      exact hne (hgrouped.once l hl l' hl' _ hin hb)
    obtain ⟨x, hx, y, hy, hxr, hyr, hkey⟩ := hkept edge (mem_sliceStable.mpr hedge) hroots
    exact ⟨x, (hmem x).mpr ⟨hx, hxr.trans hra⟩, y, (hmem' y).mpr ⟨hy, hyr.trans hrb⟩, hkey⟩

/-- Of the two edges of `b`, the stronger one is taken, and the veto between `a` and `c` keeps the
other one out. -/
theorem linkage_partitions_three : ConstrainedPartition ["a", "b", "c"]
    [(⟨"a", "b", 2, false⟩ : SignedEdge Nat), ⟨"b", "c", 1, false⟩] [("a", "c")]
    (clusterByConstrainedLinkage ["a", "b", "c"] [⟨"a", "b", 2, false⟩, ⟨"b", "c", 1, false⟩]
      [("a", "c")]) :=
  linkage_partitions _ _ _ (by decide) (by decide)

example : clusterByConstrainedLinkage ["a", "b", "c"]
    [(⟨"a", "b", 2, false⟩ : SignedEdge Nat), ⟨"b", "c", 1, false⟩] [("a", "c")] =
      [["a", "b"], ["c"]] := by
  decide +kernel

end Clusters

end Linkage

end Gmeow
