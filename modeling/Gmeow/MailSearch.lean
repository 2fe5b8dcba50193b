import Gmeow.Resolution

/-!
# Fused mail search

`MailSearch` asks the local index and the live backends at once and fuses their results as they
arrive: a result replaces what is known of its object only if its score is greater. What comes later
with a score that is not greater is dropped, with all it says; and objects with the same score stay
in the order of a map.

* `fuse`, `mergeSearchResult` — the results of one object;
* `mailSearch` — the search, with the answers in the order of arrival and the fused results in the
  order of enumeration;
* `Agreeing` — the best result of an object says all that the others say; `Ranked` — two objects
  with the same best score are both behind the limit;
* `mailSearch_order_free` — then no order matters;
* `mailSearch_depends_on_arrival` — two answers about one message.
-/

namespace Gmeow.MailSearch

/-! ## The search -/

/-- `ObjectSearchResult`; structure, provenance and messages are not looked into. -/
@[ext]
structure SearchResult (A S P M F : Type) : Type where
  objectDigest : String
  title : String
  snippet : String
  score : F
  facets : List String
  analysisPending : Bool
  projectionPending : Bool
  attributes : OrdMap String A
  structureOf : Option S
  provenance : List P
  message : Option M

/-- `unionStrings`. -/
def unionStrings (left right : List String) : List String :=
  sortStrings ((left ++ right).filter fun value => decide (value ≠ "")).dedup

variable {A S P M F E : Type} [LinearOrder F]

/-- `mergeSearchResult`. -/
def mergeSearchResult (existing next : SearchResult A S P M F) : SearchResult A S P M F :=
  if existing.objectDigest = "" then next
  else
    { existing with
      title := if next.title ≠ "" then next.title else existing.title
      snippet := if next.snippet ≠ "" then next.snippet else existing.snippet
      score := if existing.score < next.score then next.score else existing.score
      facets := unionStrings existing.facets next.facets
      analysisPending := existing.analysisPending || next.analysisPending
      projectionPending := existing.projectionPending || next.projectionPending
      attributes := existing.attributes.merge next.attributes
      structureOf := existing.structureOf.or next.structureOf
      provenance := if existing.provenance.isEmpty then next.provenance else existing.provenance }

/-- One result; where there is none for its object, it is merged into the zero value. -/
def fuse (fused : OrdMap String (SearchResult A S P M F)) (result : SearchResult A S P M F) :
    OrdMap String (SearchResult A S P M F) :=
  match fused.get result.objectDigest with
  | none => fused.set result.objectDigest result
  | some existing =>
    if existing.score < result.score then
      fused.set result.objectDigest (mergeSearchResult existing result)
    else fused

/-- One answer; those that fail have no results. -/
def fuseItem (state : Option E × OrdMap String (SearchResult A S P M F))
    (item : Except E (List (SearchResult A S P M F))) :
    Option E × OrdMap String (SearchResult A S P M F) :=
  match item with
  | .error e => (state.1.or (some e), state.2)
  | .ok results => (state.1, results.foldl fuse state.2)

/-- The first error, and the fused results. -/
def fuseItems (items : List (Except E (List (SearchResult A S P M F)))) :
    Option E × OrdMap String (SearchResult A S P M F) :=
  items.foldl fuseItem (none, ∅)

/-- The fused results are sorted, cut off and given their messages. -/
def finish (limit : Int) (message : String → Option M) (values : List (SearchResult A S P M F)) :
    List (SearchResult A S P M F) :=
  let sorted := values.insertionSort fun a b => b.score ≤ a.score
  let kept := if 0 < limit then sorted.take limit.toNat else sorted
  kept.map fun result =>
    match message result.objectDigest with
    | none => result
    | some found => { result with message := some found }

/-- **`MailSearch`**, with the answers as they arrive and the fused results as they are
enumerated. -/
def mailSearch (limit : Int) (message : String → Option M)
    (items : List (Except E (List (SearchResult A S P M F))))
    (values : List (SearchResult A S P M F)) : Except E (List (SearchResult A S P M F)) :=
  match (fuseItems items).1 with
  | none => .ok (finish limit message values)
  | some e => if values.isEmpty then .error e else .ok (finish limit message values)

/-- An enumeration of the fused results. -/
def Enumeration (items : List (Except E (List (SearchResult A S P M F))))
    (values : List (SearchResult A S P M F)) : Prop :=
  values.Perm ((fuseItems items).2.entries.map Prod.snd)

/-! ## Merging -/

theorem mem_unionStrings {left right : List String} {value : String} :
    value ∈ unionStrings left right ↔ value ≠ "" ∧ (value ∈ left ∨ value ∈ right) := by
  rw [unionStrings, sortStrings, (List.perm_insertionSort _ _).mem_iff, List.mem_dedup,
    List.mem_filter, List.mem_append, decide_eq_true_eq, and_comm]

/-- A union is told by its members. -/
theorem unionStrings_congr {left left' right : List String}
    (h : ∀ value, value ≠ "" → (value ∈ left ∨ value ∈ right ↔ value ∈ left' ∨ value ∈ right)) :
    unionStrings left right = unionStrings left' right := by
  refine List.Perm.eq_of_pairwise' (List.pairwise_insertionSort _ _)
    (List.pairwise_insertionSort _ _) ?_
  refine (List.perm_insertionSort _ _).trans (List.Perm.trans ?_ (List.perm_insertionSort _ _).symm)
  refine (List.perm_ext_iff_of_nodup (List.nodup_dedup _) (List.nodup_dedup _)).mpr fun value => ?_
  simp only [List.mem_dedup, List.mem_filter, List.mem_append, decide_eq_true_eq]
  exact and_congr_left fun hne => h value hne

/-- What a better result says already adds nothing to it, also by way of another such. -/
theorem merge_merge {v r c : SearchResult A S P M F} (hsame : r.objectDigest = v.objectDigest)
    (hv : mergeSearchResult v c = c) (hr : mergeSearchResult r c = c) (hlt : r.score < c.score) :
    mergeSearchResult (mergeSearchResult v r) c = c := by
  by_cases hempty : v.objectDigest = ""
  · rwa [mergeSearchResult.eq_def v r, if_pos hempty]
  have hempty' : r.objectDigest ≠ "" := hsame ▸ hempty
  have hmerged : (mergeSearchResult v r).objectDigest ≠ "" := by
    rw [mergeSearchResult, if_neg hempty]
    exact hempty
  rw [mergeSearchResult, if_neg hempty] at hv
  rw [mergeSearchResult, if_neg hempty'] at hr
  rw [mergeSearchResult, if_neg hmerged, mergeSearchResult, if_neg hempty]
  rw [SearchResult.ext_iff] at hv hr ⊢
  dsimp only at hv hr ⊢
  obtain ⟨hv1, hv2, hv3, hv4, hv5, hv6, hv7, hv8, hv9, hv10, hv11⟩ := hv
  obtain ⟨-, hr2, hr3, -, hr5, hr6, hr7, hr8, hr9, hr10, -⟩ := hr
  refine ⟨hv1, ?_, ?_, ?_, ?_, ?_, ?_, ?_, ?_, ?_, hv11⟩
  · grind only
  · grind only
  · grind only
  · refine (unionStrings_congr fun value hne => ?_).trans hv5
    have hsub : value ∈ r.facets → value ∈ c.facets := fun hmem => by
      rw [← hr5]
      exact mem_unionStrings.mpr ⟨hne, Or.inl hmem⟩
    rw [mem_unionStrings]
    tauto
  · grind only
  · grind only
  · refine OrdMap.ext_get fun key => ?_
    have hgetv := congrArg (OrdMap.get · key) hv8
    have hgetr := congrArg (OrdMap.get · key) hr8
    rw [OrdMap.get_merge] at hgetv hgetr
    rw [OrdMap.get_merge, OrdMap.get_merge]
    cases hc : c.attributes.get key with
    | some value => rfl
    | none =>
      rw [hc, Option.none_or] at hgetv hgetr
      rw [Option.none_or, hgetr, hgetv, Option.none_or]
  · cases hs : v.structureOf with
    | none => rwa [Option.none_or]
    | some found => rwa [Option.some_or, ← hs]
  · grind only

/-! ## Fusing -/

/-- The results of all answers. -/
def allResults (items : List (Except E (List (SearchResult A S P M F)))) :
    List (SearchResult A S P M F) :=
  items.flatMap fun item => item.toOption.getD []

/-- A best result of its object. -/
def IsBest (results : List (SearchResult A S P M F)) (c : SearchResult A S P M F) : Prop :=
  c ∈ results ∧ ∀ r ∈ results, r.objectDigest = c.objectDigest → r.score ≤ c.score

/-- **The best result of an object says all that the others say.** -/
def Agreeing (results : List (SearchResult A S P M F)) : Prop :=
  ∀ c, IsBest results c → ∀ r ∈ results, r.objectDigest = c.objectDigest →
    r = c ∨ r.score < c.score ∧ mergeSearchResult r c = c

/-- The objects with a result above a score. -/
def betterThan (results : List (SearchResult A S P M F)) (score : F) : List String :=
  ((results.filter fun r => decide (score < r.score)).map SearchResult.objectDigest).dedup

/-- **Two objects with the same best score are both behind the limit.** -/
def Ranked (limit : Int) (results : List (SearchResult A S P M F)) : Prop :=
  ∀ a b, IsBest results a → IsBest results b → a.score = b.score →
    a.objectDigest = b.objectDigest ∨
      0 < limit ∧ limit ≤ ((betterThan results a.score).length : Int)

section Fusing

variable {results : List (SearchResult A S P M F)} {c : SearchResult A S P M F}

/-- On the way to the best result. -/
def Towards (c v : SearchResult A S P M F) : Prop :=
  v = c ∨ v.objectDigest = c.objectDigest ∧ v.score < c.score ∧ mergeSearchResult v c = c

variable {fused : OrdMap String (SearchResult A S P M F)} {r : SearchResult A S P M F}
  {key : String} {rs : List (SearchResult A S P M F)}

/-- A result of another object changes nothing. -/
theorem get_fuse_ne (hne : key ≠ r.objectDigest) : (fuse fused r).get key = fused.get key := by
  rw [fuse]
  cases fused.get r.objectDigest with
  | none => exact OrdMap.get_set_ne _ _ hne
  | some existing =>
    dsimp only
    split
    · exact OrdMap.get_set_ne _ _ hne
    · rfl

/-- One result of the object. -/
theorem towards_fuse (hsame : r.objectDigest = c.objectDigest)
    (hr : r = c ∨ r.score < c.score ∧ mergeSearchResult r c = c)
    (h : ∀ v, fused.get c.objectDigest = some v → Towards c v) :
    ∃ v, (fuse fused r).get c.objectDigest = some v ∧ Towards c v ∧
      (r = c ∨ fused.get c.objectDigest = some c → v = c) := by
  have htowards : Towards c r := by
    rcases hr with rfl | hr
    · exact Or.inl rfl
    · exact Or.inr ⟨hsame, hr⟩
  rw [fuse, hsame]
  cases hget : fused.get c.objectDigest with
  | none =>
    refine ⟨r, OrdMap.get_set_self _ _ _, htowards, ?_⟩
    rintro (h | h)
    · exact h
    · cases h
  | some v =>
    dsimp only
    rcases h v hget with rfl | ⟨hdigest, hless, habsorbed⟩
    · have hle : ¬v.score < r.score := by
        rcases hr with rfl | hr
        · exact lt_irrefl _
        · exact hr.1.not_gt
      rw [if_neg hle]
      exact ⟨v, hget, Or.inl rfl, fun _ => rfl⟩
    · split
      · refine ⟨_, OrdMap.get_set_self _ _ _, ?_, ?_⟩
        · rcases hr with rfl | hr
          · exact Or.inl habsorbed
          · rename_i hgreater
            refine Or.inr ⟨?_, ?_, merge_merge (hsame.trans hdigest.symm) habsorbed hr.2 hr.1⟩
            · rw [mergeSearchResult]
              split
              · exact hsame
              · exact hdigest
            · rw [mergeSearchResult]
              split
              · exact hr.1
              · exact hr.1
        · rintro (rfl | hc)
          · exact habsorbed
          · rw [Option.some.inj hc] at hless
            exact absurd hless (lt_irrefl _)
      · rename_i hle
        refine ⟨v, hget, Or.inr ⟨hdigest, hless, habsorbed⟩, ?_⟩
        rintro (rfl | hc)
        · exact absurd hless hle
        · exact Option.some.inj hc

/-- The best result is what is left of its object. -/
theorem get_foldl_fuse (hagree : Agreeing results) (hbest : IsBest results c)
    (hrs : ∀ r ∈ rs, r ∈ results) (h : ∀ v, fused.get c.objectDigest = some v → Towards c v) :
    (∀ v, (rs.foldl fuse fused).get c.objectDigest = some v → Towards c v) ∧
      (c ∈ rs ∨ fused.get c.objectDigest = some c →
        (rs.foldl fuse fused).get c.objectDigest = some c) := by
  induction rs generalizing fused with
  | nil => exact ⟨h, fun hc => hc.resolve_left List.not_mem_nil⟩
  | cons r rs ih =>
    rw [List.foldl_cons]
    have hrest := fun x hx => hrs x (List.mem_cons_of_mem r hx)
    by_cases hsame : r.objectDigest = c.objectDigest
    · obtain ⟨v, hget, htowards, hthere⟩ :=
        towards_fuse hsame (hagree c hbest r (hrs r List.mem_cons_self) hsame) h
      have hnext : ∀ v', (fuse fused r).get c.objectDigest = some v' → Towards c v' := by
        intro v' hv'
        rwa [← Option.some.inj (hget.symm.trans hv')]
      refine ⟨(ih hrest hnext).1, fun hc => (ih hrest hnext).2 ?_⟩
      by_cases hnow : r = c ∨ fused.get c.objectDigest = some c
      · exact Or.inr (hget.trans (congrArg some (hthere hnow)))
      · rcases hc with hc | hc
        · rcases List.mem_cons.mp hc with rfl | hc
          · exact absurd (Or.inl rfl) hnow
          · exact Or.inl hc
        · exact absurd (Or.inr hc) hnow
    · have hget : (fuse fused r).get c.objectDigest = fused.get c.objectDigest :=
        get_fuse_ne (Ne.symm hsame)
      rw [← hget] at h
      refine ⟨(ih hrest h).1, fun hc => (ih hrest h).2 ?_⟩
      rw [hget]
      refine hc.imp_left fun hmem => ?_
      exact (List.mem_cons.mp hmem).resolve_left fun heq => hsame (congrArg _ heq.symm)

/-- Of the results for one object there is a best one. -/
theorem exists_best (hr : r ∈ results) :
    ∃ c, IsBest results c ∧ c.objectDigest = r.objectDigest := by
  have hmem : r ∈ results.filter fun x => decide (x.objectDigest = r.objectDigest) :=
    List.mem_filter.mpr ⟨hr, decide_eq_true rfl⟩
  cases hmax : (results.filter fun x => decide (x.objectDigest = r.objectDigest)).argmax
      SearchResult.score with
  | none =>
    rw [List.argmax_eq_none] at hmax
    rw [hmax] at hmem
    exact absurd hmem List.not_mem_nil
  | some c =>
    obtain ⟨hc, hdigest⟩ := List.mem_filter.mp (List.argmax_mem hmax)
    have hdigest := of_decide_eq_true hdigest
    refine ⟨c, ⟨hc, fun x hx hsame => ?_⟩, hdigest⟩
    exact List.le_of_mem_argmax (List.mem_filter.mpr
      ⟨hx, decide_eq_true (hsame.trans hdigest)⟩) hmax

theorem get_foldl_fuse_ne (hne : ∀ r ∈ rs, r.objectDigest ≠ key)
    (fused : OrdMap String (SearchResult A S P M F)) :
    (rs.foldl fuse fused).get key = fused.get key := by
  induction rs generalizing fused with
  | nil => rfl
  | cons r rs ih =>
    rw [List.foldl_cons, ih fun x hx => hne x (List.mem_cons_of_mem r hx),
      get_fuse_ne (hne r List.mem_cons_self).symm]

/-- **What is fused are the best results,** whatever the order. -/
theorem get_fused (hagree : Agreeing results) (hrs : ∀ r, r ∈ rs ↔ r ∈ results) :
    (rs.foldl fuse ∅).get key = some c ↔ IsBest results c ∧ c.objectDigest = key := by
  have hbest : ∀ {c}, IsBest results c → (rs.foldl fuse ∅).get c.objectDigest = some c :=
    fun hbest => (get_foldl_fuse hagree hbest (fun r => (hrs r).mp) fun v h => by
      rw [OrdMap.get_empty] at h
      cases h).2 (Or.inl ((hrs _).mpr hbest.1))
  constructor
  · intro hget
    by_cases hsome : ∃ r ∈ rs, r.objectDigest = key
    · obtain ⟨r, hr, rfl⟩ := hsome
      obtain ⟨c', hc', hsame⟩ := exists_best ((hrs r).mp hr)
      have hget' := hbest hc'
      rw [hsame, hget] at hget'
      obtain rfl := Option.some.inj hget'
      exact ⟨hc', hsame⟩
    · have hne : ∀ r ∈ rs, r.objectDigest ≠ key := fun r hr heq => hsome ⟨r, hr, heq⟩
      rw [get_foldl_fuse_ne hne] at hget
      cases hget
  · rintro ⟨hc, rfl⟩
    exact hbest hc

end Fusing

/-! ## Any order -/

section Order

variable {items items' : List (Except E (List (SearchResult A S P M F)))}

/-- Results are fused whether or not a search fails, and any failure is remembered. -/
theorem foldl_fuseItem (state : Option E × OrdMap String (SearchResult A S P M F)) :
    (items.foldl fuseItem state).2 = (allResults items).foldl fuse state.2 ∧
      ((items.foldl fuseItem state).1 = none ↔ state.1 = none ∧ ∀ e, .error e ∉ items) := by
  induction items generalizing state with
  | nil => exact ⟨rfl, by simp⟩
  | cons item items ih =>
    obtain ⟨hfused, herror⟩ := ih (fuseItem state item)
    have hall : allResults (item :: items) = item.toOption.getD [] ++ allResults items := rfl
    rw [List.foldl_cons, hfused, herror, hall, List.foldl_append]
    cases item with
    | error e =>
      refine ⟨rfl, iff_of_false (fun h => ?_) fun h => h.2 e List.mem_cons_self⟩
      rw [fuseItem, Option.or_eq_none_iff] at h
      cases h.1.2
    | ok results => exact ⟨rfl, by simp [fuseItem]⟩

/-- The values of an enumeration are the best results. -/
theorem mem_enumeration (hagree : Agreeing (allResults items))
    {values : List (SearchResult A S P M F)} (h : Enumeration items values)
    {c : SearchResult A S P M F} : c ∈ values ↔ IsBest (allResults items) c := by
  rw [h.mem_iff, List.mem_map, fuseItems, (foldl_fuseItem _).1]
  constructor
  · rintro ⟨entry, hentry, rfl⟩
    exact ((get_fused hagree fun _ => Iff.rfl).mp (OrdMap.mem_entries_iff.mp hentry)).1
  · intro hc
    exact ⟨(c.objectDigest, c),
      OrdMap.mem_entries_iff.mpr ((get_fused hagree fun _ => Iff.rfl).mpr ⟨hc, rfl⟩), rfl⟩

instance : Std.Total fun a b : SearchResult A S P M F => b.score ≤ a.score :=
  ⟨fun _ _ => le_total _ _⟩

instance : IsTrans (SearchResult A S P M F) fun a b => b.score ≤ a.score :=
  ⟨fun _ _ _ hab hbc => hbc.trans hab⟩

/-- Before a place of a sorted list there is all that is greater. -/
theorem length_greater_le {sorted : List (SearchResult A S P M F)}
    (hsorted : sorted.Pairwise fun a b => b.score ≤ a.score) {i : Nat}
    {b : SearchResult A S P M F} (hb : sorted[i]? = some b) :
    (sorted.filter fun r => decide (b.score < r.score)).length ≤ i := by
  obtain ⟨hi, hget⟩ := List.getElem?_eq_some_iff.mp hb
  have hdrop : sorted.drop i = b :: sorted.drop (i + 1) := by
    rw [← hget]
    exact List.drop_eq_getElem_cons hi
  have hnone : (sorted.drop i).filter (fun r => decide (b.score < r.score)) = [] := by
    rw [List.filter_eq_nil_iff]
    intro r hr hgreater
    have hrest : (sorted.drop i).Pairwise fun a b => b.score ≤ a.score :=
      hsorted.sublist (List.drop_sublist _ _)
    rw [hdrop] at hr hrest
    have hle : r.score ≤ b.score := by
      rcases List.mem_cons.mp hr with rfl | hr
      · exact le_refl _
      · exact (List.pairwise_cons.mp hrest).1 r hr
    exact absurd (of_decide_eq_true hgreater) hle.not_gt
  rw [← List.take_append_drop i sorted, List.filter_append, hnone, List.append_nil]
  exact (List.length_filter_le _ _).trans (List.length_take_le _ _)

/-- A list in the order of the scores, cut off before the first tie. -/
theorem take_sorted {limit : Nat} {values values' : List (SearchResult A S P M F)}
    (hperm : values'.Perm values)
    (hties : ∀ a ∈ values, ∀ b ∈ values, a.score = b.score →
      a = b ∨ limit ≤ (values.filter fun r => decide (a.score < r.score)).length) :
    (values'.insertionSort fun a b => b.score ≤ a.score).take limit =
      (values.insertionSort fun a b => b.score ≤ a.score).take limit := by
  have hsorted := fun l : List (SearchResult A S P M F) =>
    List.pairwise_insertionSort (fun a b => b.score ≤ a.score) l
  have hsame := fun l : List (SearchResult A S P M F) =>
    List.perm_insertionSort (fun a b => b.score ≤ a.score) l
  generalize hl : (values.insertionSort fun a b => b.score ≤ a.score) = sorted
  generalize hl' : (values'.insertionSort fun a b => b.score ≤ a.score) = sorted'
  have hvalues := hsame values
  have hvalues' := hsame values'
  have hdown := hsorted values
  have hdown' := hsorted values'
  rw [hl] at hvalues hdown
  rw [hl'] at hvalues' hdown'
  have hscores : sorted'.map SearchResult.score = sorted.map SearchResult.score := by
    refine List.Perm.eq_of_pairwise' (r := fun a b : F => b ≤ a)
      (List.pairwise_map.mpr hdown') (List.pairwise_map.mpr hdown) ?_
    exact (hvalues'.trans (hperm.trans hvalues.symm)).map _
  refine List.ext_getElem? fun i => ?_
  rw [List.getElem?_take, List.getElem?_take]
  split
  · rename_i hi
    have hscore := congrArg (fun l : List F => l[i]?) hscores
    simp only [List.getElem?_map] at hscore
    cases hb : sorted[i]? with
    | none =>
      rw [hb, Option.map_none, Option.map_eq_none_iff] at hscore
      exact hscore
    | some b =>
      rw [hb, Option.map_some, Option.map_eq_some_iff] at hscore
      obtain ⟨a, ha, heq⟩ := hscore
      have hbmem := hvalues.mem_iff.mp (List.mem_of_getElem? hb)
      have hamem := hperm.mem_iff.mp (hvalues'.mem_iff.mp (List.mem_of_getElem? ha))
      rcases hties b hbmem a hamem heq.symm with rfl | hmany
      · exact ha
      · have hfew := length_greater_le hdown hb
        rw [(hvalues.filter _).length_eq] at hfew
        omega
  · rfl

theorem IsBest.eq {results : List (SearchResult A S P M F)} (hagree : Agreeing results)
    {a b : SearchResult A S P M F} (ha : IsBest results a) (hb : IsBest results b)
    (hsame : a.objectDigest = b.objectDigest) : a = b := by
  rcases hagree b hb a ha.1 hsame with heq | ⟨hlt, -⟩
  · exact heq
  · exact absurd hlt (ha.2 b hb.1 hsame.symm).not_gt

/-- The fused results above a score are as many as the objects with a result above it. -/
theorem length_betterThan_le (hagree : Agreeing (allResults items))
    {values : List (SearchResult A S P M F)} (h : Enumeration items values) (score : F) :
    (betterThan (allResults items) score).length ≤
      (values.filter fun r => decide (score < r.score)).length := by
  rw [← List.length_map SearchResult.objectDigest]
  refine (List.subperm_of_subset (List.nodup_dedup _) fun digest hdigest => ?_).length_le
  obtain ⟨r, hr, rfl⟩ := List.mem_map.mp (List.mem_dedup.mp hdigest)
  obtain ⟨hr, hgreater⟩ := List.mem_filter.mp hr
  obtain ⟨c, hc, hsame⟩ := exists_best hr
  refine List.mem_map.mpr ⟨c, List.mem_filter.mpr ⟨(mem_enumeration hagree h).mpr hc, ?_⟩, hsame⟩
  exact decide_eq_true ((of_decide_eq_true hgreater).trans_le (hc.2 r hr hsame.symm))

/-- The end of the search is the same for every enumeration. -/
theorem finish_perm {limit : Int} (message : String → Option M)
    (hagree : Agreeing (allResults items)) (hranked : Ranked limit (allResults items))
    {values values' : List (SearchResult A S P M F)} (h : Enumeration items values)
    (hperm : values'.Perm values) : finish limit message values' = finish limit message values := by
  have hbest : ∀ a ∈ values, IsBest (allResults items) a := fun a => (mem_enumeration hagree h).mp
  rw [finish, finish]
  by_cases hlimit : 0 < limit
  · rw [if_pos hlimit, if_pos hlimit, take_sorted hperm]
    intro a ha b hb heq
    rcases hranked a b (hbest a ha) (hbest b hb) heq with hsame | ⟨-, hmany⟩
    · exact Or.inl ((hbest a ha).eq hagree (hbest b hb) hsame)
    · have hless := length_betterThan_le hagree h a.score
      exact Or.inr (by omega)
  · have hall := @take_sorted _ _ _ _ _ _ values.length values values' hperm fun a ha b hb heq =>
      Or.inl ((hbest a ha).eq hagree (hbest b hb)
        ((hranked a b (hbest a ha) (hbest b hb) heq).resolve_right fun hlimited =>
          hlimit hlimited.1))
    rw [List.take_of_length_le (by rw [List.length_insertionSort, hperm.length_eq]),
      List.take_of_length_le (by rw [List.length_insertionSort])] at hall
    rw [if_neg hlimit, if_neg hlimit, hall]

end Order

/-- **The results are the same in every order** of arrival and enumeration, if the best result of
an object says all that the others say and ties are behind the limit. -/
theorem mailSearch_order_free {limit : Int} {message : String → Option M}
    {items items' : List (Except E (List (SearchResult A S P M F)))}
    {values values' : List (SearchResult A S P M F)} (hagree : Agreeing (allResults items))
    (hranked : Ranked limit (allResults items)) (hitems : items'.Perm items)
    (h : Enumeration items values) (h' : Enumeration items' values') :
    (mailSearch limit message items' values').toOption =
      (mailSearch limit message items values).toOption := by
  have hresults : ∀ r, r ∈ allResults items' ↔ r ∈ allResults items :=
    fun r => (hitems.flatMap_right _).mem_iff
  have hfused : (fuseItems items').2 = (fuseItems items).2 := by
    rw [fuseItems, fuseItems, (foldl_fuseItem _).1, (foldl_fuseItem _).1]
    refine OrdMap.ext_get fun key => Option.ext fun c => ?_
    rw [get_fused hagree hresults, get_fused hagree fun _ => Iff.rfl]
  have hperm : values'.Perm values := by
    rw [Enumeration, hfused] at h'
    exact h'.trans h.symm
  have herror : (fuseItems items').1 = none ↔ (fuseItems items).1 = none := by
    rw [fuseItems, fuseItems, (foldl_fuseItem _).2, (foldl_fuseItem _).2]
    simp only [hitems.mem_iff]
  have hfinish := finish_perm message hagree hranked h hperm
  rw [mailSearch, mailSearch, hfinish, hperm.isEmpty_eq]
  cases he : (fuseItems items).1 with
  | none => rw [herror.mpr he]
  | some e =>
    cases he' : (fuseItems items').1 with
    | none =>
      rw [herror.mp he'] at he
      cases he
    | some e' =>
      dsimp only
      split
      · rfl
      · rfl

/-! ## Two answers about one message -/

/-- A result without attributes. -/
def plainResult (digest title : String) (score : Nat) : SearchResult Unit Unit Unit Unit Nat where
  objectDigest := digest
  title := title
  snippet := ""
  score := score
  facets := ["mail_message"]
  analysisPending := false
  projectionPending := false
  attributes := ∅
  structureOf := none
  provenance := []
  message := none

/-- The answers of the local search and of a live backend; live results have no titles. -/
def localAndLive : List (Except String (List (SearchResult Unit Unit Unit Unit Nat))) :=
  [.ok [plainResult "d" "Lunch" 3], .ok [plainResult "d" "" 5]]

/-- **The title depends on which answer arrives first.** -/
theorem mailSearch_depends_on_arrival :
    let found := fun items : List (Except String (List (SearchResult Unit Unit Unit Unit Nat))) =>
      (mailSearch 10 (fun _ => none) items ((fuseItems items).2.entries.map Prod.snd)).toOption.map
        fun results => results.map SearchResult.title
    found localAndLive = some ["Lunch"] ∧ found localAndLive.reverse = some [""] := by
  decide +kernel

/-- Two answers about one message, of which the better has the title, and one about another. -/
def coveredResults : List (Except String (List (SearchResult Unit Unit Unit Unit Nat))) :=
  [.ok [plainResult "d" "" 3], .ok [plainResult "d" "Lunch" 5, plainResult "e" "" 4], .error "down"]

/-- They can arrive in any order: the better answer says what the other says. -/
theorem mailSearch_order_free_covered :
    (mailSearch 10 (fun _ => none) coveredResults.reverse
        ((fuseItems coveredResults.reverse).2.entries.map Prod.snd)).toOption =
      (mailSearch 10 (fun _ => none) coveredResults
        ((fuseItems coveredResults).2.entries.map Prod.snd)).toOption := by
  have hmem : ∀ {r}, r ∈ allResults coveredResults →
      r = plainResult "d" "" 3 ∨ r = plainResult "d" "Lunch" 5 ∨ r = plainResult "e" "" 4 := by
    intro r hr
    have hr : r ∈ [plainResult "d" "" 3, plainResult "d" "Lunch" 5, plainResult "e" "" 4] := hr
    simpa using hr
  have hcovered : mergeSearchResult (plainResult "d" "" 3) (plainResult "d" "Lunch" 5) =
      plainResult "d" "Lunch" 5 :=
    SearchResult.ext rfl rfl rfl rfl (by decide +kernel) rfl rfl rfl rfl rfl rfl
  have hbeaten : ¬IsBest (allResults coveredResults) (plainResult "d" "" 3) := fun hbest =>
    absurd (hbest.2 (plainResult "d" "Lunch" 5) (.tail _ (.head _)) rfl) (by decide)
  refine mailSearch_order_free (fun c hc r hr hsame => ?_) (fun a b ha hb heq => Or.inl ?_)
    (List.reverse_perm _) (List.Perm.refl _) (List.Perm.refl _)
  · rcases hmem hc.1 with rfl | rfl | rfl
    · exact absurd hc hbeaten
    all_goals
      rcases hmem hr with rfl | rfl | rfl
      all_goals first
        | exact Or.inl rfl
        | exact Or.inr ⟨by decide, hcovered⟩
        | exact absurd hsame (by decide)
  · rcases hmem ha.1 with rfl | rfl | rfl
    all_goals
      rcases hmem hb.1 with rfl | rfl | rfl
      all_goals first
        | rfl
        | exact absurd heq (by decide)

end Gmeow.MailSearch
