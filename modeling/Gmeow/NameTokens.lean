import Gmeow.IdDiff
import Gmeow.Matchings

/-!
# When two names diverge

`nameScore` matches the tokens of two names one after the other, each with the heaviest one that is
left. If both names then have a token of more than one letter that is not matched, they are taken
for names of different people.

Taking the tokens in their order can go wrong. An initial takes the token that a full name needs
(`initial_takes_name`), and then names are said to diverge although one is contained in the other.
It cannot go wrong where tokens that compete for a match have the same choices.

* `coValidMatch`, `TokensMatch` — the matches, of tokens and of their places;
* `Greedy`, `Greedy.step`, `matchNames_greedy` — what the loop finds: a matching that cannot be
  extended;
* `EvenTokens` — competing tokens have the same choices;
* `divergence_justified` — the names then diverge only if neither is contained in the other.
-/

open Matchings

namespace Gmeow

variable {F : Type} [Field F] [LinearOrder F] (p : IdDiffParams F) {av bv : List (DiffClaim F)}

/-! ## Matches -/

/-- Two tokens that are valid at the same time match. -/
def coValidMatch (ca cb : DiffClaim F) : Bool :=
  ca.valid.overlaps cb.valid && nameTokenMatch ca cb p.tauName

/-- The tokens at two places match. -/
def TokensMatch (av bv : List (DiffClaim F)) (i j : Nat) : Prop :=
  ∃ ca cb, av[i]? = some ca ∧ bv[j]? = some cb ∧ coValidMatch p ca cb = true

/-- The places of the tokens with more than one letter. -/
def Substantive (claims : List (DiffClaim F)) : Set Nat :=
  {i | ∃ c, claims[i]? = some c ∧ 1 < c.value.length}

/-- A token of the inner loop that can be taken. -/
structure Takeable (ca : DiffClaim F) (item : (DiffClaim F × Bool) × Nat) : Prop where
  free : item.1.2 = false
  alike : coValidMatch p ca item.1.1 = true

/-- One token of the inner loop: it is taken, or the best so far stays, and then it is as good or
cannot be taken. -/
theorem betterMatch_inv (ca : DiffClaim F) (best : Option Nat × F)
    (item : (DiffClaim F × Bool) × Nat) :
    (Takeable p ca item ∧
        betterMatch p ca best item = (some item.2, min (p.w ca) (p.w item.1.1))) ∨
      (betterMatch p ca best item = best ∧
        (Takeable p ca item → min (p.w ca) (p.w item.1.1) ≤ best.2)) := by
  obtain ⟨⟨cb, matched⟩, j⟩ := item
  rw [betterMatch]
  dsimp only
  split
  · rename_i hskip
    refine Or.inr ⟨rfl, fun htake => ?_⟩
    obtain ⟨hfree, hmatch⟩ := htake
    rw [coValidMatch, Bool.and_eq_true] at hmatch
    rw [Bool.or_eq_true, Bool.not_eq_true'] at hskip
    rcases hskip with hmatched | hapart
    · exact absurd (hfree.symm.trans hmatched) Bool.false_ne_true
    · exact absurd (hapart.symm.trans hmatch.1) Bool.false_ne_true
  rename_i hskip
  split
  · rename_i hnot
    refine Or.inr ⟨rfl, fun htake => ?_⟩
    have hmatch := htake.alike
    rw [coValidMatch, Bool.and_eq_true] at hmatch
    exact absurd (hnot.symm.trans hmatch.2) Bool.false_ne_true
  rename_i hmatch
  split
  · refine Or.inl ⟨⟨?_, ?_⟩, rfl⟩
    · cases matched with
      | false => rfl
      | true => exact absurd rfl hskip
    · rw [coValidMatch]
      cases hoverlaps : ca.valid.overlaps cb.valid with
      | false => rw [hoverlaps, Bool.not_false, Bool.or_true] at hskip; exact absurd rfl hskip
      | true => rw [Bool.true_and, ← Bool.not_eq_false]; exact hmatch
  · rename_i hle
    exact Or.inr ⟨rfl, fun _ => not_lt.mp hle⟩

variable {p}

variable {ca : DiffClaim F} {st : NameMatches F} {done : Nat}

/-- The inner loop: it finds a token that can be taken, if there is one. -/
theorem foldl_betterMatch (items : List ((DiffClaim F × Bool) × Nat))
    (hpos : ∀ item ∈ items, 0 < min (p.w ca) (p.w item.1.1)) (best : Option Nat × F)
    (hbest : best.1 = none → best.2 = 0) :
    ((items.foldl (betterMatch p ca) best).1 = best.1 ∨
        ∃ item ∈ items, Takeable p ca item ∧
          (items.foldl (betterMatch p ca) best).1 = some item.2) ∧
      ((items.foldl (betterMatch p ca) best).1 = none →
        best.1 = none ∧ ∀ item ∈ items, ¬ Takeable p ca item) := by
  induction items generalizing best with
  | nil => exact ⟨Or.inl rfl, fun h => ⟨h, fun _ hin => absurd hin List.not_mem_nil⟩⟩
  | cons item items ih =>
    obtain ⟨hfirst, hpos⟩ := List.forall_mem_cons.mp hpos
    rw [List.foldl_cons]
    rcases betterMatch_inv p ca best item with ⟨htake, hstep⟩ | ⟨hstep, hworse⟩
    · rw [hstep]
      obtain ⟨hfound, hnone⟩ := ih hpos (some item.2, min (p.w ca) (p.w item.1.1))
        fun h => absurd h (Option.some_ne_none _)
      refine ⟨Or.inr ?_, fun h => absurd (hnone h).1 (Option.some_ne_none _)⟩
      rcases hfound with hfound | ⟨other, hin, hother⟩
      · exact ⟨item, List.mem_cons_self, htake, hfound⟩
      · exact ⟨other, List.mem_cons_of_mem _ hin, hother⟩
    · rw [hstep]
      obtain ⟨hfound, hnone⟩ := ih hpos best hbest
      refine ⟨hfound.imp_right fun ⟨other, hin, hother⟩ =>
        ⟨other, List.mem_cons_of_mem _ hin, hother⟩, fun h => ?_⟩
      obtain ⟨hstill, hrest⟩ := hnone h
      refine ⟨hstill, List.forall_mem_cons.mpr ⟨fun htake => ?_, hrest⟩⟩
      exact absurd (hworse htake) (not_le.mpr (hbest hstill ▸ hfirst))

/-- **The inner loop** by places. -/
theorem bestNameMatch_inv {matchedB : List Bool} (hpos : ∀ cb ∈ bv, 0 < min (p.w ca) (p.w cb)) :
    (∃ (j : Nat) (cb : DiffClaim F) (mass : F),
        bestNameMatch p ca bv matchedB = (some j, mass) ∧ bv[j]? = some cb ∧
        matchedB[j]? = some false ∧ coValidMatch p ca cb = true) ∨
      (∃ mass, bestNameMatch p ca bv matchedB = (none, mass)) ∧
        ∀ (j : Nat) cb, bv[j]? = some cb → matchedB[j]? = some false →
          coValidMatch p ca cb = false := by
  have hitems : ∀ item : (DiffClaim F × Bool) × Nat, item ∈ (bv.zip matchedB).zipIdx ↔
      bv[item.2]? = some item.1.1 ∧ matchedB[item.2]? = some item.1.2 := by
    rintro ⟨item, j⟩
    rw [List.mk_mem_zipIdx_iff_getElem?, List.getElem?_zip_eq_some]
  have hpos' : ∀ item ∈ (bv.zip matchedB).zipIdx, 0 < min (p.w ca) (p.w item.1.1) :=
    fun item hitem => hpos _ (List.mem_of_getElem? ((hitems item).mp hitem).1)
  obtain ⟨hfound, hnone⟩ := foldl_betterMatch _ hpos' (none, 0) fun _ => rfl
  rw [bestNameMatch]
  cases hrun : (bv.zip matchedB).zipIdx.foldl (betterMatch p ca) (none, 0) with
  | mk best mass =>
    rw [hrun] at hfound hnone
    cases best with
    | some j =>
      rcases hfound with hfound | ⟨item, hitem, htake, hj⟩
      · cases hfound
      · obtain rfl := Option.some.inj hj
        obtain ⟨hcb, hfree⟩ := (hitems item).mp hitem
        exact Or.inl ⟨item.2, item.1.1, mass, rfl, hcb, htake.free ▸ hfree, htake.alike⟩
    | none =>
      refine Or.inr ⟨⟨mass, rfl⟩, fun j cb hcb hfree => ?_⟩
      have hnot := (hnone rfl).2 ((cb, false), j) ((hitems _).mpr ⟨hcb, hfree⟩)
      rw [← Bool.not_eq_true]
      exact fun hmatch => hnot ⟨rfl, hmatch⟩

/-! ## What the loop finds -/

/-- After that many tokens: the flags are those of a matching that cannot be extended. -/
structure Greedy (p : IdDiffParams F) (av bv : List (DiffClaim F)) (done : Nat)
    (st : NameMatches F) : Prop where
  lengthA : st.matchedA.length = done
  lengthB : st.matchedB.length = bv.length
  pairs : ∃ M, Matching (TokensMatch p av bv) M ∧
    (∀ i, (∃ j, M i j) ↔ st.matchedA[i]? = some true) ∧
    ∀ j, (∃ i, M i j) ↔ st.matchedB[j]? = some true
  maximal : ∀ i j, i < done → TokensMatch p av bv i j →
    st.matchedA[i]? = some true ∨ st.matchedB[j]? = some true

theorem Greedy.start : Greedy p av bv 0
    { matchedA := [], matchedB := bv.map fun _ => false, shared := 0 } := by
  refine ⟨rfl, List.length_map _, ⟨fun _ _ => False, ⟨nofun, nofun, nofun⟩, ?_, ?_⟩, ?_⟩
  · intro i
    simp
  · intro j
    rw [List.getElem?_map]
    cases bv[j]? <;> simp
  · intro i j hi
    exact absurd hi (Nat.not_lt_zero i)

/-- The flag of one more token. -/
theorem Greedy.flag_iff (h : Greedy p av bv done st) {flag : Bool} {i : Nat} :
    (st.matchedA ++ [flag])[i]? = some true ↔
      st.matchedA[i]? = some true ∨ i = done ∧ flag = true := by
  rcases lt_trichotomy i done with hlt | rfl | hgt
  · rw [List.getElem?_append_left (h.lengthA ▸ hlt)]
    simp [hlt.ne]
  · rw [List.getElem?_append_right h.lengthA.le, h.lengthA, List.getElem?_eq_none h.lengthA.le]
    simp
  · have hlength : (st.matchedA ++ [flag]).length ≤ i := by
      rw [List.length_append, h.lengthA]
      exact hgt
    rw [List.getElem?_eq_none hlength, List.getElem?_eq_none (h.lengthA.trans_le hgt.le)]
    simp [hgt.ne']

/-- The token takes a free partner. -/
theorem Greedy.take {j : Nat} (h : Greedy p av bv done st) (hmatch : TokensMatch p av bv done j)
    (hfree : st.matchedB[j]? = some false) (shared : F) :
    Greedy p av bv (done + 1)
      { matchedA := st.matchedA ++ [true], matchedB := st.matchedB.set j true, shared } := by
  obtain ⟨M, hM, hleft, hright⟩ := h.pairs
  have hj : j < st.matchedB.length := (List.getElem?_eq_some_iff.mp hfree).1
  have hset : ∀ k, (st.matchedB.set j true)[k]? = some true ↔
      st.matchedB[k]? = some true ∨ k = j := by
    intro k
    rw [List.getElem?_set]
    by_cases hk : j = k
    · simp [hk ▸ hj, hk]
    · simp [hk, Ne.symm hk]
  refine ⟨?_, ?_, ⟨fun i k => M i k ∨ i = done ∧ k = j, ?_, fun i => ?_, fun k => ?_⟩, ?_⟩
  · simp [h.lengthA]
  · simp [h.lengthB]
  · -- neither the token nor its partner is in the matching so far
    refine hM.insert hmatch (fun k hk => ?_) fun i hi => ?_
    · have hflag := (hleft done).mp ⟨k, hk⟩
      rw [List.getElem?_eq_none h.lengthA.le] at hflag
      cases hflag
    · have hflag := (hright j).mp ⟨i, hi⟩
      rw [hfree] at hflag
      cases hflag
  · rw [h.flag_iff, ← hleft, exists_or]
    simp
  · rw [hset, ← hright, exists_or]
    simp
  · intro i k hi hik
    rw [h.flag_iff, hset]
    rcases Nat.lt_succ_iff_lt_or_eq.mp hi with hlt | rfl
    · exact (h.maximal i k hlt hik).imp Or.inl Or.inl
    · exact Or.inl (Or.inr ⟨rfl, rfl⟩)

/-- The token finds no free partner: whatever it matches is taken. -/
theorem Greedy.skip (h : Greedy p av bv done st)
    (htaken : ∀ j, TokensMatch p av bv done j → st.matchedB[j]? = some true) :
    Greedy p av bv (done + 1) { st with matchedA := st.matchedA ++ [false] } := by
  obtain ⟨M, hM, hleft, hright⟩ := h.pairs
  refine ⟨?_, h.lengthB, ⟨M, hM, fun i => ?_, hright⟩, ?_⟩
  · simp [h.lengthA]
  · rw [h.flag_iff, ← hleft]
    simp
  · intro i k hi hik
    rw [h.flag_iff]
    rcases Nat.lt_succ_iff_lt_or_eq.mp hi with hlt | rfl
    · exact (h.maximal i k hlt hik).imp_left Or.inl
    · exact Or.inr (htaken k hik)

/-- **One token** of the outer loop. -/
theorem Greedy.step (h : Greedy p av bv done st) (hca : av[done]? = some ca)
    (hpos : ∀ cb ∈ bv, 0 < min (p.w ca) (p.w cb)) :
    Greedy p av bv (done + 1) (matchName p bv st ca) := by
  rw [matchName]
  rcases bestNameMatch_inv hpos with ⟨j, cb, mass, hrun, hcb, hfree, hmatch⟩ |
      ⟨⟨mass, hrun⟩, hnone⟩
  · rw [hrun]
    exact h.take ⟨ca, cb, hca, hcb, hmatch⟩ hfree _
  · rw [hrun]
    refine h.skip fun j hmatches => ?_
    obtain ⟨ca', cb, hca', hcb, hmatch⟩ := hmatches
    obtain rfl := Option.some.inj (hca'.symm.trans hca)
    have hj : j < st.matchedB.length := h.lengthB ▸ (List.getElem?_eq_some_iff.mp hcb).1
    rw [List.getElem?_eq_getElem hj, Option.some.injEq, ← Bool.not_eq_false]
    intro hfree
    have hnot := hnone j cb hcb (by rw [List.getElem?_eq_getElem hj, hfree])
    exact absurd (hnot.symm.trans hmatch) Bool.false_ne_true

/-- **The outer loop** finds a matching that cannot be extended. -/
theorem matchNames_greedy (hpos : ∀ ca ∈ av, ∀ cb ∈ bv, 0 < min (p.w ca) (p.w cb)) :
    Greedy p av bv av.length (matchNames p av bv) := by
  have hrun : ∀ (rest done : List (DiffClaim F)) (st : NameMatches F), av = done ++ rest →
      Greedy p av bv done.length st →
        Greedy p av bv av.length (rest.foldl (matchName p bv) st) := by
    intro rest
    induction rest with
    | nil =>
      intro done st hav h
      rw [hav, List.append_nil] at h ⊢
      exact h
    | cons ca rest ih =>
      intro done st hav h
      refine ih (done ++ [ca]) _ (by rw [hav, List.append_assoc, List.singleton_append]) ?_
      rw [List.length_append, List.length_singleton]
      refine h.step ?_ (hpos ca ?_)
      · rw [hav, List.getElem?_append_right le_rfl, Nat.sub_self]
        rfl
      · rw [hav]
        exact List.mem_append_right _ List.mem_cons_self
  exact hrun av [] _ rfl .start

/-! ## Divergence -/

omit [Field F] [LinearOrder F] in
/-- A token that is not matched and has more than one letter. -/
theorem exists_of_substantiveUnmatched {claims : List (DiffClaim F)} {matched : List Bool}
    (h : substantiveUnmatched claims matched = true) :
    ∃ i ∈ Substantive claims, matched[i]? = some false := by
  rw [substantiveUnmatched, List.any_eq_true] at h
  obtain ⟨c, hc, hlength⟩ := h
  rw [unmatched, List.mem_map] at hc
  obtain ⟨⟨c, flag⟩, hin, rfl⟩ := hc
  rw [List.mem_filter, Bool.not_eq_true'] at hin
  obtain ⟨hin, hflag⟩ := hin
  obtain ⟨i, hi⟩ := List.mem_iff_getElem?.mp hin
  rw [List.getElem?_zip_eq_some] at hi
  exact ⟨i, ⟨c, hi.1, of_decide_eq_true hlength⟩, hflag ▸ hi.2⟩

/-- A penalty is only given if both names have a token of more than one letter that is left. -/
theorem unmatched_of_penalty (h : 0 < (nameScore p av bv).2) :
    (∃ i ∈ Substantive av, (matchNames p av bv).matchedA[i]? = some false) ∧
      ∃ j ∈ Substantive bv, (matchNames p av bv).matchedB[j]? = some false := by
  rw [nameScore] at h
  split at h
  · rename_i hboth
    rw [Bool.and_eq_true, Bool.and_eq_true] at hboth
    exact ⟨exists_of_substantiveUnmatched hboth.1.1, exists_of_substantiveUnmatched hboth.1.2⟩
  · exact absurd h (lt_irrefl 0)

/-- Tokens that compete for a match have the same choices: if one of them has more than one letter,
the other has too, and matches nothing that the first does not. -/
def EvenTokens (alike : DiffClaim F → DiffClaim F → Bool) (av bv : List (DiffClaim F)) : Prop :=
  ∀ a ∈ av, 1 < a.value.length → ∀ a' ∈ av, ∀ b ∈ bv, alike a b = true → alike a' b = true →
    1 < a'.value.length ∧ ∀ c ∈ bv, alike a' c = true → alike a c = true

omit [Field F] [LinearOrder F] in
/-- The same of the places. -/
theorem EvenTokens.even {alike : DiffClaim F → DiffClaim F → Bool} (h : EvenTokens alike av bv) :
    Even (fun i j : Nat => ∃ a b, av[i]? = some a ∧ bv[j]? = some b ∧ alike a b = true)
      (Substantive av) := by
  rintro i ⟨a, ha, hlength⟩ i' j ⟨a₁, b, ha₁, hb, hab⟩ ⟨a', b', ha', hb', hab'⟩
  obtain rfl := Option.some.inj (ha₁.symm.trans ha)
  obtain rfl := Option.some.inj (hb'.symm.trans hb)
  obtain ⟨hlength', hchoices⟩ := h a₁ (List.mem_of_getElem? ha) hlength a'
    (List.mem_of_getElem? ha') b' (List.mem_of_getElem? hb) hab hab'
  refine ⟨⟨a', ha', hlength'⟩, ?_⟩
  rintro k ⟨a₂, c, ha₂, hc, hac⟩
  obtain rfl := Option.some.inj (ha₂.symm.trans ha')
  exact ⟨a₁, c, ha, hc, hchoices c (List.mem_of_getElem? hc) hac⟩

/-- **Names diverge only if neither is contained in the other**, if tokens that compete for a match
have the same choices: no matching of the tokens covers all those of more than one letter, neither
on the one side nor on the other. -/
theorem divergence_justified (hpos : ∀ c ∈ av ++ bv, 0 < p.w c)
    (hevenA : EvenTokens (coValidMatch p) av bv)
    (hevenB : EvenTokens (fun b a => coValidMatch p a b) bv av)
    (hpenalty : 0 < (nameScore p av bv).2) (N : Nat → Nat → Prop)
    (hN : Matching (TokensMatch p av bv) N) :
    (¬ ∀ i ∈ Substantive av, ∃ j, N i j) ∧ ¬ ∀ j ∈ Substantive bv, ∃ i, N i j := by
  have hmin : ∀ ca ∈ av, ∀ cb ∈ bv, 0 < min (p.w ca) (p.w cb) := fun ca hca cb hcb =>
    lt_min (hpos ca (List.mem_append_left _ hca)) (hpos cb (List.mem_append_right _ hcb))
  have hgreedy := matchNames_greedy hmin
  obtain ⟨⟨i, hi, hfreeA⟩, j, hj, hfreeB⟩ := unmatched_of_penalty hpenalty
  obtain ⟨M, hM, hleft, hright⟩ := hgreedy.pairs
  have hmaximal : ∀ i j, TokensMatch p av bv i j → (∃ j', M i j') ∨ ∃ i', M i' j := by
    intro i j hij
    have hlt : i < av.length := by
      obtain ⟨ca, cb, hca, -⟩ := hij
      exact (List.getElem?_eq_some_iff.mp hca).1
    exact (hgreedy.maximal i j hlt hij).imp (hleft i).mpr (hright j).mpr
  have hfinite : ∀ {claims : List (DiffClaim F)} {S : Set Nat},
      (∀ k ∈ S, ∃ c, claims[k]? = some c) → S.Finite := by
    intro claims S hS
    refine (Set.finite_lt_nat claims.length).subset fun k hk => ?_
    obtain ⟨c, hc⟩ := hS k hk
    exact (List.getElem?_eq_some_iff.mp hc).1
  constructor
  · intro hcovers
    have hcovered := hM.covers_of_even hN hevenA.even
      (fun i => hfinite fun k ⟨_, cb, _, hcb, _⟩ => ⟨cb, hcb⟩) hmaximal hcovers i hi
    rw [hleft, hfreeA] at hcovered
    cases hcovered
  · intro hcovers
    have heven : Even (fun j i => TokensMatch p av bv i j) (Substantive bv) := by
      have hswapped := hevenB.even
      have hsame : ∀ j i : Nat, (∃ b a, bv[j]? = some b ∧ av[i]? = some a ∧
          coValidMatch p a b = true) ↔ TokensMatch p av bv i j := fun j i =>
        ⟨fun ⟨b, a, hb, ha, hab⟩ => ⟨a, b, ha, hb, hab⟩,
          fun ⟨a, b, ha, hb, hab⟩ => ⟨b, a, hb, ha, hab⟩⟩
      simpa only [hsame] using hswapped
    have hcovered := hM.swap.covers_of_even hN.swap heven
      (fun j => hfinite fun k ⟨ca, _, hca, _⟩ => ⟨ca, hca⟩)
      (fun j i hij => (hmaximal i j hij).symm) hcovers j hj
    rw [hright, hfreeB] at hcovered
    cases hcovered

/-- A token of a name, always valid. -/
def nameToken (value : String) : DiffClaim ℚ where
  value := value
  vec := []
  valid := ⟨none, none⟩

/-- Every token has weight one, and only equal ones and initials match. -/
def evenWeights : IdDiffParams ℚ where
  tauName := 1
  w _ := 1

/-- **An initial takes the name.** Of "p patrick" the initial is matched first, with the "patrick"
of "patrick smith". Then "patrick" and "smith" are left, and the names are said to diverge. But the
one token of more than one letter has its match. -/
theorem initial_takes_name :
    0 < (nameScore evenWeights [nameToken "p", nameToken "patrick"]
      [nameToken "patrick", nameToken "smith"]).2 ∧
    ∃ N, Matching (TokensMatch evenWeights [nameToken "p", nameToken "patrick"]
        [nameToken "patrick", nameToken "smith"]) N ∧
      ∀ i ∈ Substantive [nameToken "p", nameToken "patrick"], ∃ j, N i j := by
  refine ⟨by decide +kernel, fun i j => i = 1 ∧ j = 0, .single ?_, ?_⟩
  · exact ⟨nameToken "patrick", nameToken "patrick", rfl, rfl, by decide +kernel⟩
  · rintro i ⟨c, hc, hlength⟩
    rcases i with _ | _ | i
    · obtain rfl := Option.some.inj hc
      exact absurd hlength (by decide)
    · exact ⟨0, rfl, rfl⟩
    · cases hc

/-- Two people called Patrick. -/
theorem divergence_justified_patrick :
    0 < (nameScore evenWeights [nameToken "patrick", nameToken "audley"]
      [nameToken "patrick", nameToken "smith"]).2 ∧
    (¬ ∀ i ∈ Substantive [nameToken "patrick", nameToken "audley"],
      ∃ j : Nat, i = 0 ∧ j = 0) ∧
    ¬ ∀ j ∈ Substantive [nameToken "patrick", nameToken "smith"],
      ∃ i : Nat, i = 0 ∧ j = 0 := by
  have hpenalty : 0 < (nameScore evenWeights [nameToken "patrick", nameToken "audley"]
      [nameToken "patrick", nameToken "smith"]).2 := by decide +kernel
  refine ⟨hpenalty, divergence_justified (fun _ _ => one_pos) ?_ ?_ hpenalty
    (fun i j => i = 0 ∧ j = 0) (.single ?_)⟩
  · rw [EvenTokens]
    decide +kernel
  · rw [EvenTokens]
    decide +kernel
  · exact ⟨nameToken "patrick", nameToken "patrick", rfl, rfl, by decide +kernel⟩

end Gmeow
