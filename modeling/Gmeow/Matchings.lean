import Mathlib

/-!
# Matchings

One-to-one matchings of a relation. A matching that cannot be extended need not cover all that some
other matching covers. It does where the competitors are alike: whoever competes with one that is to
be covered is to be covered too, and has no choice that the other does not have.

* `Matching`, `Matching.swap` — each side has at most one partner;
* `Even` — competitors are alike;
* `Matching.covers_of_even` — a matching that cannot be extended covers what can be covered.
-/

namespace Matchings

variable {α β : Type}

/-- A one-to-one matching of related values. -/
structure Matching (R M : α → β → Prop) : Prop where
  related : ∀ {a b}, M a b → R a b
  left : ∀ {a b b'}, M a b → M a b' → b = b'
  right : ∀ {a a' b}, M a b → M a' b → a = a'

variable {R M N : α → β → Prop}

theorem Matching.swap (h : Matching R M) : Matching (fun b a => R a b) fun b a => M a b :=
  ⟨h.related, h.right, h.left⟩

theorem Matching.single {a : α} {b : β} (hab : R a b) :
    Matching R fun a' b' => a' = a ∧ b' = b := by
  refine ⟨?_, ?_, ?_⟩
  · rintro a' b' ⟨rfl, rfl⟩
    exact hab
  · rintro a' b' b'' ⟨-, rfl⟩ ⟨-, rfl⟩
    rfl
  · rintro a' a'' b' ⟨rfl, -⟩ ⟨rfl, -⟩
    rfl

/-- One more pair, of two values that have no partner. -/
theorem Matching.insert (h : Matching R M) {a : α} {b : β} (hab : R a b)
    (ha : ∀ b', ¬ M a b') (hb : ∀ a', ¬ M a' b) :
    Matching R fun a' b' => M a' b' ∨ a' = a ∧ b' = b := by
  refine ⟨?_, ?_, ?_⟩
  · rintro a' b' (hold | ⟨rfl, rfl⟩)
    · exact h.related hold
    · exact hab
  · rintro a' b' b'' (hold | ⟨rfl, rfl⟩) (hold' | ⟨hnew, rfl⟩)
    · exact h.left hold hold'
    · exact absurd (hnew ▸ hold) (ha b')
    · exact absurd hold' (ha b'')
    · rfl
  · rintro a' a'' b' (hold | ⟨rfl, rfl⟩) (hold' | ⟨rfl, hnew⟩)
    · exact h.right hold hold'
    · exact absurd (hnew ▸ hold) (hb a')
    · exact absurd hold' (hb a'')
    · rfl

/-- Who competes with one of the set is in the set, and has no other choices. -/
def Even (R : α → β → Prop) (S : Set α) : Prop :=
  ∀ a ∈ S, ∀ a' b, R a b → R a' b → a' ∈ S ∧ ∀ c, R a' c → R a c

/-- **What can be covered is covered** by a matching that cannot be extended, if competitors are
alike. One that is left out has all its choices taken, by competitors that are covered themselves
and have no other choices; so they and it are more than there are choices. -/
theorem Matching.covers_of_even (hM : Matching R M) (hN : Matching R N) {S : Set α}
    (heven : Even R S) (hfinite : ∀ a, {b | R a b}.Finite)
    (hmaximal : ∀ a b, R a b → (∃ b', M a b') ∨ ∃ a', M a' b)
    (hcovers : ∀ a ∈ S, ∃ b, N a b) : ∀ a ∈ S, ∃ b, M a b := by
  intro a ha
  by_contra hleft
  have htaken : ∀ b : {b // R a b}, ∃ a', M a' b.1 := fun b =>
    (hmaximal a b.1 b.2).resolve_left hleft
  choose competitor hcompetitor using htaken
  have halike : ∀ b, competitor b ∈ S ∧ ∀ c, R (competitor b) c → R a c := fun b =>
    heven a ha (competitor b) b.1 b.2 (hM.related (hcompetitor b))
  have hcovered : ∀ b, ∃ c : {c // R a c}, N (competitor b) c.1 := by
    intro b
    obtain ⟨c, hc⟩ := hcovers _ (halike b).1
    exact ⟨⟨c, (halike b).2 c (hN.related hc)⟩, hc⟩
  choose partner hpartner using hcovered
  have hinjective : Function.Injective partner := by
    intro b b' heq
    have hboth : competitor b = competitor b' := hN.right (hpartner b) (heq ▸ hpartner b')
    exact Subtype.ext (hM.left (hcompetitor b) (hboth ▸ hcompetitor b'))
  obtain ⟨c, hc⟩ := hcovers a ha
  have hfin : Finite {b // R a b} := (hfinite a).to_subtype
  obtain ⟨b, hb⟩ := Finite.surjective_of_injective hinjective ⟨c, hN.related hc⟩
  have hself : competitor b = a := hN.right (hpartner b) (hb ▸ hc)
  have hmatched := hcompetitor b
  rw [hself] at hmatched
  exact hleft ⟨b.1, hmatched⟩

end Matchings
