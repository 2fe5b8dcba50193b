import Mathlib

/-!
# Runs of a step function

A machine is a function that takes a state and an action to the next state, or to nothing where the
action is not possible.

* `exec` — the state behind a list of actions;
* `exec_invariant` — what every step keeps holds behind every run;
* `within` — the machine with those of its steps that meet a condition.
-/

namespace Runs

variable {S A : Type}

/-- The state behind some actions. -/
def exec (step : S → A → Option S) : S → List A → Option S
  | s, [] => some s
  | s, a :: acts => (step s a).bind fun s' => exec step s' acts

/-- **What every step keeps holds behind every run.** -/
theorem exec_invariant {step : S → A → Option S} {P : S → Prop}
    (hstep : ∀ {s a s'}, P s → step s a = some s' → P s') {s s' : S} {acts : List A}
    (hs : P s) (hrun : exec step s acts = some s') : P s' := by
  induction acts generalizing s with
  | nil => exact Option.some.inj hrun ▸ hs
  | cons a acts ih =>
    obtain ⟨s₁, hfirst, hrest⟩ := Option.bind_eq_some_iff.mp hrun
    exact ih (hstep hs hfirst) hrest

/-- The steps that meet a condition. -/
def within (ok : S → A → Prop) [∀ s a, Decidable (ok s a)] (step : S → A → Option S) (s : S)
    (a : A) : Option S :=
  if ok s a then step s a else none

theorem within_eq_some {ok : S → A → Prop} [∀ s a, Decidable (ok s a)] {step : S → A → Option S}
    {s s' : S} {a : A} : within ok step s a = some s' ↔ ok s a ∧ step s a = some s' := by
  rw [within]
  split
  · exact (and_iff_right ‹_›).symm
  · exact iff_of_false nofun fun h => ‹¬_› h.1

end Runs
