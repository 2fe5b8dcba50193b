import Mathlib

/-!
# Programs as trees of atomic requests

A fallible, stateful program is a tree: at each node it asks one atomic request
`p : P` of its environment and goes on with the answer `r : R p`. The tree fixes
nothing about how requests are answered, so one translation of a piece of code
serves every way of running it:

* `run` — alone, against a `Handler`;
* `Visits` — alone, stopped after any number of requests (a crash, an abort);
* `Pool.run` — many programs over one state, their requests interleaved by an
  arbitrary schedule. A request the handler cannot serve (a lock that is taken)
  leaves the thread where it is.

Reasoning comes in two halves that meet in one invariant:

* `wp` — what running a program alone from a given state ends in, `wlp` — what it ends in
  if it ends;
* `Obeys` — what a program does *whatever the answers are*: before each request it
  knows what the contract asks for, where its knowledge `M` is what its own
  earlier answers taught it. A thread keeps obeying its contract under
  interference, so `Pool.invariant` lifts a one-step invariant on the shared
  state and everyone's knowledge to every interleaving.
-/

/-- A program over requests `P`, a request `p` being answered in `R p`. -/
inductive Prog (P : Type) (R : P → Type) (α : Type) : Type where
  /-- finished with a value -/
  | ret : α → Prog P R α
  /-- finished with an error -/
  | fail : String → Prog P R α
  /-- ask a request and go on with its answer -/
  | call : (p : P) → (R p → Prog P R α) → Prog P R α

namespace Prog

variable {P : Type} {R : P → Type} {S M α β : Type}

/-- Sequencing; an error ends the whole program. -/
def bind : Prog P R α → (α → Prog P R β) → Prog P R β
  | .ret a, f => f a
  | .fail e, _ => .fail e
  | .call p c, f => .call p fun r => (c r).bind f

instance : Monad (Prog P R) where
  pure := .ret
  bind := bind

/-- One request. -/
def ask (p : P) : Prog P R (R p) := .call p .ret

/-- A check that may fail. -/
def ofExcept : Except String α → Prog P R α
  | .ok a => .ret a
  | .error e => .fail e

/-- A program among larger requests: each of its requests is one of those. -/
def embed {P' : Type} {R' : P' → Type} (f : P → P') (answer : (p : P) → R' (f p) → R p) :
    Prog P R α → Prog P' R' α
  | .ret a => .ret a
  | .fail e => .fail e
  | .call p c => .call (f p) fun r => (c (answer p r)).embed f answer

/-- `p`, then `q` on every path out of `p`: a deferred release. -/
def deferring : Prog P R α → Prog P R Unit → Prog P R α
  | .ret a, q => q.bind fun _ => .ret a
  | .fail e, q => q.bind fun _ => .fail e
  | .call p c, q => .call p fun r => (c r).deferring q

/-- Reword the error of a program. -/
def wrapping (f : String → String) : Prog P R α → Prog P R α
  | .ret a => .ret a
  | .fail e => .fail (f e)
  | .call p c => .call p fun r => (c r).wrapping f

/-- Catch the error of a program. -/
def attempt : Prog P R α → Prog P R (Except String α)
  | .ret a => .ret (.ok a)
  | .fail e => .ret (.error e)
  | .call p c => .call p fun r => (c r).attempt

/-- The value a finished program ended with. -/
def returned : Prog P R α → Option α
  | .ret a => some a
  | .fail _ => none
  | .call _ _ => none

/-- Nothing is left to do. -/
def ended : Prog P R α → Bool
  | .call _ _ => false
  | _ => true

variable {p : Prog P R α} {s s' : S} {r : Except String α} {learn : M → (p : P) → R p → M}

theorem eq_ret_of_returned {a : α} (h : p.returned = some a) : p = .ret a := by
  cases p with
  | ret b => cases h; rfl
  | fail e => cases h
  | call p c => cases h

/-! ## Running alone -/

/-- How requests are answered: the atomic effect of each, `none` when it has to
wait. -/
abbrev Handler (P : Type) (R : P → Type) (S : Type) : Type :=
  (p : P) → S → Option (R p × S)

/-- Run a program alone; `none` when a request is never served. -/
def run (h : Handler P R S) : Prog P R α → S → Option (Except String α × S)
  | .ret a, s => some (.ok a, s)
  | .fail e, s => some (.error e, s)
  | .call p c, s =>
    match h p s with
    | none => none
    | some (r, s') => (c r).run h s'

/-- Running `p` alone from `s` finishes, with an outcome and a state in `Q`. -/
def wp (h : Handler P R S) : Prog P R α → S → (Except String α → S → Prop) → Prop
  | .ret a, s, Q => Q (.ok a) s
  | .fail e, s, Q => Q (.error e) s
  | .call p c, s, Q => ∃ r s', h p s = some (r, s') ∧ (c r).wp h s' Q

/-- What follows an outcome: the continuation on a value, nothing on an error. -/
def after (f : α → S → Prop) (Q : Except String β → S → Prop) : Except String α → S → Prop
  | .ok a, s => f a s
  | .error e, s => Q (.error e) s

section Alone

variable {h : Handler P R S}

@[simp] theorem wp_ret {a : α} {s : S} {Q : Except String α → S → Prop} :
    (ret a : Prog P R α).wp h s Q ↔ Q (.ok a) s := Iff.rfl

@[simp] theorem wp_fail {e : String} {s : S} {Q : Except String α → S → Prop} :
    (fail e : Prog P R α).wp h s Q ↔ Q (.error e) s := Iff.rfl

variable {p : Prog P R α} {s s' : S} {Q Q' : Except String α → S → Prop} {f : α → Prog P R β}
  {r : Except String α} {q : Prog P R Unit}

theorem wp_iff_run : p.wp h s Q ↔ ∃ r s', p.run h s = some (r, s') ∧ Q r s' := by
  induction p generalizing s with
  | ret a => simp [run]
  | fail e => simp [run]
  | call p c ih =>
    constructor
    · rintro ⟨r, s₁, hr, hw⟩
      obtain ⟨res, s', hrun, hQ⟩ := ih r |>.mp hw
      refine ⟨res, s', ?_, hQ⟩
      rw [run, hr]
      exact hrun
    · rintro ⟨res, s', hrun, hQ⟩
      rw [run] at hrun
      cases hr : h p s with
      | none => rw [hr] at hrun; cases hrun
      | some a =>
        rw [hr] at hrun
        exact ⟨a.1, a.2, hr, (ih a.1).mpr ⟨res, s', hrun, hQ⟩⟩

theorem wp_mono (hw : p.wp h s Q) (hQ : ∀ r s', Q r s' → Q' r s') : p.wp h s Q' := by
  obtain ⟨r, s', hrun, hq⟩ := wp_iff_run.mp hw
  exact wp_iff_run.mpr ⟨r, s', hrun, hQ r s' hq⟩

/-- The rule of sequencing. -/
theorem wp_bind {Q : Except String β → S → Prop} :
    (p.bind f).wp h s Q ↔ p.wp h s (after (fun a s' => (f a).wp h s' Q) Q) := by
  induction p generalizing s with
  | ret a => rfl
  | fail e => rfl
  | call p c ih =>
    constructor
    · rintro ⟨r, s', hr, hw⟩
      exact ⟨r, s', hr, (ih r).mp hw⟩
    · rintro ⟨r, s', hr, hw⟩
      exact ⟨r, s', hr, (ih r).mpr hw⟩

/-- The rule of one request, then on. -/
theorem wp_ask_bind {p : P} {f : R p → Prog P R β} {r : R p} {Q : Except String β → S → Prop}
    (hr : h p s = some (r, s')) (hf : (f r).wp h s' Q) :
    ((ask p : Prog P R (R p)).bind f).wp h s Q := ⟨r, s', hr, hf⟩

/-- What a total run guarantees, the run that happened has. -/
theorem wp_run (hw : p.wp h s Q) (hrun : p.run h s = some (r, s')) : Q r s' := by
  obtain ⟨r₁, s₁, hrun₁, hQ⟩ := wp_iff_run.mp hw
  rw [hrun] at hrun₁
  cases hrun₁
  exact hQ

/-- The rule of deferred releases: `q` runs from whatever state `p` ends in. -/
theorem wp_deferring :
    (p.deferring q).wp h s Q ↔
      p.wp h s fun r s' => q.wp h s' (after (fun _ s'' => Q r s'') Q) := by
  induction p generalizing s with
  | ret a => exact wp_bind
  | fail e => exact wp_bind
  | call p c ih =>
    constructor
    · rintro ⟨r, s', hr, hw⟩
      exact ⟨r, s', hr, (ih r).mp hw⟩
    · rintro ⟨r, s', hr, hw⟩
      exact ⟨r, s', hr, (ih r).mpr hw⟩

theorem wp_attempt {Q : Except String (Except String α) → S → Prop} :
    p.attempt.wp h s Q ↔ p.wp h s fun r s' => Q (.ok r) s' := by
  induction p generalizing s with
  | ret a => rfl
  | fail e => rfl
  | call p c ih =>
    constructor
    · rintro ⟨r, s', hr, hw⟩
      exact ⟨r, s', hr, (ih r).mp hw⟩
    · rintro ⟨r, s', hr, hw⟩
      exact ⟨r, s', hr, (ih r).mpr hw⟩

/-- If running `p` alone from `s` finishes, then with an outcome and a state in `Q`. -/
def wlp (h : Handler P R S) : Prog P R α → S → (Except String α → S → Prop) → Prop
  | .ret a, s, Q => Q (.ok a) s
  | .fail e, s, Q => Q (.error e) s
  | .call p c, s, Q => ∀ r s', h p s = some (r, s') → (c r).wlp h s' Q

theorem wlp_run (hw : p.wlp h s Q) (hrun : p.run h s = some (r, s')) : Q r s' := by
  induction p generalizing s with
  | ret a => cases hrun; exact hw
  | fail e => cases hrun; exact hw
  | call p c ih =>
    rw [run] at hrun
    cases hr : h p s with
    | none => rw [hr] at hrun; cases hrun
    | some a =>
      rw [hr] at hrun
      exact ih a.1 (hw a.1 a.2 hr) hrun

/-- What every run that finishes has. -/
theorem wlp_of_run (hQ : ∀ r s', p.run h s = some (r, s') → Q r s') : p.wlp h s Q := by
  induction p generalizing s with
  | ret a => exact hQ _ _ rfl
  | fail e => exact hQ _ _ rfl
  | call p c ih =>
    intro r s' hr
    refine ih r fun out s'' hrun => hQ out s'' ?_
    rw [run, hr]
    exact hrun

theorem wlp_mono (hw : p.wlp h s Q) (hQ : ∀ r s', Q r s' → Q' r s') : p.wlp h s Q' := by
  induction p generalizing s with
  | ret a => exact hQ _ _ hw
  | fail e => exact hQ _ _ hw
  | call p c ih => exact fun r s' hr => ih r (hw r s' hr)

theorem wlp_bind {Q : Except String β → S → Prop} :
    (p.bind f).wlp h s Q ↔ p.wlp h s (after (fun a s' => (f a).wlp h s' Q) Q) := by
  induction p generalizing s with
  | ret a => rfl
  | fail e => rfl
  | call p c ih =>
    constructor
    · exact fun hw r s' hr => (ih r).mp (hw r s' hr)
    · exact fun hw r s' hr => (ih r).mpr (hw r s' hr)

theorem wlp_deferring :
    (p.deferring q).wlp h s Q ↔
      p.wlp h s fun r s' => q.wlp h s' (after (fun _ s'' => Q r s'') Q) := by
  induction p generalizing s with
  | ret a => exact wlp_bind
  | fail e => exact wlp_bind
  | call p c ih =>
    constructor
    · exact fun hw r s' hr => (ih r).mp (hw r s' hr)
    · exact fun hw r s' hr => (ih r).mpr (hw r s' hr)

theorem wlp_attempt {Q : Except String (Except String α) → S → Prop} :
    p.attempt.wlp h s Q ↔ p.wlp h s fun r s' => Q (.ok r) s' := by
  induction p generalizing s with
  | ret a => rfl
  | fail e => rfl
  | call p c ih =>
    constructor
    · exact fun hp r s' hr => (ih r).mp (hp r s' hr)
    · exact fun hp r s' hr => (ih r).mpr (hp r s' hr)

/-- One request, then on. -/
theorem wlp_ask_bind {p : P} {f : R p → Prog P R β} {Q : Except String β → S → Prop}
    (hf : ∀ r s', h p s = some (r, s') → (f r).wlp h s' Q) :
    ((ask p : Prog P R (R p)).bind f).wlp h s Q := hf

/-- A call whose error is caught, then on. -/
theorem wlp_attempt_bind {f : Except String α → Prog P R β} {Q : Except String β → S → Prop}
    (hf : ∀ r s', p.run h s = some (r, s') → (f r).wlp h s' Q) : (p.attempt.bind f).wlp h s Q :=
  wlp_bind.mpr (wlp_attempt.mpr (wlp_of_run hf))

theorem wlp_wrapping {f : String → String} :
    (p.wrapping f).wlp h s Q ↔ p.wlp h s fun r s' => Q (r.mapError f) s' := by
  induction p generalizing s with
  | ret a => rfl
  | fail e => rfl
  | call p c ih =>
    constructor
    · exact fun hw r s' hr => (ih r).mp (hw r s' hr)
    · exact fun hw r s' hr => (ih r).mpr (hw r s' hr)

end Alone

/-! ## Stopped midway -/

/-- `s'` is a state `p` passes through when run alone from `s`: the state before
its first request, after its last, or in between. -/
inductive Visits (h : Handler P R S) : Prog P R α → S → S → Prop where
  /-- nothing asked yet -/
  | here {p : Prog P R α} {s : S} : Visits h p s s
  /-- one request served, then on -/
  | step {p : P} {c : R p → Prog P R α} {s s₁ s' : S} {r : R p} :
      h p s = some (r, s₁) → Visits h (c r) s₁ s' → Visits h (.call p c) s s'

/-- The state after `n` requests, if they are all served. -/
def stateAfter (h : Handler P R S) : Nat → Prog P R α → S → Option S
  | 0, _, s => some s
  | n + 1, .call p c, s =>
    match h p s with
    | none => none
    | some (r, s') => stateAfter h n (c r) s'
  | _ + 1, _, _ => none

theorem Visits.of_stateAfter {h : Handler P R S} :
    ∀ {n : Nat} {p : Prog P R α} {s s' : S}, stateAfter h n p s = some s' → Visits h p s s' := by
  intro n
  induction n with
  | zero => intro p s s' hn; cases hn; exact .here
  | succ n ih =>
    intro p s s' hn
    cases p with
    | ret a => cases hn
    | fail e => cases hn
    | call p c =>
      rw [stateAfter] at hn
      split at hn
      · cases hn
      · exact .step ‹_› (ih hn)

/-- The end of a run is among the states it passes through. -/
theorem Visits.of_run {h : Handler P R S} (hrun : p.run h s = some (r, s')) : Visits h p s s' := by
  induction p generalizing s with
  | ret a => cases hrun; exact .here
  | fail e => cases hrun; exact .here
  | call p c ih =>
    rw [run] at hrun
    cases hr : h p s with
    | none => rw [hr] at hrun; cases hrun
    | some a =>
      rw [hr] at hrun
      exact .step hr (ih a.1 hrun)

/-! ## What a program does whatever the answers are -/

/-- Watch a handler: next to the state, keep what the answers taught the caller. -/
def Handler.observing (h : Handler P R S) (learn : M → (p : P) → R p → M) :
    Handler P R (S × M) :=
  fun p sk => (h p sk.1).map fun rs => (rs.1, rs.2, learn sk.2 p rs.1)

/-- Watching changes nothing. -/
theorem run_observing {h : Handler P R S} {k k' : M}
    (hrun : p.run (h.observing learn) (s, k) = some (r, s', k')) : p.run h s = some (r, s') := by
  induction p generalizing s k with
  | ret a => cases hrun; rfl
  | fail e => cases hrun; rfl
  | call p f ih =>
    rw [run, Handler.observing] at hrun
    rw [run]
    cases hr : h p s with
    | none => rw [hr] at hrun; cases hrun
    | some a =>
      rw [hr] at hrun
      exact ih a.1 hrun

/-- What every answer adds to, a whole run adds to. -/
theorem run_observing_mono {h : Handler P R S} {le : M → M → Prop} (hrefl : ∀ k, le k k)
    (htrans : ∀ k₁ k₂ k₃, le k₁ k₂ → le k₂ k₃ → le k₁ k₃) (hlearn : ∀ k p r, le k (learn k p r))
    {k k' : M} (hrun : p.run (h.observing learn) (s, k) = some (r, s', k')) : le k k' := by
  induction p generalizing s k with
  | ret a => cases hrun; exact hrefl _
  | fail e => cases hrun; exact hrefl _
  | call p f ih =>
    rw [run, Handler.observing] at hrun
    cases hr : h p s with
    | none => rw [hr] at hrun; cases hrun
    | some a =>
      rw [hr] at hrun
      exact htrans _ _ _ (hlearn k p a.1) (ih a.1 hrun)

/-- What a program must know before each request, and what an answer can be. -/
structure Contract (P : Type) (R : P → Type) (M : Type) where
  /-- what the caller has to know before asking -/
  pre : M → P → Prop
  /-- the answers the environment can give -/
  post : (p : P) → R p → Prop
  /-- what an answer teaches -/
  learn : M → (p : P) → R p → M

/-- `p`, started with knowledge `k`, keeps the contract on every path, and ends
with an outcome and knowledge in `Q`. -/
def Obeys (c : Contract P R M) : Prog P R α → M → (Except String α → M → Prop) → Prop
  | .ret a, k, Q => Q (.ok a) k
  | .fail e, k, Q => Q (.error e) k
  | .call p f, k, Q =>
    c.pre k p ∧ ∀ r, c.post p r → (f r).Obeys c (c.learn k p r) Q

section Obeys

variable {c : Contract P R M}

variable {k : M} {p : Prog P R α} {Q : Except String α → M → Prop} {post : (p : P) → R p → Prop}
  {f : α → Prog P R β} {allowed : P → Prop} {h : Handler P R S} {learn : M → (p : P) → R p → M}
  {I : S → M → Prop}

/-- The rule of one request, then on. -/
theorem Obeys.ask_bind {p : P} {f : R p → Prog P R β} {Q : Except String β → M → Prop}
    (hpre : c.pre k p) (hf : ∀ r, c.post p r → (f r).Obeys c (c.learn k p r) Q) :
    ((ask p : Prog P R (R p)).bind f).Obeys c k Q := ⟨hpre, hf⟩

/-- A program that has ended is at its outcome. -/
theorem Obeys.of_ended {Q : M → Prop} (h : p.Obeys c k fun _ => Q) (hended : p.ended = true) :
    Q k := by
  cases p with
  | ret a => exact h
  | fail e => exact h
  | call p f => cases hended

theorem Obeys.mono {Q' : Except String α → M → Prop} (hp : p.Obeys c k Q)
    (hQ : ∀ r k', Q r k' → Q' r k') : p.Obeys c k Q' := by
  induction p generalizing k with
  | ret a => exact hQ _ _ hp
  | fail e => exact hQ _ _ hp
  | call p f ih => exact ⟨hp.1, fun r hr => ih r (hp.2 r hr)⟩

/-- A program that asks less than it may. -/
theorem Obeys.weaken {pre₁ pre₂ : M → P → Prop} (h : p.Obeys ⟨pre₁, post, learn⟩ k Q)
    (hpre : ∀ k p, pre₁ k p → pre₂ k p) : p.Obeys ⟨pre₂, post, learn⟩ k Q := by
  induction p generalizing k with
  | ret a => exact h
  | fail e => exact h
  | call p f ih => exact ⟨hpre k p h.1, fun r hr => ih r (h.2 r hr)⟩

/-- Two contracts on the same answers, kept at once. -/
theorem Obeys.and {pre₁ pre₂ : M → P → Prop} {Q₁ Q₂ : Except String α → M → Prop}
    (h₁ : p.Obeys ⟨pre₁, post, learn⟩ k Q₁) (h₂ : p.Obeys ⟨pre₂, post, learn⟩ k Q₂) :
    p.Obeys ⟨fun k p => pre₁ k p ∧ pre₂ k p, post, learn⟩ k fun r k' => Q₁ r k' ∧ Q₂ r k' := by
  induction p generalizing k with
  | ret a => exact ⟨h₁, h₂⟩
  | fail e => exact ⟨h₁, h₂⟩
  | call p f ih => exact ⟨⟨h₁.1, h₂.1⟩, fun r hr => ih r (h₁.2 r hr) (h₂.2 r hr)⟩

theorem obeys_bind {Q : Except String β → M → Prop} :
    (p.bind f).Obeys c k Q ↔ p.Obeys c k (after (fun a k' => (f a).Obeys c k' Q) Q) := by
  induction p generalizing k with
  | ret a => rfl
  | fail e => rfl
  | call p g ih =>
    constructor
    · exact fun hp => ⟨hp.1, fun r hr => (ih r).mp (hp.2 r hr)⟩
    · exact fun hp => ⟨hp.1, fun r hr => (ih r).mpr (hp.2 r hr)⟩

/-- The rule of sequencing for a relation that composes: each part says what it does from
where it starts. -/
theorem Obeys.bind_rel (rel : M → M → Prop) [IsTrans M rel] (hp : p.Obeys c k fun _ k' => rel k k')
    (hf : ∀ a k', (f a).Obeys c k' fun _ k'' => rel k' k'') :
    (p.bind f).Obeys c k fun _ k' => rel k k' := by
  refine obeys_bind.mpr (hp.mono ?_)
  rintro (e | a) k' hk'
  · exact hk'
  · exact (hf a k').mono fun _ _ => IsTrans.trans _ _ _ hk'

/-- The same for one request, then on. -/
theorem Obeys.ask_rel (rel : M → M → Prop) [IsTrans M rel] {p : P} {f : R p → Prog P R β}
    (hpre : c.pre k p) (hlearn : ∀ r, rel k (c.learn k p r))
    (hf : ∀ r, c.post p r → (f r).Obeys c (c.learn k p r) fun _ k' => rel (c.learn k p r) k') :
    ((ask p : Prog P R (R p)).bind f).Obeys c k fun _ k' => rel k k' :=
  ⟨hpre, fun r hr => (hf r hr).mono fun _ _ => IsTrans.trans _ _ _ (hlearn r)⟩

/-- Sequencing where the parts also say something of what they return. -/
theorem Obeys.bind_ok (rel : M → M → Prop) [IsTrans M rel] {Q : α → M → Prop} {Q' : β → M → Prop}
    (hp : p.Obeys c k fun r k' => rel k k' ∧ ∀ a, r = .ok a → Q a k')
    (hf : ∀ a k', rel k k' → Q a k' →
      (f a).Obeys c k' fun r k'' => rel k' k'' ∧ ∀ b, r = .ok b → Q' b k'') :
    (p.bind f).Obeys c k fun r k' => rel k k' ∧ ∀ b, r = .ok b → Q' b k' := by
  refine obeys_bind.mpr (hp.mono ?_)
  rintro (e | a) k' ⟨hk', hQ⟩
  · exact ⟨hk', fun _ h => nomatch h⟩
  · exact (hf a k' hk' (hQ a rfl)).mono fun _ _ hend => ⟨IsTrans.trans _ _ _ hk' hend.1, hend.2⟩

theorem obeys_deferring {q : Prog P R Unit} :
    (p.deferring q).Obeys c k Q ↔
      p.Obeys c k fun r k' => q.Obeys c k' (after (fun _ k'' => Q r k'') Q) := by
  induction p generalizing k with
  | ret a => exact obeys_bind
  | fail e => exact obeys_bind
  | call p f ih =>
    constructor
    · exact fun hp => ⟨hp.1, fun r hr => (ih r).mp (hp.2 r hr)⟩
    · exact fun hp => ⟨hp.1, fun r hr => (ih r).mpr (hp.2 r hr)⟩

theorem obeys_wrapping {f : String → String} :
    (p.wrapping f).Obeys c k Q ↔ p.Obeys c k fun r k' => Q (r.mapError f) k' := by
  induction p generalizing k with
  | ret a => rfl
  | fail e => rfl
  | call p g ih =>
    constructor
    · exact fun hp => ⟨hp.1, fun r hr => (ih r).mp (hp.2 r hr)⟩
    · exact fun hp => ⟨hp.1, fun r hr => (ih r).mpr (hp.2 r hr)⟩

theorem obeys_attempt {Q : Except String (Except String α) → M → Prop} :
    p.attempt.Obeys c k Q ↔ p.Obeys c k fun r k' => Q (.ok r) k' := by
  induction p generalizing k with
  | ret a => rfl
  | fail e => rfl
  | call p g ih =>
    constructor
    · exact fun hp => ⟨hp.1, fun r hr => (ih r).mp (hp.2 r hr)⟩
    · exact fun hp => ⟨hp.1, fun r hr => (ih r).mpr (hp.2 r hr)⟩

/-- Whatever the answers, `p` makes allowed requests only, and ends in `Q`. -/
def Stays (allowed : P → Prop) (post : (p : P) → R p → Prop) (p : Prog P R α)
    (Q : Except String α → Prop) : Prop :=
  p.Obeys (⟨fun _ p => allowed p, post, fun u _ _ => u⟩ : Contract P R Unit) () fun r _ => Q r

/-- A program that stays within requests a contract allows and learns nothing from, keeps
the contract; `rel` is what such requests do to the caller's knowledge. -/
theorem Stays.obeys {Q : Except String α → Prop} (rel : M → M → Prop) (hrefl : ∀ k, rel k k)
    (htrans : ∀ k₁ k₂ k₃, rel k₁ k₂ → rel k₂ k₃ → rel k₁ k₃)
    (hc : ∀ k p, allowed p → c.pre k p ∧ ∀ r, rel k (c.learn k p r))
    (h : p.Stays allowed c.post Q) : p.Obeys c k fun r k' => Q r ∧ rel k k' := by
  induction p generalizing k with
  | ret a => exact ⟨h, hrefl k⟩
  | fail e => exact ⟨h, hrefl k⟩
  | call p f ih =>
    obtain ⟨hpre, hlearn⟩ := hc k p h.1
    refine ⟨hpre, fun r hr => (ih r (h.2 r hr)).mono fun r' k' hq => ?_⟩
    exact ⟨hq.1, htrans _ _ _ (hlearn r) hq.2⟩

/-- The rule of one request, then on. -/
theorem Stays.ask_bind {p : P} {f : R p → Prog P R β} {Q : Except String β → Prop} (h : allowed p)
    (hf : ∀ r, post p r → (f r).Stays allowed post Q) :
    ((ask p : Prog P R (R p)).bind f).Stays allowed post Q := ⟨h, hf⟩

/-- The rule of sequencing, when nothing is to be said of the outcome. -/
theorem Stays.bind (h : p.Stays allowed post fun _ => True)
    (hf : ∀ a, (f a).Stays allowed post fun _ => True) :
    (p.bind f).Stays allowed post fun _ => True := by
  refine obeys_bind.mpr (Obeys.mono h ?_)
  rintro (e | a) u -
  · trivial
  · exact hf a

/-- What allowed requests do to the state, a program that stays within them does. -/
theorem Stays.wlp {Q : Except String α → Prop} {s : S} (rel : S → S → Prop) (hrefl : ∀ s, rel s s)
    (htrans : ∀ s₁ s₂ s₃, rel s₁ s₂ → rel s₂ s₃ → rel s₁ s₃)
    (hstep : ∀ s p r s', allowed p → h p s = some (r, s') → post p r ∧ rel s s')
    (hp : p.Stays allowed post Q) : p.wlp h s fun r s' => Q r ∧ rel s s' := by
  induction p generalizing s with
  | ret a => exact ⟨hp, hrefl s⟩
  | fail e => exact ⟨hp, hrefl s⟩
  | call p f ih =>
    intro r s' hr
    obtain ⟨hpost, hrel⟩ := hstep s p r s' hp.1 hr
    exact wlp_mono (ih r (hp.2 r hpost)) fun _ _ hq => ⟨hq.1, htrans _ _ _ hrel hq.2⟩

/-- One request, one step of an invariant of the state and the caller's
knowledge, provided the caller keeps its contract. -/
def Contract.Keeps (c : Contract P R M) (h : Handler P R S) (I : S → M → Prop) : Prop :=
  ∀ s k p r s', I s k → c.pre k p → h p s = some (r, s') → c.post p r ∧ I s' (c.learn k p r)

/-- A program that obeys its contract keeps the invariant in every state it passes
through, and what is left of it there still obeys. -/
theorem Obeys.visits (hI : c.Keeps h I) {s s' : S} (hp : p.Obeys c k Q) (hs : I s k)
    (hv : Visits h p s s') :
    ∃ (rest : Prog P R α) (k' : M), I s' k' ∧ rest.Obeys c k' Q ∧ p.run h s = rest.run h s' := by
  induction hv generalizing k with
  | here => exact ⟨_, k, hs, hp, rfl⟩
  | step hr _ ih =>
    obtain ⟨hpost, hs'⟩ := hI _ _ _ _ _ hs hp.1 hr
    obtain ⟨rest, k', hI', hrest, hrun⟩ := ih (hp.2 _ hpost) hs'
    refine ⟨rest, k', hI', hrest, ?_⟩
    rw [Prog.run, hr]
    exact hrun

/-- … and ends, when run alone, with the invariant and its postcondition, both for
what it has then observed. -/
theorem Obeys.run (hI : c.Keeps h I) {k' : M} {s s' : S} {r : Except String α} (hp : p.Obeys c k Q)
    (hs : I s k) (hrun : p.run (h.observing c.learn) (s, k) = some (r, s', k')) :
    I s' k' ∧ Q r k' := by
  induction p generalizing s k with
  | ret a => cases hrun; exact ⟨hs, hp⟩
  | fail e => cases hrun; exact ⟨hs, hp⟩
  | call p f ih =>
    rw [Prog.run, Handler.observing] at hrun
    cases hr : h p s with
    | none => rw [hr] at hrun; cases hrun
    | some a =>
      rw [hr] at hrun
      obtain ⟨hpost, hs'⟩ := hI _ _ _ _ _ hs hp.1 hr
      exact ih a.1 (hp.2 _ hpost) hs' hrun

/-- … and so in every state of a run that is watched, for what was observed by then. -/
theorem Obeys.watched (hI : c.Keeps h I) {k' : M} {s s' : S} (hp : p.Obeys c k Q) (hs : I s k)
    (hv : Visits (h.observing c.learn) p (s, k) (s', k')) : I s' k' := by
  have hkeeps : c.Keeps (h.observing c.learn) fun sk k => sk.2 = k ∧ I sk.1 k := by
    rintro ⟨s, _⟩ k p r ⟨s', k'⟩ ⟨rfl, hi⟩ hpre hr
    obtain ⟨⟨r, s'⟩, hstep, heq⟩ := Option.map_eq_some_iff.mp hr
    cases heq
    obtain ⟨hpost, hi'⟩ := hI _ _ _ _ _ hi hpre hstep
    exact ⟨hpost, rfl, hi'⟩
  obtain ⟨-, -, ⟨rfl, hi⟩, -⟩ := hp.visits hkeeps ⟨rfl, hs⟩ hv
  exact hi

end Obeys

end Prog

/-! ## Interleaving -/

/-- A program under way, with what it has learnt so far. -/
structure Thread (P : Type) (R : P → Type) (M α : Type) where
  /-- what is left to do -/
  prog : Prog P R α
  /-- what the answers so far taught it -/
  know : M

/-- Threads `ι` over one shared state. -/
structure Pool (ι P : Type) (R : P → Type) (S M α : Type) where
  /-- the threads -/
  threads : ι → Thread P R M α
  /-- the state they share -/
  state : S

namespace Pool

open Prog

variable {ι P : Type} {R : P → Type} {S M α : Type} [DecidableEq ι] {h : Handler P R S}
  {learn : M → (p : P) → R p → M} {cond : S → (ι → M) → ι → P → Prop}

/-- Let thread `i` make its next request. A finished thread, and one whose
request has to wait, stay as they are. -/
def step (h : Handler P R S) (learn : M → (p : P) → R p → M) (c : Pool ι P R S M α) (i : ι) :
    Pool ι P R S M α :=
  match (c.threads i).prog with
  | .ret _ => c
  | .fail _ => c
  | .call p f =>
    match h p c.state with
    | none => c
    | some (r, s') =>
      { threads := Function.update c.threads i ⟨f r, learn (c.threads i).know p r⟩, state := s' }

/-- A whole schedule. -/
def run (h : Handler P R S) (learn : M → (p : P) → R p → M) (c : Pool ι P R S M α)
    (schedule : List ι) : Pool ι P R S M α :=
  schedule.foldl (step h learn) c

/-- What every thread knows. -/
def known (c : Pool ι P R S M α) (i : ι) : M := (c.threads i).know

/-- A condition on the state, what every thread knows, the thread that moves and
its request holds before each step of the schedule. -/
def AllSteps (h : Handler P R S) (learn : M → (p : P) → R p → M)
    (cond : S → (ι → M) → ι → P → Prop) : Pool ι P R S M α → List ι → Prop
  | _, [] => True
  | c, i :: rest =>
    (∀ p f, (c.threads i).prog = .call p f → cond c.state c.known i p) ∧
      AllSteps h learn cond (c.step h learn i) rest

/-- Evaluate `AllSteps`. -/
def checkSteps (h : Handler P R S) (learn : M → (p : P) → R p → M)
    (cond : S → (ι → M) → ι → P → Prop) [∀ s known i p, Decidable (cond s known i p)] :
    Pool ι P R S M α → List ι → Bool
  | _, [] => true
  | c, i :: rest =>
    (match (c.threads i).prog with
      | .call p _ => decide (cond c.state c.known i p)
      | _ => true) && checkSteps h learn cond (c.step h learn i) rest

theorem allSteps_of_check [∀ s known i p, Decidable (cond s known i p)] :
    ∀ {schedule : List ι} {c : Pool ι P R S M α}, checkSteps h learn cond c schedule = true →
      AllSteps h learn cond c schedule := by
  intro schedule
  induction schedule with
  | nil => intro c _; trivial
  | cons i rest ih =>
    intro c hcheck
    rw [checkSteps, Bool.and_eq_true] at hcheck
    refine ⟨fun p f hp => ?_, ih hcheck.2⟩
    rw [hp] at hcheck
    exact of_decide_eq_true hcheck.1

/-- What a step can be: nothing, or one request of thread `i` served. -/
theorem step_cases (h : Handler P R S) (learn : M → (p : P) → R p → M) (c : Pool ι P R S M α)
    (i : ι) :
    c.step h learn i = c ∨
      ∃ p f r s', (c.threads i).prog = .call p f ∧ h p c.state = some (r, s') ∧
        c.step h learn i =
          { threads := Function.update c.threads i ⟨f r, learn (c.threads i).know p r⟩
            state := s' } := by
  cases hp : (c.threads i).prog with
  | ret a => left; simp only [step, hp]
  | fail e => left; simp only [step, hp]
  | call p f =>
    cases hr : h p c.state with
    | none => left; simp only [step, hp, hr]
    | some a => right; exact ⟨p, f, a.1, a.2, rfl, hr, by simp only [step, hp, hr]⟩

/-- **Interleaving.** If every thread obeys its contract, and one request of any
thread keeps the invariant whenever the step condition holds, then after every
schedule whose steps meet the condition the invariant holds and every thread
still obeys its contract from what it then knows. -/
theorem invariant {pre : ι → M → P → Prop} {post : (p : P) → R p → Prop}
    {Q : ι → Except String α → M → Prop} {I : S → (ι → M) → Prop}
    (hstep : ∀ s ks i p r s', I s ks → pre i (ks i) p → cond s ks i p → h p s = some (r, s') →
      post p r ∧ I s' (Function.update ks i (learn (ks i) p r))) :
    ∀ (schedule : List ι) (c : Pool ι P R S M α),
      (∀ i, (c.threads i).prog.Obeys ⟨pre i, post, learn⟩ (c.known i) (Q i)) →
      I c.state c.known → AllSteps h learn cond c schedule →
      I (c.run h learn schedule).state (c.run h learn schedule).known ∧
        ∀ i, ((c.run h learn schedule).threads i).prog.Obeys ⟨pre i, post, learn⟩
          ((c.run h learn schedule).known i) (Q i) := by
  intro schedule
  induction schedule with
  | nil => intro c hob hI _; exact ⟨hI, hob⟩
  | cons i rest ih =>
    intro c hob hI hall
    obtain ⟨hcond, hrest⟩ := hall
    refine ih (c.step h learn i) ?_ ?_ hrest
    · intro j
      rcases step_cases h learn c i with heq | ⟨p, f, r, s', hp, hr, heq⟩
      · rw [heq]; exact hob j
      · rw [heq]
        by_cases hj : j = i
        · subst hj
          have hob' := hob j
          rw [hp] at hob'
          obtain ⟨hpost, -⟩ := hstep _ _ _ _ _ _ hI hob'.1 (hcond p f hp) hr
          simpa [known] using hob'.2 r hpost
        · simpa [known, Function.update_of_ne hj] using hob j
    · rcases step_cases h learn c i with heq | ⟨p, f, r, s', hp, hr, heq⟩
      · rw [heq]; exact hI
      · have hob' := hob i
        rw [hp] at hob'
        obtain ⟨-, hI'⟩ := hstep _ _ _ _ _ _ hI hob'.1 (hcond p f hp) hr
        rw [heq]
        have hk : known (⟨Function.update c.threads i ⟨f r, learn (c.threads i).know p r⟩, s'⟩ :
            Pool ι P R S M α) = Function.update c.known i (learn (c.known i) p r) := by
          funext j
          by_cases hj : j = i
          · subst hj; simp [known]
          · simp [known, Function.update_of_ne hj]
        rw [hk]
        exact hI'

end Pool
