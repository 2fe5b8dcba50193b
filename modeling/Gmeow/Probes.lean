import Gmeow.Breaker
import Gmeow.Runs

/-!
# Probes of an open circuit

Many `Handle` calls share the circuit breaker of an analyzer: each asks `allow`, and the jobs that
are let through end by recording a success or a failure, or without a record when their object is
gone. Results carry no identity, so the failure of a job that was let through before the circuit
opened takes away the flag of the probe that is under way.

* `Probing`, `step` — the breaker with the jobs in flight, each marked if the circuit was open when
  it was let through;
* `one_probe` — as long as no job from before records a failure while a probe is in flight, there is
  at most one probe at a time; with one late failure there are two (`two_probes`).
-/

namespace Gmeow.Probes

open Runs

/-- The failures of an analyzer have reached the threshold. -/
def tripped (breaker : CircuitBreaker) (key : String) : Bool :=
  (breaker.states.get key).any fun state => decide (breaker.threshold ≤ state.failures)

/-- The breaker and the jobs in flight, marked if they were let through behind the trip. -/
structure Probing : Type where
  breaker : CircuitBreaker
  clock : Time := 0
  flights : List Bool := []

/-- What the `Handle` calls do. -/
inductive Act : Type where
  /-- a new job asks `allow` -/
  | allow (now : Time) : Act
  /-- the job at this place in the list succeeds -/
  | recordSuccess (job : Nat) : Act
  /-- it fails -/
  | recordFailure (now : Time) (job : Nat) : Act
  /-- it ends without a record -/
  | drop (job : Nat) : Act

/-- One call; the clock does not go back. -/
def step (key : String) (s : Probing) : Act → Option Probing
  | .allow now =>
    if now < s.clock then none
    else
      let result := s.breaker.allow now key
      some {
        breaker := result.2
        clock := now
        flights := if result.1 then s.flights ++ [tripped s.breaker key] else s.flights }
  | .recordSuccess job =>
    if s.flights.length ≤ job then none
    -- with the success the circuit is closed: what is in flight is from before the next trip
    else some { s with
      breaker := s.breaker.recordSuccess key
      flights := (s.flights.eraseIdx job).map fun _ => false }
  | .recordFailure now job =>
    if now < s.clock ∨ s.flights.length ≤ job then none
    else some {
      breaker := s.breaker.recordFailure now key
      clock := now
      flights := s.flights.eraseIdx job }
  | .drop job =>
    if s.flights.length ≤ job then none else some { s with flights := s.flights.eraseIdx job }

/-- A failure is not recorded late: it is that of the probe, or there is no probe in flight. -/
def Timely (s : Probing) : Act → Prop
  | .recordFailure _ job => s.flights[job]? = some true ∨ true ∉ s.flights
  | _ => True

instance (s : Probing) : ∀ act, Decidable (Timely s act)
  | .allow _ => inferInstanceAs (Decidable True)
  | .recordSuccess _ => inferInstanceAs (Decidable True)
  | .recordFailure _ job =>
    inferInstanceAs (Decidable (s.flights[job]? = some true ∨ true ∉ s.flights))
  | .drop _ => inferInstanceAs (Decidable True)

/-! ## What the calls do -/

/-- A closed circuit lets everyone through; an open one lets a job through only without the flag,
and sets it. -/
theorem allow_spec (breaker : CircuitBreaker) (now : Time) (key : String) :
    (tripped breaker key = false ∧ breaker.allow now key = (true, breaker)) ∨
      tripped breaker key = true ∧ (breaker.allow now key = (false, breaker) ∨
        breaker.halfOpen key = false ∧ (breaker.allow now key).1 = true ∧
          (breaker.allow now key).2.halfOpen key = true ∧
          tripped (breaker.allow now key).2 key = true) := by
  rw [tripped, CircuitBreaker.allow]
  cases hget : breaker.states.get key with
  | none => exact Or.inl ⟨rfl, rfl⟩
  | some state =>
    dsimp only
    split
    · rename_i hfew
      exact Or.inl ⟨decide_eq_false (not_le.mpr hfew), rfl⟩
    rename_i hmany
    refine Or.inr ⟨decide_eq_true (not_lt.mp hmany), ?_⟩
    split
    · exact Or.inl rfl
    split
    · exact Or.inl rfl
    rename_i hflag
    refine Or.inr ⟨?_, rfl, ?_, ?_⟩
    · rw [CircuitBreaker.halfOpen, hget, Option.any_some, Bool.eq_false_iff]
      exact hflag
    · rw [CircuitBreaker.halfOpen, OrdMap.get_set_self, Option.any_some]
    · rw [tripped, OrdMap.get_set_self, Option.any_some]
      exact decide_eq_true (not_lt.mp hmany)

/-! ## What holds throughout -/

/-- There is at most one probe in flight, and while there is one the circuit is open with its
flag set. -/
structure OneProbe (key : String) (s : Probing) : Prop where
  atMost : s.flights.count true ≤ 1
  marked : true ∈ s.flights → tripped s.breaker key = true ∧ s.breaker.halfOpen key = true

theorem count_eraseIdx_le (flights : List Bool) (job : Nat) :
    (flights.eraseIdx job).count true ≤ flights.count true :=
  (List.eraseIdx_sublist flights job).count_le true

/-- The probe was the only one. -/
theorem not_mem_eraseIdx {flights : List Bool} {job : Nat} (hone : flights.count true ≤ 1)
    (hjob : flights[job]? = some true ∨ true ∉ flights) : true ∉ flights.eraseIdx job := by
  rcases hjob with hjob | hnone
  · intro hmem
    have hpos : 0 < (flights.eraseIdx job).count true := List.count_pos_iff.mpr hmem
    obtain ⟨hlt, hget⟩ := List.getElem?_eq_some_iff.mp hjob
    have hperm := (List.getElem_cons_eraseIdx_perm hlt).count_eq true
    rw [hget, List.count_cons_self] at hperm
    omega
  · exact fun hmem => hnone ((List.eraseIdx_sublist flights job).mem hmem)

/-- **One call keeps it**, unless it records a failure late. -/
theorem OneProbe.step {key : String} {s s' : Probing} {act : Act} (h : OneProbe key s)
    (hstep : Runs.within Timely (step key) s act = some s') : OneProbe key s' := by
  obtain ⟨htimely, hstep⟩ := within_eq_some.mp hstep
  cases act with
  | allow now =>
    rw [Probes.step] at hstep
    split at hstep
    · cases hstep
    · obtain rfl := Option.some.inj hstep
      rcases allow_spec s.breaker now key with ⟨hclosed, hallow⟩ | ⟨hopen, hallow | hprobe⟩
      · rw [hallow, hclosed]
        dsimp only
        rw [if_pos rfl]
        refine ⟨?_, fun hmem => h.marked ?_⟩
        · rw [List.count_append]
          exact h.atMost
        · rcases List.mem_append.mp hmem with hmem | hnew
          · exact hmem
          · cases List.mem_singleton.mp hnew
      · rw [hallow]
        exact ⟨h.atMost, h.marked⟩
      · obtain ⟨hflag, hallowed, hset, hstill⟩ := hprobe
        -- the flag was not set, so there was no probe
        have hnone : true ∉ s.flights := by
          intro hmem
          rw [(h.marked hmem).2] at hflag
          cases hflag
        rw [hallowed, hopen]
        refine ⟨?_, fun _ => ⟨hstill, hset⟩⟩
        dsimp only
        rw [if_pos rfl, List.count_append, List.count_eq_zero.mpr hnone]
        decide
  | recordSuccess job =>
    rw [Probes.step] at hstep
    split at hstep
    · cases hstep
    · cases hstep
      have hnone : true ∉ (s.flights.eraseIdx job).map fun _ => false := by simp
      exact ⟨(List.count_eq_zero.mpr hnone).le.trans zero_le_one, fun hmem => absurd hmem hnone⟩
  | recordFailure now job =>
    rw [Probes.step] at hstep
    split at hstep
    · cases hstep
    · cases hstep
      have hnone := not_mem_eraseIdx h.atMost htimely
      exact ⟨(count_eraseIdx_le s.flights job).trans h.atMost, fun hmem => absurd hmem hnone⟩
  | drop job =>
    rw [Probes.step] at hstep
    split at hstep
    · cases hstep
    · cases hstep
      exact ⟨(count_eraseIdx_le s.flights job).trans h.atMost, fun hmem =>
        h.marked ((List.eraseIdx_sublist s.flights job).mem hmem)⟩

/-- **At most one probe is in flight**, in every interleaving in which no failure of a job from
before is recorded while a probe is in flight. -/
theorem one_probe {key : String} {breaker : CircuitBreaker} {acts : List Act} {s : Probing}
    (hrun : exec (Runs.within Timely (step key)) { breaker := breaker } acts = some s) :
    s.flights.count true ≤ 1 := by
  have hstart : OneProbe key { breaker := breaker } := ⟨Nat.zero_le 1, nofun⟩
  exact (exec_invariant (fun h hstep => OneProbe.step h hstep) hstart hrun).atMost

/-- Six jobs are let through and five of them fail, which trips the circuit. When its time has come,
a probe is let through. -/
def lateProbe : List Act :=
  List.replicate 6 (.allow 0) ++ List.replicate 5 (.recordFailure 0 0) ++ [.allow 15000000000]

/-- The probe is in flight beside a job from before. -/
theorem one_probe_beside_old :
    ∃ s, exec (Runs.within Timely (step "a")) { breaker := { } } lateProbe = some s ∧
      s.flights = [false, true] ∧ s.flights.count true ≤ 1 := by
  have hflights : (exec (Runs.within Timely (step "a")) { breaker := { } } lateProbe).map
      Probing.flights = some [false, true] := by decide +kernel
  obtain ⟨s, hs, heq⟩ := Option.map_eq_some_iff.mp hflights
  exact ⟨s, hs, heq, one_probe hs⟩

/-- The sixth job fails late: the flag of the probe is gone, and behind the next window another
probe is let through. -/
theorem two_probes :
    ((exec (step "a") { breaker := { } }
      (lateProbe ++ [.recordFailure 15000000000 0, .allow 45000000000])).map
        fun s => s.flights) = some [true, true] := by
  decide +kernel

end Gmeow.Probes
