import Gmeow.World

/-!
# The circuit breaker of the worker

A worker keeps, for each analyzer, how often it failed in a row. After a number of failures the
circuit opens: jobs are parked until a time that grows with every opening. When that time has
come a single job is let through as a probe, and a flag keeps the others out until the result of
the probe is recorded.

* `CircuitBreaker` with `allow`, `recordSuccess`, `recordFailure`, `isOpen`;
* `workerHandle` — one `Handle` call, with all its exits;
* `handleBreaker` — its requests over the breaker, with every outcome a job can have;
* `ProbePending` — the flag of an analyzer is set only while a probe of it is under way that has
  not recorded its result;
* `breaker_never_wedges` — it is so in every interleaving in which no probe drops its job as
  gone with the flag still on it.
-/

namespace Gmeow

open Prog

/-! ## Specs and jobs -/

/-- `contracts.AnalyzerSpec`, as far as the jobs name it. -/
structure AnalyzerSpec : Type where
  name : String
  version : String

/-- `contracts.AnalyzerJob`, as far as `Handle` reads it. -/
structure AnalyzerJob (D : Type) : Type where
  analyzer : AnalyzerSpec
  objectDigest : D

/-! ## The breaker -/

/-- `breakerState`. -/
structure BreakerState : Type where
  openUntil : Time := zeroTime
  failures : Nat := 0
  openSequence : Nat := 0
  halfOpen : Bool := false
  deriving DecidableEq

/-- `circuitBreaker`; the clock is read by the caller. -/
structure CircuitBreaker : Type where
  states : OrdMap String BreakerState := { }
  threshold : Nat := 5
  baseBackoff : Time := 15000000000
  maxBackoff : Time := 600000000000

/-- `analyzerKey`. -/
def analyzerKey (spec : AnalyzerSpec) : String := spec.name ++ "@" ++ spec.version

namespace CircuitBreaker

/-- The loop of `backoffFor`, with the doublings left. -/
def backoffLoop (maxBackoff : Time) : Nat → Time → Time
  | 0, backoff => if backoff > maxBackoff then maxBackoff else backoff
  | left + 1, backoff =>
    if backoff * 2 ≥ maxBackoff then maxBackoff else backoffLoop maxBackoff left (backoff * 2)

variable (breaker : CircuitBreaker)

/-- `backoffFor`. -/
def backoffFor (sequence : Nat) : Time :=
  backoffLoop breaker.maxBackoff (sequence - 1) breaker.baseBackoff

/-- `allow`. -/
def allow (now : Time) (key : String) : Bool × CircuitBreaker :=
  match breaker.states.get key with
  | none => (true, breaker)
  | some state =>
    if state.failures < breaker.threshold then (true, breaker)
    else if now < state.openUntil then (false, breaker)
    else if state.halfOpen then (false, breaker)
    else (true, { breaker with states := breaker.states.set key { state with halfOpen := true } })

/-- `recordSuccess`. -/
def recordSuccess (key : String) : CircuitBreaker :=
  { breaker with states := breaker.states.erase key }

/-- `recordFailure`. -/
def recordFailure (now : Time) (key : String) : CircuitBreaker :=
  let state := (breaker.states.get key).getD { }
  let state := { state with failures := state.failures + 1 }
  let state :=
    if state.halfOpen || state.failures ≥ breaker.threshold then
      { state with
        halfOpen := false
        openSequence := state.openSequence + 1
        openUntil := now + breaker.backoffFor (state.openSequence + 1) }
    else state
  { breaker with states := breaker.states.set key state }

/-- `isOpen`. -/
def isOpen (now : Time) (key : String) : Bool :=
  match breaker.states.get key with
  | none => false
  | some state => if state.failures < breaker.threshold then false else now < state.openUntil

/-- The flag of an analyzer. -/
def halfOpen (key : String) : Bool := (breaker.states.get key).any (·.halfOpen)

variable {breaker} {key other : String}

/-- A result recorded takes the flag away, whatever the result. -/
theorem halfOpen_recordFailure_self (now : Time) (key : String) :
    (breaker.recordFailure now key).halfOpen key = false := by
  rw [halfOpen, recordFailure]
  dsimp only
  rw [OrdMap.get_set_self, Option.any_some]
  split
  · rfl
  · rename_i hnot
    rw [Bool.or_eq_true, not_or, Bool.not_eq_true] at hnot
    exact hnot.1

theorem halfOpen_recordFailure_ne (now : Time) (hne : other ≠ key) :
    (breaker.recordFailure now key).halfOpen other = breaker.halfOpen other := by
  rw [halfOpen, recordFailure, halfOpen]
  dsimp only
  rw [OrdMap.get_set_ne _ _ hne]

theorem halfOpen_recordSuccess_self (key : String) :
    (breaker.recordSuccess key).halfOpen key = false := by
  rw [halfOpen, recordSuccess]
  dsimp only
  rw [OrdMap.get_erase_self, Option.any_none]

theorem halfOpen_recordSuccess_ne (hne : other ≠ key) :
    (breaker.recordSuccess key).halfOpen other = breaker.halfOpen other := by
  rw [halfOpen, recordSuccess, halfOpen]
  dsimp only
  rw [OrdMap.get_erase_ne _ hne]

/-- What `allow` does: nothing, or the flag is set for the one it lets through. -/
theorem allow_cases (now : Time) (key : String) :
    (breaker.allow now key).2 = breaker ∨
      breaker.halfOpen key = false ∧ (breaker.allow now key).1 = true ∧
        (breaker.allow now key).2.halfOpen key = true ∧
        ∀ other, other ≠ key → (breaker.allow now key).2.halfOpen other = breaker.halfOpen other := by
  rw [allow]
  cases hget : breaker.states.get key with
  | none => exact Or.inl rfl
  | some state =>
    dsimp only
    split
    · exact Or.inl rfl
    split
    · exact Or.inl rfl
    split
    · exact Or.inl rfl
    rename_i hflag
    refine Or.inr ⟨?_, rfl, ?_, fun other hne => ?_⟩
    · rw [halfOpen, hget, Option.any_some]
      exact Bool.eq_false_iff.mpr hflag
    · rw [halfOpen, OrdMap.get_set_self, Option.any_some]
    · rw [halfOpen, OrdMap.get_set_ne _ _ hne, halfOpen]

/-- Without the flag an analyzer is let through once its time has come. -/
theorem allow_of_not_halfOpen {now : Time} (hflag : breaker.halfOpen key = false)
    (htime : ∀ state, breaker.states.get key = some state → state.openUntil ≤ now) :
    (breaker.allow now key).1 = true := by
  rw [allow]
  rw [halfOpen] at hflag
  cases hget : breaker.states.get key with
  | none => rfl
  | some state =>
    rw [hget, Option.any_some] at hflag
    dsimp only
    rw [hflag, if_neg (not_lt.mpr (htime state hget))]
    split
    · rfl
    · rfl

/-- With the flag it never is. -/
theorem allow_of_halfOpen (hflag : breaker.halfOpen key = true)
    (hfailures : ∀ state, breaker.states.get key = some state → breaker.threshold ≤ state.failures)
    (now : Time) : (breaker.allow now key).1 = false := by
  obtain ⟨state, hget, hhalf⟩ := (Option.any_eq_true _ _).mp hflag
  rw [allow, hget]
  dsimp only
  rw [if_neg (not_lt.mpr (hfailures state hget)), hhalf]
  split
  · rfl
  · rfl

end CircuitBreaker

/-! ## One call -/

/-- An error of a job, as far as `errors.Is` is asked about it. -/
structure JobError : Type where
  text : String
  /-- `os.ErrNotExist` -/
  notExist : Bool := false
  /-- `ErrAnalyzerUnavailable` -/
  unavailable : Bool := false
  deriving DecidableEq

/-- What `allow` answers; not in the source is whether the one asking was let through as a
probe. -/
structure Admission : Type where
  allowed : Bool
  probe : Bool

/-- The requests of `Handle`: to the breaker, to the store and to the receipt. -/
inductive HandlePrim (D : Type) : Type where
  | allow : String → HandlePrim D
  | sleepBeforePark : HandlePrim D
  | process : AnalyzerJob D → HandlePrim D
  /-- whether the manifest does not exist -/
  | readManifest : D → HandlePrim D
  | recordFailure : String → HandlePrim D
  | isOpen : String → HandlePrim D
  | recordSuccess : String → HandlePrim D
  | ack : HandlePrim D
  | park : HandlePrim D
  | retry : JobError → HandlePrim D

/-- Their answers. -/
@[reducible] def HandleResp {D : Type} : HandlePrim D → Type
  | .allow _ => Admission
  | .process _ => Except JobError Unit
  | .readManifest _ => Bool
  | .isOpen _ => Bool
  | .recordFailure _ => Unit
  | .recordSuccess _ => Unit
  | _ => Except String Unit

/-- Programs of a worker. -/
abbrev HandleProc (D : Type) (α : Type) : Type := Prog (HandlePrim D) HandleResp α

section Handle

variable {D : Type}

/-- One request of a worker. -/
abbrev askWorker (p : HandlePrim D) : HandleProc D (HandleResp p) := Prog.ask p

/-- The end of a call: what the receipt answered. -/
def settled (context : String) : Except String Unit → HandleProc D Unit
  | .error e => .fail (context ++ e)
  | .ok () => .ret ()

/-- `park`. -/
def parkReceipt : HandleProc D Unit := do
  settled "park analysis job: " (← askWorker .park)

/-- The failure of a job in `Handle`, with whether its object is gone. -/
def handleFailure (job : AnalyzerJob D) (err : JobError) (gone : Bool) : HandleProc D Unit := do
  if gone then settled "ack bogus analysis job: " (← askWorker .ack)
  else
    askWorker (.recordFailure (analyzerKey job.analyzer))
    if err.unavailable then parkReceipt
    else if ← askWorker (.isOpen (analyzerKey job.analyzer)) then parkReceipt
    else settled "route failed analysis job: " (← askWorker (.retry err))

/-- `Handle` of a job that is let through. -/
def handleAllowed (job : AnalyzerJob D) : HandleProc D Unit := do
  match ← askWorker (.process job) with
  | .ok () =>
    askWorker (.recordSuccess (analyzerKey job.analyzer))
    settled "ack analysis job: " (← askWorker .ack)
  | .error err =>
    -- the analyzer may miss a file of its own, so the object is looked up
    if err.notExist then handleFailure job err (← askWorker (.readManifest job.objectDigest))
    else handleFailure job err false

/-- `Handle`. -/
def workerHandle (job : AnalyzerJob D) : HandleProc D Unit := do
  if (← askWorker (.allow (analyzerKey job.analyzer))).allowed then handleAllowed job
  else
    match ← askWorker .sleepBeforePark with
    | .error e => .fail e
    | .ok () => parkReceipt

end Handle

/-! ## The breaker under its callers -/

/-- What happens at a request that is not the breaker's doing. -/
structure HandleChance : Type where
  now : Time := 0
  /-- the outcome of `Process` -/
  processed : Except JobError Unit := .ok ()
  /-- whether the manifest is found not to exist -/
  gone : Bool := false
  /-- the error of the receipt, or of the context while sleeping -/
  fault : Option String := none

/-- The breaker, and what happens to come. -/
structure BreakerWorld : Type where
  breaker : CircuitBreaker := { }
  chances : Nat → HandleChance := fun _ => { }

/-- One request of a worker. -/
def answerHandle {D : Type} (chance : HandleChance) :
    (p : HandlePrim D) → CircuitBreaker → HandleResp p × CircuitBreaker
  | .allow key, b =>
    let out := b.allow chance.now key
    ({ allowed := out.1, probe := out.2.halfOpen key && !b.halfOpen key }, out.2)
  | .process _, b => (chance.processed, b)
  | .readManifest _, b => (chance.gone, b)
  | .recordFailure key, b => ((), b.recordFailure chance.now key)
  | .isOpen key, b => (b.isOpen chance.now key, b)
  | .recordSuccess key, b => ((), b.recordSuccess key)
  | .sleepBeforePark, b => (chance.fault.elim (.ok ()) .error, b)
  | .ack, b => (chance.fault.elim (.ok ()) .error, b)
  | .park, b => (chance.fault.elim (.ok ()) .error, b)
  | .retry _, b => (chance.fault.elim (.ok ()) .error, b)

/-- One request, with what happens at it. -/
def handleBreaker {D : Type} : Handler (HandlePrim D) HandleResp BreakerWorld := fun p s =>
  let out := answerHandle (s.chances 0) p s.breaker
  some (out.1, { breaker := out.2, chances := fun n => s.chances (n + 1) })

/-- What has come of a call so far. -/
structure CallRecord : Type where
  /-- the analyzer it asked about -/
  key : Option String := none
  probe : Bool := false
  gone : Bool := false
  recorded : Bool := false
  /-- it has returned -/
  finished : Bool := false
  deriving DecidableEq

/-- What an answer tells about a call. -/
def CallRecord.learn {D : Type} (k : CallRecord) : (p : HandlePrim D) → HandleResp p → CallRecord
  | .allow key, admission => { k with key := some key, probe := admission.probe }
  | .readManifest _, gone => { k with gone := gone }
  | .recordFailure _, _ => { k with recorded := true }
  | .recordSuccess _, _ => { k with recorded := true }
  | .sleepBeforePark, .error _ => { k with finished := true }
  | .ack, _ => { k with finished := true }
  | .park, _ => { k with finished := true }
  | .retry _, _ => { k with finished := true }
  | _, _ => k

/-- A probe under way that has not recorded its result. -/
def CallRecord.Probing (k : CallRecord) (key : String) : Prop :=
  k.key = some key ∧ k.probe = true ∧ k.recorded = false ∧ k.finished = false

instance (k : CallRecord) (key : String) : Decidable (k.Probing key) :=
  inferInstanceAs (Decidable (_ ∧ _))

/-- What a call does next: it first asks to be let through, records the result of its own
analyzer, and returns without a record only from a job that was no probe or is gone. -/
def MayHandle {D : Type} (k : CallRecord) (p : HandlePrim D) : Prop :=
  k.finished = false ∧ match p with
    | .allow _ => k = { }
    | .recordFailure key => k.key = some key
    | .recordSuccess key => k.key = some key
    | .sleepBeforePark => k.probe = false
    | .park => k.probe = true → k.recorded = true
    | .retry _ => k.probe = true → k.recorded = true
    | _ => True

/-- Only those that are let through are probes. -/
def AdmitsProbes {D : Type} : (p : HandlePrim D) → HandleResp p → Prop
  | .allow _, admission => admission.probe = true → admission.allowed = true
  | _, _ => True

section Calls

variable {D : Type}

theorem answerHandle_admits (chance : HandleChance) (p : HandlePrim D) (b : CircuitBreaker) :
    AdmitsProbes p (answerHandle chance p b).1 := by
  cases p with
  | allow key =>
    intro hprobe
    rcases b.allow_cases chance.now key with hsame | ⟨-, hallowed, -⟩
    · dsimp only [answerHandle] at hprobe
      rw [hsame, Bool.and_not_self] at hprobe
      cases hprobe
    · exact hallowed
  | _ => trivial

/-- The contract of a call. -/
abbrev handleContract : Contract (HandlePrim D) HandleResp CallRecord :=
  ⟨MayHandle, AdmitsProbes, CallRecord.learn⟩

/-- A call that has returned. -/
abbrev Returned (_ : Except String Unit) (k : CallRecord) : Prop := k.finished = true

variable {k : CallRecord}

theorem settled_obeys (hfinished : k.finished = true) (context : String) (r : Except String Unit) :
    (settled context r : HandleProc D Unit).Obeys handleContract k Returned := by
  cases r with
  | error e => exact hfinished
  | ok => exact hfinished

theorem parkReceipt_obeys (hfinished : k.finished = false)
    (hrecorded : k.probe = true → k.recorded = true) :
    (parkReceipt : HandleProc D Unit).Obeys handleContract k Returned := by
  refine Obeys.ask_bind ⟨hfinished, hrecorded⟩ fun r _ => ?_
  exact settled_obeys rfl _ r

/-- A failure is put down to the analyzer that was allowed; a job whose object is gone is only
acked. -/
theorem handleFailure_obeys {job : AnalyzerJob D} (err : JobError) (gone : Bool)
    (hfinished : k.finished = false) (hkey : k.key = some (analyzerKey job.analyzer)) :
    (handleFailure job err gone).Obeys handleContract k Returned := by
  rw [handleFailure]
  split
  · refine Obeys.ask_bind ⟨hfinished, trivial⟩ fun r _ => ?_
    exact settled_obeys rfl _ r
  · refine Obeys.ask_bind ⟨hfinished, hkey⟩ fun _ _ => ?_
    split
    · exact parkReceipt_obeys hfinished fun _ => rfl
    · refine Obeys.ask_bind ⟨hfinished, trivial⟩ fun opened _ => ?_
      split
      · exact parkReceipt_obeys hfinished fun _ => rfl
      · refine Obeys.ask_bind ⟨hfinished, fun _ => rfl⟩ fun r _ => ?_
        exact settled_obeys rfl _ r

theorem handleAllowed_obeys {job : AnalyzerJob D} (hfinished : k.finished = false)
    (hkey : k.key = some (analyzerKey job.analyzer)) :
    (handleAllowed job).Obeys handleContract k Returned := by
  refine Obeys.ask_bind ⟨hfinished, trivial⟩ fun result _ => ?_
  cases result with
  | ok =>
    refine Obeys.ask_bind ⟨hfinished, hkey⟩ fun _ _ => ?_
    refine Obeys.ask_bind ⟨hfinished, trivial⟩ fun r _ => ?_
    exact settled_obeys rfl _ r
  | error err =>
    dsimp only
    split
    · refine Obeys.ask_bind ⟨hfinished, trivial⟩ fun gone _ => ?_
      exact handleFailure_obeys err gone hfinished hkey
    · exact handleFailure_obeys err false hfinished hkey

/-- Every call keeps the contract. -/
theorem workerHandle_obeys (job : AnalyzerJob D) :
    (workerHandle job).Obeys handleContract { } Returned := by
  refine Obeys.ask_bind ⟨rfl, rfl⟩ fun admission hadmits => ?_
  split
  · exact handleAllowed_obeys rfl rfl
  · rename_i hdenied
    have hprobe : admission.probe = false := by
      by_contra hprobe
      exact hdenied (hadmits (Bool.eq_true_of_not_eq_false hprobe))
    refine Obeys.ask_bind ⟨rfl, hprobe⟩ fun slept _ => ?_
    cases slept with
    | error e => exact rfl
    | ok => exact parkReceipt_obeys rfl fun heq => absurd (hprobe.symm.trans heq) Bool.false_ne_true

end Calls

/-! ## Every interleaving -/

section Interleaving

variable {D ι : Type} [DecidableEq ι]

/-- `Handle` calls on one runtime. -/
def breakerPool (jobs : ι → AnalyzerJob D) (w : BreakerWorld) :
    Pool ι (HandlePrim D) HandleResp BreakerWorld CallRecord Unit where
  threads i := ⟨workerHandle (jobs i), { }⟩
  state := w

/-- The flag is set only while a probe is under way. -/
def ProbePending (b : CircuitBreaker) (ks : ι → CallRecord) : Prop :=
  ∀ key, b.halfOpen key = true → ∃ i, (ks i).Probing key

/-- The condition on a step: a probe that drops its job, as one whose object is gone, does not
leave the flag set with no other probe under way. -/
def LeavesNoFlag (s : BreakerWorld) (ks : ι → CallRecord) (i : ι) : HandlePrim D → Prop
  | .ack => ∀ key ∈ (ks i).key, (ks i).Probing key → s.breaker.halfOpen key = true →
      ∃ j, j ≠ i ∧ (ks j).Probing key
  | _ => True

instance [Fintype ι] (s : BreakerWorld) (ks : ι → CallRecord) (i : ι) (p : HandlePrim D) :
    Decidable (LeavesNoFlag s ks i p) :=
  match p with
  | .ack => inferInstanceAs (Decidable (∀ key ∈ (ks i).key, (ks i).Probing key →
      s.breaker.halfOpen key = true → ∃ j, j ≠ i ∧ (ks j).Probing key))
  | .allow _ | .sleepBeforePark | .process _ | .readManifest _ | .recordFailure _ | .isOpen _
  | .recordSuccess _ | .park | .retry _ => inferInstanceAs (Decidable True)

variable {b b' : CircuitBreaker} {ks : ι → CallRecord} {i : ι}

/-- When one call moves, a probe that is marked as running still has a call that runs it. -/
theorem ProbePending.update {k : CallRecord} (h : ProbePending b ks)
    (hflag : ∀ key, b'.halfOpen key = true → b.halfOpen key = true)
    (hprobe : ∀ key, b'.halfOpen key = true → (ks i).Probing key →
      k.Probing key ∨ ∃ j, j ≠ i ∧ (ks j).Probing key) :
    ProbePending b' (Function.update ks i k) := by
  have hother : ∀ key j, j ≠ i → (ks j).Probing key →
      ∃ j, (Function.update ks i k j).Probing key := by
    intro key j hne hprobing
    refine ⟨j, ?_⟩
    rw [Function.update_of_ne hne]
    exact hprobing
  intro key hset
  obtain ⟨j, hprobing⟩ := h key (hflag key hset)
  by_cases hj : j = i
  · subst hj
    rcases hprobe key hset hprobing with hnew | ⟨j', hne, hprobing'⟩
    · refine ⟨j, ?_⟩
      rw [Function.update_self]
      exact hnew
    · exact hother key j' hne hprobing'
  · exact hother key j hj hprobing

/-- A call that records the result of its own analyzer. -/
theorem ProbePending.record {key : String} (h : ProbePending b ks) (hkey : (ks i).key = some key)
    (hself : b'.halfOpen key = false)
    (hne : ∀ other, other ≠ key → b'.halfOpen other = b.halfOpen other) :
    ProbePending b' (Function.update ks i { ks i with recorded := true }) := by
  have hother : ∀ other, b'.halfOpen other = true → other ≠ key := by
    rintro other hset rfl
    exact absurd (hself.symm.trans hset) Bool.false_ne_true
  refine h.update (fun other hset => ?_) fun other hset hprobing => ?_
  · rw [← hne other (hother other hset)]
    exact hset
  · have heq : some key = some other := hkey.symm.trans hprobing.1
    exact absurd (Option.some.inj heq).symm (hother other hset)

/-- A call that returns. -/
theorem ProbePending.return (h : ProbePending b ks)
    (hprobe : ∀ key, b.halfOpen key = true → (ks i).Probing key → ∃ j, j ≠ i ∧ (ks j).Probing key) :
    ProbePending b (Function.update ks i { ks i with finished := true }) :=
  h.update (fun _ hset => hset) fun key hset hprobing => Or.inr (hprobe key hset hprobing)

/-- A call that is let through, or is not. -/
theorem ProbePending.allow (now : Time) (key : String) (h : ProbePending b ks)
    (hstart : ks i = { }) :
    ProbePending (b.allow now key).2 (Function.update ks i
      { ks i with key := some key, probe := (b.allow now key).2.halfOpen key && !b.halfOpen key }) := by
  have hnone : ∀ other, ¬ (ks i).Probing other := by
    intro other hprobing
    rw [hstart] at hprobing
    cases hprobing.1
  rcases b.allow_cases now key with hsame | ⟨hunset, -, hset, hne⟩
  · rw [hsame]
    exact h.update (fun _ hset => hset) fun other _ hprobing => absurd hprobing (hnone other)
  · intro other hother
    by_cases heq : other = key
    · refine ⟨i, ?_⟩
      rw [Function.update_self, hset, hunset, hstart, heq]
      exact ⟨rfl, rfl, rfl, rfl⟩
    · rw [hne other heq] at hother
      obtain ⟨j, hprobing⟩ := h other hother
      have hj : j ≠ i := by
        rintro rfl
        exact hnone other hprobing
      refine ⟨j, ?_⟩
      rw [Function.update_of_ne hj]
      exact hprobing

/-- One request of one call. -/
theorem ProbePending.step {s s' : BreakerWorld} {p : HandlePrim D} {r : HandleResp p}
    (h : ProbePending s.breaker ks) (hmay : MayHandle (ks i) p) (hcond : LeavesNoFlag s ks i p)
    (hr : handleBreaker p s = some (r, s')) :
    ProbePending s'.breaker (Function.update ks i ((ks i).learn p r)) := by
  have hsame : ∀ k : CallRecord, (∀ key, (ks i).Probing key → k.Probing key) →
      ProbePending s.breaker (Function.update ks i k) :=
    fun k hk => h.update (fun _ hset => hset) fun key _ hprobing => Or.inl (hk key hprobing)
  have hrecorded : ((ks i).probe = true → (ks i).recorded = true) →
      ProbePending s.breaker (Function.update ks i { ks i with finished := true }) := by
    refine fun hrecorded => h.return fun key _ hprobing => ?_
    exact absurd (hprobing.2.2.1.symm.trans (hrecorded hprobing.2.1)) Bool.false_ne_true
  obtain ⟨-, hmay⟩ := hmay
  cases hr
  cases p with
  | allow key => exact h.allow _ key hmay
  | process job => exact hsame _ fun _ hprobing => hprobing
  | readManifest digest => exact hsame _ fun _ hprobing => hprobing
  | isOpen key => exact hsame _ fun _ hprobing => hprobing
  | recordFailure key =>
    exact h.record hmay (CircuitBreaker.halfOpen_recordFailure_self _ key) fun _ hne =>
      CircuitBreaker.halfOpen_recordFailure_ne _ hne
  | recordSuccess key =>
    exact h.record hmay (CircuitBreaker.halfOpen_recordSuccess_self key) fun _ hne =>
      CircuitBreaker.halfOpen_recordSuccess_ne hne
  | ack => exact h.return fun key hset hprobing => hcond key hprobing.1 hprobing hset
  | park => exact hrecorded hmay
  | retry err => exact hrecorded hmay
  | sleepBeforePark =>
    dsimp only [answerHandle]
    cases (s.chances 0).fault with
    | none => exact hsame _ fun _ hprobing => hprobing
    | some e => exact hrecorded fun hprobe => absurd (hmay.symm.trans hprobe) Bool.false_ne_true

/-- A call about an analyzer that has not returned. -/
def HandleInFlight (c : Pool ι (HandlePrim D) HandleResp BreakerWorld CallRecord Unit)
    (key : String) (i : ι) : Prop :=
  (c.known i).key = some key ∧ (c.threads i).prog.ended = false

/-- **The breaker never wedges.** In every interleaving of calls on a new runtime in which no
probe drops a job as gone while it is the only probe under way and the flag is still set: the
flag of an analyzer is set only while a probe of it is under way, and an analyzer with no call
under way is let through once its time has come. -/
theorem breaker_never_wedges (jobs : ι → AnalyzerJob D) {w : BreakerWorld}
    (hnew : w.breaker.states = { }) (schedule : List ι)
    (hsteps : Pool.AllSteps handleBreaker CallRecord.learn LeavesNoFlag (breakerPool jobs w)
      schedule) (key : String) :
    let c := (breakerPool jobs w).run handleBreaker CallRecord.learn schedule
    (c.state.breaker.halfOpen key = true →
        ∃ i, HandleInFlight c key i ∧ (c.known i).probe = true) ∧
      ((∀ i, ¬ HandleInFlight c key i) → ∀ now,
        (∀ state, c.state.breaker.states.get key = some state → state.openUntil ≤ now) →
          (c.state.breaker.allow now key).1 = true) := by
  intro c
  have hstep : ∀ s (ks : ι → CallRecord) i (p : HandlePrim D) r s', ProbePending s.breaker ks →
      MayHandle (ks i) p → LeavesNoFlag s ks i p → handleBreaker p s = some (r, s') →
        AdmitsProbes p r ∧
          ProbePending s'.breaker (Function.update ks i ((ks i).learn p r)) := by
    refine fun s ks i p r s' hI hmay hcond hr => ⟨?_, hI.step hmay hcond hr⟩
    cases hr
    exact answerHandle_admits _ p _
  have hstart : ProbePending w.breaker fun _ : ι => ({ } : CallRecord) := by
    intro other hset
    rw [CircuitBreaker.halfOpen, hnew] at hset
    cases hset
  obtain ⟨hpending, hobeys⟩ := Pool.invariant hstep schedule (breakerPool jobs w)
    (fun i => workerHandle_obeys (jobs i)) hstart hsteps
  have hflag : c.state.breaker.halfOpen key = true →
      ∃ i, HandleInFlight c key i ∧ (c.known i).probe = true := by
    intro hset
    obtain ⟨i, hkey, hprobe, -, hfinished⟩ := hpending key hset
    refine ⟨i, ⟨hkey, ?_⟩, hprobe⟩
    by_contra hended
    exact absurd (hfinished.symm.trans ((hobeys i).of_ended (Bool.eq_true_of_not_eq_false hended)))
      Bool.false_ne_true
  refine ⟨hflag, fun hnone now htime => ?_⟩
  refine CircuitBreaker.allow_of_not_halfOpen (Bool.eq_false_iff.mpr fun hset => ?_) htime
  obtain ⟨i, hin, -⟩ := hflag hset
  exact hnone i hin

/-- A job of one analyzer. -/
def probeJob : AnalyzerJob String :=
  { analyzer := { name := "ocr", version := "1" }, objectDigest := "d" }

/-- Five calls in a row fail, then a sixth one comes when the circuit may be probed. -/
def probedPool (probe : HandleChance) :
    Pool (Fin 6) (HandlePrim String) HandleResp BreakerWorld CallRecord Unit :=
  breakerPool (fun _ => probeJob)
    { chances := fun n => if n < 25 then { processed := .error { text := "down" } } else probe }

/-- Five requests of each of them, then four of the sixth. -/
def probedSchedule : List (Fin 6) :=
  [0, 0, 0, 0, 0, 1, 1, 1, 1, 1, 2, 2, 2, 2, 2, 3, 3, 3, 3, 3, 4, 4, 4, 4, 4, 5, 5, 5, 5]

/-- The probe finds its object gone. -/
def gonePool : Pool (Fin 6) (HandlePrim String) HandleResp BreakerWorld CallRecord Unit :=
  (probedPool { now := 20000000000, processed := .error { text := "", notExist := true }
                gone := true }).run handleBreaker CallRecord.learn probedSchedule

/-- **The breaker wedges.** No call is under way, and the analyzer is never let through again. -/
theorem probe_gone_wedges :
    (∀ i, ¬ HandleInFlight gonePool "ocr@1" i) ∧
      ∀ now, (gonePool.state.breaker.allow now "ocr@1").1 = false := by
  have hended : ∀ i, (gonePool.threads i).prog.ended = true := by decide +kernel
  have hflag : gonePool.state.breaker.halfOpen "ocr@1" = true := by decide +kernel
  have hfailures : ((gonePool.state.breaker.states.get "ocr@1").all fun state =>
      gonePool.state.breaker.threshold ≤ state.failures) = true := by decide +kernel
  refine ⟨fun i hin => ?_, fun now => ?_⟩
  · exact absurd (hin.2.symm.trans (hended i)) Bool.false_ne_true
  · refine CircuitBreaker.allow_of_halfOpen hflag (fun state hget => ?_) now
    rw [hget] at hfailures
    exact of_decide_eq_true hfailures

/-- A probe that succeeds closes the circuit. -/
theorem breaker_never_wedges_probed :
    ((((probedPool { now := 20000000000 }).run handleBreaker CallRecord.learn
      probedSchedule).state.breaker.allow 0 "ocr@1").1) = true := by
  have hsteps : Pool.AllSteps handleBreaker CallRecord.learn LeavesNoFlag
      (probedPool { now := 20000000000 }) probedSchedule :=
    Pool.allSteps_of_check (by decide +kernel)
  have hended : ∀ i, (((probedPool { now := 20000000000 }).run handleBreaker CallRecord.learn
      probedSchedule).threads i).prog.ended = true := by decide +kernel
  have hclosed : ((probedPool { now := 20000000000 }).run handleBreaker CallRecord.learn
      probedSchedule).state.breaker.states.get "ocr@1" = none := by decide +kernel
  refine (breaker_never_wedges _ rfl probedSchedule hsteps "ocr@1").2 (fun i hin => ?_) 0 ?_
  · exact absurd (hin.2.symm.trans (hended i)) Bool.false_ne_true
  · intro state hget
    cases hclosed.symm.trans hget

end Interleaving

end Gmeow
