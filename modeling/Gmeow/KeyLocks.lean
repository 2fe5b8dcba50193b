import Gmeow.PackHandles

/-!
# Locks of keys

The store has a lock for every key somebody works on. A lock is made when it is asked for and
counted; the table forgets it with its last user. A caller asks the table under `locksMu`, waits for
the lock of the key outside of it, and comes back to `locksMu` when it has unlocked. So a caller may
come while the lock is on its way out of the table, and must not get a second one.

* `KeyLock` — what the table has for one key, with the calls for it;
* `KeyLock.step` — the next step of one of the calls;
* `lockKey_run` — one holder for each key, and the table has exactly the keys that are used.
-/

namespace Gmeow

/-- `filesystemKeyLock`. -/
structure FilesystemKeyLock where
  refs : Int := 0
  locked : Bool := false

/-- Where a call of `lockKey` is: it has not asked the table, it waits for the lock, its caller has
the lock, the lock is unlocked and still counted, or it is over. -/
inductive KeyPhase where
  | calling
  | waiting (lock : Nat)
  | holding (lock : Nat)
  | releasing (lock : Nat)
  | done

namespace KeyPhase

/-- The lock a call counts for. -/
def lock : KeyPhase → Option Nat
  | .waiting p | .holding p | .releasing p => some p
  | _ => none

/-- Whether the caller has the lock. -/
def holds : KeyPhase → Bool
  | .holding _ => true
  | _ => false

end KeyPhase

/-- One key: `keyLocks[key]`, the locks made for it, which are numbered, and the calls for it. -/
structure KeyLock where
  entry : Option Nat := none
  next : Nat := 0
  heap : Nat → FilesystemKeyLock := fun _ => {}
  callers : List KeyPhase

namespace KeyLock

/-- A call goes on, and a lock is written for it. -/
def write (s : KeyLock) (p : Nat) (lock : FilesystemKeyLock) (i : Nat) (phase : KeyPhase) :
    KeyLock :=
  { s with heap := Function.update s.heap p lock, callers := s.callers.set i phase }

/-- The next step of a call: the critical section of `locksMu`, `lock.mu.Lock`, `lock.mu.Unlock`, or
the other critical section of `locksMu`. There is none where it has to wait or is over. -/
def step (s : KeyLock) (i : Nat) : Option KeyLock :=
  match s.callers[i]? with
  | some .calling =>
    match s.entry with
    | some p => some (s.write p { s.heap p with refs := (s.heap p).refs + 1 } i (.waiting p))
    | none =>
      some { s.write s.next { refs := 1 } i (.waiting s.next) with
        entry := some s.next
        next := s.next + 1 }
  | some (.waiting p) =>
    if (s.heap p).locked then none
    else some (s.write p { s.heap p with locked := true } i (.holding p))
  | some (.holding p) => some (s.write p { s.heap p with locked := false } i (.releasing p))
  | some (.releasing p) =>
    let refs := (s.heap p).refs - 1
    some { s.write p { s.heap p with refs := refs } i .done with
      entry := if refs = 0 then none else s.entry }
  | _ => none

/-- How many calls count for the lock. -/
def users (s : KeyLock) : Nat := s.callers.countP (·.lock.isSome)

/-- How many callers are in the critical section. -/
def holders (s : KeyLock) : Nat := s.callers.countP (·.holds)

/-- All calls count for the lock of the table, which knows how many they are and whether one of them
has it. -/
structure Ok (s : KeyLock) : Prop where
  mapped : ∀ phase ∈ s.callers, ∀ p, phase.lock = some p → s.entry = some p
  counted : ∀ p, s.entry = some p → 0 < s.users ∧ (s.heap p).refs = s.users ∧
    (s.heap p).locked.toNat = s.holders

variable {s t : KeyLock} {i p : Nat} {phase phase' : KeyPhase}

theorem countP_set_toNat (f : KeyPhase → Bool) (hi : s.callers[i]? = some phase)
    (phase' : KeyPhase) :
    (s.callers.set i phase').countP f + (f phase).toNat =
      s.callers.countP f + (f phase').toNat := by
  have hcount := countP_set_add f (b := phase') hi
  cases hold : f phase <;> cases hnew : f phase' <;> simp_all

/-- **A call goes on**, with the lock of the table or a new one, which is then the only one. -/
theorem Ok.goesOn (h : s.Ok) (hi : s.callers[i]? = some phase) {lock : FilesystemKeyLock}
    {entry : Option Nat} {next : Nat} (hbefore : s.entry = some p ∨ s.entry = none)
    (hnew : phase'.lock = none ∨ phase'.lock = some p)
    (hrefs : lock.refs + phase.lock.isSome.toNat = s.users + phase'.lock.isSome.toNat)
    (hlocked : lock.locked.toNat + phase.holds.toNat = s.holders + phase'.holds.toNat)
    (hentry : entry = if lock.refs = 0 then none else some p) :
    Ok ⟨entry, next, Function.update s.heap p lock, s.callers.set i phase'⟩ := by
  have husers := countP_set_toNat (·.lock.isSome) hi phase'
  have hholders := countP_set_toNat (·.holds) hi phase'
  rw [users] at hrefs
  rw [holders] at hlocked
  refine ⟨fun phase₁ hin q hq => ?_, fun q hq => ?_⟩
  · have hpos : 0 < (s.callers.set i phase').countP (·.lock.isSome) :=
      List.countP_pos_iff.mpr ⟨phase₁, hin, by rw [hq]; rfl⟩
    have hsame : q = p := by
      rcases List.mem_or_eq_of_mem_set hin with hin | rfl
      · have hmapped := h.mapped phase₁ hin q hq
        grind
      · grind
    rw [hentry, if_neg (by omega), hsame]
  · have hp : lock.refs ≠ 0 ∧ p = q := by grind
    obtain ⟨hpos, rfl⟩ := hp
    dsimp only [users, holders]
    rw [Function.update_self]
    omega

theorem Ok.unused (h : s.Ok) (hentry : s.entry = none) : s.users = 0 ∧ s.holders = 0 := by
  constructor <;> refine List.countP_eq_zero.mpr fun phase hin => ?_
  all_goals
    have hmapped := h.mapped phase hin
    cases phase <;> simp_all [KeyPhase.lock, KeyPhase.holds]

/-- **One step**, whoever takes it. -/
theorem Ok.step (h : s.Ok) (hstep : s.step i = some t) : t.Ok := by
  rw [KeyLock.step] at hstep
  split at hstep
  · rename_i hi
    split at hstep <;> cases hstep
    · rename_i p hp
      obtain ⟨hpos, hrefs, hlocked⟩ := h.counted p hp
      refine h.goesOn hi (.inl hp) (.inr rfl) ?_ hlocked (by grind [write])
      rw [hrefs]
      rfl
    · rename_i hnone
      obtain ⟨husers, hholders⟩ := h.unused hnone
      exact h.goesOn hi (.inr hnone) (.inr rfl) (by rw [husers]; rfl) (by rw [hholders]; rfl) rfl
  · rename_i p hi
    split at hstep <;> cases hstep
    rename_i hfree
    have hp := h.mapped _ (List.mem_of_getElem? hi) p rfl
    obtain ⟨hpos, hrefs, hlocked⟩ := h.counted p hp
    refine h.goesOn hi (.inl hp) (.inr rfl) (congrArg (· + 1) hrefs) ?_ (by grind [write])
    rw [← hlocked, Bool.eq_false_of_not_eq_true hfree]
    rfl
  · rename_i p hi
    cases hstep
    have hp := h.mapped _ (List.mem_of_getElem? hi) p rfl
    obtain ⟨hpos, hrefs, hlocked⟩ := h.counted p hp
    have hheld : 0 < s.holders := List.countP_pos_iff.mpr ⟨_, List.mem_of_getElem? hi, rfl⟩
    have hone := Bool.toNat_le (s.heap p).locked
    refine h.goesOn hi (.inl hp) (.inr rfl) (congrArg (· + 1) hrefs) ?_ (by grind [write])
    change 0 + 1 = s.holders + 0
    omega
  · rename_i p hi
    cases hstep
    have hp := h.mapped _ (List.mem_of_getElem? hi) p rfl
    obtain ⟨hpos, hrefs, hlocked⟩ := h.counted p hp
    refine h.goesOn hi (.inl hp) (.inl rfl) ?_ hlocked (by rw [hp])
    rw [hrefs]
    exact Int.sub_add_cancel _ _
  · cases hstep

end KeyLock

/-! ## All keys -/

/-- The calls there will be for each key. -/
def keyLocks {K : Type} (calls : K → Nat) (key : K) : KeyLock where
  callers := List.replicate (calls key) .calling

theorem keyLocks_ok {K : Type} (calls : K → Nat) (key : K) : (keyLocks calls key).Ok := by
  refine ⟨fun phase hin p hp => ?_, nofun⟩
  rw [List.eq_of_mem_replicate hin] at hp
  cases hp

variable {K : Type} [DecidableEq K] {calls : K → Nat} {sched : List (K × Nat)} {s t : K → KeyLock}

/-- A call for a key goes on. -/
def lockKey (s : K → KeyLock) (a : K × Nat) : Option (K → KeyLock) :=
  ((s a.1).step a.2).map (Function.update s a.1)

theorem lockKey_ok {a : K × Nat} (h : ∀ key, (s key).Ok) (hstep : lockKey s a = some t) (key : K) :
    (t key).Ok := by
  obtain ⟨new, hnew, rfl⟩ := Option.map_eq_some_iff.mp hstep
  rw [Function.update_apply]
  split
  · exact (h a.1).step hnew
  · exact h key

/-- **The locks of the keys, in every run.** For each key there is one caller in its critical
section at most, all calls that use its lock use the one of the table, which counts them and leaves
the table with the last of them, and a call waits only while somebody is in the critical section. -/
theorem lockKey_run (hrun : Runs.exec lockKey (keyLocks calls) sched = some s) (key : K) :
    (s key).holders ≤ 1 ∧ ((s key).entry = none ↔ (s key).users = 0) ∧
      (∀ phase ∈ (s key).callers, ∀ p, phase.lock = some p →
        (s key).entry = some p ∧ ((s key).heap p).refs = (s key).users) ∧
      ∀ i p, (s key).callers[i]? = some (.waiting p) →
        ((lockKey s (key, i)).isSome = true ↔ (s key).holders = 0) := by
  have h := Runs.exec_invariant lockKey_ok (keyLocks_ok calls) hrun key
  refine ⟨?_, ⟨fun hnone => (h.unused hnone).1, fun hzero => ?_⟩, fun phase hin p hp => ?_,
    fun i p hi => ?_⟩
  · cases hp : (s key).entry with
    | none => exact (h.unused hp).2.trans_le (Nat.zero_le _)
    | some p => exact (h.counted p hp).2.2 ▸ Bool.toNat_le _
  · cases hp : (s key).entry with
    | none => rfl
    | some p => exact absurd hzero (Nat.pos_iff_ne_zero.mp (h.counted p hp).1)
  · have hentry := h.mapped phase hin p hp
    exact ⟨hentry, (h.counted p hentry).2.1⟩
  · have hentry := h.mapped _ (List.mem_of_getElem? hi) p rfl
    rw [lockKey, Option.isSome_map, KeyLock.step, hi, ← (h.counted p hentry).2.2]
    cases hlocked : ((s key).heap p).locked <;> simp [hlocked]

/-- Two callers for one key, the first of which has the lock. -/
theorem lockKey_two : ∃ s, Runs.exec lockKey (keyLocks fun _ : Bool => 2)
    [(true, 0), (true, 1), (true, 0)] = some s ∧ (s true).users = 2 ∧ (s true).holders ≤ 1 := by
  have hrun : Runs.exec lockKey (keyLocks fun _ : Bool => 2) [(true, 0), (true, 1), (true, 0)] =
    some _ := rfl
  exact ⟨_, hrun, rfl, (lockKey_run hrun true).1⟩

end Gmeow
