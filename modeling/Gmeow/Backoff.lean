import Mathlib

/-!
# The backoff of retries

A job that fails is published again, to a queue where it expires after a while: `RetryBackoff` for
the first attempt, twice as long for each further one, up to `RetryLimit` attempts. Durations are
64-bit numbers of nanoseconds, and a doubling that does not fit wraps round.

* `retryBackoff`, `expiration` — the backoff of an attempt, and the milliseconds of its message;
* `saneBackoff_iff` — the backoffs grow and every message expires after some time exactly if the
  first one is a millisecond or more and the last one fits.
-/

namespace Gmeow

/-- The retry policy of `rabbitmq.Config`. -/
structure RetryConfig : Type where
  retryLimit : Int
  retryBackoff : Int64

/-- The `RetryLimit` of `resolvedScheduler`. -/
def resolvedRetryLimit (raw : Int) : Int := if raw ≤ 0 then 5 else raw

/-- The loop of `retryBackoff`. -/
def doubled : Nat → Int64 → Int64
  | 0, backoff => backoff
  | left + 1, backoff => doubled left (backoff * 2)

/-- `retryBackoff`. -/
def retryBackoff (config : RetryConfig) (attempt : Int) : Int64 :=
  if attempt ≤ 0 then config.retryBackoff
  else doubled (attempt - 1).toNat config.retryBackoff

/-- The `Expiration` of `retryPublishing`, in milliseconds, if it is set. -/
def expiration (config : RetryConfig) (attempt : Int) : Option Int64 :=
  let backoff := retryBackoff config attempt
  if 0 < backoff ∧ attempt ≤ config.retryLimit then some (backoff / 1000000) else none

/-- Attempts wait longer and longer, and every message that is retried expires. -/
structure SaneBackoff (config : RetryConfig) : Prop where
  grows : ∀ attempt, 2 ≤ attempt → attempt ≤ config.retryLimit →
    0 < retryBackoff config attempt ∧
      retryBackoff config (attempt - 1) < retryBackoff config attempt
  expires : ∀ attempt ≤ config.retryLimit, ∃ ms, expiration config attempt = some ms ∧ 0 < ms

/-! ## Doubling -/

theorem doubled_succ (n : Nat) (backoff : Int64) :
    doubled (n + 1) backoff = doubled n backoff * 2 := by
  induction n generalizing backoff with
  | zero => rfl
  | succ n ih => rw [doubled, ih, doubled]

theorem mul_pow_succ (a : Int) (n : Nat) : a * 2 ^ (n + 1) = a * 2 ^ n * 2 := by
  rw [pow_succ, mul_assoc]

/-- As long as it fits, doubling is doubling. -/
theorem doubled_toInt {backoff : Int64} (hpos : 0 < backoff.toInt) {n : Nat}
    (hfits : backoff.toInt * 2 ^ n < 2 ^ 63) : (doubled n backoff).toInt = backoff.toInt * 2 ^ n := by
  induction n with
  | zero => rw [doubled, pow_zero, mul_one]
  | succ n ih =>
    rw [mul_pow_succ] at hfits
    have hpow : 0 < backoff.toInt * 2 ^ n := by positivity
    rw [doubled_succ, Int64.toInt_mul, ih (by omega), mul_pow_succ]
    have htwo : (2 : Int64).toInt = 2 := rfl
    rw [htwo, Int.bmod_def]
    split <;> omega

/-- The first doubling that does not fit is negative. -/
theorem doubled_wraps {backoff : Int64} (hpos : 0 < backoff.toInt) {n : Nat}
    (hfits : backoff.toInt * 2 ^ n < 2 ^ 63) (hwraps : 2 ^ 63 ≤ backoff.toInt * 2 ^ (n + 1)) :
    (doubled (n + 1) backoff).toInt < 0 := by
  rw [mul_pow_succ] at hwraps
  have htwo : (2 : Int64).toInt = 2 := rfl
  rw [doubled_succ, Int64.toInt_mul, doubled_toInt hpos hfits, htwo, Int.bmod_def]
  split <;> omega

/-! ## Attempts -/

section Attempts

variable {config : RetryConfig}

theorem retryBackoff_succ (config : RetryConfig) (n : Nat) :
    retryBackoff config (n + 1) = doubled n config.retryBackoff := by
  rw [retryBackoff, if_neg (by omega)]
  congr 1
  omega

/-- An attempt is one of those before the first, which wait as long, or follows some others. -/
theorem retryBackoff_cases (config : RetryConfig) (attempt : Int) :
    ∃ n : Nat, n = (attempt - 1).toNat ∧
      retryBackoff config attempt = doubled n config.retryBackoff := by
  rw [retryBackoff]
  split
  · exact ⟨0, by omega, rfl⟩
  · exact ⟨_, rfl, rfl⟩

/-- The backoff of every attempt fits if that of the last one does. -/
theorem retryBackoff_toInt (hpos : 0 < config.retryBackoff.toInt)
    (hfits : config.retryBackoff.toInt * 2 ^ (config.retryLimit - 1).toNat < 2 ^ 63)
    {attempt : Int} (hle : attempt ≤ config.retryLimit) :
    (retryBackoff config attempt).toInt =
      config.retryBackoff.toInt * 2 ^ (attempt - 1).toNat := by
  obtain ⟨n, rfl, heq⟩ := retryBackoff_cases config attempt
  rw [heq]
  refine doubled_toInt hpos (lt_of_le_of_lt ?_ hfits)
  have hexp : (attempt - 1).toNat ≤ (config.retryLimit - 1).toNat := by omega
  gcongr
  decide

theorem div_millisecond_pos {backoff : Int64} (hpos : 0 < backoff.toInt) :
    0 < backoff / 1000000 ↔ 1000000 ≤ backoff.toInt := by
  have hlt := backoff.toInt_lt
  have hms : (1000000 : Int64).toInt = 1000000 := rfl
  have hzero : (0 : Int64).toInt = 0 := rfl
  rw [Int64.lt_iff_toInt_lt, Int64.toInt_div, hms, hzero, Int.tdiv_eq_ediv_of_nonneg hpos.le,
    Int.bmod_def]
  split <;> omega

/-- **Retries wait longer and longer**, and every message of theirs expires, exactly if the first
backoff is at least a millisecond and the last one is no overflow. -/
theorem saneBackoff_iff {raw : Int} (hlimit : config.retryLimit = resolvedRetryLimit raw)
    (hpos : 0 < config.retryBackoff) :
    SaneBackoff config ↔ 1000000 ≤ config.retryBackoff.toInt ∧
      config.retryBackoff.toInt * 2 ^ (config.retryLimit - 1).toNat < 2 ^ 63 := by
  have hpos' : 0 < config.retryBackoff.toInt := Int64.lt_iff_toInt_lt.mp hpos
  have hone : 1 ≤ config.retryLimit := by
    rw [hlimit, resolvedRetryLimit]
    split <;> omega
  constructor
  · intro h
    constructor
    · obtain ⟨ms, hms, hmspos⟩ := h.expires 0 (by omega)
      have hzero : retryBackoff config 0 = config.retryBackoff := if_pos le_rfl
      rw [expiration, hzero, if_pos ⟨hpos, by omega⟩] at hms
      cases hms
      exact (div_millisecond_pos hpos').mp hmspos
    · -- otherwise some first doubling does not fit, and its attempt is one of these
      by_contra hwraps
      have hexists : ∃ n, 2 ^ 63 ≤ config.retryBackoff.toInt * 2 ^ n := ⟨_, not_lt.mp hwraps⟩
      have hfirst := Nat.find_spec hexists
      have hearlier : Nat.find hexists ≤ (config.retryLimit - 1).toNat :=
        Nat.find_min' hexists (not_lt.mp hwraps)
      have hmin : ∀ n < Nat.find hexists, config.retryBackoff.toInt * 2 ^ n < 2 ^ 63 :=
        fun n hn => not_le.mp (Nat.find_min hexists hn)
      generalize Nat.find hexists = first at hfirst hearlier hmin
      cases first with
      | zero =>
        have hlt := config.retryBackoff.toInt_lt
        rw [pow_zero, mul_one] at hfirst
        omega
      | succ n =>
        have hnegative := doubled_wraps hpos' (hmin n (Nat.lt_succ_self n)) hfirst
        obtain ⟨hpositive, -⟩ := h.grows (n + 1 + 1) (by omega) (by omega)
        rw [← Nat.cast_succ, retryBackoff_succ, Int64.lt_iff_toInt_lt] at hpositive
        exact absurd hpositive (not_lt.mpr hnegative.le)
  · rintro ⟨hms, hfits⟩
    have hvalue : ∀ attempt ≤ config.retryLimit, (retryBackoff config attempt).toInt =
        config.retryBackoff.toInt * 2 ^ (attempt - 1).toNat :=
      fun attempt => retryBackoff_toInt hpos' hfits
    have hpositive : ∀ attempt ≤ config.retryLimit, 0 < retryBackoff config attempt := by
      intro attempt hle
      rw [Int64.lt_iff_toInt_lt, hvalue attempt hle]
      positivity
    refine ⟨fun attempt htwo hle => ⟨hpositive attempt hle, ?_⟩, fun attempt hle => ?_⟩
    · have hexp : (attempt - 1).toNat = (attempt - 1 - 1).toNat + 1 := by omega
      have hpow : 0 < config.retryBackoff.toInt * 2 ^ (attempt - 1 - 1).toNat := by positivity
      rw [Int64.lt_iff_toInt_lt, hvalue attempt hle, hvalue (attempt - 1) (by omega), hexp,
        mul_pow_succ]
      omega
    · refine ⟨retryBackoff config attempt / 1000000, if_pos ⟨hpositive attempt hle, hle⟩, ?_⟩
      refine (div_millisecond_pos (Int64.lt_iff_toInt_lt.mp (hpositive attempt hle))).mpr ?_
      rw [hvalue attempt hle]
      calc (1000000 : Int) ≤ config.retryBackoff.toInt * 1 := by rwa [mul_one]
        _ ≤ config.retryBackoff.toInt * 2 ^ (attempt - 1).toNat := by
          gcongr
          exact one_le_pow₀ (by decide)

/-- The defaults: thirty seconds, five times. -/
theorem saneBackoff_default : SaneBackoff ⟨resolvedRetryLimit 0, 30000000000⟩ :=
  (saneBackoff_iff (rfl : resolvedRetryLimit 0 = resolvedRetryLimit 0) (by decide)).mpr (by decide)

/-- Thirty seconds are doubled into the negative before the thirtieth attempt. -/
theorem backoff_wraps :
    resolvedRetryLimit 30 = 30 ∧ retryBackoff ⟨30, 30000000000⟩ 30 < 0 ∧
      expiration ⟨30, 30000000000⟩ 30 = none := by
  decide

end Attempts

end Gmeow
