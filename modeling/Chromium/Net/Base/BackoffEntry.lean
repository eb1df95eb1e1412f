import Chromium.Lib.TransSys
import Mathlib.Data.Rat.Floor
import Mathlib.Tactic.Linarith

/-!
# Backing off

`net/base/backoff_entry.cc`.  Doubles are exact, and times are in microseconds.  The delay becomes an `int64` before
the maximum is taken: a delay of `2 ^ 63` milliseconds or more is the least `int64`, and puts no request off.
-/

namespace Chromium.Net

open Lib

/-- `BackoffEntry::Policy`, without the lifetime of the entry. -/
structure BackoffPolicy where
  numErrorsToIgnore : ℤ
  initialBackoffMs : ℤ
  multiplyFactor : ℚ
  jitterFactor : ℚ
  maximumBackoffMs : ℤ

/-- The delays are positive and do not shrink, and the jitter is a share of them. -/
structure BackoffPolicy.Valid (policy : BackoffPolicy) : Prop where
  initial : 0 < policy.initialBackoffMs
  maximum : 0 < policy.maximumBackoffMs
  factor : 1 ≤ policy.multiplyFactor
  jitter0 : 0 ≤ policy.jitterFactor
  jitter1 : policy.jitterFactor ≤ 1

structure BackoffEntry where
  exponentialBackoffReleaseTime : ℤ
  failureCount : ℤ
  deriving DecidableEq

/-- A call of `InformOfRequest`, with `ImplGetTimeNow` and `RandDouble`. -/
structure Inform where
  succeeded : Bool
  now : ℤ
  rand : ℚ

/-- `static_cast<int64>` of a double. -/
def int64OfDouble (x : ℚ) : ℤ :=
  let n := if 0 ≤ x then ⌊x⌋ else ⌈x⌉
  if -9223372036854775808 ≤ n ∧ n < 9223372036854775808 then n else -9223372036854775808

namespace BackoffEntry

variable (policy : BackoffPolicy) (s : BackoffEntry) (call : Inform)

/-- `Reset`. -/
def new : BackoffEntry := ⟨0, 0⟩

def effectiveFailureCount : ℤ := max 0 (s.failureCount - policy.numErrorsToIgnore)

def fullDelay (effectiveFailureCount : ℤ) : ℚ :=
  policy.initialBackoffMs * policy.multiplyFactor ^ (effectiveFailureCount - 1).toNat

def delay : ℚ :=
  let delay := fullDelay policy (s.effectiveFailureCount policy)
  delay - call.rand * policy.jitterFactor * delay

def calculateReleaseTime : ℤ :=
  if s.effectiveFailureCount policy = 0 then max call.now s.exponentialBackoffReleaseTime
  else
    let delayInt := int64OfDouble (s.delay policy call + 1 / 2)
    max (call.now + 1000 * min delayInt policy.maximumBackoffMs) s.exponentialBackoffReleaseTime

def informOfRequest : BackoffEntry :=
  if ¬ call.succeeded then
    let s := { s with failureCount := s.failureCount + 1 }
    { s with exponentialBackoffReleaseTime := s.calculateReleaseTime policy call }
  else
    { failureCount := if s.failureCount > 0 then s.failureCount - 1 else s.failureCount
      exponentialBackoffReleaseTime := max call.now s.exponentialBackoffReleaseTime }

/-- An entry of a policy; a draw is from `[0, 1)`. -/
def backoff : TransSys BackoffEntry Inform where
  init s := s = new
  step s call s' := 0 ≤ call.rand ∧ call.rand < 1 ∧ s' = s.informOfRequest policy call

/-- The delay that a failure leads to is an `int64`. -/
def DelayFits (s : BackoffEntry) (call : Inform) : Prop := call.succeeded = false →
  0 < s.failureCount + 1 - policy.numErrorsToIgnore →
  delay policy { s with failureCount := s.failureCount + 1 } call + 1 / 2 < 9223372036854775808

def consecutiveFailures (calls : List Inform) : ℕ := (calls.reverse.takeWhile (¬ ·.succeeded)).length

variable {policy} {s}

theorem fullDelay_nonneg (hp : policy.Valid) (n : ℤ) : 0 ≤ fullDelay policy n :=
  mul_nonneg (Int.cast_nonneg hp.initial.le) (pow_nonneg (zero_le_one.trans hp.factor) _)

theorem fullDelay_mono (hp : policy.Valid) {m n : ℤ} (h : m ≤ n) : fullDelay policy m ≤ fullDelay policy n :=
  mul_le_mul_of_nonneg_left (pow_le_pow_right₀ hp.factor (Int.toNat_le_toNat (by omega)))
    (Int.cast_nonneg hp.initial.le)

theorem le_delay (hp : policy.Valid) (h1 : call.rand < 1) :
    (1 - policy.jitterFactor) * fullDelay policy (s.effectiveFailureCount policy) ≤ s.delay policy call := by
  have hshare : call.rand * policy.jitterFactor ≤ policy.jitterFactor :=
    mul_le_of_le_one_left hp.jitter0 h1.le
  have hmul := mul_le_mul_of_nonneg_right hshare (fullDelay_nonneg hp (s.effectiveFailureCount policy))
  rw [delay, sub_mul, one_mul]
  exact sub_le_sub_left hmul _

/-- A delay that fits is rounded to an `int64`. -/
theorem lt_int64OfDouble {x : ℚ} (h0 : 0 ≤ x) (h : x + 1 / 2 < 9223372036854775808) :
    x - 1 / 2 < int64OfDouble (x + 1 / 2) := by
  have hpos : 0 ≤ x + 1 / 2 := by linarith
  have hfloor0 : 0 ≤ ⌊x + 1 / 2⌋ := Int.floor_nonneg.2 hpos
  have hfloor : ⌊x + 1 / 2⌋ < 9223372036854775808 := Int.floor_lt.2 (by exact_mod_cast h)
  rw [int64OfDouble, if_pos hpos, if_pos ⟨by omega, hfloor⟩]
  linarith [Int.sub_one_lt_floor (x + 1 / 2)]

/-- **A failure puts the release off by the least delay** of any count up to that of the entry. -/
theorem le_calculateReleaseTime (hp : policy.Valid) (h1 : call.rand < 1) {n : ℤ} (hn : 0 < n)
    (hle : n ≤ s.failureCount - policy.numErrorsToIgnore)
    (hfits : s.delay policy call + 1 / 2 < 9223372036854775808) :
    call.now + 1000 * ((1 - policy.jitterFactor) * min (policy.maximumBackoffMs : ℚ) (fullDelay policy n) - 1 / 2) ≤
      s.calculateReleaseTime policy call := by
  have heff : s.effectiveFailureCount policy = s.failureCount - policy.numErrorsToIgnore := by
    unfold effectiveFailureCount
    omega
  have hkeep : 0 ≤ 1 - policy.jitterFactor := sub_nonneg.2 hp.jitter1
  have hleast := le_delay (s := s) call hp h1
  have hcount : fullDelay policy n ≤ fullDelay policy (s.effectiveFailureCount policy) :=
    fullDelay_mono hp (heff ▸ hle)
  have hdelay0 : 0 ≤ s.delay policy call := (mul_nonneg hkeep (fullDelay_nonneg hp _)).trans hleast
  have hint := lt_int64OfDouble hdelay0 hfits
  have hmin0 : 0 ≤ min (policy.maximumBackoffMs : ℚ) (fullDelay policy n) :=
    le_min (Int.cast_nonneg hp.maximum.le) (fullDelay_nonneg hp n)
  have hbound : (1 - policy.jitterFactor) * min (policy.maximumBackoffMs : ℚ) (fullDelay policy n) - 1 / 2 ≤
      min (int64OfDouble (s.delay policy call + 1 / 2) : ℚ) policy.maximumBackoffMs := by
    refine le_min ?_ ?_
    · have hmul := mul_le_mul_of_nonneg_left ((min_le_right (policy.maximumBackoffMs : ℚ) _).trans hcount) hkeep
      linarith
    · have hshare := mul_le_of_le_one_left hmin0 (sub_le_self 1 hp.jitter0)
      linarith [min_le_left (policy.maximumBackoffMs : ℚ) (fullDelay policy n)]
  rw [calculateReleaseTime, if_neg (by omega)]
  push_cast
  refine le_max_of_le_left ?_
  linarith

theorem consecutiveFailures_concat (calls : List Inform) :
    consecutiveFailures (calls ++ [call]) = if call.succeeded then 0 else consecutiveFailures calls + 1 := by
  rw [consecutiveFailures, List.reverse_concat, List.takeWhile_cons]
  cases call.succeeded <;> rfl

/-- **The entry counts at least the failures since the last success.** -/
theorem consecutiveFailures_le {P : BackoffEntry → Inform → Prop} {calls : List Inform}
    (hrun : ((backoff policy).restrict P).Run calls s) : (consecutiveFailures calls : ℤ) ≤ s.failureCount := by
  refine hrun.traceInvariant (I := fun calls s => (consecutiveFailures calls : ℤ) ≤ s.failureCount)
    (fun s hs => ?_) fun calls s call s' hle hstep => ?_
  · rw [hs]
    exact le_rfl
  · obtain ⟨-, -, -, rfl⟩ := hstep
    rw [consecutiveFailures_concat, informOfRequest]
    cases call.succeeded with
    | true =>
      simp only [not_true_eq_false, if_false, if_true, Nat.cast_zero]
      split_ifs <;> omega
    | false =>
      simp only [Bool.false_eq_true, not_false_eq_true, if_true, if_false]
      push_cast
      omega

/-- A policy whose third delay is no `int64`. -/
def growing : BackoffPolicy := ⟨0, 1000, 4294967296, 0, 1000⟩

end BackoffEntry

end Chromium.Net
