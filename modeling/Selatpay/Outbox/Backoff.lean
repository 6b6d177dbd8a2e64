import Selatpay.Outbox.Dispatcher

/-!
# The two retry schedules

The saga runner and the outbox dispatcher both double a window up to a maximum and draw
the delay before a retry from it. The dispatcher starts with the base. The runner counts
the failure before it asks for the delay, and its schedule counts from zero, so that its
windows are one doubling ahead until they reach the maximum.
-/

namespace Selatpay

open Store

/-- The window after a failure as both schedules are documented: the base at first, then twice as
much each time, at most the maximum. -/
def documentedWindow (base max : Int) (k : Nat) : Int := min (base * 2 ^ (k - 1)) max

namespace Saga

/-- How often a row was claimed and rescheduled since it entered its step. -/
inductive FailedTimes : Nat → SagaRun → Prop
  | entered {r : SagaRun} : r.stepAttempts = 0 → FailedTimes 0 r
  | again {k : Nat} {r : SagaRun} (owner : String) (leaseUntil nextRunAt : Time)
      (lastError : String) : FailedTimes k r →
      FailedTimes (k + 1) ((r.claim owner leaseUntil).retry nextRunAt lastError)

/-- The failures of a step are counted by its row. -/
theorem FailedTimes.stepAttempts {k : Nat} {r : SagaRun} (h : FailedTimes k r) :
    r.stepAttempts = k := by
  induction h with
  | entered hzero => simpa using hzero
  | @again k r owner leaseUntil nextRunAt lastError h ih =>
    simp [SagaRun.retry, SagaRun.claim, ih]

/-- A row that has just entered its first step. -/
def enteredRow : SagaRun :=
  ⟨0, 0, .settlement, .creditDeposit, .pending, 0, 0, none, none, none⟩

/-- A step can fail any number of times. -/
theorem exists_failedTimes (k : Nat) : ∃ r, FailedTimes k r := by
  induction k with
  | zero => exact ⟨enteredRow, .entered rfl⟩
  | succ k ih =>
    obtain ⟨r, h⟩ := ih
    exact ⟨_, h.again "worker" 0 0 "failed"⟩

/-- Doubling up to a maximum does not leave 64 bits. -/
theorem min_delayLoop {max candidate : Int} (hmax : max ≤ 2 ^ 62) (hpos : 0 < candidate) (n : Nat) :
    min (delayLoop max n candidate) max = min (candidate * 2 ^ n) max := by
  induction n generalizing candidate with
  | zero => simp [delayLoop]
  | succ n ih =>
    rw [delayLoop]
    split
    · next hlt =>
      have hfit : IsInt64 (candidate * 2) := by
        unfold IsInt64
        omega
      rw [wrap64_of_isInt64 hfit, ih (by omega), mul_assoc, ← pow_succ']
    · next hge =>
      have hgrow : candidate ≤ candidate * 2 ^ (n + 1) :=
        le_mul_of_one_le_right hpos.le (one_le_pow₀ (by norm_num))
      rw [min_eq_right (by omega), min_eq_right (by omega)]

/-- The window of a schedule, before the failures are counted. -/
theorem Backoff.candidate_eq {b : Backoff} (hbase : 0 < b.base) (hmax : b.max ≤ 2 ^ 62) (n : Nat) :
    b.candidate n = min (b.base * 2 ^ n) b.max := by
  rw [← min_delayLoop hmax hbase, Backoff.candidate, Int.toNat_natCast]
  split <;> omega

/-- The delays of a schedule are those of its window. -/
theorem Backoff.draws_iff {b : Backoff} (hbase : 0 < b.base) (hle : b.base ≤ b.max)
    (hmax : b.max ≤ 2 ^ 62) (n : Nat) (delay : Int) :
    b.draws n delay ↔ 0 ≤ delay ∧ delay < min (b.base * 2 ^ n) b.max := by
  have hprod : 0 < b.base * 2 ^ n := by positivity
  have hwindow : ¬ min (b.base * 2 ^ n) b.max ≤ 0 := by omega
  rw [Backoff.draws, b.candidate_eq hbase hmax, if_neg hwindow]

/-- After the `k`-th failure of a step, which is not the last allowed one, the runner draws from
the documented window. -/
def FollowsSchedule (base max : Int) (k : Nat) : Prop :=
  ∀ (cfg : Config), cfg.backoffBase = base → cfg.backoffMax = max → (k : Int) < cfg.maxAttempts →
    ∀ (row : SagaRun) (owner : String) (leaseUntil : Time) (err : GoError),
      FailedTimes (k - 1) row → isTerminal err = false →
      afterFailure cfg (toRun (row.claim owner leaseUntil)) err = .retry err ∧
      ∀ delay, (newBackoff cfg.backoffBase cfg.backoffMax).drawsAfter
          (toRun (row.claim owner leaseUntil)) delay ↔
        0 ≤ delay ∧ delay < documentedWindow base max k

/-- What the runner does after a failure that is not the last allowed one. -/
theorem retry_of_failedTimes {cfg : Config} {k : Nat} {row : SagaRun} {owner : String}
    {leaseUntil : Time} {err : GoError} (hk : 1 ≤ k) (hlast : (k : Int) < cfg.maxAttempts)
    (hrow : FailedTimes (k - 1) row) (herr : isTerminal err = false) :
    (toRun (row.claim owner leaseUntil)).stepAttempts + 1 = k ∧
      afterFailure cfg (toRun (row.claim owner leaseUntil)) err = .retry err := by
  have hattempts : (toRun (row.claim owner leaseUntil)).stepAttempts + 1 = k := by
    have hcount : (toRun (row.claim owner leaseUntil)).stepAttempts = ((k - 1 : Nat) : Int) :=
      hrow.stepAttempts
    omega
  refine ⟨hattempts, ?_⟩
  rw [afterFailure, if_neg]
  rw [hattempts, herr]
  simpa using hlast

/-- A window that is one doubling ahead is the documented one where both are at the maximum. -/
theorem forall_window_iff {base max : Int} {k : Nat} (hbase : 0 < base) (hle : base ≤ max)
    (hk : 1 ≤ k) :
    (∀ delay, 0 ≤ delay ∧ delay < min (base * 2 ^ k) max ↔
        0 ≤ delay ∧ delay < documentedWindow base max k) ↔ max ≤ base * 2 ^ (k - 1) := by
  have hpos : 0 < base * 2 ^ (k - 1) := by positivity
  have hdouble : base * 2 ^ k = 2 * (base * 2 ^ (k - 1)) := by
    obtain ⟨n, rfl⟩ : ∃ n, k = n + 1 := ⟨k - 1, by omega⟩
    rw [Nat.add_sub_cancel, pow_succ]
    ring
  unfold documentedWindow
  rw [hdouble]
  generalize base * 2 ^ (k - 1) = x at *
  constructor
  · intro h
    by_contra hlt
    have := (h x).mp (by omega)
    omega
  · intro hplateau delay
    omega

end Saga

namespace Outbox

/-- How often a row was sent in vain and rescheduled since it was published. -/
inductive FailedTimes : Nat → Row → Prop
  | published {row : Row} : row.attempts = 0 → FailedTimes 0 row
  | again {k : Nat} {row : Row} (nextAttemptAt : Int) (lastError : String) : FailedTimes k row →
      FailedTimes (k + 1) ((Update.retry row.id nextAttemptAt lastError).apply row)

/-- The failures of a message are counted by its row. -/
theorem FailedTimes.attempts {k : Nat} {row : Row} (h : FailedTimes k row) :
    row.attempts = k := by
  induction h with
  | published hzero => simpa using hzero
  | @again k row nextAttemptAt lastError h ih => simp [Update.apply, Update.id, ih]

/-- The window of `computeBackoff` is the documented one. -/
theorem Dispatcher.draws_iff {d : Dispatcher} (hmax : d.backoffMax ≤ 2 ^ 62) {k : Nat} (hk : 1 ≤ k)
    (delay : Int) :
    d.Draws k delay ↔ 0 ≤ delay ∧ delay < documentedWindow d.backoffBase d.backoffMax k := by
  have hcandidate : d.candidate k = documentedWindow d.backoffBase d.backoffMax k := by
    have hindex : ((k : Int) - 1).toNat = k - 1 := by omega
    rw [documentedWindow, ← Saga.min_delayLoop hmax d.backoffBase_pos, Dispatcher.candidate, hindex]
    split <;> omega
  have hpos : 0 < d.backoffBase * 2 ^ (k - 1) := by
    have := d.backoffBase_pos
    positivity
  have hwindow : ¬ documentedWindow d.backoffBase d.backoffMax k ≤ 0 := by
    have := d.backoffMax_pos
    unfold documentedWindow
    omega
  rw [Dispatcher.Draws, hcandidate, if_neg hwindow]

/-- After the `k`-th failure of a message, which is not the last allowed one, the dispatcher draws
from the documented window. -/
def FollowsSchedule (base max : Int) (k : Nat) : Prop :=
  ∀ (d : Dispatcher), d.backoffBase = base → d.backoffMax = max → (k : Int) < d.maxAttempts →
    ∀ (row : Row) (err : String), FailedTimes (k - 1) row →
      ∃ attempt, afterSend d row (some err) =
          (computeBackoff attempt).bind (fun delay => retryAfter row err delay) ∧
        ∀ delay, d.Draws attempt delay ↔ 0 ≤ delay ∧ delay < documentedWindow base max k

/-- The dispatcher keeps to the documented schedule. -/
theorem followsSchedule {base max : Int} {k : Nat} (hmax : max ≤ 2 ^ 62) (hk : 1 ≤ k) :
    FollowsSchedule base max k := by
  rintro d rfl rfl hlast row err hrow
  have hattempt : row.attempts + 1 = k := by
    have hcount := hrow.attempts
    omega
  have hnot : ¬ (k : Int) ≥ d.maxAttempts := by omega
  refine ⟨k, ?_, d.draws_iff hmax hk⟩
  simp only [afterSend, hattempt, if_neg hnot]

end Outbox

/-- The runner keeps to the documented schedule precisely where its windows have reached the
maximum: after the `k`-th failure they are `min (base * 2 ^ k) max`. The dispatcher keeps to it
always. -/
theorem schedules_documented_iff (base max : Int) (k : Nat) (hbase : 0 < base) (hle : base ≤ max)
    (hmax : max ≤ 2 ^ 62) (hk : 1 ≤ k) :
    Saga.FollowsSchedule base max k ∧ Outbox.FollowsSchedule base max k ↔
      max ≤ base * 2 ^ (k - 1) := by
  have hbackoff : Saga.newBackoff base max = ⟨base, max⟩ := by
    have hzero : ¬ base ≤ 0 := by omega
    have hmaxpos : ¬ (max ≤ 0 ∨ max < base) := by omega
    simp only [Saga.newBackoff, if_neg hzero, if_neg hmaxpos]
  have hdraws : ∀ delay, (Saga.newBackoff base max).draws k delay ↔
      0 ≤ delay ∧ delay < min (base * 2 ^ k) max := by
    rw [hbackoff]
    exact fun delay => Saga.Backoff.draws_iff hbase hle hmax k delay
  rw [← Saga.forall_window_iff hbase hle hk]
  constructor
  · rintro ⟨hsaga, -⟩ delay
    obtain ⟨row, hrow⟩ := Saga.exists_failedTimes (k - 1)
    have hlast : (k : Int) < (Saga.Config.mk 60000000000 (k + 1) base max).maxAttempts :=
      Int.lt_succ k
    have herr : isTerminal (.new "failed") = false := rfl
    have hfollows := (hsaga _ rfl rfl hlast row "worker" 0 _ hrow herr).2 delay
    rw [Saga.Backoff.drawsAfter, (Saga.retry_of_failedTimes hk hlast hrow herr).1] at hfollows
    rw [← hdraws, ← hfollows]
  · intro hwindow
    refine ⟨?_, Outbox.followsSchedule hmax hk⟩
    rintro cfg rfl rfl hlast row owner leaseUntil err hrow herr
    obtain ⟨hattempts, hretry⟩ := Saga.retry_of_failedTimes hk hlast hrow herr
    refine ⟨hretry, fun delay => ?_⟩
    rw [Saga.Backoff.drawsAfter, hattempts, hdraws, hwindow]

/-- Where base and maximum are equal, both keep to it from the first failure on. -/
theorem schedules_documented_iff_constant :
    Saga.FollowsSchedule 300000000000 300000000000 1 ∧
      Outbox.FollowsSchedule 300000000000 300000000000 1 :=
  (schedules_documented_iff 300000000000 300000000000 1 (by decide) (by decide) (by decide)
    (by decide)).mpr (by decide)

/-- With the default base of a second and maximum of five minutes, the runner can wait for one and
a half seconds after the first failure. -/
theorem runner_first_window_doubled :
    (Saga.newBackoff 1000000000 300000000000).drawsAfter
      (Saga.toRun (Saga.enteredRow.claim "worker" 0)) 1500000000 ∧
    documentedWindow 1000000000 300000000000 1 = 1000000000 ∧
    ¬ (Saga.FollowsSchedule 1000000000 300000000000 1 ∧
      Outbox.FollowsSchedule 1000000000 300000000000 1) := by
  have hdraws : (Saga.newBackoff 1000000000 300000000000).drawsAfter
      (Saga.toRun (Saga.enteredRow.claim "worker" 0)) 1500000000 := by decide
  refine ⟨hdraws, by decide, ?_⟩
  rintro ⟨hsaga, -⟩
  have hfollows := (hsaga ⟨60000000000, 8, 1000000000, 300000000000⟩ rfl rfl (by decide)
    Saga.enteredRow "worker" 0 (.new "failed") (.entered rfl) rfl).2 1500000000
  have hwindow := (hfollows.mp hdraws).2
  exact absurd hwindow (by decide)

end Selatpay
