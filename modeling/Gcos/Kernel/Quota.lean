import Mathlib.Order.MinMax
import Mathlib.Tactic.Common

/-!
# The shared quota

`gcos/kernel/quota.py`: the budget of LLM calls that all agents share.  Each method of
the source holds the lock for its whole body, so each is one atomic operation here.
-/

namespace Gcos

/-- `Quota`. -/
structure Quota where
  total : ℤ
  remaining : ℤ
deriving DecidableEq, Repr

namespace Quota

/-- `Quota(total)`, for the totals that the constructor does not reject. -/
def ofTotal (total : ℤ) : Option Quota :=
  if total < 0 then none else some { total := total, remaining := total }

/-- `Quota.acquire`.  `acquire_blocking` does the same once it has waited: it answers
`False` only when the units are still missing at the end. -/
def acquire (n : ℤ) (quota : Quota) : Bool × Quota :=
  if quota.remaining < n then (false, quota)
  else (true, { quota with remaining := quota.remaining - n })

/-- `Quota.acquire_up_to`. -/
def acquireUpTo (n : ℤ) (quota : Quota) : ℤ × Quota :=
  let take := max 0 (min n quota.remaining)
  (take, { quota with remaining := quota.remaining - take })

/-- `Quota.refund`. -/
def refund (n : ℤ) (quota : Quota) : Quota :=
  { quota with remaining := min quota.total (quota.remaining + n) }

/-- `Quota.topup`. -/
def topup (n : ℤ) (quota : Quota) : Quota :=
  { total := quota.total + n, remaining := quota.remaining + n }

/-- The field `used` of `Quota.snapshot`. -/
def used (quota : Quota) : ℤ := quota.total - quota.remaining

@[simp] lemma total_acquire (n : ℤ) (quota : Quota) : (quota.acquire n).2.total = quota.total := by
  unfold acquire
  split <;> rfl

/-- A refund below the total is not cut off. -/
lemma refund_of_le {n : ℤ} {quota : Quota} (h : quota.remaining + n ≤ quota.total) :
    quota.refund n = { quota with remaining := quota.remaining + n } := by
  rw [refund, min_eq_right h]

/-- The quotas that come out of the constructor and the methods. -/
inductive Reached : Quota → Prop
  | ofTotal {total : ℤ} {quota : Quota} (h : ofTotal total = some quota) : Reached quota
  | acquire {quota : Quota} (h : Reached quota) : Reached (quota.acquire 1).2
  | acquireUpTo {quota : Quota} (h : Reached quota) (n : ℤ) : Reached (quota.acquireUpTo n).2
  | refund {quota : Quota} (h : Reached quota) (n : ℤ) : Reached (quota.refund n)
  | topup {quota : Quota} (h : Reached quota) (n : ℤ) : Reached (quota.topup n)

/-- There is never more left than there is in total. -/
lemma Reached.remaining_le {quota : Quota} (h : quota.Reached) : quota.remaining ≤ quota.total := by
  induction h with
  | @ofTotal total quota h =>
    unfold Quota.ofTotal at h
    split at h
    · cases h
    · cases h
      exact le_refl _
  | @acquire quota _ ih =>
    unfold Quota.acquire
    split
    · exact ih
    · show quota.remaining - 1 ≤ quota.total
      omega
  | @acquireUpTo quota _ n ih =>
    show quota.remaining - max 0 (min n quota.remaining) ≤ quota.total
    omega
  | refund _ n _ => exact min_le_left _ _
  | @topup quota _ n ih =>
    show quota.remaining + n ≤ quota.total + n
    omega

end Quota

end Gcos
