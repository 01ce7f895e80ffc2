import Mathlib.Algebra.Order.Field.Basic
import Mathlib.Data.List.Count
import Mathlib.Tactic.Linarith
import Mathlib.Tactic.Ring

/-!
# Linear envelopes

A log of times lies *within* the envelope of burst `c` and rate `r` if no window of length
`T` contains more than `c + r * T` of them.  Whoever lets events happen keeps an account of
its *room*: the number of events that it could still let happen at once.  The log stays
within the envelope as long as the room grows by at most `r` per unit of time, every event
takes one unit of it, and at an event it is at most `c`.
-/

namespace Gcos.Lib.Envelope

variable {K : Type*} [LinearOrder K] {now : K} {log : List K}

/-- The number of events between two times. -/
def between (log : List K) (a b : K) : ℕ := log.countP fun s => a ≤ s ∧ s ≤ b

lemma between_cons (s : K) (log : List K) (a b : K) :
    between (s :: log) a b = between log a b + if a ≤ s ∧ s ≤ b then 1 else 0 := by
  simp only [between, List.countP_cons, decide_eq_true_eq]

/-- Where all events lie in the past, later ends of a window make no difference. -/
lemma between_of_past (hpast : ∀ s ∈ log, s ≤ now) {b : K} (hb : now ≤ b) (a : K) :
    between log a b = between log a now := by
  refine List.countP_congr fun s hs => ?_
  have hnow : s ≤ now := hpast s hs
  simp [hnow, hnow.trans hb]

variable [Field K] {c r room : K}

/-- No window of length `T` contains more than `c + r * T` events. -/
def Within (c r : K) (log : List K) : Prop :=
  ∀ a T, 0 ≤ T → (between log a (a + T) : K) ≤ c + r * T

/-- The account of a log: every window that has begun, and in which something happened,
leaves place for the events that there is room for. -/
structure Accrued (c r : K) (log : List K) (now room : K) : Prop where
  past : ∀ s ∈ log, s ≤ now
  within : Within c r log
  since : ∀ a, 0 < between log a now → (between log a now : K) + room ≤ c + r * (now - a)

namespace Accrued

variable [IsStrictOrderedRing K]

/-- An empty log. -/
lemma nil (hc : 0 ≤ c) (hr : 0 ≤ r) (now room : K) : Accrued c r [] now room where
  past := fun s hs => nomatch hs
  within := fun a T hT => by
    have hgrowth : 0 ≤ r * T := mul_nonneg hr hT
    simp only [between, List.countP_nil, Nat.cast_zero]
    linarith
  since := fun a ha => by simp [between] at ha

/-- Time passes, and the room grows at most at the rate of the envelope. -/
lemma later (h : Accrued c r log now room) {now' room' : K} (hnow : now ≤ now')
    (hroom : room' ≤ room + r * (now' - now)) : Accrued c r log now' room' where
  past := fun s hs => (h.past s hs).trans hnow
  within := h.within
  since := fun a ha => by
    rw [between_of_past h.past hnow] at ha ⊢
    have hsince := h.since a ha
    have hsplit : r * (now' - a) = r * (now - a) + r * (now' - now) := by ring
    linarith

/-- An event happens, where the room is no larger than the burst. -/
lemma event (h : Accrued c r log now room) (hr : 0 ≤ r) (hone : 1 ≤ room) (hroom : room ≤ c) :
    Accrued c r (now :: log) now (room - 1) := by
  have hpast : ∀ s ∈ now :: log, s ≤ now := by
    intro s hs
    rcases List.mem_cons.1 hs with rfl | hs
    · exact le_rfl
    · exact h.past s hs
  have hsince : ∀ a, 0 < between (now :: log) a now →
      (between (now :: log) a now : K) + (room - 1) ≤ c + r * (now - a) := by
    intro a ha
    rw [between_cons] at ha ⊢
    by_cases hlate : a ≤ now
    · rw [if_pos ⟨hlate, le_rfl⟩]
      have hgrowth : 0 ≤ r * (now - a) := mul_nonneg hr (sub_nonneg.2 hlate)
      rcases Nat.eq_zero_or_pos (between log a now) with hzero | hpos
      · rw [hzero]
        push_cast
        linarith
      · have hold := h.since a hpos
        push_cast
        linarith
    · -- a window that begins later contains nothing
      have hnone : between log a now = 0 := by
        refine List.countP_eq_zero.2 fun s hs => ?_
        have hs' : ¬a ≤ s := fun has => hlate (has.trans (h.past s hs))
        simp [hs']
      rw [hnone, if_neg fun hin => hlate hin.1] at ha
      exact absurd ha (lt_irrefl 0)
  refine ⟨hpast, fun a T hT => ?_, hsince⟩
  by_cases hin : a ≤ now ∧ now ≤ a + T
  · have hlast : between (now :: log) a (a + T) = between (now :: log) a now :=
      between_of_past hpast hin.2 a
    have hpos : 0 < between (now :: log) a now := by
      rw [between_cons, if_pos ⟨hin.1, le_rfl⟩]
      exact Nat.succ_pos _
    have hwindow : r * (now - a) ≤ r * T := mul_le_mul_of_nonneg_left (by linarith [hin.2]) hr
    have hbound := hsince a hpos
    rw [hlast]
    linarith
  · rw [between_cons, if_neg hin]
    exact h.within a T hT

end Accrued

end Gcos.Lib.Envelope
