import Gcos.Pool.Obedience
import Mathlib.Algebra.BigOperators.Fin
import Mathlib.Algebra.BigOperators.Intervals
import Mathlib.Algebra.Order.BigOperators.Group.Finset
import Mathlib.Tactic.Linarith

/-!
# The invariant of the thread backend

Three things are kept by every step of every thread.  *Ownership*: an agent that was
enqueued is in the queue at most once, is held by at most one worker, and not both.
*Keeping*: where the rules forbid to lose agents, every agent that was enqueued and is
not terminal is queued or held.  *Conservation*: the units that are gone from the quota
are the calls that were counted, the summaries, and the units in hand.
-/

namespace Gcos.Pool

open Lib Note

variable {n : ℕ}

/-! ### Sums over the workers -/

section

variable {L : Type} (f : L → ℤ) (ls : Tid n → L)

lemma sum_workers_update {t : Tid n} (ht : t.isWorker = true) (x : L) :
    ∑ i : Fin n, f (Function.update ls t x (.worker i)) =
      ∑ i : Fin n, f (ls (.worker i)) + (f x - f (ls t)) := by
  cases t with
  | client k => cases ht
  | worker i =>
    have hfun : (fun j => f (Function.update ls (.worker i) x (.worker j))) =
        Function.update (fun j => f (ls (.worker j))) i (f x) := by
      funext j
      by_cases hj : j = i
      · subst hj
        simp
      · simp [hj]
    rw [hfun, Finset.sum_update_of_mem (Finset.mem_univ i), Finset.sdiff_singleton_eq_erase,
      ← Finset.add_sum_erase _ _ (Finset.mem_univ i)]
    ring

lemma sum_workers_update_client {t : Tid n} (ht : t.isWorker = false) (x : L) :
    ∑ i : Fin n, f (Function.update ls t x (.worker i)) = ∑ i : Fin n, f (ls (.worker i)) := by
  cases t with
  | worker i => cases ht
  | client k => simp

/-- An update that does not change `f` does not change the sum. -/
lemma sum_workers_update_of_eq (t : Tid n) {x : L} (hx : f x = f (ls t)) :
    ∑ i : Fin n, f (Function.update ls t x (.worker i)) = ∑ i : Fin n, f (ls (.worker i)) := by
  cases ht : t.isWorker with
  | true => rw [sum_workers_update f ls ht, hx, sub_self, add_zero]
  | false => exact sum_workers_update_client f ls ht x

end

/-- The sum of `f` over what the workers have in hand. -/
def overWorkers (f : Local → ℤ) (loc : Tid n → Local) : ℤ := ∑ i : Fin n, f (loc (.worker i))

lemma overWorkers_update (f : Local → ℤ) (loc : Tid n → Local) {t : Tid n}
    (ht : t.isWorker = true) (x : Local) :
    overWorkers f (Function.update loc t x) = overWorkers f loc + (f x - f (loc t)) :=
  sum_workers_update f loc ht x

lemma overWorkers_update_of_eq (f : Local → ℤ) (loc : Tid n → Local) (t : Tid n) {x : Local}
    (hx : f x = f (loc t)) : overWorkers f (Function.update loc t x) = overWorkers f loc :=
  sum_workers_update_of_eq f loc t hx

/-- `1` for a worker between its pick and its `task_done`. -/
def flight (l : Local) : ℤ := if l.flying then 1 else 0

/-- The quota units of a worker. -/
def unitsOf (l : Local) : ℤ := l.units

/-- `1` for a worker with a reply that is not counted yet. -/
def replyOf (l : Local) : ℤ := if l.replied then 1 else 0

/-- The calls that were counted, over all agents ever spawned. -/
def callsMade (next : ℕ) (pcbs : Pid → AgentControlBlock) : ℤ :=
  ∑ k ∈ Finset.Ico 1 next, (pcbs k).llmCallsUsed

lemma callsMade_congr {next : ℕ} {pcbs pcbs' : Pid → AgentControlBlock}
    (h : ∀ p, (pcbs' p).llmCallsUsed = (pcbs p).llmCallsUsed) :
    callsMade next pcbs' = callsMade next pcbs :=
  Finset.sum_congr rfl fun k _ => h k

/-- Counting one call of an agent that was spawned. -/
lemma callsMade_count {next : ℕ} {pcbs : Pid → AgentControlBlock} {p : ℤ}
    (h₁ : 1 ≤ p) (h₂ : p < next) {pcb : AgentControlBlock}
    (hpcb : pcb.llmCallsUsed = (pcbs p).llmCallsUsed + 1) :
    callsMade next (Function.update pcbs p pcb) = callsMade next pcbs + 1 := by
  obtain ⟨k, rfl⟩ : ∃ k : ℕ, p = k := ⟨p.toNat, by omega⟩
  have hk : k ∈ Finset.Ico 1 next := by
    rw [Finset.mem_Ico]
    omega
  have hfun : (fun j : ℕ => (Function.update pcbs (k : Pid) pcb j).llmCallsUsed) =
      Function.update (fun j : ℕ => (pcbs j).llmCallsUsed) k ((pcbs k).llmCallsUsed + 1) := by
    funext j
    by_cases hj : j = k
    · subst hj
      simp [hpcb]
    · simp [hj]
  rw [callsMade, hfun, Finset.sum_update_of_mem hk, Finset.sdiff_singleton_eq_erase, callsMade,
    ← Finset.add_sum_erase _ _ hk]
  ring

/-- A new agent has made no call. -/
lemma callsMade_spawn {next : ℕ} (hnext : 1 ≤ next) {pcbs : Pid → AgentControlBlock}
    {pcb : AgentControlBlock} (hpcb : pcb.llmCallsUsed = 0) :
    callsMade (next + 1) (Function.update pcbs (next : Pid) pcb) = callsMade next pcbs := by
  rw [callsMade, Finset.sum_Ico_succ_top hnext, Function.update_self, hpcb, add_zero, callsMade]
  refine Finset.sum_congr rfl fun k hk => ?_
  rw [Finset.mem_Ico] at hk
  rw [Function.update_of_ne (Nat.cast_injective.ne hk.2.ne)]

/-! ### The invariant -/

/-- The pids that were handed out. -/
def Allocated (next : ℕ) (p : ℤ) : Prop := 1 ≤ p ∧ p < next

/-- Who has which agent. -/
structure Owned (q enqueued : List Pid) (next : ℕ) (loc : Tid n → Local) : Prop where
  nodup : q.Nodup
  queued : ∀ p ∈ q, p ∈ enqueued
  held : ∀ t p, (loc t).held = some p → p ∈ enqueued ∧ p ∉ q
  held_once : ∀ t u p, (loc t).held = some p → (loc u).held = some p → t = u
  fresh : ∀ t p, (loc t).fresh = some p → p ∉ enqueued ∧ Allocated next p
  fresh_once : ∀ t u p, (loc t).fresh = some p → (loc u).fresh = some p → t = u
  allocated : ∀ p ∈ enqueued, Allocated next p

/-- No agent is lost. -/
def Kept (q enqueued : List Pid) (pcbs : Pid → AgentControlBlock) (loc : Tid n → Local) : Prop :=
  ∀ p ∈ enqueued, (pcbs p).isTerminal = false → p ∈ q ∨ ∃ t, (loc t).held = some p

/-- No unit is lost. -/
structure Conserved (w : World n) : Prop where
  spent : w.quota.total - w.quota.remaining =
    callsMade w.nextPid w.pcbs + w.summaries + overWorkers unitsOf w.loc
  replies : (w.replies : ℤ) = callsMade w.nextPid w.pcbs + overWorkers replyOf w.loc
  remaining : 0 ≤ w.quota.remaining
  made : 0 ≤ callsMade w.nextPid w.pcbs

/-- The invariant, with the notes of the threads. -/
structure Inv (rules : Rules) (w : World n) (ls : Tid n → Note) : Prop where
  hand : ∀ t, w.loc t = (ls t).hand
  role : ∀ t, (ls t).isWorker = t.isWorker
  positive : 1 ≤ w.nextPid
  table : ∀ p ∈ w.table, Allocated w.nextPid p
  seen : ∀ t, ∀ p ∈ (ls t).seen, Allocated w.nextPid p
  owned : Owned w.queue.q w.enqueued w.nextPid w.loc
  dead : ∀ t p, (ls t).dead = some p → Allocated w.nextPid p ∧ (w.pcbs p).isTerminal = true
  kept : rules.lossless = true → Kept w.queue.q w.enqueued w.pcbs w.loc
  flights : (w.queue.inFlight : ℤ) = overWorkers flight w.loc
  stop : rules.quiet = true → w.stop = false
  calls : ∀ t p c, (ls t).calls = some (p, c) → (w.pcbs p).llmCallsUsed = c
  conserved : rules.metered = true → Conserved w

variable {rules : Rules} {w w' : World n} {ls : Tid n → Note} {t : Tid n} {l' : Note}

/-- A thread moves, and the world with it.  The other threads keep what they know as long
as no block that they know about is revived or has its calls counted. -/
lemma Inv.move (h : Inv rules w ls) (hloc : w'.loc = Function.update w.loc t l'.hand)
    (hrole : l'.isWorker = (ls t).isWorker) (hnext : w.nextPid ≤ w'.nextPid)
    (htable : ∀ p ∈ w'.table, Allocated w'.nextPid p)
    (hseen : ∀ p ∈ l'.seen, Allocated w'.nextPid p)
    (howned : Owned w'.queue.q w'.enqueued w'.nextPid w'.loc)
    (hterm : ∀ p, Allocated w.nextPid p → (w.pcbs p).isTerminal = true →
      (w'.pcbs p).isTerminal = true)
    (hdead : ∀ p, l'.dead = some p → Allocated w'.nextPid p ∧ (w'.pcbs p).isTerminal = true)
    (hkept : rules.lossless = true → Kept w'.queue.q w'.enqueued w'.pcbs w'.loc)
    (hflights : (w'.queue.inFlight : ℤ) = overWorkers flight w'.loc)
    (hstop : rules.quiet = true → w'.stop = false)
    (hframe : ∀ u p, u ≠ t → (w.loc u).held = some p →
      (w'.pcbs p).llmCallsUsed = (w.pcbs p).llmCallsUsed)
    (hcalls : ∀ p c, l'.calls = some (p, c) → (w'.pcbs p).llmCallsUsed = c)
    (hconserved : rules.metered = true → Conserved w') :
    Inv rules w' (Function.update ls t l') := by
  have hmono : ∀ p, Allocated w.nextPid p → Allocated w'.nextPid p := by
    intro p hp
    exact ⟨hp.1, hp.2.trans_le (by exact_mod_cast hnext)⟩
  refine ⟨fun u => ?_, fun u => ?_, h.positive.trans hnext, htable, fun u p hp => ?_, howned,
    fun u p hp => ?_, hkept, hflights, hstop, fun u p c hp => ?_, hconserved⟩
  · rw [hloc]
    by_cases hu : u = t
    · subst hu
      simp
    · simp [Function.update_of_ne hu, h.hand u]
  · by_cases hu : u = t
    · subst hu
      simp [hrole, h.role u]
    · simp [Function.update_of_ne hu, h.role u]
  · by_cases hu : u = t
    · subst hu
      rw [Function.update_self] at hp
      exact hseen p hp
    · rw [Function.update_of_ne hu] at hp
      exact hmono p (h.seen u p hp)
  · by_cases hu : u = t
    · subst hu
      rw [Function.update_self] at hp
      exact hdead p hp
    · rw [Function.update_of_ne hu] at hp
      obtain ⟨halloc, hdead'⟩ := h.dead u p hp
      exact ⟨hmono p halloc, hterm p halloc hdead'⟩
  · by_cases hu : u = t
    · subst hu
      rw [Function.update_self] at hp
      exact hcalls p c hp
    · rw [Function.update_of_ne hu] at hp
      rw [← h.calls u p c hp]
      refine hframe u p hu ?_
      rw [h.hand u]
      cases hl : ls u <;> rw [hl] at hp <;> cases hp
      rfl

end Gcos.Pool
