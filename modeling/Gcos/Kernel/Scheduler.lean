import Gcos.Kernel.Pcb
import Mathlib.Data.List.MinMax
import Mathlib.Data.Prod.Lex

/-!
# The ready queue and the schedulers

`gcos/kernel/ready_queue.py` and `gcos/kernel/scheduler.py`.  The queue holds references
to control blocks, here their pids; a pop counts the agent as in flight in the same
locked step.  A scheduler is a rule of selection and a quantum.
-/

namespace Gcos

/-- `ReadyQueue`. -/
structure ReadyQueue where
  q : List Pid := []
  inFlight : ℕ := 0
deriving DecidableEq, Repr

namespace ReadyQueue

/-- `ReadyQueue.popleft`. -/
def popleft (queue : ReadyQueue) : Option Pid × ReadyQueue :=
  match queue.q with
  | [] => (none, queue)
  | p :: rest => (some p, { q := rest, inFlight := queue.inFlight + 1 })

/-- `ReadyQueue.pop_best`: the first entry with the largest key. -/
def popBest {κ : Type} [LinearOrder κ] (key : Pid → κ) (queue : ReadyQueue) :
    Option Pid × ReadyQueue :=
  match queue.q.argmax key with
  | none => (none, queue)
  | some p => (some p, { q := queue.q.erase p, inFlight := queue.inFlight + 1 })

/-- `ReadyQueue.pop`. -/
def pop (p : Pid) (queue : ReadyQueue) : Bool × ReadyQueue :=
  if p ∈ queue.q then (true, { queue with q := queue.q.erase p }) else (false, queue)

/-- `ReadyQueue.task_done`. -/
def taskDone (queue : ReadyQueue) : ReadyQueue :=
  if 0 < queue.inFlight then { queue with inFlight := queue.inFlight - 1 } else queue

/-- `ReadyQueue.is_drained`. -/
def isDrained (queue : ReadyQueue) : Bool := queue.q.isEmpty && queue.inFlight == 0

end ReadyQueue

/-- The three schedulers with their parameters. -/
inductive Scheduler
  | fcfs
  | rr (quantum : ℕ)
  | priority (agingRatePerS agingMaxBonus : ℚ)
deriving DecidableEq, Repr

namespace Scheduler

/-- `make`: the schedulers by their names, with the default parameters. -/
def make : String → Option Scheduler
  | "fcfs" => some .fcfs
  | "priority" => some (.priority (1 / 10) 8)
  | "rr" => some (.rr 2)
  | _ => none

/-- `Scheduler.quantum`. -/
def quantum : Scheduler → Option ℕ
  | fcfs => none
  | rr k => some k
  | priority _ _ => some 1

/-- `PriorityScheduler.effective_priority`. -/
def effectivePriority (agingRatePerS agingMaxBonus : ℚ) (pcb : AgentControlBlock) (now : Time) :
    ℚ :=
  if agingRatePerS ≤ 0 then pcb.priority
  else pcb.priority + min agingMaxBonus (max 0 (now - pcb.createdAt) * agingRatePerS)

/-- `Scheduler.pick_next` at time `now`. -/
def pickNext (pcbs : Pid → AgentControlBlock) (now : Time) (queue : ReadyQueue) :
    Scheduler → Option Pid × ReadyQueue
  | fcfs | rr _ => queue.popleft
  | priority rate bonus =>
    queue.popBest fun p =>
      toLex (effectivePriority rate bonus (pcbs p) now, -(pcbs p).createdAt)

/-- Whatever the rule, a pick either finds the queue empty, or takes one entry out and
counts it as in flight. -/
lemma pickNext_cases (pcbs : Pid → AgentControlBlock) (now : Time) (queue : ReadyQueue)
    (sched : Scheduler) :
    (queue.q = [] ∧ sched.pickNext pcbs now queue = (none, queue)) ∨
      ∃ p ∈ queue.q, sched.pickNext pcbs now queue =
        (some p, { q := queue.q.erase p, inFlight := queue.inFlight + 1 }) := by
  have hleft : (queue.q = [] ∧ queue.popleft = (none, queue)) ∨ ∃ p ∈ queue.q,
      queue.popleft = (some p, { q := queue.q.erase p, inFlight := queue.inFlight + 1 }) := by
    cases hq : queue.q with
    | nil => exact .inl ⟨rfl, by rw [ReadyQueue.popleft, hq]⟩
    | cons p rest =>
      exact .inr ⟨p, List.mem_cons_self, by rw [ReadyQueue.popleft, hq]; simp⟩
  cases sched with
  | fcfs => exact hleft
  | rr k => exact hleft
  | priority rate bonus =>
    simp only [pickNext, ReadyQueue.popBest]
    split
    · next hmax => exact .inl ⟨List.argmax_eq_none.1 hmax, rfl⟩
    · next p hmax => exact .inr ⟨p, List.argmax_mem hmax, rfl⟩

end Scheduler

end Gcos
