import Gcos.Kernel.Aging
import Gcos.Lib.Lists
import Gcos.Pool.Runs

/-!
# What the priority scheduler picks

The bonus for age depends on the time, is capped, and is zero for an agent that was created
after the clock was read; but it never falls with age.  So an agent is not picked while
another one waits that has at least its priority and is at least as old, and is better in
one of the two.  Without a bonus the queue is emptied in a fixed order.
-/

namespace Gcos

open Lib

namespace Scheduler

/-- `A` has at least the priority of `B` and is at least as old, and is better in one of the
two. -/
def Dominates (A B : AgentControlBlock) : Prop :=
  B.priority ≤ A.priority ∧ A.createdAt ≤ B.createdAt ∧
    (B.priority < A.priority ∨ A.createdAt < B.createdAt)

/-- The bonus does not fall with age. -/
lemma bonus_le (rate bonus : ℚ) (now : Time) {A B : AgentControlBlock}
    (hage : A.createdAt ≤ B.createdAt) :
    effectivePriority rate bonus B now - B.priority ≤
      effectivePriority rate bonus A now - A.priority := by
  unfold effectivePriority
  split
  · simp
  · next hrate =>
    have hwaited : max 0 (now - B.createdAt) ≤ max 0 (now - A.createdAt) :=
      max_le_max_left 0 (by linarith)
    have hgrown : max 0 (now - B.createdAt) * rate ≤ max 0 (now - A.createdAt) * rate :=
      mul_le_mul_of_nonneg_right hwaited (not_le.1 hrate).le
    have hcapped := min_le_min_left bonus hgrown
    linarith

variable {rate bonus : ℚ} {pcbs : Pid → AgentControlBlock} {now : Time}

/-- An agent that dominates another has the larger key. -/
lemma selectionKey_lt_of_dominates {A B : AgentControlBlock} (h : Dominates A B) :
    selectionKey rate bonus B now < selectionKey rate bonus A now := by
  obtain ⟨hprio, hage, hbetter⟩ := h
  have hbonus := bonus_le rate bonus now hage
  have hbase : (B.priority : ℚ) ≤ A.priority := by exact_mod_cast hprio
  have hle : effectivePriority rate bonus B now ≤ effectivePriority rate bonus A now := by linarith
  rw [selectionKey, selectionKey, Prod.Lex.toLex_lt_toLex]
  rcases hbetter with hhigher | hold
  · have hlt : (B.priority : ℚ) < A.priority := by exact_mod_cast hhigher
    exact .inl (by dsimp only; linarith)
  · rcases hle.lt_or_eq with hlt | heq
    · exact .inl hlt
    · exact .inr ⟨heq, neg_lt_neg hold⟩

/-- The agent that is picked is the first one with the largest key. -/
lemma argmax_of_pickNext {queue rest : ReadyQueue} {p : Pid}
    (h : (Scheduler.priority rate bonus).pickNext pcbs now queue = (some p, rest)) :
    queue.q.argmax (fun q => selectionKey rate bonus (pcbs q) now) = some p ∧
      rest.q = queue.q.erase p := by
  simp only [pickNext, ReadyQueue.popBest] at h
  split at h
  · cases h
  · next m hm =>
    cases h
    exact ⟨hm, rfl⟩

/-- Nobody who waits dominates the agent that is picked. -/
lemma not_dominates_of_pickNext {queue rest : ReadyQueue} {p q : Pid}
    (h : (Scheduler.priority rate bonus).pickNext pcbs now queue = (some p, rest))
    (hq : q ∈ queue.q) : ¬Dominates (pcbs q) (pcbs p) := fun hdom =>
  absurd (List.le_of_mem_argmax hq (argmax_of_pickNext h).1)
    (not_le.2 (selectionKey_lt_of_dominates hdom))

/-! ### Emptying the queue -/

/-- The agents that are picked at the given times, with no arrivals between. -/
def drain (sched : Scheduler) (pcbs : Pid → AgentControlBlock) : List Time → ReadyQueue → List Pid
  | [], _ => []
  | now :: nows, queue =>
    match sched.pickNext pcbs now queue with
    | (none, _) => []
    | (some p, rest) => p :: drain sched pcbs nows rest

/-- `A` comes before `B`, or not after it: by priority, and by age if these are equal. -/
def Precedes (A B : AgentControlBlock) : Prop :=
  B.priority < A.priority ∨ B.priority = A.priority ∧ A.createdAt ≤ B.createdAt

instance (A B : AgentControlBlock) : Decidable (Precedes A B) :=
  inferInstanceAs (Decidable (_ ∨ _))

lemma precedes_iff (hrate : rate ≤ 0) (A B : AgentControlBlock) :
    Precedes A B ↔ selectionKey rate bonus B now ≤ selectionKey rate bonus A now := by
  rw [selectionKey, selectionKey, Prod.Lex.toLex_le_toLex, effectivePriority, effectivePriority,
    if_pos hrate, if_pos hrate, Precedes]
  simp

/-- Without a bonus the pick is the first one in the stable order. -/
lemma insertionSort_of_pickNext (hrate : rate ≤ 0) {queue rest : ReadyQueue} {p : Pid}
    (h : (Scheduler.priority rate bonus).pickNext pcbs now queue = (some p, rest)) :
    queue.q.insertionSort (fun q r => Precedes (pcbs q) (pcbs r)) =
      p :: rest.q.insertionSort fun q r => Precedes (pcbs q) (pcbs r) := by
  obtain ⟨hmax, hrest⟩ := argmax_of_pickNext h
  have hsort := insertionSort_eq_argmin_cons
    (fun q => OrderDual.toDual (selectionKey rate bonus (pcbs q) now)) hmax
  have hsame : ∀ qs : List Pid,
      qs.insertionSort (fun q r => Precedes (pcbs q) (pcbs r)) =
        qs.insertionSort fun q r => OrderDual.toDual (selectionKey rate bonus (pcbs q) now) ≤
          OrderDual.toDual (selectionKey rate bonus (pcbs r) now) := by
    intro qs
    have hid := List.map_insertionSort (fun q r => Precedes (pcbs q) (pcbs r))
      (fun q r => OrderDual.toDual (selectionKey rate bonus (pcbs q) now) ≤
        OrderDual.toDual (selectionKey rate bonus (pcbs r) now)) id qs
      fun q _ r _ => precedes_iff hrate (pcbs q) (pcbs r)
    rwa [List.map_id, List.map_id] at hid
  rw [hsame, hsame, hrest, hsort]

/-- **Without a bonus** the agents are picked in the stable order, whenever that happens. -/
lemma drain_eq_insertionSort (hrate : rate ≤ 0) {nows : List Time} {queue : ReadyQueue}
    (hlong : queue.q.length ≤ nows.length) :
    drain (.priority rate bonus) pcbs nows queue =
      queue.q.insertionSort fun q r => Precedes (pcbs q) (pcbs r) := by
  induction nows generalizing queue with
  | nil =>
    rw [List.length_eq_zero_iff.1 (Nat.le_zero.1 hlong)]
    rfl
  | cons now nows ih =>
    rw [drain]
    rcases pickNext_cases pcbs now queue (.priority rate bonus) with ⟨hnil, hnone⟩ | ⟨p, hp, hsome⟩
    · rw [hnone, hnil]
      rfl
    · have hshort : (queue.q.erase p).length ≤ nows.length := by
        rw [List.length_erase_of_mem hp]
        rw [List.length_cons] at hlong
        omega
      rw [hsome, insertionSort_of_pickNext hrate hsome]
      exact congrArg (p :: ·) (ih hshort)

end Scheduler

namespace Pool

open Scheduler

variable {n : ℕ}

/-- Whoever is picked is not dominated by anybody in the queue. -/
def PicksBest (cfg : KernelConfig) (out : Outside) : System.Guard KOp (Tid n) (World n) :=
  fun {_} t o w =>
    match o with
    | .pickNext =>
      ∀ p, (World.exec cfg out t .pickNext w).1 = some p →
        ∀ q ∈ w.queue.q, ¬Dominates (w.pcbs q) (w.pcbs p)
    | _ => True

lemma picksBest_exec {cfg : KernelConfig} {out : Outside} {rate bonus : ℚ}
    (hsched : cfg.scheduler = .priority rate bonus) {β : Type} (t : Tid n) (o : KOp β) (w : World n) :
    PicksBest cfg out t o w := by
  cases o with
  | pickNext =>
    intro p hp q hq
    simp only [World.exec, hsched] at hp
    split at hp
    · cases hp
    · next p' queue hpick =>
      obtain rfl : p' = p := Option.some.inj hp
      exact not_dominates_of_pickNext hpick hq
  | _ => trivial

/-- **Selection respects dominance.**  Whatever the rate and the cap of the bonus, nobody in
the queue dominates the agent that is picked, at any time and from any queue, and so at
every pick of every run with any number of workers; and without a bonus the queue is emptied
in the stable order of priority and age. -/
theorem pickNext_respects_dominance (rate bonus : ℚ) :
    (∀ pcbs now (queue rest : ReadyQueue) p,
        (Scheduler.priority rate bonus).pickNext pcbs now queue = (some p, rest) →
          p ∈ queue.q ∧ ∀ q ∈ queue.q, ¬Dominates (pcbs q) (pcbs p)) ∧
      (∀ (n : ℕ) (cfg : KernelConfig) (out : Outside) (quota : Quota)
          (as : List (Act (Tid n) KernelCall)), cfg.scheduler = .priority rate bonus →
        (kernelSystem n cfg out).Meets (PicksBest cfg out) (boot n quota) as) ∧
      (rate ≤ 0 → ∀ pcbs (nows : List Time) (queue : ReadyQueue), queue.q.length ≤ nows.length →
        drain (.priority rate bonus) pcbs nows queue =
          queue.q.insertionSort fun q r => Precedes (pcbs q) (pcbs r)) := by
  refine ⟨fun pcbs now queue rest p hpick => ⟨?_, fun q hq => ?_⟩, ?_, ?_⟩
  · exact List.argmax_mem (argmax_of_pickNext hpick).1
  · exact not_dominates_of_pickNext hpick hq
  · intro n cfg out quota as hsched
    exact System.meets_of_forall _ (fun t o w => picksBest_exec hsched t o w) _ as
  · exact fun hrate pcbs nows queue hlong => drain_eq_insertionSort hrate hlong

/-- Of two agents the one with the higher priority is picked, and at a rate of zero both are
picked in that order. -/
theorem pickNext_respects_dominance_two_agents :
    let pcbs : Pid → AgentControlBlock := fun p =>
      { pid := p, prompt := "", priority := p, createdAt := 0 }
    ¬Dominates (pcbs 1) (pcbs 2) ∧ drain (.priority 0 8) pcbs [0, 1] { q := [1, 2] } = [2, 1] := by
  intro pcbs
  have hpick : (Scheduler.priority (1 / 10) 8).pickNext pcbs 5 { q := [1, 2] } =
      (some 2, { q := [1], inFlight := 1 }) := by decide +kernel
  refine ⟨((pickNext_respects_dominance (1 / 10) 8).1 pcbs 5 _ _ _ hpick).2 1 (by decide), ?_⟩
  rw [(pickNext_respects_dominance 0 8).2.2 le_rfl pcbs [0, 1] _ le_rfl]
  decide +kernel

end Pool

end Gcos
