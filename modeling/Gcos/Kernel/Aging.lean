import Gcos.Kernel.Scheduler
import Mathlib.Algebra.Order.Archimedean.Basic
import Mathlib.Tactic.Linarith
import Mathlib.Tactic.NormNum
import Mathlib.Tactic.Positivity

/-!
# Priority and age

`PriorityScheduler` adds a bonus to the priority of an agent that grows with its age, up to
a cap, so that a stream of urgent newcomers should not keep an older agent waiting for
ever.  But the newcomers age as well: once two agents have both reached the cap, the bonus
no longer tells them apart, and the base priorities decide.  So an agent is safe from all
later arrivals exactly when nobody can have a higher priority than it has.
-/

namespace Gcos

namespace Scheduler

/-- The key by which `PriorityScheduler.pick_next` selects. -/
def selectionKey (agingRatePerS agingMaxBonus : ℚ) (pcb : AgentControlBlock) (now : Time) : ℚ ×ₗ ℚ :=
  toLex (effectivePriority agingRatePerS agingMaxBonus pcb now, -pcb.createdAt)

/-- `PriorityScheduler()`. -/
def byPriority : Scheduler := .priority (1 / 10) 8

/-- The priorities that the API admits. -/
def Admissible (pcb : AgentControlBlock) : Prop := 0 ≤ pcb.priority ∧ pcb.priority ≤ 9

/-- `byPriority` is the scheduler of that name, and it picks a largest key. -/
lemma pickNext_byPriority (pcbs : Pid → AgentControlBlock) (now : Time) (queue : ReadyQueue) :
    make "priority" = some byPriority ∧
      byPriority.pickNext pcbs now queue =
        queue.popBest fun p => selectionKey (1 / 10) 8 (pcbs p) now :=
  ⟨rfl, rfl⟩

variable {pcbs : Pid → AgentControlBlock} {A B : AgentControlBlock} {now : Time}

/-- Nobody in the queue has a larger key than the agent that is picked. -/
lemma selectionKey_le_of_pickNext {queue rest : ReadyQueue} {p q : Pid}
    (h : byPriority.pickNext pcbs now queue = (some p, rest)) (hq : q ∈ queue.q) :
    selectionKey (1 / 10) 8 (pcbs q) now ≤ selectionKey (1 / 10) 8 (pcbs p) now := by
  rw [(pickNext_byPriority pcbs now queue).2, ReadyQueue.popBest] at h
  split at h
  · cases h
  · next m hm =>
    cases h
    exact List.le_of_mem_argmax hq hm

/-- Of two agents in the queue the one with the larger key is picked. -/
lemma pickNext_pair {p q : Pid} (hpq : p ≠ q)
    (h : selectionKey (1 / 10) 8 (pcbs p) now < selectionKey (1 / 10) 8 (pcbs q) now) :
    byPriority.pickNext pcbs now { q := [p, q] } = (some q, { q := [p], inFlight := 1 }) := by
  have hmax : [p, q].argmax (fun x => selectionKey (1 / 10) 8 (pcbs x) now) = some q := by
    rw [show [p, q] = [p] ++ [q] from rfl, List.argmax_concat, List.argmax_singleton]
    exact if_pos h
  have herase : [p, q].erase q = [p] := by
    rw [List.erase_cons_tail (by simpa using hpq), List.erase_cons_head]
  rw [(pickNext_byPriority _ _ _).2, ReadyQueue.popBest]
  simp only [hmax, herase, zero_add]

/-- The effective priority with the default parameters. -/
lemma effectivePriority_default (pcb : AgentControlBlock) (hnow : pcb.createdAt ≤ now) :
    effectivePriority (1 / 10) 8 pcb now =
      pcb.priority + min 8 ((now - pcb.createdAt) * (1 / 10)) := by
  rw [effectivePriority, if_neg (by norm_num), max_eq_right (by linarith)]

/-- An older agent whose priority is not lower has the larger key at all times. -/
lemma selectionKey_lt_of_older (hold : A.createdAt < B.createdAt) (hprio : B.priority ≤ A.priority)
    (hnow : B.createdAt ≤ now) :
    selectionKey (1 / 10) 8 B now < selectionKey (1 / 10) 8 A now := by
  have hbonus : min 8 ((now - B.createdAt) * (1 / 10)) ≤ min 8 ((now - A.createdAt) * (1 / 10)) := by
    refine min_le_min_left _ ?_
    linarith
  have hbase : (B.priority : ℚ) ≤ A.priority := by exact_mod_cast hprio
  rw [selectionKey, selectionKey, effectivePriority_default B hnow,
    effectivePriority_default A (hold.le.trans hnow), Prod.Lex.toLex_lt_toLex]
  rcases (add_le_add hbase hbonus).lt_or_eq with hlt | heq
  · exact .inl hlt
  · exact .inr ⟨heq, neg_lt_neg hold⟩

/-- After eighty seconds a newcomer has its whole bonus, and nobody has more. -/
lemma selectionKey_lt_of_capped (hprio : A.priority < B.priority) (hA : A.createdAt ≤ now)
    (hB : B.createdAt + 80 ≤ now) :
    selectionKey (1 / 10) 8 A now < selectionKey (1 / 10) 8 B now := by
  have hcap : min 8 ((now - B.createdAt) * (1 / 10)) = 8 := min_eq_left (by linarith)
  have hbonus : min 8 ((now - A.createdAt) * (1 / 10)) ≤ (8 : ℚ) := min_le_left _ _
  have hbase : (A.priority : ℚ) < B.priority := by exact_mod_cast hprio
  rw [selectionKey, selectionKey, effectivePriority_default A hA,
    effectivePriority_default B (by linarith), Prod.Lex.toLex_lt_toLex, hcap]
  exact .inl (by linarith)

/-! ### Streams of newcomers -/

/-- From some age on, the agent has a larger key than everybody who was created later than
that, at all times. -/
def Overtakes (A : AgentControlBlock) : Prop :=
  ∃ W : ℚ, ∀ (B : AgentControlBlock) (now : Time), Admissible B → A.createdAt + W ≤ B.createdAt →
    B.createdAt ≤ now → selectionKey (1 / 10) 8 B now < selectionKey (1 / 10) 8 A now

/-- A run of the ready queue in which the agent waits for ever, while agents are picked that
were created later and later. -/
structure KeepsWaiting (A : AgentControlBlock) (pcbs : Pid → AgentControlBlock) (a : Pid)
    (queue arrivals : ℕ → List Pid) (now : ℕ → Time) (picked : ℕ → Pid) : Prop where
  agent : pcbs a = A
  admissible : ∀ p, Admissible (pcbs p)
  clock : Monotone now
  waits : ∀ k, a ∈ queue k ∧ picked k ≠ a
  created : ∀ k, ∀ p ∈ queue k, (pcbs p).createdAt ≤ now k
  picks : ∀ k, (byPriority.pickNext pcbs (now k) { q := queue k }).1 = some (picked k)
  goes_on : ∀ k, queue (k + 1) = (queue k).erase (picked k) ++ arrivals k
  unbounded : ∀ T : Time, ∃ k, T ≤ (pcbs (picked k)).createdAt

/-- Some stream of later arrivals keeps the agent in the queue for ever. -/
def Starves (A : AgentControlBlock) : Prop :=
  ∃ pcbs a queue arrivals now picked, KeepsWaiting A pcbs a queue arrivals now picked

/-- Whoever overtakes the newcomers does not starve. -/
lemma Overtakes.not_starves (h : Overtakes A) : ¬Starves A := by
  rintro ⟨pcbs, a, queue, arrivals, now, picked, hrun⟩
  obtain ⟨W, hW⟩ := h
  obtain ⟨k, hk⟩ := hrun.unbounded (A.createdAt + W)
  have hpick : byPriority.pickNext pcbs (now k) { q := queue k } =
      (some (picked k), (byPriority.pickNext pcbs (now k) { q := queue k }).2) :=
    Prod.ext (hrun.picks k) rfl
  have hmem : picked k ∈ queue k := by
    rcases pickNext_cases pcbs (now k) { q := queue k } byPriority with ⟨-, hnone⟩ | ⟨p, hp, hsome⟩
    · rw [hnone] at hpick
      cases hpick
    · rw [hsome] at hpick
      cases hpick
      exact hp
  have hle := selectionKey_le_of_pickNext hpick (hrun.waits k).1
  have hlt := hW (pcbs (picked k)) (now k) (hrun.admissible _) hk (hrun.created k _ hmem)
  rw [hrun.agent] at hle
  exact absurd hlt (not_lt.2 hle)

/-- The agent that arrives as number `k` to starve `A`. -/
def urgent (A : AgentControlBlock) (k : ℕ) : AgentControlBlock :=
  { pid := k + 1, prompt := "", priority := 9, createdAt := A.createdAt + 100 * k }

/-- The blocks of the stream: `A` and the newcomers. -/
def rush (A : AgentControlBlock) (p : Pid) : AgentControlBlock :=
  if p ≤ 0 then A else urgent A (p.toNat - 1)

lemma rush_succ (A : AgentControlBlock) (k : ℕ) : rush A ((k : ℤ) + 1) = urgent A k := by
  have hpos : ¬(k : ℤ) + 1 ≤ 0 := by omega
  have hsub : ((k : ℤ) + 1).toNat - 1 = k := by omega
  rw [rush, if_neg hpos, hsub]

/-- One newcomer every hundred seconds, taken eighty seconds after its arrival, is enough to
keep an agent of a lower priority waiting for ever. -/
lemma starves_of_lt (hA : Admissible A) (hlt : A.priority < 9) : Starves A := by
  refine ⟨rush A, 0, fun k => [0, (k : ℤ) + 1], fun k => [(k : ℤ) + 2],
    fun k => A.createdAt + 100 * k + 80, fun k => (k : ℤ) + 1, ?_⟩
  have hzero : rush A 0 = A := if_pos le_rfl
  have hne : ∀ k : ℕ, (0 : ℤ) ≠ (k : ℤ) + 1 := fun k => by omega
  constructor
  case agent => exact hzero
  case admissible =>
    intro p
    unfold rush
    split
    · exact hA
    · exact ⟨by norm_num [urgent], le_rfl⟩
  case clock =>
    intro j k hjk
    have hcast : (j : ℚ) ≤ k := by exact_mod_cast hjk
    show A.createdAt + 100 * (j : ℚ) + 80 ≤ A.createdAt + 100 * (k : ℚ) + 80
    linarith
  case waits => exact fun k => ⟨List.mem_cons_self, (hne k).symm⟩
  case created =>
    intro k p hp
    have hk : (0 : ℚ) ≤ k := by positivity
    rcases List.mem_pair.1 hp with rfl | rfl
    · rw [hzero]
      linarith
    · rw [rush_succ, urgent]
      dsimp only
      linarith
  case picks =>
    intro k
    rw [pickNext_pair (hne k)]
    have hk : (0 : ℚ) ≤ k := by positivity
    rw [hzero, rush_succ]
    refine selectionKey_lt_of_capped hlt (by linarith) ?_
    rw [urgent]
  case goes_on =>
    intro k
    rw [List.erase_cons_tail (by simpa using hne k), List.erase_cons_head]
    push_cast
    simp [add_assoc]
  case unbounded =>
    intro T
    obtain ⟨k, hk⟩ := exists_nat_ge (T - A.createdAt)
    refine ⟨k, ?_⟩
    have hpos : (0 : ℚ) ≤ k := by positivity
    rw [rush_succ, urgent]
    dsimp only
    linarith

/-- **A priority of zero starves.**  The bonus never lifts the agent above eight, and every
newcomer of priority nine starts above that. -/
theorem aging_leaves_behind :
    let A : AgentControlBlock := { pid := 1, prompt := "", priority := 0, createdAt := 0 }
    Admissible A ∧ ¬Overtakes A ∧ Starves A := by
  intro A
  have hadm : Admissible A := ⟨le_rfl, by norm_num [A]⟩
  have hstarves := starves_of_lt hadm (by norm_num [A])
  exact ⟨hadm, fun h => h.not_starves hstarves, hstarves⟩

/-- **Who is safe from later arrivals.**  An agent with an admissible priority overtakes, from
some age on, all who are created later, and is starved by no stream of them, exactly when
its priority is the highest that there is. -/
theorem overtakes_iff_top_priority (A : AgentControlBlock) (hA : Admissible A) :
    (Overtakes A ∧ ¬Starves A) ↔ A.priority = 9 := by
  constructor
  · rintro ⟨-, hsafe⟩
    by_contra hne
    exact hsafe (starves_of_lt hA (lt_of_le_of_ne hA.2 hne))
  · intro htop
    have hover : Overtakes A := by
      refine ⟨1, fun B now hB hlate hnow => selectionKey_lt_of_older (by linarith) ?_ hnow⟩
      rw [htop]
      exact hB.2
    exact ⟨hover, hover.not_starves⟩

/-- An agent of priority nine is safe. -/
theorem overtakes_iff_top_priority_nine :
    Overtakes { pid := 1, prompt := "", priority := 9, createdAt := 0 } :=
  ((overtakes_iff_top_priority _ ⟨by norm_num, le_rfl⟩).2 rfl).1

end Scheduler

end Gcos
