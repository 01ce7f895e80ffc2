import Gcos.Pool.Priority

/-!
# The order in which a full queue is emptied

`cmd_demo` in `gcos/main.py` fills a queue, then takes the agents out one by one and lets each
of them finish.  The priority scheduler adds a bonus for age, and reads the clock at every
pick; but the bonuses of agents that were created within a short time differ by less than one
priority.
-/

namespace Gcos.Eval

open Scheduler

variable {rate bonus : ℚ} {pcbs : Pid → AgentControlBlock} {now : Time} {queue rest : ReadyQueue}
  {p : Pid}

/-- The agents were created within the time in which the bonus grows by one. -/
def Together (rate : ℚ) (pcbs : Pid → AgentControlBlock) (ps : List Pid) : Prop :=
  ∀ p ∈ ps, ∀ q ∈ ps, ((pcbs q).createdAt - (pcbs p).createdAt) * rate < 1

/-! ### The keys of agents that were created together -/

/-- Of two agents the older one has the larger bonus, by what it is older at most. -/
lemma effectivePriority_sub_lt {A B : AgentControlBlock}
    (h : (B.createdAt - A.createdAt) * rate < 1) :
    effectivePriority rate bonus A now - A.priority <
      effectivePriority rate bonus B now - B.priority + 1 := by
  unfold effectivePriority
  split_ifs with hrate
  · simp
  · have hpos : 0 < rate := not_le.1 hrate
    have hwaited : max 0 (now - A.createdAt) ≤
        max 0 (now - B.createdAt) + max 0 (B.createdAt - A.createdAt) := by
      rcases le_total (now - A.createdAt) 0 with hle | hle
      · rw [max_eq_left hle]
        exact add_nonneg (le_max_left _ _) (le_max_left _ _)
      · rw [max_eq_right hle]
        have hB := le_max_right 0 (now - B.createdAt)
        have hBA := le_max_right 0 (B.createdAt - A.createdAt)
        linarith
    have hgrown : max 0 (B.createdAt - A.createdAt) * rate < 1 := by
      rcases le_total (B.createdAt - A.createdAt) 0 with hle | hle
      · rw [max_eq_left hle, zero_mul]
        exact one_pos
      · rwa [max_eq_right hle]
    have hscaled := mul_le_mul_of_nonneg_right hwaited hpos.le
    rw [add_mul] at hscaled
    have hmin : min bonus (max 0 (now - A.createdAt) * rate) <
        min bonus (max 0 (now - B.createdAt) * rate) + 1 := by
      rcases min_cases bonus (max 0 (now - B.createdAt) * rate) with ⟨heq, -⟩ | ⟨heq, -⟩
      · rw [heq]
        have hle := min_le_left bonus (max 0 (now - A.createdAt) * rate)
        linarith
      · rw [heq]
        have hle := min_le_right bonus (max 0 (now - A.createdAt) * rate)
        linarith
    linarith

lemma selectionKey_lt_of_priority_lt {A B : AgentControlBlock}
    (h : (B.createdAt - A.createdAt) * rate < 1) (hlt : A.priority < B.priority) :
    selectionKey rate bonus A now < selectionKey rate bonus B now := by
  have hone : (A.priority : ℚ) + 1 ≤ B.priority := by exact_mod_cast hlt
  have hbonus : effectivePriority rate bonus A now - A.priority <
      effectivePriority rate bonus B now - B.priority + 1 := effectivePriority_sub_lt h
  rw [selectionKey, selectionKey, Prod.Lex.toLex_lt_toLex]
  exact .inl (by dsimp only; linarith)

/-- For agents that were created together the key is the priority, and then the age. -/
lemma precedes_iff_of_together {A B : AgentControlBlock}
    (hAB : (B.createdAt - A.createdAt) * rate < 1) (hBA : (A.createdAt - B.createdAt) * rate < 1) :
    Precedes A B ↔ selectionKey rate bonus B now ≤ selectionKey rate bonus A now := by
  rcases lt_trichotomy A.priority B.priority with hlt | heq | hgt
  · have hkey : selectionKey rate bonus A now < selectionKey rate bonus B now :=
      selectionKey_lt_of_priority_lt hAB hlt
    refine ⟨fun h => ?_, fun h => absurd hkey (not_lt.2 h)⟩
    rcases h with h | ⟨h, -⟩ <;> omega
  · rcases le_or_gt A.createdAt B.createdAt with hage | hage
    · refine ⟨fun _ => ?_, fun _ => .inr ⟨heq.symm, hage⟩⟩
      rcases hage.lt_or_eq with hage | hage
      · exact (selectionKey_lt_of_dominates ⟨heq.ge, hage.le, .inr hage⟩).le
      · rw [selectionKey, selectionKey, effectivePriority, effectivePriority, heq, hage]
    · have hkey : selectionKey rate bonus A now < selectionKey rate bonus B now :=
        selectionKey_lt_of_dominates ⟨heq.le, hage.le, .inr hage⟩
      refine ⟨fun h => ?_, fun h => absurd hkey (not_lt.2 h)⟩
      rcases h with h | ⟨-, h⟩
      · omega
      · exact absurd h (not_le.2 hage)
  · exact ⟨fun _ => (selectionKey_lt_of_priority_lt hBA hgt).le, fun _ => .inl hgt⟩

lemma priority_le_of_precedes {A B : AgentControlBlock} (h : Precedes A B) :
    B.priority ≤ A.priority := by
  rcases h with h | ⟨h, -⟩ <;> exact h.le

/-! ### Emptying the queue -/

/-- The pick is the first one in the stable order. -/
lemma insertionSort_of_together (htogether : Together rate pcbs queue.q)
    (h : (Scheduler.priority rate bonus).pickNext pcbs now queue = (some p, rest)) :
    queue.q.insertionSort (fun q r => Precedes (pcbs q) (pcbs r)) =
      p :: rest.q.insertionSort fun q r => Precedes (pcbs q) (pcbs r) := by
  obtain ⟨hmax, hrest⟩ := argmax_of_pickNext h
  have hsort := Lib.insertionSort_eq_argmin_cons
    (fun q => OrderDual.toDual (selectionKey rate bonus (pcbs q) now)) hmax
  have hsame : ∀ qs : List Pid, (∀ q ∈ qs, q ∈ queue.q) →
      qs.insertionSort (fun q r => Precedes (pcbs q) (pcbs r)) =
        qs.insertionSort fun q r => OrderDual.toDual (selectionKey rate bonus (pcbs q) now) ≤
          OrderDual.toDual (selectionKey rate bonus (pcbs r) now) := by
    intro qs hqs
    have hid := List.map_insertionSort (fun q r => Precedes (pcbs q) (pcbs r))
      (fun q r => OrderDual.toDual (selectionKey rate bonus (pcbs q) now) ≤
        OrderDual.toDual (selectionKey rate bonus (pcbs r) now)) id qs
      fun q hq r hr => precedes_iff_of_together (htogether q (hqs q hq) r (hqs r hr))
        (htogether r (hqs r hr) q (hqs q hq))
    rwa [List.map_id, List.map_id] at hid
  rw [hsame queue.q fun _ hq => hq, hsame rest.q fun q hq => by
    rw [hrest] at hq
    exact List.mem_of_mem_erase hq, hrest, hsort]

/-- The agents are picked in the stable order, whenever that happens. -/
lemma drain_priority (nows : List Time) (htogether : Together rate pcbs queue.q)
    (hlong : queue.q.length ≤ nows.length) :
    drain (.priority rate bonus) pcbs nows queue =
      queue.q.insertionSort fun q r => Precedes (pcbs q) (pcbs r) := by
  induction nows generalizing queue with
  | nil =>
    rw [List.length_eq_zero_iff.1 (Nat.le_zero.1 hlong)]
    rfl
  | cons now nows ih =>
    rw [drain]
    rcases pickNext_cases pcbs now queue (.priority rate bonus) with ⟨hnil, hnone⟩ | ⟨p, hp, hsome⟩
    · rw [hnone, hnil]
      rfl
    · have hshort : (queue.q.erase p).length ≤ nows.length := by
        rw [List.length_erase_of_mem hp]
        rw [List.length_cons] at hlong
        omega
      rw [hsome, insertionSort_of_together htogether hsome]
      refine congrArg (p :: ·) (ih (fun q hq r hr => ?_) hshort)
      exact htogether q (List.mem_of_mem_erase hq) r (List.mem_of_mem_erase hr)

/-- The other schedulers take the agents as they come. -/
lemma drain_fifo {sched : Scheduler} (hsched : ∀ pcbs now queue,
      sched.pickNext pcbs now queue = queue.popleft) (nows : List Time)
    (hlong : queue.q.length ≤ nows.length) : drain sched pcbs nows queue = queue.q := by
  induction nows generalizing queue with
  | nil =>
    rw [List.length_eq_zero_iff.1 (Nat.le_zero.1 hlong)]
    rfl
  | cons now nows ih =>
    rw [drain, hsched, ReadyQueue.popleft]
    cases hq : queue.q with
    | nil => rfl
    | cons p ps =>
      rw [hq] at hlong
      exact congrArg (p :: ·) (ih (Nat.le_of_succ_le_succ hlong))

/-! ### The demo -/

/-- What `cmd_demo` gives an agent. -/
structure Sample where
  name : String
  priority : ℤ
  prompt : String
deriving DecidableEq, Repr, Inhabited

/-- The agents get the pids from one on, and are put in the queue in that order. -/
def fill (samples : List Sample) : ReadyQueue :=
  { q := (List.range samples.length).map fun i : ℕ => (i : ℤ) + 1 }

/-- The sample for the agent with this pid. -/
def sampleOf (samples : List Sample) (p : Pid) : Sample := samples.getD (p - 1).toNat default

/-- The control blocks in the queue, by the times at which they were created. -/
def block (samples : List Sample) (created : Pid → Time) (p : Pid) : AgentControlBlock :=
  let sample := sampleOf samples p
  { pid := p, name := sample.name, prompt := sample.prompt, state := .ready,
    priority := sample.priority, createdAt := created p }

/-- `samples` of `cmd_demo`. -/
def samples : List Sample :=
  [{ name := "low", priority := 2, prompt := "Say 'low priority done' and nothing else." },
    { name := "high", priority := 9, prompt := "Say 'high priority done' and nothing else." },
    { name := "mid", priority := 5, prompt := "Say 'mid priority done' and nothing else." }]

/-- `order` in `cmd_demo`: the names of the agents as they are run. -/
def demoOrder (sched : Scheduler) (samples : List Sample) (created : Pid → Time)
    (nows : List Time) : List String :=
  (drain sched (block samples created) nows (fill samples)).map fun p =>
    (block samples created p).name

lemma map_sampleOf_fill (samples : List Sample) :
    (fill samples).q.map (sampleOf samples) = samples := by
  refine List.ext_getElem (by simp [fill]) fun i hi hi' => ?_
  simp [fill, sampleOf, hi']

lemma length_fill (samples : List Sample) : (fill samples).q.length = samples.length := by
  simp [fill]

/-- A priority scheduler takes agents that were created in turn by their priorities alone,
in the order in which they came where these are equal. -/
lemma map_drain_priority {samples : List Sample} {created : Pid → Time} {nows : List Time}
    (htogether : Together rate (block samples created) (fill samples).q)
    (hlong : samples.length ≤ nows.length)
    (hturn : (fill samples).q.Pairwise fun p q => created p ≤ created q) :
    (drain (.priority rate bonus) (block samples created) nows (fill samples)).map
        (sampleOf samples) =
      samples.insertionSort fun a b => b.priority ≤ a.priority := by
  rw [drain_priority nows htogether ((length_fill samples).trans_le hlong)]
  have hcompare : (fill samples).q.Pairwise fun p q =>
      Precedes (block samples created p) (block samples created q) ↔
        (sampleOf samples q).priority ≤ (sampleOf samples p).priority := by
    refine hturn.imp fun {p q} hage => ?_
    refine ⟨priority_le_of_precedes, fun h => ?_⟩
    · rcases h.lt_or_eq with h | h
      · exact .inl h
      · exact .inr ⟨h, hage⟩
  rw [Lib.map_insertionSort_of_pairwise (s := fun a b => b.priority ≤ a.priority)
    (sampleOf samples) hcompare, map_sampleOf_fill]

/-- **The order of a demo.**  If the agents were created within ten seconds of each other, the
priority scheduler takes them by priority, whatever the clock reads when it picks; those of one
priority come in the order of creation; the other schedulers take them as they were queued. -/
theorem demoOrder_eq (agents : List Sample) (created : Pid → Time) (nows : List Time)
    (htogether : Together (1 / 10) (block agents created) (fill agents).q)
    (hlong : agents.length ≤ nows.length) :
    (∀ name ∈ ["fcfs", "rr"], (Scheduler.make name).map
        (fun sched => demoOrder sched agents created nows) = some (agents.map Sample.name)) ∧
      ((fill agents).q.Pairwise (fun p q => created p ≤ created q) → (Scheduler.make "priority").map
          (fun sched => demoOrder sched agents created nows) =
        some ((agents.insertionSort fun a b => b.priority ≤ a.priority).map Sample.name)) := by
  refine ⟨fun name hname => ?_, fun hturn => ?_⟩
  · have hfifo : ∀ {sched : Scheduler}, (∀ pcbs now queue,
        sched.pickNext pcbs now queue = queue.popleft) →
        demoOrder sched agents created nows = agents.map Sample.name := by
      intro sched hsched
      rw [demoOrder, drain_fifo hsched nows ((length_fill agents).trans_le hlong)]
      calc (fill agents).q.map (fun p => (block agents created p).name)
          = ((fill agents).q.map (sampleOf agents)).map Sample.name := by
            rw [List.map_map]
            rfl
        _ = agents.map Sample.name := by rw [map_sampleOf_fill]
    rcases List.mem_pair.1 hname with rfl | rfl
    · exact congrArg some (hfifo fun _ _ _ => rfl)
    · exact congrArg some (hfifo fun _ _ _ => rfl)
  · have hsorted : (drain (.priority (1 / 10) 8) (block agents created) nows
        (fill agents)).map (sampleOf agents) = _ := map_drain_priority htogether hlong hturn
    refine congrArg some ?_
    rw [← hsorted, List.map_map]
    rfl

/-- The agents of `cmd_demo`, created a second apart, are run as queued, or by priority. -/
theorem demoOrder_eq_samples :
    demoOrder .fcfs samples (fun p => p) [4, 5, 6] = ["low", "high", "mid"] ∧
      demoOrder (.priority (1 / 10) 8) samples (fun p => p) [4, 5, 6] = ["high", "mid", "low"] := by
  have htogether : Together (1 / 10) (block samples fun p => p) (fill samples).q := by
    unfold Together
    decide +kernel
  obtain ⟨hfifo, hpriority⟩ :=
    demoOrder_eq samples (fun p => p) [4, 5, 6] htogether (by decide)
  have hturn : (fill samples).q.Pairwise fun p q : Pid => (p : ℚ) ≤ q := by
    decide +kernel
  exact ⟨Option.some.inj (hfifo "fcfs" (by decide)), Option.some.inj (hpriority hturn)⟩

end Gcos.Eval
