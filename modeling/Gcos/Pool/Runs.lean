import Gcos.Pool.Preservation

/-!
# The runs of the thread backend

A kernel with `n` workers as a system of threads: the workers run `_loop`, any number of
callers spawn, kill, reap, top up and shut down, and a schedule interleaves their atomic
operations in any order.  Three results about all such runs: who owns an agent, where the
units of the quota are, and what a shutdown leaves behind.
-/

namespace Gcos

namespace Pool

open Lib Note World

/-- The threads of a kernel with `n` workers. -/
def kernelSystem (n : ℕ) (cfg : KernelConfig) (out : Outside) :
    System KOp (Tid n) (World n) KernelCall where
  exec := World.exec cfg out
  body
    | .worker _ => loopBody cfg
    | .client _ => .ret false
  serves := fun t _ => !t.isWorker
  entry := fun c => do
    c.code
    return false

/-- The world of a kernel that has just been constructed. -/
def freshWorld (n : ℕ) (quota : Quota) : World n where
  pcbs := fun p => { pid := p, prompt := "", createdAt := 0 }
  quota := quota

/-- A kernel that has just been started: the workers are about to enter their loops. -/
def boot (n : ℕ) (quota : Quota) : Lib.Pool KOp (Tid n) (World n) :=
  { shared := freshWorld n quota, code := fun t => .ret t.isWorker }

/-- The note of a thread that is not in the middle of anything. -/
def Idle {n : ℕ} (t : Tid n) (l : Note) : Prop :=
  if t.isWorker then l = .worker else IsCaller l

variable {n : ℕ} {rules : Rules}

lemma inv_fresh {quota : Quota} (hquota : rules.metered = true → quota.total = quota.remaining ∧
    0 ≤ quota.remaining) :
    Inv rules (freshWorld n quota) fun t => if t.isWorker then .worker else .caller [] none := by
  have hhand : ∀ t : Tid n, (if t.isWorker then Note.worker else .caller [] none).hand = {} := by
    intro t
    split <;> rfl
  refine ⟨fun t => (hhand t).symm, fun t => ?_, le_rfl, by simp [freshWorld], fun t p hp => ?_, ?_,
    fun t p hp => ?_, fun _ p hp => ?_, ?_, fun _ => rfl, fun t p c hp => ?_, fun hm => ?_⟩
  · cases ht : t.isWorker <;> simp [Note.isWorker]
  · split at hp <;> simp [Note.seen] at hp
  · refine ⟨List.nodup_nil, ?_, ?_, ?_, ?_, ?_, ?_⟩ <;> simp [freshWorld]
  · split at hp <;> simp [Note.dead] at hp
  · simp [freshWorld] at hp
  · simp [freshWorld, overWorkers, flight]
  · split at hp <;> simp [Note.calls] at hp
  · obtain ⟨htotal, hrem⟩ := hquota hm
    refine ⟨?_, ?_, hrem, ?_⟩ <;>
      simp [freshWorld, callsMade, overWorkers, unitsOf, replyOf, htotal]

lemma obeys_body {cfg : KernelConfig} {out : Outside} (hm : rules.Fits cfg.pager.policies)
    (t : Tid n) {l : Note} (hl : Idle t l) :
    ((kernelSystem n cfg out).body t).Obeys (discipline rules) l fun _ l => Idle t l := by
  cases t with
  | client k => exact hl
  | worker i =>
    obtain rfl : l = .worker := hl
    exact obeys_loopBody hm

lemma obeys_entry (cfg : KernelConfig) (out : Outside) (t : Tid n) (c : KernelCall) {l : Note}
    (hc : rules.quiet = true → c ≠ .shutdown)
    (hserves : (kernelSystem n cfg out).serves t c = true) (hl : Idle t l) :
    ((kernelSystem n cfg out).entry c).Obeys (discipline rules) l fun _ l => Idle t l := by
  cases t with
  | worker i => cases hserves
  | client k =>
    obtain ⟨ps, d, rfl⟩ := hl
    exact (obeys_code c hc).bind _ fun _ _ h => h

/-- **The runs are sound**: every schedule that keeps to the rules keeps the invariant,
and every thread obeys the discipline to the end of its code. -/
theorem sound_run (rules : Rules) (cfg : KernelConfig) (out : Outside) (quota : Quota)
    (hm : rules.Fits cfg.pager.policies)
    (hquota : rules.metered = true → quota.total = quota.remaining ∧ 0 ≤ quota.remaining)
    (as : List (Act (Tid n) KernelCall))
    (hshut : rules.quiet = true → ∀ t, Act.call t .shutdown ∉ as)
    (hG : rules.lossless = true → rules.quiet = false →
      (kernelSystem n cfg out).Meets NoLateStop (boot n quota) as) :
    System.Sound (discipline rules) (Inv rules) Idle
      ((kernelSystem n cfg out).run (boot n quota) as) := by
  have hstart : System.Sound (discipline rules) (Inv rules) Idle (boot n quota) := by
    refine ⟨_, inv_fresh hquota, fun t => ?_⟩
    cases ht : t.isWorker with
    | true => simp [boot, Idle, ht]
    | false => simp [boot, Idle, ht, IsCaller]
  have hbody : ∀ (t : Tid n) l, Idle t l →
      ((kernelSystem n cfg out).body t).Obeys (discipline rules) l fun _ l => Idle t l :=
    fun t _ hl => obeys_body hm t hl
  have hentry : ∀ (t : Tid n) c l, (rules.quiet = true → c ≠ .shutdown) →
      (kernelSystem n cfg out).serves t c = true → Idle t l →
      ((kernelSystem n cfg out).entry c).Obeys (discipline rules) l fun _ l => Idle t l :=
    fun t c _ hc hserves hl => obeys_entry cfg out t c hc hserves hl
  have hcalls : ∀ (t : Tid n) (c : KernelCall), Act.call t c ∈ as →
      (rules.quiet = true → c ≠ .shutdown) := by
    rintro t c hmem hq rfl
    exact hshut hq t hmem
  -- without a shutdown the guard is met by itself, otherwise it is a hypothesis
  cases hquiet : rules.quiet with
  | true =>
    refine System.run_inv hbody hentry ?_ hstart (System.meets_noGuard _ _ _) hcalls
    intro β t o w ls hI hpre _
    exact inv_step hI o hpre fun _ => noLateStop_of_running (hI.stop hquiet)
  | false =>
    cases hloss : rules.lossless with
    | true =>
      refine System.run_inv hbody hentry ?_ hstart (hG hloss hquiet) hcalls
      intro β t o w ls hI hpre hguard
      exact inv_step hI o hpre fun _ => hguard
    | false =>
      refine System.run_inv hbody hentry ?_ hstart (System.meets_noGuard _ _ _) hcalls
      intro β t o w ls hI hpre _
      exact inv_step hI o hpre fun h => by rw [hloss] at h; cases h

/-- `k` steps of a thread. -/
def steps {n : ℕ} (k : ℕ) (t : Tid n) : List (Act (Tid n) KernelCall) :=
  List.replicate k (.step t)

/-! ### Ownership -/

/-- No agent is twice in the queue, held by two workers, or both queued and held. -/
def SingleOwner (w : World n) : Prop :=
  w.queue.q.Nodup ∧
    (∀ i j p, (w.loc (.worker i)).held = some p → (w.loc (.worker j)).held = some p → i = j) ∧
    ∀ i p, (w.loc (.worker i)).held = some p → p ∉ w.queue.q

/-- `in_flight` is the number of workers between a successful `pick_next` and their
`task_done`, and no `task_done` finds it at zero. -/
def FlightsCounted (pool : Lib.Pool KOp (Tid n) (World n)) : Prop :=
  pool.shared.queue.inFlight =
      (Finset.univ.filter fun i => (pool.shared.loc (.worker i)).flying = true).card ∧
    ∀ t k, pool.code t = .op .taskDone k → 0 < pool.shared.queue.inFlight

/-- Every agent that was enqueued and is not terminal is queued or held by a worker. -/
def NothingLost (w : World n) : Prop :=
  ∀ p ∈ w.enqueued, (w.pcbs p).isTerminal = false →
    p ∈ w.queue.q ∨ ∃ i, (w.loc (.worker i)).held = some p

/-- No agent is run by two workers at once. -/
def OneRunner (w : World n) : Prop :=
  ∀ i j p, (w.loc (.worker i)).running = some p → (w.loc (.worker j)).running = some p → i = j

section

variable {w : World n} {ls : Tid n → Note}

/-- Only workers hold agents. -/
lemma Inv.worker_of_held (h : Inv rules w ls) {t : Tid n} {p : Pid}
    (hp : (w.loc t).held = some p) : ∃ i, t = .worker i := by
  cases t with
  | worker i => exact ⟨i, rfl⟩
  | client k =>
    have hrole := h.role (.client k)
    rw [h.hand] at hp
    cases hl : ls (.client k) with
    | holding q busy units replied dead calls =>
      rw [hl] at hrole
      cases hrole
    | worker | caller _ _ | spawning _ | released =>
      rw [hl] at hp
      cases hp

lemma Inv.singleOwner (h : Inv rules w ls) : SingleOwner w := by
  refine ⟨h.owned.nodup, fun i j p hi hj => ?_, fun i p hi => (h.owned.held _ p hi).2⟩
  exact Tid.worker.inj (h.owned.held_once _ _ p hi hj)

lemma Inv.inFlight_eq (h : Inv rules w ls) : w.queue.inFlight =
    (Finset.univ.filter fun i => (w.loc (.worker i)).flying = true).card := by
  have hsum := h.flights
  simp only [overWorkers, flight, Finset.sum_boole] at hsum
  exact_mod_cast hsum

lemma Inv.nothingLost (h : Inv rules w ls) (hloss : rules.lossless = true) : NothingLost w := by
  intro p hp hlive
  refine (h.kept hloss p hp hlive).imp_right fun ⟨t, ht⟩ => ?_
  obtain ⟨i, rfl⟩ := h.worker_of_held ht
  exact ⟨i, ht⟩

/-- A worker that is not in flight has nothing in hand. -/
lemma Inv.hand_of_not_flying (h : Inv rules w ls) (i : Fin n)
    (hi : (w.loc (.worker i)).flying = false) : w.loc (.worker i) = {} := by
  have hrole := h.role (.worker i)
  rw [h.hand] at hi ⊢
  cases hl : ls (.worker i) with
  | worker => rfl
  | caller _ _ | spawning _ =>
    rw [hl] at hrole
    cases hrole
  | holding _ _ _ _ _ _ | released =>
    rw [hl] at hi
    cases hi

/-- Nothing is in hand while the queue is drained. -/
lemma Inv.hand_of_isDrained (h : Inv rules w ls) (hd : w.queue.isDrained = true) (i : Fin n) :
    w.loc (.worker i) = {} := by
  simp only [ReadyQueue.isDrained, Bool.and_eq_true, beq_iff_eq] at hd
  refine h.hand_of_not_flying i ?_
  have hcard := h.inFlight_eq
  rw [hd.2, eq_comm, Finset.card_eq_zero, Finset.filter_eq_empty_iff] at hcard
  simpa using hcard (Finset.mem_univ i)

/-- A drained queue means that nobody waits and nobody works. -/
lemma Inv.terminal_of_isDrained (h : Inv rules w ls) (hloss : rules.lossless = true)
    (hd : w.queue.isDrained = true) : ∀ p ∈ w.enqueued, (w.pcbs p).isTerminal = true := by
  intro p hp
  by_contra hlive
  rcases h.nothingLost hloss p hp (by simpa using hlive) with hq | ⟨i, hi⟩
  · simp only [ReadyQueue.isDrained, Bool.and_eq_true, List.isEmpty_iff] at hd
    rw [hd.1] at hq
    cases hq
  · rw [h.hand_of_isDrained hd i] at hi
    cases hi

/-- Only the holder runs an agent. -/
lemma Inv.oneRunner (h : Inv rules w ls) : OneRunner w := by
  have hheld : ∀ i p, (w.loc (.worker i)).running = some p →
      -- a worker runs what it holds
      (w.loc (.worker i)).held = some p := by
    intro i p hi
    rw [h.hand] at hi ⊢
    cases hl : ls (.worker i) with
    | holding q busy units replied dead calls =>
      rw [hl] at hi
      cases busy with
      | true => exact hi
      | false => cases hi
    | worker | caller _ _ | spawning _ | released =>
      rw [hl] at hi
      cases hi
  intro i j p hi hj
  exact h.singleOwner.2.1 i j p (hheld i p hi) (hheld j p hj)

end

/-- **Ownership in the thread backend.**  Whatever the number of workers, the scheduler,
the behaviour of the client and the interleaving, in a run without a shutdown every agent
has one owner, the flights are counted, nothing is lost, the queue is drained only when
all agents are terminal, and no agent is run twice at once. -/
theorem ownership_of_runs {n : ℕ} (cfg : KernelConfig) (out : Outside) (quota : Quota)
    (as : List (Act (Tid n) KernelCall)) (hshut : ∀ t, Act.call t .shutdown ∉ as) :
    SingleOwner ((kernelSystem n cfg out).run (boot n quota) as).shared ∧
      FlightsCounted ((kernelSystem n cfg out).run (boot n quota) as) ∧
      NothingLost ((kernelSystem n cfg out).run (boot n quota) as).shared ∧
      (((kernelSystem n cfg out).run (boot n quota) as).shared.queue.isDrained = true →
        ∀ p ∈ ((kernelSystem n cfg out).run (boot n quota) as).shared.enqueued,
          (((kernelSystem n cfg out).run (boot n quota) as).shared.pcbs p).isTerminal = true) ∧
      OneRunner ((kernelSystem n cfg out).run (boot n quota) as).shared := by
  obtain ⟨ls, hI, hcode⟩ := sound_run { quiet := true, lossless := true } cfg out quota
    (by simp [Rules.Fits]) (by simp) as (fun _ => hshut) (by simp)
  refine ⟨hI.singleOwner, ⟨hI.inFlight_eq, fun t k hk => ?_⟩, hI.nothingLost rfl,
    hI.terminal_of_isDrained rfl, hI.oneRunner⟩
  have hobey := hcode t
  rw [hk] at hobey
  have hpre : (ls t).allows _ .taskDone := hobey.1
  refine inFlight_pos (t := t) hI ?_ ?_
  · rcases hpre with hl | ⟨p, dead, calls, hl, -⟩ <;> rw [hl] <;> rfl
  · rcases hpre with hl | ⟨p, dead, calls, hl, -⟩ <;> rw [hl] <;> rfl

/-- A run with two workers: the agent is spawned, the first worker picks it, and the
second finds the queue empty. -/
theorem ownership_of_runs_two_workers :
    ∃ as : List (Act (Tid 2) KernelCall), (∀ t, Act.call t .shutdown ∉ as) ∧
      ((kernelSystem 2 { pager := {}, host := .inert } (.calm ⟨"hi", 1, 1, 2⟩)).run
        (boot 2 ⟨5, 5⟩) as).shared.loc (.worker 0) =
          { held := some 1, flying := true } ∧
      SingleOwner ((kernelSystem 2 { pager := {}, host := .inert } (.calm ⟨"hi", 1, 1, 2⟩)).run
        (boot 2 ⟨5, 5⟩) as).shared :=
  let as := Act.call (.client 0) (.spawn { prompt := "hello" }) ::
    (steps 3 (.client 0) ++ steps 4 (.worker 0) ++ steps 4 (.worker 1))
  ⟨as, by simp [as, steps], by decide +kernel, (ownership_of_runs _ _ _ as (by simp [as, steps])).1⟩

/-! ### Conservation -/

/-- The units that the workers have in hand: for the step that they are about to run, and
for a summarize call in progress. -/
def unitsInHand (w : World n) : ℤ := ∑ i, ((w.loc (.worker i)).units : ℤ)

/-- **Conservation of the quota in the thread backend.**  Whatever the policies on the
kernel's quota, the behaviour of the client on every call and the interleaving, with
kills, topups and a shutdown: what is gone from the quota are the calls counted by the
agents ever spawned, the summarize calls that returned, and the units in hand; the
remaining units are between zero and the total; no refund is cut off; and while the pool
is idle, what is used is the number of calls that returned. -/
theorem quota_conserved_of_runs {n : ℕ} (cfg : KernelConfig) (out : Outside) {total : ℤ}
    {quota : Quota} (hquota : Quota.ofTotal total = some quota)
    (hmetered : ∀ policy ∈ cfg.pager.policies, Metered policy)
    (as : List (Act (Tid n) KernelCall)) :
    let pool := (kernelSystem n cfg out).run (boot n quota) as
    pool.shared.quota.total - pool.shared.quota.remaining =
        callsMade pool.shared.nextPid pool.shared.pcbs + pool.shared.summaries +
          unitsInHand pool.shared ∧
      (0 ≤ pool.shared.quota.remaining ∧
        pool.shared.quota.remaining ≤ pool.shared.quota.total) ∧
      (∀ t k, pool.code t = .op .refund k →
        (pool.shared.quota.refund 1).remaining = pool.shared.quota.remaining + 1) ∧
      (pool.shared.queue.isDrained = true →
        pool.shared.quota.used = pool.shared.replies + pool.shared.summaries) := by
  have hstart : quota.total = quota.remaining ∧ 0 ≤ quota.remaining := by
    unfold Quota.ofTotal at hquota
    split at hquota
    · cases hquota
    · cases hquota
      exact ⟨rfl, by simpa using ‹¬ total < 0›⟩
  obtain ⟨ls, hI, hcode⟩ := sound_run { metered := true } cfg out quota (fun _ => hmetered)
    (fun _ => hstart) as (by simp) (by simp)
  intro pool
  obtain ⟨hspent, hreplies, hrem, hmade⟩ := hI.conserved rfl
  have hunits : 0 ≤ overWorkers unitsOf pool.shared.loc :=
    Finset.sum_nonneg fun i _ => unitsOf_nonneg _
  have hsum : (0 : ℤ) ≤ pool.shared.summaries := Nat.cast_nonneg _
  refine ⟨hspent, ⟨hrem, ?_⟩, fun t k hk => ?_, fun hd => ?_⟩
  · linarith
  · have hobey := hcode t
    rw [hk] at hobey
    rw [refund_whole hI rfl hobey.1]
  · have hidle := hI.hand_of_isDrained hd
    have hno : overWorkers unitsOf pool.shared.loc = 0 :=
      Finset.sum_eq_zero fun i _ => by rw [hidle i]; rfl
    have hnone : overWorkers replyOf pool.shared.loc = 0 :=
      Finset.sum_eq_zero fun i _ => by rw [hidle i]; rfl
    change pool.shared.quota.total - pool.shared.quota.remaining =
      pool.shared.replies + pool.shared.summaries
    linarith

/-- A run in which a unit is in hand: the quota of five is down to four while the worker
has not counted a call yet. -/
theorem quota_conserved_of_runs_unit_in_hand :
    ∃ as : List (Act (Tid 1) KernelCall),
      let pool := (kernelSystem 1
        { scheduler := .rr 1, pager := { policies := Memory.defaultPolicies true }
          host := .inert } (.calm ⟨"hi", 1, 1, 2⟩)).run (boot 1 ⟨5, 5⟩) as
      pool.shared.quota.remaining = 4 ∧
        pool.shared.quota.total - pool.shared.quota.remaining =
          callsMade pool.shared.nextPid pool.shared.pcbs + pool.shared.summaries +
            unitsInHand pool.shared :=
  let as := Act.call (.client 0) (.spawn { prompt := "hello" }) ::
    (steps 3 (.client 0) ++ steps 7 (.worker 0))
  have htotal : Quota.ofTotal 5 = some ⟨5, 5⟩ := rfl
  ⟨as, by decide +kernel, (quota_conserved_of_runs _ _ htotal
    (by simp [Memory.defaultPolicies, Metered]) as).1⟩

/-! ### Shutdown -/

/-- All workers have left `_loop`. -/
def AllExited (pool : Lib.Pool KOp (Tid n) (World n)) : Prop :=
  ∀ i, pool.code (.worker i) = .ret false

/-- Every agent that was enqueued and is not terminal is in the ready queue. -/
def AllQueued (w : World n) : Prop :=
  ∀ p ∈ w.enqueued, (w.pcbs p).isTerminal = false → p ∈ w.queue.q

/-- The stop flag is set after the worker has picked the agent and before it looks at the
flag for the first time in its dispatch: the worker drops the agent. -/
theorem shutdown_loses_agent :
    ∃ as : List (Act (Tid 1) KernelCall),
      let pool := (kernelSystem 1 { scheduler := .rr 1, pager := {}, host := .inert }
        (.calm ⟨"hi", 1, 1, 2⟩)).run (boot 1 ⟨5, 5⟩) as
      AllExited pool ∧ ¬AllQueued pool.shared := by
  refine ⟨Act.call (.client 0) (.spawn { prompt := "hello" }) ::
    (steps 3 (.client 0) ++ steps 5 (.worker 0) ++
      Act.call (.client 0) .shutdown :: (steps 2 (.client 0) ++ steps 6 (.worker 0))), ?_, ?_⟩
  · intro i
    obtain rfl : i = 0 := Subsingleton.elim _ _
    rfl
  · intro h
    have hmem := h 1 (by decide) (by decide)
    revert hmem
    decide

/-- **What a shutdown leaves behind.**  In every run in which the first look at the stop
flag in a dispatch never finds it set for an agent that is not terminal, once all workers
have left their loops, every agent that was enqueued and is not terminal is in the ready
queue. -/
theorem shutdown_keeps_agents {n : ℕ} (cfg : KernelConfig) (out : Outside) (quota : Quota)
    (as : List (Act (Tid n) KernelCall))
    (hmeets : (kernelSystem n cfg out).Meets NoLateStop (boot n quota) as)
    (hexit : AllExited ((kernelSystem n cfg out).run (boot n quota) as)) :
    AllQueued ((kernelSystem n cfg out).run (boot n quota) as).shared := by
  obtain ⟨ls, hI, hcode⟩ := sound_run { lossless := true } cfg out quota (by simp [Rules.Fits])
    (by simp) as (by simp) (fun _ _ => hmeets)
  intro p hp hlive
  refine (hI.nothingLost rfl p hp hlive).resolve_right ?_
  rintro ⟨i, hi⟩
  -- a worker that has left its loop stands between two dispatches
  have hidle := hcode (.worker i)
  rw [hexit i] at hidle
  have hnote : ls (.worker i) = .worker := hidle
  rw [hI.hand, hnote] at hi
  cases hi

/-- A run in which the flag is set while the worker waits for a unit: the agent goes back
to the queue. -/
theorem shutdown_keeps_agents_blocked :
    ∃ as : List (Act (Tid 1) KernelCall),
      let pool := (kernelSystem 1 { scheduler := .rr 1, pager := {}, host := .inert }
        (.calm ⟨"hi", 1, 1, 2⟩)).run (boot 1 ⟨0, 0⟩) as
      pool.shared.stop = true ∧ pool.shared.enqueued = [1] ∧
        (pool.shared.pcbs 1).isTerminal = false ∧ AllQueued pool.shared := by
  refine ⟨Act.call (.client 0) (.spawn { prompt := "hello" }) ::
    (steps 3 (.client 0) ++ steps 9 (.worker 0) ++
      Act.call (.client 0) .shutdown :: (steps 2 (.client 0) ++ steps 5 (.worker 0))),
    by decide +kernel, by decide +kernel, by decide +kernel,
    shutdown_keeps_agents _ _ _ _ ?_ ?_⟩
  · refine ⟨trivial, trivial, trivial, trivial, trivial, (nomatch ·), trivial, trivial, trivial,
      fun _ => (nomatch ·), trivial, trivial, trivial, trivial, trivial, trivial, (nomatch ·),
      trivial, trivial, trivial, (nomatch ·), trivial⟩
  · intro i
    obtain rfl : i = 0 := Subsingleton.elim _ _
    rfl

end Pool

end Gcos
