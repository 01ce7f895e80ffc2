import Gcos.Pool.Runner
import Gcos.Kernel.Effects
import Gcos.Lib.RoundRobin

/-!
# The round-robin pool and its textbook

One worker, a queue that was filled before it started, and a step runner under which every
agent needs a known number of steps.  The scheduler is only asked for the head of the queue
and for the quantum: the loop of the worker, with its quota, its step loop and its way of
putting an agent back, is what makes round robin of it.  FCFS takes the head of the queue
too, with `_NONPREEMPTIVE_STEP_CAP` for its quantum.
-/

namespace Gcos.Pool

open Lib RoundRobin

/-- The agent is alive and waits for no input. -/
def Awake (pcb : AgentControlBlock) : Prop :=
  pcb.isTerminal = false ∧ (pcb.inputFrom.isSome && needsInput pcb.prompt) = false

section

variable {R : Type} (need : R → Pid → ℕ) (extra : ℕ) (p : Pid)

/-- A step of an agent that needs `need` more: it goes on until it has had them, and keeps
to itself.  It may charge the quota for up to `extra` calls besides its own. -/
structure Paces (s : World 1 × R) (r : Except Exn Bool × World 1 × R) : Prop where
  queue : r.2.1.queue = s.1.queue
  stop : r.2.1.stop = s.1.stop
  total : r.2.1.quota.total = s.1.quota.total
  charged : r.2.1.quota.remaining ≤ s.1.quota.remaining
  atMost : s.1.quota.remaining ≤ r.2.1.quota.remaining + extra
  others : ∀ q, q ≠ p → Awake (s.1.pcbs q) → Awake (r.2.1.pcbs q)
  left : need r.2.2 = Function.update (need s.2) p (need s.2 p - 1)
  more : 1 < need s.2 p → r.1 = .ok true ∧ Awake (r.2.1.pcbs p)
  last : need s.2 p = 1 → r.1 ≠ .ok true ∨ (r.2.1.pcbs p).isTerminal = true

/-- A step runner under which an agent needs `need` more steps. -/
def Paced (runner : StepRunner 1 R) : Prop :=
  ∀ p s, Awake (s.1.pcbs p) → 0 < need s.2 p → Paces need extra p s (runner p s)

/-- What becomes of the pool by `c` steps of the agent `p` that cost at most `u` units. -/
structure After (c u : ℕ) (s s' : Shop 1 R) : Prop where
  log : s'.log = s.log ++ List.replicate c p
  queue : s'.world.queue.q = s.world.queue.q
  stop : s'.world.stop = s.world.stop
  solvent : s.world.quota.remaining ≤ s.world.quota.total →
    s'.world.quota.remaining ≤ s'.world.quota.total
  atMost : s.world.quota.remaining ≤ s.world.quota.total →
    s.world.quota.remaining ≤ s'.world.quota.remaining + u
  others : ∀ q, q ≠ p → Awake (s.world.pcbs q) → Awake (s'.world.pcbs q)
  left : need s'.memory = Function.update (need s.memory) p (need s.memory p - c)

end

namespace After

variable {R : Type} {need : R → Pid → ℕ} {c c' u u' : ℕ} {p : Pid} {s s' s'' : Shop 1 R}

lemma trans (h : After need p c u s s') (h' : After need p c' u' s' s'') :
    After need p (c + c') (u + u') s s'' where
  log := by rw [h'.log, h.log, List.append_assoc, List.replicate_append_replicate]
  queue := h'.queue.trans h.queue
  stop := h'.stop.trans h.stop
  solvent := fun hs => h'.solvent (h.solvent hs)
  atMost := fun hs => by
    have h₁ := h.atMost hs
    have h₂ := h'.atMost (h.solvent hs)
    push_cast
    linarith
  others := fun q hq hs => h'.others q hq (h.others q hq hs)
  left := by rw [h'.left, h.left, Function.update_self, Function.update_idem, Nat.sub_sub]

/-- What changes nothing that matters. -/
lemma quiet (hlog : s'.log = s.log) (hmemory : s'.memory = s.memory)
    (hqueue : s'.world.queue.q = s.world.queue.q) (hstop : s'.world.stop = s.world.stop)
    (hquota : s'.world.quota = s.world.quota)
    (hpcbs : ∀ q, q ≠ p → s'.world.pcbs q = s.world.pcbs q) : After need p 0 0 s s' where
  log := by rw [hlog, List.replicate_zero, List.append_nil]
  queue := hqueue
  stop := hstop
  solvent := fun hs => by rwa [hquota]
  atMost := fun _ => by simp [hquota]
  others := fun q hq hs => by rwa [hpcbs q hq]
  left := by rw [hmemory, Nat.sub_zero, Function.update_eq_self]

lemma refl (s : Shop 1 R) : After need p 0 0 s s := quiet rfl rfl rfl rfl rfl fun _ _ => rfl

end After

section Turn

variable {R : Type} (need : R → Pid → ℕ) {extra : ℕ} (p : Pid) (cfg : KernelConfig) (out : Outside)
  (runner : StepRunner 1 R) (t : Tid 1) (s : Shop 1 R)

/-! ### One step -/

/-- The pool after an operation of the kernel. -/
def Shop.did {β : Type} (o : KOp β) : Shop 1 R :=
  { s with world := (World.exec cfg out t o s.world).2 }

/-- The pool after a call of the runner. -/
def Shop.ran : Shop 1 R where
  world := (runner p (s.world, s.memory)).2.1
  memory := (runner p (s.world, s.memory)).2.2
  log := s.log ++ [p]

lemma after_acquire (h : 1 ≤ s.world.quota.remaining) :
    (World.exec cfg out t .acquire s.world).1 = true ∧
      (s.did cfg out t .acquire).world.pcbs = s.world.pcbs ∧
      After need p 0 1 s (s.did cfg out t .acquire) := by
  have hacquire : s.world.quota.acquire 1 =
      (true, { s.world.quota with remaining := s.world.quota.remaining - 1 }) := by
    rw [Quota.acquire, if_neg (not_lt.2 h)]
  simp only [Shop.did, World.exec, hacquire, World.note]
  refine ⟨trivial, trivial, ?_⟩
  constructor
  case log => simp
  case queue => rfl
  case stop => rfl
  case solvent => exact fun hs => (sub_le_self _ zero_le_one).trans hs
  case atMost => exact fun _ => by simp
  case others => exact fun _ _ hq => hq
  case left => simp

lemma after_refund :
    (s.did cfg out t .refund).world.pcbs = s.world.pcbs ∧
      After need p 0 0 s (s.did cfg out t .refund) := by
  refine ⟨rfl, ?_⟩
  constructor
  case log => simp [Shop.did]
  case queue => rfl
  case stop => rfl
  case solvent => exact fun _ => min_le_left _ _
  case atMost =>
    intro hs
    rw [Nat.cast_zero, add_zero]
    exact le_min hs (le_add_of_nonneg_right zero_le_one)
  case others => exact fun _ _ hq => hq
  case left => simp [Shop.did]

variable {need p runner s} in
/-- A call of the runner. -/
lemma Paces.after (h : Paces need extra p (s.world, s.memory) (runner p (s.world, s.memory))) :
    After need p 1 extra s (s.ran p runner) where
  log := rfl
  queue := congrArg ReadyQueue.q h.queue
  stop := h.stop
  solvent := fun hs => by
    have htotal : (s.ran p runner).world.quota.total = s.world.quota.total := h.total
    rw [htotal]
    exact h.charged.trans hs
  atMost := fun _ => h.atMost
  others := h.others
  left := h.left

/-- The handler around the runner: an exception ends the agent. -/
lemma after_settle (answer : Except Exn Bool) :
    ∃ keepGoing s', (ordinary (settle p answer)).alone (Shop.exec cfg out runner) t s =
        (keepGoing, s') ∧
      After need p 0 0 s s' ∧ (keepGoing = true ↔ answer = .ok true) ∧
      (keepGoing = true → s' = s) := by
  cases answer with
  | ok b => exact ⟨b, s, rfl, .refl s, by simp, fun _ => rfl⟩
  | error e =>
    refine ⟨false, _, rfl, ?_, by simp, by simp⟩
    refine .quiet rfl rfl rfl rfl rfl fun q hq => ?_
    exact (Function.update_of_ne hq _ _).trans (Function.update_of_ne hq _ _)

variable (extra) in
/-- What the step of an agent comes to: the answer, and the pool that it leaves. -/
structure RanStep (keepGoing : Bool) (s' : Shop 1 R) : Prop where
  after : After need p 1 (1 + extra) s s'
  more : 1 < need s.memory p → keepGoing = true ∧ Awake (s'.world.pcbs p)
  last : need s.memory p = 1 → keepGoing = true → (s'.world.pcbs p).isTerminal = true

variable {need p runner s} in
/-- `_run_one_step` of an agent that is awake, with ample quota. -/
lemma ranStep_runOneStepVia (hpaced : Paced need extra runner) (hawake : Awake (s.world.pcbs p))
    (hneed : 0 < need s.memory p) (hquota : 1 ≤ s.world.quota.remaining) :
    ∃ keepGoing s', (runOneStepVia p).alone (Shop.exec cfg out runner) t s = (.ran keepGoing, s') ∧
      RanStep need extra p s keepGoing s' := by
  obtain ⟨hgot, hpcbs₁, hacquire⟩ := after_acquire need p cfg out t s hquota
  set s₁ := s.did cfg out t .acquire
  set s₂ := s₁.did cfg out t (.enterBusy p)
  have hbusy : After need p 0 0 s₁ s₂ := .quiet rfl rfl rfl rfl rfl fun _ _ => rfl
  have hpcbs₂ : s₂.world.pcbs = s.world.pcbs := hpcbs₁
  have hpace : Paces need extra p (s₂.world, s₂.memory) (runner p (s₂.world, s₂.memory)) :=
    hpaced p (s₂.world, s₂.memory) (by rwa [hpcbs₂]) hneed
  set s₃ := s₂.ran p runner
  obtain ⟨keepGoing, s₄, hsettle, hafter, hkeep, hsame⟩ :=
    after_settle need p cfg out runner t s₃ (runner p (s₂.world, s₂.memory)).1
  set s₅ := s₄.did cfg out t .leaveBusy
  have hleave : After need p 0 0 s₄ s₅ := .quiet rfl rfl rfl rfl rfl fun _ _ => rfl
  have hrun : (runOneStepVia p).alone (Shop.exec cfg out runner) t s =
      (.ran keepGoing, if (s₅.world.pcbs p).llmCallsUsed = (s₁.world.pcbs p).llmCallsUsed then
        s₅.did cfg out t .refund else s₅) := by
    have hunit : (runOneStepVia p).alone (Shop.exec cfg out runner) t s =
        (runHoldingUnitVia p).alone (Shop.exec cfg out runner) t s₁ := by
      rw [runOneStepVia, Prog.alone_bind]
      change Prog.alone _ t (if (World.exec cfg out t .acquire s.world).1 = true then _ else _) s₁ = _
      rw [if_pos hgot]
    rw [hunit, runHoldingUnitVia]
    change Prog.alone _ t
      (ordinary (settle p (runner p (s₂.world, s₂.memory)).1) >>= fun keepGoing => _) s₃ = _
    rw [Prog.alone_bind, hsettle]
    change Prog.alone _ t
      (if (s₅.world.pcbs p).llmCallsUsed = (s₁.world.pcbs p).llmCallsUsed then _ else _) s₅ = _
    split <;> rfl
  have hend : ∀ s', (s'.world.pcbs = s₅.world.pcbs ∧ After need p 0 0 s₅ s') →
      RanStep need extra p s keepGoing s' := by
    rintro s' ⟨hpcbs, hlast⟩
    refine ⟨?_, fun hmore => ?_, fun hone hgo => ?_⟩
    · have hall := ((((hacquire.trans hbusy).trans hpace.after).trans hafter).trans hleave).trans hlast
      simpa using hall
    · obtain ⟨hanswer, hstill⟩ := hpace.more hmore
      have hgo : keepGoing = true := hkeep.2 hanswer
      refine ⟨hgo, ?_⟩
      rw [hpcbs]
      change Awake (s₄.world.pcbs p)
      rw [hsame hgo]
      exact hstill
    · rw [hpcbs]
      change (s₄.world.pcbs p).isTerminal = true
      rw [hsame hgo]
      exact (hpace.last hone).resolve_left fun hne => hne (hkeep.1 hgo)
  refine ⟨keepGoing, _, hrun, hend _ ?_⟩
  split
  · exact after_refund need p cfg out t s₅
  · exact ⟨rfl, .refl s₅⟩

/-! ### The step loop -/

variable (extra) in
/-- What the step loop of an agent comes to, when it may take `limit` steps. -/
structure Looped (limit : ℕ) (keepGoing : Bool) (s' : Shop 1 R) : Prop where
  after : After need p (min limit (need s.memory p)) (min limit (need s.memory p) * (1 + extra)) s s'
  more : limit < need s.memory p → keepGoing = true ∧ Awake (s'.world.pcbs p)
  last : need s.memory p ≤ limit → keepGoing = true → (s'.world.pcbs p).isTerminal = true

/-- The pool has the units for `c` steps, and no shutdown is under way. -/
structure Ample (extra c : ℕ) (s : Shop 1 R) : Prop where
  stop : s.world.stop = false
  solvent : s.world.quota.remaining ≤ s.world.quota.total
  units : ((c * (1 + extra) : ℕ) : ℤ) ≤ s.world.quota.remaining

lemma Ample.mono {c c' : ℕ} (h : Ample extra c s) (hle : c' ≤ c) : Ample extra c' s where
  stop := h.stop
  solvent := h.solvent
  units := le_trans (by exact_mod_cast Nat.mul_le_mul_right _ hle) h.units

lemma Ample.congr {c : ℕ} {s' : Shop 1 R} (h : Ample extra c s)
    (hstop : s'.world.stop = s.world.stop) (hquota : s'.world.quota = s.world.quota) :
    Ample extra c s' where
  stop := hstop.trans h.stop
  solvent := by
    rw [hquota]
    exact h.solvent
  units := by
    rw [hquota]
    exact h.units

/-- Steps within the means leave the rest of them. -/
lemma Ample.rest {c c' : ℕ} {s' : Shop 1 R} (h : Ample extra (c + c') s) {q : Pid}
    (hafter : After need q c (c * (1 + extra)) s s') : Ample extra c' s' where
  stop := hafter.stop.trans h.stop
  solvent := hafter.solvent h.solvent
  units := by
    have hunits := h.units
    have hspent := hafter.atMost h.solvent
    rw [add_mul, Nat.cast_add] at hunits
    linarith

variable {need p runner s} in
lemma looped_stepLoopVia (hpaced : Paced need extra runner) (limit : ℕ) (site : StopSite)
    (keepGoing : Bool) (hgo : limit = 0 → keepGoing = true) (hawake : Awake (s.world.pcbs p))
    (hneed : 0 < need s.memory p) (hample : Ample extra (min limit (need s.memory p)) s) :
    ∃ keepGoing' s', (stepLoopVia p limit site keepGoing).alone (Shop.exec cfg out runner) t s =
        (some keepGoing', s') ∧ Looped need extra p s limit keepGoing' s' := by
  induction limit generalizing s site keepGoing with
  | zero =>
    refine ⟨keepGoing, s, rfl, ?_, fun _ => ⟨hgo rfl, hawake⟩, fun hle => ?_⟩
    · simpa using After.refl s
    · exact absurd hle (not_le.2 hneed)
  | succ limit ih =>
    have hsplit : min (limit + 1) (need s.memory p) = 1 + min limit (need s.memory p - 1) := by omega
    rw [hsplit] at hample
    have hone : 1 ≤ s.world.quota.remaining := by
      have hpos : 0 < (1 + min limit (need s.memory p - 1)) * (1 + extra) :=
        Nat.mul_pos (by omega) (by omega)
      exact le_trans (by exact_mod_cast hpos) hample.units
    obtain ⟨going, s₁, hrun, hstep⟩ := ranStep_runOneStepVia cfg out t hpaced hawake hneed hone
    have hleft : need s₁.memory p = need s.memory p - 1 := by
      rw [hstep.after.left, Function.update_self]
    have hloop : (stepLoopVia p (limit + 1) site keepGoing).alone (Shop.exec cfg out runner) t s =
        if (s₁.world.pcbs p).isTerminal || !going then (some going, s₁)
        else (stepLoopVia p limit .laterStep going).alone (Shop.exec cfg out runner) t s₁ := by
      rw [stepLoopVia]
      change Prog.alone _ t (if s.world.stop = true then _ else _) s = _
      rw [if_neg (by simp [hample.stop]), Prog.alone_bind, hrun]
      change Prog.alone _ t (if ((s₁.world.pcbs p).isTerminal || !going) = true then _ else _) s₁ = _
      split <;> rfl
    have hrest : Ample extra (min limit (need s.memory p - 1)) s₁ :=
      hample.rest need s (by simpa using hstep.after)
    rw [hloop]
    rcases Nat.lt_or_ge 1 (need s.memory p) with hmore | hlast
    · -- the agent goes on
      obtain ⟨rfl, hstill⟩ := hstep.more hmore
      rw [if_neg (by simp [hstill.1])]
      obtain ⟨going, s', hloop', hlooped⟩ := ih .laterStep true (fun _ => rfl) hstill
        (by omega) (by rwa [hleft])
      refine ⟨going, s', hloop', ?_, fun hlt => ?_, fun hle => ?_⟩
      · have hall := hstep.after.trans hlooped.after
        rw [hleft] at hall
        rw [hsplit, add_mul, one_mul]
        exact hall
      · exact hlooped.more (by omega)
      · exact hlooped.last (by omega)
    · -- this was its last step
      have hone' : need s.memory p = 1 := by omega
      have hend : ((s₁.world.pcbs p).isTerminal || !going) = true := by
        cases going with
        | false => simp
        | true => simp [hstep.last hone' rfl]
      rw [if_pos hend]
      refine ⟨going, s₁, rfl, ?_, fun hlt => by omega, fun _ => hstep.last hone'⟩
      rw [hsplit, hone']
      simpa using hstep.after

/-! ### A dispatch -/

/-- The operations of the forwarding of a result. -/
def Forwarding (p : Pid) : Prog.Class ROp
  | _, .inl o => Forwards p o
  | _, .inr _ => False

/-- The same but for the mail and the clock. -/
structure Same (s s' : Shop 1 R) : Prop where
  log : s'.log = s.log
  memory : s'.memory = s.memory
  queue : s'.world.queue = s.world.queue
  stop : s'.world.stop = s.world.stop
  quota : s'.world.quota = s.world.quota
  pcbs : s'.world.pcbs = s.world.pcbs

lemma same_forwardResult :
    Same s ((ordinary (forwardResult cfg p)).alone (Shop.exec cfg out runner) t s).2 := by
  have honly : (ordinary (forwardResult cfg p)).Only (Forwarding p) :=
    Prog.Only.lift only_forwardResult
  refine honly.alone (R := Same) (fun s => ⟨rfl, rfl, rfl, rfl, rfl, rfl⟩)
    (fun s s' s'' h h' => ?_) (fun o s ho => ?_) s
  · exact ⟨h'.log.trans h.log, h'.memory.trans h.memory, h'.queue.trans h.queue,
      h'.stop.trans h.stop, h'.quota.trans h.quota, h'.pcbs.trans h.pcbs⟩
  · cases o with
    | inr o => exact ho.elim
    | inl o =>
      cases o with
      | now | readPcb q _ | mailbox q | mailboxGet box | mailboxPut box m =>
        exact ⟨rfl, rfl, rfl, rfl, rfl, rfl⟩
      | _ => exact ho.elim

variable (extra) in
/-- What a dispatch comes to: a slice of at most `limit` steps, and the agent is back in the
queue if it is not finished. -/
structure Sliced (limit : ℕ) (s' : Shop 1 R) : Prop where
  log : s'.log = s.log ++ List.replicate (min limit (need s.memory p)) p
  queue : s'.world.queue.q =
    if limit < need s.memory p then s.world.queue.q ++ [p] else s.world.queue.q
  left : need s'.memory = Function.update (need s.memory) p (need s.memory p - limit)
  ample : ∀ c, Ample extra (min limit (need s.memory p) + c) s → Ample extra c s'
  others : ∀ q, q ≠ p → Awake (s.world.pcbs q) → Awake (s'.world.pcbs q)
  self : limit < need s.memory p → Awake (s'.world.pcbs p)

/-- An agent that goes to the end of the queue stays awake. -/
lemma awake_ready {pcb : AgentControlBlock} (h : Awake pcb) (now : Time) :
    Awake (pcb.transition .ready now) := by
  refine ⟨?_, ?_⟩
  · rw [AgentControlBlock.isTerminal_transition, h.1]
    rfl
  · rw [AgentControlBlock.transition_frame]
    exact h.2

lemma stepLimit_pos (sched : Scheduler) : 0 < stepLimit sched := by
  unfold stepLimit
  split
  · decide
  · exact Nat.le_max_left 1 _

variable {need p runner s} in
lemma sliced_runQuantumVia (hpaced : Paced need extra runner) (hawake : Awake (s.world.pcbs p))
    (hneed : 0 < need s.memory p)
    (hample : Ample extra (min (stepLimit cfg.scheduler) (need s.memory p)) s) :
    ∃ s', (runQuantumVia cfg p).alone (Shop.exec cfg out runner) t s = ((), s') ∧
      Sliced need extra p s (stepLimit cfg.scheduler) s' := by
  set limit := stepLimit cfg.scheduler with hlimit
  obtain ⟨going, s₁, hloop, hlooped⟩ := looped_stepLoopVia cfg out t hpaced limit .firstStep false
    (fun h => absurd h (stepLimit_pos _).ne') hawake hneed hample
  set s₂ := ((ordinary (forwardResult cfg p)).alone (Shop.exec cfg out runner) t s₁).2 with hs₂
  have hsame : Same s₁ s₂ := same_forwardResult p cfg out runner t s₁
  have hrun : (runQuantumVia cfg p).alone (Shop.exec cfg out runner) t s =
      if going && !(s₂.world.pcbs p).isTerminal then ((), s₂.did cfg out t (.put p)) else ((), s₂) := by
    rw [runQuantumVia, Prog.alone_bind, ← hlimit, hloop]
    change Prog.alone _ t (ordinary (forwardResult cfg p) >>= fun _ => _) s₁ = _
    rw [Prog.alone_bind, ← hs₂]
    change Prog.alone _ t (if (going && !(s₂.world.pcbs p).isTerminal) = true then _ else _) s₂ = _
    split <;> rfl
  have hample₂ : ∀ c, Ample extra (min limit (need s.memory p) + c) s → Ample extra c s₂ := by
    intro c hc
    have hrest : Ample extra c s₁ := hc.rest need s hlooped.after
    exact hrest.congr s₁ hsame.stop hsame.quota
  have hlog : s₂.log = s.log ++ List.replicate (min limit (need s.memory p)) p :=
    hsame.log.trans hlooped.after.log
  have hqueue : s₂.world.queue.q = s.world.queue.q :=
    (congrArg ReadyQueue.q hsame.queue).trans hlooped.after.queue
  have hleft : need s₂.memory = Function.update (need s.memory) p (need s.memory p - limit) := by
    rw [hsame.memory, hlooped.after.left]
    congr 1
    omega
  have hothers : ∀ q, q ≠ p → Awake (s.world.pcbs q) → Awake (s₂.world.pcbs q) := by
    intro q hq hs
    rw [hsame.pcbs]
    exact hlooped.after.others q hq hs
  rw [hrun]
  rcases Nat.lt_or_ge limit (need s.memory p) with hmore | hlast
  · -- the quantum is used up, and the agent goes to the end of the queue
    obtain ⟨rfl, hstill⟩ := hlooped.more hmore
    rw [← hsame.pcbs] at hstill
    rw [if_pos (by simp [hstill.1])]
    refine ⟨_, rfl, ?_⟩
    rcases World.exec_put cfg out t s₂.world p with ⟨hdead, -⟩ | ⟨-, -, hpcbs, hput, -⟩
    · rw [hstill.1] at hdead
      cases hdead
    have hrest : (s₂.did cfg out t (.put p)).world.stop = s₂.world.stop ∧
        (s₂.did cfg out t (.put p)).world.quota = s₂.world.quota := by
      simp [Shop.did, World.exec, World.put, hstill.1, World.note]
    constructor
    case log => exact hlog
    case queue =>
      rw [if_pos hmore, ← hqueue]
      exact hput
    case left => exact hleft
    case ample =>
      intro c hc
      exact (hample₂ c hc).congr s₂ hrest.1 hrest.2
    case others =>
      intro q hq hs
      have hsame' : (s₂.did cfg out t (.put p)).world.pcbs q = s₂.world.pcbs q := by
        rw [Shop.did, hpcbs, Function.update_of_ne hq]
      rw [hsame']
      exact hothers q hq hs
    case self =>
      intro _
      rw [Shop.did, hpcbs, Function.update_self]
      exact awake_ready hstill _
  · -- the agent has had its steps
    have hend : (going && !(s₂.world.pcbs p).isTerminal) = false := by
      cases hgoing : going with
      | false => rfl
      | true =>
        rw [hsame.pcbs, hlooped.last hlast hgoing]
        rfl
    rw [hend]
    refine ⟨s₂, rfl, hlog, ?_, hleft, hample₂, hothers, fun h => absurd hlast (not_le.2 h)⟩
    rw [if_neg (not_lt.2 hlast), hqueue]

/-! ### A turn of the loop -/

/-- The schedulers that take the head of the queue. -/
def takesHead : Scheduler → Bool
  | .fcfs | .rr _ => true
  | .priority _ _ => false

variable (extra) in
/-- A queue of agents that are awake, with the quota for all their steps. -/
structure InLine : Prop where
  nodup : s.world.queue.q.Nodup
  awake : ∀ q ∈ s.world.queue.q, Awake (s.world.pcbs q)
  pos : ∀ q ∈ s.world.queue.q, 0 < need s.memory q
  ample : Ample extra (s.world.queue.q.map (need s.memory)).sum s

/-- The agents in the queue, with the steps that they need. -/
def demand : List (Pid × ℕ) := s.world.queue.q.map fun q => (q, need s.memory q)

variable {need s} in
/-- An idle turn. -/
lemma turn_of_empty (h : InLine need extra s) (hq : s.world.queue.q = []) :
    ∃ s', (loopBodyVia cfg).alone (Shop.exec cfg out runner) t s = (true, s') ∧
      s'.log = s.log ∧ s'.world.queue.q = [] ∧ InLine need extra s' := by
  have hline : ∀ s' : Shop 1 R, s'.world.queue.q = [] → s'.world.stop = s.world.stop →
      s'.world.quota = s.world.quota → InLine need extra s' := by
    intro s' hq' hstop hquota
    have hample := h.ample.congr s hstop hquota
    refine ⟨by simp [hq'], by simp [hq'], by simp [hq'], ?_⟩
    rw [hq] at hample
    rw [hq']
    exact hample
  set s₁ := s.did cfg out t .waitNonempty with hs₁
  have hw₁ : s₁.world = { s.world with wakes := s.world.wakes + 1 } := by
    simp only [hs₁, Shop.did, World.exec, if_pos hq]
  have hpick : World.exec cfg out t .pickNext s₁.world =
      (none, { s₁.world with ticks := s₁.world.ticks + 1 }) := by
    have hnone : cfg.scheduler.pickNext s₁.world.pcbs (out.clock s₁.world.ticks) s₁.world.queue =
        (none, s₁.world.queue) := by
      rcases cfg.scheduler.pickNext_cases s₁.world.pcbs (out.clock s₁.world.ticks) s₁.world.queue with
        ⟨-, hnone⟩ | ⟨q, hmem, -⟩
      · exact hnone
      · rw [hw₁, hq] at hmem
        cases hmem
    simp only [World.exec, hnone]
  have hturn : (loopBodyVia cfg).alone (Shop.exec cfg out runner) t s =
      (true, if (World.exec cfg out t .waitNonempty s.world).1 = true then
        s₁.did cfg out t .pickNext else s₁) := by
    rw [loopBodyVia]
    change Prog.alone _ t (if s.world.stop = true then _ else _) s = _
    rw [if_neg (by simp [h.ample.stop]), Prog.alone_bind]
    change Prog.alone _ t (if (World.exec cfg out t .waitNonempty s.world).1 = true then _ else _) s₁ = _
    split
    · have hidle : (Prog.alone (Shop.exec cfg out runner) t (kernelOp .pickNext) s₁).1 = none :=
        congrArg Prod.fst hpick
      rw [Prog.alone_bind, hidle]
      rfl
    · rfl
  rw [hturn]
  refine ⟨_, rfl, ?_⟩
  split
  · have hw₂ : (s₁.did cfg out t .pickNext).world = { s₁.world with ticks := s₁.world.ticks + 1 } := by
      simp only [Shop.did, hpick]
    refine ⟨rfl, by rw [hw₂, hw₁]; exact hq, hline _ ?_ ?_ ?_⟩ <;> rw [hw₂, hw₁]
    exact hq
  · exact ⟨rfl, by rw [hw₁]; exact hq, hline _ (by rw [hw₁]; exact hq) (by rw [hw₁]) (by rw [hw₁])⟩

variable {s} in
/-- The worker takes the agent at the head of the queue. -/
lemma pickNext_head (hhead : takesHead cfg.scheduler = true) {rest : List Pid}
    (hq : s.world.queue.q = p :: rest) :
    (World.exec cfg out t .pickNext s.world).1 = some p ∧
      (s.did cfg out t .pickNext).world.queue.q = rest ∧
      (s.did cfg out t .pickNext).world.pcbs = s.world.pcbs ∧
      (s.did cfg out t .pickNext).world.stop = s.world.stop ∧
      (s.did cfg out t .pickNext).world.quota = s.world.quota := by
  have hpop : cfg.scheduler.pickNext s.world.pcbs (out.clock s.world.ticks) s.world.queue =
      (some p, { q := rest, inFlight := s.world.queue.inFlight + 1 }) := by
    cases hsched : cfg.scheduler with
    | priority rate bonus =>
      rw [hsched] at hhead
      cases hhead
    | fcfs | rr k => simp only [Scheduler.pickNext, ReadyQueue.popleft, hq]
  simp only [Shop.did, World.exec, hpop, World.note]
  exact ⟨trivial, trivial, trivial, trivial, trivial⟩

variable {p runner s} in
/-- A turn in which the worker finds an agent is the dispatch of that agent. -/
lemma turn_of_picked {s' : Shop 1 R} (hstop : s.world.stop = false) (hq : s.world.queue.q ≠ [])
    (hpick : (World.exec cfg out t .pickNext s.world).1 = some p)
    (hawake : Awake ((s.did cfg out t .pickNext).world.pcbs p))
    (hquantum : (runQuantumVia cfg p).alone (Shop.exec cfg out runner) t
      (s.did cfg out t .pickNext) = ((), s')) :
    (loopBodyVia cfg).alone (Shop.exec cfg out runner) t s = (true, s'.did cfg out t .taskDone) := by
  set s₁ := s.did cfg out t .pickNext
  have hwait : World.exec cfg out t .waitNonempty s.world = (true, s.world) := by
    simp only [World.exec, if_neg hq]
  have hdid : s.did cfg out t .waitNonempty = s := by rw [Shop.did, hwait]
  have hdispatch : (dispatchVia cfg p).alone (Shop.exec cfg out runner) t s₁ = ((), s') := by
    rw [dispatchVia]
    change Prog.alone _ t (if (s₁.world.pcbs p).isTerminal = true then _ else
      if ((s₁.world.pcbs p).inputFrom.isSome && needsInput (s₁.world.pcbs p).prompt) = true then _
      else _) s₁ = _
    rw [if_neg (by simp [hawake.1]), if_neg (by rw [hawake.2]; exact Bool.false_ne_true)]
    exact hquantum
  rw [loopBodyVia]
  change Prog.alone _ t (if s.world.stop = true then _ else _) s = _
  rw [if_neg (by simp [hstop]), Prog.alone_bind]
  change Prog.alone _ t (if (World.exec cfg out t .waitNonempty s.world).1 = true then _ else _)
    (s.did cfg out t .waitNonempty) = _
  have hpicked : (Prog.alone (Shop.exec cfg out runner) t (kernelOp .pickNext) s).1 = some p := hpick
  rw [hwait, hdid, if_pos rfl, Prog.alone_bind, hpicked]
  change Prog.alone _ t (dispatchVia cfg p >>= fun _ => _) s₁ = _
  rw [Prog.alone_bind, hdispatch]
  rfl

variable {need p s} in
/-- The line after a slice for the agent at its head. -/
lemma InLine.after_slice {s' : Shop 1 R} {limit : ℕ} {rest : List Pid} (h : InLine need extra s)
    (hq : s.world.queue.q = p :: rest)
    (hqueue : s'.world.queue.q = if limit < need s.memory p then rest ++ [p] else rest)
    (hleft : need s'.memory = Function.update (need s.memory) p (need s.memory p - limit))
    (hample : ∀ c, Ample extra (min limit (need s.memory p) + c) s → Ample extra c s')
    (hothers : ∀ q, q ≠ p → Awake (s.world.pcbs q) → Awake (s'.world.pcbs q))
    (hself : limit < need s.memory p → Awake (s'.world.pcbs p)) : InLine need extra s' := by
  have hnodup : p ∉ rest ∧ rest.Nodup := List.nodup_cons.1 (hq ▸ h.nodup)
  have hsum : (s.world.queue.q.map (need s.memory)).sum =
      need s.memory p + (rest.map (need s.memory)).sum := by rw [hq, List.map_cons, List.sum_cons]
  have hall : Ample extra (need s.memory p + (rest.map (need s.memory)).sum) s := hsum ▸ h.ample
  have hne : ∀ q ∈ rest, q ≠ p := by
    rintro q hmem rfl
    exact hnodup.1 hmem
  have hawake : ∀ q ∈ rest, Awake (s'.world.pcbs q) := fun q hmem =>
    hothers q (hne q hmem) (h.awake q (hq ▸ List.mem_cons_of_mem p hmem))
  have hkept : ∀ q ∈ rest, need s'.memory q = need s.memory q := by
    intro q hmem
    rw [hleft, Function.update_of_ne (hne q hmem)]
  have hpos : ∀ q ∈ rest, 0 < need s'.memory q := by
    intro q hmem
    rw [hkept q hmem]
    exact h.pos q (hq ▸ List.mem_cons_of_mem p hmem)
  have hrest : (rest.map (need s'.memory)).sum = (rest.map (need s.memory)).sum := by
    rw [List.map_congr_left hkept]
  rcases Nat.lt_or_ge limit (need s.memory p) with hmore | hlast
  · rw [if_pos hmore] at hqueue
    have hless : need s'.memory p = need s.memory p - limit := by rw [hleft, Function.update_self]
    refine ⟨?_, ?_, ?_, ?_⟩ <;> rw [hqueue]
    · exact hnodup.2.append (List.nodup_singleton p) (by simpa using hnodup.1)
    · intro q hmem
      rcases List.mem_append.1 hmem with hmem | hmem
      · exact hawake q hmem
      · rw [List.mem_singleton.1 hmem]
        exact hself hmore
    · intro q hmem
      rcases List.mem_append.1 hmem with hmem | hmem
      · exact hpos q hmem
      · rw [List.mem_singleton.1 hmem, hless]
        omega
    · refine hample _ (hall.mono s ?_)
      rw [List.map_append, List.sum_append, hrest]
      simp only [List.map_cons, List.map_nil, List.sum_cons, List.sum_nil, hless]
      omega
  · rw [if_neg (not_lt.2 hlast)] at hqueue
    refine ⟨?_, ?_, ?_, ?_⟩ <;> rw [hqueue]
    · exact hnodup.2
    · exact hawake
    · exact hpos
    · refine hample _ (hall.mono s ?_)
      rw [hrest]
      omega

variable {need p runner s} in
/-- A turn that dispatches the agent at the head of the queue. -/
lemma turn_of_head (hhead : takesHead cfg.scheduler = true) (hpaced : Paced need extra runner)
    (h : InLine need extra s) {rest : List Pid} (hq : s.world.queue.q = p :: rest) :
    ∃ s', (loopBodyVia cfg).alone (Shop.exec cfg out runner) t s = (true, s') ∧
      s'.log = s.log ++ List.replicate (min (stepLimit cfg.scheduler) (need s.memory p)) p ∧
      s'.world.queue.q = (if stepLimit cfg.scheduler < need s.memory p then rest ++ [p] else rest) ∧
      need s'.memory =
        Function.update (need s.memory) p (need s.memory p - stepLimit cfg.scheduler) ∧
      InLine need extra s' := by
  set limit := stepLimit cfg.scheduler with hlimit
  set s₁ := s.did cfg out t .pickNext with hs₁
  obtain ⟨hpick, hqueue₁, hpcbs₁, hstop₁, hquota₁⟩ := pickNext_head p cfg out t hhead hq
  have hmem : p ∈ s.world.queue.q := hq ▸ List.mem_cons_self
  have hawake₁ : Awake (s₁.world.pcbs p) := by
    rw [hpcbs₁]
    exact h.awake p hmem
  have hmeans : Ample extra (min limit (need s₁.memory p)) s₁ := by
    refine (h.ample.mono s ?_).congr s hstop₁ hquota₁
    rw [hq, List.map_cons, List.sum_cons]
    exact (Nat.min_le_right _ _).trans (Nat.le_add_right _ _)
  obtain ⟨s₂, hquantum, hsliced⟩ := sliced_runQuantumVia cfg out t hpaced hawake₁ (h.pos p hmem) hmeans
  set s' := s₂.did cfg out t .taskDone with hs'
  have hqueue : s'.world.queue.q = if limit < need s.memory p then rest ++ [p] else rest := by
    have hdone : s'.world.queue.q = s₂.world.queue.q := World.entries_exec rfl
    rw [hdone, hsliced.queue, hqueue₁]
    rfl
  refine ⟨s', ?_, hsliced.log, hqueue, hsliced.left, ?_⟩
  · exact turn_of_picked cfg out t h.ample.stop (List.ne_nil_of_mem hmem) hpick hawake₁ hquantum
  · refine h.after_slice hq hqueue hsliced.left (fun c hc => ?_) (fun q hne hs => ?_) hsliced.self
    · exact (hsliced.ample c (hc.congr s hstop₁ hquota₁)).congr s₂ rfl rfl
    · refine hsliced.others q hne ?_
      rw [hpcbs₁]
      exact hs

/-! ### Runs -/

variable {need p runner s} in
/-- Every turn of the loop runs one slice of the schedule. -/
lemma log_turns (hhead : takesHead cfg.scheduler = true) (hpaced : Paced need extra runner)
    (h : InLine need extra s) (j : ℕ) :
    (s.turns cfg out runner j).log =
      s.log ++ steps ((slices (stepLimit cfg.scheduler) (demand need s)).take j) := by
  induction j generalizing s with
  | zero => simp [Shop.turns]
  | succ j ih =>
    cases hq : s.world.queue.q with
    | nil =>
      obtain ⟨s', hturn, hlog, hq', hline⟩ := turn_of_empty cfg out runner (.worker 0) h hq
      rw [Shop.turns, hturn]
      simp only [ih hline, hlog, demand, hq, hq', List.map_nil, slices_nil, List.take_nil]
    | cons p rest =>
      obtain ⟨s', hturn, hlog, hq', hleft, hline⟩ :=
        turn_of_head cfg out (.worker 0) hhead hpaced h hq
      have hnotin : p ∉ rest := (List.nodup_cons.1 (hq ▸ h.nodup)).1
      have hkept : ∀ q ∈ rest, (q, need s'.memory q) = (q, need s.memory q) := by
        intro q hmem
        rw [hleft, Function.update_of_ne (by rintro rfl; exact hnotin hmem)]
      have hlimit : max 1 (stepLimit cfg.scheduler) = stepLimit cfg.scheduler :=
        max_eq_right (stepLimit_pos _)
      rw [Shop.turns, hturn]
      simp only [ih hline, hlog, List.append_assoc]
      congr 1
      rcases Nat.lt_or_ge (stepLimit cfg.scheduler) (need s.memory p) with hmore | hlast
      · have hdemand : demand need s' =
            rest.map (fun q => (q, need s.memory q)) ++
              [(p, need s.memory p - stepLimit cfg.scheduler)] := by
          rw [demand, hq', if_pos hmore, List.map_append, List.map_congr_left hkept, List.map_cons,
            List.map_nil, hleft, Function.update_self]
        rw [hdemand, demand, hq, List.map_cons, slices_of_lt _ (by rwa [hlimit]), hlimit,
          List.take_succ_cons, steps_cons, min_eq_left hmore.le]
      · have hdemand : demand need s' = rest.map fun q => (q, need s.memory q) := by
          rw [demand, hq', if_neg (not_lt.2 hlast), List.map_congr_left hkept]
        rw [hdemand, demand, hq, List.map_cons, slices_of_le _ (by rwa [hlimit]),
          List.take_succ_cons, steps_cons, min_eq_right hlast]

end Turn

section Textbook

variable {R : Type} {need : R → Pid → ℕ} {extra : ℕ} {runner : StepRunner 1 R} {s : Shop 1 R}

lemma InLine.proper (h : InLine need extra s) : Proper (demand need s) where
  nodup := by
    rw [demand, List.map_map]
    have hfst : (Prod.fst ∘ fun q => (q, need s.memory q)) = id := rfl
    rw [hfst, List.map_id]
    exact h.nodup
  pos := by
    intro x hx
    obtain ⟨q, hq, rfl⟩ := List.mem_map.1 hx
    exact h.pos q hq

/-- The steps of an agent in all jobs together are those that it needs. -/
lemma InLine.count_steps (h : InLine need extra s) {q : Pid} (hq : q ∈ s.world.queue.q) :
    (steps (demand need s)).count q = need s.memory q :=
  count_steps_of_mem h.proper (List.mem_map.2 ⟨q, hq, rfl⟩)

/-- The steps of all agents, one agent after the other. -/
lemma steps_demand : steps (demand need s) =
    s.world.queue.q.flatMap fun q => List.replicate (need s.memory q) q := by
  rw [steps, demand, List.flatMap_map]

/-- **Round robin is its textbook schedule.**  One worker, any quantum, any list of agents in
the queue, any runner under which they need the steps that they need, and quota for all of
them.  Every turn of the loop runs the next slice of the schedule, until there is none left.
In the schedule every agent gets the steps that it needs, and between two consecutive slices
of an agent every other agent gets one slice if it is not finished, and none otherwise.  If
the quantum is enough for every agent, the agents run one after the other; and so they do
under FCFS, if none needs more than `_NONPREEMPTIVE_STEP_CAP` steps. -/
theorem textbook_of_roundRobin (cfg : KernelConfig) (out : Outside) {k : ℕ} (hk : 1 ≤ k)
    (hsched : cfg.scheduler = .rr k) (hpaced : Paced need extra runner) (h : InLine need extra s) (hlog : s.log = []) :
    let agents := s.world.queue.q
    let schedule := slices k (agents.map fun q => (q, need s.memory q))
    (∀ j, (s.turns cfg out runner j).log = steps (schedule.take j)) ∧
    (∀ j, schedule.length ≤ j → (s.turns cfg out runner j).log = steps schedule) ∧
    (∀ a x y pre mid post, schedule = pre ++ (a, x) :: (mid ++ (a, y) :: post) →
      a ∉ mid.map Prod.fst → ∀ b ∈ agents, b ≠ a → (mid.map Prod.fst).count b =
        if (steps pre).count b < need s.memory b then 1 else 0) ∧
    (∀ q ∈ agents, (steps schedule).count q = need s.memory q) ∧
    ((∀ q ∈ agents, need s.memory q ≤ k) →
      steps schedule = agents.flatMap (fun q => List.replicate (need s.memory q) q) ∧
      ∀ (cfg' : KernelConfig) (out' : Outside), cfg'.scheduler = .fcfs →
        (∀ q ∈ agents, need s.memory q ≤ nonpreemptiveStepCap) →
        ∀ j, agents.length ≤ j → (s.turns cfg' out' runner j).log = steps schedule) := by
  intro agents schedule
  have hlimit : stepLimit cfg.scheduler = k := by
    rw [hsched]
    exact max_eq_right hk
  have hturns : ∀ j, (s.turns cfg out runner j).log = steps (schedule.take j) := by
    intro j
    rw [log_turns cfg out (by rw [hsched]; rfl) hpaced h, hlog, hlimit]
    rfl
  refine ⟨hturns, fun j hj => ?_, fun a x y pre mid post hsplit hmid b hb hne => ?_,
    fun q hq => ?_, fun hall => ?_⟩
  · rw [hturns, List.take_of_length_le hj]
  · rw [← h.count_steps hb]
    exact count_between h.proper hsplit hmid hne
  · rw [← h.count_steps hq]
    exact (steps_slices_perm k _).count_eq q
  · have hself : schedule = demand need s := by
      refine slices_eq_self fun x hx => ?_
      obtain ⟨q, hq, rfl⟩ := List.mem_map.1 hx
      exact (hall q hq).trans (le_max_right 1 k)
    refine ⟨by rw [hself, steps_demand], fun cfg' out' hfcfs hcap j hj => ?_⟩
    have hfull : slices (stepLimit cfg'.scheduler) (demand need s) = demand need s := by
      refine slices_eq_self fun x hx => ?_
      obtain ⟨q, hq, rfl⟩ := List.mem_map.1 hx
      rw [hfcfs]
      exact (hcap q hq).trans (le_max_right 1 _)
    rw [log_turns cfg' out' (by rw [hfcfs]; rfl) hpaced h, hlog, hfull, hself, List.nil_append,
      List.take_of_length_le]
    rwa [demand, List.length_map]

end Textbook

/-! ### A runner that counts -/

/-- The step runner of `test_scheduler_fairness.py`: it counts the steps of every agent, and
an agent is done with its `n`-th step. -/
def nStepRunner (n : Pid → ℕ) (now : Time) : StepRunner 1 (Pid → ℕ) := fun p s =>
  let running := (s.1.pcbs p).transition .running now
  let pcb := { running with llmCallsUsed := running.llmCallsUsed + 1 }
  let counts := Function.update s.2 p (s.2 p + 1)
  if n p ≤ counts p then
    (.ok false, { s.1 with pcbs := Function.update s.1.pcbs p (pcb.transition .done now) }, counts)
  else (.ok true, { s.1 with pcbs := Function.update s.1.pcbs p pcb }, counts)

lemma paced_nStepRunner (n : Pid → ℕ) (now : Time) :
    Paced (fun counts p => n p - counts p) 0 (nStepRunner n now) := by
  intro p s hawake hneed
  set running := (s.1.pcbs p).transition .running now with hrunning
  have hleft : (fun q => n q - Function.update s.2 p (s.2 p + 1) q) =
      Function.update (fun q => n q - s.2 q) p (n p - s.2 p - 1) := by
    ext q
    by_cases hq : q = p
    · subst hq
      simp only [Function.update_self]
      omega
    · simp only [Function.update_of_ne hq]
  have hothers : ∀ (pcb : AgentControlBlock) q, q ≠ p → Awake (s.1.pcbs q) →
      Awake (Function.update s.1.pcbs p pcb q) := by
    intro pcb q hq hs
    rwa [Function.update_of_ne hq]
  have hstill : Awake { running with llmCallsUsed := running.llmCallsUsed + 1 } := by
    have hlive : running.isTerminal = false := by
      rw [hrunning, AgentControlBlock.isTerminal_transition, hawake.1]
      rfl
    refine ⟨hlive, ?_⟩
    rw [hrunning, AgentControlBlock.transition_frame]
    exact hawake.2
  simp only [nStepRunner, Function.update_self]
  split
  · next hdone =>
    refine ⟨rfl, rfl, rfl, le_rfl, by simp, hothers _, hleft, fun hmore => ?_, fun _ => ?_⟩
    · omega
    · exact .inl (by simp)
  · next hmore =>
    refine ⟨rfl, rfl, rfl, le_rfl, by simp, hothers _, hleft, fun _ => ⟨rfl, ?_⟩, fun hone => ?_⟩
    · change Awake (Function.update s.1.pcbs p _ p)
      rw [Function.update_self]
      exact hstill
    · omega

/-- Two agents in the queue of a pool that has not started, and a runner that has not been
called. -/
def pair : Shop 1 (Pid → ℕ) where
  world :=
    { pcbs := fun p => { pid := p, prompt := "x", createdAt := 0, state := .ready }
      queue := { q := [1, 2] }
      quota := { total := 20000, remaining := 20000 } }
  memory := fun _ => 0

lemma inLine_pair (n : Pid → ℕ) (hn : ∀ p, 0 < n p) (hsum : n 1 + n 2 ≤ 20000) :
    InLine (fun counts p => n p - counts p) 0 pair where
  nodup := by decide
  awake := fun _ _ => ⟨rfl, rfl⟩
  pos := fun q _ => hn q
  ample := by
    refine ⟨rfl, le_rfl, ?_⟩
    simp only [pair, List.map_cons, List.map_nil, List.sum_cons, List.sum_nil, Nat.sub_zero, add_zero,
      mul_one]
    exact_mod_cast hsum

/-- A kernel with the scheduler `sched`. -/
def kernelWith (sched : Scheduler) : KernelConfig :=
  { scheduler := sched, pager := {}, host := .inert }

/-- Two agents of two steps and one step, and a quantum of one. -/
theorem pair_interleaves :
    let n : Pid → ℕ := fun p => if p = 1 then 2 else 1
    (pair.turns (kernelWith (.rr 1)) (.calm { content := "" }) (nStepRunner n 0) 3).log =
      [1, 2, 1] := by
  intro n
  have hline : InLine (fun counts p => n p - counts p) 0 pair :=
    inLine_pair n (fun p => by by_cases hp : p = 1 <;> simp [n, hp]) (by decide)
  have hschedule : slices 1 [((1 : Pid), 2), (2, 1)] = [(1, 1), (2, 1), (1, 1)] := by
    rw [slices_of_lt _ (by decide), List.cons_append, List.nil_append, slices_of_le _ (by decide),
      slices_of_le _ (by decide), slices_nil]
    rfl
  have hrun := (textbook_of_roundRobin (kernelWith (.rr 1)) (.calm { content := "" }) le_rfl rfl
    (paced_nStepRunner n 0) hline rfl).1 3
  have hdemand : (pair.world.queue.q.map fun q => (q, n q - pair.memory q)) = [(1, 2), (2, 1)] := rfl
  rw [hdemand, hschedule] at hrun
  exact hrun

/-- An agent of 10001 steps and one of a single step.  Under round robin with a quantum of
10001 the first finishes before the second begins.  FCFS stops the first at its 10000th step
and goes on with the second. -/
theorem fcfs_stops_at_cap :
    let n : Pid → ℕ := fun p => if p = 1 then 10001 else 1
    let log := fun sched =>
      (pair.turns (kernelWith sched) (.calm { content := "" }) (nStepRunner n 0) 3).log
    (∀ q ∈ pair.world.queue.q, n q ≤ 10001) ∧
      log (.rr 10001) = List.replicate 10001 1 ++ [2] ∧
      log .fcfs = List.replicate 10000 1 ++ [2, 1] ∧ log .fcfs ≠ log (.rr 10001) := by
  intro n log
  have hline : InLine (fun counts p => n p - counts p) 0 pair :=
    inLine_pair n (fun p => by by_cases hp : p = 1 <;> simp [n, hp]) (by decide)
  have hrun : ∀ sched, takesHead sched = true → log sched =
      steps ((slices (stepLimit sched) [((1 : Pid), 10001), (2, 1)]).take 3) := by
    intro sched hhead
    exact log_turns (kernelWith sched) (.calm { content := "" }) hhead (paced_nStepRunner n 0) hline 3
  have hrr : log (.rr 10001) = List.replicate 10001 1 ++ [2] := by
    rw [hrun _ rfl, slices_eq_self (by decide)]
    rfl
  have hfcfs : log .fcfs = List.replicate 10000 1 ++ [2, 1] := by
    have hslices : slices (stepLimit .fcfs) [((1 : Pid), 10001), (2, 1)] =
        [(1, 10000), (2, 1), (1, 1)] := by
      rw [slices_of_lt _ (by decide), List.cons_append, List.nil_append, slices_of_le _ (by decide),
        slices_of_le _ (by decide), slices_nil]
      rfl
    rw [hrun _ rfl, hslices]
    rfl
  refine ⟨by decide, hrr, hfcfs, ?_⟩
  have hlast : List.replicate 10001 (1 : Pid) = List.replicate 10000 1 ++ [1] := List.replicate_succ'
  rw [hrr, hfcfs, hlast, List.append_assoc]
  intro heq
  have htail : [2, 1] = [(1 : Pid)] ++ [2] := (List.append_right_inj _).1 heq
  revert htail
  decide

end Gcos.Pool
