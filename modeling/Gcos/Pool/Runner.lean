import Gcos.Pool.Worker
import Gcos.Lib.Footprint

/-!
# A pool with any step runner

`WorkerPool` takes its step runner as an argument; the executor's `run_step` is only the
default.  Here the call of the runner is an operation of its own, and what it does is a
parameter: it may move the world, has a memory of its own, and answers or raises.  With
`run_step` in its place the loop is the one of `Gcos.Pool.loopBody`.
-/

namespace Gcos

open Lib Exec

namespace Pool

/-- The call of the step runner. -/
inductive RunnerOp : Type → Type
  | step (p : Pid) : RunnerOp (Except Exn Bool)

/-- The operations of a pool with any step runner. -/
abbrev ROp (β : Type) : Type := KOp β ⊕ RunnerOp β

/-- An operation of the kernel. -/
def kernelOp {β : Type} (o : KOp β) : Prog ROp β := .perform (.inl o)

/-- Code of the kernel that does not call the runner. -/
def ordinary {α : Type} (prog : Prog KOp α) : Prog ROp α := prog.lift Sum.inl

/-- The second half of `_run_one_step`. -/
def runHoldingUnitVia (p : Pid) : Prog ROp StepStatus := do
  let before ← kernelOp (.readPcb p .fields)
  kernelOp (.enterBusy p)
  let answer ← .perform (.inr (.step p))
  let keepGoing ← ordinary (settle p answer)
  kernelOp .leaveBusy
  let pcb ← kernelOp (.readPcb p .fields)
  if pcb.llmCallsUsed = before.llmCallsUsed then do
    kernelOp .refund
    return .ran keepGoing
  else return .ran keepGoing

/-- `WorkerPool._run_one_step`. -/
def runOneStepVia (p : Pid) : Prog ROp StepStatus := do
  if ← kernelOp .acquire then runHoldingUnitVia p
  else do
    kernelOp (.write p (.transition .blocked))
    let got ← kernelOp .acquire
    if ← kernelOp (.stopIsSet .afterBlock) then do
      ordinary (Prog.when (got = true) (.perform .refund))
      let _ ← kernelOp (.put p)
      return .stopped
    else if got then runHoldingUnitVia p
    else do
      let _ ← kernelOp (.put p)
      return .blocked

/-- The step loop of `_dispatch`. -/
def stepLoopVia (p : Pid) : ℕ → StopSite → Bool → Prog ROp (Option Bool)
  | 0, _, keepGoing => return some keepGoing
  | limit + 1, site, keepGoing => do
    if ← kernelOp (.stopIsSet site) then return some keepGoing
    else match ← runOneStepVia p with
      | .blocked => return none
      | .stopped => return none
      | .ran keepGoing => do
        let pcb ← kernelOp (.readPcb p .terminal)
        if pcb.isTerminal || !keepGoing then return some keepGoing
        else stepLoopVia p limit .laterStep keepGoing

/-- The quantum of `_dispatch` and what follows it. -/
def runQuantumVia (cfg : KernelConfig) (p : Pid) : Prog ROp Unit := do
  match ← stepLoopVia p (stepLimit cfg.scheduler) .firstStep false with
  | none => return
  | some keepGoing => do
    ordinary (forwardResult cfg p)
    let pcb ← kernelOp (.readPcb p .terminal)
    if keepGoing && !pcb.isTerminal then do
      let _ ← kernelOp (.put p)
      return
    else return

/-- `WorkerPool._dispatch`. -/
def dispatchVia (cfg : KernelConfig) (p : Pid) : Prog ROp Unit := do
  let pcb ← kernelOp (.readPcb p .terminal)
  if pcb.isTerminal then return
  else if pcb.inputFrom.isSome && needsInput pcb.prompt then
    if !cfg.hasBus then
      ordinary (failWith p .error "input_from set but kernel has no message bus")
    else do
      match ← ordinary (recv p) with
      | none => ordinary (reparkWaiting cfg p)
      | some m => do
        kernelOp (.write p (.prompt (resolveInputPlaceholder pcb.prompt m)))
        kernelOp (.write p (.waitingSince none))
        runQuantumVia cfg p
  else runQuantumVia cfg p

/-- One turn of `WorkerPool._loop`. -/
def loopBodyVia (cfg : KernelConfig) : Prog ROp Bool := do
  if ← kernelOp (.stopIsSet .loopHead) then return false
  else if ← kernelOp .waitNonempty then do
    match ← kernelOp .pickNext with
    | none => return true
    | some p => do
      dispatchVia cfg p
      kernelOp .taskDone
      return true
  else return true

/-! ### The default runner -/

/-- `run_step` in place of the runner. -/
def viaRunStep (cfg : KernelConfig) : {β : Type} → ROp β → Prog KOp β
  | _, .inl o => .perform o
  | _, .inr (.step p) => runStep cfg p

section Default

variable (cfg : KernelConfig) (p : Pid)

@[simp] lemma inline_kernelOp {β : Type} (o : KOp β) :
    (kernelOp o).inline (viaRunStep cfg) = .perform o := rfl

@[simp] lemma inline_ordinary {α : Type} (prog : Prog KOp α) :
    (ordinary prog).inline (viaRunStep cfg) = prog := by
  have hemb : ∀ {β : Type} (o : KOp β), viaRunStep cfg (.inl o) = .perform o := fun _ => rfl
  exact Prog.inline_lift hemb prog

@[simp] lemma inline_step :
    (Prog.perform (.inr (.step p)) : Prog ROp _).inline (viaRunStep cfg) = runStep cfg p := by
  change (runStep cfg p >>= fun b => Prog.ret b) = runStep cfg p
  induction runStep cfg p with
  | ret a => rfl
  | op o k ih => exact congrArg (Prog.op o) (funext ih)

/-- Inlining in a choice. -/
@[simp] lemma inline_ite {α : Type} {c : Prop} [Decidable c] (x y : Prog ROp α) :
    (if c then x else y).inline (viaRunStep cfg) =
      if c then x.inline (viaRunStep cfg) else y.inline (viaRunStep cfg) := by
  split <;> rfl

lemma inline_runHoldingUnitVia :
    (runHoldingUnitVia p).inline (viaRunStep cfg) = runHoldingUnit cfg p := by
  simp only [runHoldingUnitVia, runHoldingUnit, Prog.inline_bind, inline_kernelOp, inline_step,
    inline_ordinary, inline_ite, Prog.inline_pure]

lemma inline_runOneStepVia : (runOneStepVia p).inline (viaRunStep cfg) = runOneStep cfg p := by
  simp only [runOneStepVia, runOneStep, Prog.inline_bind, inline_kernelOp, inline_ordinary,
    inline_ite, Prog.inline_pure, inline_runHoldingUnitVia]

lemma inline_stepLoopVia (limit : ℕ) (site : StopSite) (keepGoing : Bool) :
    (stepLoopVia p limit site keepGoing).inline (viaRunStep cfg) =
      stepLoop cfg p limit site keepGoing := by
  induction limit generalizing site keepGoing with
  | zero => rfl
  | succ limit ih =>
    simp only [stepLoopVia, stepLoop, Prog.inline_bind, inline_kernelOp, inline_ite, Prog.inline_pure,
      inline_runOneStepVia]
    refine congrArg _ (funext fun stop => ?_)
    split
    · rfl
    · refine congrArg _ (funext fun status => ?_)
      cases status with
      | ran keepGoing =>
        simp only [Prog.inline_bind, inline_kernelOp, inline_ite, Prog.inline_pure, ih]
      | blocked => rfl
      | stopped => rfl

lemma inline_runQuantumVia : (runQuantumVia cfg p).inline (viaRunStep cfg) = runQuantum cfg p := by
  simp only [runQuantumVia, runQuantum, Prog.inline_bind, inline_stepLoopVia]
  refine congrArg _ (funext fun answer => ?_)
  cases answer with
  | none => rfl
  | some keepGoing =>
    simp only [Prog.inline_bind, inline_kernelOp, inline_ordinary, inline_ite, Prog.inline_pure]

lemma inline_dispatchVia : (dispatchVia cfg p).inline (viaRunStep cfg) = dispatch cfg p := by
  simp only [dispatchVia, dispatch, Prog.inline_bind, inline_kernelOp, inline_ordinary, inline_ite,
    Prog.inline_pure, inline_runQuantumVia]
  refine congrArg _ (funext fun pcb => ?_)
  split
  · rfl
  · split
    · split
      · rfl
      · refine congrArg _ (funext fun answer => ?_)
        cases answer with
        | none => simp only [inline_ordinary]
        | some m =>
          simp only [Prog.inline_bind, inline_kernelOp, inline_runQuantumVia]
    · rfl

/-- **With `run_step` for its runner the pool is the pool of the executor.** -/
theorem inline_loopBodyVia : (loopBodyVia cfg).inline (viaRunStep cfg) = loopBody cfg := by
  simp only [loopBodyVia, loopBody, Prog.inline_bind, inline_kernelOp, inline_ite, Prog.inline_pure]
  refine congrArg _ (funext fun stop => ?_)
  split
  · rfl
  · refine congrArg _ (funext fun woken => ?_)
    split
    · refine congrArg _ (funext fun picked => ?_)
      cases picked with
      | none => rfl
      | some p =>
        simp only [Prog.inline_bind, inline_kernelOp, Prog.inline_pure, inline_dispatchVia]
    · rfl

end Default

/-! ### Running the pool -/

/-- A step runner with a memory of its own: what it answers for an agent, and what it leaves. -/
abbrev StepRunner (n : ℕ) (R : Type) := Pid → World n × R → Except Exn Bool × World n × R

/-- A pool: the world, the memory of the runner, and the agents whose steps were run, in
order. -/
structure Shop (n : ℕ) (R : Type) where
  world : World n
  memory : R
  log : List Pid := []

namespace Shop

variable {n : ℕ} {R : Type}

/-- What thread `t` is answered, and what becomes of the pool. -/
def exec (cfg : KernelConfig) (out : Outside) (runner : StepRunner n R) :
    Prog.Handler ROp (Tid n) (Shop n R)
  | _, t, .inl o, s =>
    ((World.exec cfg out t o s.world).1, { s with world := (World.exec cfg out t o s.world).2 })
  | _, _, .inr (.step p), s =>
    ((runner p (s.world, s.memory)).1,
      { world := (runner p (s.world, s.memory)).2.1, memory := (runner p (s.world, s.memory)).2.2,
        log := s.log ++ [p] })

/-- The only worker goes through its loop `j` times, or until it stops. -/
def turns (cfg : KernelConfig) (out : Outside) (runner : StepRunner 1 R) : ℕ → Shop 1 R → Shop 1 R
  | 0, s => s
  | j + 1, s =>
    match (loopBodyVia cfg).alone (exec cfg out runner) (.worker 0) s with
    | (true, s') => turns cfg out runner j s'
    | (false, s') => s'

end Shop

/-- `run_step` as a step runner of worker `t`. -/
def defaultRunner {n : ℕ} (cfg : KernelConfig) (out : Outside) (t : Tid n) : StepRunner n Unit :=
  fun p s =>
    (((runStep cfg p).alone (World.exec cfg out) t s.1).1,
      ((runStep cfg p).alone (World.exec cfg out) t s.1).2, ())

/-- A turn of the pool with the default runner is a turn of the executor's pool. -/
theorem alone_loopBodyVia {n : ℕ} (cfg : KernelConfig) (out : Outside) (t : Tid n)
    (s : Shop n Unit) :
    (loopBody cfg).alone (World.exec cfg out) t s.world =
      (((loopBodyVia cfg).alone (Shop.exec cfg out (defaultRunner cfg out t)) t s).1,
        ((loopBodyVia cfg).alone (Shop.exec cfg out (defaultRunner cfg out t)) t s).2.world) := by
  rw [← inline_loopBodyVia cfg]
  refine Prog.alone_inline Shop.world (fun o s => ?_) (loopBodyVia cfg) s
  cases o with
  | inl o => rfl
  | inr o =>
    cases o
    rfl

end Pool

end Gcos
