import Gcos.Exec.Step
import Gcos.Lib.Footprint

/-!
# The worker pool

`gcos/kernel/worker_pool.py`: the loop of a worker thread.  A worker picks an agent,
resolves its upstream input, runs up to a quantum of steps, each against one unit of the
global quota, forwards the result, and puts the agent back if it has more to do.
-/

namespace Gcos

open Lib Exec

namespace Pool

/-- `_NONPREEMPTIVE_STEP_CAP`. -/
def nonpreemptiveStepCap : ℕ := 10000

/-- The number of steps of one dispatch. -/
def stepLimit (sched : Scheduler) : ℕ :=
  match sched.quantum with
  | none => nonpreemptiveStepCap
  | some k => max 1 k

/-- The answer of `_run_one_step`. -/
inductive StepStatus
  | ran (keepGoing : Bool)
  | blocked
  | stopped
deriving DecidableEq, Repr

/-- The handler around the step runner: a crash fails the agent. -/
def settle (p : Pid) : Except Exn Bool → Prog KOp Bool
  | .ok keepGoing => return keepGoing
  | .error e => do
    failWith p .error ("worker crash: " ++ e.str)
    return false

/-- The second half of `_run_one_step`: the step itself, with one unit in hand. -/
def runHoldingUnit (cfg : KernelConfig) (p : Pid) : Prog KOp StepStatus := do
  let before ← .perform (.readPcb p .fields)
  .perform (.enterBusy p)
  let answer ← runStep cfg p
  let keepGoing ← settle p answer
  .perform .leaveBusy
  let pcb ← .perform (.readPcb p .fields)
  -- the step made no call, so its unit goes back
  if pcb.llmCallsUsed = before.llmCallsUsed then do
    .perform .refund
    return .ran keepGoing
  else return .ran keepGoing

/-- `WorkerPool._run_one_step`. -/
def runOneStep (cfg : KernelConfig) (p : Pid) : Prog KOp StepStatus := do
  if ← .perform .acquire then runHoldingUnit cfg p
  else do
    .perform (.write p (.transition .blocked))
    let got ← .perform .acquire
    -- on shutdown the agent goes back to the queue, and the unit to the quota
    if ← .perform (.stopIsSet .afterBlock) then do
      Prog.when (got = true) (.perform .refund)
      let _ ← .perform (.put p)
      return .stopped
    else if got then runHoldingUnit cfg p
    else do
      let _ ← .perform (.put p)
      return .blocked

/-- The step loop of `_dispatch`.  `none` says that the agent is already back in the
queue; otherwise the answer is `keep_going` after the loop. -/
def stepLoop (cfg : KernelConfig) (p : Pid) : ℕ → StopSite → Bool → Prog KOp (Option Bool)
  | 0, _, keepGoing => return some keepGoing
  | limit + 1, site, keepGoing => do
    -- before the first step `keepGoing` is false, and the agent is not put back
    if ← .perform (.stopIsSet site) then return some keepGoing
    else match ← runOneStep cfg p with
      | .blocked => return none
      | .stopped => return none
      | .ran keepGoing => do
        let pcb ← .perform (.readPcb p .terminal)
        if pcb.isTerminal || !keepGoing then return some keepGoing
        else stepLoop cfg p limit .laterStep keepGoing

/-- `MessageBus.recv`. -/
def recv (p : Pid) : Prog KOp (Option Message) := do
  let box ← .perform (.mailbox p)
  .perform (.mailboxGet box)

/-- `MessageBus.send`. -/
def send (target : Pid) (m : Message) : Prog KOp Bool := do
  let box ← .perform (.mailbox target)
  .perform (.mailboxPut box m)

/-- The forwarding of a result in `_dispatch`. -/
def forwardResult (cfg : KernelConfig) (p : Pid) : Prog KOp Unit := do
  let pcb ← .perform (.readPcb p .fields)
  match pcb.pipeTo with
  | none => return
  | some target =>
    if pcb.state = .done ∧ cfg.hasBus = true then do
      let now ← .perform .now
      let _ ← send target { fromPid := p, content := pcb.result.getD "", ts := now }
      return
    else return

/-- The operations on the message bus. -/
def Mails : Prog.Class KOp
  | _, .now | _, .mailbox _ | _, .mailboxGet _ | _, .mailboxPut _ _ => True
  | _, _ => False

/-- Those and the looks at the fields of `p`. -/
def Forwards (p : Pid) : Prog.Class KOp
  | _, .readPcb q .fields => q = p
  | _, o => Mails o

lemma only_recv {p : Pid} : (recv p).Only Mails :=
  Prog.Only.step trivial fun _ => Prog.only_perform trivial

lemma only_send (target : Pid) (m : Message) : (send target m).Only Mails :=
  Prog.Only.step trivial fun _ => Prog.only_perform trivial

lemma Mails.forwards {p : Pid} {β : Type} {o : KOp β} (ho : Mails o) : Forwards p o := by
  cases o with
  | readPcb q look => exact ho.elim
  | _ => exact ho

/-- The forwarding of a result looks at the agent and uses the bus. -/
lemma only_forwardResult {cfg : KernelConfig} {p : Pid} :
    (forwardResult cfg p).Only (Forwards p) := by
  refine Prog.Only.step rfl fun pcb => ?_
  split
  · trivial
  · split
    · refine Prog.Only.step trivial fun now => Prog.Only.bind ?_ fun _ => trivial
      exact (only_send _ _).mono fun _ ho => ho.forwards
    · trivial

/-- The quantum of `_dispatch` and what follows it. -/
def runQuantum (cfg : KernelConfig) (p : Pid) : Prog KOp Unit := do
  match ← stepLoop cfg p (stepLimit cfg.scheduler) .firstStep false with
  | none => return
  | some keepGoing => do
    forwardResult cfg p
    let pcb ← .perform (.readPcb p .terminal)
    if keepGoing && !pcb.isTerminal then do
      let _ ← .perform (.put p)
      return
    else return

/-- `WorkerPool._repark_waiting`. -/
def reparkWaiting (cfg : KernelConfig) (p : Pid) : Prog KOp Unit := do
  let now ← .perform .now
  let pcb ← .perform (.readPcb p .fields)
  let since := pcb.waitingSince.getD now
  .perform (.write p (.waitingSince (some since)))
  let waited := now - since
  if cfg.inputDeadlineS.getD pcb.timeoutS ≤ waited then
    failWith p .error
      s!"input never arrived from PID {pcb.inputFrom.getD 0} after {Text.fixed 1 waited}s"
  else do
    .perform (.write p (.transition .waiting))
    let _ ← .perform (.put p)
    return

/-- `WorkerPool._dispatch`. -/
def dispatch (cfg : KernelConfig) (p : Pid) : Prog KOp Unit := do
  let pcb ← .perform (.readPcb p .terminal)
  if pcb.isTerminal then return
  else if pcb.inputFrom.isSome && needsInput pcb.prompt then
    if !cfg.hasBus then failWith p .error "input_from set but kernel has no message bus"
    else do
      match ← recv p with
      | none => reparkWaiting cfg p
      | some m => do
        .perform (.write p (.prompt (resolveInputPlaceholder pcb.prompt m)))
        .perform (.write p (.waitingSince none))
        runQuantum cfg p
  else runQuantum cfg p

/-- One turn of `WorkerPool._loop`; the answer says whether the loop goes on. -/
def loopBody (cfg : KernelConfig) : Prog KOp Bool := do
  if ← .perform (.stopIsSet .loopHead) then return false
  else if ← .perform .waitNonempty then do
    match ← .perform .pickNext with
    | none => return true
    | some p => do
      dispatch cfg p
      .perform .taskDone
      return true
  else return true

end Pool

end Gcos
