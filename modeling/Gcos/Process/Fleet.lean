import Gcos.Process.Dispatch
import Gcos.Pool.Runs
import Gcos.Lib.Advance

/-!
# The child processes and the threads of the kernel together

`Process.dispatch` takes the fork and the reading of the pipe as one operation.  Here they
are taken apart: the fork, the entry in the registry `_children`, the reading of the pipe
until its end, the reaping.  The children run on their own in between, and a kill consults
the registry and sends a signal.

A child process shares no memory with anybody, so it is given by the memory at the fork and
the number of operations that it has performed since.  The reading of the pipe ends when
the child has closed it: the child is then at its end, and where the schedule has not
brought it there it gets there in this very moment.  A child ends by itself or by a signal.

The same system with the thread backend is that of `Gcos.Pool`, without any children.
-/

namespace Gcos

open Lib Exec Pool

namespace Process

/-! ### Child processes -/

/-- What a child meets: whether `client_factory` raises, and the world outside. -/
structure Offspring where
  factory : Option Exn := none
  outside : Outside

/-- The child of the coarse model whose report arrives. -/
def Offspring.whole (kid : Offspring) : Child where
  factory := kid.factory
  outside := kid.outside

/-- How far a child has come. -/
inductive Phase
  /-- It runs the steps of the agent. -/
  | running
  /-- It has written a part of its report. -/
  | writing
  /-- It has written its complete report. -/
  | reported
  /-- A signal has ended it, in the middle of its report or before. -/
  | dead (torn : Bool)
deriving DecidableEq, Repr

/-- A child process: the agent, the worker that has forked it, the memory at the fork, the
operations that it has performed, whether `SIGKILL` was sent to it, and whether the parent
has waited for it. -/
structure ChildProc (n : ℕ) where
  agent : Pid
  worker : Tid n
  memory : World n
  ops : ℕ := 0
  phase : Phase := .running
  signalled : Bool := false
  reaped : Bool := false

namespace ChildProc

variable {n : ℕ} (cfg : KernelConfig) (kid : Offspring) (c : ChildProc n)

/-- What is left of the loop of the child, and its memory. -/
def progress : Prog KOp (Except Exn Unit) × World n :=
  Prog.advance (World.exec cfg kid.outside) c.worker c.ops (childLoop cfg c.agent childStepCap)
    (forked c.memory)

/-- The child has left its loop, or could not begin it. -/
def atEnd : Bool :=
  match kid.factory, (c.progress cfg kid).1 with
  | some _, _ => true
  | none, .ret _ => true
  | none, .op _ _ => false

/-- The child goes on by one operation. -/
def move : ChildProc n :=
  match c.phase with
  | .running => if c.atEnd cfg kid then { c with phase := .writing } else { c with ops := c.ops + 1 }
  | .writing => { c with phase := .reported }
  | .reported | .dead _ => c

/-- The operations of the child until the end of its loop. -/
def total : ℕ :=
  match kid.factory with
  | some _ => c.ops
  | none =>
    Prog.duration (World.exec cfg kid.outside) c.worker (childLoop cfg c.agent childStepCap)
      (forked c.memory)

/-- The child goes on until it has closed its end of the pipe. -/
def finish : ChildProc n :=
  match c.phase with
  | .running => { c with ops := c.total cfg kid, phase := .reported }
  | .writing => { c with phase := .reported }
  | .reported | .dead _ => c

/-- What the parent reads when the child is at its end. -/
def received : Raw :=
  match c.phase with
  | .reported => .json (report cfg kid.whole c.worker c.agent c.memory)
  | .dead true => .corrupt
  | .running | .writing | .dead false => .empty

/-- `os.kill(cpid, signal.SIGKILL)`, which fails for a child that was reaped. -/
def strike : ChildProc n :=
  if c.reaped then c
  else
    { c with
      signalled := true
      phase :=
        match c.phase with
        | .running => .dead false
        | .writing => .dead true
        | .reported => .reported
        | .dead torn => .dead torn }

/-- The calls of the steps of the agent that have returned in the child. -/
def replies : ℕ := (c.progress cfg kid).2.replies - c.memory.replies

/-- The summarize calls that have returned in the child. -/
def summaries : ℕ := (c.progress cfg kid).2.summaries - c.memory.summaries

end ChildProc

/-! ### The state and the operations -/

/-- The kernel with its child processes, in the order of their forks, and the registry
`_children`. -/
structure Fleet (n : ℕ) where
  world : World n
  procs : List (ChildProc n) := []
  registry : Pid → Option ℕ := fun _ => none

/-- The operations on the child processes. -/
inductive FleetOp : Type → Type
  | fork (p : Pid) : FleetOp ℕ
  | register (p : Pid) (k : ℕ) : FleetOp Unit
  | readAll (k : ℕ) : FleetOp Raw
  | reap (p : Pid) (k : ℕ) : FleetOp Unit
  | lookup (p : Pid) : FleetOp (Option ℕ)
  | signal (k : ℕ) : FleetOp Unit
  | signalAll : FleetOp Unit
  | childMoves (k : ℕ) : FleetOp Unit

/-- The operations of a kernel with child processes. -/
abbrev FOp (β : Type) : Type := POp β ⊕ FleetOp β

/-- An operation of the kernel. -/
def base {β : Type} (o : KOp β) : Prog FOp β := .perform (.inl (.inl o))

/-- An operation on the child processes. -/
def fleet {β : Type} (o : FleetOp β) : Prog FOp β := .perform (.inr o)

/-- A program of the coarse model. -/
def coarse {α : Type} (prog : Prog POp α) : Prog FOp α := prog.lift Sum.inl

/-- A program of the kernel. -/
def native {α : Type} (prog : Prog KOp α) : Prog FOp α := coarse (plain prog)

namespace Fleet

variable {n : ℕ}

/-- Child `k` changes as `f` says. -/
def adjust (f : Fleet n) (k : ℕ) (g : ChildProc n → ChildProc n) : Fleet n :=
  { f with procs := f.procs.modify k g }

/-- The answer of child `k`. -/
def receivedFrom (cfg : KernelConfig) (kids : ℕ → Offspring) (k : ℕ) (f : Fleet n) : Raw :=
  match f.procs[k]? with
  | some c => c.received cfg (kids k)
  | none => .empty

/-- What thread `t` is answered, and what becomes of the kernel and its children. -/
def exec (cfg : KernelConfig) (out : Outside) (kids : ℕ → Offspring) :
    Prog.Handler FOp (Tid n) (Fleet n)
  | _, t, .inl o, f =>
    let r := Process.exec cfg out (kids f.procs.length).whole t o f.world
    (r.1, { f with world := r.2 })
  | _, t, .inr (.fork p), f =>
    (f.procs.length,
      { f with procs := f.procs ++ [{ agent := p, worker := t, memory := f.world }] })
  | _, _, .inr (.register p k), f =>
    ((), { f with registry := Function.update f.registry p (some k) })
  | _, _, .inr (.readAll k), f =>
    let f' := f.adjust k fun c => c.finish cfg (kids k)
    (f'.receivedFrom cfg kids k, f')
  | _, _, .inr (.reap p k), f =>
    -- waiting and forgetting are one step under the lock of the registry
    ((), { f.adjust k (fun c => { c with reaped := true }) with
      registry := Function.update f.registry p none })
  | _, _, .inr (.lookup p), f => (f.registry p, f)
  | _, _, .inr (.signal k), f => ((), f.adjust k ChildProc.strike)
  | _, _, .inr .signalAll, f =>
    ((), { f with procs := f.procs.mapIdx fun k c =>
      if f.registry c.agent = some k then c.strike else c })
  | _, _, .inr (.childMoves k), f => ((), f.adjust k fun c => c.move cfg (kids k))

end Fleet

/-! ### The parent -/

/-- The child of `_run_in_process` from its fork until it is reaped. -/
def supervise (p : Pid) : Prog FOp Bool := do
  let k ← fleet (.fork p)
  fleet (.register p k)
  let raw ← fleet (.readAll k)
  let completed ← coarse (applyResult p raw)
  fleet (.reap p k)
  return completed

/-- The code of a worker, over the child processes. -/
def forking : Setting FOp fun α => α where
  part := coarse
  last := coarse
  tryFinally := fun prog cleanup rest => do
    prog
    coarse cleanup
    coarse rest

/-- What follows the grant in `_run_in_process`. -/
def runGrantedForked (p : Pid) (origQuota reserve : ℤ) : Prog FOp Unit := do
  coarse (proc (.assign p (.quotaRemaining reserve)))
  let before ← base (.readPcb p .fields)
  let completed ← supervise p
  coarse (reconcile p origQuota reserve before.llmCallsUsed completed)

/-- `ProcessWorkerPool._run_in_process`. -/
def runForked (p : Pid) : Prog FOp Unit := forking.runInProcess p (runGrantedForked p)

/-- The part of `_dispatch` after the input has been resolved. -/
def launchForked (cfg : KernelConfig) (p : Pid) : Prog FOp Unit :=
  forking.launch cfg p (runForked p)

/-- `ProcessWorkerPool._dispatch`. -/
def dispatchForked (cfg : KernelConfig) (p : Pid) : Prog FOp Unit :=
  forking.dispatch cfg p (launchForked cfg p)

/-- One turn of `ProcessWorkerPool._loop`. -/
def loopForked (cfg : KernelConfig) : Prog FOp Bool := forking.loop (dispatchForked cfg)

/-! ### Kills and the shutdown -/

/-- `ProcessWorkerPool.kill_running`. -/
def killRunning (p : Pid) : Prog FOp Unit := do
  match ← fleet (.lookup p) with
  | none => return
  -- the lock of the registry is released before the signal is sent
  | some k => fleet (.signal k)

/-- `self.pool.kill_running(vpid)` for every victim. -/
def killAllRunning : List Pid → Prog FOp Unit
  | [] => return
  | p :: rest => do
    killRunning p
    killAllRunning rest

/-- `Kernel.kill` with the process backend. -/
def killForked (fuel : ℕ) (pid : Pid) : Prog FOp (Option Bool) := do
  if ← base (.tableHas pid) then do
    let pcb ← base (.readPcb pid .terminal)
    if pcb.isTerminal then return some false
    else do
      match ← native (Kernel.descendantsOf fuel pid) with
      | none => return none
      | some victims => do
        base (.write pid (.transition .zombie))
        base (.write pid (.error "killed by user"))
        -- the descendants are signalled here and finalized only below
        killAllRunning (pid :: victims)
        let _ ← base (.popQueued pid)
        match ← native (Kernel.descendantsOf fuel pid) with
        | none => return none
        | some doomed => do
          native (Kernel.reapAll pid "killed by user" doomed)
          native (Kernel.dropMailboxes (pid :: victims))
          return some true
  else return some false

/-- `Kernel.shutdown` with the process backend. -/
def shutdownForked : Prog FOp Unit := do
  base .setStop
  fleet .signalAll
  let pids ← base .mailboxPids
  native (Kernel.dropMailboxes pids)

/-! ### The system -/

/-- `executor_backend`. -/
inductive Backend
  | thread | process
deriving DecidableEq, Repr

/-- What the callers of the kernel and the operating system do: a call, or letting a child
process run for an operation. -/
inductive FleetCall
  | kernel (c : KernelCall)
  | childMoves (k : ℕ)
deriving DecidableEq, Repr

/-- The code of a call. -/
def FleetCall.code (backend : Backend) : FleetCall → Prog FOp Unit
  | .childMoves k => fleet (.childMoves k)
  | .kernel c =>
    match backend, c with
    | .process, .kill fuel pid => do
      let _ ← killForked fuel pid
      return
    | .process, .shutdown => shutdownForked
    | _, c => native c.code

/-- The threads of a kernel with `n` workers, and its child processes. -/
def fleetSystem (n : ℕ) (backend : Backend) (cfg : KernelConfig) (out : Outside)
    (kids : ℕ → Offspring) : System FOp (Tid n) (Fleet n) FleetCall where
  exec := Fleet.exec cfg out kids
  body
    | .worker _ =>
      match backend with
      | .thread => native (loopBody cfg)
      | .process => loopForked cfg
    | .client _ => .ret false
  serves := fun t _ => !t.isWorker
  entry := fun c => do
    c.code backend
    return false

/-- A kernel that has just been started. -/
def launchFleet (n : ℕ) (quota : Quota) : Lib.Pool FOp (Tid n) (Fleet n) :=
  { shared := { world := freshWorld n quota }, code := fun t => .ret t.isWorker }

end Process

end Gcos
