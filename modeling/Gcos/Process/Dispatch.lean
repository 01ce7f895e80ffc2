import Gcos.Lib.Ensures
import Gcos.Pool.Worker

/-!
# The process backend

`gcos/kernel/process_pool.py`: every dispatch runs the agent to completion in a forked
child process.  The parent reserves quota units for the agent, forks, reads what the child
reports over a pipe, and applies it to its own control block.

The child works on a copy of the memory of its parent, with its own client, and nobody
interferes with it, so its run is a run alone (`report`).  What it meets (its client, its
clock, the sandbox, whether its report gets through the pipe) is `Child`.  The registry of
the children and the cgroups are left out: they decide who sends which signal and how much
CPU a child gets, and what that can lead to is in `Child.pipe`.
-/

namespace Gcos

open Lib Exec Pool

namespace Process

/-- `_CHILD_STEP_CAP`. -/
def childStepCap : ℕ := 64

/-- What becomes of the report of a child. -/
inductive Pipe
  /-- It arrives. -/
  | whole
  /-- The child is gone before it has written anything. -/
  | empty
  /-- The child is gone in the middle of writing: what arrives is not JSON. -/
  | torn
deriving DecidableEq, Repr

/-- What a child meets: whether `client_factory` raises, the world outside, and the pipe. -/
structure Child where
  factory : Option Exn := none
  outside : Outside
  pipe : Pipe := .whole

/-- The report of a child: the state and `_RESULT_FIELDS`. -/
structure Payload where
  state : AgentState
  result : Option String
  error : Option String
  tokensUsed : ℤ
  llmCallsUsed : ℤ
deriving DecidableEq, Repr

/-- What the parent reads from the pipe. -/
inductive Raw
  | empty
  | corrupt
  | json (payload : Payload)
deriving DecidableEq, Repr

/-- The assignments to a control block that the process backend makes besides those of the
thread backend. -/
inductive Assign
  | quotaRemaining (units : ℤ)
  | state (st : AgentState)
  | tokensUsed (tokens : ℤ)
  | llmCallsUsed (calls : ℤ)
  | finishedAt (time : Time)
deriving DecidableEq, Repr

/-- The effect of an assignment. -/
def Assign.apply (pcb : AgentControlBlock) : Assign → AgentControlBlock
  | quotaRemaining units => { pcb with quotaRemaining := units }
  | state st => { pcb with state := st }
  | tokensUsed tokens => { pcb with tokensUsed := tokens }
  | llmCallsUsed calls => { pcb with llmCallsUsed := calls }
  | finishedAt time => { pcb with finishedAt := some time }

/-- The operations of the process backend that the thread backend does not have.
`runChild` is the fork and the reading of the pipe until its end. -/
inductive ChildOp : Type → Type
  | acquireUpTo (units : ℤ) : ChildOp ℤ
  | refund (units : ℤ) : ChildOp Unit
  | assign (p : Pid) (a : Assign) : ChildOp Unit
  | runChild (p : Pid) : ChildOp Raw

/-- The operations of the process backend. -/
abbrev POp (β : Type) : Type := KOp β ⊕ ChildOp β

/-- An operation of the kernel. -/
def kernel {β : Type} (o : KOp β) : Prog POp β := .perform (.inl o)

/-- An operation of the process backend. -/
def proc {β : Type} (o : ChildOp β) : Prog POp β := .perform (.inr o)

/-- A program of the kernel. -/
def plain {α : Type} (prog : Prog KOp α) : Prog POp α := prog.lift Sum.inl

/-! ### The child -/

/-- The step loop of a child. -/
def childLoop (cfg : KernelConfig) (p : Pid) : ℕ → Prog KOp (Except Exn Unit)
  | 0 => return .ok ()
  | safety + 1 => do
    let pcb ← .perform (.readPcb p .terminal)
    if pcb.isTerminal then return .ok ()
    else match ← runStep cfg p with
      | .error e => return .error e
      | .ok keepGoing => if keepGoing then childLoop cfg p safety else return .ok ()

/-- The report of a child that ends in the ordinary way. -/
def payloadOf (pcb : AgentControlBlock) : Payload where
  state := pcb.state
  result := pcb.result
  error := pcb.error
  tokensUsed := pcb.tokensUsed
  llmCallsUsed := pcb.llmCallsUsed

/-- The report of a child that ends with an exception. -/
def crashPayload (e : Exn) (pcb : AgentControlBlock) : Payload :=
  { payloadOf pcb with state := .error, error := some ("child crash: " ++ e.str) }

variable {n : ℕ}

/-- The memory of a child at its start.  The world outside counts its answers anew. -/
def forked (w : World n) : World n := { w with ticks := 0, chats := 0, sandboxes := 0, swaps := 0 }

/-- What a child reports. -/
def report (cfg : KernelConfig) (child : Child) (t : Tid n) (p : Pid) (w : World n) : Payload :=
  match child.factory with
  | some e => crashPayload e (w.pcbs p)
  | none =>
    -- the loop ends with the step cap, a terminal state, or a step that does not go on
    match World.runs cfg child.outside t (childLoop cfg p childStepCap) (forked w) with
    | (.ok (), w') => payloadOf (w'.pcbs p)
    | (.error e, w') => crashPayload e (w'.pcbs p)

/-- What the parent reads. -/
def received (cfg : KernelConfig) (child : Child) (t : Tid n) (p : Pid) (w : World n) : Raw :=
  match child.pipe with
  | .whole => .json (report cfg child t p w)
  | .empty => .empty
  | .torn => .corrupt

/-- What thread `t` is answered, and what becomes of the world. -/
def exec (cfg : KernelConfig) (out : Outside) (child : Child) : Prog.Handler POp (Tid n) (World n)
  | _, t, .inl o, w => World.exec cfg out t o w
  | _, _, .inr (.acquireUpTo units), w =>
    ((w.quota.acquireUpTo units).1, { w with quota := (w.quota.acquireUpTo units).2 })
  | _, _, .inr (.refund units), w => ((), { w with quota := w.quota.refund units })
  | _, _, .inr (.assign p a), w =>
    ((), { w with pcbs := Function.update w.pcbs p (a.apply (w.pcbs p)) })
  | _, t, .inr (.runChild p), w => (received cfg child t p w, w)

/-! ### The parent -/

/-- `if pcb.finished_at is None: pcb.finished_at = time.time()`. -/
def stampFinish (p : Pid) : Prog POp Unit := do
  let pcb ← kernel (.readPcb p .fields)
  if pcb.finishedAt.isSome then return
  else do
    let now ← kernel .now
    proc (.assign p (.finishedAt now))

/-- `if not pcb.is_terminal(): pcb.transition(AgentState.ERROR); pcb.error = msg`. -/
def failUnlessTerminal (p : Pid) (msg : String) : Prog POp Unit := do
  let pcb ← kernel (.readPcb p .terminal)
  if pcb.isTerminal then return
  else plain (failWith p .error msg)

/-- `if payload.get(f) is not None: setattr(pcb, f, payload[f])`, for a field that holds a
text. -/
def takeText (p : Pid) (field : String → Write) : Option String → Prog POp Unit
  | some text => kernel (.write p (field text))
  | none => return

/-- The part of `_apply_result` that takes over a report. -/
def takeOver (p : Pid) (payload : Payload) : Prog POp Unit := do
  takeText p .result payload.result
  takeText p .error payload.error
  proc (.assign p (.tokensUsed payload.tokensUsed))
  proc (.assign p (.llmCallsUsed payload.llmCallsUsed))
  let pcb ← kernel (.readPcb p .terminal)
  -- the test and the assignment are two operations: a kill may come in between
  Prog.when (pcb.isTerminal = false) (proc (.assign p (.state payload.state)))
  stampFinish p

/-- `ProcessWorkerPool._apply_result`. -/
def applyResult (p : Pid) : Raw → Prog POp Bool
  | .empty => do
    failUnlessTerminal p "agent process produced no result (killed?)"
    stampFinish p
    return false
  | .corrupt => do
    -- nothing is stamped here: the transition does that
    failUnlessTerminal p "corrupt result from agent process"
    return false
  | .json payload => do
    takeOver p payload
    return true

/-- The end of `_run_in_process`: the reservation is reconciled. -/
def reconcile (p : Pid) (origQuota reserve callsBefore : ℤ) (completed : Bool) :
    Prog POp Unit := do
  let pcb ← kernel (.readPcb p .fields)
  let made := max 0 (pcb.llmCallsUsed - callsBefore)
  if completed then do
    Prog.when (made < reserve) (proc (.refund (reserve - made)))
    proc (.assign p (.quotaRemaining (max 0 (origQuota - made))))
  -- nothing is known about the calls of a child that did not report
  else proc (.assign p (.quotaRemaining (max 0 (origQuota - reserve))))

/-- The operations with which the parent keeps the books of its agent. -/
def Books (p : Pid) : Prog.Class POp
  | _, .inl (.readPcb q .fields) => q = p
  | _, .inl .now | _, .inr (.refund _) => True
  | _, .inr (.assign _ (.state _)) => False
  | _, .inr (.assign q _) => q = p
  | _, _ => False

/-- Those with which it takes over what the child has reported. -/
def Applies (p : Pid) : Prog.Class POp
  | _, .inl (.readPcb q .terminal) | _, .inl (.write q (.transition .error))
  | _, .inl (.write q (.error _)) | _, .inl (.write q (.result _))
  | _, .inr (.assign q (.state _)) => q = p
  | _, o => Books p o

lemma Books.applies {p : Pid} {β : Type} {o : POp β} (ho : Books p o) : Applies p o := by
  rcases o with o | o
  · cases o with
    | readPcb q look =>
      cases look with
      | fields => exact ho
      | terminal | zombie => exact ho.elim
    | write q c => exact ho.elim
    | _ => exact ho
  · cases o with
    | assign q a =>
      cases a with
      | state st => exact ho.elim
      | _ => exact ho
    | _ => exact ho

lemma only_stampFinish {p : Pid} : (stampFinish p).Only (Books p) := by
  refine Prog.Only.step rfl fun pcb => ?_
  split
  · trivial
  · exact Prog.Only.step trivial fun now => Prog.only_perform rfl

lemma only_reconcile {p : Pid} (origQuota reserve callsBefore : ℤ) (completed : Bool) :
    (reconcile p origQuota reserve callsBefore completed).Only (Books p) := by
  refine Prog.Only.step rfl fun pcb => ?_
  dsimp only
  split
  · exact (Prog.only_when (Prog.only_perform trivial)).bind fun _ => Prog.only_perform rfl
  · exact Prog.only_perform rfl

lemma only_failUnlessTerminal {p : Pid} (msg : String) :
    (failUnlessTerminal p msg).Only (Applies p) := by
  refine Prog.Only.step rfl fun pcb => ?_
  split
  · trivial
  · exact Prog.Only.lift (Prog.Only.step rfl fun _ => Prog.only_perform rfl)

lemma only_takeText {p : Pid} {field : String → Write}
    (hfield : ∀ x, Applies p (.inl (.write p (field x)))) (text : Option String) :
    (takeText p field text).Only (Applies p) := by
  cases text with
  | none => trivial
  | some x => exact Prog.only_perform (hfield x)

/-- **What `_apply_result` performs**, whatever was reported. -/
lemma only_applyResult {p : Pid} (raw : Raw) : (applyResult p raw).Only (Applies p) := by
  have hstamp : (stampFinish p).Only (Applies p) := only_stampFinish.mono fun _ ho => ho.applies
  cases raw with
  | empty => exact (only_failUnlessTerminal _).bind fun _ => hstamp.bind fun _ => trivial
  | corrupt => exact (only_failUnlessTerminal _).bind fun _ => trivial
  | json payload =>
    refine Prog.Only.bind ?_ fun _ => trivial
    have hresult : ∀ x, Applies p (.inl (.write p (.result x))) := fun _ => rfl
    have herror : ∀ x, Applies p (.inl (.write p (.error x))) := fun _ => rfl
    refine (only_takeText hresult _).bind fun _ => (only_takeText herror _).bind fun _ => ?_
    refine Prog.Only.step rfl fun _ => Prog.Only.step rfl fun _ => Prog.Only.step rfl fun pcb => ?_
    exact (Prog.only_when (Prog.only_perform rfl)).bind fun _ => hstamp

/-- How the code of a worker is carried out.  It is written over the operations of the process
backend, and parts of it are programs over the operations `Op`; `ε` is what a program returns
that may raise an exception. -/
structure Setting (Op ε : Type → Type) where
  /-- A part that raises nothing. -/
  part : {α : Type} → Prog POp α → Prog Op α
  /-- The last part. -/
  last : {α : Type} → Prog POp α → Prog Op (ε α)
  /-- `try: prog` with `finally: cleanup`, and what follows if nothing was raised. -/
  tryFinally : {α : Type} → Prog Op (ε Unit) → Prog POp Unit → Prog POp α → Prog Op (ε α)

namespace Setting

variable {Op ε : Type → Type} (s : Setting Op ε)

/-- `ProcessWorkerPool._run_in_process` up to the grant.  What follows it is `supervise`, of the
quota of the agent and of the units that were granted. -/
def runInProcess (p : Pid) (supervise : ℤ → ℤ → Prog Op (ε Unit)) : Prog Op (ε Unit) := do
  let pcb ← s.part (kernel (.readPcb p .fields))
  let reserve ← s.part (proc (.acquireUpTo pcb.quotaRemaining))
  if reserve ≤ 0 ∧ 0 < pcb.quotaRemaining then s.last do
    kernel (.write p (.transition .blocked))
    let _ ← kernel (.put p)
    return
  else supervise pcb.quotaRemaining reserve

/-- The part of `_dispatch` after the input has been resolved. -/
def launch (cfg : KernelConfig) (p : Pid) (run : Prog Op (ε Unit)) : Prog Op (ε Unit) := do
  let pcb ← s.part (kernel (.readPcb p .fields))
  Prog.when (pcb.startedAt = none) (s.part (kernel (.write p (.transition .running))))
  s.part (kernel (.enterBusy p))
  s.tryFinally run (kernel .leaveBusy) (plain (forwardResult cfg p))

/-- `ProcessWorkerPool._dispatch`. -/
def dispatch (cfg : KernelConfig) (p : Pid) (launch : Prog Op (ε Unit)) : Prog Op (ε Unit) := do
  let pcb ← s.part (kernel (.readPcb p .terminal))
  if pcb.isTerminal then s.last (return)
  else if pcb.inputFrom.isSome && needsInput pcb.prompt then
    if !cfg.hasBus then s.last (plain (failWith p .error "input_from set but no message bus"))
    else do
      match ← s.part (plain (recv p)) with
      | none => s.last (plain (reparkWaiting cfg p))
      | some m => do
        s.part (kernel (.write p (.prompt (resolveInputPlaceholder pcb.prompt m))))
        s.part (kernel (.write p (.waitingSince none)))
        launch
  else launch

/-- One turn of `ProcessWorkerPool._loop`.  The answer says whether the loop goes on. -/
def loop (dispatch : Pid → Prog Op (ε Unit)) : Prog Op (ε Bool) := do
  if ← s.part (kernel (.stopIsSet .loopHead)) then s.last (return false)
  else if ← s.part (kernel .waitNonempty) then do
    match ← s.part (kernel .pickNext) with
    | none => s.last (return true)
    | some p => s.tryFinally (dispatch p) (kernel .taskDone) (return true)
  else s.last (return true)

end Setting

/-- Nothing raises an exception. -/
def plainly : Setting POp fun α => α where
  part := fun prog => prog
  last := fun prog => prog
  tryFinally := fun prog cleanup rest => do
    prog
    cleanup
    rest

/-- What follows the grant in `_run_in_process`. -/
def runGranted (p : Pid) (origQuota reserve : ℤ) : Prog POp Unit := do
  proc (.assign p (.quotaRemaining reserve))
  -- the child gets to see what was granted, not what the agent has left
  let before ← kernel (.readPcb p .fields)
  let raw ← proc (.runChild p)
  let completed ← applyResult p raw
  reconcile p origQuota reserve before.llmCallsUsed completed

/-- `ProcessWorkerPool._run_in_process`. -/
def runInProcess (p : Pid) : Prog POp Unit := plainly.runInProcess p (runGranted p)

/-- The part of `_dispatch` after the input has been resolved. -/
def launch (cfg : KernelConfig) (p : Pid) : Prog POp Unit := plainly.launch cfg p (runInProcess p)

/-- `ProcessWorkerPool._dispatch`. -/
def dispatch (cfg : KernelConfig) (p : Pid) : Prog POp Unit := plainly.dispatch cfg p (launch cfg p)

/-! ### The other threads -/

/-- The single moves of `Kernel.kill` and of `reap_descendants` on the agent `p`: the
transition, the error text, and, once the agent is terminal, its removal from the queue
and of its mailbox. -/
inductive KillMove (p : Pid) : World n → World n → Prop
  | zombie (w : World n) (now : Time) :
      KillMove p w
        { w with pcbs := Function.update w.pcbs p ((w.pcbs p).transition .zombie now) }
  | error (w : World n) (root : Option Pid) (hdead : (w.pcbs p).isTerminal = true) :
      KillMove p w
        { w with
          pcbs := Function.update w.pcbs p
            { w.pcbs p with
              error := some
                (match root with
                | none => "killed by user"
                | some root => s!"reaped: killed by user (root={root})") } }
  | pop (w : World n) (hdead : (w.pcbs p).isTerminal = true) :
      KillMove p w { w with queue := (w.queue.pop p).2 }
  | drop (w : World n) (hdead : (w.pcbs p).isTerminal = true) :
      KillMove p w { w with bus := w.bus.dropMailbox p }

/-- Any operation of another thread that leaves the agent `p` to its worker, thread `t`: it
may add a child to the block of the agent, but changes nothing else of it, and the agent
neither enters nor leaves the queue. -/
inductive OtherMove (cfg : KernelConfig) (out : Outside) (t : Tid n) (p : Pid) :
    World n → World n → Prop
  | mk {β : Type} (u : Tid n) (hu : u ≠ t) (child : Child) (o : POp β) (w : World n)
      (hblock : ∃ children,
        (exec cfg out child u o w).2.pcbs p = { w.pcbs p with children := children })
      (hqueue : p ∈ (exec cfg out child u o w).2.queue.q ↔ p ∈ w.queue.q) :
      OtherMove cfg out t p w (exec cfg out child u o w).2

/-- What the other threads may do during a dispatch of `p`: anything that leaves the agent to
its worker, and kills of the agent, if `kills` admits them. -/
def Moves (cfg : KernelConfig) (out : Outside) (t : Tid n) (kills : Prop) (p : Pid)
    (w w' : World n) : Prop :=
  kills ∧ KillMove p w w' ∨ OtherMove cfg out t p w w'

/-- What a dispatch finds of the things that the other threads share with it: whether there
is a message when `recv` looks into the mailbox, and how many units are left when
`acquire_up_to` is called. -/
structure Sight where
  found : Bool
  left : ℤ
deriving DecidableEq, Repr

/-- The operation finds what the dispatch is to find. -/
def Sight.guard (v : Sight) : System.Guard POp (Tid n) (World n)
  | _, _, .inl (.mailboxGet box), w => w.bus.boxes box ≠ [] ↔ v.found = true
  | _, _, .inr (.acquireUpTo _), w => w.quota.remaining = v.left
  | _, _, _, _ => True

/-- A run of a dispatch of `p` by a worker that finds what `v` says.  The other threads move
at any point, and they kill `p` at any point if `kills` admits that. -/
def Dispatches (cfg : KernelConfig) (out : Outside) (child : Child) (t : Tid n) (kills : Prop)
    (v : Sight) (p : Pid) (w w' : World n) : Prop :=
  Prog.Under (exec cfg out child) t (Moves cfg out t kills p) v.guard (dispatch cfg p) w () w'

end Process

end Gcos
