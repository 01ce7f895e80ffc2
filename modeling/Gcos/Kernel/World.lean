import Gcos.Lib.Prog
import Gcos.Kernel.Quota
import Gcos.Kernel.Scheduler
import Gcos.Ipc.MessageBus
import Mathlib.Data.List.Sort

/-!
# The kernel's state and its atomic operations

The objects that the threads of one kernel share (process table, control blocks, ready
queue, quota, message bus, stop flag, swap directory), the operations that the source
performs on them in one locked or otherwise indivisible step (`KOp`), and the meaning of
these operations (`World.exec`).  The code of the kernel is written over `KOp` in the
modules that follow.

What comes from outside is read from oracles (`Outside`): the clock, the answers of the
LLM client and of the sandbox, failures of the swap file system, and whether an idle
worker is woken up.  The text functions that the executor calls and that only matter
through their answers (case mapping, `repr`, the policy gate, the extraction of code,
the calculator) are the fields of `Host`.

The world also carries the history that statements about it need: what every thread has
in hand (`Local`), which agents were enqueued by `spawn`, and how many calls returned.
-/

namespace Gcos

open Lib

/-! ### Values -/

/-- An exception, as far as the handlers tell them apart. -/
inductive Exn
  | timeout (msg : String)
  | other (cls msg : String)
deriving DecidableEq, Repr

/-- `str(e)`. -/
def Exn.str : Exn → String
  | timeout msg => msg
  | other _ msg => msg

/-- `ChatResult`. -/
structure ChatResult where
  content : String
  promptTokens : ℤ := 0
  completionTokens : ℤ := 0
  totalTokens : ℤ := 0
deriving DecidableEq, Repr

/-- One entry of the message list of a chat request. -/
structure ChatMessage where
  role : Role
  content : String
deriving DecidableEq, Repr

/-- The arguments of `client.chat`. -/
structure ChatRequest where
  messages : List ChatMessage
  maxTokens : ℤ
  timeout : Time
deriving DecidableEq, Repr

/-- `GateResult` of a denial: the reason, the matched text and the rule. -/
structure Denial where
  reason : String
  matched : String
  rule : String
deriving DecidableEq, Repr

/-- `SandboxResult`. -/
structure SandboxResult where
  stdout : String
  stderr : String
  exitCode : ℤ
  durationS : ℚ
  killedByTimeout : Bool := false
  runner : String := ""
deriving DecidableEq, Repr

namespace SandboxResult

/-- `SandboxResult.ok`. -/
def ok (r : SandboxResult) : Bool := r.exitCode == 0 && !r.killedByTimeout

/-- `SandboxResult.short_summary`. -/
def shortSummary (r : SandboxResult) : String :=
  if r.killedByTimeout then s!"[{r.runner}] TIMEOUT after {Text.fixed 1 r.durationS}s"
  else
    let tag := if r.ok then "OK" else s!"EXIT {r.exitCode}"
    s!"[{r.runner}] {tag} in {Text.fixed 2 r.durationS}s"

end SandboxResult

/-- An eviction policy with its parameters.  `metered` says that a summarize policy was
given the kernel's quota. -/
inductive Policy
  | lru (minKeep : ℤ)
  | summarize (batchSize : ℤ) (metered : Bool) (maxSummaryTokens : ℤ)
  | swap (batchSize minKeep : ℤ)
deriving DecidableEq, Repr

/-- `ContextPager`. -/
structure ContextPager where
  budget : ℤ := 4096
  policies : List Policy := []
deriving DecidableEq, Repr

/-- Text functions that matter only through their answers. -/
structure Host where
  upper : String → String
  lower : String → String
  repr : String → String
  safeCalc : String → String
  scanPrompt : String → Option Denial
  scanCode : String → Option Denial
  extractPython : String → Option String

/-- What a kernel and its pool are configured with. -/
structure KernelConfig where
  scheduler : Scheduler := .fcfs
  defaultQuota : ℤ := 10
  defaultTimeout : Time := 30
  hasBus : Bool := true
  inputDeadlineS : Option Time := none
  pager : ContextPager
  host : Host

/-- What the outside world does: the `n`-th reading of the clock, the outcome of the
`n`-th chat call, and so on.  A write to the swap directory that fails also says whether
the file had been opened. -/
structure Outside where
  clock : ℕ → Time
  chat : ℕ → Except Exn ChatResult
  sandbox : ℕ → Except Exn SandboxResult
  swapWrite : ℕ → Option (Exn × Bool)
  wake : ℕ → Bool

/-- A host whose text functions do as little as possible. -/
def Host.inert : Host where
  upper := id
  lower := id
  repr := id
  safeCalc := id
  scanPrompt := fun _ => none
  scanCode := fun _ => none
  extractPython := fun _ => none

/-- Surroundings in which time stands still and every call of the client returns. -/
def Outside.calm (reply : ChatResult) : Outside where
  clock := fun _ => 0
  chat := fun _ => .ok reply
  sandbox := fun _ => .error (.other "RuntimeError" "no sandbox")
  swapWrite := fun _ => none
  wake := fun _ => false

/-- The arguments of `Kernel.spawn`. -/
structure SpawnArgs where
  prompt : String
  name : String := "anon"
  priority : ℤ := 5
  timeoutS : Option Time := none
  quota : Option ℤ := none
  capability : Option CapabilitySet := none
  parentPid : Option Pid := none
  pipeTo : Option Pid := none
  inputFrom : Option Pid := none
deriving DecidableEq, Repr

/-! ### Writing to a control block -/

/-- A context page before it is stamped with the time of its construction. -/
structure PageDraft where
  role : Role
  content : String
  tokens : ℤ := 0
  pinned : Bool := false
  summarized : Bool := false
deriving DecidableEq, Repr

/-- `ContextPage(…)` at time `now`. -/
def PageDraft.page (d : PageDraft) (now : Time) : ContextPage where
  role := d.role
  content := d.content
  tokens := d.tokens
  lastAccess := now
  pinned := d.pinned
  summarized := d.summarized

/-- The assignments to a control block in the thread backend. -/
inductive Write
  | transition (newState : AgentState)
  | error (msg : String)
  | result (text : String)
  | prompt (text : String)
  | waitingSince (since : Option Time)
  | addChild (child : Pid)
  | countCall (tokens : ℤ)
  | removePage (page : ContextPage)
  | insertPage (at_ : ℕ) (page : PageDraft)
  | appendPage (page : PageDraft)
  | touchPages
  | countStep
  | observe (text : String)
deriving DecidableEq, Repr

namespace Write

/-- The effect of a write.  `clock` are the readings of the clock from now on. -/
def apply (clock : ℕ → Time) (pcb : AgentControlBlock) : Write → AgentControlBlock
  | transition newState => pcb.transition newState (clock 0)
  | error msg => { pcb with error := some msg }
  | result text => { pcb with result := some text }
  | prompt text => { pcb with prompt := text }
  | waitingSince since => { pcb with waitingSince := since }
  | addChild child => { pcb with children := pcb.children ++ [child] }
  | countCall tokens =>
    { pcb with
      quotaRemaining := pcb.quotaRemaining - 1
      llmCallsUsed := pcb.llmCallsUsed + 1
      tokensUsed := pcb.tokensUsed + tokens }
  | removePage page => { pcb with contextPages := pcb.contextPages.erase page }
  | insertPage i page =>
    { pcb with
      contextPages :=
        pcb.contextPages.insertIdx (min i pcb.contextPages.length) (page.page (clock 0)) }
  | appendPage page => { pcb with contextPages := pcb.contextPages ++ [page.page (clock 0)] }
  | touchPages =>
    { pcb with
      contextPages := pcb.contextPages.mapIdx fun i page => { page with lastAccess := clock i } }
  | countStep => { pcb with react := { pcb.react with step := pcb.react.step + 1 } }
  | observe text =>
    { pcb with react := { pcb.react with observations := pcb.react.observations ++ [text] } }

/-- How far a write moves the clock.  One reading is set aside for every write that may
take one. -/
def ticks (pcb : AgentControlBlock) : Write → ℕ
  | touchPages => pcb.contextPages.length
  | _ => 1

variable (clock : ℕ → Time) (pcb : AgentControlBlock) (w : Write)

/-- Only a transition can finalize a block, and nothing revives one. -/
lemma isTerminal_apply :
    (w.apply clock pcb).isTerminal = true ↔
      pcb.isTerminal = true ∨ ∃ st, w = transition st ∧ st.isTerminal = true := by
  cases w with
  | transition st => simp [apply]
  | _ => simp [apply, AgentControlBlock.isTerminal]

/-- The writes that count a call. -/
def countsCall : Write → Bool
  | countCall _ => true
  | _ => false

/-- The writes of a worker that only concern the contents of its agent. -/
def isPlain : Write → Bool
  | transition _ | countCall _ | addChild _ => false
  | _ => true

lemma llmCallsUsed_apply :
    (w.apply clock pcb).llmCallsUsed = pcb.llmCallsUsed + if w.countsCall then 1 else 0 := by
  cases w <;> simp [apply, countsCall]

end Write

/-! ### Operations -/

/-- Where the stop flag is read. -/
inductive StopSite
  | loopHead | firstStep | laterStep | afterBlock
deriving DecidableEq, Repr

/-- Why a chat call is made: for a step of the agent itself, or to summarize its pages. -/
inductive ChatPurpose
  | step
  | summarize (metered : Bool)
deriving DecidableEq, Repr

/-- What the code wants to know of a block that it reads: some of its fields, whether the
agent has ended (`is_terminal()`), or whether it is a `ZOMBIE`. -/
inductive Look
  | fields | terminal | zombie
deriving DecidableEq, Repr

/-- The atomic operations of the kernel's code. -/
inductive KOp : Type → Type
  | now : KOp Time
  | stopIsSet (site : StopSite) : KOp Bool
  | setStop : KOp Unit
  | readPcb (p : Pid) (look : Look) : KOp AgentControlBlock
  | write (p : Pid) (w : Write) : KOp Unit
  | newPcb (args : SpawnArgs) : KOp Pid
  | tableAdd (p : Pid) : KOp Bool
  | tableHas (p : Pid) : KOp Bool
  | tablePids : KOp (List Pid)
  | tableRemove (p : Pid) : KOp Unit
  | waitNonempty : KOp Bool
  | pickNext : KOp (Option Pid)
  | put (p : Pid) : KOp Bool
  | popQueued (p : Pid) : KOp Bool
  | taskDone : KOp Unit
  | enterBusy (p : Pid) : KOp Unit
  | leaveBusy : KOp Unit
  | acquire : KOp Bool
  | refund : KOp Unit
  | topup (n : ℤ) : KOp Unit
  | mailbox (p : Pid) : KOp BoxId
  | mailboxGet (box : BoxId) : KOp (Option Message)
  | mailboxPut (box : BoxId) (m : Message) : KOp Bool
  | dropMailbox (p : Pid) : KOp Unit
  | mailboxPids : KOp (List Pid)
  | chat (purpose : ChatPurpose) (request : ChatRequest) : KOp (Except Exn ChatResult)
  | swapOut (p : Pid) (pages : List ContextPage) : KOp (Except Exn Unit)
  | runPython (code : String) (timeout : Time) (priority : ℤ) : KOp (Except Exn SandboxResult)

/-! ### The world -/

/-- The threads of a kernel with `n` workers: the workers and the callers of its public
methods. -/
inductive Tid (n : ℕ)
  | worker (i : Fin n)
  | client (k : ℕ)
deriving DecidableEq, Repr

/-- The worker of a pool of one is worker `0`. -/
instance Tid.neZero_one : NeZero 1 := ⟨Nat.one_ne_zero⟩

/-- Whether a thread is a worker. -/
def Tid.isWorker {n : ℕ} : Tid n → Bool
  | worker _ => true
  | client _ => false

/-- What a thread has in hand (history). -/
structure Local where
  /-- The agent that was picked and not yet put back or finished with. -/
  held : Option Pid := none
  /-- Between a successful `pick_next` and its `task_done`. -/
  flying : Bool := false
  /-- The agent whose step is being run. -/
  running : Option Pid := none
  /-- Quota units acquired and neither refunded nor used up by a call. -/
  units : ℕ := 0
  /-- A call of the agent's step has returned and is not counted yet. -/
  replied : Bool := false
  /-- The agent that is being spawned and not yet enqueued. -/
  fresh : Option Pid := none
deriving DecidableEq, Repr

/-- A file of the swap directory: the directory of its pid, the time stamp that is its
name, and the pages in it, or `none` when the write broke off. -/
structure SwapFile where
  pid : Pid
  stamp : String
  pages : Option (List ContextPage)
deriving DecidableEq, Repr

/-- Writing a file: one of the same name is overwritten. -/
def SwapFile.writeTo (file : SwapFile) (dir : List SwapFile) : List SwapFile :=
  dir.filter (fun f => ¬(f.pid = file.pid ∧ f.stamp = file.stamp)) ++ [file]

/-- The state of a kernel with `n` workers. -/
structure World (n : ℕ) where
  nextPid : ℕ := 1
  pcbs : Pid → AgentControlBlock
  table : List Pid := []
  queue : ReadyQueue := {}
  quota : Quota
  bus : MessageBus := {}
  stop : Bool := false
  busy : ℤ := 0
  swapDir : List SwapFile := []
  /-- How often each oracle was asked. -/
  ticks : ℕ := 0
  chats : ℕ := 0
  sandboxes : ℕ := 0
  swaps : ℕ := 0
  wakes : ℕ := 0
  /-- What every thread has in hand. -/
  loc : Tid n → Local := fun _ => {}
  /-- The agents that `spawn` has put into the queue. -/
  enqueued : List Pid := []
  /-- The chat calls of steps that returned. -/
  replies : ℕ := 0
  /-- The summarize calls that returned. -/
  summaries : ℕ := 0

namespace World

variable {n : ℕ}

/-- The readings of the clock from now on. -/
def clockFrom (out : Outside) (w : World n) : ℕ → Time := fun i => out.clock (w.ticks + i)

/-- Record what thread `t` now has in hand. -/
def note (w : World n) (t : Tid n) (f : Local → Local) : World n :=
  { w with loc := Function.update w.loc t (f (w.loc t)) }

/-- The block that `spawn` constructs. -/
def newBlock (cfg : KernelConfig) (args : SpawnArgs) (pid : Pid) (now : Time) :
    AgentControlBlock where
  pid := pid
  name := args.name
  prompt := args.prompt
  priority := args.priority
  timeoutS := args.timeoutS.getD cfg.defaultTimeout
  quotaRemaining := args.quota.getD cfg.defaultQuota
  capability := args.capability.getD .defaultUser
  parentPid := args.parentPid
  pipeTo := args.pipeTo
  inputFrom := args.inputFrom
  createdAt := now

/-- `ReadyQueue.put`, which has the lock of the queue from its first line to its last: one
step for all who take that lock. -/
def put (out : Outside) (w : World n) (t : Tid n) (p : Pid) : Bool × World n :=
  -- a terminal agent is refused, so it can never come back to the queue
  if (w.pcbs p).isTerminal then (false, w.note t fun l => { l with fresh := none })
  else
    (true,
      { w with
        pcbs := Function.update w.pcbs p ((w.pcbs p).transition .ready (out.clock w.ticks))
        queue := { w.queue with q := w.queue.q ++ [p] }
        ticks := w.ticks + 1
        enqueued := if (w.loc t).fresh = some p then w.enqueued ++ [p] else w.enqueued }.note t
        fun l => { l with held := none, fresh := none })

/-- What thread `t` is answered, and what becomes of the world. -/
def exec (cfg : KernelConfig) (out : Outside) : Prog.Handler KOp (Tid n) (World n)
  | _, _, .now, w => (out.clock w.ticks, { w with ticks := w.ticks + 1 })
  | _, _, .stopIsSet _, w => (w.stop, w)
  | _, _, .setStop, w => ((), { w with stop := true })
  | _, _, .readPcb p _, w => (w.pcbs p, w)
  | _, t, .write p c, w =>
    let w' : World n :=
      { w with
        pcbs := Function.update w.pcbs p (c.apply (w.clockFrom out) (w.pcbs p))
        ticks := w.ticks + c.ticks (w.pcbs p) }
    match c with
    | .countCall _ =>
      -- counting the call spends the unit that the worker has in hand
      ((), w'.note t fun l => { l with units := l.units - 1, replied := false })
    | _ => ((), w')
  | _, t, .newPcb args, w =>
    let pid : Pid := w.nextPid
    (pid,
      { w with
        nextPid := w.nextPid + 1
        pcbs := Function.update w.pcbs pid (newBlock cfg args pid (out.clock w.ticks))
        ticks := w.ticks + 1 }.note t fun l => { l with fresh := some pid })
  | _, t, .tableAdd p, w =>
    if p ∈ w.table then (false, w.note t fun l => { l with fresh := none })
    else (true, { w with table := w.table ++ [p] })
  | _, _, .tableHas p, w => (decide (p ∈ w.table), w)
  | _, _, .tablePids, w => (w.table.insertionSort (· ≤ ·), w)
  | _, _, .tableRemove p, w => ((), { w with table := w.table.erase p })
  | _, _, .waitNonempty, w =>
    if w.queue.q = [] then (out.wake w.wakes, { w with wakes := w.wakes + 1 }) else (true, w)
  | _, t, .pickNext, w =>
    match cfg.scheduler.pickNext w.pcbs (out.clock w.ticks) w.queue with
    | (none, _) => (none, { w with ticks := w.ticks + 1 })
    | (some p, queue) =>
      (some p,
        -- the agent is in flight from here until `taskDone`
        { w with queue := queue, ticks := w.ticks + 1 }.note t fun l =>
          { l with held := some p, flying := true })
  | _, t, .put p, w => w.put out t p
  | _, _, .popQueued p, w => ((w.queue.pop p).1, { w with queue := (w.queue.pop p).2 })
  | _, t, .taskDone, w =>
    ((), { w with queue := w.queue.taskDone }.note t fun l =>
      { l with held := none, flying := false })
  | _, t, .enterBusy p, w =>
    ((), { w with busy := w.busy + 1 }.note t fun l => { l with running := some p })
  | _, t, .leaveBusy, w =>
    ((), { w with busy := w.busy - 1 }.note t fun l => { l with running := none })
  | _, t, .acquire, w =>
    match w.quota.acquire 1 with
    | (false, _) => (false, w)
    | (true, quota) =>
      (true, { w with quota := quota }.note t fun l => { l with units := l.units + 1 })
  | _, t, .refund, w =>
    ((), { w with quota := w.quota.refund 1 }.note t fun l => { l with units := l.units - 1 })
  | _, _, .topup k, w => ((), { w with quota := w.quota.topup k })
  | _, _, .mailbox p, w => ((w.bus.mailbox p).1, { w with bus := (w.bus.mailbox p).2 })
  | _, _, .mailboxGet box, w => ((w.bus.get box).1, { w with bus := (w.bus.get box).2 })
  | _, _, .mailboxPut box m, w =>
    ((w.bus.putNowait box m).1, { w with bus := (w.bus.putNowait box m).2 })
  | _, _, .dropMailbox p, w => ((), { w with bus := w.bus.dropMailbox p })
  | _, _, .mailboxPids, w => (w.bus.pids, w)
  | _, t, .chat purpose _, w =>
    let w' : World n := { w with chats := w.chats + 1 }
    -- the reply of a step is counted later, by `countCall`; a summary is charged at once
    match out.chat w.chats, purpose with
    | .error e, _ => (.error e, w')
    | .ok r, .step =>
      (.ok r, { w' with replies := w.replies + 1 }.note t fun l => { l with replied := true })
    | .ok r, .summarize true =>
      (.ok r, { w' with summaries := w.summaries + 1 }.note t fun l =>
        { l with units := l.units - 1 })
    | .ok r, .summarize false => (.ok r, { w' with summaries := w.summaries + 1 })
  | _, _, .swapOut p pages, w =>
    let w' : World n := { w with swaps := w.swaps + 1, ticks := w.ticks + 1 }
    let file (content : Option (List ContextPage)) : SwapFile :=
      { pid := p, stamp := Text.fixed 6 (out.clock w.ticks), pages := content }
    match out.swapWrite w.swaps with
    | some (e, false) => (.error e, w')
    -- the file was opened, so it stays behind without its pages
    | some (e, true) => (.error e, { w' with swapDir := (file none).writeTo w.swapDir })
    | none => (.ok (), { w' with swapDir := (file (some pages)).writeTo w.swapDir })
  | _, _, .runPython _ _ _, w =>
    (out.sandbox w.sandboxes, { w with sandboxes := w.sandboxes + 1 })

/-- What a `put` does, by its answer. -/
lemma exec_put (cfg : KernelConfig) (out : Outside) (t : Tid n) (w : World n) (p : Pid) :
    ((w.pcbs p).isTerminal = true ∧ (exec cfg out t (.put p) w).1 = false ∧
      (exec cfg out t (.put p) w).2.pcbs = w.pcbs ∧
      (exec cfg out t (.put p) w).2.queue.q = w.queue.q ∧
      (exec cfg out t (.put p) w).2.enqueued = w.enqueued) ∨
    ((w.pcbs p).isTerminal = false ∧ (exec cfg out t (.put p) w).1 = true ∧
      (exec cfg out t (.put p) w).2.pcbs =
        Function.update w.pcbs p ((w.pcbs p).transition .ready (out.clock w.ticks)) ∧
      (exec cfg out t (.put p) w).2.queue.q = w.queue.q ++ [p] ∧
      (exec cfg out t (.put p) w).2.enqueued =
        if (w.loc t).fresh = some p then w.enqueued ++ [p] else w.enqueued) := by
  cases hdead : (w.pcbs p).isTerminal with
  | true =>
    left
    simp [exec, put, hdead, note]
  | false =>
    right
    simp [exec, put, hdead, note]

/-! ### Running alone -/

/-- What a program of thread `t` answers and leaves, when nobody else moves. -/
def runs {α : Type} (cfg : KernelConfig) (out : Outside) (t : Tid n) (prog : Prog KOp α)
    (w : World n) : α × World n :=
  Prog.alone (exec cfg out) t prog w

section

variable {α β : Type} (cfg : KernelConfig) (out : Outside) (t : Tid n)

@[simp] lemma runs_ret (a : α) (w : World n) : runs cfg out t (.ret a) w = (a, w) := rfl

@[simp] lemma runs_op (o : KOp β) (k : β → Prog KOp α) (w : World n) :
    runs cfg out t (.op o k) w =
      runs cfg out t (k (exec cfg out t o w).1) (exec cfg out t o w).2 := rfl

@[simp] lemma runs_perform (o : KOp β) (w : World n) :
    runs cfg out t (.perform o) w = exec cfg out t o w := rfl

@[simp] lemma runs_bind (prog : Prog KOp α) (f : α → Prog KOp β) (w : World n) :
    runs cfg out t (prog >>= f) w =
      runs cfg out t (f (runs cfg out t prog w).1) (runs cfg out t prog w).2 :=
  Prog.alone_bind ..

end

end World

end Gcos
