import Gcos.Kernel.World

/-!
# The calls of the kernel

`gcos/kernel/kernel.py` and `gcos/kernel/process_tree.py`: what the callers of a kernel
can do while its workers run.  The traversal of the process tree is a `while` loop over a
stack without a record of what was visited; its number of iterations is bounded by a fuel
argument, and `none` says that the fuel did not suffice.
-/

namespace Gcos

open Lib

namespace Kernel

/-! ### The process tree -/

/-- The entries of `cs` that are in the table. -/
def present : List Pid → Prog KOp (List Pid)
  | [] => return []
  | c :: cs => do
    let here ← .perform (.tableHas c)
    let rest ← present cs
    return if here then c :: rest else rest

/-- `ProcessTree.children_of`. -/
def childrenOf (pid : Pid) : Prog KOp (List Pid) := do
  if ← .perform (.tableHas pid) then do
    let parent ← .perform (.readPcb pid .fields)
    present parent.children
  else return []

/-- The loop of `descendants_of`.  The top of the stack is the head of the list. -/
def descendantsLoop : ℕ → List Pid → List Pid → Prog KOp (Option (List Pid))
  | _, [], out => return some out
  | 0, _ :: _, _ => return none
  | fuel + 1, cur :: stack, out => do
    let children ← childrenOf cur
    descendantsLoop fuel (children.reverse ++ stack) (out ++ [cur])

/-- `ProcessTree.descendants_of`. -/
def descendantsOf (fuel : ℕ) (pid : Pid) : Prog KOp (Option (List Pid)) := do
  let children ← childrenOf pid
  descendantsLoop fuel children.reverse []

/-- The loop of `reap_descendants`. -/
def reapAll (root : Pid) (reason : String) : List Pid → Prog KOp Unit
  | [] => return
  | child :: rest => do
    let pcb ← .perform (.readPcb child .terminal)
    if pcb.isTerminal then reapAll root reason rest
    else do
      .perform (.write child (.transition .zombie))
      -- unlike `kill` itself, this leaves the agent in the ready queue
      .perform (.write child (.error s!"reaped: {reason} (root={root})"))
      reapAll root reason rest

/-- `bus.drop_mailbox` for every pid of a list. -/
def dropMailboxes : List Pid → Prog KOp Unit
  | [] => return
  | p :: rest => do
    .perform (.dropMailbox p)
    dropMailboxes rest

mutual

/-- The nested function `walk` of `tree_view`, where the recursion limit leaves room for
`frames` calls that make a row inside each other; `none` is the `RecursionError`.  A call for
a pid that is not in the table calls less than `to_row` does, and fits one level deeper. -/
def walk : ℕ → Pid → ℕ → Prog KOp (Option (List (Row × ℕ)))
  | 0, pid, _ => do
    if ← .perform (.tableHas pid) then return none
    else return some []
  | frames + 1, pid, depth => do
    if ← .perform (.tableHas pid) then do
      let pcb ← .perform (.readPcb pid .fields)
      let now ← .perform .now
      match ← walkAll frames pcb.children (depth + 1) with
      | none => return none
      | some rows => return some ((pcb.toRow now, depth) :: rows)
    else return some []

/-- The loop over the children in `walk`. -/
def walkAll : ℕ → List Pid → ℕ → Prog KOp (Option (List (Row × ℕ)))
  | _, [], _ => return some []
  | frames, c :: cs, depth => do
    match ← walk frames c depth with
    | none => return none
    | some rows =>
      match ← walkAll frames cs depth with
      | none => return none
      | some more => return some (rows ++ more)

end

/-- `ProcessTree.tree_view`. -/
def treeView (frames : ℕ) (root : Pid) : Prog KOp (Option (List (Row × ℕ))) := walk frames root 0

/-- The filter in `roots`. -/
def rootsFrom : List Pid → Prog KOp (List AgentControlBlock)
  | [] => return []
  | p :: rest => do
    let pcb ← .perform (.readPcb p .fields)
    let roots ← rootsFrom rest
    return if pcb.parentPid = none then pcb :: roots else roots

/-- `ProcessTree.roots`. -/
def roots : Prog KOp (List AgentControlBlock) := do
  let pids ← .perform .tablePids
  rootsFrom pids

/-! ### Public methods -/

/-- The linking of a new agent to its parent in `Kernel.spawn`. -/
def linkParent (parentPid : Option Pid) (pid : Pid) : Prog KOp Unit :=
  match parentPid with
  | none => return
  | some parent => do
    if ← .perform (.tableHas parent) then .perform (.write parent (.addChild pid))
    else return

/-- `Kernel.spawn`.  `none` is the `ValueError` of `ProcessTable.add`. -/
def spawn (args : SpawnArgs) : Prog KOp (Option Pid) := do
  let pid ← .perform (.newPcb args)
  if ← .perform (.tableAdd pid) then do
    -- the new block is in the table before its parent is looked up there
    linkParent args.parentPid pid
    Prog.when (args.inputFrom.isSome = true) (.perform (.write pid (.transition .waiting)))
    let _ ← .perform (.put pid)
    return some pid
  else return none

/-- `Kernel.kill`.  `none` says that a traversal ran out of fuel. -/
def kill (fuel : ℕ) (pid : Pid) : Prog KOp (Option Bool) := do
  if ← .perform (.tableHas pid) then do
    let pcb ← .perform (.readPcb pid .terminal)
    if pcb.isTerminal then return some false
    else do
      match ← descendantsOf fuel pid with
      | none => return none
      -- this list is for the mailboxes; `reap_descendants` makes its own below
      | some victims => do
        .perform (.write pid (.transition .zombie))
        .perform (.write pid (.error "killed by user"))
        let _ ← .perform (.popQueued pid)
        match ← descendantsOf fuel pid with
        | none => return none
        | some doomed => do
          reapAll pid "killed by user" doomed
          dropMailboxes (pid :: victims)
          return some true
  else return some false

/-- The loop of `Kernel.reap_terminal`. -/
def reapFrom : List Pid → Prog KOp ℕ
  | [] => return 0
  | p :: rest => do
    let pcb ← .perform (.readPcb p .terminal)
    if pcb.isTerminal then do
      .perform (.tableRemove p)
      .perform (.dropMailbox p)
      let reaped ← reapFrom rest
      return reaped + 1
    else reapFrom rest

/-- `Kernel.reap_terminal`. -/
def reapTerminal : Prog KOp ℕ := do
  let pids ← .perform .tablePids
  reapFrom pids

/-- `Kernel.shutdown` of a started kernel: the stop flag, and the mailboxes.  Joining the
workers changes nothing. -/
def shutdown : Prog KOp Unit := do
  .perform .setStop
  let pids ← .perform .mailboxPids
  dropMailboxes pids

/-- The route `/kernel/quota/topup`, which refuses an amount that is not positive. -/
def quotaTopup (amount : ℤ) : Prog KOp Bool := do
  if amount ≤ 0 then return false
  else do
    .perform (.topup amount)
    return true

end Kernel

/-- The calls that the callers of a kernel make. -/
inductive KernelCall
  | spawn (args : SpawnArgs)
  | kill (fuel : ℕ) (pid : Pid)
  | reapTerminal
  | topup (amount : ℤ)
  | shutdown
deriving DecidableEq, Repr

/-- The code of a call. -/
def KernelCall.code : KernelCall → Prog KOp Unit
  | .spawn args => do
    let _ ← Kernel.spawn args
    return
  | .kill fuel pid => do
    let _ ← Kernel.kill fuel pid
    return
  | .reapTerminal => do
    let _ ← Kernel.reapTerminal
    return
  | .topup amount => do
    let _ ← Kernel.quotaTopup amount
    return
  | .shutdown => Kernel.shutdown

end Gcos
