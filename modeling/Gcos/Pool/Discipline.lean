import Gcos.Pool.Worker
import Gcos.Kernel.Calls

/-!
# What a thread may do with what it has in hand

The discipline behind the invariants of the thread backend.  A `Note` says where a thread
stands: a worker between two dispatches, a caller, a caller that is spawning an agent, a
worker that holds an agent, a worker that has put its agent back and still owes the
queue a `task_done`.  `Note.allows` says which operation may be performed where, and
`Note.learns` what the thread knows after the answer.

The three switches of `Rules` select what is to be shown: that no agent is lost, in runs
without a shutdown or in runs with one, and that the quota is conserved.
-/

namespace Gcos.Pool

open Lib Memory Exec

/-- The switches of the discipline. -/
structure Rules where
  /-- Nobody sets the stop flag. -/
  quiet : Bool := false
  /-- A worker may drop an agent only if it is terminal. -/
  lossless : Bool := false
  /-- Summarize calls are made on the kernel's quota. -/
  metered : Bool := false

/-- Where a thread stands. -/
inductive Note
  /-- A worker between two dispatches. -/
  | worker
  /-- A caller: the agents it has seen in the table, and one that it has finalized. -/
  | caller (seen : List Pid) (dead : Option Pid)
  /-- A caller that has constructed an agent and not yet enqueued it. -/
  | spawning (p : Pid)
  /-- A worker that holds `p`: whether it is in the step runner, how many quota units it
  has in hand, whether a call has returned that is not counted yet, whether it knows that
  `p` is terminal, and the number of calls of `p`. -/
  | holding (p : Pid) (busy : Bool) (units : ℕ) (replied dead : Bool) (calls : ℤ)
  /-- A worker that has put its agent back. -/
  | released

namespace Note

/-- What the world records for a thread. -/
def hand : Note → Local
  | worker => {}
  | caller _ _ => {}
  | spawning p => { fresh := some p }
  | holding p busy units replied _ _ =>
    { held := some p, flying := true, running := if busy then some p else none, units := units
      replied := replied }
  | released => { flying := true }

/-- Whether the note is one of a worker. -/
def isWorker : Note → Bool
  | worker | holding _ _ _ _ _ _ | released => true
  | caller _ _ | spawning _ => false

/-- The agents that are known to exist. -/
def seen : Note → List Pid
  | caller ps _ => ps
  | _ => []

/-- The agent that is known to be terminal. -/
def dead : Note → Option Pid
  | caller _ d => d
  | holding p _ _ _ true _ => some p
  | _ => none

/-- The held agent and its number of calls. -/
def calls : Note → Option (Pid × ℤ)
  | holding p _ _ _ _ c => some (p, c)
  | _ => none

/-- Which operation may be performed where. -/
def allows (rules : Rules) : {β : Type} → KOp β → Note → Prop
  | _, .now, _ | _, .stopIsSet _, _ | _, .tableHas _, _ | _, .tablePids, _ | _, .waitNonempty, _
  | _, .mailbox _, _ | _, .mailboxGet _, _ | _, .mailboxPut _ _, _ | _, .dropMailbox _, _
  | _, .mailboxPids, _ | _, .swapOut _ _, _ | _, .runPython _ _ _, _ => True
  | _, .setStop, l => l.isWorker = false ∧ rules.quiet = false
  | _, .readPcb p _, l =>
    match l with
    | holding q _ _ _ _ _ => q = p
    | caller _ _ | spawning _ => True
    | worker | released => False
  | _, .write p w, l =>
    match l with
    | holding q busy units replied _ _ =>
      q = p ∧ (∀ c, w ≠ .addChild c) ∧
        (w.countsCall = true → busy = true ∧ units = 1 ∧ replied = true)
    | caller _ _ | spawning _ => w.countsCall = false
    | worker | released => False
  | _, .newPcb _, l => ∃ ps d, l = caller ps d
  | _, .tableAdd p, l => l = spawning p
  | _, .tableRemove _, l => ∃ ps d, l = caller ps d
  | _, .pickNext, l => l = worker
  | _, .put p, l => l = spawning p ∨ ∃ dead calls, l = holding p false 0 false dead calls
  | _, .popQueued p, l => ∃ ps, l = caller ps (some p)
  | _, .taskDone, l =>
    l = released ∨ ∃ p dead calls, l = holding p false 0 false dead calls ∧
      (rules.lossless = true → dead = true)
  | _, .enterBusy p, l => ∃ units dead calls, l = holding p false units false dead calls
  | _, .leaveBusy, l => ∃ p units dead calls, l = holding p true units false dead calls
  | _, .acquire, l => ∃ p busy units dead calls, l = holding p busy units false dead calls
  | _, .refund, l =>
    ∃ p busy units dead calls, l = holding p busy (units + 1) false dead calls
  | _, .topup k, l => l.isWorker = false ∧ 0 < k
  | _, .chat .step _, l => ∃ p dead calls, l = holding p true 1 false dead calls
  | _, .chat (.summarize true) _, l =>
    ∃ p dead calls, l = holding p true 2 false dead calls
  | _, .chat (.summarize false) _, _ => rules.metered = false

/-- What the thread knows after the answer. -/
def learns (rules : Rules) : {β : Type} → KOp β → Note → β → Note → Prop
  | _, .stopIsSet site, l, b, l' =>
    (rules.quiet = true → b = false) ∧
      match l with
      | holding p busy units replied dead calls =>
        l' = holding p busy units replied
          (dead || (rules.lossless && site == .firstStep && b)) calls
      | _ => l' = l
  | _, .readPcb _ _, l, b, l' =>
    match l with
    | holding p busy units replied dead calls =>
      b.llmCallsUsed = calls ∧ l' = holding p busy units replied (dead || b.isTerminal) calls
    | _ => l' = l
  | _, .write p w, l, _, l' =>
    match l, w with
    | holding q busy units replied dead calls, .transition st =>
      l' = holding q busy units replied (dead || st.isTerminal) calls
    | holding q busy units _ dead calls, .countCall _ =>
      l' = holding q busy (units - 1) false dead (calls + 1)
    | caller ps d, .transition st =>
      l' = caller ps (if p ∈ ps ∧ st.isTerminal = true then some p else d)
    | l, _ => l' = l
  | _, .newPcb _, _, p, l' => l' = spawning p
  | _, .tableAdd _, l, b, l' => l' = if b then l else caller [] none
  | _, .pickNext, l, b, l' =>
    match b with
    | none => l' = l
    | some p => ∃ calls, l' = holding p false 0 false false calls
  | _, .put _, l, b, l' =>
    match l with
    | holding p busy units replied _ calls =>
      l' = if b then released else holding p busy units replied true calls
    | _ => l' = caller [] none
  | _, .taskDone, _, _, l' => l' = worker
  | _, .enterBusy _, l, _, l' =>
    match l with
    | holding p _ units replied dead calls => l' = holding p true units replied dead calls
    | _ => l' = l
  | _, .leaveBusy, l, _, l' =>
    match l with
    | holding p _ units replied dead calls => l' = holding p false units replied dead calls
    | _ => l' = l
  | _, .acquire, l, b, l' =>
    match l with
    | holding p busy units replied dead calls =>
      l' = holding p busy (if b then units + 1 else units) replied dead calls
    | _ => l' = l
  | _, .refund, l, _, l' =>
    match l with
    | holding p busy units replied dead calls => l' = holding p busy (units - 1) replied dead calls
    | _ => l' = l
  | _, .chat .step _, l, b, l' =>
    match l, b with
    | holding p busy units _ dead calls, .ok _ => l' = holding p busy units true dead calls
    | l, _ => l' = l
  | _, .chat (.summarize true) _, l, b, l' =>
    match l, b with
    | holding p busy units replied dead calls, .ok _ =>
      l' = holding p busy (units - 1) replied dead calls
    | l, _ => l' = l
  | _, .chat (.summarize false) _, l, _, l' => l' = l
  | _, .tableHas p, l, b, l' =>
    match l with
    | caller ps d => l' = caller (if b then p :: ps else ps) d
    | _ => l' = l
  | _, .now, l, _, l' | _, .setStop, l, _, l' | _, .tablePids, l, _, l'
  | _, .tableRemove _, l, _, l' | _, .waitNonempty, l, _, l' | _, .popQueued _, l, _, l'
  | _, .topup _, l, _, l' | _, .mailbox _, l, _, l' | _, .mailboxGet _, l, _, l'
  | _, .mailboxPut _ _, l, _, l' | _, .dropMailbox _, l, _, l' | _, .mailboxPids, l, _, l'
  | _, .swapOut _ _, l, _, l' | _, .runPython _ _ _, l, _, l' => l' = l

end Note

/-- The discipline of the kernel's threads. -/
def discipline (rules : Rules) : Discipline KOp Note :=
  { pre := Note.allows rules, post := Note.learns rules }

end Gcos.Pool
