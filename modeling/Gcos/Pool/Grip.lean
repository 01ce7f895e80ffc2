import Gcos.Pool.Worker
import Gcos.Kernel.Calls
import Gcos.Kernel.Effects

/-!
# What a worker knows about its agent

The second discipline of the thread backend.  Where `Note` says what a thread has in hand,
a `Grip` says what a worker has found out about the agent it holds and what it has done
with it in this dispatch: what it has read, whether the agent may still make a call,
whether it waits for input, whether its result is still to be forwarded, how many steps
were run.  It is what the workers' checks are for: `Grip.mayWrite` and `Hold.allows` name
for each operation the knowledge without which the code never performs it.

In a *calm* run nobody kills and nobody shuts down.
-/

namespace Gcos.Pool

open Lib

/-- What a worker knows about the agent that it holds. -/
structure Grip where
  /-- The block as it was last read, while the worker has not written to it. -/
  seen : Option AgentControlBlock := none
  /-- The agent was read live since its last counted call. -/
  armed : Bool := false
  /-- The agent is terminal. -/
  dead : Bool := false
  /-- The prompt has a placeholder for the result of another agent. -/
  wants : Bool := false
  /-- The agent is not `DONE`. -/
  undone : Bool := true
  /-- The agent has nobody to pipe to. -/
  noPipe : Bool := false
  /-- The result was sent. -/
  sent : Bool := false
  /-- The mailbox that was looked up last. -/
  aim : Option (Pid × BoxId) := none
  /-- The message that was taken last. -/
  got : Option Message := none
  /-- The steps of this dispatch. -/
  steps : ℕ := 0
  /-- The agent was moved to `BLOCKED` and not elsewhere since. -/
  blocked : Bool := false

namespace Grip

/-- Looking at the agent. -/
def read (g : Grip) (pcb : AgentControlBlock) : Grip :=
  { g with
    seen := some pcb
    armed := g.armed || !pcb.isTerminal
    dead := g.dead || pcb.isTerminal
    wants := g.wants || (pcb.inputFrom.isSome && needsInput pcb.prompt)
    undone := g.undone || pcb.state ≠ .done
    noPipe := g.noPipe || pcb.pipeTo.isNone }

/-- Writing to the agent. -/
def write (g : Grip) : Write → Grip
  | .transition st =>
    { g with
      seen := none
      dead := g.dead || st.isTerminal
      undone := g.undone && st ≠ .done
      blocked := st = .blocked }
  | .countCall _ => { g with seen := none, armed := false }
  | .prompt _ => { g with seen := none, wants := false, got := none }
  | _ => { g with seen := none }

/-- What the worker must know before it writes. -/
def mayWrite (g : Grip) : Write → Prop
  | .addChild _ => False
  | .countCall _ => g.armed = true
  | .result _ => g.undone = true
  | .transition .waiting | .waitingSince (some _) => g.wants = true
  | .transition st => st.isTerminal = true → g.wants = true ∨ 0 < g.steps
  | .prompt text =>
    g.wants = true ∧ ∃ pcb m, g.seen = some pcb ∧ g.got = some m ∧
      text = resolveInputPlaceholder pcb.prompt m
  | _ => True

/-- What the worker knows after an operation that was answered, as long as it still holds
the agent. -/
def after : {β : Type} → KOp β → β → Grip → Grip
  | _, .readPcb _ _, pcb, g => g.read pcb
  | _, .write _ c, _, g => g.write c
  | _, .enterBusy _, _, g => { g with steps := g.steps + 1 }
  | _, .mailbox target, box, g => { g with aim := some (target, box) }
  | _, .mailboxGet _, msg, g => { g with got := msg }
  | _, .mailboxPut _ _, _, g => { g with sent := true }
  | _, _, _, g => g

/-- Nothing is left to be forwarded. -/
def settled (g : Grip) : Bool := g.undone || g.sent || g.noPipe

/-- The worker has read that the agent is `DONE` and whom it pipes to. -/
def Forwards (g : Grip) (pcb : AgentControlBlock) (target : Pid) : Prop :=
  g.seen = some pcb ∧ pcb.state = .done ∧ pcb.pipeTo = some target ∧ g.sent = false

/-- The reasons for which a worker puts an agent back in a calm run. -/
def Yields (limit : ℕ) (g : Grip) : Prop :=
  g.blocked = true ∨ limit ≤ g.steps ∨ g.wants = true ∧ g.steps = 0

end Grip

/-- The switches of the discipline. -/
structure Manner where
  /-- Nobody kills and nobody shuts down. -/
  calm : Bool := false
  /-- The number of steps of one dispatch. -/
  limit : ℕ := 0
  /-- There is a message bus. -/
  bus : Bool := false

/-- Where a thread stands. -/
inductive Hold
  /-- A worker between two dispatches. -/
  | idle
  /-- A worker that holds `p`. -/
  | holding (p : Pid) (g : Grip)
  /-- A worker that has put its agent back. -/
  | released
  /-- A caller, with the agent that it is spawning. -/
  | client (fresh : Option Pid)

/-- What a caller writes to a block: it links a new agent to its parent and parks it, and
it kills. -/
def callerWrites (calm : Bool) (fresh : Option Pid) (p : Pid) : Write → Prop
  | .addChild _ => True
  | .transition .waiting => fresh = some p
  | .transition .zombie | .error _ => calm = false
  | _ => False

namespace Hold

/-- Which operation may be performed where. -/
def allows (m : Manner) : {β : Type} → KOp β → Hold → Prop
  | _, .now, _ | _, .stopIsSet _, _ | _, .waitNonempty, _ => True
  | _, .readPcb p _, l =>
    match l with
    | holding q _ => q = p
    | client _ => True
    | idle | released => False
  | _, .write p c, l =>
    match l with
    | holding q g => q = p ∧ g.mayWrite c
    | client fresh => callerWrites m.calm fresh p c
    | idle | released => False
  | _, .pickNext, l => l = idle
  | _, .put p, l =>
    l = client (some p) ∨
      ∃ g, l = holding p g ∧ (m.bus = true → g.settled = true) ∧
        (m.calm = true → g.Yields m.limit)
  | _, .taskDone, l =>
    l = released ∨ ∃ p g, l = holding p g ∧ (m.bus = true → g.settled = true)
  | _, .enterBusy p, l => ∃ g, l = holding p g
  | _, .leaveBusy, l | _, .acquire, l | _, .refund, l | _, .chat _ _, l | _, .swapOut _ _, l
  | _, .runPython _ _ _, l => ∃ p g, l = holding p g
  | _, .mailbox target, l =>
    ∃ p g, l = holding p g ∧ (target = p ∧ g.wants = true ∨ ∃ pcb, g.Forwards pcb target)
  | _, .mailboxGet box, l => ∃ p g, l = holding p g ∧ g.wants = true ∧ g.aim = some (p, box)
  | _, .mailboxPut box msg, l =>
    ∃ g pcb target, l = holding msg.fromPid g ∧ g.Forwards pcb target ∧
      g.aim = some (target, box) ∧ msg.content = pcb.result.getD ""
  | _, .setStop, l | _, .popQueued _, l => (∃ fresh, l = client fresh) ∧ m.calm = false
  | _, .newPcb _, l | _, .tableHas _, l | _, .tablePids, l | _, .tableRemove _, l | _, .topup _, l
  | _, .dropMailbox _, l | _, .mailboxPids, l => ∃ fresh, l = client fresh
  | _, .tableAdd p, l => l = client (some p)

/-- A worker's knowledge changes as `f` says. -/
def adjust (l : Hold) (f : Grip → Grip) : Hold :=
  match l with
  | holding p g => holding p (f g)
  | l => l

/-- What the thread knows after the answer. -/
def learns (m : Manner) : {β : Type} → KOp β → Hold → β → Hold → Prop
  | _, .stopIsSet _, l, b, l' => (m.calm = true → b = false) ∧ l' = l
  | _, .readPcb _ _, l, pcb, l' =>
    (∀ p g, l = holding p g → g.dead = true → pcb.isTerminal = true) ∧
      l' = l.adjust fun g => g.read pcb
  | _, .write _ c, l, _, l' => l' = l.adjust fun g => g.write c
  | _, .newPcb _, _, p, l' => l' = client (some p)
  | _, .tableAdd _, l, b, l' => l' = if b then l else client none
  | _, .pickNext, l, b, l' =>
    match b with
    | none => l' = l
    | some p => l' = holding p {}
  | _, .put _, l, b, l' =>
    match l with
    | holding p g => l' = if b then released else holding p g
    | _ => l' = client none
  | _, .taskDone, _, _, l' => l' = idle
  | _, .enterBusy _, l, _, l' => l' = l.adjust fun g => { g with steps := g.steps + 1 }
  | _, .mailbox target, l, box, l' => l' = l.adjust fun g => { g with aim := some (target, box) }
  | _, .mailboxGet _, l, msg, l' => l' = l.adjust fun g => { g with got := msg }
  | _, .mailboxPut _ _, l, _, l' => l' = l.adjust fun g => { g with sent := true }
  | _, .now, l, _, l' | _, .waitNonempty, l, _, l' | _, .leaveBusy, l, _, l'
  | _, .acquire, l, _, l' | _, .refund, l, _, l' | _, .chat _ _, l, _, l'
  | _, .swapOut _ _, l, _, l' | _, .runPython _ _ _, l, _, l' | _, .setStop, l, _, l'
  | _, .popQueued _, l, _, l' | _, .tableHas _, l, _, l' | _, .tablePids, l, _, l'
  | _, .tableRemove _, l, _, l' | _, .topup _, l, _, l' | _, .dropMailbox _, l, _, l'
  | _, .mailboxPids, l, _, l' => l' = l

/-- A worker that holds an agent after an operation has just picked it, or held it
before. -/
lemma holding_of_learns {m : Manner} {β : Type} {o : KOp β} {l l' : Hold} {b : β}
    (h : l.learns m o b l') {p : Pid} {g' : Grip} (hl' : l' = holding p g') :
    g' = {} ∧ o.picks = true ∨ ∃ g, l = holding p g ∧ g' = g.after o b := by
  cases o with
  | readPcb q _ =>
    obtain ⟨-, rfl⟩ := h
    cases l <;> cases hl'
    exact .inr ⟨_, rfl, rfl⟩
  | stopIsSet site =>
    obtain ⟨-, rfl⟩ := h
    exact .inr ⟨g', hl', rfl⟩
  | write q c =>
    cases l <;> (rw [h] at hl'; cases hl')
    exact .inr ⟨_, rfl, rfl⟩
  | enterBusy q | mailbox q | mailboxGet box | mailboxPut box msg =>
    cases l <;> (rw [h] at hl'; cases hl')
    exact .inr ⟨_, rfl, rfl⟩
  | pickNext =>
    cases b with
    | none => exact .inr ⟨g', h.symm.trans hl', rfl⟩
    | some r =>
      rw [h] at hl'
      cases hl'
      exact .inl ⟨rfl, rfl⟩
  | put q =>
    cases l with
    | holding r g =>
      have hl : l' = if b then released else holding r g := h
      cases b <;> (rw [hl] at hl'; cases hl')
      exact .inr ⟨_, rfl, rfl⟩
    | idle | released | client _ =>
      have hl : l' = client none := h
      rw [hl] at hl'
      cases hl'
  | tableAdd q =>
    have hl : l' = if b then l else client none := h
    cases b with
    | true => exact .inr ⟨g', hl.symm.trans hl', rfl⟩
    | false =>
      rw [hl] at hl'
      cases hl'
  | newPcb args | taskDone =>
    rw [h] at hl'
    cases hl'
  | _ => exact .inr ⟨g', h.symm.trans hl', rfl⟩

/-- A worker that does not let go of its agent goes on holding it. -/
lemma holding_of_not_releases {m : Manner} {β : Type} {o : KOp β} {p : Pid} {g : Grip} {l' : Hold}
    {b : β} (hpre : (holding p g).allows m o) (h : (holding p g).learns m o b l')
    (ho : o.releases = false) : l' = holding p (g.after o b) := by
  cases o with
  | put q | taskDone => cases ho
  | readPcb q _ | stopIsSet site => exact h.2
  | newPcb args | tableHas q | tablePids | tableRemove q | topup k | dropMailbox q | mailboxPids =>
    obtain ⟨_, hcl⟩ := hpre
    cases hcl
  | setStop | popQueued q =>
    obtain ⟨⟨_, hcl⟩, -⟩ := hpre
    cases hcl
  | tableAdd q | pickNext => cases hpre
  | _ => exact h

end Hold

/-- The discipline of the workers' checks. -/
def handling (m : Manner) : Discipline KOp Hold :=
  { pre := Hold.allows m, post := Hold.learns m }

end Gcos.Pool
