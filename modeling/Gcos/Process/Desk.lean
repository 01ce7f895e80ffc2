import Gcos.Process.Fleet
import Gcos.Pool.Following

/-!
# How far a dispatch of the process backend has come

The discipline of the threads of the process backend.  A `Desk` says where a thread stands;
for a worker that holds an agent, `Stage` says how far the dispatch has come: the agent was
found live, units were reserved for it, the units and the calls made so far were written
down, the child was forked, entered in the registry, heard and reaped.  For a caller in the
middle of a `kill`, `Errand` says whether the child of its victim has been looked up and
signalled.
-/

namespace Gcos.Process

open Lib Exec Pool

/-- What has become of a child that was forked. -/
inductive Bond
  /-- Only its worker knows of it. -/
  | born
  /-- It is in the registry. -/
  | enrolled
  /-- It is in the registry, and its pipe was read to its end. -/
  | heard
deriving DecidableEq, Repr

/-- How far the dispatch of an agent has come. -/
inductive Stage
  /-- The agent was picked. -/
  | picked
  /-- It was found live. -/
  | checked
  /-- So many units were reserved. -/
  | reserved (units : ℤ)
  /-- The agent was given the units. -/
  | granted (units : ℤ)
  /-- The number of its calls was written down. -/
  | sized (units calls : ℤ)
  /-- The child was forked. -/
  | forked (units calls : ℤ) (k : ℕ)
  /-- It was entered in the registry. -/
  | registered (units calls : ℤ) (k : ℕ)
  /-- The pipe was read to its end. -/
  | heard (units calls : ℤ) (k : ℕ) (raw : Raw)
  /-- The number of calls was taken over from the report. -/
  | counted (units calls : ℤ) (k : ℕ) (reported : ℤ)
  /-- The child was reaped, and the units that it has not used are to be given back. -/
  | due (units calls : ℤ) (k : ℕ) (reported : ℤ)
  /-- Nothing is left to be settled. -/
  | closed
deriving DecidableEq, Repr

namespace Stage

/-- The units that are reserved and belong to no child yet. -/
def pending : Stage → ℤ
  | reserved units | granted units | sized units _ => units
  | _ => 0

/-- The child of the dispatch, until it is reaped, and how it is known. -/
def bond : Stage → Option (ℕ × Bond)
  | forked _ _ k => some (k, .born)
  | registered _ _ k => some (k, .enrolled)
  | heard _ _ k _ | counted _ _ k _ => some (k, .heard)
  | _ => none

/-- After the agent was found live and before its child is in the registry. -/
def window : Stage → Bool
  | checked | reserved _ | granted _ | sized _ _ | forked _ _ _ => true
  | _ => false

/-- After the child was entered in the registry, or after the agent was put back in vain. -/
def launched : Stage → Bool
  | registered _ _ _ | heard _ _ _ _ | counted _ _ _ _ | due _ _ _ _ | closed => true
  | _ => false

/-- What the stage says about the block of the agent. -/
def Fits (b : AgentControlBlock) : Stage → Prop
  | granted units => b.quotaRemaining = units
  | sized units calls => b.quotaRemaining = units ∧ b.llmCallsUsed = calls
  | counted _ _ _ reported | due _ _ _ reported => b.llmCallsUsed = reported
  | _ => True

/-- What the worker knows after it has read the block. -/
def read (b : AgentControlBlock) : Stage → Stage
  | picked => if b.isTerminal then picked else checked
  | granted units => sized units b.llmCallsUsed
  | s => s

/-- Nothing is reserved, and no child is to be waited for. -/
def Light (s : Stage) : Prop := s.pending = 0 ∧ s.bond = none

end Stage

/-- How far a caller has come with the child of the agent that it kills. -/
inductive Errand
  /-- The caller is not after anybody. -/
  | none
  /-- The agent was made a `ZOMBIE`. -/
  | slaying (p : Pid)
  /-- The registry has named its child. -/
  | aiming (p : Pid) (k : ℕ)
  /-- The registry has named nobody, or the child was signalled. -/
  | struck (p : Pid)
deriving DecidableEq, Repr

namespace Errand

/-- What the answer of the registry leads to. -/
def looked (child : Option ℕ) : Errand → Errand
  | slaying p =>
    match child with
    | .none => struck p
    | .some k => aiming p k
  | e => e

/-- What the signal leads to. -/
def signalled : Errand → Errand
  | aiming p _ => struck p
  | e => e

end Errand

/-- Where a thread of the process backend stands. -/
inductive Desk
  /-- A worker between two dispatches. -/
  | idle
  /-- A worker that holds `p`. -/
  | holding (p : Pid) (s : Stage)
  /-- A worker that has put its agent back. -/
  | released
  /-- A caller that has seen the agents `seen` in the table. -/
  | caller (seen : List Pid) (e : Errand)
  /-- A caller that has constructed an agent and not yet enqueued it. -/
  | spawning (p : Pid)
deriving DecidableEq, Repr

namespace Desk

/-- Whether the thread is a worker. -/
def isWorker : Desk → Bool
  | idle | holding _ _ | released => true
  | caller _ _ | spawning _ => false

/-- The agent that the thread holds. -/
def held : Desk → Option Pid
  | holding p _ => some p
  | _ => none

/-- The agent that the thread is spawning. -/
def fresh : Desk → Option Pid
  | spawning p => some p
  | _ => none

/-- The units that are reserved and belong to no child yet. -/
def pending : Desk → ℤ
  | holding _ s => s.pending
  | _ => 0

/-- What the thread knows after a write: a caller that makes an agent a `ZOMBIE` which it
has seen in the table is after its child. -/
def wrote (p : Pid) (c : Write) : Desk → Desk
  | caller seen e =>
    if c = .transition .zombie then caller seen (if p ∈ seen then .slaying p else .none)
    else caller seen e
  | l => l

/-- Which operation of the kernel may be performed where. -/
def allowsKernel : {β : Type} → KOp β → Desk → Prop
  | _, .readPcb p _, l => ∀ q s, l = holding q s → q = p
  | _, .write p c, l =>
    c.countsCall = false ∧ (l.isWorker = true → (∃ s, l = holding p s) ∧ ∀ q, c ≠ .addChild q)
  | _, .newPcb _, l => ∃ seen e, l = caller seen e
  | _, .tableAdd p, l => l = spawning p
  | _, .pickNext, l => l = idle
  | _, .put p, l => l = spawning p ∨ ∃ s, l = holding p s ∧ s.window = true ∧ s.Light
  | _, .popQueued p, l => ∃ seen, l = caller seen (.struck p)
  | _, .taskDone, l => l = released ∨ ∃ p s, l = holding p s ∧ s.Light
  | _, .topup k, l => l.isWorker = false ∧ 0 < k
  -- the calls and their units are the children's
  | _, .acquire, _ | _, .refund, _ | _, .chat _ _, _ | _, .swapOut _ _, _
  | _, .runPython _ _ _, _ => False
  | _, _, _ => True

/-- What the thread knows after the answer. -/
def learnsKernel : {β : Type} → KOp β → Desk → β → Desk → Prop
  | _, .readPcb _ _, l, b, l' =>
    match l with
    | holding p s => s.Fits b ∧ l' = holding p (s.read b)
    | l => l' = l
  | _, .write p c, l, _, l' => l' = l.wrote p c
  | _, .newPcb _, _, p, l' => l' = spawning p
  | _, .tableHas p, l, b, l' =>
    match l with
    | caller seen e => l' = caller (if b then p :: seen else seen) e
    | l => l' = l
  | _, .tableAdd _, l, b, l' => l' = if b then l else caller [] .none
  | _, .pickNext, l, b, l' =>
    match b with
    | none => l' = l
    | some p => l' = holding p .picked
  | _, .put _, l, b, l' =>
    match l with
    | holding p _ => l' = if b then released else holding p .closed
    | _ => l' = caller [] .none
  | _, .taskDone, _, _, l' => l' = idle
  | _, _, l, _, l' => l' = l

/-- Which assignment may be made where. -/
def allowsAssign (p : Pid) (l : Desk) : Assign → Prop
  | .quotaRemaining units =>
    l = holding p (.reserved units) ∨ l = holding p .closed ∨
      ∃ u c k r, l = holding p (.due u c k r)
  | .llmCallsUsed calls =>
    ∃ u c k payload, l = holding p (.heard u c k (.json payload)) ∧ calls = payload.llmCallsUsed
  | .state _ => ∃ u c k r, l = holding p (.counted u c k r)
  | .tokensUsed _ | .finishedAt _ => ∃ s, l = holding p s

/-- Which operation may be performed where. -/
def allows : {β : Type} → FOp β → Desk → Prop
  | _, .inl (.inl o), l => l.allowsKernel o
  | _, .inl (.inr (.acquireUpTo _)), l => ∃ p, l = holding p .checked
  | _, .inl (.inr (.refund units)), l =>
    ∃ p u c k r, l = holding p (.due u c k r) ∧ 0 ≤ units ∧ units ≤ u - (r - c) ∧ units ≤ u
  | _, .inl (.inr (.assign p a)), l => l.allowsAssign p a
  | _, .inl (.inr (.runChild _)), _ => False
  | _, .inr (.fork p), l => ∃ u c, l = holding p (.sized u c)
  | _, .inr (.register p k), l => ∃ u c, l = holding p (.forked u c k)
  | _, .inr (.readAll k), l => ∃ p u c, l = holding p (.registered u c k)
  | _, .inr (.reap p k), l =>
    (∃ u c raw, l = holding p (.heard u c k raw)) ∨ ∃ u c r, l = holding p (.counted u c k r)
  | _, .inr (.lookup p), l => ∃ seen e, l = caller seen e ∧ ∀ q, e = .slaying q → q = p
  | _, .inr (.signal k), l => ∃ seen e, l = caller seen e ∧ ∀ p j, e = .aiming p j → j = k
  | _, .inr .signalAll, l | _, .inr (.childMoves _), l => l.isWorker = false

/-- What the thread knows after an assignment. -/
def assigned (l : Desk) : Assign → Desk
  | .quotaRemaining units =>
    match l with
    | holding p (.reserved _) => holding p (.granted units)
    | l => l
  | .llmCallsUsed calls =>
    match l with
    | holding p (.heard u c k _) => holding p (.counted u c k calls)
    | l => l
  | .state _ | .tokensUsed _ | .finishedAt _ => l

/-- What the thread knows after the answer. -/
def learns : {β : Type} → FOp β → Desk → β → Desk → Prop
  | _, .inl (.inl o), l, b, l' => l.learnsKernel o b l'
  | _, .inl (.inr (.acquireUpTo _)), l, units, l' =>
    0 ≤ units ∧ ∀ p, l = holding p .checked → l' = holding p (.reserved units)
  | _, .inl (.inr (.refund _)), l, _, l' =>
    ∀ p u c k r, l = holding p (.due u c k r) → l' = holding p .closed
  | _, .inl (.inr (.assign _ a)), l, _, l' => l' = l.assigned a
  | _, .inl (.inr (.runChild _)), l, _, l' => l' = l
  | _, .inr (.fork _), l, k, l' =>
    ∀ p u c, l = holding p (.sized u c) → l' = holding p (.forked u c k)
  | _, .inr (.register _ _), l, _, l' =>
    ∀ p u c k, l = holding p (.forked u c k) → l' = holding p (.registered u c k)
  | _, .inr (.readAll _), l, raw, l' =>
    ∀ p u c k, l = holding p (.registered u c k) → l' = holding p (.heard u c k raw)
  | _, .inr (.reap _ _), l, _, l' =>
    (∀ p u c k raw, l = holding p (.heard u c k raw) → l' = holding p .closed) ∧
      ∀ p u c k r, l = holding p (.counted u c k r) → l' = holding p (.due u c k r)
  | _, .inr (.lookup _), l, child, l' =>
    ∀ seen e, l = caller seen e → l' = caller seen (e.looked child)
  | _, .inr (.signal _), l, _, l' => ∀ seen e, l = caller seen e → l' = caller seen e.signalled
  | _, .inr .signalAll, l, _, l' | _, .inr (.childMoves _), l, _, l' => l' = l

end Desk

/-- The discipline of the process backend, for programs over the operations that `emb`
embeds. -/
def managingVia {Op : Type → Type} (emb : {β : Type} → Op β → FOp β) : Discipline Op Desk where
  pre o l := Desk.allows (emb o) l
  post o l b l' := Desk.learns (emb o) l b l'

/-- The discipline of the process backend. -/
def managing : Discipline FOp Desk := managingVia fun o => o

/-- The discipline of the process backend, for the programs of the kernel. -/
def kernelManaging : Discipline KOp Desk := managingVia fun o => .inl (.inl o)

/-- The discipline of the process backend, for the programs of the coarse model. -/
def coarseManaging : Discipline POp Desk := managingVia fun o => .inl o

lemma manages_coarse {α : Type} {prog : Prog POp α} {l : Desk} {Q : α → Desk → Prop} :
    (coarse prog).Obeys managing l Q ↔ prog.Obeys coarseManaging l Q := Prog.obeys_lift

lemma manages_plain {α : Type} {prog : Prog KOp α} {l : Desk} {Q : α → Desk → Prop} :
    (plain prog).Obeys coarseManaging l Q ↔ prog.Obeys kernelManaging l Q := Prog.obeys_lift

lemma manages_native {α : Type} {prog : Prog KOp α} {l : Desk} {Q : α → Desk → Prop} :
    (native prog).Obeys managing l Q ↔ prog.Obeys kernelManaging l Q :=
  manages_coarse.trans manages_plain

/-! ### The holder of an agent -/

variable {cfg : KernelConfig} {p : Pid} {s : Stage}

/-- The operations with which a worker looks at its agent and talks to the bus. -/
def Gentle (p : Pid) : Prog.Class KOp
  | _, .readPcb q _ => q = p
  | _, .now | _, .mailbox _ | _, .mailboxGet _ | _, .mailboxPut _ _ | _, .enterBusy _
  | _, .leaveBusy => True
  | _, _ => False

/-- Those and the writes to the agent that count no call. -/
def Mild (p : Pid) : Prog.Class KOp
  | _, .write q c => q = p ∧ c.countsCall = false ∧ ∀ r, c ≠ .addChild r
  | _, o => Gentle p o

lemma Gentle.mild {β : Type} {o : KOp β} (ho : Gentle p o) : Mild p o := by
  cases o with
  | write q c => exact ho.elim
  | _ => exact ho

/-- The stages at which a look at the agent teaches nothing new. -/
def Stage.Steady (s : Stage) : Prop := ∀ b : AgentControlBlock, s.read b = s

/-- Mild operations leave the holder where it stands. -/
lemma mild_step {β : Type} {o : KOp β} (hs : s.Steady) (ho : Mild p o) :
    (Desk.holding p s).allowsKernel o ∧
      ∀ b l', (Desk.holding p s).learnsKernel o b l' → l' = .holding p s := by
  cases o with
  | readPcb q _ =>
    obtain rfl : q = p := ho
    refine ⟨fun r s' h => (by cases h; rfl), ?_⟩
    rintro b l' ⟨-, rfl⟩
    rw [hs b]
  | write q c =>
    obtain ⟨rfl, hcount, hchild⟩ := ho
    exact ⟨⟨hcount, fun _ => ⟨⟨s, rfl⟩, hchild⟩⟩, fun _ _ h => h⟩
  | now | mailbox q | mailboxGet box | mailboxPut box msg | enterBusy q | leaveBusy =>
    exact ⟨trivial, fun _ _ h => h⟩
  | _ => exact ho.elim

/-- Mild programs. -/
lemma manages_mild {α : Type} {prog : Prog KOp α} (hs : s.Steady) (h : prog.Only (Mild p)) :
    prog.Obeys kernelManaging (.holding p s) fun _ l => l = .holding p s := by
  refine h.obeys (K := fun l => l = Desk.holding p s) (fun o l ho hl => ?_) rfl
  subst hl
  exact mild_step hs ho

/-- Gentle programs of a worker that has put its agent back. -/
lemma manages_gentle {α : Type} {prog : Prog KOp α} (h : prog.Only (Gentle p)) :
    prog.Obeys kernelManaging .released fun _ l => l = .released := by
  refine h.obeys (K := fun l => l = Desk.released) (fun o l ho hl => ?_) rfl
  subst hl
  cases o with
  | readPcb q _ => exact ⟨fun r s' h => (by cases h), fun _ _ h => h⟩
  | now | mailbox q | mailboxGet box | mailboxPut box msg | enterBusy q | leaveBusy =>
    exact ⟨trivial, fun _ _ h => h⟩
  | _ => exact ho.elim

lemma gentle_of_forwards {β : Type} (o : KOp β) (ho : Forwards p o) : Gentle p o := by
  cases o with
  | readPcb q look =>
    cases look with
    | fields => exact ho
    | terminal | zombie => exact ho.elim
  | now | mailbox q | mailboxGet box | mailboxPut box msg => trivial
  | _ => exact ho.elim

lemma gentle_forwardResult : (forwardResult cfg p).Only (Gentle p) :=
  only_forwardResult.mono gentle_of_forwards

lemma gentle_recv : (recv p).Only (Gentle p) :=
  only_recv.mono fun o ho => gentle_of_forwards o ho.forwards

lemma mild_failWith (st : AgentState) (msg : String) : (failWith p st msg).Only (Mild p) := by
  refine Prog.Only.step ⟨rfl, rfl, fun _ h => by cases h⟩ fun _ => ?_
  exact Prog.only_perform ⟨rfl, rfl, fun _ h => by cases h⟩

/-- A worker that has come to the end of a dispatch: it has put its agent back, or holds
it with no units reserved. -/
def Desk.Over (p : Pid) (l : Desk) : Prop :=
  l = .released ∨ ∃ s, l = .holding p s ∧ s.Steady ∧ s.Light

/-- Putting the agent back. -/
lemma manages_put {α : Type} {a : α} (hwindow : s.window = true) (hlight : s.Light) :
    (do let _ ← Prog.perform (KOp.put p); return a : Prog KOp α).Obeys kernelManaging
      (.holding p s) fun _ l => l.Over p := by
  refine Prog.Obeys.step (.inr ⟨s, rfl, hwindow, hlight⟩) fun b l' hl' => ?_
  have hl' : l' = if b then .released else .holding p .closed := hl'
  cases b with
  | true => exact .inl hl'
  | false => exact .inr ⟨.closed, hl', fun _ => rfl, rfl, rfl⟩

lemma manages_reparkWaiting (hs : s.Steady) (hwindow : s.window = true) (hlight : s.Light) :
    (reparkWaiting cfg p).Obeys kernelManaging (.holding p s) fun _ l => l.Over p := by
  have hmild : ∀ {β γ : Type} {o : KOp β} {k : β → Prog KOp γ} {Q : γ → Desk → Prop}, Mild p o →
      (∀ b, (k b).Obeys kernelManaging (.holding p s) Q) →
      (Prog.perform o >>= k).Obeys kernelManaging (.holding p s) Q := by
    intro β γ o k Q ho hk
    obtain ⟨hpre, hpost⟩ := mild_step hs ho
    refine Prog.Obeys.step hpre fun b l' hl' => ?_
    rw [hpost b l' hl']
    exact hk b
  have hwrite : ∀ c, Write.countsCall c = false → (∀ r, c ≠ .addChild r) →
      Mild p (KOp.write p c) := fun c hcount hchild => ⟨rfl, hcount, hchild⟩
  refine hmild trivial fun now => hmild rfl fun pcb => ?_
  refine hmild (hwrite _ rfl fun _ h => by cases h) fun _ => ?_
  dsimp only
  split
  · refine (manages_mild hs (mild_failWith _ _)).mono fun _ l hl => ?_
    exact .inr ⟨s, hl, hs, hlight⟩
  · exact hmild (hwrite _ rfl fun _ h => by cases h) fun _ => manages_put hwindow hlight

/-! ### The dispatch -/

section

variable {α β : Type} {Q : α → Desk → Prop}

/-- The rule for a mild operation of the holder. -/
lemma manages_quiet {o : KOp β} {k : β → Prog FOp α} (hs : s.Steady) (ho : Mild p o)
    (hk : ∀ b, (k b).Obeys managing (.holding p s) Q) :
    (base o >>= k).Obeys managing (.holding p s) Q := by
  obtain ⟨hpre, hpost⟩ := mild_step hs ho
  refine Prog.Obeys.step hpre fun b l' hl' => ?_
  rw [hpost b l' hl']
  exact hk b

/-- The rule for a mild operation of the holder in a program of the coarse model. -/
lemma manages_quiet_coarse {o : KOp β} {k : β → Prog POp α} (hs : s.Steady) (ho : Mild p o)
    (hk : ∀ b, (k b).Obeys coarseManaging (.holding p s) Q) :
    (kernel o >>= k).Obeys coarseManaging (.holding p s) Q := by
  obtain ⟨hpre, hpost⟩ := mild_step hs ho
  refine Prog.Obeys.step hpre fun b l' hl' => ?_
  rw [hpost b l' hl']
  exact hk b

end

lemma manages_stampFinish (hs : s.Steady) :
    (stampFinish p).Obeys coarseManaging (.holding p s) fun _ l => l = .holding p s := by
  refine manages_quiet_coarse hs rfl fun pcb => ?_
  split
  · exact rfl
  · refine manages_quiet_coarse hs trivial fun now => ?_
    exact ⟨⟨s, rfl⟩, fun _ _ h => h⟩

lemma manages_failUnlessTerminal (hs : s.Steady) (msg : String) :
    (failUnlessTerminal p msg).Obeys coarseManaging (.holding p s)
      fun _ l => l = .holding p s := by
  refine manages_quiet_coarse hs rfl fun pcb => ?_
  split
  · exact rfl
  · exact manages_plain.2 (manages_mild hs (mild_failWith _ _))

lemma manages_takeText (hs : s.Steady) (field : String → Write) (text : Option String)
    (hfield : ∀ x, (field x).countsCall = false ∧ ∀ q, field x ≠ .addChild q) :
    (takeText p field text).Obeys coarseManaging (.holding p s) fun _ l => l = .holding p s := by
  cases text with
  | none => exact rfl
  | some x => exact manages_quiet_coarse (k := Prog.ret) hs ⟨rfl, hfield x⟩ fun _ => rfl

/-- Taking over a report counts its calls. -/
lemma manages_takeOver {units calls : ℤ} {k : ℕ} (payload : Payload) :
    (takeOver p payload).Obeys coarseManaging
      (.holding p (.heard units calls k (.json payload)))
      fun _ l => l = .holding p (.counted units calls k payload.llmCallsUsed) := by
  have hheard : (Stage.heard units calls k (.json payload)).Steady := fun _ => rfl
  have hcounted : (Stage.counted units calls k payload.llmCallsUsed).Steady := fun _ => rfl
  refine (manages_takeText hheard _ _ fun _ => ⟨rfl, fun _ h => by cases h⟩).bind _ fun _ _ hl => ?_
  subst hl
  refine (manages_takeText hheard _ _ fun _ => ⟨rfl, fun _ h => by cases h⟩).bind _ fun _ _ hl => ?_
  subst hl
  refine Prog.Obeys.step ⟨_, rfl⟩ fun _ l hl => ?_
  obtain rfl : l = .holding p (.heard units calls k (.json payload)) := hl
  refine Prog.Obeys.step ⟨_, _, _, _, rfl, rfl⟩ fun _ l hl => ?_
  obtain rfl : l = .holding p (.counted units calls k payload.llmCallsUsed) := hl
  refine manages_quiet_coarse hcounted rfl fun pcb => ?_
  refine Prog.Obeys.bind (fun _ l => l = .holding p (.counted units calls k payload.llmCallsUsed))
    ?_ fun _ _ hl => ?_
  · exact Prog.obeys_when (fun _ => ⟨⟨_, _, _, _, rfl⟩, fun _ _ h => h⟩) fun _ => rfl
  · subst hl
    exact manages_stampFinish hcounted

/-- Where a worker stands when it has applied what it has heard. -/
def Stage.applied (units calls : ℤ) (k : ℕ) : Raw → Stage
  | .json payload => .counted units calls k payload.llmCallsUsed
  | raw => .heard units calls k raw

lemma manages_applyResult {units calls : ℤ} {k : ℕ} (raw : Raw) :
    (applyResult p raw).Obeys coarseManaging (.holding p (.heard units calls k raw))
      fun completed l => l = .holding p (.applied units calls k raw) ∧
        (completed = true → ∃ payload, raw = .json payload) := by
  cases raw with
  | empty =>
    refine (manages_failUnlessTerminal (fun _ => rfl) _).bind _ fun _ _ hl => ?_
    subst hl
    refine (manages_stampFinish fun _ => rfl).bind _ fun _ _ hl => ⟨hl, fun h => by cases h⟩
  | corrupt =>
    refine (manages_failUnlessTerminal (fun _ => rfl) _).bind _ fun _ _ hl => ?_
    exact ⟨hl, fun h => by cases h⟩
  | json payload =>
    exact (manages_takeOver payload).bind _ fun _ _ hl => ⟨hl, fun _ => ⟨payload, rfl⟩⟩

/-- Where a worker stands when it has reaped its child. -/
def Stage.settling (units calls : ℤ) (k : ℕ) : Raw → Stage
  | .json payload => .due units calls k payload.llmCallsUsed
  | _ => .closed

lemma steady_settling (units calls : ℤ) (k : ℕ) (raw : Raw) :
    (Stage.settling units calls k raw).Steady := by
  cases raw <;> exact fun _ => rfl

lemma manages_supervise {units calls : ℤ} :
    (supervise p).Obeys managing (.holding p (.sized units calls))
      fun completed l => ∃ k raw, l = .holding p (.settling units calls k raw) ∧
        (completed = true → ∃ payload, raw = .json payload) := by
  refine Prog.Obeys.step ⟨_, _, rfl⟩ fun k l hl => ?_
  rw [hl p units calls rfl]
  refine Prog.Obeys.step ⟨_, _, rfl⟩ fun _ l hl => ?_
  rw [hl p units calls k rfl]
  refine Prog.Obeys.step ⟨_, _, _, rfl⟩ fun raw l hl => ?_
  rw [hl p units calls k rfl]
  refine (manages_coarse.2 (manages_applyResult raw)).bind _ fun completed l hl => ?_
  obtain ⟨rfl, hcompleted⟩ := hl
  cases raw with
  | empty =>
    refine Prog.Obeys.step (.inl ⟨_, _, _, rfl⟩) fun _ l hl => ?_
    exact ⟨k, .empty, hl.1 _ _ _ _ _ rfl, hcompleted⟩
  | corrupt =>
    refine Prog.Obeys.step (.inl ⟨_, _, _, rfl⟩) fun _ l hl => ?_
    exact ⟨k, .corrupt, hl.1 _ _ _ _ _ rfl, hcompleted⟩
  | json payload =>
    refine Prog.Obeys.step (.inr ⟨_, _, _, rfl⟩) fun _ l hl => ?_
    exact ⟨k, .json payload, hl.2 _ _ _ _ _ rfl, hcompleted⟩

/-- The reconciliation gives back what the child has not used. -/
lemma manages_reconcile {units calls : ℤ} {k : ℕ} (raw : Raw) (origQuota : ℤ) {completed : Bool}
    (hcompleted : completed = true → ∃ payload, raw = .json payload) :
    (reconcile p origQuota units calls completed).Obeys coarseManaging
      (.holding p (.settling units calls k raw)) fun _ l => l.Over p := by
  have hover : ∀ s, s.Steady → s.Light → (Desk.holding p s).Over p :=
    fun s hs hlight => .inr ⟨s, rfl, hs, hlight⟩
  cases completed with
  | false =>
    refine manages_quiet_coarse (steady_settling _ _ _ _) rfl fun pcb => ?_
    cases raw with
    | empty | corrupt =>
      refine ⟨.inr (.inl rfl), fun _ l hl => ?_⟩
      obtain rfl : l = .holding p .closed := hl
      exact hover _ (fun _ => rfl) ⟨rfl, rfl⟩
    | json payload =>
      refine ⟨.inr (.inr ⟨_, _, _, _, rfl⟩), fun _ l hl => ?_⟩
      obtain rfl : l = .holding p (.due units calls k payload.llmCallsUsed) := hl
      exact hover _ (fun _ => rfl) ⟨rfl, rfl⟩
  | true =>
    obtain ⟨payload, rfl⟩ := hcompleted rfl
    have hpre : (Desk.holding p (.due units calls k payload.llmCallsUsed)).allowsKernel
        (.readPcb p .fields) := fun q s h => (by cases h; rfl)
    refine Prog.Obeys.step hpre ?_
    rintro pcb l ⟨hfits, rfl⟩
    have hcalls : pcb.llmCallsUsed = payload.llmCallsUsed := hfits
    dsimp only
    rw [if_pos rfl]
    refine Prog.Obeys.bind (fun _ l => l = .holding p .closed ∨
      l = .holding p (.due units calls k payload.llmCallsUsed)) ?_ fun _ l hl => ?_
    · refine Prog.obeys_when (fun hless => ?_) fun _ => .inr rfl
      refine ⟨⟨p, units, calls, k, payload.llmCallsUsed, rfl, ?_, ?_, ?_⟩, fun _ l hl => ?_⟩
      · omega
      · omega
      · omega
      · exact .inl (hl _ _ _ _ _ rfl)
    · rcases hl with rfl | rfl
      · refine ⟨.inr (.inl rfl), fun _ l hl => ?_⟩
        obtain rfl : l = .holding p .closed := hl
        exact hover _ (fun _ => rfl) ⟨rfl, rfl⟩
      · refine ⟨.inr (.inr ⟨_, _, _, _, rfl⟩), fun _ l hl => ?_⟩
        obtain rfl : l = .holding p (.due units calls k payload.llmCallsUsed) := hl
        exact hover _ (fun _ => rfl) ⟨rfl, rfl⟩

lemma manages_runForked :
    (runForked p).Obeys managing (.holding p .checked) fun _ l => l.Over p := by
  refine manages_quiet (fun _ => rfl) rfl fun pcb => ?_
  refine Prog.Obeys.step ⟨p, rfl⟩ ?_
  rintro reserve l ⟨hnonneg, hl⟩
  rw [hl p rfl]
  split
  · next hblocked =>
    -- nothing was reserved, so nothing is lost when the agent is put back
    obtain rfl : reserve = 0 := le_antisymm hblocked.1 hnonneg
    refine manages_quiet (fun _ => rfl) ⟨rfl, rfl, fun _ h => by cases h⟩ fun _ => ?_
    exact manages_native.2 (manages_put (a := ()) rfl ⟨rfl, rfl⟩)
  · refine Prog.Obeys.step (.inl rfl) fun _ l hl => ?_
    obtain rfl : l = .holding p (.granted reserve) := hl
    have hpre : (Desk.holding p (.granted reserve)).allowsKernel (.readPcb p .fields) :=
      fun q s h => (by cases h; rfl)
    refine Prog.Obeys.step hpre ?_
    rintro before l ⟨-, rfl⟩
    refine manages_supervise.bind _ fun completed l hl => ?_
    obtain ⟨k, raw, rfl, hcompleted⟩ := hl
    exact manages_coarse.2 (manages_reconcile raw _ hcompleted)

lemma manages_forwardResult {l : Desk} (hl : l.Over p) :
    (forwardResult cfg p).Obeys kernelManaging l fun _ l => l.Over p := by
  rcases hl with rfl | ⟨s, rfl, hs, hlight⟩
  · exact (manages_gentle gentle_forwardResult).mono fun _ _ hl => .inl hl
  · refine (manages_mild hs (gentle_forwardResult.mono fun o ho => ho.mild)).mono fun _ _ hl => ?_
    exact .inr ⟨s, hl, hs, hlight⟩

lemma manages_launchForked :
    (launchForked cfg p).Obeys managing (.holding p .checked) fun _ l => l.Over p := by
  have hsteady : Stage.checked.Steady := fun _ => rfl
  have hwrite : Mild p (KOp.write p (.transition .running)) := ⟨rfl, rfl, fun _ h => by cases h⟩
  refine manages_quiet hsteady rfl fun pcb => ?_
  refine Prog.Obeys.bind (fun _ l => l = .holding p .checked) ?_ fun _ l hl => ?_
  · exact Prog.obeys_when (fun _ => mild_step hsteady hwrite) fun _ => rfl
  subst hl
  refine manages_quiet hsteady trivial fun _ => ?_
  refine manages_runForked.bind _ fun _ l hl => ?_
  refine Prog.Obeys.bind (fun _ l => l.Over p) ?_ fun _ l hl =>
    manages_native.2 (manages_forwardResult hl)
  exact ⟨trivial, fun _ l' hl' => hl' ▸ hl⟩

/-- A dispatch ends with the agent found dead, put back, or held with nothing reserved. -/
lemma manages_dispatchForked :
    (dispatchForked cfg p).Obeys managing (.holding p .picked)
      fun _ l => l = .holding p .picked ∨ l.Over p := by
  have hsteady : Stage.checked.Steady := fun _ => rfl
  have hover : (Desk.holding p .checked).Over p := .inr ⟨_, rfl, hsteady, rfl, rfl⟩
  have hpre : (Desk.holding p .picked).allowsKernel (.readPcb p .terminal) :=
    fun q s h => (by cases h; rfl)
  refine Prog.Obeys.step hpre ?_
  rintro pcb l ⟨-, rfl⟩
  simp only [Stage.read]
  split
  · exact .inl rfl
  split
  · split
    · refine (manages_native.2 (manages_mild hsteady (mild_failWith _ _))).mono fun _ l hl => ?_
      exact .inr (hl ▸ hover)
    · have hmild : (recv p).Only (Mild p) := gentle_recv.mono fun o ho => ho.mild
      refine (manages_native.2 (manages_mild hsteady hmild)).bind _ fun message l hl => ?_
      subst hl
      cases message with
      | none =>
        refine (manages_native.2 (manages_reparkWaiting hsteady rfl ⟨rfl, rfl⟩)).mono fun _ l hl => ?_
        exact .inr hl
      | some m =>
        refine manages_quiet hsteady ⟨rfl, rfl, fun _ h => by cases h⟩ fun _ => ?_
        refine manages_quiet hsteady ⟨rfl, rfl, fun _ h => by cases h⟩ fun _ => ?_
        exact manages_launchForked.mono fun _ _ hl => .inr hl
  · exact manages_launchForked.mono fun _ _ hl => .inr hl

/-- A turn of the loop. -/
lemma manages_loopForked :
    (loopForked cfg).Obeys managing .idle fun _ l => l = .idle := by
  refine Prog.Obeys.step trivial fun stop l hl => ?_
  obtain rfl : l = .idle := hl
  split
  · exact rfl
  refine Prog.Obeys.step trivial fun woken l hl => ?_
  obtain rfl : l = .idle := hl
  split
  · refine Prog.Obeys.step rfl fun picked l hl => ?_
    cases picked with
    | none => exact hl
    | some p =>
      obtain rfl : l = .holding p .picked := hl
      refine manages_dispatchForked.bind _ fun _ l hl => ?_
      refine Prog.Obeys.step ?_ fun _ _ hl => hl
      rcases hl with rfl | rfl | ⟨s, rfl, -, hlight⟩
      · exact .inr ⟨p, .picked, rfl, rfl, rfl⟩
      · exact .inl rfl
      · exact .inr ⟨p, s, rfl, hlight⟩
  · exact rfl

/-! ### The callers -/

/-- A caller between two calls. -/
def Desk.Calling (l : Desk) : Prop := ∃ seen e, l = .caller seen e

variable {seen : List Pid} {e : Errand}

/-- A caller that looks around gets to see more agents. -/
lemma manages_calls {α : Type} {prog : Prog KOp α} (h : prog.Only (CallOp true)) :
    prog.Obeys kernelManaging (.caller seen e)
      fun _ l => ∃ seen', seen ⊆ seen' ∧ l = .caller seen' e := by
  refine h.obeys (K := fun l => ∃ seen', seen ⊆ seen' ∧ l = Desk.caller seen' e) ?_
    ⟨seen, List.Subset.refl _, rfl⟩
  rintro β o l ho ⟨seen', hseen, rfl⟩
  cases o with
  | tableHas p =>
    refine ⟨trivial, fun here l' hl' => ⟨if here then p :: seen' else seen', ?_, hl'⟩⟩
    split
    · exact fun q hq => List.mem_cons_of_mem _ (hseen hq)
    · exact hseen
  | topup k => exact ⟨⟨rfl, ho⟩, fun _ l' hl' => ⟨seen', hseen, hl'⟩⟩
  | readPcb p _ => exact ⟨fun _ _ h => (by cases h), fun _ l' hl' => ⟨seen', hseen, hl'⟩⟩
  | tablePids | tableRemove p | dropMailbox p | mailboxPids =>
    exact ⟨trivial, fun _ l' hl' => ⟨seen', hseen, hl'⟩⟩
  | write p c =>
    cases c with
    | transition st => cases st <;> cases ho
    | _ => cases ho
  | _ => cases ho

lemma manages_calling {α : Type} {prog : Prog KOp α} (h : prog.Only (CallOp true)) {l : Desk}
    (hl : l.Calling) : prog.Obeys kernelManaging l fun _ l' => l'.Calling := by
  obtain ⟨seen, e, rfl⟩ := hl
  exact (manages_calls h).mono fun _ l' ⟨seen', _, hl'⟩ => ⟨seen', e, hl'⟩

lemma calling_wrote {l : Desk} (hl : l.Calling) (q : Pid) (c : Write) : (l.wrote q c).Calling := by
  obtain ⟨seen, e, rfl⟩ := hl
  simp only [Desk.wrote]
  split <;> exact ⟨_, _, rfl⟩

lemma manages_reapAll (root : Pid) (reason : String) (doomed : List Pid) {l : Desk}
    (hl : l.Calling) :
    (Kernel.reapAll root reason doomed).Obeys kernelManaging l fun _ l' => l'.Calling := by
  induction doomed generalizing l with
  | nil => exact hl
  | cons child rest ih =>
    have hwrite : ∀ (c : Write) (l : Desk), l.Calling → c.countsCall = false →
        kernelManaging.pre (.write child c) l := by
      rintro c _ ⟨seen, e, rfl⟩ hc
      exact ⟨hc, fun h => by cases h⟩
    have honly : (Prog.perform (KOp.readPcb child .terminal)).Only (CallOp true) :=
      ⟨trivial, fun _ => trivial⟩
    have hread := manages_calling honly hl
    refine hread.bind _ fun pcb l hl => ?_
    split
    · exact ih hl
    · refine Prog.Obeys.step (hwrite _ _ hl rfl) fun _ l' hl' => ?_
      obtain rfl : l' = l.wrote child _ := hl'
      have hl₁ := calling_wrote hl child (.transition .zombie)
      refine Prog.Obeys.step (hwrite _ _ hl₁ rfl) fun _ l' hl' => ?_
      obtain rfl : l' = (l.wrote child _).wrote child _ := hl'
      exact ih (calling_wrote hl₁ _ _)

/-- `kill_running` of the agent that is being killed. -/
lemma manages_killRunning_root :
    (killRunning p).Obeys managing (.caller seen (.slaying p))
      fun _ l => l = .caller seen (.struck p) := by
  refine Prog.Obeys.step ⟨seen, _, rfl, fun q hq => by cases hq; rfl⟩ fun child l hl => ?_
  rw [hl _ _ rfl]
  cases child with
  | none => exact rfl
  | some k =>
    refine ⟨⟨seen, _, rfl, fun q j hq => by cases hq; rfl⟩, fun _ l hl => ?_⟩
    exact hl _ _ rfl

/-- `kill_running` of the descendants. -/
lemma manages_killAllRunning (victims : List Pid) :
    (killAllRunning victims).Obeys managing (.caller seen (.struck p))
      fun _ l => l = .caller seen (.struck p) := by
  induction victims with
  | nil => exact rfl
  | cons q rest ih =>
    refine Prog.Obeys.bind (fun _ l => l = .caller seen (.struck p)) ?_ fun _ _ hl => hl ▸ ih
    refine Prog.Obeys.step ⟨seen, _, rfl, fun q hq => by cases hq⟩ fun child l hl => ?_
    rw [hl _ _ rfl]
    cases child with
    | none => exact rfl
    | some k =>
      refine ⟨⟨seen, _, rfl, fun q j hq => by cases hq⟩, fun _ l hl => ?_⟩
      exact hl _ _ rfl

/-- `Kernel.kill`: the child is signalled between the transition and the removal from the
ready queue. -/
lemma manages_killForked (fuel : ℕ) {l : Desk} (hl : l.Calling) :
    (killForked fuel p).Obeys managing l fun _ l' => l'.Calling := by
  obtain ⟨seen, e, rfl⟩ := hl
  refine Prog.Obeys.step trivial fun here l hl => ?_
  obtain rfl : l = .caller (if here then p :: seen else seen) e := hl
  cases here with
  | false => exact ⟨_, _, rfl⟩
  | true =>
    refine Prog.Obeys.step (fun _ _ h => by cases h) fun pcb l hl => ?_
    obtain rfl : l = .caller (p :: seen) e := hl
    split
    · exact ⟨_, _, rfl⟩
    refine (manages_native.2 (manages_calls (only_descendantsOf fuel p))).bind _ ?_
    rintro victims l ⟨seen', hseen, rfl⟩
    have hp : p ∈ seen' := hseen List.mem_cons_self
    cases victims with
    | none => exact ⟨_, _, rfl⟩
    | some victims =>
      refine Prog.Obeys.step ⟨rfl, fun h => by cases h⟩ fun _ l hl => ?_
      obtain rfl : l = .caller seen' (.slaying p) := by
        rw [show l = Desk.wrote p _ _ from hl, Desk.wrote, if_pos rfl, if_pos hp]
      refine Prog.Obeys.step ⟨rfl, fun h => by cases h⟩ fun _ l hl => ?_
      obtain rfl : l = .caller seen' (.slaying p) := hl
      refine Prog.Obeys.bind (fun _ l => l = .caller seen' (.struck p)) ?_ fun _ l hl => ?_
      · refine manages_killRunning_root.bind _ fun _ l hl => ?_
        subst hl
        exact manages_killAllRunning victims
      subst hl
      refine Prog.Obeys.step ⟨seen', rfl⟩ fun _ l hl => ?_
      obtain rfl : l = .caller seen' (.struck p) := hl
      have hcalling : (Desk.caller seen' (.struck p)).Calling := ⟨_, _, rfl⟩
      refine (manages_native.2 (manages_calling (only_descendantsOf fuel p) hcalling)).bind _
        fun doomed l hl => ?_
      cases doomed with
      | none => exact hl
      | some doomed =>
        refine (manages_native.2 (manages_reapAll _ _ doomed hl)).bind _ fun _ l hl => ?_
        exact (manages_native.2 (manages_calling (only_dropAll _) hl)).bind _ fun _ _ hl => hl

lemma manages_linkParent (parentPid : Option Pid) :
    (Kernel.linkParent parentPid p).Obeys kernelManaging (.spawning p)
      fun _ l => l = .spawning p := by
  cases parentPid with
  | none => exact rfl
  | some parent =>
    refine Prog.Obeys.step trivial fun here l hl => ?_
    obtain rfl : l = .spawning p := hl
    split
    · exact ⟨⟨rfl, fun h => by cases h⟩, fun _ _ hl => hl⟩
    · exact rfl

lemma manages_spawn (args : SpawnArgs) {l : Desk} (hl : l.Calling) :
    (Kernel.spawn args).Obeys kernelManaging l fun _ l' => l'.Calling := by
  refine Prog.Obeys.step hl fun pid l hl => ?_
  obtain rfl : l = .spawning pid := hl
  refine Prog.Obeys.step rfl fun added l hl => ?_
  cases added with
  | false => exact ⟨_, _, hl⟩
  | true =>
    obtain rfl : l = .spawning pid := hl
    refine (manages_linkParent args.parentPid).bind _ fun _ l hl => ?_
    subst hl
    refine Prog.Obeys.bind (fun _ l => l = .spawning pid) ?_ fun _ l hl => ?_
    · exact Prog.obeys_when (fun _ => ⟨⟨rfl, fun h => by cases h⟩, fun _ _ hl => hl⟩) fun _ => rfl
    subst hl
    exact Prog.Obeys.step (.inl rfl) fun _ l hl => ⟨[], .none, hl⟩

/-- **Every call.** -/
lemma manages_fleetCode (c : FleetCall) {l : Desk} (hl : l.Calling) :
    (c.code .process).Obeys managing l fun _ l' => l'.Calling := by
  have hworker : l.isWorker = false := by
    obtain ⟨seen, e, rfl⟩ := hl
    rfl
  cases c with
  | childMoves k => exact ⟨hworker, fun _ l' hl' => hl' ▸ hl⟩
  | kernel c =>
    cases c with
    | spawn args => exact manages_native.2 ((manages_spawn args hl).bind _ fun _ _ hl => hl)
    | kill fuel pid => exact (manages_killForked fuel hl).bind _ fun _ _ hl => hl
    | reapTerminal =>
      exact manages_native.2 ((manages_calling only_reapTerminal hl).bind _ fun _ _ hl => hl)
    | topup amount =>
      exact manages_native.2 ((manages_calling (only_quotaTopup amount) hl).bind _ fun _ _ hl => hl)
    | shutdown =>
      refine Prog.Obeys.step trivial fun _ l' hl' => ?_
      obtain rfl : l' = l := hl'
      refine Prog.Obeys.step hworker fun _ l'' hl'' => ?_
      obtain rfl : l'' = l' := hl''
      have honly : (do
          let pids ← Prog.perform KOp.mailboxPids
          Kernel.dropMailboxes pids).Only (CallOp true) :=
        Prog.Only.step trivial fun pids => only_dropAll pids
      exact manages_native.2 (manages_calling honly hl)

/-- The bookkeeping of a thread between two turns or two calls. -/
def Desk.Rest {n : ℕ} (t : Tid n) (l : Desk) : Prop :=
  if t.isWorker then l = .idle else l.Calling

/-- **Every thread** of the process backend. -/
lemma manages_fleet {n : ℕ} (cfg : KernelConfig) (out : Outside) (kids : ℕ → Offspring)
    (t : Tid n) {l : Desk} (hl : l.Rest t) :
    ((fleetSystem n .process cfg out kids).body t).Obeys managing l fun _ l' => l'.Rest t := by
  cases t with
  | worker i =>
    obtain rfl : l = .idle := hl
    exact manages_loopForked
  | client k => exact hl

lemma manages_entry {n : ℕ} (cfg : KernelConfig) (out : Outside) (kids : ℕ → Offspring)
    {t : Tid n} {c : FleetCall} {l : Desk}
    (ht : (fleetSystem n .process cfg out kids).serves t c = true) (hl : l.Rest t) :
    ((fleetSystem n .process cfg out kids).entry c).Obeys managing l fun _ l' => l'.Rest t := by
  cases t with
  | worker i => cases ht
  | client k =>
    have hl : l.Calling := hl
    exact (manages_fleetCode c hl).bind _ fun _ _ hl => hl

end Gcos.Process
