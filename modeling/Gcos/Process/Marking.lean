import Gcos.Process.Desk

/-!
# The mark of a running agent

A dispatch of the process backend looks at the block of its agent and moves the agent to
`RUNNING` if it has no start time yet; only then it asks for units.  The discipline here says
of every thread how far it has come with this *mark*: what the last look at the block has
shown, that the agent was launched, that it was blocked on the quota, that its child is in
the registry.  A caller moves nobody but an agent that it has just made, except to `ZOMBIE`.
-/

namespace Gcos.Process

open Lib Exec Pool

/-- How far a thread has come with the mark of the agent that it dispatches. -/
inductive Mark
  /-- The thread dispatches nobody, or has let go of its agent. -/
  | off
  /-- A caller has made `p` and not yet enqueued it. -/
  | made (p : Pid)
  /-- The agent was picked. -/
  | picked
  /-- The last look at the block has shown whether the agent was ever started. -/
  | looked (started : Bool)
  /-- The agent was moved to `RUNNING`, or was started by an earlier dispatch. -/
  | launched
  /-- There were no units for the agent. -/
  | blocked
  /-- The child of the agent is in the registry. -/
  | alive
deriving DecidableEq, Repr

namespace Mark

/-- Which transition may be asked for where. -/
def allowsTransition (p : Pid) (m : Mark) : AgentState → Prop
  | .zombie => True
  | .running => m = looked false
  | .blocked => m = launched
  | .waiting => m = made p ∨ ∃ s, m = looked s
  | .done | .timeout | .error => m = alive ∨ ∃ s, m = looked s
  | .new | .ready => False

/-- Which operation may be performed where. -/
def allows : {β : Type} → FOp β → Mark → Prop
  | _, .inl (.inl (.write p (.transition st))), m => m.allowsTransition p st
  | _, .inl (.inl (.enterBusy _)), m => m = looked true ∨ m = launched
  | _, .inl (.inl (.put p)), m => m = made p ∨ m = blocked ∨ ∃ s, m = looked s
  | _, .inl (.inr (.assign _ (.state _))), m => m = alive
  | _, .inr (.register _ _), m => m = launched
  | _, _, _ => True

/-- Where the thread stands after it has asked for a transition. -/
def moved (m : Mark) : AgentState → Mark
  | .running => launched
  | .blocked => blocked
  | .done | .timeout | .error => if m = alive then alive else off
  | .new | .ready | .waiting | .zombie => m

/-- Where the thread stands after the answer. -/
def after (m : Mark) : {β : Type} → FOp β → β → Mark
  | _, .inl (.inl (.readPcb _ _)), pcb =>
    match m with
    | picked | looked _ => looked pcb.startedAt.isSome
    | m => m
  | _, .inl (.inl (.write _ (.transition st))), _ => m.moved st
  | _, .inl (.inl (.newPcb _)), p => made p
  | _, .inl (.inl (.tableAdd _)), added =>
    match m with
    | made p => if added then made p else off
    | m => m
  | _, .inl (.inl .pickNext), some _ => picked
  | _, .inl (.inl (.enterBusy _)), _ => launched
  | _, .inl (.inl (.put _)), _ => off
  | _, .inr (.register _ _), _ => alive
  | _, _, _ => m

end Mark

/-- The discipline of the mark, for programs over the operations that `emb` embeds. -/
def markingVia {Op : Type → Type} (emb : {β : Type} → Op β → FOp β) : Discipline Op Mark where
  pre o m := m.allows (emb o)
  post o m b m' := m' = m.after (emb o) b

/-- The discipline of the mark. -/
def marking : Discipline FOp Mark := markingVia fun o => o

/-- The discipline of the mark, for the programs of the kernel. -/
def kernelMarking : Discipline KOp Mark := markingVia fun o => .inl (.inl o)

/-- The discipline of the mark, for the programs of the coarse model. -/
def coarseMarking : Discipline POp Mark := markingVia fun o => .inl o

lemma marks_coarse {α : Type} {prog : Prog POp α} {m : Mark} {Q : α → Mark → Prop} :
    (coarse prog).Obeys marking m Q ↔ prog.Obeys coarseMarking m Q := Prog.obeys_lift

lemma marks_plain {α : Type} {prog : Prog KOp α} {m : Mark} {Q : α → Mark → Prop} :
    (plain prog).Obeys coarseMarking m Q ↔ prog.Obeys kernelMarking m Q := Prog.obeys_lift

lemma marks_native {α : Type} {prog : Prog KOp α} {m : Mark} {Q : α → Mark → Prop} :
    (native prog).Obeys marking m Q ↔ prog.Obeys kernelMarking m Q :=
  marks_coarse.trans marks_plain

/-! ### The rules -/

section

variable {Op : Type → Type} {emb : {β : Type} → Op β → FOp β} {α β : Type} {m : Mark}

/-- The operations after which a thread that stands at `m` stands there still. -/
def Still (emb : {β : Type} → Op β → FOp β) (m : Mark) : Prog.Class Op := fun o =>
  m.allows (emb o) ∧ ∀ b, m.after (emb o) b = m

/-- The operations that are allowed everywhere. -/
def Free (emb : {β : Type} → Op β → FOp β) : Prog.Class Op := fun o => ∀ m : Mark, m.allows (emb o)

/-- The rule for one operation. -/
lemma marks_step {o : Op β} {k : β → Prog Op α} {Q : α → Mark → Prop} (hpre : m.allows (emb o))
    (hk : ∀ b, (k b).Obeys (markingVia emb) (m.after (emb o) b) Q) :
    (Prog.perform o >>= k).Obeys (markingVia emb) m Q := by
  refine Prog.Obeys.step hpre ?_
  rintro b _ rfl
  exact hk b

/-- The rule for the last operation. -/
lemma marks_perform {o : Op β} {Q : β → Mark → Prop} (hpre : m.allows (emb o))
    (hQ : ∀ b, Q b (m.after (emb o) b)) : (Prog.perform o).Obeys (markingVia emb) m Q := by
  refine ⟨hpre, ?_⟩
  rintro b _ rfl
  exact hQ b

/-- Programs that leave the thread where it stands. -/
lemma marks_only {prog : Prog Op α} (h : prog.Only (Still emb m)) :
    prog.Obeys (markingVia emb) m fun _ m' => m' = m := by
  refine h.obeys (K := fun m' => m' = m) ?_ rfl
  rintro β o _ ho rfl
  refine ⟨ho.1, ?_⟩
  rintro b _ rfl
  exact ho.2 b

/-- Programs that may be performed everywhere. -/
lemma marks_free {prog : Prog Op α} (h : prog.Only (Free emb)) :
    prog.Obeys (markingVia emb) m fun _ _ => True :=
  h.obeys (K := fun _ => True) (fun _ m ho _ => ⟨ho m, fun _ _ _ => trivial⟩) trivial

/-- The rule for a program that leaves the thread where it stands, and what follows it. -/
lemma marks_then {prog : Prog Op β} {k : β → Prog Op α} {Q : α → Mark → Prop}
    (h : prog.Only (Still emb m)) (hk : ∀ b, (k b).Obeys (markingVia emb) m Q) :
    (prog >>= k).Obeys (markingVia emb) m Q := by
  refine (marks_only h).bind _ ?_
  rintro b _ rfl
  exact hk b

end

/-! ### The workers -/

variable {cfg : KernelConfig} {p : Pid}

lemma free_of_forwards {β : Type} (o : KOp β) (ho : Forwards p o) :
    Free (fun o => .inl (.inl o)) o := by
  cases o with
  | readPcb q look | now | mailbox q | mailboxGet box | mailboxPut box msg => exact fun _ => trivial
  | _ => exact ho.elim

lemma free_of_books {β : Type} (o : POp β) (ho : Books p o) : Free (fun o => .inl o) o := by
  rcases o with o | o
  · cases o with
    | readPcb q look | now => exact fun _ => trivial
    | _ => exact ho.elim
  · cases o with
    | refund units => exact fun _ => trivial
    | assign q a =>
      cases a with
      | state st => exact ho.elim
      | _ => exact fun _ => trivial
    | _ => exact ho.elim

/-- The operations of the worker of a child that is in the registry. -/
abbrev Tending : Prog.Class POp := Still (fun o => .inl o) .alive

lemma tending_of_applies {β : Type} (o : POp β) (ho : Applies p o) : Tending o := by
  rcases o with o | o
  · cases o with
    | readPcb q look | now => exact ⟨trivial, fun _ => rfl⟩
    | write q c =>
      cases c with
      | transition st =>
        cases st with
        | error => exact ⟨.inl rfl, fun _ => rfl⟩
        | _ => exact ho.elim
      | error msg | result text => exact ⟨trivial, fun _ => rfl⟩
      | _ => exact ho.elim
    | _ => exact ho.elim
  · cases o with
    | refund units => exact ⟨trivial, fun _ => rfl⟩
    | assign q a =>
      cases a with
      | state st => exact ⟨rfl, fun _ => rfl⟩
      | _ => exact ⟨trivial, fun _ => rfl⟩
    | _ => exact ho.elim

lemma marks_supervise : (supervise p).Obeys marking .launched fun _ _ => True := by
  refine marks_step trivial fun k => marks_step rfl fun _ => marks_step trivial fun raw => ?_
  refine (marks_coarse.2 (marks_only ((only_applyResult raw).mono tending_of_applies))).bind _ ?_
  rintro completed _ rfl
  exact marks_step trivial fun _ => trivial

lemma marks_runForked : (runForked p).Obeys marking .launched fun _ _ => True := by
  refine marks_step trivial fun pcb => marks_step trivial fun reserve => ?_
  split
  · refine marks_step rfl fun _ => marks_step (.inr (.inl rfl)) fun _ => ?_
    trivial
  · refine marks_step trivial fun _ => marks_step trivial fun before => ?_
    refine marks_supervise.bind _ fun completed m _ => ?_
    exact marks_coarse.2 (marks_free ((only_reconcile _ _ _ _).mono free_of_books))

/-- Who has no start time is moved to `RUNNING` before units are asked for. -/
lemma marks_launchForked {s : Bool} :
    (launchForked cfg p).Obeys marking (.looked s) fun _ _ => True := by
  refine marks_step trivial fun pcb => ?_
  refine Prog.Obeys.bind (fun _ m => m = .looked true ∨ m = .launched) ?_ fun _ m hm => ?_
  · refine Prog.obeys_when (fun hnew => ?_) fun hstarted => .inl ?_
    · refine marks_perform ?_ fun _ => .inr rfl
      show Mark.looked pcb.startedAt.isSome = .looked false
      rw [hnew]
      rfl
    · show Mark.looked pcb.startedAt.isSome = .looked true
      rw [Option.isSome_iff_ne_none.2 hstarted]
  · refine marks_step hm fun _ => marks_runForked.bind _ fun _ m _ => marks_step trivial fun _ => ?_
    exact marks_native.2 (marks_free (only_forwardResult.mono free_of_forwards))

lemma marks_failWith {s : Bool} (msg : String) :
    (failWith p .error msg).Obeys kernelMarking (.looked s) fun _ _ => True := by
  refine marks_step (.inr ⟨s, rfl⟩) fun _ => ?_
  exact marks_perform trivial fun _ => trivial

lemma marks_reparkWaiting {s : Bool} :
    (reparkWaiting cfg p).Obeys kernelMarking (.looked s) fun _ _ => True := by
  refine marks_step trivial fun now => marks_step trivial fun pcb => marks_step trivial fun _ => ?_
  dsimp only
  split
  · exact marks_failWith _
  · refine marks_step (.inr ⟨_, rfl⟩) fun _ => marks_step (.inr (.inr ⟨_, rfl⟩)) fun _ => ?_
    trivial

lemma marks_dispatchForked : (dispatchForked cfg p).Obeys marking .picked fun _ _ => True := by
  refine marks_step trivial fun pcb => ?_
  split
  · trivial
  split
  · split
    · exact marks_native.2 (marks_failWith _)
    · have hrecv : (recv p).Only (Still (fun o => .inl (.inl o)) (.looked pcb.startedAt.isSome)) :=
        Prog.Only.step ⟨trivial, fun _ => rfl⟩ fun _ => Prog.only_perform ⟨trivial, fun _ => rfl⟩
      refine (marks_native.2 (marks_only hrecv)).bind _ ?_
      rintro msg _ rfl
      cases msg with
      | none => exact marks_native.2 marks_reparkWaiting
      | some msg =>
        refine marks_step trivial fun _ => marks_step trivial fun _ => ?_
        exact marks_launchForked
  · exact marks_launchForked

/-- **The loop of a worker**, from wherever the last turn has left it. -/
lemma marks_loopForked (m : Mark) : (loopForked cfg).Obeys marking m fun _ _ => True := by
  refine marks_step trivial fun stopped => ?_
  split
  · trivial
  refine marks_step trivial fun woken => ?_
  split
  · refine marks_step trivial fun picked => ?_
    cases picked with
    | none => trivial
    | some p =>
      refine marks_dispatchForked.bind _ fun _ m _ => ?_
      exact marks_step trivial fun _ => trivial
  · trivial

/-! ### The callers -/

/-- The operations of the calls other than `spawn`. -/
lemma still_callOp {β : Type} (o : KOp β) (ho : CallOp false o) :
    Still (fun o => .inl (.inl o)) .off o := by
  cases o with
  | write q c =>
    cases c with
    | transition st =>
      cases st with
      | zombie => exact ⟨trivial, fun _ => rfl⟩
      | _ => exact ho.elim
    | error msg => exact ⟨trivial, fun _ => rfl⟩
    | _ => exact ho.elim
  | readPcb q _ | tableHas q | tablePids | tableRemove q | dropMailbox q | mailboxPids | topup k
  | popQueued q | setStop => exact ⟨trivial, fun _ => rfl⟩
  | _ => exact ho.elim

/-- The operations of the callers, while they make no agent. -/
abbrev Calling : Prog.Class FOp := Still (fun o => o) .off

lemma calling_native {α : Type} {prog : Prog KOp α} (h : prog.Only (CallOp false)) :
    (native prog).Only Calling :=
  Prog.Only.lift (Prog.Only.lift (h.mono still_callOp))

lemma calling_killAllRunning (victims : List Pid) : (killAllRunning victims).Only Calling := by
  induction victims with
  | nil => trivial
  | cons q rest ih =>
    refine Prog.Only.bind ?_ fun _ => ih
    refine Prog.Only.step ⟨trivial, fun _ => rfl⟩ fun child => ?_
    split
    · trivial
    · exact Prog.only_perform ⟨trivial, fun _ => rfl⟩

lemma calling_killForked (fuel : ℕ) (pid : Pid) : (killForked fuel pid).Only Calling := by
  refine Prog.Only.step ⟨trivial, fun _ => rfl⟩ fun here => ?_
  split
  · refine Prog.Only.step ⟨trivial, fun _ => rfl⟩ fun pcb => ?_
    split
    · trivial
    refine (calling_native (only_descendantsOf fuel pid)).bind fun victims => ?_
    cases victims with
    | none => trivial
    | some victims =>
      refine Prog.Only.step ⟨trivial, fun _ => rfl⟩ fun _ => ?_
      refine Prog.Only.step ⟨trivial, fun _ => rfl⟩ fun _ => ?_
      refine (calling_killAllRunning _).bind fun _ => ?_
      refine Prog.Only.step ⟨trivial, fun _ => rfl⟩ fun _ => ?_
      refine (calling_native (only_descendantsOf fuel pid)).bind fun doomed => ?_
      cases doomed with
      | none => trivial
      | some doomed =>
        refine (calling_native (only_reap _ _ _)).bind fun _ => ?_
        exact (calling_native (only_dropAll _)).bind fun _ => trivial
  · trivial

lemma marks_spawn (args : SpawnArgs) :
    (Kernel.spawn args).Obeys kernelMarking .off fun _ m => m = .off := by
  refine marks_step trivial fun pid => marks_step trivial fun added => ?_
  cases added with
  | false => rfl
  | true =>
    have hlink : (Kernel.linkParent args.parentPid pid).Only
        (Still (fun o => .inl (.inl o)) (.made pid)) := by
      unfold Kernel.linkParent
      split
      · trivial
      · refine Prog.Only.step ⟨trivial, fun _ => rfl⟩ fun here => ?_
        split
        · exact Prog.only_perform ⟨trivial, fun _ => rfl⟩
        · trivial
    refine marks_then hlink fun _ => ?_
    refine marks_then (Prog.only_when (Prog.only_perform ⟨.inl rfl, fun _ => rfl⟩)) fun _ => ?_
    exact marks_step (.inl rfl) fun _ => rfl

/-- **Every call.** -/
lemma marks_fleetCode (c : FleetCall) :
    (c.code .process).Obeys marking .off fun _ m => m = .off := by
  cases c with
  | childMoves k => exact marks_perform trivial fun _ => rfl
  | kernel c =>
    cases c with
    | spawn args => exact marks_native.2 ((marks_spawn args).bind _ fun _ _ hm => hm)
    | kill fuel pid => exact marks_only ((calling_killForked fuel pid).bind fun _ => trivial)
    | reapTerminal => exact marks_only (calling_native (only_reapTerminal.bind fun _ => trivial))
    | topup amount =>
      exact marks_only (calling_native ((only_quotaTopup amount).bind fun _ => trivial))
    | shutdown =>
      refine marks_step trivial fun _ => marks_step trivial fun _ => marks_step trivial fun pids => ?_
      exact marks_only (calling_native (only_dropAll pids))

end Gcos.Process
