import Gcos.Kernel.World

/-!
# What an operation can change

For each part of the world, the operations that move it; all others leave it alone.  The
proofs about runs look at the operations that matter to them and take the rest from here.
-/

namespace Gcos

open Lib

namespace KOp

/-- The operations that change a control block. -/
def movesBlocks : {β : Type} → KOp β → Bool
  | _, .write _ _ | _, .newPcb _ | _, .put _ => true
  | _, _ => false

/-- The operations that change the ready queue. -/
def movesQueue : {β : Type} → KOp β → Bool
  | _, .pickNext | _, .put _ | _, .popQueued _ | _, .taskDone => true
  | _, _ => false

/-- The operations that change the entries of the ready queue. -/
def movesEntries : {β : Type} → KOp β → Bool
  | _, .pickNext | _, .put _ | _, .popQueued _ => true
  | _, _ => false

/-- The agent that is put into the ready queue. -/
def puts : {β : Type} → KOp β → Option Pid
  | _, .put p => some p
  | _, _ => none

/-- The operation that picks an agent. -/
def picks : {β : Type} → KOp β → Bool
  | _, .pickNext => true
  | _, _ => false

/-- The operations with which a worker lets go of its agent. -/
def releases : {β : Type} → KOp β → Bool
  | _, .put _ | _, .taskDone => true
  | _, _ => false

/-- The agent whose call is counted. -/
def counts : {β : Type} → KOp β → Option Pid
  | _, .write p (.countCall _) => some p
  | _, _ => none

/-- The agent whose step begins. -/
def starts : {β : Type} → KOp β → Option Pid
  | _, .enterBusy p => some p
  | _, _ => none

/-- The operations that change the process table. -/
def movesTable : {β : Type} → KOp β → Bool
  | _, .tableAdd _ | _, .tableRemove _ => true
  | _, _ => false

/-- The operations that change the message bus. -/
def movesBus : {β : Type} → KOp β → Bool
  | _, .mailbox _ | _, .mailboxGet _ | _, .mailboxPut _ _ | _, .dropMailbox _ => true
  | _, _ => false

/-- The agent whose mailbox is looked up. -/
def looksUp : {β : Type} → KOp β → Option Pid
  | _, .mailbox p => some p
  | _, _ => none

/-- The operation that puts a message into a mailbox. -/
def posts : {β : Type} → KOp β → Bool
  | _, .mailboxPut _ _ => true
  | _, _ => false

/-- The operation that hands out a pid. -/
def movesPids : {β : Type} → KOp β → Bool
  | _, .newPcb _ => true
  | _, _ => false

/-- The operations that change the quota. -/
def movesQuota : {β : Type} → KOp β → Bool
  | _, .acquire | _, .refund | _, .topup _ => true
  | _, _ => false

/-- The operations after which a thread holds or is spawning another agent. -/
def movesHands : {β : Type} → KOp β → Bool
  | _, .newPcb _ | _, .tableAdd _ | _, .pickNext | _, .put _ | _, .taskDone => true
  | _, _ => false

end KOp

namespace World

variable {n : ℕ} {cfg : KernelConfig} {out : Outside} {t : Tid n} {w : World n} {β : Type}
  {o : KOp β}

/-- What a write does to the blocks of the world. -/
lemma exec_write (cfg : KernelConfig) (out : Outside) (t : Tid n) (w : World n) (p : Pid)
    (c : Write) :
    (exec cfg out t (.write p c) w).2.pcbs =
        Function.update w.pcbs p (c.apply (w.clockFrom out) (w.pcbs p)) ∧
      (exec cfg out t (.write p c) w).2.table = w.table ∧
      (exec cfg out t (.write p c) w).2.nextPid = w.nextPid := by
  cases c <;> exact ⟨rfl, rfl, rfl⟩

lemma pcb_write (cfg : KernelConfig) (out : Outside) (t : Tid n) (w : World n) (p : Pid) (c : Write) :
    (exec cfg out t (.write p c) w).2.pcbs p = c.apply (w.clockFrom out) (w.pcbs p) := by
  rw [(exec_write cfg out t w p c).1, Function.update_self]

lemma pcbs_exec (ho : o.movesBlocks = false) : (exec cfg out t o w).2.pcbs = w.pcbs := by
  cases o with
  | write p c | newPcb args | put p => cases ho
  | tableAdd p | waitNonempty | pickNext | acquire | swapOut p pages =>
    simp only [exec]
    split <;> rfl
  | chat purpose request =>
    simp only [exec]
    split <;> rfl
  | _ => rfl

/-- What an operation makes of a block that exists: a write changes it, the ready queue makes
it `READY`, and all else leaves it alone. -/
inductive PcbStep (out : Outside) (w : World n) (p : Pid) :
    {β : Type} → KOp β → AgentControlBlock → Prop
  | write (c : Write) : PcbStep out w p (.write p c) (c.apply (w.clockFrom out) (w.pcbs p))
  | put (hlive : (w.pcbs p).isTerminal = false) :
      PcbStep out w p (.put p) ((w.pcbs p).transition .ready (out.clock w.ticks))
  | same {β : Type} (o : KOp β) : PcbStep out w p o (w.pcbs p)

variable (cfg out t o) in
lemma pcb_exec {p : Pid} (hnew : p ≠ (w.nextPid : ℤ)) :
    PcbStep out w p o ((exec cfg out t o w).2.pcbs p) := by
  cases o with
  | write q c =>
    rw [(exec_write cfg out t w q c).1]
    by_cases hq : p = q
    · subst hq
      rw [Function.update_self]
      exact .write c
    · rw [Function.update_of_ne hq]
      exact .same _
  | newPcb args =>
    simp only [exec, note]
    rw [Function.update_of_ne hnew]
    exact .same _
  | put q =>
    rcases exec_put cfg out t w q with ⟨-, -, hpcbs, -⟩ | ⟨hlive, -, hpcbs, -⟩
    · rw [hpcbs]
      exact .same _
    · rw [hpcbs]
      by_cases hq : p = q
      · subst hq
        rw [Function.update_self]
        exact .put hlive
      · rw [Function.update_of_ne hq]
        exact .same _
  | _ =>
    rw [pcbs_exec rfl]
    exact .same _

lemma queue_exec (ho : o.movesQueue = false) : (exec cfg out t o w).2.queue = w.queue := by
  cases o with
  | pickNext | put p | popQueued p | taskDone => cases ho
  | tableAdd p | waitNonempty | acquire | swapOut p pages | write p c | chat purpose request =>
    simp only [exec]
    split <;> rfl
  | _ => rfl

lemma entries_exec (ho : o.movesEntries = false) :
    (exec cfg out t o w).2.queue.q = w.queue.q := by
  cases o with
  | pickNext | put p | popQueued p => cases ho
  | taskDone =>
    simp only [exec, note, ReadyQueue.taskDone]
    split <;> rfl
  | _ => rw [queue_exec rfl]

/-- Only `put` records that an agent was enqueued. -/
lemma enqueued_exec (ho : o.movesEntries = false) :
    (exec cfg out t o w).2.enqueued = w.enqueued := by
  cases o with
  | pickNext | put p | popQueued p => cases ho
  | tableAdd p | waitNonempty | acquire | swapOut p pages | write p c | chat purpose request =>
    simp only [exec]
    split <;> rfl
  | _ => rfl

lemma mem_enqueued_exec {p : Pid} (hp : p ∈ w.enqueued) :
    p ∈ (exec cfg out t o w).2.enqueued := by
  cases o with
  | put q =>
    simp only [exec, put]
    split
    · exact hp
    · simp only [note]
      split
      · exact List.mem_append_left _ hp
      · exact hp
  | pickNext =>
    simp only [exec]
    split <;> exact hp
  | popQueued q => exact hp
  | _ => rwa [enqueued_exec rfl]

/-- What is in the queue after an operation was there before, or was put there. -/
lemma mem_entries_exec {p : Pid} (hp : p ∈ (exec cfg out t o w).2.queue.q) :
    p ∈ w.queue.q ∨ o.puts = some p ∧ (w.pcbs p).isTerminal = false ∧
      ((exec cfg out t o w).2.pcbs p).state = .ready := by
  cases o with
  | pickNext =>
    rcases Scheduler.pickNext_cases w.pcbs (out.clock w.ticks) w.queue cfg.scheduler with
      ⟨-, hpick⟩ | ⟨r, -, hpick⟩
    · simp only [exec, hpick] at hp
      exact .inl hp
    · simp only [exec, hpick, note] at hp
      exact .inl (List.mem_of_mem_erase hp)
  | popQueued r =>
    simp only [exec, ReadyQueue.pop] at hp
    split at hp
    · exact .inl (List.mem_of_mem_erase hp)
    · exact .inl hp
  | put r =>
    by_cases hlive : (w.pcbs r).isTerminal = true
    · simp only [exec, put, hlive, if_true] at hp
      exact .inl hp
    · simp only [exec, put, hlive] at hp ⊢
      by_cases hpr : p = r
      · have hlive' : (w.pcbs r).isTerminal = false := by simpa using hlive
        refine .inr ⟨by rw [hpr]; rfl, by rwa [hpr], ?_⟩
        rw [hpr]
        simp only [Bool.false_eq_true, if_false, note, Function.update_self]
        exact AgentControlBlock.state_transition_of_live _ _ _ hlive'
      · refine .inl ?_
        simpa [note, hpr] using hp
  | _ => exact .inl (by rwa [entries_exec rfl] at hp)

lemma table_exec (ho : o.movesTable = false) : (exec cfg out t o w).2.table = w.table := by
  cases o with
  | tableAdd p | tableRemove p => cases ho
  | waitNonempty | pickNext | acquire | swapOut p pages | write p c | chat purpose request =>
    simp only [exec]
    split <;> rfl
  | put p =>
    simp only [exec, put]
    split <;> rfl
  | _ => rfl

lemma bus_exec (ho : o.movesBus = false) : (exec cfg out t o w).2.bus = w.bus := by
  cases o with
  | mailbox p | mailboxGet box | mailboxPut box m | dropMailbox p => cases ho
  | tableAdd p | waitNonempty | pickNext | acquire | swapOut p pages | write p c
  | chat purpose request =>
    simp only [exec]
    split <;> rfl
  | put p =>
    simp only [exec, put]
    split <;> rfl
  | _ => rfl

/-- A mailbox is there after an operation if it was there before, or if it was looked up
and made. -/
lemma mem_pids_exec {p : Pid} (hp : p ∈ (exec cfg out t o w).2.bus.pids) :
    p ∈ w.bus.pids ∨ o.looksUp = some p := by
  cases o with
  | mailbox q =>
    simp only [exec] at hp
    rcases w.bus.mailbox_cases q with ⟨box, -, heq⟩ | ⟨-, heq⟩
    · rw [heq] at hp
      exact .inl hp
    · rw [heq, MessageBus.pids, List.map_append] at hp
      refine (List.mem_append.1 hp).imp id fun hq => ?_
      simp only [List.map_cons, List.map_nil, List.mem_singleton] at hq
      rw [hq]
      rfl
  | mailboxGet box =>
    simp only [exec, MessageBus.pids, (w.bus.get_frame box).1] at hp
    exact .inl hp
  | mailboxPut box m =>
    simp only [exec, MessageBus.pids, (w.bus.putNowait_frame box m).1] at hp
    exact .inl hp
  | dropMailbox q =>
    obtain ⟨x, hx, rfl⟩ := List.mem_map.1 hp
    exact .inl (List.mem_map.2 ⟨x, List.mem_of_mem_filter hx, rfl⟩)
  | _ =>
    rw [bus_exec rfl] at hp
    exact .inl hp

lemma quota_exec (ho : o.movesQuota = false) : (exec cfg out t o w).2.quota = w.quota := by
  cases o with
  | acquire | refund | topup k => cases ho
  | tableAdd p | waitNonempty | pickNext | swapOut p pages | write p c | chat purpose request =>
    simp only [exec]
    split <;> rfl
  | put p =>
    simp only [exec, put]
    split <;> rfl
  | _ => rfl

/-- A kernel that was shut down stays so. -/
lemma stop_of_exec (hstop : (exec cfg out t o w).2.stop = false) : w.stop = false := by
  cases o with
  | setStop => cases hstop
  | tableAdd p | waitNonempty | pickNext | acquire | swapOut p pages | write p c
  | chat purpose request =>
    simp only [exec] at hstop
    split at hstop <;> exact hstop
  | put p =>
    simp only [exec, put] at hstop
    split at hstop <;> exact hstop
  | _ => exact hstop

lemma nextPid_exec (ho : o.movesPids = false) :
    (exec cfg out t o w).2.nextPid = w.nextPid := by
  cases o with
  | newPcb args => cases ho
  | tableAdd p | waitNonempty | pickNext | acquire | swapOut p pages | write p c
  | chat purpose request =>
    simp only [exec]
    split <;> rfl
  | put p =>
    simp only [exec, put]
    split <;> rfl
  | _ => rfl

lemma nextPid_le_exec : w.nextPid ≤ (exec cfg out t o w).2.nextPid := by
  cases o with
  | newPcb args => exact Nat.le_succ _
  | _ => exact (nextPid_exec rfl).ge

lemma loc_note_of_ne {u : Tid n} (hu : u ≠ t) (w : World n) (f : Local → Local) :
    (w.note t f).loc u = w.loc u := Function.update_of_ne hu _ _

/-- The other threads keep what they have in hand. -/
lemma loc_exec_of_ne {u : Tid n} (hu : u ≠ t) : (exec cfg out t o w).2.loc u = w.loc u := by
  cases o with
  | tableAdd p | waitNonempty | pickNext | acquire | swapOut p pages | write p c
  | chat purpose request =>
    simp only [exec]
    split <;> simp only [loc_note_of_ne hu]
  | put p =>
    simp only [exec, put]
    split <;> simp only [loc_note_of_ne hu]
  | newPcb args | taskDone | enterBusy p | leaveBusy | refund =>
    simp only [exec, loc_note_of_ne hu]
  | _ => rfl

/-- A thread that changes hands does so in one of five operations. -/
lemma hands_exec (ho : o.movesHands = false) :
    ((exec cfg out t o w).2.loc t).held = (w.loc t).held ∧
      ((exec cfg out t o w).2.loc t).fresh = (w.loc t).fresh := by
  cases o with
  | newPcb args | tableAdd p | pickNext | put p | taskDone => cases ho
  | waitNonempty | acquire | swapOut p pages | write p c | chat purpose request =>
    simp only [exec]
    split <;> simp [note]
  | enterBusy p | leaveBusy | refund => simp [exec, note]
  | _ => exact ⟨rfl, rfl⟩

end World

end Gcos
