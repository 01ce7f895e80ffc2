import Gcos.Pool.History
import Gcos.Kernel.Effects
import Gcos.Lib.Footprint

/-!
# What waits in the ready queue

Only agents that are `READY` and in the process table should wait in the ready queue.
`put` sees to it when it takes an agent in; the calls that finalize agents or take them
out of the table have to see to it for the agents that are already there.  `kill` does so
for the agent it is called for, but not for the descendants that it takes along.
-/

namespace Gcos.Pool

open Lib Note World

variable {n : ℕ} {cfg : KernelConfig} {out : Outside} {quota : Quota} {w w' : World n}
  {pool : Lib.Pool KOp (Tid n) (World n)} {t : Tid n}

/-- Every agent in the ready queue is `READY` and in the process table; so the queue is
drained once nothing is in flight and no agent of the table is alive. -/
def QueueReady (w : World n) : Prop :=
  (∀ p ∈ w.queue.q, (w.pcbs p).state = .ready ∧ p ∈ w.table) ∧
    ((∀ p ∈ w.table, (w.pcbs p).isTerminal = true) → w.queue.inFlight = 0 →
      w.queue.isDrained = true)

/-- Every agent that was enqueued and is not terminal is in the process table. -/
def Tabled (w : World n) : Prop :=
  ∀ p ∈ w.enqueued, (w.pcbs p).isTerminal = false → p ∈ w.table

/-- Every agent in the ready queue is `READY`. -/
def Readied (w : World n) : Prop := ∀ p ∈ w.queue.q, (w.pcbs p).state = .ready

lemma isTerminal_of_ready {pcb : AgentControlBlock} (h : pcb.state = .ready) :
    pcb.isTerminal = false := by
  rw [AgentControlBlock.isTerminal, h]
  rfl

/-- The two halves make the whole. -/
lemma Readied.queueReady {rules : Rules} {ls : Tid n → Note} (h : Readied w) (ht : Tabled w)
    (hI : Inv rules w ls) : QueueReady w := by
  have hboth : ∀ p ∈ w.queue.q, (w.pcbs p).state = .ready ∧ p ∈ w.table := by
    intro p hp
    refine ⟨h p hp, ht p (hI.owned.queued p hp) ?_⟩
    exact isTerminal_of_ready (h p hp)
  refine ⟨hboth, fun hdead hflight => ?_⟩
  have hnil : w.queue.q = [] := by
    refine List.eq_nil_iff_forall_not_mem.2 fun p hp => ?_
    have hterm := hdead p (hboth p hp).2
    rw [isTerminal_of_ready (hboth p hp).1] at hterm
    cases hterm
  simp [ReadyQueue.isDrained, hnil, hflight]

/-! ### Workers -/

/-- What a step leaves of the queue, the table and the enqueued agents. -/
structure Orderly (w w' : World n) : Prop where
  enqueued : w'.enqueued = w.enqueued
  live : ∀ p ∈ w.enqueued, (w'.pcbs p).isTerminal = false →
    (w.pcbs p).isTerminal = false ∧ (p ∈ w.table → p ∈ w'.table)
  ready : ∀ p ∈ w'.queue.q, (w'.pcbs p).state = .ready ∨
    p ∈ w.queue.q ∧ (w'.pcbs p).state = (w.pcbs p).state

lemma Orderly.refl (w : World n) : Orderly w w :=
  ⟨rfl, fun _ _ h => ⟨h, id⟩, fun _ h => .inr ⟨h, rfl⟩⟩

lemma Orderly.trans {w'' : World n} (h : Orderly w w') (h' : Orderly w' w'') :
    Orderly w w'' where
  enqueued := h'.enqueued.trans h.enqueued
  live := by
    intro p hp hlive
    obtain ⟨hlive', htable'⟩ := h'.live p (h.enqueued ▸ hp) hlive
    obtain ⟨hlive'', htable''⟩ := h.live p hp hlive'
    exact ⟨hlive'', fun hmem => htable' (htable'' hmem)⟩
  ready := by
    intro p hp
    rcases h'.ready p hp with hready | ⟨hp', hstate'⟩
    · exact .inl hready
    · rcases h.ready p hp' with hready | ⟨hp'', hstate⟩
      · exact .inl (hstate'.trans hready)
      · exact .inr ⟨hp'', hstate'.trans hstate⟩

/-- A step that moves neither blocks nor table nor entries. -/
lemma Orderly.of_eq (henq : w'.enqueued = w.enqueued) (hpcbs : w'.pcbs = w.pcbs)
    (htable : w'.table = w.table) (hq : w'.queue.q ⊆ w.queue.q) : Orderly w w' where
  enqueued := henq
  live := by
    intro p _ hlive
    rw [hpcbs] at hlive
    exact ⟨hlive, fun hp => htable ▸ hp⟩
  ready := fun p hp => .inr ⟨hq hp, by rw [hpcbs]⟩

lemma Orderly.tabled (h : Orderly w w') (ht : Tabled w) : Tabled w' := by
  intro p hp hlive
  rw [h.enqueued] at hp
  obtain ⟨hlive', hkeep⟩ := h.live p hp hlive
  exact hkeep (ht p hp hlive')

lemma Orderly.readied (h : Orderly w w') (hr : Readied w) : Readied w' := by
  intro p hp
  rcases h.ready p hp with hready | ⟨hp', hstate⟩
  · exact hready
  · rw [hstate]
    exact hr p hp'

/-- A write to an agent that is not queued. -/
lemma orderly_write {p : Pid} {c : Write} (hp : p ∉ w.queue.q) :
    Orderly w (exec cfg out t (.write p c) w).2 := by
  obtain ⟨hpcbs, htable, -⟩ := exec_write cfg out t w p c
  have hq : (exec cfg out t (.write p c) w).2.queue.q = w.queue.q := entries_exec rfl
  refine ⟨enqueued_exec rfl, fun r _ hlive => ⟨?_, fun hr => htable ▸ hr⟩, fun r hr => ?_⟩
  · by_contra hdead
    rw [hpcbs] at hlive
    by_cases hrp : r = p
    · rw [hrp, Function.update_self] at hlive
      have hterm := (Write.isTerminal_apply (w.clockFrom out) (w.pcbs p) c).2
        (.inl (by rw [← hrp]; simpa using hdead))
      rw [hterm] at hlive
      cases hlive
    · rw [Function.update_of_ne hrp] at hlive
      exact hdead hlive
  · rw [hq] at hr
    refine .inr ⟨hr, ?_⟩
    rw [hpcbs, Function.update_of_ne]
    rintro rfl
    exact hp hr

/-- A `put` by the worker that holds the agent. -/
lemma orderly_put {p : Pid} (hfresh : (w.loc t).fresh ≠ some p) :
    Orderly w (exec cfg out t (.put p) w).2 := by
  simp only [exec, World.put]
  split
  · exact .of_eq rfl rfl rfl fun _ h => h
  · next hlive =>
    have hlive' : (w.pcbs p).isTerminal = false := by simpa using hlive
    have hstate := AgentControlBlock.state_transition_of_live (w.pcbs p) .ready
      (out.clock w.ticks) hlive'
    refine ⟨rfl, fun r _ hr => ⟨?_, id⟩, fun r hr => ?_⟩
    · by_cases hrp : r = p
      · rw [hrp]
        exact hlive'
      · simpa [note, Function.update_of_ne hrp] using hr
    · by_cases hrp : r = p
      · rw [hrp]
        exact .inl (by simpa [note] using hstate)
      · refine .inr ⟨?_, by simp [note, Function.update_of_ne hrp]⟩
        simpa [note, hrp] using hr

/-- Nothing that a worker does disturbs the queue. -/
lemma orderly_work {ls : Tid n → Note} (hI : Inv {} w ls) (ht : t.isWorker = true) {β : Type}
    (o : KOp β) (ho : (ls t).allows {} o) : Orderly w (exec cfg out t o w).2 := by
  have hrole : (ls t).isWorker = true := by rw [hI.role, ht]
  cases o with
  | newPcb args =>
    obtain ⟨ps, d, hl⟩ := ho
    rw [hl] at hrole
    cases hrole
  | tableAdd p =>
    rw [show ls t = .spawning p from ho] at hrole
    cases hrole
  | tableRemove p =>
    obtain ⟨ps, d, hl⟩ := ho
    rw [hl] at hrole
    cases hrole
  | popQueued p =>
    obtain ⟨ps, hl⟩ := ho
    rw [hl] at hrole
    cases hrole
  | write p c =>
    refine orderly_write ?_
    cases hl : ls t with
    | holding q busy units replied dead calls =>
      rw [hl] at ho
      obtain rfl : q = p := ho.1
      exact (hI.owned.held t q (hI.held_eq hl)).2
    | caller _ _ | spawning _ =>
      rw [hl] at hrole
      cases hrole
    | worker | released =>
      rw [hl] at ho
      exact ho.elim
  | put p =>
    refine orderly_put ?_
    rcases ho with hl | ⟨dead, calls, hl⟩
    · rw [hl] at hrole
      cases hrole
    · rw [hI.hand, hl]
      intro h
      cases h
  | pickNext =>
    rcases Scheduler.pickNext_cases w.pcbs (out.clock w.ticks) w.queue cfg.scheduler with
      ⟨hq, hpick⟩ | ⟨p, hp, hpick⟩
    · simp only [exec, hpick]
      exact .of_eq rfl rfl rfl fun _ h => h
    · simp only [exec, hpick]
      exact .of_eq rfl rfl rfl List.erase_subset
  | _ =>
    refine .of_eq (enqueued_exec rfl) (pcbs_exec rfl) (table_exec rfl) ?_
    rw [entries_exec rfl]
    exact fun _ h => h

/-! ### Calls -/

/-- What `spawn` does to the queue and the table. -/
structure Spawned (w w' : World n) : Prop where
  entries : w'.queue.q = w.queue.q ++ [(w.nextPid : ℤ)]
  table : w'.table = w.table ++ [(w.nextPid : ℤ)]
  enqueued : w'.enqueued = w.enqueued ++ [(w.nextPid : ℤ)]
  ready : (w'.pcbs w.nextPid).state = .ready
  others : ∀ q, q ≠ (w.nextPid : ℤ) → (w'.pcbs q).state = (w.pcbs q).state

/-- The worlds that differ in nothing that matters to the queue. -/
structure SameStates (w w' : World n) : Prop where
  queue : w'.queue = w.queue
  table : w'.table = w.table
  enqueued : w'.enqueued = w.enqueued
  loc : w'.loc = w.loc
  state : ∀ q, (w'.pcbs q).state = (w.pcbs q).state

lemma SameStates.refl (w : World n) : SameStates w w := ⟨rfl, rfl, rfl, rfl, fun _ => rfl⟩

lemma sameStates_linkParent (cfg : KernelConfig) (out : Outside) (t : Tid n) (w : World n)
    (parentPid : Option Pid) (pid : Pid) :
    SameStates w (runs cfg out t (Kernel.linkParent parentPid pid) w).2 := by
  cases parentPid with
  | none => exact .refl w
  | some parent =>
    rw [Kernel.linkParent, runs_bind, runs_perform]
    change SameStates w (runs cfg out t (if decide (parent ∈ w.table) then _ else _) w).2
    split
    · refine ⟨rfl, rfl, rfl, rfl, fun q => ?_⟩
      by_cases hq : q = parent
      · rw [hq]
        simp [exec, Write.apply]
      · simp [exec, Function.update_of_ne hq]
    · exact .refl w

/-- The transition of an agent that waits for input does not reach the others. -/
lemma states_whenWaiting (cfg : KernelConfig) (out : Outside) (t : Tid n) (w : World n) (p : Pid)
    (c : Prop) [Decidable c] :
    let w' := (runs cfg out t
      (Prog.when c (.perform (.write p (.transition .waiting)))) w).2
    w'.queue = w.queue ∧ w'.table = w.table ∧ w'.enqueued = w.enqueued ∧ w'.loc = w.loc ∧
      (∀ q, q ≠ p → (w'.pcbs q).state = (w.pcbs q).state) ∧
      (w'.pcbs p).isTerminal = (w.pcbs p).isTerminal := by
  intro w'
  simp only [w', Prog.when]
  split
  · refine ⟨rfl, rfl, rfl, rfl, fun q hq => ?_, ?_⟩
    · simp [exec, Function.update_of_ne hq]
    · simp [exec, Write.apply, AgentState.isTerminal]
  · exact ⟨rfl, rfl, rfl, rfl, fun _ _ => rfl, rfl⟩

lemma exec_put_fresh (cfg : KernelConfig) (out : Outside) {p : Pid} (hlive : (w.pcbs p).isTerminal = false)
    (hfresh : (w.loc t).fresh = some p) :
    let w' := (exec cfg out t (.put p) w).2
    w'.queue.q = w.queue.q ++ [p] ∧ w'.table = w.table ∧ w'.enqueued = w.enqueued ++ [p] ∧
      (w'.pcbs p).state = .ready ∧ ∀ q, q ≠ p → w'.pcbs q = w.pcbs q := by
  intro w'
  have hw' : w' = (w.put out t p).2 := rfl
  rw [hw', World.put, if_neg (by simp [hlive])]
  refine ⟨rfl, rfl, if_pos hfresh, ?_, fun q hq => Function.update_of_ne hq _ _⟩
  simp only [note, Function.update_self]
  exact AgentControlBlock.state_transition_of_live _ _ _ hlive

lemma spawned_spawn {rules : Rules} {ls : Tid n → Note} (hI : Inv rules w ls)
    (cfg : KernelConfig) (out : Outside) (t : Tid n) (args : SpawnArgs) :
    Spawned w (runs cfg out t (Kernel.spawn args) w).2 := by
  have hnew : (w.nextPid : ℤ) ∉ w.table := fun hmem => lt_irrefl _ (hI.table _ hmem).2
  -- the worlds after the registration, the link to the parent and the optional wait
  let w₂ := registered cfg out t args w
  let w₃ := (runs cfg out t (Kernel.linkParent args.parentPid w.nextPid) w₂).2
  let w₄ := (runs cfg out t (Prog.when (args.inputFrom.isSome = true)
    (.perform (.write w.nextPid (.transition .waiting)))) w₃).2
  have hadd : exec cfg out t (.tableAdd w.nextPid) (exec cfg out t (.newPcb args) w).2 =
      (true, { (exec cfg out t (.newPcb args) w).2 with table := w.table ++ [(w.nextPid : ℤ)] }) :=
    exec_tableAdd hnew
  have hrun : (runs cfg out t (Kernel.spawn args) w).2 =
      (exec cfg out t (.put w.nextPid) w₄).2 := by
    rw [Kernel.spawn, runs_bind, runs_perform, runs_bind, runs_perform]
    change (runs cfg out t (if (exec cfg out t (.tableAdd w.nextPid) _).1 then _ else _)
      (registered cfg out t args w)).2 = _
    rw [hadd, if_pos rfl, runs_bind, runs_bind, runs_bind]
    rfl
  have h₂ : w₂ = { (exec cfg out t (.newPcb args) w).2 with
      table := w.table ++ [(w.nextPid : ℤ)] } := by
    simp only [w₂, registered, hadd]
  have h₃ := sameStates_linkParent cfg out t w₂ args.parentPid w.nextPid
  obtain ⟨hq₄, ht₄, he₄, hl₄, hs₄, hterm₄⟩ := states_whenWaiting cfg out t w₃ w.nextPid
    (args.inputFrom.isSome = true)
  have hlive : (w₄.pcbs w.nextPid).isTerminal = false := by
    rw [hterm₄, AgentControlBlock.isTerminal, h₃.state, h₂]
    simp [exec, note, newBlock, AgentState.isTerminal]
  have hfresh : (w₄.loc t).fresh = some (w.nextPid : ℤ) := by
    rw [hl₄, h₃.loc, h₂]
    simp [exec, note]
  obtain ⟨hq₅, ht₅, he₅, hr₅, ho₅⟩ := exec_put_fresh cfg out hlive hfresh
  rw [hrun]
  refine ⟨?_, ?_, ?_, hr₅, fun q hq => ?_⟩
  · rw [hq₅, hq₄, h₃.queue, h₂]
    rfl
  · rw [ht₅, ht₄, h₃.table, h₂]
  · rw [he₅, he₄, h₃.enqueued, h₂]
    rfl
  · rw [ho₅ q hq, hs₄ q hq, h₃.state, h₂]
    simp [exec, note, Function.update_of_ne hq]

lemma Spawned.tabled (h : Spawned w w') (ht : Tabled w) : Tabled w' := by
  intro p hp hlive
  rw [h.enqueued, List.mem_append, List.mem_singleton] at hp
  rw [h.table, List.mem_append, List.mem_singleton]
  by_cases hnew : p = (w.nextPid : ℤ)
  · exact .inr hnew
  · refine .inl (ht p (hp.resolve_right hnew) ?_)
    rwa [AgentControlBlock.isTerminal, h.others p hnew] at hlive

lemma Spawned.readied (h : Spawned w w') (hr : Readied w) : Readied w' := by
  intro p hp
  rw [h.entries, List.mem_append, List.mem_singleton] at hp
  by_cases hnew : p = (w.nextPid : ℤ)
  · rw [hnew]
    exact h.ready
  · rw [h.others p hnew]
    exact hr p (hp.resolve_right hnew)

/-- The operations with which `kill` finalizes the agents of a list and frees their
mailboxes. -/
def Finalizes (ds : List Pid) : Prog.Class KOp
  | _, .readPcb _ _ | _, .dropMailbox _ => True
  | _, .write p _ => p ∈ ds
  | _, _ => False

lemma only_reapAll {ds : List Pid} (root : Pid) (reason : String) {victims : List Pid}
    (h : victims ⊆ ds) : (Kernel.reapAll root reason victims).Only (Finalizes ds) := by
  induction victims with
  | nil => trivial
  | cons child rest ih =>
    obtain ⟨hchild, hrest⟩ := List.cons_subset.1 h
    refine Prog.Only.step trivial fun pcb => ?_
    split
    · exact ih hrest
    · exact Prog.Only.step hchild fun _ => Prog.Only.step hchild fun _ => ih hrest

lemma only_dropMailboxes (ds pids : List Pid) :
    (Kernel.dropMailboxes pids).Only (Finalizes ds) := by
  induction pids with
  | nil => trivial
  | cons p rest ih => exact Prog.Only.step trivial fun _ => ih

/-- Nothing happens but to the blocks of the list and to the bus. -/
structure FinalizesOnly (ds : List Pid) (w w' : World n) : Prop where
  queue : w'.queue = w.queue
  table : w'.table = w.table
  enqueued : w'.enqueued = w.enqueued
  others : ∀ q, q ∉ ds → w'.pcbs q = w.pcbs q

lemma finalizesOnly_runs (cfg : KernelConfig) (out : Outside) (t : Tid n) {α : Type} {ds : List Pid} {prog : Prog KOp α}
    (h : prog.Only (Finalizes ds)) (w : World n) :
    FinalizesOnly ds w (runs cfg out t prog w).2 := by
  refine h.alone (R := FinalizesOnly ds) (fun w => ⟨rfl, rfl, rfl, fun _ _ => rfl⟩) ?_ ?_ w
  · rintro w w' w'' ⟨h₁, h₂, h₃, h₄⟩ ⟨h₁', h₂', h₃', h₄'⟩
    exact ⟨h₁'.trans h₁, h₂'.trans h₂, h₃'.trans h₃, fun q hq => (h₄' q hq).trans (h₄ q hq)⟩
  · intro β o w ho
    cases o with
    | readPcb p _ | dropMailbox p => exact ⟨rfl, rfl, rfl, fun _ _ => rfl⟩
    | write p c =>
      refine ⟨queue_exec rfl, table_exec rfl, enqueued_exec rfl, fun q hq => ?_⟩
      rw [(exec_write cfg out t w p c).1, Function.update_of_ne]
      rintro rfl
      exact hq ho
    | _ => exact ho.elim

/-- What a `kill` that goes through leaves of the queue: the agent itself is out of it, and
nothing else has changed but for the descendants. -/
lemma strike_queue (cfg : KernelConfig) (out : Outside) (t : Tid n) {fuel : ℕ} {pid : Pid} {ds : List Pid}
    (hvisit : Worklist.visit w.kids fuel (w.kids pid).reverse [] = some ds) :
    let w' := (runs cfg out t (Kernel.strike fuel pid ds) w).2
    w'.queue = (w.queue.pop pid).2 ∧ w'.table = w.table ∧ w'.enqueued = w.enqueued ∧
      ∀ q, q ∉ pid :: ds → w'.pcbs q = w.pcbs q := by
  intro w'
  have hw' : w' = (runs cfg out t (Kernel.dropMailboxes (pid :: ds))
      (runs cfg out t (Kernel.reapAll pid "killed by user" ds)
        (Kernel.struck cfg out t pid w)).2).2 := by
    simp only [w', Kernel.runs_strike_eq hvisit]
  have hreap := finalizesOnly_runs cfg out t
    (only_reapAll pid "killed by user" (List.Subset.refl ds)) (Kernel.struck cfg out t pid w)
  have hdrop := finalizesOnly_runs cfg out t (only_dropMailboxes ds (pid :: ds))
    (runs cfg out t (Kernel.reapAll pid "killed by user" ds) (Kernel.struck cfg out t pid w)).2
  rw [← hw'] at hdrop
  refine ⟨hdrop.queue.trans hreap.queue, hdrop.table.trans hreap.table,
    hdrop.enqueued.trans hreap.enqueued, fun q hq => ?_⟩
  rw [List.mem_cons, not_or] at hq
  rw [hdrop.others q hq.2, hreap.others q hq.2]
  simp [Kernel.struck, exec, Function.update_of_ne hq.1]

/-- `reap_terminal` takes only terminal agents out of the table. -/
lemma orderly_reapFrom (pids : List Pid) (w : World n) :
    Orderly w (runs cfg out t (Kernel.reapFrom pids) w).2 := by
  induction pids generalizing w with
  | nil => exact .refl w
  | cons p rest ih =>
    rw [Kernel.reapFrom, runs_bind]
    change Orderly w (runs cfg out t (if (w.pcbs p).isTerminal then _ else _) w).2
    split
    · next hterm =>
      rw [runs_bind, runs_bind, runs_bind]
      refine Orderly.trans ?_ (ih _)
      refine ⟨rfl, fun q _ hlive => ⟨hlive, fun hq => ?_⟩, fun q hq => .inr ⟨hq, rfl⟩⟩
      refine (List.mem_erase_of_ne ?_).2 hq
      rintro rfl
      have hlive' : (w.pcbs q).isTerminal = false := hlive
      rw [hterm] at hlive'
      cases hlive'
    · exact ih w

/-- A `kill` of a live agent of the table: none of the other agents that `descendants_of`
lists for it is in the ready queue. -/
def SparesQueue (cfg : KernelConfig) (out : Outside) (pool : Lib.Pool KOp (Tid n) (World n))
    (e : Event n) : Prop :=
  ∀ fuel pid ds, e = .call (.kill fuel pid) → pid ∈ pool.shared.table →
    (pool.shared.pcbs pid).isTerminal = false →
    (runs cfg out (.client 0) (Kernel.descendantsOf fuel pid) pool.shared).1 = some ds →
    ∀ q ∈ ds, q ≠ pid → q ∉ pool.shared.queue.q

/-- Apart from `spawn` and `kill`, the calls are orderly. -/
lemma orderly_code {c : KernelCall} (hspawn : ∀ args, c ≠ .spawn args)
    (hkill : ∀ fuel pid, c ≠ .kill fuel pid) (w : World n) :
    Orderly w (runs cfg out t c.code w).2 := by
  cases c with
  | spawn args => exact absurd rfl (hspawn args)
  | kill fuel pid => exact absurd rfl (hkill fuel pid)
  | reapTerminal =>
    rw [KernelCall.code, runs_bind, Kernel.reapTerminal, runs_bind]
    exact orderly_reapFrom _ _
  | topup amount =>
    rw [KernelCall.code, runs_bind, Kernel.quotaTopup]
    split
    · exact .refl w
    · exact .of_eq rfl rfl rfl fun _ h => h
  | shutdown =>
    have hdrop := finalizesOnly_runs cfg out t (only_dropMailboxes [] w.bus.pids)
      (exec cfg out t .setStop w).2
    refine .of_eq hdrop.enqueued (funext fun q => hdrop.others q List.not_mem_nil)
      hdrop.table fun p hp => ?_
    change p ∈ (runs cfg out t (Kernel.dropMailboxes w.bus.pids)
      (exec cfg out t .setStop w).2).2.queue.q at hp
    rwa [hdrop.queue] at hp

/-- A `kill` takes nobody out of the table and revives nobody. -/
lemma Tabled.kill (h : Tabled w) (fuel : ℕ) (pid : Pid) :
    Tabled (runs cfg out t (Kernel.kill fuel pid) w).2 := by
  rw [Kernel.runs_kill]
  split
  · cases hvisit : Worklist.visit w.kids fuel (w.kids pid).reverse [] with
    | none => exact h
    | some ds =>
      obtain ⟨-, htable, henq, -⟩ := strike_queue cfg out t hvisit
      have hfinal : Finalized (pid :: ds) w (runs cfg out t (Kernel.strike fuel pid ds) w).2 :=
        (Kernel.runs_strike hvisit).2
      intro p hp hlive
      rw [henq] at hp
      rw [htable]
      refine h p hp ?_
      by_contra hdead
      rw [(hfinal.terminal p).2 (.inl (by simpa using hdead))] at hlive
      cases hlive
  · exact h

/-- After a `kill` that goes through, what is queued is what was queued without the agent
itself, and exactly its descendants are disturbed. -/
lemma readied_strike_iff {fuel : ℕ} {pid : Pid} {ds : List Pid} (hI : Steady pool)
    (hr : Readied pool.shared)
    (hvisit : Worklist.visit pool.shared.kids fuel (pool.shared.kids pid).reverse [] = some ds) :
    Readied (runs cfg out t (Kernel.strike fuel pid ds) pool.shared).2 ↔
      ∀ q ∈ ds, q ≠ pid → q ∉ pool.shared.queue.q := by
  obtain ⟨⟨ls, hinv, -⟩, -⟩ := hI
  obtain ⟨hq, -, -, hothers⟩ := strike_queue cfg out t hvisit
  have hfinal : Finalized (pid :: ds) pool.shared
      (runs cfg out t (Kernel.strike fuel pid ds) pool.shared).2 := (Kernel.runs_strike hvisit).2
  have hmem : ∀ q, q ∈ (pool.shared.queue.pop pid).2.q ↔ q ∈ pool.shared.queue.q ∧ q ≠ pid := by
    intro q
    unfold ReadyQueue.pop
    split
    · rw [hinv.owned.nodup.mem_erase_iff, and_comm]
    · next hpid =>
      refine ⟨fun hqueued => ⟨hqueued, ?_⟩, And.left⟩
      rintro rfl
      exact hpid hqueued
  constructor
  · intro hready q hds hne hqueued
    have hstate := hready q (by rw [hq]; exact (hmem q).2 ⟨hqueued, hne⟩)
    have hterm := (hfinal.terminal q).2 (.inr (List.mem_cons_of_mem _ hds))
    rw [isTerminal_of_ready hstate] at hterm
    cases hterm
  · intro hspare q hqueued
    rw [hq, hmem] at hqueued
    rw [hothers q]
    · exact hr q hqueued.1
    · rw [List.mem_cons, not_or]
      exact ⟨hqueued.2, fun hds => hspare q hds hqueued.2 hqueued.1⟩

/-! ### Histories -/

lemma tabled_after (h : Steady pool) (ht : Tabled pool.shared) (e : Event n) :
    Tabled (after cfg out pool e).shared := by
  cases e with
  | work i =>
    obtain ⟨⟨ls, hI, hcode⟩, -⟩ := h
    simp only [after, System.next]
    split
    · exact ht
    · exact ht
    · next o k hop =>
      have hobey := hcode (.worker i)
      rw [hop] at hobey
      exact (orderly_work hI rfl o hobey.1).tabled ht
  | call c =>
    obtain ⟨⟨ls, hI, -⟩, -⟩ := h
    change Tabled (runs cfg out (.client 0) c.code pool.shared).2
    cases c with
    | spawn args =>
      rw [KernelCall.code, runs_bind]
      exact (spawned_spawn hI cfg out _ args).tabled ht
    | kill fuel pid =>
      rw [KernelCall.code, runs_bind]
      exact ht.kill fuel pid
    | _ => exact (orderly_code (by simp) (by simp) _).tabled ht

/-- One event keeps the queue ready exactly when it spares what is queued. -/
lemma readied_after_iff (h : Steady pool) (hr : Readied pool.shared) (e : Event n) :
    Readied (after cfg out pool e).shared ↔ SparesQueue cfg out pool e := by
  cases e with
  | work i =>
    refine ⟨fun _ _ _ _ he => (by cases he), fun _ => ?_⟩
    obtain ⟨⟨ls, hI, hcode⟩, -⟩ := h
    simp only [after, System.next]
    split
    · exact hr
    · exact hr
    · next o k hop =>
      have hobey := hcode (.worker i)
      rw [hop] at hobey
      exact (orderly_work hI rfl o hobey.1).readied hr
  | call c =>
    change Readied (runs cfg out (.client 0) c.code pool.shared).2 ↔ _
    cases c with
    | spawn args =>
      refine ⟨fun _ _ _ _ he => (by cases he), fun _ => ?_⟩
      obtain ⟨⟨ls, hI, -⟩, -⟩ := h
      rw [KernelCall.code, runs_bind]
      exact (spawned_spawn hI cfg out _ args).readied hr
    | kill fuel pid =>
      rw [KernelCall.code, runs_bind]
      change Readied (runs cfg out (.client 0) (Kernel.kill fuel pid) pool.shared).2 ↔ _
      rw [Kernel.runs_kill]
      by_cases hlive : pid ∈ pool.shared.table ∧ (pool.shared.pcbs pid).isTerminal = false
      · rw [if_pos hlive]
        cases hvisit : Worklist.visit pool.shared.kids fuel (pool.shared.kids pid).reverse [] with
        | none =>
          -- the traversal does not end, so nothing happens
          refine ⟨fun _ fuel' pid' ds he _ _ hds => ?_, fun _ => hr⟩
          cases he
          rw [Kernel.runs_descendantsOf, hvisit] at hds
          cases hds
        | some ds =>
          simp only
          rw [readied_strike_iff h hr hvisit]
          constructor
          · rintro hspare _ _ ds' ⟨⟩ - - hds
            rw [Kernel.runs_descendantsOf, hvisit] at hds
            cases hds
            exact hspare
          · intro hspare
            exact hspare fuel pid ds rfl hlive.1 hlive.2 (by rw [Kernel.runs_descendantsOf, hvisit])
      · rw [if_neg hlive]
        refine ⟨fun _ fuel' pid' ds he hin hlive' => ?_, fun _ => hr⟩
        cases he
        exact absurd ⟨hin, hlive'⟩ hlive
    | _ =>
      refine ⟨fun _ _ _ _ he => (by cases he), fun _ => ?_⟩
      exact (orderly_code (by simp) (by simp) _).readied hr

/-- A parent and its child wait in the queue; the kill of the parent leaves the child
there as a `ZOMBIE`. -/
theorem queue_keeps_killed_child :
    ∃ es : List (Event 1), ¬QueueReady
      (history { pager := {}, host := .inert } (.calm ⟨"hi", 1, 1, 2⟩) ⟨5, 5⟩ es).shared := by
  refine ⟨[.call (.spawn { prompt := "a" }), .call (.spawn { prompt := "b", parentPid := some 1 }),
    .call (.kill 9 1)], fun h => ?_⟩
  have hready := h.1 2 (by decide +kernel)
  revert hready
  decide +kernel

/-- **The ready queue holds only ready agents**, after every event of a history, if and
only if no `kill` of the history is called for a live agent while another agent that
`descendants_of` lists for it waits in the ready queue. -/
theorem queueReady_iff_sparesQueue {n : ℕ} (cfg : KernelConfig) (out : Outside) (quota : Quota)
    (es : List (Event n)) :
    (∀ es', es' <+: es → QueueReady (history cfg out quota es').shared) ↔
      Along (after cfg out) (SparesQueue cfg out) (boot n quota) es := by
  -- by induction on the history, from any pool whose queue is in order
  suffices hall : ∀ (es : List (Event n)) (pool : Lib.Pool KOp (Tid n) (World n)), Steady pool →
      Tabled pool.shared → Readied pool.shared →
      ((∀ es', es' <+: es → QueueReady (es'.foldl (after cfg out) pool).shared) ↔
        Along (after cfg out) (SparesQueue cfg out) pool es) by
    refine hall es _ steady_boot ?_ ?_
    · intro p hp
      cases hp
    · intro p hp
      cases hp
  intro es
  induction es with
  | nil =>
    intro pool hsteady ht hr
    refine ⟨fun _ => trivial, fun _ es' hes' => ?_⟩
    obtain rfl := List.prefix_nil.1 hes'
    obtain ⟨⟨ls, hI, -⟩, -⟩ := hsteady
    exact hr.queueReady ht hI
  | cons e es ih =>
    intro pool hsteady ht hr
    have ht' : Tabled (after cfg out pool e).shared := tabled_after hsteady ht e
    have hiff : Readied (after cfg out pool e).shared ↔ SparesQueue cfg out pool e :=
      readied_after_iff hsteady hr e
    constructor
    · intro hall
      -- the event spared the queue, for the queue is ready after it
      have hnext : QueueReady (after cfg out pool e).shared :=
        hall [e] (List.cons_prefix_cons.2 ⟨rfl, List.nil_prefix⟩)
      have hr' : Readied (after cfg out pool e).shared := fun p hp => (hnext.1 p hp).1
      refine ⟨hiff.1 hr', (ih _ (hsteady.after e) ht' hr').1 fun es' hes' => ?_⟩
      exact hall (e :: es') (List.cons_prefix_cons.2 ⟨rfl, hes'⟩)
    · rintro ⟨hspare, hrest⟩ es' hes'
      cases es' with
      | nil =>
        obtain ⟨⟨ls, hI, -⟩, -⟩ := hsteady
        exact hr.queueReady ht hI
      | cons e' es' =>
        obtain ⟨rfl, hes''⟩ := List.cons_prefix_cons.1 hes'
        exact (ih _ (hsteady.after e') ht' (hiff.2 hspare)).2 hrest es' hes''

end Gcos.Pool
