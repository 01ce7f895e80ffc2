import Gcos.Kernel.Calls
import Gcos.Kernel.Effects
import Gcos.Lib.Outline

/-!
# The process tree between the calls

What the traversals of `gcos/kernel/process_tree.py` do when nobody else moves, and the
invariant that makes them end.  The children lists of the control blocks are a forest
(`TreeInv`): an agent is younger than its parent, is listed once, and is listed by its
parent only.  All operations but three leave the tree as it is or take agents out of the
table (`Pruned`); the three are performed by `spawn` alone, which keeps the invariant as
long as it does not link the new agent to itself.
-/

namespace Gcos

open Lib Lib.Worklist Relation World

variable {n : ℕ} {cfg : KernelConfig} {out : Outside} {t : Tid n} {w w' w'' : World n}

/-! ### What the traversals compute -/

namespace World

/-- The children of an agent that are in the table, as `children_of` lists them. -/
def kids (w : World n) (p : Pid) : List Pid :=
  if p ∈ w.table then (w.pcbs p).children.filter (· ∈ w.table) else []

/-- `q` is a child of `p` and both are in the table. -/
def TableChild (w : World n) (p q : Pid) : Prop :=
  p ∈ w.table ∧ q ∈ w.table ∧ q ∈ (w.pcbs p).children

lemma mem_kids {p q : Pid} : q ∈ w.kids p ↔ w.TableChild p q := by
  unfold kids TableChild
  split
  · next hp => simp [hp, and_comm]
  · next hp => simp [hp]

lemma edge_kids : Edge w.kids = w.TableChild := by
  funext p q
  exact propext mem_kids

end World

namespace Kernel

lemma runs_present (cs : List Pid) :
    runs cfg out t (present cs) w = (cs.filter (· ∈ w.table), w) := by
  induction cs with
  | nil => rfl
  | cons c cs ih =>
    rw [present, runs_bind, runs_perform, runs_bind]
    by_cases hc : c ∈ w.table <;> simp [World.exec, hc, ih]

lemma runs_childrenOf (p : Pid) : runs cfg out t (childrenOf p) w = (w.kids p, w) := by
  rw [childrenOf, runs_bind, runs_perform]
  by_cases hp : p ∈ w.table
  · simp [World.exec, kids, hp, runs_present]
  · simp [World.exec, kids, hp]

lemma runs_descendantsLoop (fuel : ℕ) (stack ds : List Pid) :
    runs cfg out t (descendantsLoop fuel stack ds) w = (visit w.kids fuel stack ds, w) := by
  induction fuel generalizing stack ds with
  | zero => cases stack <;> rfl
  | succ fuel ih =>
    cases stack with
    | nil => rfl
    | cons cur stack =>
      rw [descendantsLoop, runs_bind, runs_childrenOf]
      exact ih _ _

lemma runs_descendantsOf (fuel : ℕ) (p : Pid) :
    runs cfg out t (descendantsOf fuel p) w = (visit w.kids fuel (w.kids p).reverse [], w) := by
  rw [descendantsOf, runs_bind, runs_childrenOf]
  exact runs_descendantsLoop _ _ _

end Kernel

/-! ### Pruning -/

/-- From `w` to `w'` the tree has at most lost entries of the table. -/
structure Pruned (w w' : World n) : Prop where
  table : ∀ p ∈ w'.table, p ∈ w.table
  nextPid : w'.nextPid = w.nextPid
  children : ∀ p, (w'.pcbs p).children = (w.pcbs p).children
  parentPid : ∀ p, (w'.pcbs p).parentPid = (w.pcbs p).parentPid

namespace Pruned

lemma refl (w : World n) : Pruned w w := ⟨fun _ h => h, rfl, fun _ => rfl, fun _ => rfl⟩

lemma trans (h : Pruned w w') (h' : Pruned w' w'') : Pruned w w'' where
  table := fun p hp => h.table p (h'.table p hp)
  nextPid := h'.nextPid.trans h.nextPid
  children := fun p => (h'.children p).trans (h.children p)
  parentPid := fun p => (h'.parentPid p).trans (h.parentPid p)

/-- A change that concerns neither the table nor the blocks. -/
lemma of_eq (htable : w'.table = w.table) (hpid : w'.nextPid = w.nextPid)
    (hpcbs : w'.pcbs = w.pcbs) : Pruned w w' := by
  refine ⟨fun p hp => htable ▸ hp, hpid, fun p => ?_, fun p => ?_⟩ <;> rw [hpcbs]

/-- A change to one block. -/
lemma of_update {p : Pid} {pcb : AgentControlBlock} (htable : w'.table = w.table)
    (hpid : w'.nextPid = w.nextPid) (hpcbs : w'.pcbs = Function.update w.pcbs p pcb)
    (hchildren : pcb.children = (w.pcbs p).children)
    (hparent : pcb.parentPid = (w.pcbs p).parentPid) : Pruned w w' := by
  refine ⟨fun q hq => htable ▸ hq, hpid, fun q => ?_, fun q => ?_⟩ <;> rw [hpcbs] <;>
    by_cases hq : q = p
  · rw [hq, Function.update_self, hchildren]
  · rw [Function.update_of_ne hq]
  · rw [hq, Function.update_self, hparent]
  · rw [Function.update_of_ne hq]

end Pruned

/-- The operations that make the tree grow. -/
def KOp.grows : {β : Type} → KOp β → Bool
  | _, .newPcb _ | _, .tableAdd _ | _, .write _ (.addChild _) => true
  | _, _ => false

lemma AgentControlBlock.transition_children (pcb : AgentControlBlock) (st : AgentState)
    (now : Time) : (pcb.transition st now).children = pcb.children := by rw [transition_frame]

lemma AgentControlBlock.transition_parentPid (pcb : AgentControlBlock) (st : AgentState)
    (now : Time) : (pcb.transition st now).parentPid = pcb.parentPid := by rw [transition_frame]

lemma Write.parentPid_apply (c : Write) (clock : ℕ → Time) (pcb : AgentControlBlock) :
    (c.apply clock pcb).parentPid = pcb.parentPid := by
  cases c with
  | transition st => exact pcb.transition_parentPid st _
  | _ => rfl

lemma Write.children_apply {c : Write} (hc : ∀ child, c ≠ .addChild child) (clock : ℕ → Time)
    (pcb : AgentControlBlock) : (c.apply clock pcb).children = pcb.children := by
  cases c with
  | transition st => exact pcb.transition_children st _
  | addChild child => exact absurd rfl (hc child)
  | _ => rfl

lemma pruned_write {p : Pid} {c : Write} (hc : ∀ child, c ≠ .addChild child) :
    Pruned w (exec cfg out t (.write p c) w).2 :=
  let ⟨hpcbs, htable, hpid⟩ := exec_write cfg out t w p c
  .of_update htable hpid hpcbs (c.children_apply hc _ _) (c.parentPid_apply _ _)

/-- **All other operations prune.** -/
lemma pruned_exec {β : Type} (o : KOp β) (ho : o.grows = false) :
    Pruned w (exec cfg out t o w).2 := by
  cases o with
  | newPcb args => cases ho
  | tableAdd p => cases ho
  | write p c =>
    refine pruned_write ?_
    rintro child rfl
    cases ho
  | tableRemove p => exact ⟨fun q hq => List.mem_of_mem_erase hq, rfl, fun _ => rfl, fun _ => rfl⟩
  | put p =>
    simp only [exec, put]
    split
    · exact .of_eq rfl rfl rfl
    · exact .of_update rfl rfl rfl (AgentControlBlock.transition_children ..)
        (AgentControlBlock.transition_parentPid ..)
  | waitNonempty => simp only [exec]; split <;> exact .of_eq rfl rfl rfl
  | pickNext => simp only [exec]; split <;> exact .of_eq rfl rfl rfl
  | acquire => simp only [exec]; split <;> exact .of_eq rfl rfl rfl
  | chat purpose request => simp only [exec]; split <;> exact .of_eq rfl rfl rfl
  | swapOut p pages => simp only [exec]; split <;> exact .of_eq rfl rfl rfl
  | _ => exact .of_eq rfl rfl rfl

/-- What follows a pruning operation. -/
lemma Pruned.after (cfg : KernelConfig) (out : Outside) (t : Tid n) {β : Type} (o : KOp β)
    (ho : o.grows = false) (h : Pruned (exec cfg out t o w).2 w') : Pruned w w' :=
  (pruned_exec o ho).trans h

/-! ### The invariant -/

/-- The children lists are a forest. -/
structure TreeInv (w : World n) : Prop where
  /-- The pids of the table are given out. -/
  table_lt : ∀ p : ℤ, p ∈ w.table → p < w.nextPid
  /-- An agent is younger than its parent. -/
  child_lt : ∀ p c : ℤ, c ∈ (w.pcbs p).children → p < c ∧ c < w.nextPid
  /-- An agent is listed by its parent only. -/
  child_parent : ∀ p, ∀ c ∈ (w.pcbs p).children, (w.pcbs c).parentPid = some p
  /-- An agent is listed once. -/
  child_nodup : ∀ p, (w.pcbs p).children.Nodup

/-- Every agent that has a parent is listed by it. -/
def Linked (w : World n) : Prop :=
  ∀ c p, (w.pcbs c).parentPid = some p → c ∈ (w.pcbs p).children

namespace TreeInv

lemma pruned (h : TreeInv w) (hw : Pruned w w') : TreeInv w' where
  table_lt := fun p hp => by rw [hw.nextPid]; exact h.table_lt p (hw.table p hp)
  child_lt := fun p c hc => by rw [hw.nextPid]; exact h.child_lt p c (hw.children p ▸ hc)
  child_parent := fun p c hc => by rw [hw.parentPid]; exact h.child_parent p c (hw.children p ▸ hc)
  child_nodup := fun p => by rw [hw.children]; exact h.child_nodup p

/-- How far an agent is from the youngest one. -/
def age (w : World n) (p : Pid) : ℕ := ((w.nextPid : ℤ) - p).toNat

lemma age_lt (h : TreeInv w) {p c : Pid} (hc : c ∈ (w.pcbs p).children) : age w c < age w p := by
  have hlt := h.child_lt p c hc
  unfold age
  omega

/-- The traversals move in a forest. -/
lemma forest (h : TreeInv w) : Forest w.kids (age w) where
  decreasing := fun p c hc => h.age_lt (mem_kids.1 hc).2.2
  nodup := fun p => by
    unfold kids
    split
    · exact (h.child_nodup p).filter _
    · exact List.nodup_nil
  unique := fun p q c hp hq => by
    have hparent := h.child_parent p c (mem_kids.1 hp).2.2
    rw [h.child_parent q c (mem_kids.1 hq).2.2] at hparent
    exact (Option.some.inj hparent).symm

end TreeInv

lemma Linked.pruned (h : Linked w) (hw : Pruned w w') : Linked w' := by
  intro c p hc
  rw [hw.parentPid] at hc
  rw [hw.children]
  exact h c p hc

/-! ### Growing -/

/-- `w'` is `w` with a new agent, linked to its parent if the table has one of that pid.
The new agent is in the table by then, so it may be the parent itself. -/
structure Grown (args : SpawnArgs) (w w' : World n) : Prop where
  table : ∀ p, p ∈ w'.table ↔ p ∈ w.table ∨ p = (w.nextPid : ℤ)
  nextPid : w'.nextPid = w.nextPid + 1
  parentPid : ∀ p, (w'.pcbs p).parentPid =
    if p = (w.nextPid : ℤ) then args.parentPid else (w.pcbs p).parentPid
  children : ∀ p, (w'.pcbs p).children =
    if args.parentPid = some p ∧ p ∈ w'.table then (w.pcbs p).children ++ [(w.nextPid : ℤ)]
    else (w.pcbs p).children

/-- A new agent that is not its own parent keeps the forest. -/
lemma TreeInv.grown {args : SpawnArgs} (h : TreeInv w) (hw : Grown args w w')
    (hself : args.parentPid ≠ some (w.nextPid : ℤ)) : TreeInv w' := by
  have hchildren : ∀ p c, c ∈ (w'.pcbs p).children → c ∈ (w.pcbs p).children ∨
      args.parentPid = some p ∧ p ∈ w.table ∧ c = (w.nextPid : ℤ) := by
    intro p c hc
    rw [hw.children] at hc
    split at hc
    · next hp =>
      rw [List.mem_append, List.mem_singleton] at hc
      refine hc.imp_right fun hc => ⟨hp.1, ((hw.table p).1 hp.2).resolve_right ?_, hc⟩
      rintro rfl
      exact hself hp.1
    · exact .inl hc
  refine ⟨fun p hp => ?_, fun p c hc => ?_, fun p c hc => ?_, fun p => ?_⟩
  · rw [hw.nextPid]
    push_cast
    rcases (hw.table p).1 hp with hp | rfl
    · exact (h.table_lt p hp).trans (lt_add_one _)
    · exact lt_add_one _
  · rw [hw.nextPid]
    push_cast
    rcases hchildren p c hc with hc | ⟨-, hp, rfl⟩
    · exact ⟨(h.child_lt p c hc).1, (h.child_lt p c hc).2.trans (lt_add_one _)⟩
    · exact ⟨h.table_lt p hp, lt_add_one _⟩
  · rw [hw.parentPid]
    rcases hchildren p c hc with hc | ⟨hp, -, rfl⟩
    · rw [if_neg (h.child_lt p c hc).2.ne]
      exact h.child_parent p c hc
    · rw [if_pos rfl, hp]
  · rw [hw.children]
    split
    · refine (h.child_nodup p).append (List.nodup_singleton _) ?_
      intro c hc hc'
      exact (h.child_lt p c hc).2.ne (List.mem_singleton.1 hc')
    · exact h.child_nodup p

/-- A new agent whose parent is in the table is linked to it. -/
lemma Linked.grown {args : SpawnArgs} (h : Linked w) (hw : Grown args w w')
    (hparent : ∀ p, args.parentPid = some p → p ∈ w.table) : Linked w' := by
  intro c p hc
  rw [hw.parentPid] at hc
  rw [hw.children]
  split at hc
  · next hnew =>
    rw [if_pos ⟨hc, (hw.table p).2 (.inl (hparent p hc))⟩, hnew]
    exact List.mem_append_right _ (List.mem_singleton_self _)
  · have hmem := h c p hc
    split
    · exact List.mem_append_left _ hmem
    · exact hmem

section

variable {args : SpawnArgs}

lemma exec_tableAdd {p : Pid} (hp : p ∉ w.table) :
    exec cfg out t (.tableAdd p) w = (true, { w with table := w.table ++ [p] }) := by
  simp only [exec]
  rw [if_neg hp]

/-- The world after `spawn` has put the new block into the table. -/
def registered (cfg : KernelConfig) (out : Outside) (t : Tid n) (args : SpawnArgs) (w : World n) :
    World n :=
  (exec cfg out t (.tableAdd w.nextPid) (exec cfg out t (.newPcb args) w).2).2

/-- The pid is new, so the table takes it. -/
lemma TreeInv.exec_registered (h : TreeInv w) (cfg : KernelConfig) (out : Outside) (t : Tid n)
    (args : SpawnArgs) :
    (exec cfg out t (.tableAdd w.nextPid) (exec cfg out t (.newPcb args) w).2).1 = true ∧
      (registered cfg out t args w).table = w.table ++ [(w.nextPid : ℤ)] ∧
      (registered cfg out t args w).pcbs = Function.update w.pcbs (w.nextPid : ℤ)
        (newBlock cfg args w.nextPid (out.clock w.ticks)) ∧
      (registered cfg out t args w).nextPid = w.nextPid + 1 := by
  have hnew : (w.nextPid : ℤ) ∉ w.table := fun hmem => lt_irrefl _ (h.table_lt _ hmem)
  have htable : (exec cfg out t (.newPcb args) w).2.table = w.table := rfl
  unfold registered
  rw [exec_tableAdd (by rwa [htable])]
  exact ⟨rfl, rfl, rfl, rfl⟩

/-- The children lists after the registration are the old ones. -/
lemma TreeInv.registered_children (h : TreeInv w) (p : Pid) :
    ((registered cfg out t args w).pcbs p).children = (w.pcbs p).children := by
  rw [(h.exec_registered cfg out t args).2.2.1]
  by_cases hp : p = w.nextPid
  · -- the pid was not given out before, so nobody can have been linked to it
    subst hp
    rw [Function.update_self, newBlock]
    refine (List.eq_nil_iff_forall_not_mem.2 fun c hc => ?_).symm
    have hlt := h.child_lt _ c hc
    omega
  · rw [Function.update_of_ne hp]

/-- The links of the new agent: what `linkParent` leaves of the registered world. -/
lemma TreeInv.grown_linkParent (h : TreeInv w) (cfg : KernelConfig) (out : Outside) (t : Tid n)
    (args : SpawnArgs) :
    Grown args w
      (runs cfg out t (Kernel.linkParent args.parentPid w.nextPid)
        (registered cfg out t args w)).2 := by
  obtain ⟨-, htable, hpcbs, hpid⟩ := h.exec_registered cfg out t args
  have hmem : ∀ p, p ∈ (registered cfg out t args w).table ↔
      p ∈ w.table ∨ p = (w.nextPid : ℤ) := by
    simp [htable]
  have hparent : ∀ p, ((registered cfg out t args w).pcbs p).parentPid =
      if p = (w.nextPid : ℤ) then args.parentPid else (w.pcbs p).parentPid := by
    intro p
    rw [hpcbs]
    by_cases hp : p = (w.nextPid : ℤ)
    · rw [if_pos hp, hp, Function.update_self, newBlock]
    · rw [if_neg hp, Function.update_of_ne hp]
  -- without a link the lists stay as they are
  have hnone : (∀ p, args.parentPid = some p → p ∉ (registered cfg out t args w).table) →
      Grown args w (registered cfg out t args w) := by
    intro hno
    refine ⟨hmem, hpid, hparent, fun p => ?_⟩
    rw [if_neg fun hp => hno p hp.1 hp.2, h.registered_children]
  cases hargs : args.parentPid with
  | none => exact hnone fun p hp => by rw [hargs] at hp; cases hp
  | some parent =>
    rw [Kernel.linkParent, runs_bind, runs_perform]
    by_cases hin : parent ∈ (registered cfg out t args w).table
    · simp only [exec, hin, decide_true, if_true]
      obtain ⟨hpcbs', htable', hpid'⟩ := exec_write cfg out t (registered cfg out t args w)
        parent (.addChild w.nextPid)
      refine ⟨fun p => ?_, ?_, fun p => ?_, fun p => ?_⟩
      · rw [runs_perform, htable', hmem]
      · rw [runs_perform, hpid', hpid]
      · rw [runs_perform, hpcbs', ← hparent]
        by_cases hp : p = parent
        · rw [hp, Function.update_self, Write.parentPid_apply]
        · rw [Function.update_of_ne hp]
      · rw [runs_perform, hpcbs', htable', hargs]
        by_cases hp : p = parent
        · rw [hp, Function.update_self, if_pos ⟨rfl, hin⟩, Write.apply, h.registered_children]
        · rw [Function.update_of_ne hp, if_neg fun heq => hp (Option.some.inj heq.1).symm,
            h.registered_children]
    · simp only [exec, hin, decide_false]
      exact hnone fun p hp => by rw [hargs] at hp; rwa [← Option.some.inj hp]

/-- `spawn` makes the tree grow by the new agent. -/
lemma TreeInv.grown_spawn (h : TreeInv w) (cfg : KernelConfig) (out : Outside) (t : Tid n)
    (args : SpawnArgs) :
    ∃ w₁, Grown args w w₁ ∧ Pruned w₁ (runs cfg out t (Kernel.spawn args) w).2 := by
  refine ⟨_, h.grown_linkParent cfg out t args, ?_⟩
  have hadd := (h.exec_registered cfg out t args).1
  rw [Kernel.spawn, runs_bind, runs_perform, runs_bind, runs_perform]
  change Pruned _ (runs cfg out t (if (exec cfg out t (.tableAdd w.nextPid) _).1 then _ else _)
    (registered cfg out t args w)).2
  rw [if_pos hadd, runs_bind, runs_bind, runs_bind]
  refine Pruned.trans ?_ (pruned_exec (.put _) rfl)
  unfold Prog.when
  split
  · exact pruned_exec _ rfl
  · exact .refl _

end

/-! ### The other calls -/

lemma runs_dropMailboxes (cfg : KernelConfig) (out : Outside) (t : Tid n) (w : World n)
    (pids : List Pid) :
    (runs cfg out t (Kernel.dropMailboxes pids) w).2.pcbs = w.pcbs ∧
      (runs cfg out t (Kernel.dropMailboxes pids) w).2.table = w.table ∧
      (runs cfg out t (Kernel.dropMailboxes pids) w).2.nextPid = w.nextPid := by
  induction pids generalizing w with
  | nil => exact ⟨rfl, rfl, rfl⟩
  | cons p rest ih => exact ih _

lemma pruned_reapFrom (pids : List Pid) :
    Pruned w (runs cfg out t (Kernel.reapFrom pids) w).2 := by
  induction pids generalizing w with
  | nil => exact .refl w
  | cons p rest ih =>
    rw [Kernel.reapFrom, runs_bind]
    split
    · rw [runs_bind, runs_bind, runs_bind]
      exact .after cfg out t (.tableRemove p) rfl (.after cfg out t (.dropMailbox p) rfl ih)
    · exact ih

/-- The worlds in which the agents of a list have been finalized and nothing else has
happened to the tree. -/
structure Finalized (ps : List Pid) (w w' : World n) : Prop where
  pruned : Pruned w w'
  table : w'.table = w.table
  terminal : ∀ q, (w'.pcbs q).isTerminal = true ↔ (w.pcbs q).isTerminal = true ∨ q ∈ ps

lemma Finalized.refl (w : World n) : Finalized [] w w := ⟨.refl w, rfl, by simp⟩

lemma Finalized.trans {ps qs : List Pid} (h : Finalized ps w w') (h' : Finalized qs w' w'') :
    Finalized (ps ++ qs) w w'' where
  pruned := h.pruned.trans h'.pruned
  table := h'.table.trans h.table
  terminal := fun q => by rw [h'.terminal, h.terminal, List.mem_append, or_assoc]

/-- A write that is no transition finalizes nothing. -/
lemma finalized_write (cfg : KernelConfig) (out : Outside) (t : Tid n) (w : World n) (p : Pid)
    {c : Write} (hc : c.isPlain = true) :
    Finalized [] w (exec cfg out t (.write p c) w).2 := by
  obtain ⟨hpcbs, htable, -⟩ := exec_write cfg out t w p c
  refine ⟨pruned_write fun child hchild => ?_, htable, fun q => ?_⟩
  · rw [hchild] at hc
    cases hc
  rw [hpcbs]
  by_cases hq : q = p
  · rw [hq, Function.update_self, Write.isTerminal_apply]
    refine or_congr Iff.rfl ⟨?_, fun h => nomatch h⟩
    rintro ⟨st, rfl, -⟩
    cases hc
  · rw [Function.update_of_ne hq]
    simp

/-- A transition to `ZOMBIE` finalizes one agent. -/
lemma finalized_zombie (cfg : KernelConfig) (out : Outside) (t : Tid n) (w : World n) (p : Pid) :
    Finalized [p] w (exec cfg out t (.write p (.transition .zombie)) w).2 := by
  obtain ⟨hpcbs, htable, -⟩ := exec_write cfg out t w p (.transition .zombie)
  refine ⟨pruned_write fun child => by simp, htable, fun q => ?_⟩
  rw [hpcbs, List.mem_singleton]
  by_cases hq : q = p
  · rw [hq, Function.update_self, Write.isTerminal_apply]
    simp [AgentState.isTerminal]
  · rw [Function.update_of_ne hq]
    simp [hq]

lemma finalized_reapAll (cfg : KernelConfig) (out : Outside) (t : Tid n) (w : World n)
    (root : Pid) (reason : String) (ds : List Pid) :
    Finalized ds w (runs cfg out t (Kernel.reapAll root reason ds) w).2 := by
  induction ds generalizing w with
  | nil => exact .refl w
  | cons d rest ih =>
    rw [Kernel.reapAll, runs_bind]
    change Finalized _ w (runs cfg out t (if (w.pcbs d).isTerminal then _ else _) w).2
    split
    · next hd =>
      -- the agent is final already
      obtain ⟨hpruned, htable, hterm⟩ := ih w
      refine ⟨hpruned, htable, fun q => ?_⟩
      rw [hterm, List.mem_cons]
      by_cases hq : q = d
      · simp [hq, hd]
      · simp [hq]
    · rw [runs_bind, runs_bind]
      exact (finalized_zombie cfg out t w d).trans
        ((finalized_write cfg out t _ d rfl).trans (ih _))

namespace Kernel

/-- What `kill` does once it has found a live agent and its descendants. -/
def strike (fuel : ℕ) (pid : Pid) (victims : List Pid) : Prog KOp (Option Bool) := do
  .perform (.write pid (.transition .zombie))
  .perform (.write pid (.error "killed by user"))
  let _ ← .perform (.popQueued pid)
  match ← descendantsOf fuel pid with
  | none => return none
  | some doomed => do
    reapAll pid "killed by user" doomed
    dropMailboxes (pid :: victims)
    return some true

lemma runs_kill (fuel : ℕ) (pid : Pid) :
    runs cfg out t (kill fuel pid) w =
      if pid ∈ w.table ∧ (w.pcbs pid).isTerminal = false then
        match visit w.kids fuel (w.kids pid).reverse [] with
        | none => (none, w)
        | some victims => runs cfg out t (strike fuel pid victims) w
      else (some false, w) := by
  rw [kill, runs_bind, runs_perform]
  by_cases hin : pid ∈ w.table
  · simp only [exec, hin, decide_true, if_true, true_and]
    rw [runs_bind, runs_perform]
    cases hlive : (w.pcbs pid).isTerminal with
    | true => simp [exec, hlive]
    | false =>
      simp only [exec, hlive, Bool.false_eq_true, if_false, if_true]
      rw [runs_bind, runs_descendantsOf]
      cases visit w.kids fuel (w.kids pid).reverse [] <;> rfl
  · simp [exec, hin]

/-- Finalizing agents does not change what the traversals see. -/
lemma kids_finalized {ps : List Pid} (h : Finalized ps w w') : w'.kids = w.kids := by
  funext p
  unfold kids
  rw [h.table, h.pruned.children]

/-- The world when `kill` has finalized the agent itself and looks for its descendants. -/
def struck (cfg : KernelConfig) (out : Outside) (t : Tid n) (pid : Pid) (w : World n) : World n :=
  (exec cfg out t (.popQueued pid) (exec cfg out t (.write pid (.error "killed by user"))
    (exec cfg out t (.write pid (.transition .zombie)) w).2).2).2

lemma finalized_struck (cfg : KernelConfig) (out : Outside) (t : Tid n) (pid : Pid)
    (w : World n) : Finalized [pid] w (struck cfg out t pid w) := by
  have h := (finalized_zombie cfg out t w pid).trans (finalized_write cfg out t
    (exec cfg out t (.write pid (.transition .zombie)) w).2 pid (c := .error "killed by user") rfl)
  exact ⟨h.pruned.trans (pruned_exec _ rfl), h.table, h.terminal⟩

/-- Both traversals of `kill` find the same agents, and the rest of it cannot fail. -/
lemma runs_strike_eq {fuel : ℕ} {pid : Pid} {victims : List Pid}
    (hvisit : visit w.kids fuel (w.kids pid).reverse [] = some victims) :
    runs cfg out t (strike fuel pid victims) w =
      (some true, (runs cfg out t (dropMailboxes (pid :: victims))
        (runs cfg out t (reapAll pid "killed by user" victims) (struck cfg out t pid w)).2).2) := by
  have hvisit' : visit (struck cfg out t pid w).kids fuel
      ((struck cfg out t pid w).kids pid).reverse [] = some victims := by
    rwa [kids_finalized (finalized_struck cfg out t pid w)]
  rw [strike, runs_bind, runs_bind, runs_bind]
  change runs cfg out t _ (struck cfg out t pid w) = _
  rw [runs_bind, runs_descendantsOf, hvisit']
  simp only [runs_bind, pure, runs_ret]

lemma runs_strike {fuel : ℕ} {pid : Pid} {victims : List Pid}
    (hvisit : visit w.kids fuel (w.kids pid).reverse [] = some victims) :
    (runs cfg out t (strike fuel pid victims) w).1 = some true ∧
      Finalized (pid :: victims) w (runs cfg out t (strike fuel pid victims) w).2 := by
  rw [runs_strike_eq hvisit]
  refine ⟨rfl, ?_⟩
  have h := (finalized_struck cfg out t pid w).trans
    (finalized_reapAll cfg out t (struck cfg out t pid w) pid "killed by user" victims)
  obtain ⟨hpcbs, htable, hpid⟩ := runs_dropMailboxes cfg out t
    (runs cfg out t (reapAll pid "killed by user" victims) (struck cfg out t pid w)).2
    (pid :: victims)
  refine ⟨h.pruned.trans (.of_eq htable hpid hpcbs), htable.trans h.table, fun q => ?_⟩
  rw [hpcbs]
  exact h.terminal q

/-! ### `tree_view` -/

/-- The program answers, and leaves the table and the blocks as they are in `w`. -/
def Views {α : Type} (cfg : KernelConfig) (out : Outside) (t : Tid n) (w : World n)
    (prog : Prog KOp (Option α)) : Prop :=
  ∀ w' : World n, w'.table = w.table → w'.pcbs = w.pcbs →
    (∃ a, (runs cfg out t prog w').1 = some a) ∧
      (runs cfg out t prog w').2.table = w.table ∧ (runs cfg out t prog w').2.pcbs = w.pcbs

/-- The program answers with one row for every entry of `list`, and leaves the table and the
blocks as they are in `w`. -/
def Draws (cfg : KernelConfig) (out : Outside) (t : Tid n) (w : World n)
    (prog : Prog KOp (Option (List (Row × ℕ)))) (list : List (Pid × ℕ)) : Prop :=
  ∀ w' : World n, w'.table = w.table → w'.pcbs = w.pcbs →
    ∃ rows, (runs cfg out t prog w').1 = some rows ∧
      List.Forall₂ (fun r q => ∃ now, r = ((w.pcbs q.1).toRow now, q.2)) rows list ∧
      (runs cfg out t prog w').2.table = w.table ∧ (runs cfg out t prog w').2.pcbs = w.pcbs

lemma Draws.views {prog : Prog KOp (Option (List (Row × ℕ)))} {list : List (Pid × ℕ)}
    (h : Draws cfg out t w prog list) : Views cfg out t w prog := by
  intro w' htable hpcbs
  obtain ⟨rows, hrows, -, hafter⟩ := h w' htable hpcbs
  exact ⟨⟨rows, hrows⟩, hafter⟩

lemma draws_walkAll {frames : ℕ} {cs : List Pid} {depth : ℕ} {list : Pid → List (Pid × ℕ)}
    (hwalk : ∀ c ∈ cs, Draws cfg out t w (walk frames c depth) (list c)) :
    Draws cfg out t w (walkAll frames cs depth) (cs.flatMap list) := by
  induction cs with
  | nil =>
    intro w' htable hpcbs
    rw [walkAll]
    exact ⟨_, rfl, .nil, htable, hpcbs⟩
  | cons c cs ih =>
    intro w' htable hpcbs
    obtain ⟨rows, hrows, hlist, htable₁, hpcbs₁⟩ := hwalk c List.mem_cons_self w' htable hpcbs
    obtain ⟨more, hmore, hrest, hafter⟩ :=
      ih (fun d hd => hwalk d (List.mem_cons_of_mem _ hd)) _ htable₁ hpcbs₁
    rw [walkAll, runs_bind, hrows]
    simp only
    rw [runs_bind, hmore]
    exact ⟨_, rfl, List.rel_append hlist hrest, hafter⟩

/-- The nested calls of `walk` draw the outline of what is in the table, if the recursion
limit leaves room for its levels. -/
lemma draws_walk (cfg : KernelConfig) (out : Outside) (t : Tid n) {frames : ℕ} {p : Pid}
    (hshallow : p ∈ w.table → Shallow w.kids frames p) (depth : ℕ) :
    Draws cfg out t w (walk frames p depth)
      (if p ∈ w.table then outline w.kids frames p depth else []) := by
  induction frames generalizing p depth with
  | zero =>
    intro w' htable hpcbs
    have hin : p ∉ w'.table := htable ▸ hshallow
    rw [walk, runs_bind, runs_perform]
    simp only [exec, hin, decide_false]
    rw [if_neg hshallow]
    exact ⟨_, rfl, .nil, htable, hpcbs⟩
  | succ frames ih =>
    intro w' htable hpcbs
    rw [walk, runs_bind, runs_perform]
    by_cases hin : p ∈ w'.table
    · simp only [exec, hin, decide_true, if_true]
      rw [runs_bind, runs_perform, runs_bind, runs_perform, runs_bind]
      have hchildren : ∀ c ∈ (w'.pcbs p).children, Draws cfg out t w (walk frames c (depth + 1))
          (if c ∈ w.table then outline w.kids frames c (depth + 1) else []) := by
        intro c hc
        refine ih (fun hcin => hshallow (htable ▸ hin) c ?_) (depth + 1)
        exact mem_kids.2 ⟨htable ▸ hin, hcin, hpcbs ▸ hc⟩
      obtain ⟨rows, hrows, hlist, hafter⟩ :=
        draws_walkAll hchildren (exec cfg out t .now w').2 htable hpcbs
      simp only [exec] at hrows hafter ⊢
      rw [hrows]
      refine ⟨_, rfl, ?_, hafter⟩
      -- the children that are gone have no rows
      have hkids : (w'.pcbs p).children.flatMap (fun c =>
          if c ∈ w.table then outline w.kids frames c (depth + 1) else []) =
            (w.kids p).flatMap fun c => outline w.kids frames c (depth + 1) := by
        rw [kids, if_pos (htable ▸ hin), hpcbs, flatMap_filter]
        simp only [decide_eq_true_eq]
      rw [if_pos (htable ▸ hin), outline, ← hkids]
      exact .cons ⟨_, by rw [hpcbs]⟩ hlist
    · simp only [exec, hin, decide_false]
      rw [htable] at hin
      rw [if_neg hin]
      exact ⟨_, rfl, .nil, htable, hpcbs⟩

/-- The program raises. -/
def Raises {α : Type} (cfg : KernelConfig) (out : Outside) (t : Tid n) (w : World n)
    (prog : Prog KOp (Option α)) : Prop :=
  ∀ w' : World n, w'.table = w.table → w'.pcbs = w.pcbs → (runs cfg out t prog w').1 = none

/-- The first child whose walk raises ends the loop. -/
lemma raises_walkAll {frames : ℕ} {cs : List Pid} {depth : ℕ}
    (hwalk : ∀ c ∈ cs, (∃ list, Draws cfg out t w (walk frames c depth) list) ∨
      Raises cfg out t w (walk frames c depth))
    (hsome : ∃ c ∈ cs, Raises cfg out t w (walk frames c depth)) :
    Raises cfg out t w (walkAll frames cs depth) := by
  induction cs with
  | nil =>
    obtain ⟨c, hc, -⟩ := hsome
    cases hc
  | cons c cs ih =>
    intro w' htable hpcbs
    rw [walkAll, runs_bind]
    rcases hwalk c List.mem_cons_self with ⟨list, hdraws⟩ | hraises
    · obtain ⟨rows, hrows, -, htable₁, hpcbs₁⟩ := hdraws w' htable hpcbs
      obtain ⟨d, hd, hraises⟩ := hsome
      have hd' : d ∈ cs := by
        refine (List.mem_cons.1 hd).resolve_left ?_
        rintro rfl
        rw [hraises w' htable hpcbs] at hrows
        cases hrows
      rw [hrows]
      simp only
      rw [runs_bind, ih (fun c hc => hwalk c (List.mem_cons_of_mem _ hc)) ⟨d, hd', hraises⟩ _
        htable₁ hpcbs₁]
      rfl
    · rw [hraises w' htable hpcbs]
      rfl

/-- Where the outline has more levels than the recursion limit leaves room for, `walk`
raises. -/
lemma raises_walk (cfg : KernelConfig) (out : Outside) (t : Tid n) {frames : ℕ} {p : Pid}
    (hin : p ∈ w.table) (hdeep : ¬Shallow w.kids frames p) (depth : ℕ) :
    Raises cfg out t w (walk frames p depth) := by
  induction frames generalizing p depth with
  | zero =>
    intro w' htable _
    rw [walk, runs_bind, runs_perform]
    simp [exec, htable, hin]
  | succ frames ih =>
    intro w' htable hpcbs
    have hin' : p ∈ w'.table := htable ▸ hin
    have hraises : Raises cfg out t w (walkAll frames (w.pcbs p).children (depth + 1)) := by
      refine raises_walkAll (fun c _ => ?_) ?_
      · by_cases hc : c ∈ w.table ∧ ¬Shallow w.kids frames c
        · exact .inr (ih hc.1 hc.2 _)
        · exact .inl ⟨_, draws_walk cfg out t (fun hcin => by_contra fun h => hc ⟨hcin, h⟩) _⟩
      · obtain ⟨c, hc, hcdeep⟩ : ∃ c ∈ w.kids p, ¬Shallow w.kids frames c := by
          by_contra hnone
          push Not at hnone
          exact hdeep hnone
        obtain ⟨-, hcin, hchild⟩ := mem_kids.1 hc
        exact ⟨c, hchild, ih hcin hcdeep _⟩
    rw [walk, runs_bind, runs_perform]
    simp only [exec, hin', decide_true, if_true]
    rw [runs_bind, runs_perform, runs_bind, runs_perform, runs_bind]
    have hnone := hraises (exec cfg out t .now w').2 htable hpcbs
    simp only [exec, hpcbs] at hnone ⊢
    rw [hnone]
    rfl

/-- `tree_view` ends. -/
lemma views_walk (cfg : KernelConfig) (out : Outside) (t : Tid n) (h : TreeInv w) (frames : ℕ)
    (p : Pid) (depth : ℕ) (hframes : TreeInv.age w p < frames) :
    Views cfg out t w (walk frames p depth) :=
  (draws_walk cfg out t (fun _ => h.forest.shallow hframes) depth).views

end Kernel

end Gcos
