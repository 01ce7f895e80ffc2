import Gcos.Pool.Runs
import Gcos.Kernel.ProcessTree

/-!
# Histories

A history is a sequence of calls of a kernel, each of them completed before the next
one, between which the workers move one operation at a time.  Two results about all
histories: when the traversals of the process tree end, and when `kill` reaches every
descendant.
-/

namespace Gcos.Pool

open Lib Note World Relation

/-- One event of a history. -/
inductive Event (n : ℕ)
  /-- A worker performs its next operation. -/
  | work (i : Fin n)
  /-- A call is made and completed. -/
  | call (c : KernelCall)
deriving DecidableEq, Repr

variable {n : ℕ}

/-- The pool after an event. -/
def after (cfg : KernelConfig) (out : Outside) (pool : Lib.Pool KOp (Tid n) (World n)) :
    Event n → Lib.Pool KOp (Tid n) (World n)
  | .work i => (kernelSystem n cfg out).next pool (.step (.worker i))
  | .call c => { pool with shared := (runs cfg out (.client 0) c.code pool.shared).2 }

/-- The pool after a history. -/
def history (cfg : KernelConfig) (out : Outside) (quota : Quota) (es : List (Event n)) :
    Lib.Pool KOp (Tid n) (World n) :=
  es.foldl (after cfg out) (boot n quota)

variable {cfg : KernelConfig} {out : Outside} {quota : Quota}
  {pool : Lib.Pool KOp (Tid n) (World n)} {w w' : World n}

/-! ### The tree along a history -/

/-- Workers do not make the tree grow. -/
lemma grows_of_isWorker {rules : Rules} {l : Note} {β : Type} {o : KOp β}
    (hl : l.isWorker = true) (ho : l.allows rules o) : o.grows = false := by
  cases o with
  | newPcb args =>
    obtain ⟨ps, d, rfl⟩ := ho
    cases hl
  | tableAdd p =>
    obtain rfl : l = .spawning p := ho
    cases hl
  | write p c =>
    cases l with
    | holding q busy units replied dead calls =>
      cases c with
      | addChild child => exact absurd rfl (ho.2.1 child)
      | _ => rfl
    | caller _ _ | spawning _ => cases hl
    | worker | released => exact ho.elim
  | _ => rfl

/-- Between two events the threads are sound and the caller is idle. -/
def Steady (pool : Lib.Pool KOp (Tid n) (World n)) : Prop :=
  System.Sound (discipline {}) (Inv {}) Idle pool ∧ pool.code (.client 0) = .ret false

lemma keeps_inv (cfg : KernelConfig) (out : Outside) (β : Type) (t : Tid n) (o : KOp β)
    (w : World n) (ls : Tid n → Note) (h : Inv {} w ls) (hpre : (ls t).allows {} o) :
    Keeps cfg out {} w ls t o :=
  inv_step h o hpre fun hloss => by cases hloss

lemma steady_boot : Steady (boot n quota) := by
  have h : System.Sound (discipline {}) (Inv {}) Idle (boot n quota) :=
    sound_run {} { pager := {}, host := .inert } (.calm ⟨"", 0, 0, 0⟩) quota (by simp [Rules.Fits])
      (by simp) [] (by simp) (by simp)
  exact ⟨h, rfl⟩

lemma Steady.after (h : Steady pool) (e : Event n) : Steady (after cfg out pool e) := by
  cases e with
  | work i =>
    have hfits : Rules.Fits {} cfg.pager.policies := by simp [Rules.Fits]
    have hrun : System.Sound (discipline {}) (Inv {}) Idle
        ((kernelSystem n cfg out).run pool [.step (.worker i)]) :=
      System.run_inv (G := System.noGuard) (fun t _ hl => obeys_body hfits t hl)
        (fun t c _ _ hserves hl => obeys_entry cfg out t c (by simp) hserves hl)
        (fun β t o s ls hI hpre _ => keeps_inv cfg out β t o s ls hI hpre) h.1
        (System.meets_noGuard _ _ _) fun _ _ _ => trivial
    refine ⟨hrun, ?_⟩
    rw [← h.2]
    simp only [Pool.after, System.next]
    split <;> simp
  | call c =>
    obtain ⟨⟨ls, hI, hcode⟩, hidle⟩ := h
    have hcaller := hcode (.client 0)
    rw [hidle] at hcaller
    obtain ⟨ps, d, hls⟩ : IsCaller (ls (.client 0)) := hcaller
    have hobeys : c.code.Obeys (discipline {}) (ls (.client 0)) fun _ l => IsCaller l := by
      rw [hls]
      exact obeys_code c (by simp)
    obtain ⟨l', hl', hI'⟩ := hobeys.alone (keeps_inv cfg out) hI
    refine ⟨⟨_, hI', fun t => ?_⟩, hidle⟩
    by_cases ht : t = .client 0
    -- the caller has run to the end of its code; the workers have not moved
    · rw [ht, Function.update_self]
      change (pool.code (.client 0)).Obeys _ _ _
      rw [hidle]
      exact hl'
    · rw [Function.update_of_ne ht]
      exact hcode t

/-- A step of a worker leaves the tree as it is. -/
lemma Steady.pruned_work (h : Steady pool) (i : Fin n) :
    Pruned pool.shared (Pool.after cfg out pool (.work i)).shared := by
  obtain ⟨⟨ls, hI, hcode⟩, -⟩ := h
  simp only [Pool.after, System.next]
  split
  · exact .refl _
  · exact .refl _
  · next o k hop =>
    have hobey := hcode (.worker i)
    rw [hop] at hobey
    refine pruned_exec o (grows_of_isWorker (hI.role _) hobey.1)

/-- So does every call but `spawn`, up to what it takes out of the table. -/
lemma pruned_code {c : KernelCall} (hc : ∀ args, c ≠ .spawn args) (t : Tid n) :
    Pruned w (runs cfg out t c.code w).2 := by
  cases c with
  | spawn args => exact absurd rfl (hc args)
  | kill fuel pid =>
    rw [KernelCall.code, runs_bind, Kernel.runs_kill]
    split
    · cases hvisit : Worklist.visit w.kids fuel (w.kids pid).reverse [] with
      | none => exact .refl w
      | some victims => exact (Kernel.runs_strike hvisit).2.pruned
    · exact .refl w
  | reapTerminal =>
    rw [KernelCall.code, runs_bind, Kernel.reapTerminal, runs_bind]
    exact pruned_reapFrom _
  | topup amount =>
    rw [KernelCall.code, runs_bind, Kernel.quotaTopup]
    split
    · exact .refl w
    · exact .after cfg out t (.topup amount) rfl (.refl _)
  | shutdown =>
    obtain ⟨hpcbs, htable, hpid⟩ := runs_dropMailboxes cfg out t
      (exec cfg out t .setStop w).2 (exec cfg out t .setStop w).2.bus.pids
    exact .of_eq htable hpid hpcbs

/-- Every `spawn` of a history meets the condition. -/
def SpawnsMeet (ok : World n → SpawnArgs → Prop) (pool : Lib.Pool KOp (Tid n) (World n))
    (e : Event n) : Prop :=
  ∀ args, e = .call (.spawn args) → ok pool.shared args

lemma along_of_no_spawn {ok : World n → SpawnArgs → Prop}
    (pool : Lib.Pool KOp (Tid n) (World n)) (es : List (Event n))
    (hes : ∀ args, Event.call (.spawn args) ∉ es) :
    Along (Pool.after cfg out) (SpawnsMeet ok) pool es := by
  refine along_of_forall (fun e he pool => ?_) pool
  rintro args rfl
  exact absurd he (hes args)

/-- What the events of a history must keep of the tree: a property that pruning keeps,
and that a new agent keeps if its parent meets the condition. -/
lemma tree_history {I : World n → Prop} {ok : World n → SpawnArgs → Prop}
    (hprune : ∀ w w', I w → Pruned w w' → I w')
    (hgrow : ∀ w args, I w → ok w args → I (runs cfg out (.client 0) (Kernel.spawn args) w).2)
    {es : List (Event n)}
    (hes : Along (Pool.after cfg out) (SpawnsMeet ok) (boot n quota) es)
    (hboot : I (boot n quota).shared) : I (history cfg out quota es).shared := by
  refine (hes.foldl (I := fun pool => Steady pool ∧ I pool.shared) ?_ ⟨steady_boot, hboot⟩).2
  rintro pool e ⟨hsteady, hI⟩ hok
  -- one event at a time: everything but `spawn` prunes
  refine ⟨hsteady.after e, ?_⟩
  cases e with
  | work i => exact hprune _ _ hI (hsteady.pruned_work i)
  | call c =>
    by_cases hc : ∃ args, c = .spawn args
    · obtain ⟨args, rfl⟩ := hc
      change I (runs cfg out (.client 0) (KernelCall.spawn args).code pool.shared).2
      rw [KernelCall.code, runs_bind]
      exact hgrow _ args hI (hok args rfl)
    · exact hprune _ _ hI (pruned_code (fun args h => hc ⟨args, h⟩) _)

lemma treeInv_boot : TreeInv (boot n quota).shared := by
  refine ⟨?_, ?_, ?_, ?_⟩ <;> simp [boot, freshWorld]

lemma linked_boot : Linked (boot n quota).shared := by
  intro c p hc
  cases hc

/-! ### Traversal -/

/-- The traversals from `pid` end: `descendants_of` answers with the agents that can be
reached through the children in the table, each once and without `pid` itself, and `kill`
and `tree_view` answer. -/
def Traversable (cfg : KernelConfig) (out : Outside) (w : World n) (pid : Pid) : Prop :=
  (∃ ds bound, (∀ fuel, bound ≤ fuel →
      (runs cfg out (.client 0) (Kernel.descendantsOf fuel pid) w).1 = some ds) ∧
    ds.Nodup ∧ pid ∉ ds ∧ ∀ q, q ∈ ds ↔ TransGen w.TableChild pid q) ∧
  (∃ bound, ∀ fuel, bound ≤ fuel →
    ((runs cfg out (.client 0) (Kernel.kill fuel pid) w).1).isSome = true) ∧
  ∃ bound, ∀ fuel, bound ≤ fuel →
    ((runs cfg out (.client 0) (Kernel.treeView fuel pid) w).1).isSome = true

lemma TreeInv.traversable (h : TreeInv w) (pid : Pid) : Traversable cfg out w pid := by
  obtain ⟨ds, hvisit, hnodup, hself, hmem⟩ := h.forest.visit_forest pid
  refine ⟨⟨ds, ds.length, fun fuel hfuel => ?_, hnodup, hself, fun q => ?_⟩,
    ⟨ds.length, fun fuel hfuel => ?_⟩, ⟨TreeInv.age w pid + 1, fun fuel hfuel => ?_⟩⟩
  · rw [Kernel.runs_descendantsOf, hvisit fuel hfuel]
  · rw [hmem, edge_kids]
  · rw [Kernel.runs_kill]
    split
    · rw [hvisit fuel hfuel]
      simp only
      rw [(Kernel.runs_strike (hvisit fuel hfuel)).1]
      rfl
    · rfl
  · obtain ⟨⟨rows, hrows⟩, -⟩ :=
      Kernel.views_walk cfg out (.client 0) h fuel pid 0 hfuel w rfl rfl
    rw [Kernel.treeView, hrows]
    rfl

/-- The `parent_pid` is not the pid that the new agent is about to be given. -/
def NoSelfParent (w : World n) (args : SpawnArgs) : Prop :=
  args.parentPid ≠ some (w.nextPid : ℤ)

/-- The first agent is spawned as its own child: the loop of `descendants_of` finds it
again and again. -/
theorem traversal_never_ends :
    ∃ es : List (Event 1),
      let w := (history { pager := {}, host := .inert } (.calm ⟨"hi", 1, 1, 2⟩) ⟨5, 5⟩ es).shared
      ∀ cfg out fuel,
        (runs cfg out (.client 0) (Kernel.descendantsOf fuel 1) w).1 = none ∧
          (runs cfg out (.client 0) (Kernel.kill fuel 1) w).1 = none := by
  refine ⟨[.call (.spawn { prompt := "hello", parentPid := some 1 })], ?_⟩
  intro w cfg out fuel
  -- the agent is its own only child
  have hkids : w.kids 1 = [1] := by decide +kernel
  have hlive : 1 ∈ w.table ∧ (w.pcbs 1).isTerminal = false := by decide +kernel
  have hloop : ∀ fuel ds, Worklist.visit w.kids fuel [1] ds = none := by
    intro fuel
    induction fuel with
    | zero => exact fun _ => rfl
    | succ fuel ih =>
      intro ds
      rw [Worklist.visit, hkids]
      exact ih _
  rw [Kernel.runs_descendantsOf, Kernel.runs_kill, if_pos hlive, hkids]
  simp only [List.reverse_singleton, hloop]
  exact ⟨trivial, trivial⟩

/-- **Traversal is well-founded** in every history in which no agent is spawned as its own
child. -/
theorem traversable_of_noSelfParent {n : ℕ} (cfg : KernelConfig) (out : Outside) (quota : Quota)
    (es : List (Event n)) (hes : Along (after cfg out) (SpawnsMeet NoSelfParent) (boot n quota) es)
    (pid : Pid) : Traversable cfg out (history cfg out quota es).shared pid := by
  refine TreeInv.traversable ?_ pid
  refine tree_history (I := TreeInv) (fun _ _ h hw => h.pruned hw) ?_ hes treeInv_boot
  intro w args h hself
  obtain ⟨w₁, hgrown, hpruned⟩ := h.grown_spawn cfg out (.client 0) args
  exact (h.grown hgrown hself).pruned hpruned

/-- A history with a parent, a child and a parent that does not exist yet. -/
theorem traversable_of_noSelfParent_three_agents :
    ∃ es : List (Event 1), es.length = 3 ∧
      Traversable { pager := {}, host := .inert } (.calm ⟨"hi", 1, 1, 2⟩)
        (history { pager := {}, host := .inert } (.calm ⟨"hi", 1, 1, 2⟩) ⟨5, 5⟩ es).shared 1 := by
  refine ⟨[.call (.spawn { prompt := "a" }), .call (.spawn { prompt := "b", parentPid := some 1 }),
    .call (.spawn { prompt := "c", parentPid := some 7 })], rfl,
    traversable_of_noSelfParent _ _ _ _ ?_ 1⟩
  refine ⟨?_, ?_, ?_, trivial⟩
  · rintro _ ⟨⟩
    unfold NoSelfParent
    decide +kernel
  · rintro _ ⟨⟩
    unfold NoSelfParent
    decide +kernel
  · rintro _ ⟨⟩
    unfold NoSelfParent
    decide +kernel

/-! ### Killing a subtree -/

/-- `p` is the parent of `q` according to the spawn history. -/
def ParentOf (w : World n) (p q : Pid) : Prop := (w.pcbs q).parentPid = some p

/-- Every agent of the table that descends from `pid` is terminal. -/
def SubtreeTerminal (w : World n) (pid : Pid) : Prop :=
  ∀ q ∈ w.table, TransGen (ParentOf w) pid q → (w.pcbs q).isTerminal = true

/-- Every live agent of the table that descends from `pid` does so through agents that are
all still in the table. -/
def NoneCutOff (w : World n) (pid : Pid) : Prop :=
  ∀ q ∈ w.table, (w.pcbs q).isTerminal = false → TransGen (ParentOf w) pid q →
    TransGen (fun a b => ParentOf w a b ∧ a ∈ w.table ∧ b ∈ w.table) pid q

/-- The `parent_pid` is `None` or the pid of an agent in the table. -/
def ParentInTable (w : World n) (args : SpawnArgs) : Prop :=
  ∀ p, args.parentPid = some p → p ∈ w.table

/-- The tree with all its links. -/
def LinkedTree (w : World n) : Prop := TreeInv w ∧ Linked w

lemma LinkedTree.pruned (h : LinkedTree w) (hw : Pruned w w') : LinkedTree w' :=
  ⟨h.1.pruned hw, h.2.pruned hw⟩

lemma LinkedTree.spawn {args : SpawnArgs} (h : LinkedTree w) (hparent : ParentInTable w args) :
    LinkedTree (runs cfg out (.client 0) (Kernel.spawn args) w).2 := by
  obtain ⟨w₁, hgrown, hpruned⟩ := h.1.grown_spawn cfg out (.client 0) args
  refine LinkedTree.pruned ⟨h.1.grown hgrown fun hself => ?_, h.2.grown hgrown hparent⟩ hpruned
  exact lt_irrefl _ (h.1.table_lt _ (hparent _ hself))

/-- No agent descends from itself. -/
lemma LinkedTree.irrefl (h : LinkedTree w) (p : Pid) : ¬TransGen (ParentOf w) p p := by
  have hlt : ∀ a b : ℤ, TransGen (ParentOf w) a b → a < b := by
    intro a b hab
    induction hab with
    | single hab => exact (h.1.child_lt _ _ (h.2 _ _ hab)).1
    | tail _ hbc ih => exact ih.trans (h.1.child_lt _ _ (h.2 _ _ hbc)).1
  exact fun hp => lt_irrefl _ (hlt p p hp)

/-- The children in the table, told by the parent links. -/
lemma LinkedTree.tableChild_iff (h : LinkedTree w) (p q : Pid) :
    w.TableChild p q ↔ ParentOf w p q ∧ p ∈ w.table ∧ q ∈ w.table := by
  constructor
  · rintro ⟨hp, hq, hchild⟩
    exact ⟨h.1.child_parent p q hchild, hp, hq⟩
  · rintro ⟨hparent, hp, hq⟩
    exact ⟨hp, hq, h.2 q p hparent⟩

/-- What a successful `kill` finalizes: the agent and what is below it in the table. -/
lemma LinkedTree.kill (h : LinkedTree w) {fuel : ℕ} {pid : Pid}
    (hkill : (runs cfg out (.client 0) (Kernel.kill fuel pid) w).1 = some true) :
    ∃ ds, Finalized (pid :: ds) w (runs cfg out (.client 0) (Kernel.kill fuel pid) w).2 ∧
      ∀ q, q ∈ ds ↔
        TransGen (fun a b => ParentOf w a b ∧ a ∈ w.table ∧ b ∈ w.table) pid q := by
  obtain ⟨ds, hvisit, -, -, hmem⟩ := h.1.forest.visit_forest pid
  have hedge : Worklist.Edge w.kids =
      fun a b => ParentOf w a b ∧ a ∈ w.table ∧ b ∈ w.table := by
    funext p q
    rw [edge_kids]
    exact propext (h.tableChild_iff p q)
  refine ⟨ds, ?_, fun q => by rw [hmem, hedge]⟩
  rw [Kernel.runs_kill] at hkill ⊢
  split at hkill
  · next hlive =>
    rw [if_pos hlive]
    cases hfuel : Worklist.visit w.kids fuel (w.kids pid).reverse [] with
    | none =>
      rw [hfuel] at hkill
      cases hkill
    | some victims =>
      obtain rfl := Worklist.visit_unique hfuel (hvisit _ le_rfl)
      exact (Kernel.runs_strike hfuel).2
  · cases hkill

lemma parentOf_finalized {ps : List Pid} (h : Finalized ps w w') : ParentOf w' = ParentOf w := by
  funext p q
  unfold ParentOf
  rw [h.pruned.parentPid]

/-- The middle generation finishes and is reaped; the kill of the first one does not reach
the third. -/
theorem kill_misses_grandchild :
    ∃ es : List (Event 1),
      let cfg : KernelConfig :=
        { scheduler := .priority 0 0, pager := {}, host := .inert }
      let out : Outside := .calm ⟨"hi", 1, 1, 2⟩
      let w := (history cfg out ⟨5, 5⟩ es).shared
      Along (after cfg out) (SpawnsMeet ParentInTable) (boot 1 ⟨5, 5⟩) es ∧
        (runs cfg out (.client 0) (Kernel.kill 9 1) w).1 = some true ∧
        ¬SubtreeTerminal (runs cfg out (.client 0) (Kernel.kill 9 1) w).2 1 := by
  refine ⟨[.call (.spawn { prompt := "a" }),
    .call (.spawn { prompt := "b", priority := 9, parentPid := some 1 }),
    .call (.spawn { prompt := "c", parentPid := some 2 })] ++
    List.replicate 30 (.work 0) ++ [.call .reapTerminal], ?_, by decide +kernel, fun h => ?_⟩
  · refine ⟨?_, ?_, ?_, ?_⟩
    · rintro _ ⟨⟩ p ⟨⟩
    · rintro _ ⟨⟩ p ⟨⟩
      decide +kernel
    · rintro _ ⟨⟩ p ⟨⟩
      decide +kernel
    · exact along_of_no_spawn _ _ fun args => by simp
  · have hlive := h 3 (by decide +kernel)
      (.tail (b := 2) (.single (by unfold ParentOf; decide +kernel))
        (by unfold ParentOf; decide +kernel))
    revert hlive
    decide +kernel

/-- **How far a kill cascades.**  After every history in which the parents are in the
table when they are named, a `kill` that answers `True` leaves every descendant in the
table terminal if and only if, before it, no live descendant was cut off from the agent
by one that had been reaped. -/
theorem subtreeTerminal_iff_noneCutOff {n : ℕ} (cfg : KernelConfig) (out : Outside)
    (quota : Quota) (es : List (Event n))
    (hes : Along (after cfg out) (SpawnsMeet ParentInTable) (boot n quota) es) (fuel : ℕ)
    (pid : Pid)
    (hkill : (runs cfg out (.client 0) (Kernel.kill fuel pid)
      (history cfg out quota es).shared).1 = some true) :
    SubtreeTerminal (runs cfg out (.client 0) (Kernel.kill fuel pid)
        (history cfg out quota es).shared).2 pid ↔
      NoneCutOff (history cfg out quota es).shared pid := by
  have htree : LinkedTree (history cfg out quota es).shared :=
    tree_history (fun _ _ h hw => h.pruned hw) (fun _ _ h hok => h.spawn hok) hes
      ⟨treeInv_boot, linked_boot⟩
  obtain ⟨ds, hfinal, hmem⟩ := htree.kill hkill
  unfold SubtreeTerminal NoneCutOff
  rw [hfinal.table, parentOf_finalized hfinal]
  refine forall₂_congr fun q hq => ?_
  rw [hfinal.terminal, List.mem_cons, hmem]
  constructor
  · intro h hlive hbelow
    rcases h hbelow with hterm | rfl | hds
    · rw [hlive] at hterm
      cases hterm
    · exact absurd hbelow (htree.irrefl q)
    · exact hds
  · intro h hbelow
    cases hlive : ((history cfg out quota es).shared.pcbs q).isTerminal with
    | true => exact .inl rfl
    | false => exact .inr (.inr (h hlive hbelow))

/-- The history above without the reaping: the kill reaches all three generations. -/
theorem subtreeTerminal_iff_noneCutOff_three_generations :
    ∃ es : List (Event 1),
      let cfg : KernelConfig :=
        { scheduler := .priority 0 0, pager := {}, host := .inert }
      let out : Outside := .calm ⟨"hi", 1, 1, 2⟩
      let w := (history cfg out ⟨5, 5⟩ es).shared
      (w.pcbs 2).state = .done ∧ (w.pcbs 3).state = .ready ∧
        (SubtreeTerminal (runs cfg out (.client 0) (Kernel.kill 9 1) w).2 1 ↔ NoneCutOff w 1) := by
  refine ⟨[.call (.spawn { prompt := "a" }),
    .call (.spawn { prompt := "b", priority := 9, parentPid := some 1 }),
    .call (.spawn { prompt := "c", parentPid := some 2 })] ++
    List.replicate 30 (.work 0), by decide +kernel, by decide +kernel,
    subtreeTerminal_iff_noneCutOff _ _ _ _ ?_ _ _ (by decide +kernel)⟩
  refine ⟨?_, ?_, ?_, along_of_no_spawn _ _ fun args => by simp⟩
  · rintro _ ⟨⟩ p ⟨⟩
  · rintro _ ⟨⟩ p ⟨⟩
    decide +kernel
  · rintro _ ⟨⟩ p ⟨⟩
    decide +kernel

end Gcos.Pool
