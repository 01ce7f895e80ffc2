import Gcos.Pool.History

/-!
# The listing of the process tree

The command `tree` of `gcos/shell/repl.py` prints the outlines of all agents without a
parent.  Whether an agent is such a root is told by its `parent_pid`, which stays when the
parent is reaped; what is below a root is told by the children in the table.  So an agent
whose parent has been reaped is in no outline.  After a history in which every parent was in
the table when it was named, the listing is complete exactly when no agent of the table has
lost its parent and none is more generations below its root than the recursion limit leaves
room for: `walk` calls itself once for every generation.
-/

namespace Gcos

open Lib Lib.Worklist World Relation

/-! ### The command -/

namespace Shell

/-- The loop over the roots in `Shell.cmd_tree`. -/
def viewAll (frames : ℕ) : List AgentControlBlock → Prog KOp (Option (List (Row × ℕ)))
  | [] => return some []
  | r :: rest => do
    match ← Kernel.treeView frames r.pid with
    | none => return none
    | some rows =>
      match ← viewAll frames rest with
      | none => return none
      | some more => return some (rows ++ more)

/-- The rows that `Shell.cmd_tree` prints; `none` is the `RecursionError` of a `tree_view`,
with which it ends before it prints anything. -/
def cmdTree (frames : ℕ) : Option Pid → Prog KOp (Option (List (Row × ℕ)))
  | some root => Kernel.treeView frames root
  | none => do
    let roots ← Kernel.roots
    viewAll frames roots

end Shell

variable {n : ℕ} {cfg : KernelConfig} {out : Outside} {t : Tid n} {w : World n}

namespace World

/-- The pids of the agents of the table that have no parent, in ascending order. -/
def rootPids (w : World n) : List Pid :=
  (w.table.insertionSort (· ≤ ·)).filter fun p => (w.pcbs p).parentPid = none

end World

lemma runs_rootsFrom (ps : List Pid) :
    runs cfg out t (Kernel.rootsFrom ps) w =
      ((ps.filter fun p => (w.pcbs p).parentPid = none).map w.pcbs, w) := by
  induction ps with
  | nil => rfl
  | cons p ps ih =>
    rw [Kernel.rootsFrom, runs_bind, runs_perform, runs_bind]
    by_cases hp : (w.pcbs p).parentPid = none <;> simp [exec, hp, ih]

lemma runs_roots : runs cfg out t Kernel.roots w = (w.rootPids.map w.pcbs, w) := by
  rw [Kernel.roots, runs_bind]
  exact runs_rootsFrom _

lemma draws_viewAll {frames : ℕ} {rs : List AgentControlBlock}
    {list : AgentControlBlock → List (Pid × ℕ)}
    (h : ∀ r ∈ rs, Kernel.Draws cfg out t w (Kernel.treeView frames r.pid) (list r)) :
    Kernel.Draws cfg out t w (Shell.viewAll frames rs) (rs.flatMap list) := by
  induction rs with
  | nil =>
    intro w' htable hpcbs
    exact ⟨_, rfl, .nil, htable, hpcbs⟩
  | cons r rs ih =>
    intro w' htable hpcbs
    obtain ⟨rows, hrows, hlist, htable₁, hpcbs₁⟩ := h r List.mem_cons_self w' htable hpcbs
    obtain ⟨more, hmore, hrest, hafter⟩ :=
      ih (fun s hs => h s (List.mem_cons_of_mem _ hs)) _ htable₁ hpcbs₁
    rw [Shell.viewAll, runs_bind, hrows]
    simp only
    rw [runs_bind, hmore]
    exact ⟨_, rfl, List.rel_append hlist hrest, hafter⟩

/-- The first root whose `tree_view` raises ends the loop. -/
lemma raises_viewAll {frames : ℕ} {rs : List AgentControlBlock}
    (h : ∀ r ∈ rs, (∃ list, Kernel.Draws cfg out t w (Kernel.treeView frames r.pid) list) ∨
      Kernel.Raises cfg out t w (Kernel.treeView frames r.pid))
    (hsome : ∃ r ∈ rs, Kernel.Raises cfg out t w (Kernel.treeView frames r.pid)) :
    Kernel.Raises cfg out t w (Shell.viewAll frames rs) := by
  induction rs with
  | nil =>
    obtain ⟨r, hr, -⟩ := hsome
    cases hr
  | cons r rs ih =>
    intro w' htable hpcbs
    rw [Shell.viewAll, runs_bind]
    rcases h r List.mem_cons_self with ⟨list, hdraws⟩ | hraises
    · obtain ⟨rows, hrows, -, htable₁, hpcbs₁⟩ := hdraws w' htable hpcbs
      obtain ⟨s, hs, hraises⟩ := hsome
      have hs' : s ∈ rs := by
        refine (List.mem_cons.1 hs).resolve_left ?_
        rintro rfl
        rw [hraises w' htable hpcbs] at hrows
        cases hrows
      rw [hrows]
      simp only
      rw [runs_bind, ih (fun s hs => h s (List.mem_cons_of_mem _ hs)) ⟨s, hs', hraises⟩ _
        htable₁ hpcbs₁]
      rfl
    · rw [hraises w' htable hpcbs]
      rfl

/-! ### Blocks and their pids -/

/-- Every block carries its own pid, and no agent is in the table twice. -/
structure Registered (w : World n) : Prop where
  pid_eq : ∀ p, (w.pcbs p).pid = p
  nodup : w.table.Nodup

lemma Write.pid_apply (c : Write) (clock : ℕ → Time) (pcb : AgentControlBlock) :
    (c.apply clock pcb).pid = pcb.pid := by
  cases c with
  | transition st =>
    rw [Write.apply, AgentControlBlock.transition_frame]
  | _ => rfl

/-- A change to one block that keeps its pid. -/
lemma pid_eq_update {pcbs : Pid → AgentControlBlock} (h : ∀ p, (pcbs p).pid = p) {q : Pid}
    {pcb : AgentControlBlock} (hpcb : pcb.pid = q) (p : Pid) :
    (Function.update pcbs q pcb p).pid = p := by
  by_cases hp : p = q
  · rw [hp, Function.update_self, hpcb]
  · rw [Function.update_of_ne hp, h]

lemma Registered.exec (h : Registered w) (cfg : KernelConfig) (out : Outside) (t : Tid n)
    {β : Type} (o : KOp β) : Registered (World.exec cfg out t o w).2 := by
  constructor
  case pid_eq =>
    cases o with
    | write p c =>
      rw [(exec_write cfg out t w p c).1]
      exact pid_eq_update h.pid_eq ((c.pid_apply _ _).trans (h.pid_eq p))
    | newPcb args => exact pid_eq_update h.pid_eq rfl
    | put p =>
      simp only [World.exec, put]
      split
      · exact h.pid_eq
      · refine pid_eq_update h.pid_eq ?_
        rw [AgentControlBlock.transition_frame]
        exact h.pid_eq p
    | _ =>
      rw [pcbs_exec rfl]
      exact h.pid_eq
  case nodup =>
    cases o with
    | tableAdd p =>
      simp only [World.exec]
      split
      · exact h.nodup
      · next hp => simpa [List.nodup_append] using ⟨h.nodup, fun q hq heq => hp (heq ▸ hq)⟩
    | tableRemove p => exact h.nodup.erase p
    | _ =>
      rw [table_exec rfl]
      exact h.nodup

namespace Pool

lemma registered_history (cfg : KernelConfig) (out : Outside) (quota : Quota)
    (es : List (Event n)) : Registered (history cfg out quota es).shared := by
  refine List.foldlRecOn es (after cfg out) (motive := fun pool => Registered pool.shared) ?_ ?_
  · exact ⟨fun _ => rfl, List.nodup_nil⟩
  · intro pool h e _
    cases e with
    | work i =>
      simp only [after, System.next]
      split
      · exact h
      · exact h
      · exact h.exec cfg out (.worker i) _
    | call c => exact Prog.alone_keeps _ (fun o w hw => hw.exec cfg out (.client 0) o) c.code h

/-! ### What is listed -/

/-- The rows show the tree: every agent of the table has exactly one row, and above a row that
is not at the margin the closest row one level up is that of its parent. -/
structure ShowsTree (w : World n) (rows : List (Row × ℕ)) : Prop where
  once : ∀ p ∈ w.table, (rows.map fun r => r.1.pid).count p = 1
  nested : ∀ above row depth below, rows = above ++ (row, depth + 1) :: below →
    ∃ before parent between, above = before ++ (parent, depth) :: between ∧
      (∀ r ∈ between, r.2 ≠ depth) ∧ row.parent = some parent.pid

/-- No agent of the table has lost its parent. -/
def ParentsKept (w : World n) : Prop :=
  ∀ p ∈ w.table, ∀ parent, (w.pcbs p).parentPid = some parent → parent ∈ w.table

instance (w : World n) : Decidable (ParentsKept w) :=
  inferInstanceAs (Decidable (∀ p ∈ w.table, ∀ parent, _ = some parent → _))

/-- `p` is an agent of the table, and a root is found after `d` steps from it to its parent,
the parent of that one, and so on. -/
def Generation (w : World n) : ℕ → Pid → Prop
  | 0, p => p ∈ w.table ∧ (w.pcbs p).parentPid = none
  | d + 1, p => p ∈ w.table ∧ ∃ parent, (w.pcbs p).parentPid = some parent ∧ Generation w d parent

/-- No agent is more generations below its root than the recursion limit leaves room for. -/
def WithinFrames (frames : ℕ) (w : World n) : Prop := ∀ d p, Generation w d p → d < frames

/-- A bound on the generations: a number that grows from parent to child. -/
lemma withinFrames_of_rank {frames : ℕ} (rank : Pid → ℕ)
    (hrank : ∀ p ∈ w.table, ∀ parent, (w.pcbs p).parentPid = some parent → rank parent < rank p)
    (hframes : ∀ p ∈ w.table, rank p < frames) : WithinFrames frames w := by
  have hle : ∀ d p, Generation w d p → p ∈ w.table ∧ d ≤ rank p := by
    intro d
    induction d with
    | zero => exact fun p hgen => ⟨hgen.1, Nat.zero_le _⟩
    | succ d ih =>
      rintro p ⟨hin, parent, hparent, hgen⟩
      exact ⟨hin, Nat.succ_le_of_lt ((ih parent hgen).2.trans_lt (hrank p hin parent hparent))⟩
  intro d p hgen
  obtain ⟨hin, hd⟩ := hle d p hgen
  exact hd.trans_lt (hframes p hin)

/-- The listing of all roots, down to so many levels. -/
def listing (w : World n) (levels : ℕ) : List (Pid × ℕ) :=
  w.rootPids.flatMap fun p => outline w.kids levels p 0

lemma mem_rootPids {p : Pid} : p ∈ w.rootPids ↔ p ∈ w.table ∧ (w.pcbs p).parentPid = none := by
  simp [rootPids, List.mem_insertionSort]

/-- No outline of a root has more levels than these. -/
def Fits (w : World n) (levels : ℕ) : Prop := ∀ p ∈ w.rootPids, Shallow w.kids levels p

/-- The generations below a root are the lengths of the paths from it. -/
lemma generation_iff (h : TreeInv w) (hlinked : Linked w) {d : ℕ} {p : Pid} :
    Generation w d p ↔ ∃ r ∈ w.rootPids, Descends w.kids d r p := by
  induction d generalizing p with
  | zero => simp [Generation, Descends, mem_rootPids]
  | succ d ih =>
    simp only [Generation, ih, descends_succ, mem_kids]
    constructor
    · rintro ⟨hin, parent, hparent, r, hr, hpath⟩
      have hparentIn : parent ∈ w.table := by
        have hgen := ih.2 ⟨r, hr, hpath⟩
        cases d with
        | zero => exact hgen.1
        | succ d => exact hgen.1
      exact ⟨r, hr, parent, hpath, hparentIn, hin, hlinked p parent hparent⟩
    · rintro ⟨r, hr, parent, hpath, -, hin, hchild⟩
      exact ⟨hin, parent, h.child_parent parent p hchild, r, hr, hpath⟩

lemma withinFrames_iff_fits (h : TreeInv w) (hlinked : Linked w) {frames : ℕ} :
    WithinFrames frames w ↔ Fits w frames := by
  constructor
  · intro hwithin r hr
    by_contra hdeep
    obtain ⟨p, hpath⟩ := not_shallow_iff.1 hdeep
    exact lt_irrefl _ (hwithin frames p ((generation_iff h hlinked).2 ⟨r, hr, hpath⟩))
  · intro hfits d p hgen
    by_contra hlong
    obtain ⟨r, hr, hpath⟩ := (generation_iff h hlinked).1 hgen
    obtain ⟨q, hq⟩ := hpath.shorten (not_lt.1 hlong)
    exact not_shallow_iff.2 ⟨q, hq⟩ (hfits r hr)

/-- The command draws the listing, if the recursion limit leaves room for it. -/
lemma draws_cmdTree (cfg : KernelConfig) (out : Outside) (t : Tid n) (hreg : Registered w)
    {frames : ℕ} (hfits : Fits w frames) :
    Kernel.Draws cfg out t w (Shell.cmdTree frames none) (listing w frames) := by
  have hview : Kernel.Draws cfg out t w (Shell.viewAll frames (w.rootPids.map w.pcbs))
      (listing w frames) := by
    have heach : ∀ r ∈ w.rootPids.map w.pcbs, Kernel.Draws cfg out t w
        (Kernel.treeView frames r.pid) (outline w.kids frames r.pid 0) := by
      rintro r hr
      obtain ⟨p, hp, rfl⟩ := List.mem_map.1 hr
      have hwalk := Kernel.draws_walk cfg out t (fun _ => hfits p hp) 0
      rw [if_pos (mem_rootPids.1 hp).1] at hwalk
      rwa [hreg.pid_eq]
    have hdraws := draws_viewAll heach
    simpa only [listing, List.flatMap_map, hreg.pid_eq] using hdraws
  intro w' htable hpcbs
  have hroots : w'.rootPids = w.rootPids := by
    unfold rootPids
    rw [htable, hpcbs]
  rw [Shell.cmdTree, runs_bind, runs_roots, hroots, hpcbs]
  exact hview w' htable hpcbs

/-- The command raises, if an outline is deeper than that. -/
lemma cmdTree_raises (cfg : KernelConfig) (out : Outside) (t : Tid n) (hreg : Registered w)
    {frames : ℕ} (hdeep : ¬Fits w frames) :
    (runs cfg out t (Shell.cmdTree frames none) w).1 = none := by
  have hroot : ∀ p ∈ w.rootPids, ¬Shallow w.kids frames p →
      Kernel.Raises cfg out t w (Kernel.treeView frames (w.pcbs p).pid) := by
    intro p hp hdeep
    rw [hreg.pid_eq]
    exact Kernel.raises_walk cfg out t (mem_rootPids.1 hp).1 hdeep 0
  have hview : Kernel.Raises cfg out t w (Shell.viewAll frames (w.rootPids.map w.pcbs)) := by
    refine raises_viewAll (fun r hr => ?_) ?_
    · obtain ⟨p, hp, rfl⟩ := List.mem_map.1 hr
      by_cases hshallow : Shallow w.kids frames p
      · rw [hreg.pid_eq]
        exact .inl ⟨_, Kernel.draws_walk cfg out t (fun _ => hshallow) 0⟩
      · exact .inr (hroot p hp hshallow)
    · obtain ⟨p, hp, hpdeep⟩ : ∃ p ∈ w.rootPids, ¬Shallow w.kids frames p := by
        by_contra hnone
        push Not at hnone
        exact hdeep hnone
      exact ⟨_, List.mem_map_of_mem hp, hroot p hp hpdeep⟩
  rw [Shell.cmdTree, runs_bind, runs_roots]
  exact hview w rfl rfl

/-- What the rows tell of the blocks that they were made of. -/
lemma cells_of_rows (hreg : Registered w) {rows : List (Row × ℕ)} {list : List (Pid × ℕ)}
    (h : List.Forall₂ (fun r q => ∃ now, r = ((w.pcbs q.1).toRow now, q.2)) rows list) :
    rows.map (fun r => (r.1.pid, r.2)) = list ∧
      ∀ r ∈ rows, r.1.parent = (w.pcbs r.1.pid).parentPid := by
  induction h with
  | nil => exact ⟨rfl, by simp⟩
  | @cons r q rows list hrow _ ih =>
    obtain ⟨now, rfl⟩ := hrow
    refine ⟨?_, ?_⟩
    · rw [List.map_cons, ih.1]
      simp [AgentControlBlock.toRow, hreg.pid_eq]
    · rw [List.forall_mem_cons]
      refine ⟨?_, ih.2⟩
      simp [AgentControlBlock.toRow, hreg.pid_eq]

section

variable {levels : ℕ} (h : TreeInv w) (hreg : Registered w) (hfits : Fits w levels)
include hfits

lemma mem_listing (p : Pid) :
    p ∈ (listing w levels).map Prod.fst ↔ ∃ r ∈ w.rootPids, ReflTransGen w.TableChild r p := by
  rw [listing, List.map_flatMap, List.mem_flatMap]
  refine exists_congr fun r => and_congr_right fun hr => ?_
  rw [(hfits r hr).mem_outline, edge_kids]

include h

/-- The agents that are listed are those that a root reaches, and an agent whose parent is
kept is reached where its parent is. -/
lemma listed_iff_parentsKept (hlinked : Linked w) :
    (∀ p ∈ w.table, p ∈ (listing w levels).map Prod.fst) ↔ ParentsKept w := by
  simp only [mem_listing hfits]
  constructor
  · intro hlisted p hp parent hparent
    obtain ⟨r, hr, hpath⟩ := hlisted p hp
    rcases ReflTransGen.cases_tail hpath with rfl | ⟨q, -, hq, -, hchild⟩
    · rw [(mem_rootPids.1 hr).2] at hparent
      cases hparent
    · rw [h.child_parent q p hchild] at hparent
      cases hparent
      exact hq
  · intro hkept
    -- the oldest agent that is not reached has a parent, and the parent is older
    classical
    by_contra hsome
    push Not at hsome
    obtain ⟨p₀, hp₀, hlost₀⟩ := hsome
    obtain ⟨p, hp, hmin⟩ := Finset.exists_min_image
      (w.table.toFinset.filter fun p => ¬∃ r ∈ w.rootPids, ReflTransGen w.TableChild r p)
      (fun p : ℤ => p) ⟨p₀, by simpa using ⟨hp₀, hlost₀⟩⟩
    rw [Finset.mem_filter, List.mem_toFinset] at hp
    obtain ⟨hin, hlost⟩ := hp
    cases hparent : (w.pcbs p).parentPid with
    | none => exact hlost ⟨p, mem_rootPids.2 ⟨hin, hparent⟩, .refl⟩
    | some parent =>
      have hparentIn := hkept p hin parent hparent
      have hchild := hlinked p parent hparent
      have hreached : ∃ r ∈ w.rootPids, ReflTransGen w.TableChild r parent := by
        by_contra hnot
        have hle := hmin parent (by simpa using ⟨hparentIn, fun r hr hpath => hnot ⟨r, hr, hpath⟩⟩)
        exact absurd (h.child_lt parent p hchild).1 (not_lt.2 hle)
      obtain ⟨r, hr, hpath⟩ := hreached
      exact hlost ⟨r, hr, hpath.tail ⟨hparentIn, hin, hchild⟩⟩

include hreg

lemma nodup_listing : ((listing w levels).map Prod.fst).Nodup := by
  refine h.forest.nodup_outlines hfits ?_ ?_
  · exact ((List.perm_insertionSort _ _).nodup_iff.2 hreg.nodup).filter _
  · intro p hp q hq
    have hparent := h.child_parent q p (mem_kids.1 hq).2.2
    rw [(mem_rootPids.1 hp).2] at hparent
    cases hparent

/-- **When the listing is complete.** -/
lemma showsTree_iff (hlinked : Linked w) {rows : List (Row × ℕ)}
    (hrows : List.Forall₂ (fun r q => ∃ now, r = ((w.pcbs q.1).toRow now, q.2)) rows
      (listing w levels)) :
    ShowsTree w rows ↔ ParentsKept w := by
  obtain ⟨hcells, hparents⟩ := cells_of_rows hreg hrows
  have hpids : (rows.map fun r => r.1.pid) = (listing w levels).map Prod.fst := by
    rw [← hcells, List.map_map]
    rfl
  rw [← listed_iff_parentsKept h hfits hlinked]
  constructor
  · intro hshows p hp
    rw [← hpids]
    exact List.count_pos_iff.1 (by rw [hshows.once p hp]; exact Nat.one_pos)
  · intro hlisted
    refine ⟨fun p hp => ?_, fun above row depth below hsplit => ?_⟩
    · rw [hpids]
      exact List.count_eq_one_of_mem (nodup_listing h hreg hfits) (hlisted p hp)
    · have hhangs : Hangs (Edge w.kids) (fun _ => True) 0 (listing w levels) :=
        .flatMap fun p _ => hangs_outline levels trivial 0
      have hrow : row.parent = (w.pcbs row.pid).parentPid :=
        hparents (row, depth + 1) (by simp [hsplit])
      rw [hsplit, List.map_append, List.map_cons] at hcells
      rcases hhangs _ _ _ _ hcells.symm with ⟨hzero, -⟩ | ⟨k, q, hk, -, hclose, hedge⟩
      · omega
      · obtain rfl : depth = k := by omega
        obtain ⟨before', between', habove, hne⟩ := hclose
        obtain ⟨before, rest, rfl, rfl, hrest⟩ := List.map_eq_append_iff.1 habove
        obtain ⟨⟨parent, d⟩, between, rfl, hparent, rfl⟩ := List.map_eq_cons_iff.1 hrest
        obtain ⟨rfl, rfl⟩ := Prod.mk.inj hparent
        refine ⟨before, parent, between, rfl, fun r hr => ?_, ?_⟩
        · exact hne (r.1.pid, r.2) (List.mem_map.2 ⟨r, hr, rfl⟩)
        · rw [hrow]
          exact h.child_parent _ _ (mem_kids.1 hedge).2.2

end

/-! ### The listing along a history -/

/-- The command `tree` prints, and what it prints shows the tree. -/
def TreeShown (cfg : KernelConfig) (out : Outside) (frames : ℕ) (w : World n) : Prop :=
  ∃ rows, (runs cfg out (.client 0) (Shell.cmdTree frames none) w).1 = some rows ∧ ShowsTree w rows

/-- A world without roots has an empty listing. -/
lemma cmdTree_of_no_roots (h : w.rootPids = []) (frames : ℕ) :
    (runs cfg out t (Shell.cmdTree frames none) w).1 = some [] := by
  rw [Shell.cmdTree, runs_bind, runs_roots, h]
  rfl

/-- The parent finishes and is reaped: its child, which is still there, is not a root and is
not below one. -/
theorem tree_misses_orphan :
    ∃ es : List (Event 1),
      let cfg : KernelConfig := { scheduler := .priority 0 0, pager := {}, host := .inert }
      let out : Outside := .calm ⟨"hi", 1, 1, 2⟩
      let w := (history cfg out ⟨5, 5⟩ es).shared
      Along (after cfg out) (SpawnsMeet ParentInTable) (boot 1 ⟨5, 5⟩) es ∧
        w.table = [2] ∧ (w.pcbs 2).state = .ready ∧ ∀ frames, ¬TreeShown cfg out frames w := by
  refine ⟨[.call (.spawn { prompt := "a", priority := 9 }),
    .call (.spawn { prompt := "b", parentPid := some 1 })] ++
    List.replicate 30 (.work 0) ++ [.call .reapTerminal], ?_, by decide +kernel, by decide +kernel, ?_⟩
  · refine ⟨?_, ?_, ?_⟩
    · rintro _ ⟨⟩ p ⟨⟩
    · rintro _ ⟨⟩ p ⟨⟩
      decide +kernel
    · exact along_of_no_spawn _ _ fun args => by simp
  · rintro frames ⟨rows, hrows, hshows⟩
    rw [cmdTree_of_no_roots (by decide +kernel)] at hrows
    cases hrows
    exact absurd (hshows.once 2 (by decide +kernel)) (by simp)

/-- **The listing is complete as long as no parent is reaped and the tree is not too deep.**
After every history in which the parents are in the table when they are named, and for every
room that the recursion limit leaves, the command `tree` prints every agent of the table once
and below its parent if and only if no agent of the table has lost its parent and none is too
many generations below its root. -/
theorem treeShown_iff_parentsKept {n : ℕ} (cfg : KernelConfig) (out : Outside) (quota : Quota)
    (es : List (Event n))
    (hes : Along (after cfg out) (SpawnsMeet ParentInTable) (boot n quota) es) (frames : ℕ) :
    TreeShown cfg out frames (history cfg out quota es).shared ↔
      ParentsKept (history cfg out quota es).shared ∧
        WithinFrames frames (history cfg out quota es).shared := by
  have htree : LinkedTree (history cfg out quota es).shared :=
    tree_history (fun _ _ h hw => h.pruned hw) (fun _ _ h hok => h.spawn hok) hes
      ⟨treeInv_boot, linked_boot⟩
  have hreg := registered_history cfg out quota es
  rw [withinFrames_iff_fits htree.1 htree.2]
  by_cases hfits : Fits (history cfg out quota es).shared frames
  · obtain ⟨rows, hrows, hlist, -⟩ := draws_cmdTree cfg out (.client 0) hreg hfits _ rfl rfl
    have hiff := showsTree_iff htree.1 hreg hfits htree.2 hlist
    constructor
    · rintro ⟨rows', hrows', hshows⟩
      rw [hrows] at hrows'
      cases hrows'
      exact ⟨hiff.1 hshows, hfits⟩
    · rintro ⟨hkept, -⟩
      exact ⟨rows, hrows, hiff.2 hkept⟩
  · refine iff_of_false ?_ fun h => hfits h.2
    rintro ⟨rows, hrows, -⟩
    rw [cmdTree_raises cfg out (.client 0) hreg hfits] at hrows
    cases hrows

/-- The history above without the reaping: both generations are listed. -/
theorem treeShown_iff_parentsKept_two_generations :
    ∃ es : List (Event 1),
      let cfg : KernelConfig := { scheduler := .priority 0 0, pager := {}, host := .inert }
      let out : Outside := .calm ⟨"hi", 1, 1, 2⟩
      let w := (history cfg out ⟨5, 5⟩ es).shared
      (w.pcbs 1).state = .done ∧ (w.pcbs 2).parentPid = some 1 ∧ TreeShown cfg out 900 w := by
  refine ⟨[.call (.spawn { prompt := "a", priority := 9 }),
    .call (.spawn { prompt := "b", parentPid := some 1 })] ++ List.replicate 30 (.work 0),
    by decide +kernel, by decide +kernel,
    (treeShown_iff_parentsKept _ _ _ _ ?_ _).2 ⟨by decide +kernel, ?_⟩⟩
  · refine ⟨?_, ?_, along_of_no_spawn _ _ fun args => by simp⟩
    · rintro _ ⟨⟩ p ⟨⟩
    · rintro _ ⟨⟩ p ⟨⟩
      decide +kernel
  · exact withinFrames_of_rank Int.toNat (by decide +kernel) (by decide +kernel)

end Pool

end Gcos
