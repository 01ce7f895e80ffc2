import Gcos.Process.Bills
import Gcos.Process.Strand

/-!
# The budget of the process backend

The calls of the agents that return in the children are on the bills of the children, and
so they are charged to the quota.  A summarize call of a child is on no bill: the child takes
the unit for it from its own copy of the quota, and the copy is gone with the child.  The
calls of all children are therefore charged in every run in which no summarize call returns
in a child.
-/

namespace Gcos.Process

open Lib Exec Pool World

variable {n : ℕ} {cfg : KernelConfig} {out : Outside} {kids : ℕ → Offspring} {t : Tid n} {β : Type}
  {o : FOp β} {f : Fleet n} {ls : Tid n → Desk} {l l' : Desk} {p : Pid} {c c' : ChildProc n} {k : ℕ}

/-! ### Calls and charges -/

namespace Fleet

/-- The calls that have returned in child `k`: those of the steps and the summarize calls. -/
def callsOf (cfg : KernelConfig) (kids : ℕ → Offspring) (f : Fleet n) (k : ℕ) : ℤ :=
  match f.procs[k]? with
  | some c => c.replies cfg (kids k) + c.summaries cfg (kids k)
  | none => 0

/-- The calls that have returned in all children. -/
def callsReturned (cfg : KernelConfig) (kids : ℕ → Offspring) (f : Fleet n) : ℤ :=
  ∑ k ∈ Finset.range f.procs.length, f.callsOf cfg kids k

/-- Every call that has returned in a child is charged to the quota of the kernel, and all
of them are within its total. -/
def WithinBudget (cfg : KernelConfig) (kids : ℕ → Offspring) (f : Fleet n) : Prop :=
  f.callsReturned cfg kids ≤ f.world.quota.used ∧ f.callsReturned cfg kids ≤ f.world.quota.total

end Fleet

/-- The operation is a summarize call. -/
def summarizes : {β : Type} → KOp β → Bool
  | _, .chat (.summarize _) _ => true
  | _, _ => false

/-- After `j` operations the child is at a summarize call that is going to return. -/
def ChildProc.summaryDue (cfg : KernelConfig) (kid : Offspring) (c : ChildProc n) (j : ℕ) : Bool :=
  match ({ c with ops := j } : ChildProc n).progress cfg kid with
  | (.op o _, w) => summarizes o && (kid.outside.chat w.chats).isOk
  | (.ret _, _) => false

/-- The next operations of a child are no summarize calls that return: the next one when the
child moves, and all that are left when its pipe is read to the end. -/
def Unsummarized (cfg : KernelConfig) (kids : ℕ → Offspring) : System.Guard FOp (Tid n) (Fleet n)
  | _, _, .inr (.childMoves k), f =>
    match f.procs[k]? with
    | some c => c.phase = .running → c.summaryDue cfg (kids k) c.ops = false
    | none => True
  | _, _, .inr (.readAll k), f =>
    match f.procs[k]? with
    | some c =>
      c.phase = .running →
        ∀ j < c.total cfg (kids k), c.ops ≤ j → c.summaryDue cfg (kids k) j = false
    | none => True
  | _, _, _, _ => True

/-! ### No summarize call -/

/-- Only a summarize call that returns is counted as one. -/
lemma summaries_exec {o : KOp β} {w : World n} {u : Tid n}
    (h : (summarizes o && (out.chat w.chats).isOk) = false) :
    (World.exec cfg out u o w).2.summaries = w.summaries := by
  cases o with
  | chat purpose request =>
    cases hanswer : out.chat w.chats with
    | error e => simp only [World.exec, hanswer]
    | ok r =>
      cases purpose with
      | step => simp only [World.exec, hanswer, World.note]
      | summarize metered => simp [summarizes, hanswer, Except.isOk, Except.toBool] at h
  | tableAdd q | waitNonempty | pickNext | acquire | swapOut q pages | write q c =>
    simp only [World.exec]
    split <;> rfl
  | put q =>
    simp only [World.exec, World.put]
    split <;> rfl
  | _ => rfl

namespace ChildProc

variable {kid : Offspring}

/-- One more operation that is no summarize call. -/
lemma summaries_succ {j : ℕ} (h : c.summaryDue cfg kid j = false) :
    ({ c with ops := j + 1 } : ChildProc n).summaries cfg kid =
      ({ c with ops := j } : ChildProc n).summaries cfg kid := by
  have hsucc := Prog.advance_succ (World.exec cfg kid.outside) c.worker j
    (childLoop cfg c.agent childStepCap) (forked c.memory)
  simp only [summaryDue, progress] at h
  simp only [summaries, progress, hsucc]
  generalize Prog.advance (World.exec cfg kid.outside) c.worker j
    (childLoop cfg c.agent childStepCap) (forked c.memory) = r at h ⊢
  obtain ⟨prog, w⟩ := r
  cases prog with
  | ret a => rfl
  | op o k =>
    simp only [Prog.advance]
    rw [summaries_exec h]

/-- Several of them. -/
lemma summaries_upTo {m : ℕ} (hm : c.ops ≤ m)
    (h : ∀ j < m, c.ops ≤ j → c.summaryDue cfg kid j = false) :
    ({ c with ops := m } : ChildProc n).summaries cfg kid = c.summaries cfg kid := by
  induction m, hm using Nat.le_induction with
  | base => rfl
  | succ m hm ih =>
    rw [summaries_succ (h m (Nat.lt_succ_self m) hm)]
    exact ih fun j hj => h j (hj.trans (Nat.lt_succ_self m))

/-- A child that goes on to the end of its loop without a summarize call. -/
lemma summaries_total (h : ∀ j < c.total cfg kid, c.ops ≤ j → c.summaryDue cfg kid j = false) :
    ({ c with ops := c.total cfg kid } : ChildProc n).summaries cfg kid = c.summaries cfg kid := by
  by_cases hle : c.ops ≤ c.total cfg kid
  · exact summaries_upTo hle h
  · -- the child has left its loop before
    cases hfac : kid.factory with
    | some e => simp only [total, hfac]
    | none =>
      simp only [total, hfac] at hle ⊢
      simp only [summaries, progress]
      rw [Prog.advance_of_duration_le _ _ _ _ (not_le.1 hle).le, Prog.advance_duration]

end ChildProc

/-- In no child has a summarize call returned. -/
def Unspent (cfg : KernelConfig) (kids : ℕ → Offspring) (f : Fleet n) : Prop :=
  ∀ (k : ℕ) (c : ChildProc n), f.procs[k]? = some c → c.summaries cfg (kids k) = 0

lemma Unspent.step (h : Unspent cfg kids f) (hguard : Unsummarized cfg kids t o f) :
    Unspent cfg kids (Fleet.exec cfg out kids t o f).2 := by
  intro j c' hc'
  rcases Fleet.child_cases hc' with ⟨c, hc, hturn⟩ | ⟨p, -, -, rfl⟩
  · rw [← h j c hc]
    cases hturn with
    | same | reaped p => rfl
    | struck =>
      unfold ChildProc.strike
      split <;> rfl
    | heard =>
      simp only [Unsummarized, hc] at hguard
      cases hphase : c.phase with
      | running =>
        simp only [ChildProc.finish, hphase]
        exact ChildProc.summaries_total (hguard hphase)
      | writing =>
        simp only [ChildProc.finish, hphase]
        rfl
      | reported | dead torn => simp only [ChildProc.finish, hphase]
    | moved =>
      simp only [Unsummarized, hc] at hguard
      cases hphase : c.phase with
      | running =>
        simp only [ChildProc.move, hphase]
        split
        · rfl
        · exact ChildProc.summaries_succ (hguard hphase)
      | writing =>
        simp only [ChildProc.move, hphase]
        rfl
      | reported | dead torn => simp only [ChildProc.move, hphase]
  · simp [ChildProc.summaries, ChildProc.progress, Prog.advance, forked]

/-! ### Whole runs -/

/-- What the bills say about the calls. -/
lemma Account.withinBudget {bill : ℕ → ℤ} (h : Account cfg kids bill f ls)
    (hunspent : Unspent cfg kids f) : f.WithinBudget cfg kids := by
  have hbills : f.callsReturned cfg kids ≤ ∑ k ∈ Finset.range f.procs.length, bill k := by
    refine Finset.sum_le_sum fun k hk => ?_
    obtain ⟨c, hget⟩ : ∃ c, f.procs[k]? = some c :=
      ⟨_, List.getElem?_eq_getElem (Finset.mem_range.1 hk)⟩
    simp only [Fleet.callsOf, hget, hunspent k _ hget, Nat.cast_zero, add_zero]
    exact h.covered k _ hget
  have hpending : 0 ≤ ∑ i : Fin n, (ls (.worker i)).pending :=
    Finset.sum_nonneg fun i _ => h.pending _
  have hspent := h.spent
  have hrem := h.remaining
  have hused : f.callsReturned cfg kids ≤ f.world.quota.used := by omega
  refine ⟨hused, hused.trans ?_⟩
  rw [Quota.used]
  omega

/-- **Every call is charged** in every run in which no summarize call returns in a child,
whatever the policies of the pager, the kills and the topups: the calls that have returned in
all children are charged to the quota and within its total. -/
theorem withinBudget_of_unsummarized {n : ℕ} (cfg : KernelConfig) (out : Outside)
    (kids : ℕ → Offspring) {total : ℤ} {quota : Quota} (hquota : Quota.ofTotal total = some quota)
    (as : List (Act (Tid n) FleetCall))
    (hguard : (fleetSystem n .process cfg out kids).Meets (Unsummarized cfg kids)
      (launchFleet n quota) as) :
    ((fleetSystem n .process cfg out kids).run (launchFleet n quota) as).shared.WithinBudget cfg
      kids := by
  have hstart : quota.remaining = quota.total ∧ 0 ≤ quota.total := by
    unfold Quota.ofTotal at hquota
    split at hquota
    · cases hquota
    · next htotal =>
      cases hquota
      exact ⟨rfl, not_lt.1 htotal⟩
  let blind : Observer FOp (Tid n) (Fleet n) Unit := fun _ _ _ _ g => g
  have hsound := managed_sound (K := fun t o s => Unsummarized cfg kids t o s.1)
    (E := fun f _ ls => Brood f ls ∧ (∃ bill, Account cfg kids bill f ls) ∧ Unspent cfg kids f)
    (fun β t o f g ls l' hI hE hpre hK hlearn => ?_)
    ⟨brood_fresh quota, ⟨0, account_fresh hstart.1 hstart.2⟩, fun k c hc => by cases hc⟩
    (System.meets_beside _ blind hguard ())
  · rw [System.run_beside] at hsound
    obtain ⟨ls, ⟨-, -, ⟨bill, haccount⟩, hunspent⟩, -⟩ := hsound
    exact haccount.withinBudget hunspent
  · obtain ⟨hB, ⟨bill, haccount⟩, hunspent⟩ := hE
    exact ⟨hB.step hI hpre hlearn, haccount.step hI hB hpre hlearn, hunspent.step hK⟩

instance decidableUnsummarized {γ : Type} (t : Tid n) : (o : FOp γ) → (f : Fleet n) →
    Decidable (Unsummarized cfg kids t o f)
  | .inr (.childMoves k), f =>
    match h : f.procs[k]? with
    | some c =>
      decidable_of_iff (c.phase = .running → c.summaryDue cfg (kids k) c.ops = false)
        (by simp only [Unsummarized, h])
    | none => .isTrue (by simp only [Unsummarized, h])
  | .inr (.readAll k), f =>
    match h : f.procs[k]? with
    | some c =>
      decidable_of_iff (c.phase = .running →
          ∀ j < c.total cfg (kids k), c.ops ≤ j → c.summaryDue cfg (kids k) j = false)
        (by simp only [Unsummarized, h])
    | none => .isTrue (by simp only [Unsummarized, h])
  | .inl _, _ | .inr (.fork _), _ | .inr (.register _ _), _ | .inr (.lookup _), _
  | .inr (.reap _ _), _ | .inr (.signal _), _ | .inr .signalAll, _ => .isTrue trivial

instance decidableWithinBudget (f : Fleet n) : Decidable (f.WithinBudget cfg kids) :=
  inferInstanceAs (Decidable (_ ∧ _))

/-- A kernel that summarizes as soon as there are two pages. -/
def summarizing : KernelConfig where
  pager := { budget := 0, policies := [.summarize 2 true 200] }
  host := asciiHost

/-- An agent with two calls takes all units there are: its child finds its copy of the quota
empty, and the policy is skipped. -/
theorem withinBudget_of_unsummarized_skipped :
    ∃ as : List (Act (Tid 1) FleetCall),
      let out := Outside.calm ⟨"TOOL: note x", 1, 1, 2⟩
      let kids : ℕ → Offspring := fun _ => ⟨none, out⟩
      let f := ((fleetSystem 1 .process summarizing out kids).run (launchFleet 1 ⟨2, 2⟩) as).shared
      f.callsReturned summarizing kids = 2 ∧ f.WithinBudget summarizing kids := by
  refine ⟨Act.call (.client 0) (.kernel (.spawn
    { prompt := "go", quota := some 2, capability := some (.agent 8) })) ::
    (List.replicate 3 (.step (.client 0)) ++ List.replicate 30 (.step (.worker 0))),
    by decide +kernel, ?_⟩
  have hquota : Quota.ofTotal 2 = some ⟨2, 2⟩ := rfl
  exact withinBudget_of_unsummarized _ _ _ hquota _ (by decide +kernel)

/-- With a quota of three, an agent with two calls leaves a unit in the copy of its child.
The child spends it on a summarize call that nobody hears of, and the kernel spends it on the
next agent: four calls have returned. -/
theorem summary_of_child_uncharged :
    ∃ as : List (Act (Tid 1) FleetCall),
      let out := Outside.calm ⟨"TOOL: note x", 1, 1, 2⟩
      let kids : ℕ → Offspring := fun _ => ⟨none, out⟩
      let f := ((fleetSystem 1 .process summarizing out kids).run (launchFleet 1 ⟨3, 3⟩) as).shared
      f.callsReturned summarizing kids = 4 ∧ f.world.quota = ⟨3, 0⟩ ∧
        ¬ f.WithinBudget summarizing kids := by
  refine ⟨Act.call (.client 0) (.kernel (.spawn
      { prompt := "go", quota := some 2, capability := some (.agent 8) })) ::
    (List.replicate 3 (.step (.client 0)) ++
      Act.call (.client 0) (.kernel (.spawn { prompt := "hello", quota := some 1 })) ::
      (List.replicate 3 (.step (.client 0)) ++ List.replicate 45 (.step (.worker 0)))), ?_⟩
  decide +kernel

end Gcos.Process
