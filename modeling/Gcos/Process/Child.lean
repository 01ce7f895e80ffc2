import Gcos.Process.AgentStep

/-!
# What a child reports

The loop of a child, step by step.  A child reports a state that is not terminal exactly
if it has gone on until the step cap, and it reports that the agent's own quota is
exhausted exactly if it has gone on until the units it was given were used up.
-/

namespace Gcos.Process

open Lib Exec Memory World

variable {n : ℕ} {cfg : KernelConfig} {out : Outside} {t : Tid n} {p : Pid}

section

variable {cap : CapabilitySet} {units calls : ℤ} {step m : ℕ} {budget : ℤ}

/-! ### The loop -/

/-- The first `i` steps go on. -/
def Tools (cfg : KernelConfig) (out : Outside) (cap : CapabilitySet) (units : ℤ) (step m i : ℕ) :
    Prop :=
  ∀ j < i, GoesOn cfg out cap (units - j) (step + j) (m + j)

lemma tools_zero : Tools cfg out cap units step m 0 := fun _ hj => absurd hj (Nat.not_lt_zero _)

lemma tools_succ {i : ℕ} : Tools cfg out cap units step m (i + 1) ↔
    GoesOn cfg out cap units step m ∧ Tools cfg out cap (units - 1) (step + 1) (m + 1) i := by
  have hshift : ∀ j : ℕ, GoesOn cfg out cap (units - (j + 1 : ℕ)) (step + (j + 1)) (m + (j + 1)) ↔
      GoesOn cfg out cap (units - 1 - j) (step + 1 + j) (m + 1 + j) := by
    intro j
    rw [show units - (j + 1 : ℕ) = units - 1 - j by push_cast; ring,
      show step + (j + 1) = step + 1 + j by omega, show m + (j + 1) = m + 1 + j by omega]
  have hzero : GoesOn cfg out cap (units - (0 : ℕ)) (step + 0) (m + 0) ↔
      GoesOn cfg out cap units step m := by
    rw [Nat.cast_zero, sub_zero, Nat.add_zero, Nat.add_zero]
  constructor
  · intro h
    exact ⟨hzero.1 (h 0 (Nat.succ_pos i)),
      fun j hj => (hshift j).1 (h (j + 1) (Nat.succ_lt_succ hj))⟩
  · rintro ⟨hfirst, hrest⟩ j hj
    cases j with
    | zero => exact hzero.2 hfirst
    | succ j => exact (hshift j).2 (hrest j (Nat.lt_of_succ_lt_succ hj))

/-- The first steps go on exactly if there are units and tool calls for them and every
reply asks for a tool. -/
lemma tools_iff {i : ℕ} (hi : 0 < i) : Tools cfg out cap units step m i ↔
    cap.multiStep = true ∧ (i : ℤ) ≤ units ∧ (step : ℤ) + i ≤ cap.maxToolCalls ∧
      ∀ j < i, asksTool cfg.host (out.chat (m + j)) = true := by
  constructor
  · intro h
    -- the bounds are those of the last of the steps
    obtain ⟨hmulti, hunits, hcalls, -⟩ := h (i - 1) (Nat.sub_lt hi Nat.one_pos)
    refine ⟨hmulti, by omega, by omega, fun j hj => (h j hj).2.2.2⟩
  · rintro ⟨hmulti, hunits, hcalls, hasks⟩ j hj
    exact ⟨hmulti, by omega, by omega, hasks j hj⟩

/-- The block that the loop leaves. -/
structure LoopBlock (cfg : KernelConfig) (out : Outside) (cap : CapabilitySet) (units calls : ℤ)
    (step m safety : ℕ) (b : AgentControlBlock) : Prop where
  ends : b.isTerminal = true ∨ Tools cfg out cap units step m safety
  endless : Tools cfg out cap units step m safety → b.isTerminal = false
  honest : Exhausted b → ∃ i < safety, Tools cfg out cap units step m i ∧ units ≤ i ∧
    b.llmCallsUsed = calls + i
  exhausts : cap.multiStep = true → ∀ i < safety, Tools cfg out cap units step m i → units ≤ i →
    Exhausted b

/-- What the loop of a child leads to. -/
def LoopLeads (cfg : KernelConfig) (out : Outside) (p : Pid) (cap : CapabilitySet)
    (units calls : ℤ) (step m safety : ℕ) (answer : Except Exn Unit) (w : World n) : Prop :=
  match answer with
  | .ok () => LoopBlock cfg out cap units calls step m safety (w.pcbs p)
  | .error _ =>
    ¬Tools cfg out cap units step m safety ∧
      ∀ i < safety, Tools cfg out cap units step m i → ¬units ≤ i

/-- A first step that goes on is one more step. -/
lemma LoopLeads.succ {safety : ℕ} (hgoes : GoesOn cfg out cap units step m)
    {answer : Except Exn Unit} {w : World n}
    (h : LoopLeads cfg out p cap (units - 1) (calls + 1) (step + 1) (m + 1) safety answer w) :
    LoopLeads cfg out p cap units calls step m (safety + 1) answer w := by
  have htools : ∀ i, Tools cfg out cap units step m (i + 1) ↔
      Tools cfg out cap (units - 1) (step + 1) (m + 1) i := by
    intro i
    rw [tools_succ]
    exact and_iff_right hgoes
  have hunits : 0 < units := hgoes.2.1
  cases answer with
  | error e =>
    obtain ⟨hno, hleft⟩ := h
    refine ⟨fun hall => hno ((htools _).1 hall), fun i hi hi' hle => ?_⟩
    cases i with
    | zero => omega
    | succ i =>
      refine hleft i (Nat.lt_of_succ_lt_succ hi) ((htools i).1 hi') ?_
      push_cast at hle
      omega
  | ok u =>
    obtain ⟨hends, hendless, hhonest, hexhausts⟩ := h
    refine ⟨hends.imp_right (htools _).2, fun hall => hendless ((htools _).1 hall),
      fun hex => ?_, fun hmulti i hi hi' hle => ?_⟩
    · obtain ⟨i, hi, hi', hle, hcalls⟩ := hhonest hex
      refine ⟨i + 1, Nat.succ_lt_succ hi, (htools i).2 hi', ?_, ?_⟩
      · push_cast
        omega
      · push_cast
        omega
    · cases i with
      | zero => omega
      | succ i =>
        refine hexhausts hmulti i (Nat.lt_of_succ_lt_succ hi) ((htools i).1 hi') ?_
        push_cast at hle
        omega

/-- A first step that is the last one. -/
lemma LoopLeads.last {safety : ℕ} (hno : ¬GoesOn cfg out cap units step m) {w : World n}
    (h : At p (fun b _ => Ended cap units calls b) w) :
    LoopLeads cfg out p cap units calls step m (safety + 1) (.ok ()) w := by
  have hnone : ∀ i, ¬Tools cfg out cap units step m (i + 1) := fun i h => hno (tools_succ.1 h).1
  refine ⟨.inl h.terminal, fun hall => absurd hall (hnone safety), fun hex => ?_,
    fun hmulti i hi hi' hle => ?_⟩
  · obtain ⟨hle, hcalls⟩ := h.honest hex
    exact ⟨0, Nat.succ_pos _, tools_zero, by simpa using hle, by simpa using hcalls⟩
  · cases i with
    | zero => exact h.exhausted hmulti (by simpa using hle)
    | succ i => exact absurd hi' (hnone i)

/-- **The loop of a child.** -/
lemma yields_childLoop (hpager : cfg.pager = ⟨budget, defaultPolicies true⟩) (safety : ℕ) :
    Yields cfg out t (At p (Stands cap units calls step m)) (childLoop cfg p safety)
      (LoopLeads cfg out p cap units calls step m safety) := by
  -- by induction on the steps that are left, one step at a time
  induction safety generalizing units calls step m with
  | zero =>
    refine yields_ret fun w h => ⟨.inr tools_zero, fun _ => h.live, fun hex => ?_, ?_⟩
    · rw [Exhausted, h.error] at hex
      cases hex.2
    · exact fun _ i hi => absurd hi (Nat.not_lt_zero i)
  | succ safety ih =>
    refine yields_read fun pcb _ hpcb => ?_
    rw [if_neg (by rw [hpcb.live]; exact Bool.false_ne_true)]
    refine Prog.Ensures.bind _ (yields_runStep hpager) ?_
    rintro (e | _ | _)
    · refine yields_ret ?_
      rintro w ⟨hno, hunits⟩
      refine ⟨fun hall => hno (tools_succ.1 hall).1, fun i hi hi' hle => ?_⟩
      cases i with
      | zero => exact absurd hle (not_le.2 (by simpa using hunits))
      | succ i => exact hno (tools_succ.1 hi').1
    · refine yields_ret ?_
      rintro w ⟨hno, hw⟩
      exact .last hno hw
    · rintro w a w' ⟨hgoes, hw⟩ hrun
      exact .succ hgoes (ih w a w' hw hrun)

end

/-! ### The report -/

/-- The first `i` steps of a child that starts with the block `b` go on. -/
def ChildTools (cfg : KernelConfig) (child : Child) (b : AgentControlBlock) (i : ℕ) : Prop :=
  child.factory = none ∧
    Tools cfg child.outside b.capability b.quotaRemaining b.react.step 0 i

/-- What the report of a child that starts with the live block `b` says. -/
structure Reports (cfg : KernelConfig) (child : Child) (b : AgentControlBlock)
    (payload : Payload) : Prop where
  /-- The state is terminal, unless all steps go on. -/
  ends : payload.state.isTerminal = true ∨ ChildTools cfg child b childStepCap
  endless : ChildTools cfg child b childStepCap → payload.state.isTerminal = false
  /-- The quota is reported to be exhausted only if the units of the child are used up. -/
  honest : payload.error = some quotaExhausted → payload.state = .error →
    ∃ i < childStepCap, ChildTools cfg child b i ∧ b.quotaRemaining ≤ i ∧
      payload.llmCallsUsed = b.llmCallsUsed + i
  exhausts : b.capability.multiStep = true → ∀ i < childStepCap, ChildTools cfg child b i →
    b.quotaRemaining ≤ i → payload.state = .error ∧ payload.error = some quotaExhausted

/-- The text of a crash. -/
lemma crash_ne_quotaExhausted (text : String) : "child crash: " ++ text ≠ quotaExhausted := by
  refine ne_quotaExhausted ':' ?_ (by decide)
  rw [String.toList_append]
  exact List.mem_append_left _ (by decide)

lemma crashPayload_honest {e : Exn} {b : AgentControlBlock} :
    (crashPayload e b).error ≠ some quotaExhausted :=
  fun h => crash_ne_quotaExhausted _ (Option.some.inj h)

section

variable {budget : ℤ} {child : Child} {w : World n}

/-- **The report of a child** that starts with a live agent. -/
lemma report_live (hpager : cfg.pager = ⟨budget, defaultPolicies true⟩)
    (hlive : (w.pcbs p).isTerminal = false) (herror : (w.pcbs p).error = none) :
    Reports cfg child (w.pcbs p) (report cfg child t p w) := by
  unfold report
  cases hfac : child.factory with
  | some e =>
    have hno : ∀ i, ¬ChildTools cfg child (w.pcbs p) i := by
      intro i h
      rw [ChildTools, hfac] at h
      cases h.1
    exact ⟨.inl rfl, fun h => absurd h (hno _), fun h => absurd h crashPayload_honest,
      fun _ i _ h => absurd h (hno i)⟩
  | none =>
    have htools : ∀ i, ChildTools cfg child (w.pcbs p) i ↔ Tools cfg child.outside
        (w.pcbs p).capability (w.pcbs p).quotaRemaining (w.pcbs p).react.step 0 i := by
      intro i
      rw [ChildTools, hfac]
      exact and_iff_right rfl
    have hstart : At p (Stands (w.pcbs p).capability (w.pcbs p).quotaRemaining
        (w.pcbs p).llmCallsUsed (w.pcbs p).react.step 0) (forked w) :=
      ⟨hlive, herror, rfl, rfl, rfl, rfl, rfl⟩
    have hleads : LoopLeads cfg child.outside p (w.pcbs p).capability (w.pcbs p).quotaRemaining
        (w.pcbs p).llmCallsUsed (w.pcbs p).react.step 0 childStepCap
        (runs cfg child.outside t (childLoop cfg p childStepCap) (forked w)).1
        (runs cfg child.outside t (childLoop cfg p childStepCap) (forked w)).2 :=
      Prog.Ensures.alone (yields_childLoop hpager childStepCap) hstart
    generalize runs cfg child.outside t (childLoop cfg p childStepCap) (forked w) = r at hleads ⊢
    obtain ⟨answer, w'⟩ := r
    cases answer with
    | error e =>
      obtain ⟨hno, hleft⟩ := hleads
      refine ⟨.inl rfl, fun h => absurd ((htools _).1 h) hno,
        fun h => absurd h crashPayload_honest, fun _ i hi h hle => ?_⟩
      exact absurd hle (hleft i hi ((htools i).1 h))
    | ok u =>
      obtain ⟨hends, hendless, hhonest, hexhausts⟩ := hleads
      refine ⟨hends.imp_right (htools _).2, fun h => hendless ((htools _).1 h),
        fun htext hstate => ?_, fun hmulti i hi h hle => hexhausts hmulti i hi ((htools i).1 h) hle⟩
      obtain ⟨i, hi, h, hle, hcalls⟩ := hhonest ⟨hstate, htext⟩
      exact ⟨i, hi, (htools i).2 h, hle, hcalls⟩

/-- The report of a child that starts with an agent that has been killed. -/
lemma report_dead (cfg : KernelConfig) (child : Child) (t : Tid n)
    (hdead : (w.pcbs p).isTerminal = true) :
    (report cfg child t p w).state.isTerminal = true ∧
      ((report cfg child t p w).error = some quotaExhausted →
        (w.pcbs p).error = some quotaExhausted) := by
  unfold report
  cases child.factory with
  | some e => exact ⟨rfl, fun h => absurd h crashPayload_honest⟩
  | none =>
    have hrun : runs cfg child.outside t (childLoop cfg p childStepCap) (forked w) =
        (.ok (), forked w) := by
      have hdead' : ((forked w).pcbs p).isTerminal = true := hdead
      rw [childStepCap, childLoop, runs_bind, runs_perform]
      simp only [World.exec, hdead', if_true]
      rfl
    rw [hrun]
    exact ⟨hdead, fun h => h⟩

end

end Gcos.Process
