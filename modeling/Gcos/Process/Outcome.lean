import Gcos.Process.Kills

/-!
# How a dispatch of the process backend ends

The outcome of a dispatch from every block, whatever the child meets and whenever the
agent is killed: it is parked (back in the queue), lost (failed by the parent), or has what
the child reported.
-/

namespace Gcos.Process

open Lib Exec Pool Memory World

variable {n : ℕ} {cfg : KernelConfig} {out : Outside} {child : Child} {t : Tid n} {kills : Prop}
  {v : Sight} {p : Pid} {f g : Assertion}

/-! ### Assertions -/

/-- The agent is live and has the error text `e`, or it has been killed. -/
def Standing (kills : Prop) (e : Option String) (b : AgentControlBlock) : Prop :=
  b.isTerminal = false ∧ b.finishedAt = none ∧ b.error = e ∨
    kills ∧ b.state = .zombie ∧ b.finishedAt.isSome = true ∧
      (b.error = some quotaExhausted → e = some quotaExhausted)

/-- A standing agent that is not in the queue. -/
def Apart (kills : Prop) (e : Option String) : Assertion := fun b queued =>
  queued = false ∧ Standing kills e b

/-- The blocks agree on what the run of a child depends on. -/
def SameBudget (b₀ b : AgentControlBlock) : Prop :=
  b.quotaRemaining = b₀.quotaRemaining ∧ b.capability = b₀.capability ∧ b.react = b₀.react ∧
    b.llmCallsUsed = b₀.llmCallsUsed

/-- The agent is in the hands of the worker. -/
def Held (kills : Prop) (b₀ : AgentControlBlock) : Assertion := fun b queued =>
  queued = false ∧ SameBudget b₀ b ∧ Standing kills none b

/-- The agent is back in the queue, or it has been killed. -/
def Parked (kills : Prop) : Assertion := fun b queued =>
  b.isTerminal = false ∧ b.finishedAt = none ∧ b.error = none ∧ queued = true ∨
    kills ∧ b.state = .zombie ∧ b.finishedAt.isSome = true ∧ b.error ≠ some quotaExhausted

/-- The parent has failed the agent, or it has been killed. -/
def Lost : Assertion := fun b queued =>
  queued = false ∧ b.finishedAt.isSome = true ∧ b.isTerminal = true ∧ b.error ≠ some quotaExhausted

/-- The block has what the child has reported, up to a kill. -/
def Settled (kills : Prop) (payload : Payload) (b : AgentControlBlock) : Prop :=
  (b.state = payload.state ∨ kills ∧ b.state = .zombie) ∧
    (b.error = some quotaExhausted → payload.error = some quotaExhausted) ∧
    (¬kills → b.state = payload.state ∧ b.error = payload.error)

/-- The report has been taken over and the end of the agent is stamped. -/
def Taken (kills : Prop) (payload : Payload) : Assertion := fun b queued =>
  (queued = false ∧ b.llmCallsUsed = payload.llmCallsUsed ∧ Settled kills payload b) ∧
    b.finishedAt.isSome = true

/-- A kill of a live agent. -/
lemma zombie_of_live {b : AgentControlBlock} (hlive : b.isTerminal = false) (now : Time) :
    (b.transition .zombie now).state = .zombie ∧
      (b.transition .zombie now).finishedAt = some now ∧
      (b.transition .zombie now).error = b.error := by
  have hne : AgentState.zombie ≠ b.state := by
    intro h
    rw [AgentControlBlock.isTerminal_of_zombie h.symm] at hlive
    cases hlive
  rw [b.transition_of_live .zombie now hlive hne]
  exact ⟨rfl, rfl, rfl⟩

lemma robust_standing (e : Option String) : Robust kills fun b _ => Standing kills e b where
  zombie := by
    rintro hk b queued now (⟨hlive, -, herror⟩ | hdead)
    · obtain ⟨hstate, hfin, herror'⟩ := zombie_of_live hlive now
      refine .inr ⟨hk, hstate, by rw [hfin]; rfl, fun h => ?_⟩
      rw [← herror, ← herror', h]
    · rw [AgentControlBlock.transition_of_zombie hdead.2.1]
      exact .inr hdead
  error := by
    rintro hk b queued msg hmsg hterm (⟨hlive, -⟩ | ⟨-, hstate, hfin, -⟩)
    · rw [hlive] at hterm
      cases hterm
    · exact .inr ⟨hk, hstate, hfin, fun h => absurd (Option.some.inj h) hmsg⟩
  pop := fun _ _ _ _ h => h
  child := fun _ _ _ h => h

lemma robust_apart (e : Option String) : Robust kills (Apart kills e) :=
  .and .notQueued (robust_standing e)

lemma robust_sameBudget (b₀ : AgentControlBlock) : Robust kills fun b _ => SameBudget b₀ b :=
  .onFrame fun _ _ _ _ _ _ h => h

lemma robust_held (b₀ : AgentControlBlock) : Robust kills (Held kills b₀) :=
  .and .notQueued (.and (robust_sameBudget b₀) (robust_standing none))

lemma robust_parked : Robust kills (Parked kills) where
  zombie := by
    rintro hk b queued now (⟨hlive, -, herror, -⟩ | hdead)
    · obtain ⟨hstate, hfin, herror'⟩ := zombie_of_live hlive now
      refine .inr ⟨hk, hstate, by rw [hfin]; rfl, ?_⟩
      rw [herror', herror]
      exact (Option.some_ne_none _).symm
    · rw [AgentControlBlock.transition_of_zombie hdead.2.1]
      exact .inr hdead
  error := by
    rintro hk b queued msg hmsg hterm (⟨hlive, -⟩ | ⟨-, hstate, hfin, -⟩)
    · rw [hlive] at hterm
      cases hterm
    · exact .inr ⟨hk, hstate, hfin, fun h => hmsg (Option.some.inj h)⟩
  pop := by
    rintro hk b queued hterm (⟨hlive, -⟩ | hdead)
    · rw [hlive] at hterm
      cases hterm
    · exact .inr hdead
  child := fun _ _ _ h => h

/-- The error text of a terminal agent is not the one of an exhausted quota. -/
lemma robust_otherError : Robust kills fun b _ =>
    b.isTerminal = true ∧ b.error ≠ some quotaExhausted where
  zombie := by
    rintro - b queued now ⟨hterm, herror⟩
    rw [AgentControlBlock.transition_of_isTerminal _ _ _ hterm]
    exact ⟨hterm, herror⟩
  error := fun _ b queued msg hmsg hterm _ => ⟨hterm, fun h => hmsg (Option.some.inj h)⟩
  pop := fun _ _ _ _ h => h
  child := fun _ _ _ h => h

lemma robust_lost : Robust kills Lost :=
  .and .notQueued (.and .finished robust_otherError)

lemma robust_settled (payload : Payload) : Robust kills fun b _ => Settled kills payload b where
  zombie := by
    rintro hk b queued now ⟨hstate, herror, -⟩
    cases hlive : b.isTerminal with
    | true =>
      rw [AgentControlBlock.transition_of_isTerminal _ _ _ hlive]
      exact ⟨hstate, herror, fun hno => absurd hk hno⟩
    | false =>
      obtain ⟨hstate', -, herror'⟩ := zombie_of_live hlive now
      exact ⟨.inr ⟨hk, hstate'⟩, by rwa [herror'], fun hno => absurd hk hno⟩
  error := by
    rintro hk b queued msg hmsg - ⟨hstate, -, -⟩
    exact ⟨hstate, fun h => absurd (Option.some.inj h) hmsg, fun hno => absurd hk hno⟩
  pop := fun _ _ _ _ h => h
  child := fun _ _ _ h => h

/-! ### Applying a result -/

/-- A killed agent counts as lost. -/
lemma lost_of_standing {b : AgentControlBlock} {queued : Bool} (hq : queued = false)
    (h : Standing kills none b) (hterm : b.isTerminal = true) : Lost b queued := by
  rcases h with ⟨hlive, -⟩ | ⟨-, -, hfin, herror⟩
  · rw [hlive] at hterm
    cases hterm
  · exact ⟨hq, hfin, hterm, fun h => (Option.some_ne_none _).symm (herror h)⟩

/-- Failing the agent with a text of one's own. -/
lemma kleads_failWith {msg : String} (hmsg : msg ≠ quotaExhausted) :
    KLeads cfg out t kills v p (Sees p (Apart kills none))
      (failWith p .error msg) fun _ => Sees p Lost := by
  refine Prog.Ensures.bind (fun _ => Sees p Lost)
    (kleads_write (robust_apart none) robust_lost ?_) fun _ =>
      kleads_write robust_lost robust_lost ?_
  · rintro clock b queued ⟨hq, hst⟩
    cases hterm : b.isTerminal with
    | true =>
      rw [Write.apply, AgentControlBlock.transition_of_isTerminal _ _ _ hterm]
      exact lost_of_standing hq hst hterm
    | false =>
      rcases hst with ⟨-, hfin, herror⟩ | ⟨-, hstate, -⟩
      · have hne : AgentState.error ≠ b.state := by
          intro h
          rw [AgentControlBlock.isTerminal, ← h] at hterm
          cases hterm
        rw [Write.apply, b.transition_of_live .error _ hterm hne]
        refine ⟨hq, rfl, rfl, ?_⟩
        rw [herror]
        exact (Option.some_ne_none _).symm
      · rw [AgentControlBlock.isTerminal_of_zombie hstate] at hterm
        cases hterm
  · rintro clock b queued ⟨hq, hfin, hterm, -⟩
    exact ⟨hq, hfin, hterm, fun h => hmsg (Option.some.inj h)⟩

lemma leads_failUnlessTerminal {msg : String} (hmsg : msg ≠ quotaExhausted) :
    Leads cfg out child t kills v p (Sees p (Apart kills none))
      (failUnlessTerminal p msg) fun _ => Sees p Lost := by
  have hrob : Robust kills (Apart kills none) := robust_apart none
  refine KLeads.kernel (kleads_read hrob
    (g := fun pcb b queued => Apart kills none b queued ∧
      (pcb.isTerminal = true → b.isTerminal = true))
    (fun pcb => hrob.and (.imp _ .terminal)) fun b queued h => ⟨h, id⟩) fun pcb => ?_
  split
  · next hterm =>
    refine Prog.ensures_ret (hrob.and (.imp _ .terminal)).stable ?_
    rintro w ⟨⟨hq, hst⟩, hmono⟩
    exact lost_of_standing hq hst (hmono hterm)
  · exact (kleads_failWith hmsg).plain.conseq (fun w h => h.1) fun _ _ h => h

/-- Stamping the end of the agent. -/
lemma leads_stampFinish (hf : Robust kills f)
    (hstamp : ∀ b queued time, f b queued → f { b with finishedAt := some time } queued) :
    Leads cfg out child t kills v p (Sees p f) (stampFinish p) fun _ =>
      Sees p fun b queued => f b queued ∧ b.finishedAt.isSome = true := by
  have hafter : Robust kills fun b queued => f b queued ∧ b.finishedAt.isSome = true :=
    hf.and .finished
  refine KLeads.kernel (kleads_read hf
    (g := fun pcb b queued => f b queued ∧
      (pcb.finishedAt.isSome = true → b.finishedAt.isSome = true))
    (fun pcb => hf.and (.imp _ .finished)) fun b queued h => ⟨h, id⟩) fun pcb => ?_
  split
  · next hfin =>
    refine Prog.ensures_ret (hf.and (.imp _ .finished)).stable ?_
    rintro w ⟨hw, hmono⟩
    exact ⟨hw, hmono hfin⟩
  · refine KLeads.kernel (M := fun _ => Sees p f) ?_ fun now => ?_
    · exact (kleads_quiet hf fun w => ⟨rfl, rfl⟩).conseq (fun w h => h.1) fun _ _ h => h
    · exact leads_assign hf hafter fun b queued h => ⟨hstamp b queued now h, rfl⟩

lemma leads_takeText (hf : Robust kills f) (hg : Robust kills g) {field : String → Write}
    {text : Option String} (hnone : text = none → ∀ b queued, f b queued → g b queued)
    (hsome : ∀ s, text = some s → ∀ clock b queued, f b queued →
      g ((field s).apply clock b) queued) :
    Leads cfg out child t kills v p (Sees p f) (takeText p field text) fun _ => Sees p g := by
  cases text with
  | none => exact Prog.ensures_ret hf.stable fun w h => hnone rfl _ _ h
  | some s => exact KLeads.plain (kleads_write hf hg (hsome s rfl))

/-- The calls of the report have been taken over. -/
def Counted (kills : Prop) (payload : Payload) : Assertion := fun b queued =>
  queued = false ∧ b.llmCallsUsed = payload.llmCallsUsed ∧ Standing kills payload.error b

lemma robust_counted (payload : Payload) : Robust kills (Counted kills payload) :=
  .and .notQueued (.and (.onFrame fun _ _ _ _ _ _ h => h) (robust_standing _))

lemma robust_takenOver (payload : Payload) : Robust kills fun b queued =>
    queued = false ∧ b.llmCallsUsed = payload.llmCallsUsed ∧ Settled kills payload b :=
  .and .notQueued (.and (.onFrame fun _ _ _ _ _ _ h => h) (robust_settled payload))

/-- Taking over the state, after the test whether the agent is terminal. -/
lemma leads_takeState (payload : Payload) (pcb : AgentControlBlock) :
    Leads cfg out child t kills v p
      (Sees p fun b queued => Counted kills payload b queued ∧
        (pcb.isTerminal = true → b.isTerminal = true))
      (Prog.when (pcb.isTerminal = false) (proc (.assign p (.state payload.state)))) fun _ =>
        Sees p fun b queued =>
          queued = false ∧ b.llmCallsUsed = payload.llmCallsUsed ∧ Settled kills payload b := by
  have hcounted : Robust kills fun b queued => Counted kills payload b queued ∧
      (pcb.isTerminal = true → b.isTerminal = true) :=
    (robust_counted payload).and (.imp _ .terminal)
  refine Prog.ensures_when hcounted.stable (fun _ => ?_) ?_
  · -- a kill that comes after the test is overwritten by the report
    refine leads_assign hcounted (robust_takenOver payload) ?_
    rintro b queued ⟨⟨hq, hcalls, hst⟩, -⟩
    refine ⟨hq, hcalls, .inl rfl, ?_, fun hno => ⟨rfl, ?_⟩⟩
    · rcases hst with ⟨-, -, herror⟩ | ⟨-, -, -, herror⟩
      · exact fun h => herror.symm.trans h
      · exact herror
    · rcases hst with ⟨-, -, herror⟩ | ⟨hk, -⟩
      · exact herror
      · exact absurd hk hno
  · rintro hterm w ⟨⟨hq, hcalls, hst⟩, hmono⟩
    have hdead := hmono (by simpa using hterm)
    rcases hst with ⟨hlive, -⟩ | ⟨hk, hstate, -, herror⟩
    · rw [hlive] at hdead
      cases hdead
    · exact ⟨hq, hcalls, .inr ⟨hk, hstate⟩, herror, fun hno => absurd hk hno⟩

/-- **Taking over a report.** -/
lemma leads_takeOver (payload : Payload) :
    Leads cfg out child t kills v p (Sees p (Apart kills none))
      (takeOver p payload) fun _ => Sees p (Taken kills payload) := by
  have hstart : Robust kills (Apart kills none) := robust_apart none
  have htold : Robust kills (Apart kills payload.error) :=
    robust_apart payload.error
  have hcounted : Robust kills (Counted kills payload) := robust_counted payload
  refine Prog.Ensures.bind _ (leads_takeText hstart hstart (fun _ _ _ h => h)
    fun s _ clock b queued h => h) fun _ => ?_
  -- from here on a live agent has the error text of the report
  refine Prog.Ensures.bind _ (leads_takeText hstart htold ?_ ?_) fun _ => ?_
  · intro hnone b queued h
    rwa [hnone]
  · rintro s hs clock b queued ⟨hq, hst⟩
    refine ⟨hq, ?_⟩
    rw [hs]
    rcases hst with ⟨hlive, hfin, -⟩ | ⟨hk, hstate, hfin, -⟩
    · exact .inl ⟨hlive, hfin, rfl⟩
    · exact .inr ⟨hk, hstate, hfin, id⟩
  refine Prog.Ensures.bind _ (leads_assign htold htold fun b queued h => h) fun _ => ?_
  refine Prog.Ensures.bind _ (leads_assign htold hcounted fun b queued h => ⟨h.1, rfl, h.2⟩)
    fun _ => ?_
  refine KLeads.kernel (kleads_read hcounted
    (g := fun pcb b queued => Counted kills payload b queued ∧
      (pcb.isTerminal = true → b.isTerminal = true))
    (fun pcb => hcounted.and (.imp _ .terminal)) fun b queued h => ⟨h, id⟩) fun pcb => ?_
  refine Prog.Ensures.bind _ (leads_takeState payload pcb) fun _ => ?_
  exact leads_stampFinish (robust_takenOver payload) fun b queued time h => h

/-! ### The reservation -/

section

variable {budget left : ℤ} {b₀ : AgentControlBlock}

/-- The units that `acquire_up_to` grants the agent when `left` units are left for all. -/
def grant (left : ℤ) (b₀ : AgentControlBlock) : ℤ :=
  (Quota.acquireUpTo b₀.quotaRemaining ⟨left, left⟩).1

/-- The block with which a child starts: its units are those that were granted. -/
def startBlock (b₀ : AgentControlBlock) (left : ℤ) : AgentControlBlock :=
  { b₀ with quotaRemaining := grant left b₀ }

/-- No unit was granted to an agent that has some left. -/
def Blocked (b₀ : AgentControlBlock) (left : ℤ) : Prop :=
  grant left b₀ ≤ 0 ∧ 0 < b₀.quotaRemaining

/-- What a child can report that starts with the block, or with the agent killed. -/
def Reportable (cfg : KernelConfig) (child : Child) (kills : Prop) (b : AgentControlBlock)
    (payload : Payload) : Prop :=
  Reports cfg child b payload ∨
    kills ∧ payload.state.isTerminal = true ∧ payload.error ≠ some quotaExhausted

/-- The agent has what its child has reported, and the reservation is reconciled. -/
def Reported (cfg : KernelConfig) (child : Child) (kills : Prop) (b₀ : AgentControlBlock)
    (left : ℤ) : Assertion := fun b queued =>
  ∃ payload, Reportable cfg child kills (startBlock b₀ left) payload ∧
    Taken kills payload b queued ∧
    b.quotaRemaining = max 0 (b₀.quotaRemaining - max 0 (payload.llmCallsUsed - b₀.llmCallsUsed))

/-- How `_run_in_process` ends. -/
def Ran (cfg : KernelConfig) (child : Child) (kills : Prop) (b₀ : AgentControlBlock)
    (left : ℤ) : Assertion := fun b queued =>
  Parked kills b queued ∧ Blocked b₀ left ∨ Lost b queued ∧ child.pipe ≠ .whole ∨
    Reported cfg child kills b₀ left b queued ∧ ¬Blocked b₀ left ∧ child.pipe = .whole

lemma robust_taken (payload : Payload) : Robust kills (Taken kills payload) :=
  .and (robust_takenOver payload) .finished

lemma robust_reported : Robust kills (Reported cfg child kills b₀ left) :=
  .ex fun payload => .and (.const _) (.and (robust_taken payload) (.onFrame fun _ _ _ _ _ _ h => h))

lemma robust_ran : Robust kills (Ran cfg child kills b₀ left) :=
  .or (.and robust_parked (.const _)) (.or (.and robust_lost (.const _))
    (.and robust_reported (.const _)))

/-- The report does not depend on the rest of the block. -/
lemma Reports.congr {b b' : AgentControlBlock} {payload : Payload} (h : SameBudget b b')
    (hr : Reports cfg child b' payload) : Reports cfg child b payload := by
  obtain ⟨hunits, hcap, hreact, hcalls⟩ := h
  have htools : ∀ i, ChildTools cfg child b' i ↔ ChildTools cfg child b i := by
    intro i
    unfold ChildTools
    rw [hunits, hcap, hreact]
  obtain ⟨hends, hendless, hhonest, hexhausts⟩ := hr
  refine ⟨hends.imp_right (htools _).1, fun hall => hendless ((htools _).2 hall),
    fun htext hstate => ?_, fun hmulti i hi hi' hle => ?_⟩
  · obtain ⟨i, hi, hi', hle, hmade⟩ := hhonest htext hstate
    exact ⟨i, hi, (htools i).1 hi', hunits ▸ hle, hcalls ▸ hmade⟩
  · exact hexhausts (by rwa [hcap]) i hi ((htools i).2 hi') (by rwa [hunits])

/-- What the parent reads after the fork of a held agent. -/
lemma leads_runChild (hpager : cfg.pager = ⟨budget, defaultPolicies true⟩) :
    Leads cfg out child t kills v p (Sees p (Held kills b₀)) (proc (.runChild p))
      fun raw w => Sees p (Held kills b₀) w ∧
        match raw with
        | .json payload => child.pipe = .whole ∧ Reportable cfg child kills b₀ payload
        | _ => child.pipe ≠ .whole := by
  refine Prog.Ensures.perform (robust_held _).stable ?_ ?_
  · intro raw w w' hR hw
    exact ⟨(robust_held _).stable w w' hR hw.1, hw.2⟩
  · intro w hw
    refine ⟨hw, ?_⟩
    obtain ⟨-, hsame, hst⟩ := hw
    simp only [Process.exec, received]
    cases hpipe : child.pipe with
    | empty =>
      intro h
      cases h
    | torn =>
      intro h
      cases h
    | whole =>
      rcases hst with ⟨hlive, -, herror⟩ | ⟨hk, hstate, -, herror⟩
      · exact ⟨rfl, .inl (.congr hsame (report_live hpager hlive herror))⟩
      · obtain ⟨hterm, htext⟩ :=
          report_dead cfg child t (AgentControlBlock.isTerminal_of_zombie hstate)
        exact ⟨rfl, .inr ⟨hk, hterm, fun h => (Option.some_ne_none _).symm (herror (htext h))⟩⟩

lemma leads_acquireUpTo :
    Leads cfg out child t kills v p (Sees p (Held kills b₀))
      (proc (.acquireUpTo b₀.quotaRemaining)) fun reserve w =>
        reserve = grant v.left b₀ ∧ Sees p (Held kills b₀) w := by
  refine Prog.Ensures.perform_of_guard (robust_held _).stable ?_ ?_
  · intro reserve w w' hR hw
    exact ⟨hw.1, (robust_held _).stable w w' hR hw.2⟩
  · intro w hw hleft
    refine ⟨?_, hw⟩
    have hremaining : w.quota.remaining = v.left := hleft
    simp only [Process.exec, grant, Quota.acquireUpTo, hremaining]

/-- A transition of a live agent to a live state keeps it in hand. -/
lemma held_transition (st : AgentState) (hst : st.isTerminal = false) {b : AgentControlBlock}
    {queued : Bool} (now : Time) (h : Held kills b₀ b queued) :
    Held kills b₀ (b.transition st now) queued := by
  obtain ⟨hq, hsame, hstand⟩ := h
  refine ⟨hq, ?_, ?_⟩
  · rw [AgentControlBlock.transition_frame]
    exact hsame
  · rcases hstand with ⟨hlive, hfin, herror⟩ | hdead
    · refine .inl ⟨?_, ?_, ?_⟩
      · rw [AgentControlBlock.isTerminal_transition, hlive, hst]
        rfl
      · by_cases hne : st = b.state
        · rw [AgentControlBlock.transition, if_pos hne, hfin]
        · rw [b.transition_of_live st now hlive hne]
          simp [hst, hfin]
      · rw [AgentControlBlock.transition_frame]
        exact herror
    · rw [AgentControlBlock.transition_of_zombie hdead.2.1]
      exact .inr hdead

/-- Putting a held agent back. -/
lemma kleads_putBack :
    KLeads cfg out t kills v p (Sees p (Held kills b₀)) (.perform (.put p)) fun _ =>
      Sees p (Parked kills) := by
  refine kleads_put (robust_held _) robust_parked ?_ ?_
  · rintro b queued hterm ⟨-, -, hst⟩
    rcases hst with ⟨hlive, -⟩ | ⟨hk, hstate, hfin, herror⟩
    · rw [hlive] at hterm
      cases hterm
    · exact .inr ⟨hk, hstate, hfin, fun h => (Option.some_ne_none _).symm (herror h)⟩
  · intro b queued now hlive h
    obtain ⟨-, -, hst⟩ := held_transition .ready rfl now h
    rcases hst with ⟨hlive', hfin, herror⟩ | ⟨-, hstate, -⟩
    · exact .inl ⟨hlive', hfin, herror, rfl⟩
    · rw [b.state_transition_of_live .ready now hlive] at hstate
      cases hstate

/-- Applying what was read. -/
lemma leads_applyResult (raw : Raw) :
    Leads cfg out child t kills v p (Sees p (Held kills b₀)) (applyResult p raw)
      fun completed => Sees p fun b queued =>
        match raw with
        | .json payload => completed = true ∧ Taken kills payload b queued
        | _ => completed = false ∧ Lost b queued := by
  have hstart : ∀ w : World n, Sees p (Held kills b₀) w →
      Sees p (Apart kills none) w := fun w h => ⟨h.1, h.2.2⟩
  cases raw with
  | empty =>
    refine Prog.Ensures.bind _
      ((leads_failUnlessTerminal (by decide)).conseq hstart fun _ _ h => h) fun _ => ?_
    refine Prog.Ensures.bind _ (leads_stampFinish robust_lost ?_) fun _ => ?_
    · rintro b queued time ⟨hq, -, hrest⟩
      exact ⟨hq, rfl, hrest⟩
    · exact Prog.ensures_ret (robust_lost.and .finished).stable fun w h => ⟨rfl, h.1⟩
  | corrupt =>
    refine Prog.Ensures.bind _
      ((leads_failUnlessTerminal (by decide)).conseq hstart fun _ _ h => h) fun _ => ?_
    exact Prog.ensures_ret robust_lost.stable fun w h => ⟨rfl, h⟩
  | json payload =>
    refine Prog.Ensures.bind _ ((leads_takeOver payload).conseq hstart fun _ _ h => h) fun _ => ?_
    exact Prog.ensures_ret (robust_taken payload).stable fun w h => ⟨rfl, h⟩

/-- Reconciling the reservation after a report. -/
lemma leads_reconcile_completed (payload : Payload) (origQuota reserve callsBefore : ℤ) :
    Leads cfg out child t kills v p (Sees p (Taken kills payload))
      (reconcile p origQuota reserve callsBefore true) fun _ => Sees p fun b queued =>
        Taken kills payload b queued ∧
          b.quotaRemaining = max 0 (origQuota - max 0 (payload.llmCallsUsed - callsBefore)) := by
  have htaken : Robust kills (Taken kills payload) := robust_taken payload
  refine KLeads.kernel (kleads_read htaken
    (g := fun pcb b queued => Taken kills payload b queued ∧
      pcb.llmCallsUsed = payload.llmCallsUsed)
    (fun pcb => htaken.and (.const _)) fun b queued h => ⟨h, h.1.2.1⟩) fun pcb => ?_
  refine leads_fact (fun w h => h.2) fun hcalls => ?_
  simp only [if_true, hcalls]
  refine Prog.Ensures.bind (fun _ => Sees p (Taken kills payload)) ?_ fun _ => ?_
  · refine Prog.ensures_when (htaken.and (.const _)).stable (fun _ => ?_) fun _ w h => h.1
    exact Prog.Ensures.perform (htaken.and (.const _)).stable (fun _ => htaken.stable)
      fun w h => h.1
  · exact leads_assign htaken (htaken.and (.onFrame fun _ _ _ _ _ _ h => h))
      fun b queued h => ⟨h, rfl⟩

/-- Reconciling the reservation of an agent that is lost. -/
lemma leads_reconcile_lost (origQuota reserve callsBefore : ℤ) :
    Leads cfg out child t kills v p (Sees p Lost)
      (reconcile p origQuota reserve callsBefore false) fun _ => Sees p Lost := by
  refine KLeads.kernel (kleads_read robust_lost (g := fun _ => Lost) (fun _ => robust_lost)
    fun b queued h => h) fun pcb => ?_
  simp only [Bool.false_eq_true, if_false]
  exact leads_assign robust_lost robust_lost fun b queued h => h

/-- From the fork to the end: the child reports, the report is applied and the reservation is
reconciled. -/
lemma leads_supervise (hpager : cfg.pager = ⟨budget, defaultPolicies true⟩)
    (hgranted : ¬Blocked b₀ v.left) (reserve : ℤ) :
    Leads cfg out child t kills v p (Sees p (Held kills (startBlock b₀ v.left)))
      (do
        let raw ← proc (.runChild p)
        let completed ← applyResult p raw
        reconcile p b₀.quotaRemaining reserve b₀.llmCallsUsed completed)
      fun _ => Sees p (Ran cfg child kills b₀ v.left) := by
  refine Prog.Ensures.bind _ (leads_runChild hpager) fun raw =>
    leads_fact (fun w h => h.2) fun hraw => ?_
  refine Prog.Ensures.bind _ ((leads_applyResult raw).conseq (fun w h => h.1)
    fun _ _ h => h) fun completed => ?_
  cases raw with
  | json payload =>
    refine leads_fact (fun w h => h.1) ?_
    rintro rfl
    refine (leads_reconcile_completed payload _ _ _).conseq (fun w h => h.2) fun _ w h => ?_
    exact .inr (.inr ⟨⟨payload, hraw.2, h.1, h.2⟩, hgranted, hraw.1⟩)
  | empty =>
    refine leads_fact (fun w h => h.1) ?_
    rintro rfl
    exact (leads_reconcile_lost _ _ _).conseq (fun w h => h.2) fun _ w h =>
      .inr (.inl ⟨h, hraw⟩)
  | corrupt =>
    refine leads_fact (fun w h => h.1) ?_
    rintro rfl
    exact (leads_reconcile_lost _ _ _).conseq (fun w h => h.2) fun _ w h =>
      .inr (.inl ⟨h, hraw⟩)

/-- **Running the agent in a process.** -/
lemma leads_runInProcess (hpager : cfg.pager = ⟨budget, defaultPolicies true⟩) :
    Leads cfg out child t kills v p (Sees p (Held kills b₀)) (runInProcess p)
      fun _ => Sees p (Ran cfg child kills b₀ v.left) := by
  have hheld : Robust kills (Held kills b₀) := robust_held b₀
  refine KLeads.kernel (kleads_read hheld
    (g := fun pcb b queued => Held kills b₀ b queued ∧
      pcb.quotaRemaining = b₀.quotaRemaining)
    (fun pcb => hheld.and (.const _)) fun b queued h => ⟨h, h.2.1.1⟩) fun pcb => ?_
  refine leads_fact (fun w h => h.2) fun hunits => ?_
  rw [hunits]
  refine Prog.Ensures.bind _ (leads_acquireUpTo.conseq (fun w h => h.1) fun _ _ h => h)
    fun reserve => leads_fact (fun w h => h.1) ?_
  rintro rfl
  split
  · next hblocked =>
    -- no units: the agent goes back to the queue
    refine KLeads.kernel (M := fun _ => Sees p (Held kills b₀)) ?_ fun _ => ?_
    · refine (kleads_write hheld hheld ?_).conseq (fun w h => h.2) fun _ _ h => h
      exact fun clock b queued h => held_transition .blocked rfl _ h
    · refine KLeads.kernel kleads_putBack fun _ => ?_
      exact Prog.ensures_ret robust_parked.stable fun w h => .inl ⟨h, hblocked⟩
  · next hgranted =>
    -- the child starts with the units that were granted
    have hstart : Robust kills (Held kills (startBlock b₀ v.left)) := robust_held _
    refine Prog.Ensures.bind _ ((leads_assign hheld hstart ?_).conseq
      (fun w h => h.2) fun _ _ h => h) fun _ => ?_
    · rintro b queued ⟨hq, ⟨-, hcap, hreact, hcalls⟩, hst⟩
      exact ⟨hq, ⟨rfl, hcap, hreact, hcalls⟩, hst⟩
    refine KLeads.kernel (kleads_read hstart
      (g := fun before b queued => Held kills (startBlock b₀ v.left) b queued ∧
        before.llmCallsUsed = b₀.llmCallsUsed)
      (fun before => hstart.and (.const _)) fun b queued h => ⟨h, h.2.1.2.2.2⟩) fun before => ?_
    refine leads_fact (fun w h => h.2) fun hbefore => ?_
    rw [hbefore]
    exact (leads_supervise hpager hgranted _).conseq (fun w h => h.1) fun _ _ h => h

/-! ### The dispatch -/

/-- Forwarding the result concerns the mailboxes only. -/
lemma kleads_forwardResult (hf : Robust kills f) :
    KLeads cfg out t kills v p (Sees p f) (forwardResult cfg p) fun _ => Sees p f := by
  refine Prog.Ensures.bind _ (kleads_read hf (g := fun _ => f) (fun _ => hf) fun b queued h => h)
    fun pcb => ?_
  split
  · exact Prog.ensures_ret hf.stable fun w h => h
  · split
    · refine Prog.Ensures.bind _ (kleads_quiet hf fun w => ⟨rfl, rfl⟩) fun now => ?_
      refine Prog.Ensures.bind (fun _ => Sees p f) ?_ fun _ =>
        Prog.ensures_ret hf.stable fun w h => h
      exact Prog.Ensures.bind _ (kleads_quiet hf fun w => ⟨rfl, rfl⟩) fun box =>
        kleads_quiet hf fun w => ⟨rfl, rfl⟩
    · exact Prog.ensures_ret hf.stable fun w h => h

lemma leads_launch (hpager : cfg.pager = ⟨budget, defaultPolicies true⟩) :
    Leads cfg out child t kills v p (Sees p (Held kills b₀)) (launch cfg p)
      fun _ => Sees p (Ran cfg child kills b₀ v.left) := by
  have hheld : Robust kills (Held kills b₀) := robust_held b₀
  have hran : Robust kills (Ran cfg child kills b₀ v.left) := robust_ran
  refine KLeads.kernel (kleads_read hheld (g := fun _ => Held kills b₀)
    (fun _ => hheld) fun b queued h => h) fun pcb => ?_
  refine Prog.Ensures.bind (fun _ => Sees p (Held kills b₀)) ?_ fun _ => ?_
  · refine Prog.ensures_when hheld.stable (fun _ => ?_) fun _ w h => h
    refine KLeads.plain (kleads_write hheld hheld fun clock b queued h => ?_)
    exact held_transition .running rfl _ h
  · refine KLeads.kernel (kleads_quiet hheld fun w => ⟨rfl, rfl⟩) fun _ => ?_
    refine Prog.Ensures.bind _ (leads_runInProcess hpager) fun _ => ?_
    refine KLeads.kernel (kleads_quiet hran fun w => ⟨rfl, rfl⟩) fun _ => ?_
    exact (kleads_forwardResult hran).plain

/-- Parking a held agent that waits for its input. -/
lemma kleads_reparkWaiting :
    KLeads cfg out t kills v p (Sees p (Held kills b₀)) (reparkWaiting cfg p) fun _ =>
      Sees p fun b queued => Parked kills b queued ∨ Lost b queued := by
  have hheld : Robust kills (Held kills b₀) := robust_held b₀
  refine Prog.Ensures.bind _ (kleads_quiet hheld fun w => ⟨rfl, rfl⟩) fun now => ?_
  refine Prog.Ensures.bind _ (kleads_read hheld (g := fun _ => Held kills b₀)
    (fun _ => hheld) fun b queued h => h) fun pcb => ?_
  refine Prog.Ensures.bind _ (kleads_write hheld hheld fun clock b queued h => h) fun _ => ?_
  dsimp only
  split
  · -- the deadline has passed
    refine (kleads_failWith ?_).conseq (fun w h => ⟨h.1, h.2.2⟩) fun _ w h => .inr h
    refine ne_quotaExhausted 'i' ?_ (by decide)
    have hletter : 'i' ∈ (toString "input never arrived from PID ").toList := by decide
    simp only [String.toList_append, List.mem_append, hletter, true_or]
  · refine Prog.Ensures.bind _ (kleads_write hheld hheld fun clock b queued h =>
      held_transition .waiting rfl _ h) fun _ => ?_
    refine Prog.Ensures.bind _ kleads_putBack fun _ => ?_
    exact Prog.ensures_ret robust_parked.stable fun w h => .inl h

end

end Gcos.Process
