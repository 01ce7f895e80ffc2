import Gcos.Exec.React

/-!
# How long the multi-step loop runs

Every step that goes on uses up a unit of the agent's quota and a step of its cap, so there
are no more of them than of either.  The cap is compared before the call, and it counts the
call that gives the final answer like the calls that ask for tools: an agent that may use
`m` tools gets its answer only if it uses fewer than `m`.
-/

namespace Gcos.Exec

open Lib Memory World Process

variable {n : ℕ} (cfg : KernelConfig) (out : Outside) (t : Tid n) (p : Pid)
  (host : Host) (pager : Option ContextPager)

/-- A live agent that has not made a step. -/
structure Fresh (b : AgentControlBlock) : Prop where
  live : b.isTerminal = false
  calls : b.llmCallsUsed = 0
  react : b.react = {}
  pages : b.contextPages = []

/-! ### The counters -/

/-- How many of the first `j` calls went on. -/
def toolSteps (j : ℕ) (w : World n) : ℕ :=
  (List.range j).countP fun i => answerAt cfg out t p host pager i w = .ok true

lemma toolSteps_succ (j : ℕ) (w : World n) : toolSteps cfg out t p host pager (j + 1) w =
    toolSteps cfg out t p host pager j w +
      if answerAt cfg out t p host pager j w = .ok true then 1 else 0 := by
  simp [toolSteps, List.range_succ, List.countP_singleton]

/-- The counters of an agent that started with `units` and has made `tools` steps that asked
for a tool. -/
structure Books (units : ℤ) (cap : CapabilitySet) (tools : ℕ) (b : AgentControlBlock) : Prop where
  capability : b.capability = cap
  quota : b.quotaRemaining + b.llmCallsUsed = units
  step : (b.react.step : ℤ) = b.llmCallsUsed
  observations : b.react.observations.length = tools
  /-- The prompt with the first reply, every reply, and the answers of the tools. -/
  pages : b.contextPages.length = (if b.react.step = 0 then 0 else b.react.step + 1) + tools
  tools_le : tools ≤ b.react.step
  step_le_quota : (b.react.step : ℤ) ≤ max units 0
  step_le_cap : (b.react.step : ℤ) ≤ max cap.maxToolCalls 0

lemma Fresh.books {b : AgentControlBlock} (h : Fresh b) :
    Books b.quotaRemaining b.capability 0 b := by
  refine ⟨rfl, ?_, ?_, ?_, ?_, Nat.zero_le _, ?_, ?_⟩
  · rw [h.calls, add_zero]
  · rw [h.react, h.calls]
    rfl
  · rw [h.react]
    rfl
  · rw [h.react, h.pages]
    rfl
  · rw [h.react]
    exact le_max_right _ _
  · rw [h.react]
    exact le_max_right _ _

section

variable {units : ℤ} {cap : CapabilitySet} {tools : ℕ} {b b' : AgentControlBlock}

/-- What leaves the counters and the pages alone keeps the books. -/
lemma Books.kept (h : Books units cap tools b) (hkept : Kept b b')
    (hpages : b'.contextPages = b.contextPages) : Books units cap tools b' := by
  refine ⟨hkept.capability.trans h.capability, ?_, ?_, ?_, ?_, ?_, ?_, ?_⟩
  · rw [hkept.quota, hkept.calls, h.quota]
  · rw [hkept.react, hkept.calls, h.step]
  · rw [hkept.react, h.observations]
  · rw [hkept.react, hpages, h.pages]
  · rw [hkept.react]
    exact h.tools_le
  · rw [hkept.react]
    exact h.step_le_quota
  · rw [hkept.react]
    exact h.step_le_cap

lemma AddsPages.length_eq {drafts : List PageDraft} {pages pages' : List ContextPage}
    (h : AddsPages drafts pages pages') : pages'.length = pages.length + drafts.length := by
  have hlen := congrArg List.length h
  simpa using hlen

/-- A recorded reply moves the counters together. -/
lemma Books.recorded {r : ChatResult} {observed : List String} {drafts : List PageDraft}
    (h : Books units cap tools b) (hmay : MayCall b)
    (hrec : Recorded b 1 observed (promptPages b r ++ drafts) b')
    (hdrafts : drafts.length = 1 + observed.length) (hone : observed.length ≤ 1) :
    Books units cap (tools + observed.length) b' := by
  have hquota := hmay.quota
  have hcap := hmay.step
  have hpages := hrec.pages.length_eq
  obtain ⟨hcapability, hbalance, hstep, hobs, hlen, htools, hunits, hbound⟩ := h
  refine ⟨hrec.capability.trans hcapability, ?_, ?_, ?_, ?_, ?_, ?_, ?_⟩
  · rw [hrec.quota, hrec.calls]
    omega
  · rw [hrec.step, hrec.calls]
    push_cast
    omega
  · rw [hrec.observations, List.length_append, hobs]
  · rw [hpages, hrec.step, hlen, List.length_append, hdrafts, promptPages]
    split
    · next hzero =>
      rw [hzero, if_neg (Nat.succ_ne_zero _), List.length_singleton]
      omega
    · next hpos =>
      rw [if_neg (Nat.succ_ne_zero _), List.length_nil]
      omega
  · rw [hrec.step]
    omega
  · rw [hrec.step]
    push_cast
    omega
  · rw [hrec.step]
    rw [hcapability] at hcap
    push_cast
    omega

/-- **One step** of an agent without a pager. -/
lemma Books.reactStep {chat : ℕ → Except Exn ChatResult} {m m' : ℕ} {answer : Except Exn Bool}
    (h : Books units cap tools b) (hstep : ReactStep host chat Eq b m answer b' m') :
    Books units cap (tools + if answer = .ok true then 1 else 0) b' ∧
      (answer = .ok true ∨ answer = .ok false ∧ b'.isTerminal = true) := by
  cases hstep with
  | dead hdead => exact ⟨h, .inr ⟨rfl, hdead⟩⟩
  | refused hlive hno hkept hpages hstate =>
    refine ⟨h.kept hkept hpages, .inr ⟨rfl, ?_⟩⟩
    rw [AgentControlBlock.isTerminal, hstate]
    rfl
  | raised hmay hchat hkept hpages hdead => exact ⟨h.kept hkept hpages.symm, .inr ⟨rfl, hdead⟩⟩
  | @acted b₁ _ r _ hmay hchat hkept hpages hstate hacted =>
    have hbooks := h.kept hkept hpages.symm
    have hmay' : MayCall b₁ := by
      refine ⟨?_, ?_, ?_⟩
      · rw [AgentControlBlock.isTerminal, hstate]
        rfl
      · rw [hkept.quota]
        exact hmay.quota
      · rw [hkept.react, hkept.capability]
        exact hmay.step
    unfold Acted at hacted
    split at hacted
    · obtain ⟨rfl, hrec, hdone, -⟩ := hacted
      refine ⟨hbooks.recorded hmay' hrec rfl (Nat.zero_le 1), .inr ⟨rfl, ?_⟩⟩
      rw [AgentControlBlock.isTerminal, hdone]
      rfl
    · obtain ⟨rfl, hrec, -⟩ := hacted
      exact ⟨hbooks.recorded hmay' hrec rfl le_rfl, .inl rfl⟩

end

/-- The books are kept from call to call. -/
lemma books_drive (w : World n) (hfresh : Fresh (w.pcbs p)) (j : ℕ) :
    Books (w.pcbs p).quotaRemaining (w.pcbs p).capability (toolSteps cfg out t p host none j w)
      ((drive cfg out t p host none j w).pcbs p) := by
  -- by induction on the number of calls, one step at a time
  induction j with
  | zero => exact hfresh.books
  | succ j ih =>
    have hstep := reactStep_stepOnce host (assembles_none cfg out t p)
      (drive cfg out t p host none j w)
    rw [drive_succ, toolSteps_succ]
    exact (ih.reactStep host hstep).1

/-- **The multi-step loop ends within its budgets.**  An agent without a pager, with any
quota and any cap, and any client: after any number of calls of `run_react_step` the
counters agree; no more calls than either budget allows have gone on; a call that does not
go on leaves a terminal agent, and none raises; and a call on a terminal agent changes
nothing. -/
theorem react_ends_within_budgets (w : World n) (hfresh : Fresh (w.pcbs p)) (j : ℕ) :
    let quota := (w.pcbs p).quotaRemaining
    let cap := (w.pcbs p).capability.maxToolCalls
    let tools := toolSteps cfg out t p host none j w
    let w' := drive cfg out t p host none j w
    let b := w'.pcbs p
    (b.quotaRemaining + b.llmCallsUsed = quota ∧ (b.react.step : ℤ) = b.llmCallsUsed ∧
        b.react.observations.length = tools ∧
        b.contextPages.length = (if b.react.step = 0 then 0 else b.react.step + 1) + tools) ∧
      (tools : ℤ) ≤ min (max quota 0) (max cap 0) ∧
      (answerAt cfg out t p host none j w = .ok true ∨
        answerAt cfg out t p host none j w = .ok false ∧
          ((drive cfg out t p host none (j + 1) w).pcbs p).isTerminal = true) ∧
      (b.isTerminal = true → stepOnce cfg out t p host none w' = (.ok false, w')) := by
  intro quota cap tools w' b
  have hbooks := books_drive cfg out t p host w hfresh j
  have hstep := reactStep_stepOnce host (assembles_none cfg out t p) w'
  have htools := hbooks.tools_le
  have hquota := hbooks.step_le_quota
  have hcap := hbooks.step_le_cap
  refine ⟨⟨hbooks.quota, hbooks.step, hbooks.observations, hbooks.pages⟩, ?_, ?_, ?_⟩
  · omega
  · rw [drive_succ]
    exact (hbooks.reactStep host hstep).2
  · exact stepOnce_of_isTerminal host

/-- A multi-step agent that was just spawned. -/
def newAgent (maxToolCalls quota : ℤ) : World 0 where
  pcbs := fun _ =>
    { pid := 1, prompt := "task", createdAt := 0, capability := .agent maxToolCalls
      quotaRemaining := quota }
  quota := ⟨0, 0⟩

/-- A client that asks for `k` tools and then gives its answer. -/
def scripted (k : ℕ) : Outside :=
  { Outside.calm ⟨"", 0, 0, 0⟩ with
    chat := fun i => .ok { content := if i < k then "TOOL: note x" else "FINAL: y" } }

lemma fresh_newAgent (maxToolCalls quota : ℤ) : Fresh ((newAgent maxToolCalls quota).pcbs 1) :=
  ⟨rfl, rfl, rfl, rfl⟩

/-- Two steps of an agent with three units: one of them has gone on. -/
theorem react_ends_within_budgets_three :
    ((toolSteps { pager := {}, host := .inert } (scripted 1) (.client 0) 1 .inert none 2
      (newAgent 8 3) : ℕ) : ℤ) ≤ min (max 3 0) (max 8 0) :=
  (react_ends_within_budgets { pager := {}, host := .inert } (scripted 1) (.client 0) 1 .inert
    (newAgent 8 3) (fresh_newAgent 8 3) 2).2.1

/-! ### The cap -/

/-- A pager with which assembling the messages makes no call: none, or that of the kernel. -/
def Quiet (pager : Option ContextPager) : Prop :=
  pager = none ∨ ∃ budget metered, pager = some ⟨budget, defaultPolicies metered⟩

variable {cfg out t p host pager}

variable (cfg out t p) in
lemma Quiet.assembles (h : Quiet pager) : Assembles cfg out t p pager fun _ _ => True := by
  intro w
  rcases h with rfl | ⟨budget, metered, rfl⟩
  · obtain ⟨messages, w', pages, hrun, hhas, -⟩ := assembles_none cfg out t p w
    exact ⟨messages, w', pages, hrun, hhas, trivial⟩
  · obtain ⟨messages, w', pages, hrun, hhas, -⟩ := assembles_default cfg out t p budget metered w
    exact ⟨messages, w', pages, hrun, hhas, trivial⟩

/-- An agent that started with `units` and has used `i` tools. -/
structure Toils (units : ℤ) (cap : CapabilitySet) (i : ℕ) (b : AgentControlBlock) : Prop where
  live : b.isTerminal = false
  capability : b.capability = cap
  quota : b.quotaRemaining = units - i
  calls : b.llmCallsUsed = i
  step : b.react.step = i
  observations : b.react.observations.length = i

lemma Fresh.toils {b : AgentControlBlock} (h : Fresh b) :
    Toils b.quotaRemaining b.capability 0 b := by
  refine ⟨h.live, rfl, (sub_zero _).symm, h.calls, ?_, ?_⟩
  · rw [h.react]
  · rw [h.react]
    rfl

section

variable {units : ℤ} {cap : CapabilitySet} {i m m' : ℕ} {b b' : AgentControlBlock}
  {chat : ℕ → Except Exn ChatResult} {Pages : List ContextPage → List ContextPage → Prop}
  {answer : Except Exn Bool}

lemma Toils.mayCall_iff (h : Toils units cap i b) :
    MayCall b ↔ (i : ℤ) < units ∧ (i : ℤ) < cap.maxToolCalls := by
  constructor
  · rintro ⟨-, hquota, hstep⟩
    rw [h.quota] at hquota
    rw [h.step, h.capability] at hstep
    exact ⟨by omega, hstep⟩
  · rintro ⟨hquota, hstep⟩
    refine ⟨h.live, ?_, ?_⟩
    · rw [h.quota]
      omega
    · rwa [h.step, h.capability]

/-- A step that may make its call, and whose call is answered. -/
lemma ReactStep.answered (hmay : MayCall b) {r : ChatResult} (hchat : chat m = .ok r)
    (hreact : ReactStep host chat Pages b m answer b' m') :
    m' = m + 1 ∧ ∃ b₁, Kept b b₁ ∧ b₁.state = .running ∧ Acted host r b₁ b' answer := by
  cases hreact with
  | dead hdead =>
    rw [hmay.live] at hdead
    cases hdead
  | refused hlive hno hkept hpages hstate =>
    rcases hno with hno | hno
    · exact absurd hmay.quota (not_lt.2 hno)
    · exact absurd hmay.step (not_lt.2 hno)
  | raised hmay hchat' hkept hpages hdead =>
    rw [hchat] at hchat'
    cases hchat'
  | acted hmay hchat' hkept hpages hstate hacted =>
    rw [hchat] at hchat'
    obtain rfl := Except.ok.inj hchat'
    exact ⟨rfl, _, hkept, hstate, hacted⟩

/-- A reply that asks for a tool. -/
lemma Toils.tool (h : Toils units cap i b) (hquota : (i : ℤ) < units)
    (hstep : (i : ℤ) < cap.maxToolCalls) (hasks : asksTool host (chat m) = true)
    (hreact : ReactStep host chat Pages b m answer b' m') :
    answer = .ok true ∧ Toils units cap (i + 1) b' ∧ m' = m + 1 := by
  have hmay : MayCall b := h.mayCall_iff.2 ⟨hquota, hstep⟩
  cases hchat : chat m with
  | error e =>
    rw [hchat] at hasks
    cases hasks
  | ok r =>
    obtain ⟨rfl, b₁, hkept, hstate, hacted⟩ := hreact.answered hmay hchat
    rw [hchat, asksTool] at hasks
    unfold Acted at hacted
    split at hacted
    · next arg hfinal =>
      rw [hfinal] at hasks
      cases hasks
    · obtain ⟨hanswer, hrec, hsame⟩ := hacted
      refine ⟨hanswer, ⟨?_, ?_, ?_, ?_, ?_, ?_⟩, rfl⟩
      · rw [AgentControlBlock.isTerminal, hsame, hstate]
        rfl
      · rw [hrec.capability, hkept.capability, h.capability]
      · rw [hrec.quota, hkept.quota, h.quota]
        push_cast
        omega
      · rw [hrec.calls, hkept.calls, h.calls]
        push_cast
        rfl
      · rw [hrec.step, hkept.react, h.step]
      · rw [hrec.observations, hkept.react, List.length_append, h.observations]
        rfl

/-- A final answer. -/
lemma Toils.final (h : Toils units cap i b) (hquota : (i : ℤ) < units)
    (hstep : (i : ℤ) < cap.maxToolCalls) {r : ChatResult} {arg : String} (hchat : chat m = .ok r)
    (hfinal : parseAction host r.content = .final arg)
    (hreact : ReactStep host chat Pages b m answer b' m') :
    answer = .ok false ∧ b'.state = .done ∧ b'.result = some arg ∧ b'.llmCallsUsed = i + 1 := by
  have hmay : MayCall b := h.mayCall_iff.2 ⟨hquota, hstep⟩
  obtain ⟨-, b₁, hkept, -, hacted⟩ := hreact.answered hmay hchat
  rw [Acted, hfinal] at hacted
  obtain ⟨hanswer, hrec, hdone, hresult⟩ := hacted
  refine ⟨hanswer, hdone, hresult, ?_⟩
  rw [hrec.calls, hkept.calls, h.calls]

/-- No call may be made. -/
lemma Toils.refused (h : Toils units cap i b)
    (hno : units ≤ i ∨ cap.maxToolCalls ≤ i)
    (hreact : ReactStep host chat Pages b m answer b' m') :
    answer = .ok false ∧ b'.state = .error ∧ b'.react.observations.length = i := by
  have hstop : ¬MayCall b := by
    rw [h.mayCall_iff]
    omega
  cases hreact with
  | dead hdead =>
    rw [h.live] at hdead
    cases hdead
  | refused hlive hno hkept hpages hstate =>
    refine ⟨rfl, hstate, ?_⟩
    rw [hkept.react, h.observations]
  | raised hmay => exact absurd hmay hstop
  | acted hmay => exact absurd hmay hstop

end

/-- As long as the replies ask for tools and both budgets allow it, the agent uses tools. -/
lemma toils_drive (hquiet : Quiet pager) {w : World n} (hfresh : Fresh (w.pcbs p)) {k : ℕ}
    (hasks : ∀ i < k, asksTool host (out.chat (w.chats + i)) = true)
    (hquota : (k : ℤ) ≤ (w.pcbs p).quotaRemaining)
    (hcap : (k : ℤ) ≤ (w.pcbs p).capability.maxToolCalls) :
    Toils (w.pcbs p).quotaRemaining (w.pcbs p).capability k
        ((drive cfg out t p host pager k w).pcbs p) ∧
      (drive cfg out t p host pager k w).chats = w.chats + k ∧
      ∀ i < k, answerAt cfg out t p host pager i w = .ok true := by
  induction k with
  | zero => exact ⟨hfresh.toils, rfl, fun i hi => absurd hi (Nat.not_lt_zero i)⟩
  | succ k ih =>
    push_cast at hquota hcap
    obtain ⟨htoils, hchats, hanswers⟩ := ih (fun i hi => hasks i (Nat.lt_succ_of_lt hi))
      (by omega) (by omega)
    have hreact := reactStep_stepOnce host (hquiet.assembles cfg out t p)
      (drive cfg out t p host pager k w)
    rw [hchats] at hreact
    obtain ⟨hanswer, htoils', hchats'⟩ := htoils.tool (by omega) (by omega)
      (hasks k (Nat.lt_succ_self k)) hreact
    rw [drive_succ]
    refine ⟨htoils', hchats', fun i hi => ?_⟩
    rcases Nat.lt_succ_iff_lt_or_eq.1 hi with hlt | rfl
    · exact hanswers i hlt
    · exact hanswer

variable (cfg out t p host) in
/-- **What the cap on tool calls admits.**  A fresh agent with any cap `m`, driven until a
call does not go on, by a client that asks for `k` tools and then gives its answer.  With
units for all of these calls and `k ≤ m`, the agent ends with the answer after `k + 1` calls
exactly if `k < m`; and with `m < k` it ends with an error after at most `m` tools, whatever
its quota. -/
theorem answered_iff_lt_cap (hquiet : Quiet pager) (w : World n) (hfresh : Fresh (w.pcbs p))
    (hcap : 0 ≤ (w.pcbs p).capability.maxToolCalls) (k : ℕ)
    (hasks : ∀ i < k, asksTool host (out.chat (w.chats + i)) = true) {r : ChatResult} {arg : String}
    (hchat : out.chat (w.chats + k) = .ok r) (hfinal : parseAction host r.content = .final arg) :
    let quota := (w.pcbs p).quotaRemaining
    let cap := (w.pcbs p).capability.maxToolCalls
    ∃ j, (∀ i < j, answerAt cfg out t p host pager i w = .ok true) ∧
      answerAt cfg out t p host pager j w = .ok false ∧
      let b := (drive cfg out t p host pager (j + 1) w).pcbs p
      ((k : ℤ) ≤ cap → (k : ℤ) + 1 ≤ quota →
          ((b.state = .done ∧ b.result = some arg ∧ b.llmCallsUsed = k + 1) ↔ (k : ℤ) < cap)) ∧
        (cap < k → b.state = .error ∧ (b.react.observations.length : ℤ) ≤ cap) := by
  intro quota cap
  -- the agent uses tools until the replies or one of the budgets stop it
  obtain ⟨j, hj⟩ : ∃ j : ℕ, j = min k (min cap.toNat quota.toNat) := ⟨_, rfl⟩
  have hjk : j ≤ k := by omega
  have hjcap : (j : ℤ) ≤ cap := by omega
  obtain ⟨htoils, hchats, hanswers⟩ : Toils quota (w.pcbs p).capability j
        ((drive cfg out t p host pager j w).pcbs p) ∧
      (drive cfg out t p host pager j w).chats = w.chats + j ∧
      ∀ i < j, answerAt cfg out t p host pager i w = .ok true := by
    rcases Nat.eq_zero_or_pos j with hzero | hpos
    · rw [hzero]
      exact ⟨hfresh.toils, rfl, fun i hi => absurd hi (Nat.not_lt_zero i)⟩
    · exact toils_drive hquiet hfresh (fun i hi => hasks i (hi.trans_le hjk)) (by omega) hjcap
  have hreact := reactStep_stepOnce host (hquiet.assembles cfg out t p)
    (drive cfg out t p host pager j w)
  rw [hchats] at hreact
  refine ⟨j, hanswers, ?_⟩
  rw [drive_succ]
  by_cases hmore : (j : ℤ) < quota ∧ (j : ℤ) < cap
  · obtain ⟨hquota, hstep⟩ := hmore
    obtain rfl : j = k := by omega
    obtain ⟨hanswer, hdone, hresult, hcalls⟩ := htoils.final hquota hstep hchat hfinal hreact
    refine ⟨hanswer, fun _ _ => iff_of_true ⟨hdone, hresult, hcalls⟩ hstep, fun hover => ?_⟩
    omega
  · obtain ⟨hanswer, herror, hlength⟩ := htoils.refused (by omega) hreact
    refine ⟨hanswer, fun hle hpaid => iff_of_false ?_ (by omega), fun _ => ⟨herror, ?_⟩⟩
    · rintro ⟨hdone, -⟩
      rw [herror] at hdone
      cases hdone
    · rw [hlength]
      exact hjcap

/-- One tool, a cap of two: the answer comes with the second call. -/
theorem answered_iff_lt_cap_two :
    ∃ j, (∀ i < j, answerAt { pager := {}, host := .inert } (scripted 1) (.client 0) 1 .inert none i
        (newAgent 2 10) = .ok true) ∧
      ((drive { pager := {}, host := .inert } (scripted 1) (.client 0) 1 .inert none (j + 1)
        (newAgent 2 10)).pcbs 1).state = .done := by
  obtain ⟨j, hbefore, -, hcap, -⟩ := answered_iff_lt_cap { pager := {}, host := .inert } (scripted 1)
    (.client 0) 1 .inert (.inl rfl) (newAgent 2 10) (fresh_newAgent 2 10) (by decide) 1
    (by decide +kernel) rfl (show parseAction .inert "FINAL: y" = .final "y" by decide +kernel)
  exact ⟨j, hbefore, ((hcap (by decide) (by decide)).2 (by decide)).1⟩

/-- One tool, a cap of one: the agent uses its tool and ends with an error, and its answer is
not asked for. -/
theorem cap_refuses_answer :
    let answerAt := answerAt { pager := {}, host := .inert } (scripted 1) (.client 0) 1 .inert none
    let b := (drive { pager := {}, host := .inert } (scripted 1) (.client 0) 1 .inert none 2
      (newAgent 1 10)).pcbs 1
    answerAt 0 (newAgent 1 10) = .ok true ∧ answerAt 1 (newAgent 1 10) = .ok false ∧
      b.react.observations.length = 1 ∧ b.llmCallsUsed = 1 ∧ b.state = .error ∧
      b.error = some "exceeded max_tool_calls=1" := by
  decide +kernel

end Gcos.Exec
