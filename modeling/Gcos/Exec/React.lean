import Gcos.Memory.Recency
import Gcos.Process.AgentStep

/-!
# The multi-step loop

`gcos/agent_loop.py` for an agent with any pager, or with none: `_build_messages` reads the
`pager` of the agent, which the kernel sets and `gcos spawn` does not.

A step of a live agent with units and steps left makes one call.  What the reply makes of the
block is one structure, `Turned`, from which the results about whole runs are drawn.
-/

namespace Gcos.Exec

open Lib Memory World Process

/-! ### The step -/

/-- `agent_loop._build_messages`. -/
def buildMessages (pager : Option ContextPager) (p : Pid) (pcb : AgentControlBlock) :
    Prog KOp (Except Exn (List ChatMessage)) :=
  match pager with
  | some pager => do
    let extra := if pcb.react.step = 0 then some pcb.prompt else none
    match ← assemble pager p extra with
    | .error e => return .error e
    | .ok messages => return .ok ({ role := .system, content := reactSystem } :: messages)
  | none =>
    -- the prompt is not among the pages yet when there are none
    return .ok ({ role := .system, content := reactSystem } ::
      if pcb.contextPages = [] then [{ role := .user, content := pcb.prompt }]
      else pcb.contextPages.map pageMessage)

/-- The handlers around the call of `run_react_step`, and what follows it. -/
def reactReply (host : Host) (p : Pid) : Except Exn ChatResult → Prog KOp (Except Exn Bool)
  | .error e => do
    failWithExn p e
    return .ok false
  | .ok r => finishReact host p r

/-- The call of `run_react_step`. -/
def reactCallWith (pager : Option ContextPager) (host : Host) (p : Pid) :
    Prog KOp (Except Exn Bool) := do
  let pcb ← .perform (.readPcb p .fields)
  match ← buildMessages pager p pcb with
  | .error e => return .error e
  | .ok messages => do
    let result ← .perform (.chat .step
      { messages := messages
        maxTokens := min pcb.capability.maxTokens 512
        timeout := pcb.timeoutS })
    reactReply host p result

/-- `run_react_step` of an agent with the given pager. -/
def runReactStepWith (pager : Option ContextPager) (host : Host) (p : Pid) :
    Prog KOp (Except Exn Bool) := do
  let pcb ← .perform (.readPcb p .terminal)
  if pcb.isTerminal then return .ok false
  else if pcb.quotaRemaining ≤ 0 then do
    failWith p .error quotaExhausted
    return .ok false
  else if pcb.capability.maxToolCalls ≤ pcb.react.step then do
    failWith p .error s!"exceeded max_tool_calls={pcb.capability.maxToolCalls}"
    return .ok false
  else do
    enterRunning p
    reactCallWith pager host p

/-- With the kernel's pager this is the step that the workers run. -/
theorem runReactStepWith_kernel (cfg : KernelConfig) (p : Pid) :
    runReactStepWith (some cfg.pager) cfg.host p = runReactStep cfg p := by
  have hcall : reactCallWith (some cfg.pager) cfg.host p = reactCall cfg p := by
    refine congrArg (Prog.op _) (funext fun pcb => ?_)
    show (assemble cfg.pager p _ >>= _) >>= _ = assemble cfg.pager p _ >>= _
    rw [Prog.bind_assoc]
    refine congrArg _ (funext fun answer => ?_)
    cases answer with
    | error e => rfl
    | ok messages =>
      refine congrArg (Prog.op _) (funext fun result => ?_)
      cases result <;> rfl
  rw [runReactStepWith, runReactStep, hcall]

/-! ### What a reply makes of the block -/

/-- Some pages are in the context that were not there before; times do not count. -/
def AddsPages (drafts : List PageDraft) (pages pages' : List ContextPage) : Prop :=
  pages'.map ContextPage.forget =
    pages.map ContextPage.forget ++ drafts.map fun d => (d.page 0).forget

/-- A call is counted, steps and observations are added, and pages are recorded. -/
structure Recorded (b : AgentControlBlock) (steps : ℕ) (observed : List String)
    (drafts : List PageDraft) (b' : AgentControlBlock) : Prop where
  prompt : b'.prompt = b.prompt
  capability : b'.capability = b.capability
  quota : b'.quotaRemaining = b.quotaRemaining - 1
  calls : b'.llmCallsUsed = b.llmCallsUsed + 1
  step : b'.react.step = b.react.step + steps
  observations : b'.react.observations = b.react.observations ++ observed
  pages : AddsPages drafts b.contextPages b'.contextPages

/-- The page that records the prompt, with the first reply. -/
def promptPages (b : AgentControlBlock) (r : ChatResult) : List PageDraft :=
  if b.react.step = 0 then [{ role := .user, content := b.prompt, tokens := r.promptTokens }] else []

/-- The page that records a reply. -/
def replyPage (r : ChatResult) : PageDraft :=
  { role := .assistant, content := r.content, tokens := r.completionTokens }

/-- The page that records what a tool answered. -/
def observationPage (obs : String) : PageDraft :=
  { role := .user, content := "OBSERVATION: " ++ obs }

/-- **What a reply makes of the block**: the last step of the agent, or one more. -/
def Acted (host : Host) (r : ChatResult) (b b' : AgentControlBlock) (answer : Except Exn Bool) :
    Prop :=
  match parseAction host r.content with
  | .final arg =>
    answer = .ok false ∧ Recorded b 1 [] (promptPages b r ++ [replyPage r]) b' ∧
      b'.state = .done ∧ b'.result = some arg
  | .tool name arg =>
    answer = .ok true ∧
      Recorded b 1 [s!"{name}({arg}) -> {useTool host name arg}"]
        (promptPages b r ++ [replyPage r, observationPage (useTool host name arg)]) b' ∧
      b'.state = b.state

section

variable {n : ℕ} {cfg : KernelConfig} {out : Outside} {t : Tid n} {p : Pid} {host : Host}
  {b b' : AgentControlBlock} {r : ChatResult} {steps : ℕ} {observed : List String}
  {drafts : List PageDraft}

namespace Recorded

lemma count (b : AgentControlBlock) (tokens : ℤ) (clock : ℕ → Time) :
    Recorded b 0 [] [] ((Write.countCall tokens).apply clock b) :=
  ⟨rfl, rfl, rfl, rfl, rfl, (List.append_nil _).symm, (List.append_nil _).symm⟩

lemma append (h : Recorded b steps observed drafts b') (d : PageDraft) (clock : ℕ → Time) :
    Recorded b steps observed (drafts ++ [d]) ((Write.appendPage d).apply clock b') := by
  refine ⟨h.prompt, h.capability, h.quota, h.calls, h.step, h.observations, ?_⟩
  show (b'.contextPages ++ [d.page (clock 0)]).map ContextPage.forget = _
  rw [List.map_append, h.pages, List.map_append, List.append_assoc]
  rfl

lemma countStep (h : Recorded b steps observed drafts b') (clock : ℕ → Time) :
    Recorded b (steps + 1) observed drafts (Write.countStep.apply clock b') := by
  refine ⟨h.prompt, h.capability, h.quota, h.calls, ?_, h.observations, h.pages⟩
  show b'.react.step + 1 = _
  rw [h.step, Nat.add_assoc]

lemma observe (h : Recorded b steps observed drafts b') (text : String) (clock : ℕ → Time) :
    Recorded b steps (observed ++ [text]) drafts ((Write.observe text).apply clock b') := by
  refine ⟨h.prompt, h.capability, h.quota, h.calls, h.step, ?_, h.pages⟩
  show b'.react.observations ++ [text] = _
  rw [h.observations, List.append_assoc]

lemma result (h : Recorded b steps observed drafts b') (text : String) (clock : ℕ → Time) :
    Recorded b steps observed drafts ((Write.result text).apply clock b') :=
  ⟨h.prompt, h.capability, h.quota, h.calls, h.step, h.observations, h.pages⟩

lemma transition (h : Recorded b steps observed drafts b') (st : AgentState) (clock : ℕ → Time) :
    Recorded b steps observed drafts ((Write.transition st).apply clock b') := by
  rw [Write.apply, AgentControlBlock.transition_frame]
  exact ⟨h.prompt, h.capability, h.quota, h.calls, h.step, h.observations, h.pages⟩

end Recorded

/-- The statement that the block is `b` and that `m` calls were made. -/
def Is (b : AgentControlBlock) (m : ℕ) : AgentControlBlock → ℕ → Prop :=
  fun b' m' => b' = b ∧ m' = m

/-- The statement that the reply is recorded so far, and that `m` calls were made. -/
def Records (b : AgentControlBlock) (m steps : ℕ) (observed : List String)
    (drafts : List PageDraft) : AgentControlBlock → ℕ → Prop :=
  fun b' m' => Recorded b steps observed drafts b' ∧ b'.state = b.state ∧ m' = m

variable {m : ℕ}

lemma yields_append {α : Type} {d : PageDraft} {k : Unit → Prog KOp α} {Q : α → World n → Prop}
    (hk : Yields cfg out t (At p (Records b m steps observed (drafts ++ [d]))) (k ()) Q) :
    Yields cfg out t (At p (Records b m steps observed drafts))
      (Prog.perform (.write p (.appendPage d)) >>= k) Q :=
  yields_write (fun clock _ _ h => ⟨h.1.append d clock, h.2⟩) hk

lemma yields_whenAppends {c : Prop} [Decidable c] {d : PageDraft} :
    Yields cfg out t (At p (Records b m steps observed drafts))
      (Prog.when c (.perform (.write p (.appendPage d)))) fun _ =>
        At p (Records b m steps observed (drafts ++ if c then [d] else [])) := by
  by_cases hc : c
  · rw [Prog.when, if_pos hc, if_pos hc]
    exact yields_append (yields_ret fun _ h => h)
  · rw [Prog.when, if_neg hc, if_neg hc, List.append_nil]
    exact yields_ret fun _ h => h

/-- The part of a step after a call that returned. -/
lemma yields_finishReact (hlive : b.isTerminal = false) :
    Yields cfg out t (At p (Is b m)) (finishReact host p r) fun answer =>
      At p fun b' m' => Acted host r b b' answer ∧ m' = m := by
  refine yields_write (g := Records b m 0 [] []) ?_ ?_
  · rintro clock _ _ ⟨rfl, rfl⟩
    exact ⟨.count _ _ _, rfl, rfl⟩
  refine yields_read fun pcb m' hpcb => ?_
  have hzombie : pcb.state ≠ .zombie := by
    intro h
    rw [hpcb.2.1] at h
    rw [AgentControlBlock.isTerminal_of_zombie h] at hlive
    cases hlive
  have hstep : pcb.react.step = b.react.step := by simpa using hpcb.1.step
  rw [if_neg hzombie, hstep, hpcb.1.prompt]
  refine Prog.Ensures.bind _ yields_whenAppends fun _ => ?_
  refine yields_append ?_
  refine yields_write (g := Records b m 1 [] (promptPages b r ++ [replyPage r]))
    (fun clock _ _ h => ⟨h.1.countStep clock, h.2⟩) ?_
  unfold Acted
  cases parseAction host r.content with
  | final arg =>
    refine yields_write (g := fun b' m' =>
      Records b m 1 [] (promptPages b r ++ [replyPage r]) b' m' ∧ b'.result = some arg) ?_ ?_
    · exact fun clock _ _ h => ⟨⟨h.1.result arg clock, h.2⟩, rfl⟩
    · refine yields_write (g := fun b' m' => Recorded b 1 [] (promptPages b r ++ [replyPage r]) b' ∧
        b'.state = .done ∧ b'.result = some arg ∧ m' = m) ?_ ?_
      · rintro clock b' _ ⟨⟨hrec, hstate, rfl⟩, hresult⟩
        have hlive' : b'.isTerminal = false := by
          rw [AgentControlBlock.isTerminal, hstate]
          exact hlive
        refine ⟨hrec.transition .done clock, b'.state_transition_of_live .done _ hlive', ?_, rfl⟩
        rw [Write.apply, AgentControlBlock.transition_frame]
        exact hresult
      · exact yields_ret fun _ h => ⟨⟨rfl, h.1, h.2.1, h.2.2.1⟩, h.2.2.2⟩
  | tool name arg =>
    refine yields_write (g := Records b m 1 [s!"{name}({arg}) -> {useTool host name arg}"]
      (promptPages b r ++ [replyPage r])) ?_ ?_
    · exact fun clock _ _ h => ⟨h.1.observe _ clock, h.2⟩
    · refine yields_append (yields_ret fun w h => ?_)
      have hpages : promptPages b r ++ [replyPage r] ++
          [observationPage (useTool host name arg)] =
            promptPages b r ++ [replyPage r, observationPage (useTool host name arg)] := by
        rw [List.append_assoc]
        rfl
      exact ⟨⟨rfl, hpages ▸ h.1, h.2.1⟩, h.2.2⟩

/-! ### One step -/

/-- The books of the agent are as they were; its state, texts and pages may not be. -/
structure Kept (b b' : AgentControlBlock) : Prop where
  prompt : b'.prompt = b.prompt
  capability : b'.capability = b.capability
  quota : b'.quotaRemaining = b.quotaRemaining
  calls : b'.llmCallsUsed = b.llmCallsUsed
  react : b'.react = b.react

namespace Kept

lemma refl (b : AgentControlBlock) : Kept b b := ⟨rfl, rfl, rfl, rfl, rfl⟩

lemma trans {b₁ : AgentControlBlock} (h : Kept b b₁) (h' : Kept b₁ b') : Kept b b' :=
  ⟨h'.prompt.trans h.prompt, h'.capability.trans h.capability, h'.quota.trans h.quota,
    h'.calls.trans h.calls, h'.react.trans h.react⟩

lemma transition (b : AgentControlBlock) (st : AgentState) (now : Time) :
    Kept b (b.transition st now) := by
  rw [AgentControlBlock.transition_frame]
  exact ⟨rfl, rfl, rfl, rfl, rfl⟩

end Kept

/-- The agent may make a call. -/
structure MayCall (b : AgentControlBlock) : Prop where
  live : b.isTerminal = false
  quota : 0 < b.quotaRemaining
  step : (b.react.step : ℤ) < b.capability.maxToolCalls

/-- **One step** of an agent with the block `b` after `m` calls of the client, where
`Pages` is what becomes of the pages when the messages are assembled. -/
inductive ReactStep (host : Host) (chat : ℕ → Except Exn ChatResult)
    (Pages : List ContextPage → List ContextPage → Prop) (b : AgentControlBlock) (m : ℕ) :
    Except Exn Bool → AgentControlBlock → ℕ → Prop
  /-- The agent is done already. -/
  | dead (hdead : b.isTerminal = true) : ReactStep host chat Pages b m (.ok false) b m
  /-- There are no units or no steps left. -/
  | refused {b' : AgentControlBlock} (hlive : b.isTerminal = false)
      (hno : b.quotaRemaining ≤ 0 ∨ b.capability.maxToolCalls ≤ b.react.step) (hkept : Kept b b')
      (hpages : b'.contextPages = b.contextPages) (hstate : b'.state = .error) :
      ReactStep host chat Pages b m (.ok false) b' m
  /-- The call raises. -/
  | raised {b' : AgentControlBlock} {e : Exn} (hmay : MayCall b) (hchat : chat m = .error e)
      (hkept : Kept b b') (hpages : Pages b.contextPages b'.contextPages)
      (hdead : b'.isTerminal = true) : ReactStep host chat Pages b m (.ok false) b' (m + 1)
  /-- The call returns. -/
  | acted {b₁ b' : AgentControlBlock} {r : ChatResult} {answer : Except Exn Bool} (hmay : MayCall b)
      (hchat : chat m = .ok r) (hkept : Kept b b₁) (hpages : Pages b.contextPages b₁.contextPages)
      (hstate : b₁.state = .running) (hacted : Acted host r b₁ b' answer) :
      ReactStep host chat Pages b m answer b' (m + 1)

/-- Assembling the messages does not raise, makes no call, and does to the pages what
`Pages` says. -/
def Assembles (cfg : KernelConfig) (out : Outside) (t : Tid n) (p : Pid)
    (pager : Option ContextPager) (Pages : List ContextPage → List ContextPage → Prop) : Prop :=
  ∀ w : World n, ∃ messages w' pages,
    runs cfg out t (buildMessages pager p (w.pcbs p)) w = (.ok messages, w') ∧
      HasPages p w w' pages ∧ Pages (w.pcbs p).contextPages pages

variable (cfg out t p) in
lemma assembles_none : Assembles cfg out t p none Eq :=
  fun w => ⟨_, w, (w.pcbs p).contextPages, rfl, ⟨rfl, rfl⟩, rfl⟩

/-- The prompt, as long as it is not recorded. -/
def pending (b : AgentControlBlock) : Option String :=
  if b.react.step = 0 then some b.prompt else none

/-- The pages that the pager with the default policies keeps. -/
def keptPages (budget : ℤ) (b : AgentControlBlock) : List ContextPage :=
  lruLeft (budget - estimateTokens ((pending b).getD "")) 16 b.contextPages

variable (cfg out t p) in
/-- The messages with the default policies. -/
lemma runs_buildMessages_default (budget : ℤ) (metered : Bool) (w : World n) :
    ∃ w' pages, runs cfg out t
        (buildMessages (some ⟨budget, defaultPolicies metered⟩) p (w.pcbs p)) w =
          (.ok ({ role := .system, content := reactSystem } ::
            ((keptPages budget (w.pcbs p)).map pageMessage ++ extraMessage (pending (w.pcbs p)))),
            w') ∧
      HasPages p w w' pages ∧ pages.map ContextPage.forget =
        (keptPages budget (w.pcbs p)).map ContextPage.forget := by
  obtain ⟨w', pages, hrun, hhas, hforget⟩ :=
    runs_assemble_default cfg out t p budget metered (pending (w.pcbs p)) w
  refine ⟨w', pages, ?_, hhas, hforget⟩
  have hbuild : buildMessages (some ⟨budget, defaultPolicies metered⟩) p (w.pcbs p) =
      assemble ⟨budget, defaultPolicies metered⟩ p (pending (w.pcbs p)) >>= fun answer =>
        match answer with
        | .error e => .ret (.error e)
        | .ok messages => .ret (.ok ({ role := .system, content := reactSystem } :: messages)) := by
    refine congrArg (assemble _ p _ >>= ·) (funext fun answer => ?_)
    cases answer <;> rfl
  rw [hbuild, runs_bind, hrun]
  rfl

variable (cfg out t p) in
lemma assembles_default (budget : ℤ) (metered : Bool) :
    Assembles cfg out t p (some ⟨budget, defaultPolicies metered⟩)
      fun pages pages' => pages' = [] ↔ pages = [] := by
  intro w
  obtain ⟨w', pages, hrun, hhas, hforget⟩ :=
    runs_buildMessages_default cfg out t p budget metered w
  refine ⟨_, w', pages, hrun, hhas, ?_⟩
  have hempty : pages.map ContextPage.forget = [] ↔
      (keptPages budget (w.pcbs p)).map ContextPage.forget = [] := by rw [hforget]
  rw [List.map_eq_nil_iff, List.map_eq_nil_iff] at hempty
  exact hempty.trans (lruLeft_eq_nil_iff _ _ _)

variable {Pages : List ContextPage → List ContextPage → Prop} {pager : Option ContextPager}

/-- The block after `transition` and `error` of a live agent. -/
lemma yields_fails_kept {st : AgentState} {msg : String} (hlive : b.isTerminal = false) :
    Yields cfg out t (At p (Is b m)) (failWith p st msg) fun _ =>
      At p fun b' m' => Kept b b' ∧ b'.contextPages = b.contextPages ∧ b'.state = st ∧ m' = m := by
  unfold failWith
  refine yields_write (g := fun b' m' =>
    Kept b b' ∧ b'.contextPages = b.contextPages ∧ b'.state = st ∧ m' = m) ?_ ?_
  · rintro clock _ _ ⟨rfl, rfl⟩
    refine ⟨.transition .., ?_, AgentControlBlock.state_transition_of_live _ st _ hlive, rfl⟩
    rw [Write.apply, AgentControlBlock.transition_frame]
  · refine Prog.Ensures.perform (stable_nobody _) (fun _ => stable_nobody _) fun w h => ?_
    obtain ⟨hkept, hpages, hstate, hm⟩ := h
    simp only [At, World.exec, Function.update_self, Write.apply]
    exact ⟨⟨hkept.prompt, hkept.capability, hkept.quota, hkept.calls, hkept.react⟩, hpages, hstate,
      hm⟩

/-- The handlers around the call. -/
lemma yields_failWithExn_kept (e : Exn) (hlive : b.isTerminal = false) :
    Yields cfg out t (At p (Is b m)) (failWithExn p e) fun _ => At p fun b' m' =>
      Kept b b' ∧ b'.contextPages = b.contextPages ∧ b'.isTerminal = true ∧ m' = m := by
  have hdead : ∀ {st : AgentState} {b' : AgentControlBlock}, st.isTerminal = true →
      b'.state = st → b'.isTerminal = true := by
    rintro st b' hst rfl
    exact hst
  cases e with
  | timeout msg =>
    exact (yields_fails_kept hlive).conseq (fun _ h => h) fun _ _ h =>
      ⟨h.1, h.2.1, hdead rfl h.2.2.1, h.2.2.2⟩
  | other cls msg =>
    exact (yields_fails_kept hlive).conseq (fun _ h => h) fun _ _ h =>
      ⟨h.1, h.2.1, hdead rfl h.2.2.1, h.2.2.2⟩

lemma yields_chat_is {α : Type} {request : ChatRequest} {k : Except Exn ChatResult → Prog KOp α}
    {Q : α → World n → Prop}
    (hk : Yields cfg out t (At p (Is b (m + 1))) (k (out.chat m)) Q) :
    Yields cfg out t (At p (Is b m)) (Prog.perform (.chat .step request) >>= k) Q := by
  refine Prog.Ensures.step (fun r w => r = out.chat m ∧ At p (Is b (m + 1)) w) (stable_nobody _)
    (fun w h => ?_) fun r => ?_
  · obtain ⟨hr, hpcbs, hchats⟩ := exec_chat cfg out t request w
    obtain ⟨hblock, hm⟩ := h
    unfold At Is
    rw [hr, hpcbs, hchats, hm]
    exact ⟨rfl, hblock, rfl⟩
  · rintro w a w' ⟨rfl, hw⟩ hrun
    exact hk w a w' hw hrun

/-- What follows the call. -/
lemma yields_reactReply {b₀ : AgentControlBlock} (hmay : MayCall b₀) (hkept : Kept b₀ b)
    (hpages : Pages b₀.contextPages b.contextPages) (hstate : b.state = .running) :
    Yields cfg out t (At p (Is b (m + 1))) (reactReply host p (out.chat m)) fun answer =>
      At p (ReactStep host out.chat Pages b₀ m answer) := by
  have hlive : b.isTerminal = false := by
    rw [AgentControlBlock.isTerminal, hstate]
    rfl
  cases hchat : out.chat m with
  | error e =>
    refine Prog.Ensures.bind _ (yields_failWithExn_kept e hlive) fun _ => yields_ret fun w h => ?_
    obtain ⟨hfail, hsame, hdead, hm⟩ := h
    unfold At
    rw [hm]
    exact .raised hmay hchat (hkept.trans hfail) (hsame ▸ hpages) hdead
  | ok r =>
    refine (yields_finishReact hlive).conseq (fun _ h => h) fun answer w h => ?_
    obtain ⟨hacted, hm⟩ := h
    unfold At
    rw [hm]
    exact .acted hmay hchat hkept hpages hstate hacted

/-- The call and what follows it. -/
lemma yields_reactCallWith {b₀ : AgentControlBlock}
    (hassembles : Assembles cfg out t p pager Pages) (hmay : MayCall b₀) (hkept : Kept b₀ b)
    (hsame : b.contextPages = b₀.contextPages) (hstate : b.state = .running) :
    Yields cfg out t (At p (Is b m)) (reactCallWith pager host p) fun answer =>
      At p (ReactStep host out.chat Pages b₀ m answer) := by
  have hmessages : Yields cfg out t (At p (Is b m)) (buildMessages pager p b) fun answer w =>
      ∃ messages pages, answer = .ok messages ∧ Pages b.contextPages pages ∧
        At p (Is { b with contextPages := pages } m) w := by
    refine Prog.ensures_alone fun w hw => ?_
    obtain ⟨hblock, hm⟩ := hw
    obtain ⟨messages, w', pages, hrun, ⟨hchats, hhas⟩, hpages⟩ := hassembles w
    rw [hblock] at hrun hhas hpages
    change ∃ messages pages, (runs cfg out t _ w).1 = _ ∧ _ ∧ At p _ (runs cfg out t _ w).2
    rw [hrun]
    exact ⟨messages, pages, rfl, hpages, hhas, hchats.trans hm⟩
  refine yields_read fun pcb m' hpcb => ?_
  obtain ⟨rfl, rfl⟩ := hpcb
  refine Prog.Ensures.bind _ hmessages ?_
  rintro answer w a w' ⟨messages, pages, rfl, hpages, hw⟩ hrun
  have hkept' : Kept b₀ { pcb with contextPages := pages } :=
    ⟨hkept.prompt, hkept.capability, hkept.quota, hkept.calls, hkept.react⟩
  exact yields_chat_is (yields_reactReply hmay hkept' (hsame ▸ hpages) hstate) w a w' hw hrun

/-- A live agent starts to run. -/
lemma yields_enterRunning_kept (hlive : b.isTerminal = false) :
    Yields cfg out t (At p (Is b m)) (enterRunning p) fun _ => At p fun b' m' =>
      (Kept b b' ∧ b'.contextPages = b.contextPages ∧ b'.state = .running) ∧ m' = m := by
  refine yields_read fun pcb m' hpcb => ?_
  obtain ⟨rfl, rfl⟩ := hpcb
  split
  · next hrunning =>
    refine yields_ret fun w h => ?_
    obtain ⟨hblock, hm⟩ := h
    unfold At
    rw [hblock, hm]
    exact ⟨⟨.refl _, rfl, hrunning⟩, rfl⟩
  · refine Prog.Ensures.perform (stable_nobody _) (fun _ => stable_nobody _) fun w h => ?_
    obtain ⟨hblock, hm⟩ := h
    simp only [At, World.exec, Function.update_self, Write.apply, hblock]
    refine ⟨⟨.transition .., ?_, pcb.state_transition_of_live .running _ hlive⟩, hm⟩
    rw [AgentControlBlock.transition_frame]

lemma yields_runReactStepWith (hassembles : Assembles cfg out t p pager Pages) :
    Yields cfg out t (At p (Is b m)) (runReactStepWith pager host p) fun answer =>
      At p (ReactStep host out.chat Pages b m answer) := by
  refine yields_read fun pcb m' hpcb => ?_
  obtain ⟨rfl, rfl⟩ := hpcb
  by_cases hdead : pcb.isTerminal = true
  · rw [if_pos hdead]
    refine yields_ret fun w h => ?_
    obtain ⟨hblock, hm⟩ := h
    unfold At
    rw [hblock, hm]
    exact .dead hdead
  rw [if_neg hdead]
  have hlive : pcb.isTerminal = false := Bool.eq_false_iff.2 hdead
  have hrefused {msg : String}
      (hno : pcb.quotaRemaining ≤ 0 ∨ pcb.capability.maxToolCalls ≤ pcb.react.step) :
      Yields cfg out t (At p (Is pcb m')) (failWith p .error msg >>= fun _ => .ret (.ok false))
        fun answer => At p (ReactStep host out.chat Pages pcb m' answer) := by
    refine Prog.Ensures.bind _ (yields_fails_kept hlive) fun _ => yields_ret fun w h => ?_
    obtain ⟨hkept, hpages, hstate, hm⟩ := h
    unfold At
    rw [hm]
    exact .refused hlive hno hkept hpages hstate
  by_cases hquota : pcb.quotaRemaining ≤ 0
  · rw [if_pos hquota]
    exact hrefused (.inl hquota)
  rw [if_neg hquota]
  by_cases hstep : pcb.capability.maxToolCalls ≤ pcb.react.step
  · rw [if_pos hstep]
    exact hrefused (.inr hstep)
  rw [if_neg hstep]
  have hmay : MayCall pcb := ⟨hlive, not_le.1 hquota, not_le.1 hstep⟩
  refine Prog.Ensures.bind _ (yields_enterRunning_kept hlive) fun _ => ?_
  intro w a w' hw hrun
  obtain ⟨⟨hkept, hpages, hstate⟩, hm⟩ := hw
  exact yields_reactCallWith hassembles hmay hkept hpages hstate w a w' ⟨rfl, hm⟩ hrun

variable (cfg out t p host pager)

/-- What a call of `run_react_step` answers and leaves. -/
def stepOnce (w : World n) : Except Exn Bool × World n :=
  runs cfg out t (runReactStepWith pager host p) w

/-- The world after `j` calls of `run_react_step`. -/
def drive (j : ℕ) (w : World n) : World n :=
  (fun w => (stepOnce cfg out t p host pager w).2)^[j] w

/-- What the call after `j` calls answers. -/
def answerAt (j : ℕ) (w : World n) : Except Exn Bool :=
  (stepOnce cfg out t p host pager (drive cfg out t p host pager j w)).1

lemma drive_succ (j : ℕ) (w : World n) :
    drive cfg out t p host pager (j + 1) w =
      (stepOnce cfg out t p host pager (drive cfg out t p host pager j w)).2 :=
  Function.iterate_succ_apply' ..

variable {cfg out t p pager}

/-- What `ReactStep` says is what a call does. -/
lemma reactStep_stepOnce (hassembles : Assembles cfg out t p pager Pages) (w : World n) :
    ReactStep host out.chat Pages (w.pcbs p) w.chats (stepOnce cfg out t p host pager w).1
      ((stepOnce cfg out t p host pager w).2.pcbs p) (stepOnce cfg out t p host pager w).2.chats :=
  Prog.Ensures.alone (yields_runReactStepWith hassembles) ⟨rfl, rfl⟩

/-- A call on a terminal agent changes nothing. -/
lemma stepOnce_of_isTerminal {w : World n} (hdead : (w.pcbs p).isTerminal = true) :
    stepOnce cfg out t p host pager w = (.ok false, w) := by
  have hread : ∀ look, World.exec cfg out t (.readPcb p look) w = (w.pcbs p, w) := fun _ => rfl
  simp only [stepOnce, runReactStepWith, Prog.perform_bind, runs_op, hread, if_pos hdead]
  rfl

end

end Gcos.Exec
