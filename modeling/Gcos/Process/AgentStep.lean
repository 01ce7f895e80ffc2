import Gcos.Process.Dispatch
import Gcos.Memory.Collapse

/-!
# One step of an agent that nobody disturbs

What `run_step` does in a child process.  A step either goes on (a multi-step agent with
units left and tool calls left whose reply asks for a tool) or is the last one, and the
last one leaves a terminal state or an exception.
-/

namespace Gcos.Process

open Lib Exec Memory World

/-! ### Running alone -/

section

variable {n : ℕ}

/-- Nobody moves. -/
def Nobody (_ _ : World n) : Prop := False

lemma stable_nobody (P : World n → Prop) : Prog.Stable Nobody P := fun _ _ h => h.elim

/-- What a kernel program ensures when nobody else moves. -/
def Yields {α : Type} (cfg : KernelConfig) (out : Outside) (t : Tid n) (P : World n → Prop)
    (prog : Prog KOp α) (Q : α → World n → Prop) : Prop :=
  Prog.Ensures (World.exec cfg out) t Nobody System.noGuard P prog Q

end

variable {n : ℕ} {cfg : KernelConfig} {out : Outside} {t : Tid n} {p : Pid}

/-- A statement about the agent's block and the number of calls so far. -/
def At (p : Pid) (f : AgentControlBlock → ℕ → Prop) (w : World n) : Prop := f (w.pcbs p) w.chats

section

variable {α : Type} {f g : AgentControlBlock → ℕ → Prop} {Q : α → World n → Prop}

lemma yields_ret {P : World n → Prop} {a : α} (h : ∀ w, P w → Q a w) :
    Yields cfg out t P (.ret a) Q :=
  Prog.ensures_ret (stable_nobody _) h

/-- Reading the block: what is known of it is known of the answer. -/
lemma yields_read {look : Look} {k : AgentControlBlock → Prog KOp α}
    (hk : ∀ pcb m, f pcb m → Yields cfg out t (At p f) (k pcb) Q) :
    Yields cfg out t (At p f) (Prog.perform (.readPcb p look) >>= k) Q := by
  refine Prog.Ensures.step (fun pcb w => At p f w ∧ pcb = w.pcbs p) (stable_nobody _)
    (fun _ h => ⟨h, rfl⟩) fun pcb => ?_
  rintro w a w' ⟨hw, rfl⟩ hrun
  exact hk _ _ hw w a w' hw hrun

/-- Writing the block. -/
lemma yields_write {c : Write} {k : Unit → Prog KOp α}
    (hc : ∀ clock b m, f b m → g (c.apply clock b) m)
    (hk : Yields cfg out t (At p g) (k ()) Q) :
    Yields cfg out t (At p f) (Prog.perform (.write p c) >>= k) Q := by
  refine Prog.Ensures.step (fun _ => At p g) (stable_nobody _) (fun w h => ?_) fun _ => hk
  have hw := hc (w.clockFrom out) _ _ h
  unfold At
  cases c <;> simpa [World.exec, World.note] using hw

/-- Programs that leave the statement alone. -/
lemma yields_keep {prog : Prog KOp Unit} {k : Unit → Prog KOp α}
    (hprog : Yields cfg out t (At p f) prog fun _ => At p f)
    (hk : Yields cfg out t (At p f) (k ()) Q) : Yields cfg out t (At p f) (prog >>= k) Q :=
  Prog.Ensures.bind (fun _ => At p f) hprog fun _ => hk

end

/-! ### Texts -/

/-- A text with a character that `quotaExhausted` does not have is another text. -/
lemma ne_quotaExhausted {text : String} (c : Char) (hc : c ∈ text.toList)
    (hno : c ∉ quotaExhausted.toList) : text ≠ quotaExhausted := by
  rintro rfl
  exact hno hc

/-! ### One step -/

/-- The reply asks for a tool. -/
def asksTool (host : Host) : Except Exn ChatResult → Bool
  | .error _ => false
  | .ok r =>
    match parseAction host r.content with
    | .tool _ _ => true
    | .final _ => false

/-- The agent gave up because its own quota was exhausted. -/
def Exhausted (pcb : AgentControlBlock) : Prop :=
  pcb.state = .error ∧ pcb.error = some quotaExhausted

/-- Where a live agent stands: its capability, the units and the calls it has left and
made, its step, and the number of calls of the client. -/
structure Stands (cap : CapabilitySet) (units calls : ℤ) (step m : ℕ) (b : AgentControlBlock)
    (chats : ℕ) : Prop where
  live : b.isTerminal = false
  error : b.error = none
  capability : b.capability = cap
  units : b.quotaRemaining = units
  calls : b.llmCallsUsed = calls
  step : b.react.step = step
  chats : chats = m

/-- The step of an agent that stands so goes on. -/
def GoesOn (cfg : KernelConfig) (out : Outside) (cap : CapabilitySet) (units : ℤ) (step m : ℕ) :
    Prop :=
  cap.multiStep = true ∧ 0 < units ∧ (step : ℤ) < cap.maxToolCalls ∧
    asksTool cfg.host (out.chat m) = true

/-- The agent is done, and says that its quota is exhausted only if that is so. -/
structure Ended (cap : CapabilitySet) (units calls : ℤ) (b : AgentControlBlock) : Prop where
  terminal : b.isTerminal = true
  honest : Exhausted b → units ≤ 0 ∧ b.llmCallsUsed = calls
  exhausted : cap.multiStep = true → units ≤ 0 → Exhausted b

/-- What one step of an agent leads to. -/
def StepLeads (cfg : KernelConfig) (out : Outside) (p : Pid) (cap : CapabilitySet)
    (units calls : ℤ) (step m : ℕ) (answer : Except Exn Bool) (w : World n) : Prop :=
  match answer with
  | .ok true =>
    GoesOn cfg out cap units step m ∧
      At p (Stands cap (units - 1) (calls + 1) (step + 1) (m + 1)) w
  | .ok false =>
    ¬GoesOn cfg out cap units step m ∧ At p (fun b _ => Ended cap units calls b) w
  | .error _ => ¬GoesOn cfg out cap units step m ∧ 0 < units

section

variable {cap : CapabilitySet} {units calls : ℤ} {step m : ℕ} {b : AgentControlBlock} {chats : ℕ}
  {budget : ℤ} {α : Type} {Q : α → World n → Prop}

namespace Stands

lemma pages (h : Stands cap units calls step m b chats) (pages : List ContextPage) :
    Stands cap units calls step m { b with contextPages := pages } chats :=
  ⟨h.live, h.error, h.capability, h.units, h.calls, h.step, h.chats⟩

lemma result (h : Stands cap units calls step m b chats) (text : String) :
    Stands cap units calls step m { b with result := some text } chats :=
  ⟨h.live, h.error, h.capability, h.units, h.calls, h.step, h.chats⟩

lemma running (h : Stands cap units calls step m b chats) (now : Time) :
    Stands cap units calls step m (b.transition .running now) chats := by
  have hlive : (b.transition .running now).isTerminal = false := by
    rw [AgentControlBlock.isTerminal_transition, h.live]
    rfl
  rw [AgentControlBlock.transition_frame] at hlive ⊢
  exact ⟨hlive, h.error, h.capability, h.units, h.calls, h.step, h.chats⟩

lemma state_ne_zombie (h : Stands cap units calls step m b chats) : b.state ≠ .zombie := by
  intro hst
  have hlive := h.live
  rw [AgentControlBlock.isTerminal, hst] at hlive
  cases hlive

end Stands

/-- The block after `transition` and `error` of a live agent. -/
lemma yields_failWith {st : AgentState} {msg : String} :
    Yields cfg out t (At p (Stands cap units calls step m)) (failWith p st msg) fun _ =>
      At p fun b _ => b.state = st ∧ b.error = some msg ∧ b.llmCallsUsed = calls := by
  unfold failWith
  refine yields_write (g := fun b _ => b.state = st ∧ b.llmCallsUsed = calls) ?_ ?_
  · intro clock b chats h
    refine ⟨b.state_transition_of_live st _ h.live, ?_⟩
    rw [Write.apply, AgentControlBlock.transition_llmCallsUsed]
    exact h.calls
  · refine Prog.Ensures.perform (stable_nobody _) (fun _ => stable_nobody _) ?_
    intro w h
    simpa [At, World.exec, Write.apply] using h

/-- The end of a step that fails with a text of its own. -/
lemma yields_fails {st : AgentState} {msg : String} (hst : st.isTerminal = true)
    (hmsg : st = .error → msg ≠ quotaExhausted) (hno : ¬GoesOn cfg out cap units step m)
    (hunits : cap.multiStep = true → 0 < units) {prog : Prog KOp Unit}
    (hprog : Yields cfg out t (At p (Stands cap units calls step m)) prog fun _ =>
      At p fun b _ => b.state = st ∧ b.error = some msg) :
    Yields cfg out t (At p (Stands cap units calls step m)) (prog >>= fun _ => .ret (.ok false))
      (StepLeads cfg out p cap units calls step m) := by
  refine Prog.Ensures.bind _ hprog fun _ => yields_ret fun w h => ⟨hno, ?_⟩
  obtain ⟨hstate, herror⟩ := h
  refine ⟨?_, fun hex => ?_, fun hmulti hle => absurd hle (not_le.2 (hunits hmulti))⟩
  · rw [AgentControlBlock.isTerminal, hstate, hst]
  · have hmsg' := hmsg (hstate.symm.trans hex.1)
    rw [hex.2] at herror
    exact absurd (Option.some.inj herror).symm hmsg'

/-- The end of a step of an agent without units. -/
lemma yields_exhausted (hunits : units ≤ 0) :
    Yields cfg out t (At p (Stands cap units calls step m))
      (failWith p .error quotaExhausted >>= fun _ => .ret (.ok false))
      (StepLeads cfg out p cap units calls step m) := by
  refine Prog.Ensures.bind _ yields_failWith fun _ => yields_ret fun w h => ⟨?_, ?_⟩
  · rintro ⟨-, hpos, -⟩
    exact absurd hunits (not_le.2 hpos)
  · obtain ⟨hstate, herror, hcalls⟩ := h
    refine ⟨?_, fun _ => ⟨hunits, hcalls⟩, fun _ _ => ⟨hstate, herror⟩⟩
    rw [AgentControlBlock.isTerminal, hstate]
    rfl

/-- Assembling the messages changes nothing that matters here. -/
lemma yields_assemble {extra : Option String}
    {k : Except Exn (List ChatMessage) → Prog KOp α}
    (hk : ∀ messages,
      Yields cfg out t (At p (Stands cap units calls step m)) (k (.ok messages)) Q) :
    Yields cfg out t (At p (Stands cap units calls step m))
      (assemble ⟨budget, defaultPolicies true⟩ p extra >>= k) Q := by
  refine Prog.Ensures.bind
    (fun answer w => (∃ messages, answer = .ok messages) ∧ At p (Stands cap units calls step m) w)
    ?_ fun answer => ?_
  · refine Prog.ensures_alone fun w hw => ?_
    obtain ⟨messages, w', hrun, hchats, pages, hpages⟩ :=
      assemble_default_answers cfg out t p w budget true extra
    change (∃ messages, (runs cfg out t _ w).1 = _) ∧ At p _ (runs cfg out t _ w).2
    rw [hrun]
    refine ⟨⟨messages, rfl⟩, ?_⟩
    unfold At
    rw [hpages, hchats]
    exact hw.pages pages
  · rintro w a w' ⟨⟨messages, rfl⟩, hw⟩ hrun
    exact hk messages w a w' hw hrun

lemma exec_chat (cfg : KernelConfig) (out : Outside) (t : Tid n) (request : ChatRequest)
    (w : World n) :
    (World.exec cfg out t (.chat .step request) w).1 = out.chat w.chats ∧
      (World.exec cfg out t (.chat .step request) w).2.pcbs = w.pcbs ∧
      (World.exec cfg out t (.chat .step request) w).2.chats = w.chats + 1 := by
  simp only [World.exec]
  cases out.chat w.chats <;> exact ⟨rfl, rfl, rfl⟩

/-- A call of the client. -/
lemma yields_chat {request : ChatRequest} {k : Except Exn ChatResult → Prog KOp α}
    (hk : ∀ r, r = out.chat m →
      Yields cfg out t (At p (Stands cap units calls step (m + 1))) (k r) Q) :
    Yields cfg out t (At p (Stands cap units calls step m))
      (Prog.perform (.chat .step request) >>= k) Q := by
  refine Prog.Ensures.step
    (fun r w => r = out.chat m ∧ At p (Stands cap units calls step (m + 1)) w) (stable_nobody _)
    (fun w h => ?_) fun r => ?_
  · obtain ⟨hr, hpcbs, hchats⟩ := exec_chat cfg out t request w
    have hm : w.chats = m := h.chats
    unfold At
    rw [hr, hpcbs, hchats, hm]
    exact ⟨rfl, h.live, h.error, h.capability, h.units, h.calls, h.step, rfl⟩
  · rintro w a w' ⟨hr, hw⟩ hrun
    exact hk r hr w a w' hw hrun

/-- The end of a step that has nothing to say about the quota. -/
lemma yields_closes {f : AgentControlBlock → ℕ → Prop} {st : AgentState}
    (hst : st.isTerminal = true) (hno : ¬GoesOn cfg out cap units step m) (hunits : 0 < units)
    (hf : ∀ b chats, f b chats → b.isTerminal = false ∧
      (st = .error → b.error ≠ some quotaExhausted)) :
    Yields cfg out t (At p f)
      (Prog.perform (.write p (.transition st)) >>= fun _ => .ret (.ok false))
      (StepLeads cfg out p cap units calls step m) := by
  refine yields_write (g := fun b _ => Ended cap units calls b) ?_ (yields_ret fun w h => ⟨hno, h⟩)
  intro clock b chats h
  obtain ⟨hlive, herror⟩ := hf b chats h
  have hstate : (b.transition st (clock 0)).state = st := b.state_transition_of_live st _ hlive
  refine ⟨?_, fun hex => ?_, fun _ hle => absurd hle (not_le.2 hunits)⟩
  · rw [Write.apply, AgentControlBlock.isTerminal_transition, hst, Bool.or_true]
  · have hst' : st = .error := hstate.symm.trans hex.1
    have htext : (b.transition st (clock 0)).error = some quotaExhausted := hex.2
    rw [AgentControlBlock.transition_frame] at htext
    exact absurd htext (herror hst')

/-- Counting a call. -/
lemma Stands.count (h : Stands cap units calls step m b chats) (clock : ℕ → Time) (tokens : ℤ) :
    Stands cap (units - 1) (calls + 1) step m ((Write.countCall tokens).apply clock b) chats :=
  ⟨h.live, h.error, h.capability, by rw [← h.units]; rfl, by rw [← h.calls]; rfl, h.step, h.chats⟩

lemma yields_enterRunning :
    Yields cfg out t (At p (Stands cap units calls step m)) (enterRunning p) fun _ =>
      At p (Stands cap units calls step m) := by
  refine yields_read fun pcb _ _ => ?_
  split
  · exact yields_ret fun _ h => h
  · refine Prog.Ensures.perform (stable_nobody _) (fun _ => stable_nobody _) fun w h => ?_
    simpa [At, World.exec, Write.apply] using h.running _

/-- A page that is appended under a condition. -/
lemma yields_whenAppend {c : Prop} [Decidable c] {draft : PageDraft} :
    Yields cfg out t (At p (Stands cap units calls step m))
      (Prog.when c (.perform (.write p (.appendPage draft)))) fun _ =>
        At p (Stands cap units calls step m) := by
  refine Prog.ensures_when (stable_nobody _) (fun _ => ?_) fun _ _ h => h
  refine Prog.Ensures.perform (stable_nobody _) (fun _ => stable_nobody _) fun w h => ?_
  simpa [At, World.exec, Write.apply] using h.pages _

/-- The handlers of an exception that the client raises. -/
lemma yields_failWithExn (e : Exn) (hno : ¬GoesOn cfg out cap units step m) (hunits : 0 < units)
    {m' : ℕ} :
    Yields cfg out t (At p (Stands cap units calls step m'))
      (failWithExn p e >>= fun _ => .ret (.ok false))
      (StepLeads cfg out p cap units calls step m) := by
  refine Prog.Ensures.bind
    (fun _ => At p fun b _ => b.isTerminal = true ∧ ¬Exhausted b) ?_ fun _ => ?_
  · cases e with
    | timeout msg =>
      refine yields_failWith.conseq (fun _ h => h) fun _ w h => ?_
      obtain ⟨hstate, -⟩ := h
      refine ⟨by rw [AgentControlBlock.isTerminal, hstate]; rfl, fun hex => ?_⟩
      rw [hex.1] at hstate
      cases hstate
    | other cls msg =>
      refine yields_failWith.conseq (fun _ h => h) fun _ w h => ?_
      obtain ⟨hstate, herror, -⟩ := h
      refine ⟨by rw [AgentControlBlock.isTerminal, hstate]; rfl, fun hex => ?_⟩
      rw [hex.2] at herror
      refine ne_quotaExhausted ':' ?_ (by decide) (Option.some.inj herror).symm
      simp
  · refine yields_ret fun w h => ⟨hno, h.1, fun hex => absurd hex h.2, fun _ hle => ?_⟩
    exact absurd hle (not_le.2 hunits)

/-! ### The three kinds of steps -/

/-- Only multi-step agents go on. -/
lemma not_goesOn (hmulti : cap.multiStep = false) : ¬GoesOn cfg out cap units step m := by
  intro h
  have htrue := h.1
  rw [hmulti] at htrue
  cases htrue

lemma yields_finishPlain {r : ChatResult} (hmulti : cap.multiStep = false) (hunits : 0 < units) :
    Yields cfg out t (At p (Stands cap units calls step (m + 1))) (finishPlain p r)
      (StepLeads cfg out p cap units calls step m) := by
  refine yields_write (fun clock b _ h => h.count clock _) ?_
  refine yields_read fun pcb _ hpcb => ?_
  rw [if_neg hpcb.state_ne_zombie]
  refine yields_write (fun clock b _ h => h.result _) ?_
  refine yields_keep yields_whenAppend ?_
  refine yields_write (fun clock b _ h => h.pages _) ?_
  exact yields_closes rfl (not_goesOn hmulti) hunits fun b _ h => ⟨h.live, by simp⟩

lemma yields_plainCall (hpager : cfg.pager = ⟨budget, defaultPolicies true⟩) :
    Yields cfg out t (At p (Stands cap units calls step m)) (plainCall cfg p) fun r w =>
      r = out.chat m ∧ At p (Stands cap units calls step (m + 1)) w := by
  refine yields_read fun pcb _ _ => ?_
  rw [hpager]
  refine yields_assemble fun messages => ?_
  refine yields_chat (k := fun r => .ret r) fun r hr => ?_
  exact yields_ret fun w h => ⟨hr, h⟩

lemma yields_runPlainStep (hpager : cfg.pager = ⟨budget, defaultPolicies true⟩)
    (hmulti : cap.multiStep = false) :
    Yields cfg out t (At p (Stands cap units calls step m)) (runPlainStep cfg p)
      (StepLeads cfg out p cap units calls step m) := by
  refine yields_read fun pcb _ hpcb => ?_
  rw [if_neg (by rw [hpcb.live]; exact Bool.false_ne_true), hpcb.units]
  split
  · next hle => exact yields_exhausted hle
  · next hpos =>
    have hunits : 0 < units := not_le.1 hpos
    refine yields_keep yields_enterRunning ?_
    refine Prog.Ensures.bind _ (yields_plainCall hpager) ?_
    rintro (e | r) w a w' ⟨-, hw⟩ hrun
    · exact yields_failWithExn e (not_goesOn hmulti) hunits w a w' hw hrun
    · exact yields_finishPlain hmulti hunits w a w' hw hrun

lemma Stands.countStep (h : Stands cap units calls step m b chats) :
    Stands cap units calls (step + 1) m
      { b with react := { b.react with step := b.react.step + 1 } } chats :=
  ⟨h.live, h.error, h.capability, h.units, h.calls, by rw [← h.step], h.chats⟩

lemma Stands.observe (h : Stands cap units calls step m b chats) (text : String) :
    Stands cap units calls step m
      { b with react := { b.react with observations := b.react.observations ++ [text] } } chats :=
  ⟨h.live, h.error, h.capability, h.units, h.calls, h.step, h.chats⟩

lemma yields_finishReact {r : ChatResult} (hr : out.chat m = .ok r) (hunits : 0 < units)
    (hmulti : cap.multiStep = true) (hstep : (step : ℤ) < cap.maxToolCalls) :
    Yields cfg out t (At p (Stands cap units calls step (m + 1))) (finishReact cfg.host p r)
      (StepLeads cfg out p cap units calls step m) := by
  refine yields_write (fun clock b _ h => h.count clock _) ?_
  refine yields_read fun pcb _ hpcb => ?_
  rw [if_neg hpcb.state_ne_zombie]
  refine yields_keep yields_whenAppend ?_
  refine yields_write (fun clock b _ h => h.pages _) ?_
  refine yields_write (fun clock b _ h => h.countStep) ?_
  cases hact : parseAction cfg.host r.content with
  -- what the reply asks for decides whether the step goes on
  | final arg =>
    have hno : ¬GoesOn cfg out cap units step m := by
      rintro ⟨-, -, -, hasks⟩
      rw [hr, asksTool, hact] at hasks
      cases hasks
    refine yields_write (fun clock b _ h => h.result _) ?_
    exact yields_closes rfl hno hunits fun b _ h => ⟨h.live, by simp⟩
  | tool name arg =>
    have hgoes : GoesOn cfg out cap units step m := by
      refine ⟨hmulti, hunits, hstep, ?_⟩
      rw [hr, asksTool, hact]
    refine yields_write (fun clock b _ h => h.observe _) ?_
    refine yields_write (fun clock b _ h => h.pages _) ?_
    exact yields_ret fun w h => ⟨hgoes, h⟩

lemma yields_reactCall (hpager : cfg.pager = ⟨budget, defaultPolicies true⟩) (hunits : 0 < units)
    (hmulti : cap.multiStep = true) (hstep : (step : ℤ) < cap.maxToolCalls) :
    Yields cfg out t (At p (Stands cap units calls step m)) (reactCall cfg p)
      (StepLeads cfg out p cap units calls step m) := by
  refine yields_read fun pcb _ _ => ?_
  rw [hpager]
  refine yields_assemble fun messages => ?_
  refine yields_chat fun r hr => ?_
  cases r with
  | error e =>
    -- a call that raised has no reply that could ask for a tool
    refine yields_failWithExn e ?_ hunits
    rintro ⟨-, -, -, hasks⟩
    rw [← hr] at hasks
    cases hasks
  | ok r => exact yields_finishReact hr.symm hunits hmulti hstep

lemma yields_runReactStep (hpager : cfg.pager = ⟨budget, defaultPolicies true⟩)
    (hmulti : cap.multiStep = true) :
    Yields cfg out t (At p (Stands cap units calls step m)) (runReactStep cfg p)
      (StepLeads cfg out p cap units calls step m) := by
  refine yields_read fun pcb _ hpcb => ?_
  rw [if_neg (by rw [hpcb.live]; exact Bool.false_ne_true), hpcb.units, hpcb.capability, hpcb.step]
  split
  · next hle => exact yields_exhausted hle
  · next hpos =>
    have hunits : 0 < units := not_le.1 hpos
    split
    · next hmax =>
      -- too many tool calls: the text of this error is another one
      refine yields_fails rfl (fun _ => ?_) ?_ (fun _ => hunits)
        (yields_failWith.conseq (fun _ h => h) fun _ _ h => ⟨h.1, h.2.1⟩)
      · refine ne_quotaExhausted '=' ?_ (by decide)
        rw [String.toList_append]
        exact List.mem_append_left _ (by decide)
      · rintro ⟨-, -, hlt, -⟩
        exact absurd hmax (not_le.2 hlt)
    · next hmax =>
      refine yields_keep yields_enterRunning ?_
      exact yields_reactCall hpager hunits hmulti (not_le.1 hmax)

lemma yields_ensureCoderSystemPinned :
    Yields cfg out t (At p (Stands cap units calls step m)) (ensureCoderSystemPinned p) fun _ =>
      At p (Stands cap units calls step m) := by
  refine yields_read fun pcb _ _ => ?_
  split
  · exact yields_ret fun _ h => h
  · refine Prog.Ensures.perform (stable_nobody _) (fun _ => stable_nobody _) fun w h => ?_
    simpa [At, World.exec, Write.apply] using h.pages _

/-- The texts of the coder have a colon. -/
lemma Stands.withError (h : Stands cap units calls step m b chats) {text : String}
    (htext : ':' ∈ text.toList) :
    ({ b with error := some text } : AgentControlBlock).isTerminal = false ∧
      (AgentState.error = .error → some text ≠ some quotaExhausted) :=
  ⟨h.live, fun _ heq => ne_quotaExhausted ':' htext (by decide) (Option.some.inj heq)⟩

lemma yields_runSandbox {pcb : AgentControlBlock} {reply code : String} {units' calls' : ℤ}
    {m' : ℕ} (hmulti : cap.multiStep = false) (hunits : 0 < units) :
    Yields cfg out t (At p (Stands cap units' calls' step m')) (runSandbox p pcb reply code)
      (StepLeads cfg out p cap units calls step m) := by
  refine Prog.Ensures.step (fun _ => At p (Stands cap units' calls' step m')) (stable_nobody _)
    (fun w h => h) ?_
  rintro (e | r)
  · exact yields_ret fun w _ => ⟨not_goesOn hmulti, hunits⟩
  · refine yields_write (fun clock b _ h => h.result _) ?_
    split
    · exact yields_closes rfl (not_goesOn hmulti) hunits fun b _ h => ⟨h.live, by simp⟩
    · refine yields_write (g := fun b _ => b.isTerminal = false ∧
        (AgentState.error = .error → b.error ≠ some quotaExhausted)) ?_ ?_
      · intro clock b _ h
        refine h.withError ?_
        rw [String.toList_append]
        exact List.mem_append_left _ (by decide)
      · exact yields_closes rfl (not_goesOn hmulti) hunits fun b _ h => h

lemma yields_finishCoder {r : ChatResult} (hmulti : cap.multiStep = false) (hunits : 0 < units) :
    Yields cfg out t (At p (Stands cap units calls step (m + 1))) (finishCoder cfg.host p r)
      (StepLeads cfg out p cap units calls step m) := by
  have hdone : ∀ text : String, Yields cfg out t
      (At p (Stands cap (units - 1) (calls + 1) step (m + 1)))
      (Prog.perform (.write p (.result text)) >>= fun _ =>
        Prog.perform (.write p (.transition .done)) >>= fun _ => .ret (.ok false))
      (StepLeads cfg out p cap units calls step m) := by
    intro text
    refine yields_write (fun clock b _ h => h.result _) ?_
    exact yields_closes rfl (not_goesOn hmulti) hunits fun b _ h => ⟨h.live, by simp⟩
  refine yields_write (fun clock b _ h => h.count clock _) ?_
  refine yields_read fun pcb _ hpcb => ?_
  rw [if_neg hpcb.state_ne_zombie]
  refine yields_keep yields_whenAppend ?_
  refine yields_write (fun clock b _ h => h.pages _) ?_
  cases cfg.host.extractPython r.content with
  | none => exact hdone _
  | some code =>
    simp only
    split
    · exact hdone _
    · split
      · exact hdone _
      · cases cfg.host.scanCode code with
        | none => exact yields_runSandbox hmulti hunits
        | some d =>
          refine yields_write (g := fun b _ => b.isTerminal = false ∧
            (AgentState.error = .error → b.error ≠ some quotaExhausted)) ?_ ?_
          · intro clock b _ h
            refine h.withError ?_
            have hcolon : ':' ∈ (toString "policy_gate.code: ").toList := by decide
            simp only [String.toList_append, List.mem_append, hcolon, true_or]
          · refine yields_write (g := fun b _ => b.isTerminal = false ∧
              (AgentState.error = .error → b.error ≠ some quotaExhausted)) (fun _ _ _ h => h) ?_
            exact yields_closes rfl (not_goesOn hmulti) hunits fun b _ h => h

lemma yields_coderCall (hpager : cfg.pager = ⟨budget, defaultPolicies true⟩)
    (hmulti : cap.multiStep = false) (hunits : 0 < units) :
    Yields cfg out t (At p (Stands cap units calls step m)) (coderCall cfg p)
      (StepLeads cfg out p cap units calls step m) := by
  refine yields_read fun pcb _ _ => ?_
  rw [hpager]
  refine yields_assemble fun messages => ?_
  refine yields_chat fun r _ => ?_
  cases r with
  | error e => exact yields_failWithExn e (not_goesOn hmulti) hunits
  | ok r => exact yields_finishCoder hmulti hunits

lemma yields_runCoderStep (hpager : cfg.pager = ⟨budget, defaultPolicies true⟩)
    (hmulti : cap.multiStep = false) :
    Yields cfg out t (At p (Stands cap units calls step m)) (runCoderStep cfg p)
      (StepLeads cfg out p cap units calls step m) := by
  refine yields_read fun pcb _ hpcb => ?_
  rw [if_neg (by rw [hpcb.live]; exact Bool.false_ne_true), hpcb.units]
  cases cfg.host.scanPrompt pcb.prompt with
  | some d =>
    refine yields_fails rfl (fun _ => ?_) (not_goesOn hmulti) (by simp [hmulti])
      (yields_failWith.conseq (fun _ h => h) fun _ _ h => ⟨h.1, h.2.1⟩)
    have hcolon : ':' ∈ (toString "policy_gate.prompt: ").toList := by decide
    refine ne_quotaExhausted ':' ?_ (by decide)
    simp only [String.toList_append, List.mem_append, hcolon, true_or]
  | none =>
    simp only
    split
    · next hle => exact yields_exhausted hle
    · next hpos =>
      refine yields_write (fun clock b _ h => h.running _) ?_
      refine yields_keep yields_ensureCoderSystemPinned ?_
      exact yields_coderCall hpager hmulti (not_le.1 hpos)

/-- **One step** of any agent. -/
lemma yields_runStep (hpager : cfg.pager = ⟨budget, defaultPolicies true⟩) :
    Yields cfg out t (At p (Stands cap units calls step m)) (runStep cfg p)
      (StepLeads cfg out p cap units calls step m) := by
  refine yields_read fun pcb _ hpcb => ?_
  rw [hpcb.capability]
  cases hmulti : cap.multiStep with
  | true => exact yields_runReactStep hpager hmulti
  | false =>
    simp only [Bool.false_eq_true, if_false]
    split
    · exact yields_runCoderStep hpager hmulti
    · exact yields_runPlainStep hpager hmulti

end

end Gcos.Process
