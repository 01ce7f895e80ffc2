import Gcos.Pool.Gate
import Gcos.Pool.Following
import Gcos.Exec.Footprint

/-!
# The threads keep to the way

The code of the workers and of the callers obeys the discipline `gating`: an agent that is
for the coder is asked for its reply only after its prompt was screened, and nothing but
code that has passed every check gets to the sandbox.
-/

namespace Gcos.Pool

open Lib Exec Memory Prog

variable {host : Host} {cfg : KernelConfig} {p : Pid} {l : Pass} {α : Type}

/-! ### The steps of agents that are not for the coder -/

/-- The operations of the other steps. -/
def Plain : Class KOp
  | _, .chat .step _ | _, .write _ (.countCall _) => True
  | _, o => Eases true o

lemma gates_plain {prog : Prog KOp α} (h : prog.Only Plain) (hl : l.stage = .other) :
    prog.Obeys (gating host) l fun _ l' => l'.stage = .other := by
  refine h.obeys ?_ hl
  intro β o l ho hl
  have hworks : l.Works := (Pass.open_of_other hl).1
  cases o with
  | readPcb q _ =>
    refine ⟨trivial, ?_⟩
    rintro b l' ⟨-, rfl⟩
    show l.stage.read host b = .other
    rw [hl]
    rfl
  | write q c =>
    have hwrite : ∀ l' : Pass, l'.stage = l.stage.write c → l'.stage = .other := by
      intro l' hl'
      rw [hl', hl]
      cases c with
      | transition st => exact ite_self _
      | _ => rfl
    refine ⟨?_, ?_⟩
    · by_cases hcount : Eases true (.write q c)
      · exact (write_of_eases hcount hworks).1
      · cases c with
        | countCall tokens => exact Stage.mayWrite_countCall (.inl hl)
        | _ => exact absurd ho hcount
    · rintro - l' rfl
      exact hwrite _ rfl
  | chat purpose request =>
    cases purpose with
    | step =>
      refine ⟨.inl hl, ?_⟩
      rintro answer l' rfl
      obtain ⟨stage, dead⟩ := l
      obtain rfl : stage = .other := hl
      rfl
    | summarize metered =>
      refine ⟨trivial, ?_⟩
      rintro answer l' rfl
      exact hl
  | now | stopIsSet _ | waitNonempty | acquire | refund | enterBusy _ | leaveBusy | mailbox _
  | mailboxGet _ | mailboxPut _ _ | swapOut _ _ =>
    refine ⟨trivial, ?_⟩
    rintro answer l' rfl
    exact hl
  | _ => exact ho.elim

lemma eases_of_pages {β : Type} (o : KOp β) (ho : Pages p o) : Eases false o := by
  cases o with
  | write q c =>
    obtain ⟨-, hc⟩ := ho
    cases c with
    | removePage _ | insertPage _ _ | appendPage _ | touchPages | countStep | observe _ => trivial
    | _ => cases hc
  | chat purpose request =>
    cases purpose with
    | step => exact ho.elim
    | summarize metered => trivial
  | readPcb q _ | now | acquire | refund | swapOut q pages => trivial
  | _ => exact ho.elim

/-- Steps that run no code. -/
lemma plain_of_steps {β : Type} (o : KOp β) (ho : Steps false p o) : Plain o := by
  cases o with
  | write q c =>
    obtain ⟨-, hc⟩ := ho
    cases c with
    | prompt text | waitingSince since | addChild child => cases hc
    | transition st =>
      refine ⟨?_, fun _ => rfl⟩
      rintro rfl
      cases hc
    | _ => trivial
  | readPcb q _ | now | acquire | refund | swapOut q pages => trivial
  | chat purpose request => cases purpose <;> trivial
  | runPython code timeout priority => cases ho
  | _ => exact ho.elim

/-! ### The coder -/

section

variable {Q : α → Pass → Prop}

/-- An operation that brings the worker no further. -/
lemma gates_ease {β : Type} {ends : Bool} {K : Pass → Prop} (hK : Firm host ends K) {o : KOp β}
    (ho : Eases ends o) (hl : K l) {k : β → Prog KOp α}
    (hk : ∀ b l', K l' → (k b).Obeys (gating host) l' Q) :
    (perform o >>= k).Obeys (gating host) l Q :=
  (gates_eases hK (only_perform ho) hl).bind _ hk

lemma gates_look {look : Look} {k : AgentControlBlock → Prog KOp α}
    (hk : ∀ b, l.stage.Agrees b → (k b).Obeys (gating host) (l.read host b) Q) :
    (perform (.readPcb p look) >>= k).Obeys (gating host) l Q := by
  refine Obeys.step trivial ?_
  rintro b l' ⟨hagrees, rfl⟩
  exact hk b hagrees

/-- The agent ends. -/
lemma gates_end {st : AgentState} (hst : st.isTerminal = true) (hkill : st ≠ .zombie)
    (hl : l.Works) {k : Unit → Prog KOp α}
    (hk : ∀ l', l'.Settled → (k ()).Obeys (gating host) l' Q) :
    (perform (.write p (.transition st)) >>= k).Obeys (gating host) l Q := by
  have hease : Eases true (KOp.write p (.transition st)) := ⟨hkill, fun _ => rfl⟩
  refine Obeys.step (write_of_eases hease hl).1 ?_
  rintro - l' rfl
  rw [write_of_isTerminal hst]
  exact hk _ ⟨Stage.finalize_ne_caller hl, .inr rfl⟩

end

lemma gates_failWith {st : AgentState} (hst : st.isTerminal = true) (hkill : st ≠ .zombie)
    (msg : String) (hl : l.Works) :
    (failWith p st msg).Obeys (gating host) l fun _ l' => l'.Settled :=
  gates_end hst hkill hl fun _ hl => gates_eases firm_settled (only_perform trivial) hl

lemma gates_failStep {st : AgentState} (hst : st.isTerminal = true) (hkill : st ≠ .zombie)
    (msg : String) (hl : l.Works) :
    (failWith p st msg >>= fun _ => (pure (.ok false) : Prog KOp (Except Exn Bool))).Obeys
      (gating host) l fun answer l' => l'.Stepped answer :=
  (gates_failWith hst hkill msg hl).bind _ fun _ _ hl => hl

lemma gates_failStepExn (e : Exn) (hl : l.Works) :
    (failWithExn p e >>= fun _ => (pure (.ok false) : Prog KOp (Except Exn Bool))).Obeys
      (gating host) l fun answer l' => l'.Stepped answer := by
  cases e with
  | timeout msg => exact gates_failStep rfl (by decide) msg hl
  | other cls msg => exact gates_failStep rfl (by decide) _ hl

/-- The last transition of a step. -/
lemma gates_finish {st : AgentState} (hst : st.isTerminal = true) (hkill : st ≠ .zombie)
    (hl : l.Works) :
    (perform (.write p (.transition st)) >>= fun _ => (pure (.ok false) :
      Prog KOp (Except Exn Bool))).Obeys (gating host) l fun answer l' => l'.Stepped answer :=
  gates_end hst hkill hl fun _ hl => hl

/-- The code has passed every check. -/
lemma gates_runSandbox {prompt : String} {messages : List ChatMessage} {r : ChatResult}
    {code : String} (pcb : AgentControlBlock) (reply : String)
    (hl : l.stage = .cleared prompt messages r)
    (hextract : host.extractPython r.content = some code)
    (hcode : code.toList ≠ []) (hscan : host.scanCode code = none) :
    (runSandbox p pcb reply code).Obeys (gating host) l fun answer l' => l'.Stepped answer := by
  refine Obeys.step ⟨prompt, messages, r, hl, hextract, hcode, hscan⟩ ?_
  rintro answer l' rfl
  have hworks : Pass.Works ⟨.spent, l.dead⟩ := nofun
  cases answer with
  | error e => exact hworks
  | ok result =>
    refine gates_ease firm_works (by trivial) hworks fun _ l hl => ?_
    split
    · exact gates_finish rfl (by decide) hl
    · exact gates_ease firm_works (by trivial) hl fun _ l hl =>
        gates_finish rfl (by decide) hl

lemma gates_finishCoder {prompt : String} {messages : List ChatMessage} {r : ChatResult}
    (hl : l.stage = .replied prompt messages r) :
    (finishCoder host p r).Obeys (gating host) l fun answer l' => l'.Stepped answer := by
  refine Obeys.step (Stage.mayWrite_countCall (.inr ⟨prompt, messages, r, hl⟩)) ?_
  rintro - l' rfl
  have hcounted : (l.write (.countCall r.totalTokens)).stage = .counted prompt messages r := by
    rw [Pass.write, hl]
    rfl
  generalize l.write (.countCall r.totalTokens) = l₁ at hcounted
  refine gates_look fun b _ => ?_
  split
  · next hzombie =>
    -- killed while the call was made
    have hdead : (l₁.read host b).dead = true := by
      rw [Pass.read, AgentControlBlock.isTerminal, hzombie]
      exact Bool.or_true _
    refine ⟨Stage.read_ne_caller host b ?_, .inr hdead⟩
    rw [hcounted]
    intro hcaller
    cases hcaller
  · next hlive =>
    have hcleared : Pass.At (.cleared prompt messages r) (l₁.read host b) := by
      show l₁.stage.read host b = .cleared prompt messages r
      rw [hcounted]
      exact if_neg hlive
    have hfirm : Firm host false (Pass.At (.cleared prompt messages r)) := by
      refine firm_at ?_ fun _ => rfl
      intro hcaller
      cases hcaller
    refine (gates_eases hfirm (only_when (only_perform (by trivial))) hcleared).bind _ fun _ l hl => ?_
    refine gates_ease hfirm (by trivial) hl fun _ l hl => ?_
    have hworks : l.Works := hfirm.worker l hl
    split
    · refine gates_ease firm_works (by trivial) hworks fun _ l hl =>
        gates_finish rfl (by decide) hl
    · next code hextract =>
      split
      · refine gates_ease firm_works (by trivial) hworks fun _ l hl =>
          gates_finish rfl (by decide) hl
      · next hcode =>
        split
        · refine gates_ease firm_works (by trivial) hworks fun _ l hl =>
            gates_finish rfl (by decide) hl
        · split
          · refine gates_ease firm_works (by trivial) hworks fun _ l hl => ?_
            refine gates_ease firm_works (by trivial) hl fun _ l hl =>
              gates_finish rfl (by decide) hl
          · next hscan => exact gates_runSandbox b r.content hl hextract hcode hscan

/-- The messages of a call end with the prompt that was handed over. -/
lemma gates_assemble {s : Stage} (hfirm : Firm host false (Pass.At s)) (pager : ContextPager)
    (extra : Option String) (hl : l.stage = s) :
    (assemble pager p extra).Obeys (gating host) l fun answer l' => l'.stage = s ∧
      ∀ messages, answer = .ok messages →
        ∃ pages : List ContextPage, messages = pages.map pageMessage ++ extraMessage extra := by
  have hroom : (makeRoom pager.policies p (pager.budget - estimateTokens (extra.getD "")) 16).Only
      (Eases false) :=
    (only_makeRoom p _ _ 16).mono fun o ho => eases_of_pages o (Paging.pages o ho)
  refine (gates_eases hfirm hroom hl).bind _ fun answer l hl => ?_
  cases answer with
  | error e => exact ⟨hl, nofun⟩
  | ok _ =>
    refine gates_ease hfirm (by trivial) hl fun b l hl => ?_
    refine gates_ease hfirm (by trivial) hl fun _ l hl => ⟨hl, ?_⟩
    rintro messages ⟨⟩
    exact ⟨b.contextPages, rfl⟩

lemma gates_coderCall {prompt : String} (hl : l.stage = .screened prompt) :
    (coderCall cfg p).Obeys (gating cfg.host) l fun answer l' => l'.Stepped answer := by
  have hfirm : Firm cfg.host false (Pass.At (.screened prompt)) := firm_at nofun fun _ => rfl
  refine gates_look fun b hagrees => ?_
  obtain ⟨-, hprompt⟩ : isCoder b = true ∧ b.prompt = prompt := by rwa [hl] at hagrees
  have hread : (l.read cfg.host b).stage = .screened prompt := hfirm.read l b hl hagrees
  rw [hprompt]
  refine (gates_assemble hfirm cfg.pager (some prompt) hread).bind _ ?_
  rintro answer l ⟨hl, hmessages⟩
  cases answer with
  | error e => exact hfirm.worker l hl
  | ok messages =>
    obtain ⟨pages, hpages⟩ := hmessages messages rfl
    refine Obeys.step (.inr ⟨prompt, pages, hl, hpages⟩) ?_
    rintro reply l' rfl
    cases reply with
    | error e =>
      refine gates_failStepExn e ?_
      simp only [Pass.ask, hl]
      exact (nofun : Stage.spent ≠ .caller)
    | ok r =>
      have hreplied : (l.ask messages (.ok r)).stage = .replied prompt messages r := by
        simp only [Pass.ask, hl]
      exact gates_finishCoder hreplied

/-- The agent is for the coder. -/
def ForCoder (s : Stage) : Prop := s = .coder ∨ ∃ prompt, s = .screened prompt

lemma ForCoder.ne_caller {s : Stage} (hs : ForCoder s) : s ≠ .caller := by
  obtain rfl | ⟨prompt, rfl⟩ := hs <;> exact nofun

/-- A live agent whose prompt is allowed is seen so. -/
lemma read_forCoder {s : Stage} {b : AgentControlBlock} (hs : ForCoder s) (hagrees : s.Agrees b)
    (hlive : b.isTerminal = false) (hscan : host.scanPrompt b.prompt = none) :
    s.read host b = .screened b.prompt := by
  obtain rfl | ⟨prompt, rfl⟩ := hs
  · have hcoder : isCoder b = true := hagrees
    simp only [Stage.read, hcoder, hlive, hscan, if_true, Bool.not_false, Option.isNone_none,
      Bool.and_true]
  · rw [hagrees.2]
    rfl

lemma eases_ensureCoderSystemPinned : (ensureCoderSystemPinned p).Only (Eases false) := by
  refine Only.step trivial fun pcb => ?_
  split
  · trivial
  · exact only_perform trivial

lemma gates_runCoderStep (hl : ForCoder l.stage) :
    (runCoderStep cfg p).Obeys (gating cfg.host) l fun answer l' => l'.Stepped answer := by
  refine gates_look fun b hagrees => ?_
  have hworks : (l.read cfg.host b).Works := Stage.read_ne_caller cfg.host b hl.ne_caller
  split
  · next hdead => exact ⟨hworks, .inr (by rw [Pass.read, hdead, Bool.or_true])⟩
  · next hlive =>
    split
    · exact gates_failStep rfl (by decide) _ hworks
    · next hscan =>
      have hread : (l.read cfg.host b).stage = .screened b.prompt :=
        read_forCoder hl hagrees (by simpa using hlive) hscan
      have hfirm : Firm cfg.host false (Pass.At (.screened b.prompt)) := by
        refine firm_at ?_ fun _ => rfl
        intro hcaller
        cases hcaller
      split
      · exact gates_failStep rfl (by decide) _ hworks
      · have hrun : Eases false (.write p (.transition .running)) := ⟨by decide, by decide⟩
        refine gates_ease hfirm hrun hread fun _ l hl => ?_
        refine (gates_eases hfirm eases_ensureCoderSystemPinned hl).bind _ fun _ l hl => ?_
        exact gates_coderCall hl

/-- What `run_step` looks at is what makes an agent one for the coder. -/
lemma read_open {b : AgentControlBlock} (hl : l.Open) (hagrees : l.stage.Agrees b) :
    isCoder b = true ∧ ForCoder (l.stage.read host b) ∨
      isCoder b = false ∧ l.stage.read host b = .other := by
  obtain ⟨stage, dead⟩ := l
  cases stage with
  | caller => exact absurd rfl hl.1
  | replied _ _ _ | counted _ _ _ | cleared _ _ _ | spent => cases hl.2
  | other => exact .inr ⟨hagrees, rfl⟩
  | screened prompt => exact .inl ⟨hagrees.1, .inr ⟨prompt, rfl⟩⟩
  | unknown | coder =>
    cases hcoder : isCoder b with
    | false =>
      refine .inr ⟨rfl, ?_⟩
      simp only [Stage.read, hcoder, Bool.false_eq_true, if_false]
    | true =>
      refine .inl ⟨rfl, ?_⟩
      simp only [Stage.read, hcoder, if_true]
      split
      · exact .inr ⟨_, rfl⟩
      · exact .inl rfl

/-- **One step.** -/
lemma gates_runStep (hl : l.Open) :
    (runStep cfg p).Obeys (gating cfg.host) l fun answer l' => l'.Stepped answer := by
  have hplain : ∀ {l : Pass} {prog : Prog KOp (Except Exn Bool)}, prog.Only Plain →
      l.stage = .other → prog.Obeys (gating cfg.host) l fun answer l' => l'.Stepped answer := by
    intro l prog hprog hl
    refine (gates_plain hprog hl).mono fun answer l' hl' => ?_
    match answer with
    | .ok true => exact hl'
    | .ok false => exact Pass.settled_of_other hl'
    | .error _ => exact (Pass.open_of_other hl').1
  refine gates_look fun b hagrees => ?_
  obtain ⟨hcoder, hread⟩ | ⟨hcoder, hread⟩ := read_open hl hagrees
  · simp only [isCoder, Bool.and_eq_true, Bool.not_eq_true'] at hcoder
    rw [if_neg (by simp [hcoder.2]), if_pos hcoder.1]
    exact gates_runCoderStep hread
  · split
    · exact hplain (only_runReactStep.mono plain_of_steps) hread
    · next hmulti =>
      rw [if_neg (by simpa [isCoder, hmulti] using hcoder)]
      exact hplain (only_runPlainStep.mono plain_of_steps) hread

/-! ### The thread backend -/

lemma gates_settle {answer : Except Exn Bool} (hl : l.Stepped answer) :
    (settle p answer).Obeys (gating host) l fun keepGoing l' => l'.Ran keepGoing := by
  match answer with
  | .ok true => exact ⟨Pass.settled_of_other hl, fun _ => hl⟩
  | .ok false => exact ⟨hl, nofun⟩
  | .error e =>
    exact (gates_failWith rfl (by decide) _ hl).bind _ fun _ _ hl => ⟨hl, nofun⟩

/-- What one step leaves, by its status. -/
def Pass.Leaves (l : Pass) : StepStatus → Prop
  | .ran keepGoing => l.Ran keepGoing
  | .blocked | .stopped => l.Loose

lemma gates_runHoldingUnit (hl : l.Open) :
    (runHoldingUnit cfg p).Obeys (gating cfg.host) l fun status l' => l'.Leaves status := by
  refine gates_ease firm_open (by trivial) hl fun before l hl => ?_
  refine gates_ease firm_open (by trivial) hl fun _ l hl => ?_
  refine (gates_runStep hl).bind _ fun answer l hl => (gates_settle hl).bind _ fun keepGoing l hl => ?_
  have hfirm : Firm cfg.host true (Pass.Ran keepGoing) := firm_ran keepGoing
  refine gates_ease hfirm (by trivial) hl fun _ l hl => ?_
  refine gates_ease hfirm (by trivial) hl fun pcb l hl => ?_
  split
  · exact gates_ease hfirm (by trivial) hl fun _ l hl => hl
  · exact hl

/-- Putting the agent back. -/
lemma gates_put {β : Type} {Q : β → Pass → Prop} (hl : l.Loose) {k : Bool → Prog KOp β}
    (hk : ∀ b l', l'.Loose → (k b).Obeys (gating host) l' Q) :
    (perform (.put p) >>= k).Obeys (gating host) l Q := by
  refine Obeys.step hl.2 ?_
  rintro b l' rfl
  refine hk b _ ?_
  cases b with
  | false => exact hl
  | true => exact (Pass.open_release hl.1).loose

lemma gates_runOneStep (hl : l.Open) :
    (runOneStep cfg p).Obeys (gating cfg.host) l fun status l' => l'.Leaves status := by
  refine gates_ease firm_open (by trivial) hl fun granted l hl => ?_
  split
  · exact gates_runHoldingUnit hl
  have hblock : Eases true (.write p (.transition .blocked)) := ⟨by decide, by decide⟩
  refine gates_ease firm_open hblock hl fun _ l hl => ?_
  refine gates_ease firm_open (by trivial) hl fun got l hl => ?_
  refine gates_ease firm_open (by trivial) hl fun stop l hl => ?_
  split
  · refine (gates_eases firm_open (only_when (only_perform (by trivial))) hl).bind _ fun _ l hl => ?_
    exact gates_put hl.loose fun _ l hl => hl
  split
  · exact gates_runHoldingUnit hl
  · exact gates_put hl.loose fun _ l hl => hl

lemma gates_stepLoop (limit : ℕ) (site : StopSite) (keepGoing : Bool) (hl : l.Open) :
    (stepLoop cfg p limit site keepGoing).Obeys (gating cfg.host) l fun _ l' => l'.Loose := by
  -- an agent that goes on to another step is not for the coder
  induction limit generalizing site keepGoing l with
  | zero => exact hl.loose
  | succ limit ih =>
    refine gates_ease firm_open (by trivial) hl fun stop l hl => ?_
    split
    · exact hl.loose
    refine (gates_runOneStep hl).bind _ fun status l hl => ?_
    cases status with
    | blocked => exact hl
    | stopped => exact hl
    | ran again =>
      have hfirm : Firm cfg.host true (Pass.Ran again) := firm_ran again
      refine gates_ease hfirm (by trivial) hl fun pcb l hl => ?_
      split
      · exact hl.1.loose
      · next hgo =>
        have hagain : again = true := by
          cases again with
          | true => rfl
          | false => simp at hgo
        exact ih _ _ (Pass.open_of_other (hl.2 hagain))

lemma eases_of_forwards {β : Type} (o : KOp β) (ho : Forwards p o) : Eases true o := by
  cases o with
  | readPcb q look | now | mailbox q | mailboxGet box | mailboxPut box msg => trivial
  | _ => exact ho.elim

lemma gates_runQuantum (hl : l.Open) :
    (runQuantum cfg p).Obeys (gating cfg.host) l fun _ l' => l'.Loose := by
  refine (gates_stepLoop _ _ _ hl).bind _ fun answer l hl => ?_
  cases answer with
  | none => exact hl
  | some keepGoing =>
    refine (gates_eases firm_loose (only_forwardResult.mono eases_of_forwards) hl).bind _ fun _ l hl => ?_
    refine gates_ease firm_loose (by trivial) hl fun pcb l hl => ?_
    split
    · exact gates_put hl fun _ l hl => hl
    · exact hl

lemma gates_reparkWaiting (hl : l.Open) :
    (reparkWaiting cfg p).Obeys (gating host) l fun _ l' => l'.Loose := by
  refine gates_ease firm_open (by trivial) hl fun now l hl => ?_
  refine gates_ease firm_open (by trivial) hl fun pcb l hl => ?_
  refine gates_ease firm_open (by trivial) hl fun _ l hl => ?_
  dsimp only
  split
  · exact (gates_failWith rfl (by decide) _ hl.1).mono fun _ _ hl => hl.loose
  · have hwait : Eases true (.write p (.transition .waiting)) := ⟨by decide, by decide⟩
    refine gates_ease firm_open hwait hl fun _ l hl => ?_
    exact gates_put hl.loose fun _ l hl => hl

lemma gates_dispatch (hl : l.Open) :
    (dispatch cfg p).Obeys (gating cfg.host) l fun _ l' => l'.Loose := by
  refine gates_ease firm_open (by trivial) hl fun pcb l hl => ?_
  split
  · exact hl.loose
  split
  · split
    · exact (gates_failWith rfl (by decide) _ hl.1).mono fun _ _ hl => hl.loose
    · have hrecv : (recv p).Only (Eases true) :=
        only_recv.mono fun o ho => eases_of_forwards o (ho.forwards (p := p))
      refine (gates_eases firm_open hrecv hl).bind _ fun msg l hl => ?_
      cases msg with
      | none => exact gates_reparkWaiting hl
      | some m =>
        -- the new prompt was not screened
        refine Obeys.step (hl.prompt _).1 ?_
        rintro - l' rfl
        refine gates_ease firm_open (by trivial) (hl.prompt _).2 fun _ l hl => ?_
        exact gates_runQuantum hl
  · exact gates_runQuantum hl

/-- What is known of a thread that is not in the middle of anything. -/
def Pass.Rests {n : ℕ} (t : Tid n) (l : Pass) : Prop :=
  if t.isWorker then l.Open else l.stage = .caller

/-- **One turn of the loop of a worker.** -/
lemma gates_loopBody (hl : l.Open) :
    (loopBody cfg).Obeys (gating cfg.host) l fun _ l' => l'.Open := by
  refine gates_ease firm_open (by trivial) hl fun stop l hl => ?_
  split
  · exact hl
  refine gates_ease firm_open (by trivial) hl fun woken l hl => ?_
  split
  · refine Obeys.step trivial ?_
    rintro (_ | p) l' rfl
    · exact hl
    · have hopen : Pass.Open ⟨.unknown, false⟩ := ⟨nofun, rfl⟩
      refine (gates_dispatch hopen).bind _ fun _ l hl => ?_
      refine Obeys.step hl.2 ?_
      rintro - l' rfl
      exact Pass.open_release hl.1
  · exact hl

/-! ### Callers -/

/-- The operations of the callers. -/
def Calls : Class KOp
  | _, .write _ c =>
    match c with
    | .addChild _ | .error _ | .transition .waiting | .transition .zombie => True
    | _ => False
  | _, .readPcb _ _ | _, .tableHas _ | _, .tablePids | _, .tableRemove _ | _, .tableAdd _
  | _, .dropMailbox _ | _, .mailboxPids | _, .topup _ | _, .popQueued _ | _, .setStop
  | _, .newPcb _ | _, .put _ => True
  | _, _ => False

lemma gates_calls {prog : Prog KOp α} (h : prog.Only Calls) (hl : l.stage = .caller) :
    prog.Obeys (gating host) l fun _ l' => l'.stage = .caller := by
  refine h.obeys ?_ hl
  intro β o l ho hl
  obtain ⟨stage, dead⟩ := l
  obtain rfl : stage = .caller := hl
  cases o with
  | readPcb q _ =>
    refine ⟨trivial, ?_⟩
    rintro b l' ⟨-, rfl⟩
    rfl
  | write q c =>
    cases c with
    | addChild _ | error _ =>
      refine ⟨trivial, ?_⟩
      rintro - l' rfl
      rfl
    | transition st =>
      cases st with
      | waiting =>
        refine ⟨.inl rfl, ?_⟩
        rintro - l' rfl
        rfl
      | zombie =>
        refine ⟨.inr rfl, ?_⟩
        rintro - l' rfl
        rfl
      | _ => exact ho.elim
    | _ => exact ho.elim
  | put q =>
    refine ⟨.inl rfl, ?_⟩
    rintro (_ | _) l' rfl <;> rfl
  | newPcb args =>
    refine ⟨rfl, ?_⟩
    rintro pid l' rfl
    rfl
  | tableHas _ | tablePids | tableRemove _ | tableAdd _ | dropMailbox _ | mailboxPids | topup _
  | popQueued _ | setStop =>
    refine ⟨trivial, ?_⟩
    rintro answer l' rfl
    rfl
  | _ => exact ho.elim

lemma calls_of_callOp {β : Type} (o : KOp β) (ho : CallOp false o) : Calls o := by
  cases o with
  | write q c =>
    cases c with
    | transition st =>
      cases st with
      | zombie => trivial
      | _ => exact ho.elim
    | error msg => trivial
    | _ => exact ho.elim
  | readPcb _ _ | tableHas _ | tablePids | tableRemove _ | dropMailbox _ | mailboxPids | topup _
  | popQueued _ | setStop => trivial
  | _ => exact ho.elim

lemma calls_spawn (args : SpawnArgs) : (Kernel.spawn args).Only Calls := by
  refine Only.step trivial fun pid => Only.step trivial fun added => ?_
  split
  · refine Only.bind ?_ fun _ => ?_
    · unfold Kernel.linkParent
      split
      · trivial
      · refine Only.step trivial fun found => ?_
        split
        · exact only_perform trivial
        · trivial
    · refine (only_when (only_perform trivial)).bind fun _ => ?_
      exact Only.step trivial fun _ => trivial
  · trivial

/-- **Every call.** -/
lemma gates_code (c : KernelCall) (hl : l.stage = .caller) :
    c.code.Obeys (gating host) l fun _ l' => l'.stage = .caller := by
  refine gates_calls ?_ hl
  cases c with
  | spawn args => exact (calls_spawn args).bind fun _ => trivial
  | kill fuel pid => exact ((only_kill fuel pid).mono calls_of_callOp).bind fun _ => trivial
  | reapTerminal =>
    refine Only.bind (Only.step trivial fun pids => ?_) fun _ => trivial
    have h : (Kernel.reapFrom pids).Only (CallOp false) := only_reapFrom pids
    exact h.mono calls_of_callOp
  | topup amount =>
    refine Only.bind ?_ fun _ => trivial
    unfold Kernel.quotaTopup
    split
    · trivial
    · exact Only.step trivial fun _ => trivial
  | shutdown =>
    refine Only.step trivial fun _ => Only.step trivial fun pids => ?_
    have h : (Kernel.dropMailboxes pids).Only (CallOp false) := only_dropAll pids
    exact h.mono calls_of_callOp

end Gcos.Pool
