import Gcos.Pool.Worker
import Gcos.Lib.Footprint

/-!
# The way of code to the sandbox

Code of the LLM gets to the sandbox in one place of `run_coder_step`, behind the routing of
`run_step`, the gate for prompts, the call, the look for a kill, the extraction and the gate
for code.  The third discipline of the thread backend says how far a worker has come on this
way with the agent that it holds.  Off the way nothing is known of the agent but that the
coder has not begun with it; on the way there is no turning back: the worker lets go of the
agent only when it is terminal.
-/

namespace Gcos.Pool

open Lib Exec Memory Prog

/-- The agents that `run_step` gives to the coder. -/
def isCoder (b : AgentControlBlock) : Bool :=
  b.capability.canExecCode && !b.capability.multiStep

/-- How far a thread has come. -/
inductive Stage
  /-- A caller of the kernel. -/
  | caller
  /-- A worker that has not looked at its agent, or that has none. -/
  | unknown
  /-- The agent is not for the coder. -/
  | other
  /-- The agent is for the coder. -/
  | coder
  /-- It was seen live, with a prompt that the gate allows. -/
  | screened (prompt : String)
  /-- The call with these messages has returned. -/
  | replied (prompt : String) (messages : List ChatMessage) (r : ChatResult)
  /-- The call was counted. -/
  | counted (prompt : String) (messages : List ChatMessage) (r : ChatResult)
  /-- The agent was not killed meanwhile. -/
  | cleared (prompt : String) (messages : List ChatMessage) (r : ChatResult)
  /-- The call has failed, or the sandbox was entered. -/
  | spent

namespace Stage

/-- The coder has made its call. -/
def spends : Stage → Bool
  | replied _ _ _ | counted _ _ _ | cleared _ _ _ | spent => true
  | _ => false

/-- Looking at the agent. -/
def read (host : Host) (b : AgentControlBlock) : Stage → Stage
  | unknown | coder =>
    if isCoder b then
      if !b.isTerminal && (host.scanPrompt b.prompt).isNone then screened b.prompt else coder
    else other
  | counted prompt messages r =>
    if b.state = .zombie then counted prompt messages r else cleared prompt messages r
  | s => s

/-- Ending the agent. -/
def finalize : Stage → Stage
  | screened _ => coder
  | replied _ _ _ | counted _ _ _ => spent
  | s => s

/-- Writing to the agent. -/
def write (c : Write) (s : Stage) : Stage :=
  match c, s with
  | .prompt _, screened _ => coder
  | .countCall _, replied prompt messages r => counted prompt messages r
  | .transition st, s => if st.isTerminal then s.finalize else s
  | _, s => s

/-- What the worker knows of the block that it reads. -/
def Agrees (b : AgentControlBlock) : Stage → Prop
  | other => isCoder b = false
  | coder => isCoder b = true
  | screened prompt => isCoder b = true ∧ b.prompt = prompt
  | _ => True

/-- What may be written. -/
def mayWrite (c : Write) (s : Stage) : Prop :=
  match s, c with
  | caller, .addChild _ | caller, .error _ => True
  | caller, .transition st => st = .waiting ∨ st = .zombie
  | caller, _ => False
  | s, .prompt _ => s.spends = false
  | s, .countCall _ => s = other ∨ ∃ prompt messages r, s = replied prompt messages r
  | _, .transition st => st ≠ .zombie
  | _, _ => True

lemma mayWrite_countCall {tokens : ℤ} {s : Stage}
    (hs : s = other ∨ ∃ prompt messages r, s = replied prompt messages r) :
    s.mayWrite (.countCall tokens) := by
  cases s with
  | caller => simp at hs
  | _ => exact hs

lemma spends_read (host : Host) (b : AgentControlBlock) (s : Stage) :
    (s.read host b).spends = s.spends := by
  cases s with
  | unknown | coder =>
    simp only [read]
    split
    · split <;> rfl
    · rfl
  | counted prompt messages r =>
    simp only [read]
    split <;> rfl
  | _ => rfl

lemma read_ne_caller (host : Host) (b : AgentControlBlock) {s : Stage} (hs : s ≠ caller) :
    s.read host b ≠ caller := by
  cases s with
  | caller => exact absurd rfl hs
  | unknown | coder =>
    simp only [read]
    split
    · split <;> exact nofun
    · exact nofun
  | counted prompt messages r =>
    simp only [read]
    split <;> exact nofun
  | _ => exact nofun

/-- Looking at the agent makes no worker of a caller, and no caller of a worker. -/
lemma read_eq_caller (host : Host) (b : AgentControlBlock) (s : Stage) :
    s.read host b = caller ↔ s = caller := by
  refine ⟨fun h => ?_, ?_⟩
  · by_contra hs
    exact read_ne_caller host b hs h
  · rintro rfl
    rfl

lemma finalize_ne_caller {s : Stage} (hs : s ≠ caller) : s.finalize ≠ caller := by
  cases s with
  | caller => exact absurd rfl hs
  | _ => exact nofun

/-- Writing makes no worker of a caller, and no caller of a worker. -/
lemma write_eq_caller (c : Write) (s : Stage) : s.write c = caller ↔ s = caller := by
  refine ⟨fun h => ?_, ?_⟩
  · by_contra hs
    cases c with
    | transition st =>
      simp only [write] at h
      split at h
      · exact finalize_ne_caller hs h
      · exact hs h
    | prompt text | countCall tokens => cases s <;> first | exact hs rfl | cases h
    | _ => exact hs h
  · rintro rfl
    cases c with
    | transition st => exact ite_self _
    | _ => rfl

/-- Workers do not kill. -/
lemma ne_zombie_of_mayWrite {s : Stage} (hs : s ≠ caller) {c : Write} (hmay : s.mayWrite c) :
    c ≠ .transition .zombie := by
  rintro rfl
  cases s with
  | caller => exact hs rfl
  | _ => exact hmay rfl

end Stage

/-- The transitions that end an agent. -/
def finalizes : Write → Bool
  | .transition st => st.isTerminal
  | _ => false

/-- How far a thread has come, and whether it knows that its agent is terminal. -/
structure Pass where
  stage : Stage
  dead : Bool := false

namespace Pass

/-- Looking at the agent. -/
def read (host : Host) (b : AgentControlBlock) (l : Pass) : Pass :=
  ⟨l.stage.read host b, l.dead || b.isTerminal⟩

/-- Writing to the agent. -/
def write (c : Write) (l : Pass) : Pass := ⟨l.stage.write c, l.dead || finalizes c⟩

/-- What the call of a step leads to. -/
def ask (messages : List ChatMessage) (answer : Except Exn ChatResult) (l : Pass) : Pass :=
  match l.stage, answer with
  | .screened prompt, .ok r => ⟨.replied prompt messages r, l.dead⟩
  | .screened _, .error _ => ⟨.spent, l.dead⟩
  | _, _ => l

/-- A worker lets go of its agent. -/
def release (l : Pass) : Pass :=
  match l.stage with
  | .caller => l
  | _ => ⟨.unknown, false⟩

/-- The agent may be let go of. -/
def Free (l : Pass) : Prop := l.stage.spends = false ∨ l.dead = true

/-- A worker. -/
def Works (l : Pass) : Prop := l.stage ≠ .caller

/-- A worker that may still turn back. -/
def Open (l : Pass) : Prop := l.Works ∧ l.stage.spends = false

/-- A worker that is through with a step of its agent. -/
def Settled (l : Pass) : Prop := l.Works ∧ (l.stage = .other ∨ l.dead = true)

/-- A worker that may let go of its agent. -/
def Loose (l : Pass) : Prop := l.Works ∧ l.Free

/-- A worker at a certain stage. -/
def At (s : Stage) (l : Pass) : Prop := l.stage = s

/-- A worker after a step with this answer. -/
def Stepped (l : Pass) : Except Exn Bool → Prop
  | .ok true => l.stage = .other
  | .ok false => l.Settled
  | .error _ => l.Works

/-- A worker after a step that was handled. -/
def Ran (keepGoing : Bool) (l : Pass) : Prop :=
  l.Settled ∧ (keepGoing = true → l.stage = .other)

/-- Which operation may be performed where. -/
def allows (host : Host) : {β : Type} → KOp β → Pass → Prop
  | _, .write _ c, l => l.stage.mayWrite c
  | _, .chat .step request, l =>
    l.stage = .other ∨ ∃ prompt, ∃ pages : List ContextPage, l.stage = .screened prompt ∧
      request.messages = pages.map pageMessage ++ extraMessage (some prompt)
  | _, .runPython code _ _, l =>
    ∃ prompt messages r, l.stage = .cleared prompt messages r ∧
      host.extractPython r.content = some code ∧ code.toList ≠ [] ∧ host.scanCode code = none
  | _, .put _, l | _, .taskDone, l => l.Free
  | _, .newPcb _, l => l.stage = .caller
  | _, _, _ => True

/-- What the thread knows after the answer. -/
def learns (host : Host) : {β : Type} → KOp β → Pass → β → Pass → Prop
  | _, .readPcb _ _, l, b, l' => l.stage.Agrees b ∧ l' = l.read host b
  | _, .write _ c, l, _, l' => l' = l.write c
  | _, .chat .step request, l, answer, l' => l' = l.ask request.messages answer
  | _, .runPython _ _ _, l, _, l' => l' = ⟨.spent, l.dead⟩
  | _, .put _, l, b, l' => l' = if b then l.release else l
  | _, .taskDone, l, _, l' => l' = l.release
  | _, .pickNext, l, b, l' => l' = if b.isSome then ⟨.unknown, false⟩ else l
  | _, _, l, _, l' => l' = l

end Pass

/-- The discipline of the way to the sandbox. -/
def gating (host : Host) : Discipline KOp Pass :=
  { pre := Pass.allows host, post := Pass.learns host }

/-! ### What keeps a worker where it is -/

variable {host : Host} {p : Pid} {l : Pass} {α : Type}

/-- The operations that bring a worker no further on the way; they end the agent only if
`ends` says so. -/
def Eases (ends : Bool) : Class KOp
  | _, .write _ c =>
    match c with
    | .prompt _ | .countCall _ | .addChild _ => False
    | .transition st => st ≠ .zombie ∧ (st.isTerminal = true → ends = true)
    | _ => True
  | _, .readPcb _ _ | _, .now | _, .stopIsSet _ | _, .waitNonempty | _, .acquire | _, .refund
  | _, .enterBusy _ | _, .leaveBusy | _, .mailbox _ | _, .mailboxGet _ | _, .mailboxPut _ _
  | _, .swapOut _ _ | _, .chat (.summarize _) _ => True
  | _, _ => False

/-- A worker's knowledge that such operations keep. -/
structure Firm (host : Host) (ends : Bool) (K : Pass → Prop) : Prop where
  worker : ∀ l, K l → l.Works
  read : ∀ l b, K l → l.stage.Agrees b → K (l.read host b)
  final : ends = true → ∀ l, K l → K ⟨l.stage.finalize, true⟩

lemma write_of_isTerminal {st : AgentState} (hst : st.isTerminal = true) (l : Pass) :
    l.write (.transition st) = ⟨l.stage.finalize, true⟩ := by
  simp only [Pass.write, Stage.write, finalizes, hst, if_true, Bool.or_true]

/-- A write that brings a worker no further. -/
lemma write_of_eases {ends : Bool} {c : Write} (hc : Eases ends (.write p c))
    (hl : l.Works) :
    l.stage.mayWrite c ∧
      (l.write c = l ∨ ends = true ∧ l.write c = ⟨l.stage.finalize, true⟩) := by
  obtain ⟨stage, dead⟩ := l
  cases c with
  | prompt _ | countCall _ | addChild _ => exact hc.elim
  | transition st =>
    refine ⟨?_, ?_⟩
    · cases stage with
      | caller => exact absurd rfl hl
      | _ => exact hc.1
    · cases hst : st.isTerminal with
      | true => exact .inr ⟨hc.2 hst, write_of_isTerminal hst _⟩
      | false =>
        left
        simp only [Pass.write, Stage.write, finalizes, hst, Bool.or_false, Bool.false_eq_true,
          if_false]
  | _ =>
    refine ⟨?_, .inl ?_⟩
    · cases stage with
      | caller => exact absurd rfl hl
      | _ => trivial
    · simp only [Pass.write, Stage.write, finalizes, Bool.or_false]

lemma gates_eases {ends : Bool} {K : Pass → Prop} (hK : Firm host ends K) {prog : Prog KOp α}
    (h : prog.Only (Eases ends)) (hl : K l) :
    prog.Obeys (gating host) l fun _ l' => K l' := by
  refine h.obeys ?_ hl
  intro β o l ho hl
  cases o with
  | readPcb q _ =>
    refine ⟨trivial, ?_⟩
    rintro b l' ⟨hagrees, rfl⟩
    exact hK.read l b hl hagrees
  | write q c =>
    obtain ⟨hmay, hwrite⟩ := write_of_eases ho (hK.worker l hl)
    refine ⟨hmay, ?_⟩
    rintro - l' rfl
    rcases hwrite with hsame | ⟨hends, hfinal⟩
    · rwa [hsame]
    · rw [hfinal]
      exact hK.final hends l hl
  | chat purpose request =>
    cases purpose with
    | step => exact ho.elim
    | summarize metered =>
      refine ⟨trivial, ?_⟩
      rintro answer l' rfl
      exact hl
  | now | stopIsSet _ | waitNonempty | acquire | refund | enterBusy _ | leaveBusy | mailbox _
  | mailboxGet _ | mailboxPut _ _ | swapOut _ _ =>
    refine ⟨trivial, ?_⟩
    rintro answer l' rfl
    exact hl
  | _ => exact ho.elim

lemma firm_works : Firm host true Pass.Works where
  worker := fun _ hl => hl
  read := fun _ b hl _ => Stage.read_ne_caller host b hl
  final := fun _ _ hl => Stage.finalize_ne_caller hl

lemma firm_open : Firm host true Pass.Open where
  worker := fun _ hl => hl.1
  read := fun l b hl _ => ⟨Stage.read_ne_caller host b hl.1, (Stage.spends_read host b _).trans hl.2⟩
  final := by
    rintro - ⟨stage, dead⟩ ⟨hworker, hopen⟩
    refine ⟨Stage.finalize_ne_caller hworker, ?_⟩
    cases stage with
    | replied _ _ _ | counted _ _ _ | cleared _ _ _ | spent => cases hopen
    | _ => rfl

lemma firm_settled : Firm host true Pass.Settled where
  worker := fun _ hl => hl.1
  read := by
    rintro l b ⟨hworker, hl⟩ -
    refine ⟨Stage.read_ne_caller host b hworker, hl.imp (fun h => ?_) fun h => ?_⟩
    · rw [Pass.read, h]
      rfl
    · rw [Pass.read, h, Bool.true_or]
  final := fun _ _ hl => ⟨Stage.finalize_ne_caller hl.1, .inr rfl⟩

lemma firm_loose : Firm host true Pass.Loose where
  worker := fun _ hl => hl.1
  read := by
    rintro l b ⟨hworker, hl⟩ -
    refine ⟨Stage.read_ne_caller host b hworker, hl.imp (fun h => ?_) fun h => ?_⟩
    · exact (Stage.spends_read host b _).trans h
    · rw [Pass.read, h, Bool.true_or]
  final := fun _ _ hl => ⟨Stage.finalize_ne_caller hl.1, .inr rfl⟩

/-- A stage that looking at the agent does not change. -/
lemma firm_at {s : Stage} (hworker : s ≠ .caller) (hread : ∀ b, s.read host b = s) :
    Firm host false (Pass.At s) where
  worker := fun l hl => by rwa [Pass.Works, show l.stage = s from hl]
  read := fun l b hl _ => by
    show l.stage.read host b = s
    rw [show l.stage = s from hl, hread b]
  final := nofun

lemma firm_ran (keepGoing : Bool) : Firm host true (Pass.Ran keepGoing) where
  worker := fun _ hl => hl.1.1
  read := by
    rintro l b ⟨hl, hgo⟩ hagrees
    refine ⟨firm_settled.read l b hl hagrees, fun h => ?_⟩
    show l.stage.read host b = .other
    rw [hgo h]
    rfl
  final := by
    rintro - l ⟨hl, hgo⟩
    refine ⟨⟨Stage.finalize_ne_caller hl.1, .inr rfl⟩, fun h => ?_⟩
    rw [hgo h]
    rfl

lemma Pass.Open.loose (hl : l.Open) : l.Loose := ⟨hl.1, .inl hl.2⟩

lemma Pass.Settled.loose (hl : l.Settled) : l.Loose := by
  refine ⟨hl.1, hl.2.imp_left fun h => ?_⟩
  rw [h]
  rfl

lemma Pass.open_of_other (hl : l.stage = .other) : l.Open := by
  refine ⟨?_, ?_⟩
  · rw [Pass.Works, hl]
    exact nofun
  · rw [hl]
    rfl

lemma Pass.settled_of_other (hl : l.stage = .other) : l.Settled := ⟨(open_of_other hl).1, .inl hl⟩

lemma Pass.works_ask (hl : l.Works) (messages : List ChatMessage) (answer : Except Exn ChatResult) :
    (l.ask messages answer).Works := by
  obtain ⟨stage, dead⟩ := l
  cases stage with
  | screened prompt => cases answer <;> exact nofun
  | _ => exact hl

lemma Pass.stage_release (hl : l.Works) : l.release.stage = .unknown := by
  obtain ⟨stage, dead⟩ := l
  cases stage with
  | caller => exact absurd rfl hl
  | _ => rfl

lemma Pass.release_of_caller (hl : l.stage = .caller) : l.release = l := by
  obtain ⟨stage, dead⟩ := l
  obtain rfl : stage = .caller := hl
  rfl

lemma Pass.open_release (hl : l.Works) : l.release.Open := by
  obtain ⟨stage, dead⟩ := l
  cases stage with
  | caller => exact absurd rfl hl
  | _ => exact ⟨nofun, rfl⟩

/-- The prompt may be replaced as long as the worker may turn back, and then it is one that
was not screened. -/
lemma Pass.Open.prompt (hl : l.Open) (text : String) :
    l.stage.mayWrite (.prompt text) ∧ (l.write (.prompt text)).Open := by
  obtain ⟨stage, dead⟩ := l
  obtain ⟨hworks, hopen⟩ := hl
  cases stage with
  | caller => exact absurd rfl hworks
  | replied _ _ _ | counted _ _ _ | cleared _ _ _ | spent => cases hopen
  | _ => exact ⟨rfl, nofun, rfl⟩

end Gcos.Pool
