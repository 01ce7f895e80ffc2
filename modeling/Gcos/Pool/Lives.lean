import Gcos.Pool.Gate
import Gcos.Lib.Watch

/-!
# The lives of the agents

An observer writes down what matters in the life of an agent on the way to the sandbox: the
calls of its steps that are over, the kills, and the code that was run.  What a worker knows
of the agent that it holds is compared with the block and the life of the agent: others may
kill the agent, but cannot make wrong what the worker knows, and the worker itself goes on
from what it knows.
-/

namespace Gcos.Pool

open Lib World Memory

variable {n : ℕ} {w : World n} {t : Tid n} {p : Pid} {host : Host}

/-! ### The lives of the agents -/

/-- What matters in the life of an agent. -/
inductive LifeEvent
  /-- The call with these messages was made for a step of the agent, and this is its outcome. -/
  | replied (messages : List ChatMessage) (answer : Except Exn ChatResult)
  /-- The agent was killed. -/
  | killed
  /-- The code was run in the sandbox; this was the block of the agent. -/
  | ran (code : String) (block : AgentControlBlock)

/-- Whether code was run. -/
def LifeEvent.isRun : LifeEvent → Bool
  | ran _ _ => true
  | _ => false

/-- The event in the life of an agent that an operation is.  A call and a run in the
sandbox are made for the agent that the thread holds. -/
def happened (t : Tid n) (w : World n) : {β : Type} → KOp β → β → Option (Pid × LifeEvent)
  | _, .write p (.transition .zombie), _ => some (p, .killed)
  | _, .chat .step request, answer =>
    (w.loc t).held.map fun p => (p, .replied request.messages answer)
  | _, .runPython code _ _, _ => (w.loc t).held.map fun p => (p, .ran code (w.pcbs p))
  | _, _, _ => none

/-- Writing an event down. -/
def writeDown (g : Pid → List LifeEvent) : Option (Pid × LifeEvent) → Pid → List LifeEvent
  | some (p, e) => Function.update g p (g p ++ [e])
  | none => g

/-- The observer of the lives. -/
def biographer : Observer KOp (Tid n) (World n) (Pid → List LifeEvent)
  | _, _, .newPcb _, _, pid, g => Function.update g pid []
  | _, t, o, w, b, g => writeDown g (happened t w o b)

section

variable {g : Pid → List LifeEvent}

/-- An event in the life of the agent that a thread holds. -/
lemma writeDown_held_of_ne {held : Option Pid} (hp : held ≠ some p) (f : Pid → LifeEvent) :
    writeDown g (held.map fun q => (q, f q)) p = g p := by
  cases held with
  | none => rfl
  | some q =>
    have hne : p ≠ q := by
      rintro rfl
      exact hp rfl
    exact Function.update_of_ne hne _ _

lemma writeDown_held {held : Option Pid} (hp : held = some p) (f : Pid → LifeEvent) :
    writeDown g (held.map fun q => (q, f q)) p = g p ++ [f p] := by
  rw [hp]
  exact Function.update_self _ _ _

lemma biographer_write {c : Write} (hc : c ≠ .transition .zombie) :
    biographer t (.write p c) w () g = g := by
  cases c with
  | transition st =>
    cases st with
    | zombie => exact absurd rfl hc
    | _ => rfl
  | _ => rfl

end

/-- Nothing but kills. -/
def Kills (es : List LifeEvent) : Prop := ∀ e ∈ es, e = .killed

/-- No code was run. -/
def Unrun (es : List LifeEvent) : Prop := ∀ e ∈ es, e.isRun = false

/-- The code has passed the gates: the agent may have code executed, its one call was counted,
its prompt is allowed and was sent, and the code is what was found in the reply, and allowed. -/
structure Passed (host : Host) (messages : List ChatMessage) (r : ChatResult) (code : String)
    (b : AgentControlBlock) : Prop where
  capability : b.capability.canExecCode = true
  counted : b.llmCallsUsed = 1
  prompt : host.scanPrompt b.prompt = none
  sent : ∃ pages : List ContextPage,
    messages = pages.map pageMessage ++ extraMessage (some b.prompt)
  extracted : host.extractPython r.content = some code
  nonempty : code.toList ≠ []
  allowed : host.scanCode code = none

/-- A life in which code was run at most once, after the one call of the agent and nothing
else, and with all gates passed. -/
def Gated (host : Host) (life : List LifeEvent) : Prop :=
  Unrun life ∨ ∃ messages r kills code b rest,
    life = .replied messages (.ok r) :: (kills ++ .ran code b :: rest) ∧ Kills kills ∧
      Unrun rest ∧ Passed host messages r code b

lemma Kills.append {es fs : List LifeEvent} (hes : Kills es) (hfs : Kills fs) :
    Kills (es ++ fs) := by
  intro e he
  exact (List.mem_append.1 he).elim (hes e) (hfs e)

lemma kills_nil : Kills [] := fun _ he => by cases he

lemma kills_killed : Kills [.killed] := fun _ he => List.mem_singleton.1 he

lemma Unrun.append {es : List LifeEvent} {e : LifeEvent} (hes : Unrun es) (he : e.isRun = false) :
    Unrun (es ++ [e]) := by
  intro d hd
  rcases List.mem_append.1 hd with hd | hd
  · exact hes d hd
  · rwa [List.mem_singleton.1 hd]

lemma Kills.unrun {es : List LifeEvent} (hes : Kills es) : Unrun es := by
  intro e he
  rw [hes e he]
  rfl

/-- What is no run in the sandbox may happen at any time. -/
lemma Gated.append {life : List LifeEvent} {e : LifeEvent} (h : Gated host life)
    (he : e.isRun = false) : Gated host (life ++ [e]) := by
  rcases h with h | ⟨messages, r, kills, code, b, rest, rfl, hkills, hrest, hpassed⟩
  · exact .inl (h.append he)
  · refine .inr ⟨messages, r, kills, code, b, rest ++ [e], ?_, hkills, hrest.append he, hpassed⟩
    simp only [List.cons_append, List.append_assoc]

/-! ### What the workers know is so -/

/-- The life of an agent and its block. -/
structure Lawful (host : Host) (b : AgentControlBlock) (life : List LifeEvent) : Prop where
  killed : LifeEvent.killed ∈ life → b.isTerminal = true
  gated : Gated host life

/-- The coder has not begun with the agent. -/
def Untouched (b : AgentControlBlock) (life : List LifeEvent) : Prop :=
  b.isTerminal = false → isCoder b = true → b.llmCallsUsed = 0 ∧ life = []

/-- The prompt of the agent was screened. -/
structure Cleared (host : Host) (prompt : String) (calls : ℤ) (b : AgentControlBlock) : Prop where
  coder : isCoder b = true
  prompt_eq : b.prompt = prompt
  allowed : host.scanPrompt prompt = none
  calls_eq : b.llmCallsUsed = calls

/-- The agent lives, or it was killed. -/
def Spared (b : AgentControlBlock) : Prop := b.isTerminal = true → b.state = .zombie

/-- The messages that were sent with the prompt. -/
def Carries (prompt : String) (messages : List ChatMessage) : Prop :=
  ∃ pages : List ContextPage, messages = pages.map pageMessage ++ extraMessage (some prompt)

/-- The agent has got one reply; it may have been killed before and after. -/
def Answered (messages : List ChatMessage) (r : ChatResult) (life : List LifeEvent) : Prop :=
  ∃ before after, life = before ++ .replied messages (.ok r) :: after ∧ Kills before ∧ Kills after

/-- What the stage of a worker says about its agent. -/
def Stage.Fits (host : Host) (b : AgentControlBlock) (life : List LifeEvent) : Stage → Prop
  | caller | unknown | spent => True
  | other => isCoder b = false
  | coder => isCoder b = true
  | screened prompt => Cleared host prompt 0 b ∧ Spared b ∧ Kills life
  | replied prompt messages r =>
    Cleared host prompt 0 b ∧ Spared b ∧ Carries prompt messages ∧ Answered messages r life
  | counted prompt messages r =>
    Cleared host prompt 1 b ∧ Spared b ∧ Carries prompt messages ∧ Answered messages r life
  | cleared prompt messages r =>
    Cleared host prompt 1 b ∧ Carries prompt messages ∧
      ∃ after, life = .replied messages (.ok r) :: after ∧ Kills after

/-- What a worker knows of its agent is so. -/
structure Pass.Fits (host : Host) (b : AgentControlBlock) (life : List LifeEvent) (l : Pass) :
    Prop where
  dead : l.dead = true → b.isTerminal = true
  untouched : l.stage.spends = false → Untouched b life
  stage : l.stage.Fits host b life

/-- What others may do to an agent. -/
structure Drifts (b : AgentControlBlock) (life : List LifeEvent) (b' : AgentControlBlock)
    (life' : List LifeEvent) : Prop where
  capability : b'.capability = b.capability
  prompt : b'.prompt = b.prompt
  calls : b'.llmCallsUsed = b.llmCallsUsed
  stays : b.isTerminal = true → b'.state = b.state
  ends : b'.isTerminal = true → b.isTerminal = true ∨ b'.state = .zombie
  life_eq : life' = life ∨ life' = life ++ [.killed] ∧ b'.isTerminal = true

variable {b b' : AgentControlBlock} {life life' : List LifeEvent} {l : Pass}

namespace Drifts

lemma refl (b : AgentControlBlock) (life : List LifeEvent) : Drifts b life b life where
  capability := rfl
  prompt := rfl
  calls := rfl
  stays := fun _ => rfl
  ends := .inl
  life_eq := .inl rfl

lemma isTerminal (h : Drifts b life b' life') (hdead : b.isTerminal = true) :
    b'.isTerminal = true := by
  rw [AgentControlBlock.isTerminal, h.stays hdead]
  exact hdead

lemma isCoder_eq (h : Drifts b life b' life') : isCoder b' = isCoder b := by
  rw [isCoder, isCoder, h.capability]

lemma lawful (h : Drifts b life b' life') (hl : Lawful host b life) : Lawful host b' life' := by
  rcases h.life_eq with rfl | ⟨rfl, hdead⟩
  · exact ⟨fun hmem => h.isTerminal (hl.killed hmem), hl.gated⟩
  · exact ⟨fun _ => hdead, hl.gated.append rfl⟩

lemma untouched (h : Drifts b life b' life') (hl : Untouched b life) : Untouched b' life' := by
  intro hlive hcoder
  have hlive' : b.isTerminal = false := by
    by_contra hdead
    rw [h.isTerminal (by simpa using hdead)] at hlive
    cases hlive
  obtain ⟨hcalls, hnil⟩ := hl hlive' (by rwa [h.isCoder_eq] at hcoder)
  rcases h.life_eq with rfl | ⟨-, hdead⟩
  · exact ⟨h.calls.trans hcalls, hnil⟩
  · rw [hlive] at hdead
    cases hdead

lemma cleared {prompt : String} {calls : ℤ} (h : Drifts b life b' life')
    (hb : Cleared host prompt calls b) : Cleared host prompt calls b' where
  coder := h.isCoder_eq.trans hb.coder
  prompt_eq := h.prompt.trans hb.prompt_eq
  allowed := hb.allowed
  calls_eq := h.calls.trans hb.calls_eq

lemma spared (h : Drifts b life b' life') (hb : Spared b) : Spared b' := by
  intro hdead
  rcases h.ends hdead with hold | hzombie
  · rw [h.stays hold]
    exact hb hold
  · exact hzombie

lemma kills (h : Drifts b life b' life') (hlife : Kills life) : Kills life' := by
  rcases h.life_eq with rfl | ⟨rfl, -⟩
  · exact hlife
  · exact hlife.append kills_killed

lemma answered {messages : List ChatMessage} {r : ChatResult} (h : Drifts b life b' life')
    (hlife : Answered messages r life) : Answered messages r life' := by
  obtain ⟨before, after, rfl, hbefore, hafter⟩ := hlife
  rcases h.life_eq with rfl | ⟨rfl, -⟩
  · exact ⟨before, after, rfl, hbefore, hafter⟩
  · refine ⟨before, after ++ [.killed], ?_, hbefore, hafter.append kills_killed⟩
    rw [List.append_assoc, List.cons_append]

lemma stage {s : Stage} (h : Drifts b life b' life') (hs : s.Fits host b life) :
    s.Fits host b' life' := by
  cases s with
  | caller | unknown | spent => trivial
  | other => exact h.isCoder_eq.trans hs
  | coder => exact h.isCoder_eq.trans hs
  | screened prompt =>
    obtain ⟨hcleared, hspared, hkills⟩ := hs
    exact ⟨h.cleared hcleared, h.spared hspared, h.kills hkills⟩
  | replied prompt messages r | counted prompt messages r =>
    obtain ⟨hcleared, hspared, hsent, hanswered⟩ := hs
    exact ⟨h.cleared hcleared, h.spared hspared, hsent, h.answered hanswered⟩
  | cleared prompt messages r =>
    obtain ⟨hcleared, hsent, after, rfl, hafter⟩ := hs
    refine ⟨h.cleared hcleared, hsent, ?_⟩
    rcases h.life_eq with rfl | ⟨rfl, -⟩
    · exact ⟨after, rfl, hafter⟩
    · exact ⟨after ++ [.killed], rfl, hafter.append kills_killed⟩

/-- What a worker knows of its agent stays so whatever others do. -/
lemma fits (h : Drifts b life b' life') (hl : l.Fits host b life) : l.Fits host b' life' where
  dead := fun hdead => h.isTerminal (hl.dead hdead)
  untouched := fun hspends => h.untouched (hl.untouched hspends)
  stage := h.stage hl.stage

end Drifts

/-! ### The holder moves -/

variable {clock : ℕ → Time} {c : Write}

/-- The writes that others may make, but for the kill. -/
def Mild : Write → Prop
  | .prompt _ | .countCall _ => False
  | .transition st => st.isTerminal = false
  | _ => True

lemma capability_apply (clock : ℕ → Time) (b : AgentControlBlock) (c : Write) :
    (c.apply clock b).capability = b.capability := by
  cases c with
  | transition st => rw [Write.apply, b.transition_frame]
  | _ => rfl

lemma isCoder_apply (clock : ℕ → Time) (b : AgentControlBlock) (c : Write) :
    isCoder (c.apply clock b) = isCoder b := by
  rw [isCoder, isCoder, capability_apply]

lemma drifts_transition {st : AgentState} (hst : st.isTerminal = false ∨ st = .zombie)
    (now : Time) (hlife : life' = life ∨ life' = life ++ [.killed] ∧ st = .zombie) :
    Drifts b life (b.transition st now) life' where
  capability := by rw [b.transition_frame]
  prompt := by rw [b.transition_frame]
  calls := b.transition_llmCallsUsed st now
  stays := fun hdead => by rw [b.transition_of_isTerminal st now hdead]
  ends := by
    intro hdead
    cases hlive : b.isTerminal with
    | true => exact .inl rfl
    | false =>
      rw [b.isTerminal_transition, hlive, Bool.false_or] at hdead
      rcases hst with hst | rfl
      · rw [hst] at hdead
        cases hdead
      · exact .inr (b.state_transition_of_live _ now hlive)
  life_eq := by
    refine hlife.imp id fun h => ⟨h.1, ?_⟩
    rw [h.2, b.isTerminal_transition]
    exact Bool.or_true _

lemma drifts_write (hc : Mild c) : Drifts b life (c.apply clock b) life := by
  cases c with
  | prompt text | countCall tokens => exact hc.elim
  | transition st => exact drifts_transition (.inl hc) _ (.inl rfl)
  | _ => exact ⟨rfl, rfl, rfl, fun _ => rfl, .inl, .inl rfl⟩

/-- An agent that is written to without a call being counted stays untouched. -/
lemma Untouched.write (h : Untouched b life) (hc : c.countsCall = false) :
    Untouched (c.apply clock b) life := by
  intro hlive hcoder
  have hlive' : b.isTerminal = false := by
    by_contra hdead
    rw [(Write.isTerminal_apply clock b c).2 (.inl (by simpa using hdead))] at hlive
    cases hlive
  obtain ⟨hcalls, hnil⟩ := h hlive' (by rwa [isCoder_apply] at hcoder)
  refine ⟨?_, hnil⟩
  rw [Write.llmCallsUsed_apply, hc, hcalls]
  rfl

/-- A new prompt. -/
lemma fits_prompt (text : String) (hworks : l.Works) (hl : l.Fits host b life)
    (hmay : l.stage.mayWrite (.prompt text)) :
    (l.write (.prompt text)).Fits host (Write.apply clock b (.prompt text)) life := by
  obtain ⟨stage, dead⟩ := l
  refine ⟨fun hdead => hl.dead (by simpa [Pass.write, finalizes] using hdead), fun _ => ?_, ?_⟩
  · refine (hl.untouched ?_).write rfl
    cases stage with
    | caller => exact absurd rfl hworks
    | _ => exact hmay
  · cases stage with
    | caller => exact absurd rfl hworks
    | replied _ _ _ | counted _ _ _ | cleared _ _ _ => cases hmay
    | unknown | spent => trivial
    | other | coder => exact hl.stage
    | screened prompt => exact hl.stage.1.coder

/-- The call is counted. -/
lemma fits_countCall (tokens : ℤ) (hworks : l.Works) (hl : l.Fits host b life)
    (hmay : l.stage.mayWrite (.countCall tokens)) :
    (l.write (.countCall tokens)).Fits host (Write.apply clock b (.countCall tokens)) life := by
  obtain ⟨stage, dead⟩ := l
  have hdead : (Pass.write (.countCall tokens) ⟨stage, dead⟩).dead = true → b.isTerminal = true :=
    fun hdead => hl.dead (by simpa [Pass.write, finalizes] using hdead)
  have hstage : stage = .other ∨ ∃ prompt messages r, stage = .replied prompt messages r := by
    cases stage with
    | caller => exact absurd rfl hworks
    | _ => exact hmay
  obtain rfl | ⟨prompt, messages, r, rfl⟩ := hstage
  · have hother : isCoder b = false := hl.stage
    refine ⟨hdead, fun _ _ hcoder => ?_, hother⟩
    rw [isCoder_apply, hother] at hcoder
    cases hcoder
  · obtain ⟨hcleared, hspared, hsent, hanswered⟩ := hl.stage
    refine ⟨hdead, ?_, ⟨hcleared.coder, hcleared.prompt_eq, hcleared.allowed, ?_⟩, hspared,
      hsent, hanswered⟩
    · intro hspent
      cases hspent
    · exact congrArg (· + 1) hcleared.calls_eq

/-- The agent ends. -/
lemma fits_final {st : AgentState} (hst : st.isTerminal = true) (now : Time)
    (hl : l.Fits host b life) :
    Pass.Fits host (b.transition st now) life ⟨l.stage.finalize, true⟩ := by
  have hterm : (b.transition st now).isTerminal = true := by
    rw [b.isTerminal_transition, hst, Bool.or_true]
  have hcoder : isCoder (b.transition st now) = isCoder b := by
    rw [isCoder, isCoder, b.transition_frame]
  refine ⟨fun _ => hterm, fun _ hlive => ?_, ?_⟩
  · rw [hterm] at hlive
    cases hlive
  · obtain ⟨stage, dead⟩ := l
    cases stage with
    | caller | unknown | spent | replied _ _ _ | counted _ _ _ => trivial
    | other | coder => exact hcoder.trans hl.stage
    | screened prompt => exact hcoder.trans hl.stage.1.coder
    | cleared prompt messages r =>
      obtain ⟨hcleared, hrest⟩ := hl.stage
      refine ⟨⟨hcoder.trans hcleared.coder, ?_, hcleared.allowed, ?_⟩, hrest⟩
      · rw [b.transition_frame]
        exact hcleared.prompt_eq
      · rw [b.transition_llmCallsUsed]
        exact hcleared.calls_eq

variable (clock) in
/-- What the holder of an agent knows is so after it has written to the agent. -/
lemma Pass.Fits.write (hl : l.Fits host b life) (hworks : l.Works) (hmay : l.stage.mayWrite c) :
    (l.write c).Fits host (c.apply clock b) life := by
  have hmild : Mild c → l.write c = l → (l.write c).Fits host (c.apply clock b) life := by
    intro hc heq
    rw [heq]
    exact (drifts_write hc).fits hl
  cases c with
  | prompt text => exact fits_prompt text hworks hl hmay
  | countCall tokens => exact fits_countCall tokens hworks hl hmay
  | transition st =>
    cases hst : st.isTerminal with
    | true =>
      rw [write_of_isTerminal hst]
      exact fits_final hst _ hl
    | false =>
      refine hmild hst ?_
      simp only [Pass.write, Stage.write, finalizes, hst, Bool.false_eq_true, if_false,
        Bool.or_false]
  | _ =>
    refine hmild trivial ?_
    simp only [Pass.write, Stage.write, finalizes, Bool.or_false]

/-- What a worker knows of its agent agrees with the block that it reads. -/
lemma Pass.Fits.agrees (hl : l.Fits host b life) : l.stage.Agrees b := by
  obtain ⟨stage, dead⟩ := l
  cases stage with
  | other | coder => exact hl.stage
  | screened prompt => exact ⟨hl.stage.1.coder, hl.stage.1.prompt_eq⟩
  | _ => trivial

/-- What the holder of an agent knows is so after it has looked at the agent. -/
lemma Pass.Fits.read (hl : l.Fits host b life) (hlife : Lawful host b life) :
    (l.read host b).Fits host b life := by
  refine ⟨fun hdead => ?_, fun hspends => ?_, ?_⟩
  · rcases Bool.or_eq_true_iff.1 hdead with hdead | hdead
    · exact hl.dead hdead
    · exact hdead
  · exact hl.untouched (by rwa [← Stage.spends_read host b])
  · obtain ⟨stage, dead⟩ := l
    -- an agent that was not touched is seen for the first time
    have hfresh : stage.spends = false → (Stage.read host b .unknown).Fits host b life := by
      intro hopen
      simp only [Stage.read]
      split
      · next hcoder =>
        split
        · next hpass =>
          simp only [Bool.and_eq_true, Bool.not_eq_true', Option.isNone_iff_eq_none] at hpass
          obtain ⟨hcalls, hnil⟩ := hl.untouched hopen hpass.1 hcoder
          refine ⟨⟨hcoder, rfl, hpass.2, hcalls⟩, fun hdead => ?_, ?_⟩
          · rw [hpass.1] at hdead
            cases hdead
          · rw [hnil]
            exact kills_nil
        · exact hcoder
      · next hother => exact Bool.eq_false_iff.2 hother
    cases stage with
    | unknown | coder => exact hfresh rfl
    | counted prompt messages r =>
      obtain ⟨hcleared, hspared, hsent, before, after, rfl, hbefore, hafter⟩ := hl.stage
      show (Stage.read host b (.counted prompt messages r)).Fits _ _ _
      simp only [Stage.read]
      split
      · exact ⟨hcleared, hspared, hsent, before, after, rfl, hbefore, hafter⟩
      · next hlive =>
        -- it was not killed before the call returned
        have hbefore' : before = [] := by
          by_contra hne
          obtain ⟨e, rest, rfl⟩ := List.exists_cons_of_ne_nil hne
          obtain rfl : e = .killed := hbefore e List.mem_cons_self
          exact hlive (hspared (hlife.killed List.mem_cons_self))
        rw [hbefore']
        exact ⟨hcleared, hsent, after, rfl, hafter⟩
    | _ => exact hl.stage

/-- What the holder of an agent knows is so after the call of a step. -/
lemma Pass.Fits.ask {messages : List ChatMessage} (hl : l.Fits host b life)
    (hallow : l.stage = .other ∨ ∃ prompt, l.stage = .screened prompt ∧ Carries prompt messages)
    (answer : Except Exn ChatResult) :
    (l.ask messages answer).Fits host b (life ++ [.replied messages answer]) := by
  obtain ⟨stage, dead⟩ := l
  obtain ⟨hdead, -, hstage⟩ := hl
  rcases hallow with hother | ⟨prompt, hscreened, hsent⟩
  · obtain rfl : stage = .other := hother
    refine ⟨hdead, fun _ _ hcoder => ?_, hstage⟩
    rw [show isCoder b = false from hstage] at hcoder
    cases hcoder
  · obtain rfl : stage = .screened prompt := hscreened
    obtain ⟨hcleared, hspared, hkills⟩ := hstage
    cases answer with
    | error e => exact ⟨hdead, nofun, trivial⟩
    | ok r => exact ⟨hdead, nofun, hcleared, hspared, hsent, life, [], rfl, hkills, kills_nil⟩

/-- The code that gets to the sandbox has passed the gates. -/
lemma Pass.Fits.ran {prompt code : String} {messages : List ChatMessage} {r : ChatResult}
    (hl : l.Fits host b life) (hstage : l.stage = .cleared prompt messages r)
    (hextract : host.extractPython r.content = some code) (hcode : code.toList ≠ [])
    (hscan : host.scanCode code = none) : Gated host (life ++ [.ran code b]) := by
  have hfits := hl.stage
  rw [hstage] at hfits
  obtain ⟨⟨hcoder, rfl, hallowed, hcalls⟩, hsent, kills, rfl, hkills⟩ := hfits
  refine .inr ⟨messages, r, kills, code, b, [], rfl, hkills, kills_nil.unrun, ?_⟩
  rw [isCoder, Bool.and_eq_true] at hcoder
  exact ⟨hcoder.1, hcalls, hallowed, hsent, hextract, hcode, hscan⟩

/-- An agent that its worker may let go of is untouched if it lives. -/
lemma Pass.Fits.release (hl : l.Fits host b life) (hfree : l.Free) : Untouched b life := by
  rcases hfree with hopen | hdead
  · exact hl.untouched hopen
  · intro hlive
    rw [hl.dead hdead] at hlive
    cases hlive

end Gcos.Pool
