import Gcos.Exec.Step
import Gcos.Memory.Footprint

/-!
# The course of a step

The steps of the three kinds of agents take the same course: the block is looked at, and the
step is over when the agent has ended; it fails if the agent may not call; or the messages are
assembled and the call is made, a reply is counted, the block is looked at again, the texts
are recorded and the agent is moved to its last state.

The discipline here says of a step how far it has come.  The programs are followed through it
once (`course_runStep`); what else is to be known about every step is proved operation by
operation (`Prog.Obeys.simulate`).
-/

namespace Gcos.Exec

open Lib Prog Memory

/-- How far a step has come. -/
inductive Point
  | start
  /-- The agent was found live, with a unit left or without one. -/
  | live (able : Bool)
  /-- The pager has taken a unit for a summary. -/
  | lent
  /-- The agent has failed, and the error is still to be recorded. -/
  | failing
  /-- A reply has come. -/
  | replied
  /-- It was counted. -/
  | counted
  /-- The agent was not killed meanwhile. -/
  | met
  /-- Texts of the agent were recorded. -/
  | drafted
  /-- The agent has ended, before its call or after it. -/
  | ended (called : Bool)
deriving DecidableEq, Repr

namespace Point

/-- Which write may be performed where. -/
def allowsWrite : Write → Point → Prop
  | .transition st, live _ => st = .running ∨ st = .error ∨ st = .timeout
  | .transition st, drafted => st = .done ∨ st = .error
  | .error _, st => st = failing ∨ st = met ∨ st = drafted
  | .result _, st => st = met ∨ st = drafted
  | .countCall _, st => st = replied
  | c, st => c.isPage = true ∧ (st = live true ∨ st = met ∨ st = drafted)

/-- Which operation may be performed where.  `sandboxed`: code may be run; `free`: summaries may
be made outside the quota. -/
def allows (p : Pid) (sandboxed : Bool) (free : Prop) : {β : Type} → KOp β → Point → Prop
  | _, .readPcb q .fields, _ => q = p
  | _, .readPcb q .terminal, st => q = p ∧ st = start
  | _, .readPcb q .zombie, st => q = p ∧ st = counted
  | _, .write q c, st => q = p ∧ st.allowsWrite c
  | _, .chat .step _, st | _, .acquire, st | _, .swapOut _ _, st | _, .now, st => st = live true
  | _, .chat (.summarize true) _, st | _, .refund, st => st = lent
  | _, .chat (.summarize false) _, st => st = live true ∧ free
  | _, .runPython _ _ _, st => st = met ∧ sandboxed = true
  | _, _, _ => False

/-- How far the step has come with a write. -/
def write : Write → Point → Point
  | .transition st, live able => if st = .running then live able else failing
  | .transition _, _ => ended true
  | .error _, failing => ended false
  | .error _, _ | .result _, _ => drafted
  | .countCall _, _ => counted
  | _, st => st

/-- How far the step has come with the answer. -/
def after : {β : Type} → KOp β → β → Point → Point
  | _, .readPcb _ .terminal, pcb, _ =>
    if pcb.isTerminal then ended false else live (0 < pcb.quotaRemaining)
  | _, .readPcb _ .zombie, pcb, _ => if pcb.state = .zombie then ended true else met
  | _, .write _ c, _, st => st.write c
  | _, .chat .step _, answer, st => if answer.toBool then replied else st
  | _, .chat (.summarize true) _, answer, st => if answer.toBool then live true else st
  | _, .acquire, got, st => if got then lent else st
  | _, .refund, _, _ => live true
  | _, _, _, st => st

/-- The agent may still make its call, or has just made it. -/
def asks : Point → Bool
  | live _ | lent | replied => true
  | start | failing | counted | met | drafted | ended _ => false

/-- The agent has not been ended by the step. -/
def goes : Point → Bool
  | failing | ended _ => false
  | start | live _ | lent | replied | counted | met | drafted => true

/-- The call has been made. -/
def called : Point → Bool
  | replied | counted | met | drafted => true
  | start | live _ | lent | failing => false
  | ended called => called

lemma called_after {p : Pid} {sandboxed : Bool} {free : Prop} {β : Type} {o : KOp β} {st : Point}
    (ho : st.allows p sandboxed free o) (hst : st.called = true) (b : β) :
    (st.after o b).called = true := by
  cases o with
  | readPcb q look =>
    cases look with
    | fields => exact hst
    | terminal =>
      obtain ⟨-, rfl⟩ := ho
      cases hst
    | zombie =>
      simp only [after]
      split <;> rfl
  | write q c =>
    cases st with
    | start | live able | lent | failing => cases hst
    | ended called => cases c <;> first | exact hst | rfl
    | _ => cases c <;> rfl
  | chat purpose request =>
    cases purpose with
    | step =>
      obtain rfl : st = live true := ho
      cases hst
    | summarize metered =>
      cases metered with
      | true =>
        obtain rfl : st = lent := ho
        cases hst
      | false => exact hst
  | acquire =>
    obtain rfl : st = live true := ho
    cases hst
  | refund =>
    obtain rfl : st = lent := ho
    cases hst
  | _ => exact hst

/-- Where a step ends, by its answer. -/
def Ends (answer : Except Exn Bool) (st : Point) : Prop :=
  match answer with
  | .ok true => st = met
  | .ok false => ∃ called, st = ended called
  | .error _ => st = live true ∨ st = met

end Point

/-- The discipline of a step of `p`. -/
def course (p : Pid) (sandboxed : Bool) (free : Prop) : Discipline KOp Point where
  pre o st := st.allows p sandboxed free o
  post o st b st' := st' = st.after o b

/-- The policies make summarize calls outside the quota only if that is allowed. -/
def Fits (cfg : KernelConfig) (free : Prop) : Prop :=
  ∀ policy ∈ cfg.pager.policies, policy.callsFree = true → free

variable {cfg : KernelConfig} {host : Host} {p : Pid} {sandboxed : Bool} {free : Prop} {st : Point}

section

variable {α β : Type} {Q : α → Point → Prop}

/-- The rule for one operation. -/
lemma course_step {o : KOp β} {k : β → Prog KOp α} (hpre : st.allows p sandboxed free o)
    (hk : ∀ b, (k b).Obeys (course p sandboxed free) (st.after o b) Q) :
    (perform o >>= k).Obeys (course p sandboxed free) st Q := by
  refine Obeys.step hpre ?_
  rintro b _ rfl
  exact hk b

/-- A look at the block. -/
lemma course_read {k : AgentControlBlock → Prog KOp α}
    (hk : ∀ pcb, (k pcb).Obeys (course p sandboxed free) st Q) :
    (perform (.readPcb p .fields) >>= k).Obeys (course p sandboxed free) st Q :=
  course_step rfl hk

/-- A write to the conversation. -/
lemma course_page {c : Write} (hc : c.isPage = true) {k : Unit → Prog KOp α}
    (hst : st = .live true ∨ st = .met ∨ st = .drafted)
    (hk : (k ()).Obeys (course p sandboxed free) st Q) :
    (perform (.write p c) >>= k).Obeys (course p sandboxed free) st Q := by
  have hwrite : st.allowsWrite c ∧ st.write c = st := by
    cases c with
    | removePage _ | insertPage _ _ | appendPage _ | touchPages | countStep | observe _ =>
      exact ⟨⟨rfl, hst⟩, by cases st <;> rfl⟩
    | _ => cases hc
  refine course_step ⟨rfl, hwrite.1⟩ fun _ => ?_
  show (k ()).Obeys _ (st.write c) Q
  rw [hwrite.2]
  exact hk

/-- A page that is appended on a condition. -/
lemma course_append {c : Prop} [Decidable c] {page : PageDraft} {k : Unit → Prog KOp α}
    (hst : st = .live true ∨ st = .met ∨ st = .drafted)
    (hk : (k ()).Obeys (course p sandboxed free) st Q) :
    (when c (perform (.write p (.appendPage page))) >>= k).Obeys
      (course p sandboxed free) st Q := by
  unfold when
  split
  · exact course_page rfl hst hk
  · exact hk

/-- The look for `ZOMBIE` after the call has been counted. -/
lemma course_count {tokens : ℤ} {k : AgentControlBlock → Prog KOp (Except Exn Bool)}
    (hk : ∀ pcb, (k pcb).Obeys (course p sandboxed free) .met Point.Ends) :
    (do perform (.write p (.countCall tokens))
        let pcb ← perform (.readPcb p .zombie)
        if pcb.state = .zombie then return .ok false else k pcb :
      Prog KOp (Except Exn Bool)).Obeys (course p sandboxed free) .replied Point.Ends := by
  refine course_step ⟨rfl, rfl⟩ fun _ => course_step ⟨rfl, rfl⟩ fun pcb => ?_
  by_cases hzombie : pcb.state = .zombie
  · simp only [Point.after, if_pos hzombie]
    exact ⟨true, rfl⟩
  · simp only [Point.after, if_neg hzombie]
    exact hk pcb

end

/-! ### Failing and finishing -/

lemma course_failWith {st' : AgentState} (hst : st' = .error ∨ st' = .timeout) (msg : String)
    {able : Bool} :
    (failWith p st' msg).Obeys (course p sandboxed free) (.live able)
      fun _ st => st = .ended false := by
  refine course_step ⟨rfl, .inr hst⟩ fun _ => ?_
  have hfailing : (Point.live able).after (.write p (.transition st')) () = .failing := by
    rcases hst with rfl | rfl <;> rfl
  rw [hfailing]
  refine ⟨⟨rfl, .inl rfl⟩, ?_⟩
  rintro - _ rfl
  rfl

lemma course_failWithExn (e : Exn) {able : Bool} :
    (failWithExn p e).Obeys (course p sandboxed free) (.live able)
      fun _ st => st = .ended false := by
  cases e with
  | timeout msg => exact course_failWith (.inr rfl) msg
  | other cls msg => exact course_failWith (.inl rfl) _

/-- A step that fails before its call or with it. -/
lemma course_fail {prog : Prog KOp Unit} {able : Bool}
    (h : prog.Obeys (course p sandboxed free) (.live able) fun _ st => st = .ended false) :
    (prog >>= fun _ => (pure (.ok false) : Prog KOp (Except Exn Bool))).Obeys
      (course p sandboxed free) (.live able) Point.Ends :=
  h.bind _ fun _ _ hended => ⟨false, hended⟩

/-- The last transition of a step. -/
lemma course_seal {st' : AgentState} (hst : st' = .done ∨ st' = .error) :
    (perform (.write p (.transition st')) >>= fun _ =>
      (pure (.ok false) : Prog KOp (Except Exn Bool))).Obeys (course p sandboxed free) .drafted
      Point.Ends :=
  course_step ⟨rfl, hst⟩ fun _ => ⟨true, rfl⟩

/-- The result and the last transition. -/
lemma course_finish (text : String) :
    (do perform (.write p (.result text)); perform (.write p (.transition .done))
        return .ok false : Prog KOp (Except Exn Bool)).Obeys (course p sandboxed free) .met
      Point.Ends :=
  course_step ⟨rfl, .inl rfl⟩ fun _ => course_seal (.inl rfl)

/-! ### The call -/

/-- How far a step has come while its messages are assembled. -/
def Point.paging : Purse → Point
  | .even => live true
  | .lent => lent

/-- The operations of the pager, in a step. -/
lemma course_assemble (hfits : Fits cfg free) (extra : Option String) :
    (assemble cfg.pager p extra).Obeys (course p sandboxed free) (.live true)
      fun _ st => st = .live true := by
  refine ((pages_assemble hfits extra).simulate
    (R := fun s st => st = .paging s) ?_ rfl).mono ?_
  · rintro β o s st rfl ⟨ho, hs⟩
    cases o with
    | readPcb q look =>
      cases look with
      | fields =>
        refine ⟨ho, ?_⟩
        rintro b _ rfl
        exact ⟨s, rfl, rfl⟩
      | terminal | zombie => exact ho.elim
    | write q c =>
      obtain rfl : s = .even := by cases c <;> exact hs
      cases c with
      | removePage page | insertPage i draft =>
        refine ⟨⟨ho.1, rfl, .inl rfl⟩, ?_⟩
        rintro b _ rfl
        exact ⟨.even, rfl, rfl⟩
      | touchPages =>
        refine ⟨⟨ho, rfl, .inl rfl⟩, ?_⟩
        rintro b _ rfl
        exact ⟨.even, rfl, rfl⟩
      | _ => exact ho.elim
    | chat purpose request =>
      cases purpose with
      | step => exact ho.elim
      | summarize metered =>
        cases metered with
        | true =>
          obtain rfl : s = .lent := hs
          refine ⟨rfl, ?_⟩
          rintro (e | r) _ rfl
          · exact ⟨.lent, rfl, rfl⟩
          · exact ⟨.even, rfl, rfl⟩
        | false =>
          obtain ⟨rfl, hfree⟩ : s = .even ∧ free := hs
          refine ⟨⟨rfl, hfree⟩, ?_⟩
          rintro b _ rfl
          exact ⟨.even, rfl, rfl⟩
    | acquire =>
      obtain rfl : s = .even := hs
      refine ⟨rfl, ?_⟩
      rintro (_ | _) _ rfl
      · exact ⟨.even, rfl, rfl⟩
      · exact ⟨.lent, rfl, rfl⟩
    | refund =>
      obtain rfl : s = .lent := hs
      refine ⟨rfl, ?_⟩
      rintro b _ rfl
      exact ⟨.even, rfl, rfl⟩
    | now | swapOut q pages =>
      obtain rfl : s = .even := hs
      refine ⟨rfl, ?_⟩
      rintro b _ rfl
      exact ⟨.even, rfl, rfl⟩
    | _ => exact ho.elim
  · rintro answer _ ⟨_, rfl, rfl⟩
    rfl

/-- The messages are assembled, and then something follows. -/
lemma course_call {α : Type} {Q : α → Point → Prop} (hfits : Fits cfg free) {extra : Option String}
    {k : Except Exn (List ChatMessage) → Prog KOp α}
    (hk : ∀ answer, (k answer).Obeys (course p sandboxed free) (.live true) Q) :
    (assemble cfg.pager p extra >>= k).Obeys (course p sandboxed free) (.live true) Q := by
  refine (course_assemble hfits extra).bind _ ?_
  rintro answer _ rfl
  exact hk answer

/-- The client is asked. -/
lemma course_chat {α : Type} {Q : α → Point → Prop} {request : ChatRequest}
    {k : Except Exn ChatResult → Prog KOp α}
    (hraise : ∀ e, (k (.error e)).Obeys (course p sandboxed free) (.live true) Q)
    (hreply : ∀ r, (k (.ok r)).Obeys (course p sandboxed free) .replied Q) :
    (perform (.chat .step request) >>= k).Obeys (course p sandboxed free) (.live true) Q := by
  refine course_step rfl fun answer => ?_
  cases answer with
  | error e => exact hraise e
  | ok r => exact hreply r

lemma course_chatStep (hfits : Fits cfg free) {extra : AgentControlBlock → Option String}
    {request : AgentControlBlock → List ChatMessage → ChatRequest}
    {finish : ChatResult → Prog KOp (Except Exn Bool)}
    (hfinish : ∀ r, (finish r).Obeys (course p sandboxed free) .replied Point.Ends) :
    (chatStep cfg p extra request finish).Obeys (course p sandboxed free) (.live true)
      Point.Ends := by
  refine course_read fun pcb => course_call hfits fun answer => ?_
  cases answer with
  | error e => exact .inl rfl
  | ok messages => exact course_chat (fun e => course_fail (course_failWithExn e)) hfinish

/-- The test at the beginning of a step.  Only with a unit left it comes to a call. -/
lemma course_test {k : AgentControlBlock → Prog KOp (Except Exn Bool)}
    (hk : ∀ pcb, (k pcb).Obeys (course p sandboxed free) (.live (0 < pcb.quotaRemaining))
      Point.Ends) :
    (do let pcb ← perform (.readPcb p .terminal)
        if pcb.isTerminal then return .ok false else k pcb : Prog KOp (Except Exn Bool)).Obeys
      (course p sandboxed free) .start Point.Ends := by
  refine course_step ⟨rfl, rfl⟩ fun pcb => ?_
  cases hdead : pcb.isTerminal with
  | true =>
    simp only [Point.after, hdead, if_true]
    exact ⟨false, rfl⟩
  | false =>
    simp only [Point.after, hdead, Bool.false_eq_true, if_false]
    exact hk pcb

lemma live_of_units {units : ℤ} (h : ¬units ≤ 0) : Point.live (0 < units) = .live true := by
  rw [decide_eq_true (not_le.1 h)]

/-! ### The three kinds of steps -/

lemma course_enterRunning :
    (enterRunning p).Obeys (course p sandboxed free) (.live true) fun _ st => st = .live true := by
  refine course_read fun pcb => ?_
  split
  · rfl
  · refine ⟨⟨rfl, .inl rfl⟩, ?_⟩
    rintro - _ rfl
    rfl

lemma course_finishPlain (r : ChatResult) :
    (finishPlain p r).Obeys (course p sandboxed free) .replied Point.Ends := by
  refine course_count fun pcb => course_step ⟨rfl, .inl rfl⟩ fun _ => ?_
  refine course_append (.inr (.inr rfl)) (course_page rfl (.inr (.inr rfl)) ?_)
  exact course_seal (.inl rfl)

lemma course_runPlainStep (hfits : Fits cfg free) :
    (runPlainStep cfg p).Obeys (course p sandboxed free) .start Point.Ends := by
  refine course_test fun pcb => ?_
  split
  · exact course_fail (course_failWith (.inl rfl) _)
  · next hunits =>
    rw [live_of_units hunits]
    refine course_enterRunning.bind _ ?_
    rintro - _ rfl
    refine obeys_bind.2 (course_read fun pcb => course_call hfits fun answer => ?_)
    cases answer with
    | error e => exact course_fail (course_failWithExn e)
    | ok messages =>
      refine course_chat (fun e => ?_) fun r => course_finishPlain r
      exact course_fail (course_failWithExn e)

lemma course_finishReact (r : ChatResult) :
    (finishReact host p r).Obeys (course p sandboxed free) .replied Point.Ends := by
  have hmet : Point.met = .live true ∨ Point.met = .met ∨ Point.met = .drafted := .inr (.inl rfl)
  refine course_count fun pcb => course_append hmet ?_
  refine course_page rfl hmet (course_page rfl hmet ?_)
  split
  · exact course_finish _
  · exact course_page rfl hmet (course_page rfl hmet rfl)

lemma course_runReactStep (hfits : Fits cfg free) :
    (runReactStep cfg p).Obeys (course p sandboxed free) .start Point.Ends := by
  refine course_test fun pcb => ?_
  split
  · exact course_fail (course_failWith (.inl rfl) _)
  · next hunits =>
    split
    · exact course_fail (course_failWith (.inl rfl) _)
    · rw [live_of_units hunits]
      refine course_enterRunning.bind _ ?_
      rintro - _ rfl
      rw [reactCall_eq]
      exact course_chatStep hfits course_finishReact

lemma course_ensureCoderSystemPinned :
    (ensureCoderSystemPinned p).Obeys (course p sandboxed free) (.live true)
      fun _ st => st = .live true := by
  refine course_read fun pcb => ?_
  split
  · rfl
  · refine ⟨⟨rfl, rfl, .inl rfl⟩, ?_⟩
    rintro - _ rfl
    rfl

lemma course_runSandbox (pcb : AgentControlBlock) (reply code : String) :
    (runSandbox p pcb reply code).Obeys (course p true free) .met Point.Ends := by
  refine course_step ⟨rfl, rfl⟩ fun answer => ?_
  cases answer with
  | error e => exact .inr rfl
  | ok r =>
    refine course_step ⟨rfl, .inl rfl⟩ fun _ => ?_
    split
    · exact course_seal (.inl rfl)
    · exact course_step ⟨rfl, .inr (.inr rfl)⟩ fun _ => course_seal (.inr rfl)

lemma course_finishCoder (r : ChatResult) :
    (finishCoder host p r).Obeys (course p true free) .replied Point.Ends := by
  have hmet : Point.met = .live true ∨ Point.met = .met ∨ Point.met = .drafted := .inr (.inl rfl)
  refine course_count fun pcb => course_append hmet (course_page rfl hmet ?_)
  split
  · exact course_finish _
  · split
    · exact course_finish _
    · split
      · exact course_finish _
      · split
        · refine course_step ⟨rfl, .inr (.inl rfl)⟩ fun _ => ?_
          exact course_step ⟨rfl, .inr rfl⟩ fun _ => course_seal (.inr rfl)
        · exact course_runSandbox _ _ _

lemma course_runCoderStep (hfits : Fits cfg free) :
    (runCoderStep cfg p).Obeys (course p true free) .start Point.Ends := by
  refine course_test fun pcb => ?_
  split
  · exact course_fail (course_failWith (.inl rfl) _)
  · split
    · exact course_fail (course_failWith (.inl rfl) _)
    · next hunits =>
      rw [live_of_units hunits]
      refine course_step ⟨rfl, .inl rfl⟩ fun _ => course_ensureCoderSystemPinned.bind _ ?_
      rintro - _ rfl
      rw [coderCall_eq]
      exact course_chatStep hfits course_finishCoder

/-- **One step**, whatever the agent, its client and its sandbox do. -/
lemma course_runStep (hfits : Fits cfg free) :
    (runStep cfg p).Obeys (course p true free) .start Point.Ends := by
  refine course_read fun pcb => ?_
  split
  · exact course_runReactStep hfits
  · split
    · exact course_runCoderStep hfits
    · exact course_runPlainStep hfits

end Gcos.Exec
