import Gcos.Pool.Post

/-!
# The consumer's end of a pipe

An agent that was spawned with `input_from` waits for a message and has it substituted for
the placeholder in its prompt.  Nobody checks who sent the message: that it comes from the
agent named in `input_from` rests on the wiring of the agents that were spawned.  And
whether the input is still to come is decided anew at every dispatch, by looking for the
placeholder in the prompt as it is then: that the input is taken once rests on the text
that was substituted.
-/

namespace Gcos.Pool

open Lib World

variable {n : ℕ} {cfg : KernelConfig} {out : Outside} {rules : Rules} {m : Manner} {w w' : World n}
  {ls : Tid n → Note} {ms : Tid n → Hold} {t : Tid n} {β : Type} {o : KOp β}

/-- What a thread is about to do with the input of an agent. -/
inductive InputDeed
  /-- Take a message from a mailbox. -/
  | take (box : BoxId)
  /-- Substitute it into the prompt. -/
  | complete (c : Pid) (text : String)
  /-- Note in `_repark_waiting` since when the agent has been waiting; both outcomes of
  `_repark_waiting` lie behind this. -/
  | wait (c : Pid)
  /-- Park the agent. -/
  | park (c : Pid)
deriving DecidableEq, Repr

/-- The deeds among the writes to the block of `c`. -/
def writeDeed (c : Pid) : Write → Option InputDeed
  | .prompt text => some (.complete c text)
  | .waitingSince (some _) => some (.wait c)
  | .transition .waiting => some (.park c)
  | _ => none

/-- The deeds among the operations. -/
def opDeed : {β : Type} → KOp β → Option InputDeed
  | _, .mailboxGet box => some (.take box)
  | _, .write c v => writeDeed c v
  | _, _ => none

/-- The deed with which a program goes on. -/
def inputDeed : Prog KOp Bool → Option InputDeed
  | .ret _ => none
  | .op o _ => opDeed o

lemma code_of_take {prog : Prog KOp Bool} {box : BoxId}
    (h : inputDeed prog = some (.take box)) : ∃ k, prog = .op (.mailboxGet box) k := by
  cases prog with
  | ret a => cases h
  | op o k =>
    cases o with
    | mailboxGet b =>
      cases h
      exact ⟨k, rfl⟩
    | write c v =>
      simp only [inputDeed, opDeed, writeDeed] at h
      split at h <;> cases h
    | _ => cases h

/-- The other deeds are writes. -/
lemma code_of_writeDeed {prog : Prog KOp Bool} {d : InputDeed} (h : inputDeed prog = some d)
    (hd : ∀ box, d ≠ .take box) :
    ∃ c v k, prog = .op (.write c v) k ∧ writeDeed c v = some d := by
  cases prog with
  | ret a => cases h
  | op o k =>
    cases o with
    | mailboxGet b =>
      cases h
      exact absurd rfl (hd b)
    | write c v => exact ⟨c, v, k, rfl, h⟩
    | _ => cases h

/-- A worker that substitutes, or that looks how long the agent has been waiting, or that
parks it, knows that it wants input.  Only an agent that is being spawned is parked by
somebody else. -/
lemma wants_of_writeDeed {c : Pid} {v : Write} {d : InputDeed} (hd : writeDeed c v = some d)
    {l : Hold} (hpre : l.allows m (.write c v)) :
    (∃ g, l = .holding c g ∧ g.wants = true) ∨ d = .park c ∧ l = .client (some c) := by
  cases l with
  | idle | released => exact hpre.elim
  | holding p g =>
    obtain ⟨rfl, hmay⟩ := hpre
    refine .inl ⟨g, rfl, ?_⟩
    unfold writeDeed at hd
    split at hd
    · exact hmay.1
    · exact hmay
    · exact hmay
    · cases hd
  | client fresh =>
    right
    unfold writeDeed at hd
    split at hd
    · exact hpre.elim
    · exact hpre.elim
    · cases hd
      obtain rfl : fresh = some c := hpre
      exact ⟨rfl, rfl⟩
    · cases hd

/-! ### Whose message it is -/

/-- A message that is about to be substituted into the prompt of `c` was sent by the agent
that `c` names in `input_from`. -/
def FromUpstream (pool : Lib.Pool KOp (Tid n) (World n)) (post : Post n) (c : Pid) : Prop :=
  ∀ t text, inputDeed (pool.code t) = some (.complete c text) →
    ∃ msg, post.taken t = some msg ∧
      text = resolveInputPlaceholder (pool.shared.pcbs c).prompt msg ∧
      (pool.shared.pcbs c).inputFrom = some msg.fromPid

/-- Two agents pipe to a third one, which names the second: the message of the first is
substituted. -/
theorem stranger_is_substituted :
    ∃ as : List (Act (Tid 1) KernelCall),
      let sys := kernelSystem 1 { pager := {}, host := .inert } (.calm ⟨"hi", 1, 1, 2⟩)
      ¬FromUpstream (sys.run (boot 1 ⟨5, 5⟩) as) (sys.observed postman (boot 1 ⟨5, 5⟩) {} as) 3 := by
  refine ⟨Act.call (.client 0) (.spawn { prompt := "a", pipeTo := some 3 }) ::
    (steps 3 (.client 0) ++ Act.call (.client 0) (.spawn { prompt := "b", pipeTo := some 3 }) ::
      (steps 3 (.client 0) ++ Act.call (.client 0)
          (.spawn { prompt := inputPlaceholder, inputFrom := some 2 }) ::
        (steps 4 (.client 0) ++ steps 73 (.worker 0)))), fun h => ?_⟩
  obtain ⟨msg, htaken, -, hfrom⟩ := h (.worker 0) "hi" (by decide +kernel)
  have hmsg : msg = ⟨1, "hi", 0⟩ := by
    refine Option.some.inj (htaken.symm.trans ?_)
    decide +kernel
  rw [hmsg] at hfrom
  revert hfrom
  decide +kernel

/-- **The message comes from the agent named in `input_from`**, in every run in which no
agent but that one names the consumer as its `pipe_to`. -/
theorem fromUpstream_of_wiring {n : ℕ} (cfg : KernelConfig) (out : Outside) (quota : Quota)
    (as : List (Act (Tid n) KernelCall)) (c : Pid)
    (hwired : ∀ q, PipesTo ((kernelSystem n cfg out).run (boot n quota) as).shared q c →
      (((kernelSystem n cfg out).run (boot n quota) as).shared.pcbs c).inputFrom = some q) :
    FromUpstream ((kernelSystem n cfg out).run (boot n quota) as)
      ((kernelSystem n cfg out).observed postman (boot n quota) {} as) c := by
  intro t text hdeed
  obtain ⟨ls, ms, -, hH, hposted, hcode⟩ := (posted_run cfg out quota as).elim
  obtain ⟨c', v, k, hk, hv⟩ := code_of_writeDeed hdeed (fun _ h => by cases h)
  have hpre := (hcode t _ _ k hk).2
  obtain ⟨rfl, rfl⟩ : c' = c ∧ v = .prompt text := by
    unfold writeDeed at hv
    split at hv <;> cases hv
    exact ⟨rfl, rfl⟩
  cases hl : ms t with
  | idle | released | client _ =>
    rw [hl] at hpre
    exact hpre.elim
  | holding p g =>
    rw [hl] at hpre
    obtain ⟨rfl, -, pcb, msg, hseen, hgot, htext⟩ := hpre
    obtain ⟨htaken, hpipes⟩ := hposted.got t p g msg hl hgot
    refine ⟨msg, htaken, ?_, hwired _ hpipes⟩
    rw [((hH.fits t p g hl).seen pcb hseen).1]
    exact htext

/-- A producer and its consumer, at the moment of the substitution. -/
theorem fromUpstream_of_wiring_one_producer :
    ∃ as : List (Act (Tid 1) KernelCall),
      let sys := kernelSystem 1 { pager := {}, host := .inert } (.calm ⟨"hi", 1, 1, 2⟩)
      inputDeed ((sys.run (boot 1 ⟨5, 5⟩) as).code (.worker 0)) = some (.complete 2 "hi") ∧
        FromUpstream (sys.run (boot 1 ⟨5, 5⟩) as)
          (sys.observed postman (boot 1 ⟨5, 5⟩) {} as) 2 := by
  refine ⟨Act.call (.client 0) (.spawn { prompt := "a", pipeTo := some 2 }) ::
    (steps 3 (.client 0) ++ Act.call (.client 0)
        (.spawn { prompt := inputPlaceholder, inputFrom := some 1 }) ::
      (steps 4 (.client 0) ++ steps 40 (.worker 0))), by decide +kernel, ?_⟩
  refine fromUpstream_of_wiring _ _ _ _ 2 ?_
  rintro (q : ℤ) ⟨hq, hpipe⟩
  obtain ⟨hpos, hlt⟩ : (1 : ℤ) ≤ q ∧ q < (3 : ℤ) := hq
  have hq' : q = 1 ∨ q = 2 := by omega
  rcases hq' with rfl | rfl
  · decide +kernel
  · revert hpipe
    decide +kernel

/-! ### Input once -/

/-- From here on the agent `c` neither takes a message from its mailbox nor is parked, and
`_repark_waiting` is not entered for it. -/
def InputClosed (pool : Lib.Pool KOp (Tid n) (World n)) (post : Post n) (c : Pid) : Prop :=
  ∀ t, (∀ box, inputDeed (pool.code t) = some (.take box) → post.owner box ≠ c) ∧
    inputDeed (pool.code t) ≠ some (.wait c) ∧ inputDeed (pool.code t) ≠ some (.park c)

/-- A message was substituted into the prompt of `c`. -/
def Resolved (post : Post n) (c : Pid) : Prop := ∃ r ∈ post.resolved, r.agent = c

/-- What was substituted into the prompt of `c` left no placeholder in it. -/
def ResolvedCleanly (post : Post n) (c : Pid) : Prop :=
  ∀ r ∈ post.resolved, r.agent = c → ∀ msg, r.msg = some msg →
    needsInput (resolveInputPlaceholder r.prompt msg) = false

/-- The result of the producer is a placeholder itself.  The consumer is sent back to the
queue for want of quota, and at its next dispatch it takes from its mailbox again. -/
theorem input_taken_again :
    ∃ as : List (Act (Tid 1) KernelCall),
      let sys := kernelSystem 1 { pager := {}, host := .inert } (.calm ⟨inputPlaceholder, 1, 1, 2⟩)
      let post := sys.observed postman (boot 1 ⟨1, 1⟩) {} as
      Resolved post 2 ∧ ¬InputClosed (sys.run (boot 1 ⟨1, 1⟩) as) post 2 := by
  refine ⟨Act.call (.client 0) (.spawn { prompt := "a", pipeTo := some 2 }) ::
    (steps 3 (.client 0) ++ Act.call (.client 0)
        (.spawn { prompt := inputPlaceholder, inputFrom := some 1 }) ::
      (steps 4 (.client 0) ++ steps 55 (.worker 0))), ?_, fun h => ?_⟩
  · unfold Resolved
    decide +kernel
  · refine (h (.worker 0)).1 0 ?_ ?_
    · decide +kernel
    · decide +kernel

/-- The prompt of an agent is changed by its completion only. -/
lemma prompt_exec {p : Pid} (hp : Allocated w.nextPid p)
    (hwrite : ∀ text, opDeed o ≠ some (.complete p text)) :
    ((exec cfg out t o w).2.pcbs p).prompt = (w.pcbs p).prompt := by
  have hstep := pcb_exec cfg out t o hp.2.ne
  generalize (exec cfg out t o w).2.pcbs p = b at hstep ⊢
  cases hstep with
  | write c =>
    cases c with
    | prompt text => exact absurd rfl (hwrite text)
    | transition st => rw [Write.apply, AgentControlBlock.transition_frame]
    | _ => rfl
  | put _ => rw [AgentControlBlock.transition_frame]
  | same => rfl

/-- An agent whose prompt was completed cleanly has no placeholder left, and it is not one
that is being spawned. -/
def Completed (w : World n) (post : Post n) : Prop :=
  ∀ c, Resolved post c → ResolvedCleanly post c →
    needsInput (w.pcbs c).prompt = false ∧ c ∈ w.enqueued

/-- The observer adds to its record of the substitutions only when there is one. -/
lemma resolved_postman {b : β} {post : Post n} (ho : ∀ c text, opDeed o ≠ some (.complete c text)) :
    (postman t o w b post).resolved = post.resolved := by
  cases o with
  | write p c =>
    cases c with
    | prompt text => exact absurd rfl (ho p text)
    | _ => rfl
  | _ => rfl

/-- **The completed prompts stay complete**, one operation at a time. -/
lemma upholds_completed (cfg : KernelConfig) (out : Outside) :
    Upholds (n := n) cfg out {} {} postman
      (fun w post _ ms => Posted w post ms ∧ Completed w post) System.noGuard := by
  intro β t o w post ls ms l l' hI hH ⟨hposted, h⟩ hpre₁ hpre hK hlearn₁ hlearn hI' hH'
  refine ⟨upholds_posted cfg out {} {} System.noGuard β t o w post ls ms l l' hI hH hposted hpre₁
    hpre hK hlearn₁ hlearn hI' hH', fun c hres hclean => ?_⟩
  have hframe : (∀ p text, opDeed o ≠ some (.complete p text)) →
      needsInput ((exec cfg out t o w).2.pcbs c).prompt = false ∧
        c ∈ (exec cfg out t o w).2.enqueued := by
    intro hnone
    rw [Resolved, resolved_postman hnone] at hres
    rw [ResolvedCleanly, resolved_postman hnone] at hclean
    obtain ⟨hprompt, henq⟩ := h c hres hclean
    refine ⟨?_, mem_enqueued_exec henq⟩
    rw [prompt_exec (hI.owned.allocated c henq) (hnone c)]
    exact hprompt
  cases o with
  | write q v =>
    cases v with
    | prompt text =>
      cases hl : ms t with
      | idle | released | client _ =>
        rw [hl] at hpre
        exact hpre.elim
      | holding p g =>
        -- the worker has read the prompt, and it has taken the message
        rw [hl] at hpre
        obtain ⟨rfl, hwants, pcb, msg, hseen, hgot, rfl⟩ := hpre
        obtain ⟨htaken, -⟩ := hposted.got t p g msg hl hgot
        have hfits := hH.fits t p g hl
        have henq := (hI.owned.held t p ((hH.held t p).2 ⟨g, hl⟩)).1
        have hrecord : ∀ r, r ∈ (postman t (.write p (.prompt (resolveInputPlaceholder pcb.prompt
            msg))) w () post).resolved ↔ r ∈ post.resolved ∨
              r = ⟨p, (w.pcbs p).prompt, post.taken t⟩ := by
          intro r
          simp [postman]
        by_cases hc : c = p
        · subst hc
          refine ⟨?_, henq⟩
          have hnew := hclean _ ((hrecord _).2 (.inr rfl)) rfl msg htaken
          simp only [exec, Function.update_self, Write.apply]
          rw [← (hfits.seen pcb hseen).1]
          exact hnew
        · obtain ⟨r, hr, rfl⟩ := hres
          have hr' : r ∈ post.resolved := by
            refine ((hrecord r).1 hr).resolve_right ?_
            rintro rfl
            exact hc rfl
          obtain ⟨hprompt, henq'⟩ := h r.agent ⟨r, hr', rfl⟩ fun r' h₁ h₂ msg' h₃ =>
            hclean r' ((hrecord r').2 (.inl h₁)) h₂ msg' h₃
          refine ⟨?_, henq'⟩
          simp only [exec, Function.update_of_ne hc]
          exact hprompt
    | transition st => exact hframe fun p text => by cases st <;> simp [opDeed, writeDeed]
    | waitingSince since => exact hframe fun p text => by cases since <;> simp [opDeed, writeDeed]
    | _ => exact hframe fun p text => by simp [opDeed, writeDeed]
  | _ => exact hframe fun p text => by simp [opDeed]

/-- **Input is resolved once.**  In every run, after a message was substituted into the
prompt of an agent and as long as what was substituted leaves no placeholder in it, the
agent never again takes a message from its mailbox and is never parked, and the wait for
its input is not looked at any more. -/
theorem inputClosed_of_resolvedCleanly {n : ℕ} (cfg : KernelConfig) (out : Outside)
    (quota : Quota) (as : List (Act (Tid n) KernelCall)) (c : Pid)
    (hres : Resolved ((kernelSystem n cfg out).observed postman (boot n quota) {} as) c)
    (hclean : ResolvedCleanly ((kernelSystem n cfg out).observed postman (boot n quota) {} as) c) :
    InputClosed ((kernelSystem n cfg out).run (boot n quota) as)
      ((kernelSystem n cfg out).observed postman (boot n quota) {} as) c := by
  have hrun : Holds {} {} (fun w post _ ms => Posted w post ms ∧ Completed w post)
      (((kernelSystem n cfg out).run (boot n quota) as).beside
        ((kernelSystem n cfg out).observed postman (boot n quota) {} as)) := by
    refine (holds_boot rfl ⟨posted_fresh, ?_⟩).run ⟨rfl, by simp, by simp, by simp, Nat.zero_le _⟩
      (upholds_completed cfg out) (System.meets_noGuard _ _ as) fun _ _ _ => ⟨by simp, by simp⟩
    rintro c ⟨r, hr, -⟩
    cases hr
  obtain ⟨ls, ms, hI, hH, ⟨hposted, hcompleted⟩, hcode⟩ := hrun.elim
  obtain ⟨hprompt, henq⟩ := hcompleted c hres hclean
  -- the worker that holds the agent does not believe that it wants input
  have hwants : ∀ t g, ms t = .holding c g → g.wants ≠ true := by
    intro t g hl hw
    have hneeds := ((hH.fits t c g hl).wants hw).2
    rw [hprompt] at hneeds
    cases hneeds
  have hwrites : ∀ t d, (∀ box, d ≠ .take box) → inputDeed
      (((kernelSystem n cfg out).run (boot n quota) as).code t) = some d → d ≠ .wait c ∧ d ≠ .park c := by
    intro t d hd hdeed
    obtain ⟨c', v, k, hk, hv⟩ := code_of_writeDeed hdeed hd
    have hpre := (hcode t _ _ k hk).2
    have hc' : d = .wait c ∨ d = .park c → c' = c := by
      unfold writeDeed at hv
      split at hv <;> cases hv <;> simp
    refine not_or.1 fun hcase => ?_
    obtain rfl := hc' hcase
    rcases wants_of_writeDeed hv hpre with ⟨g, hl, hw⟩ | ⟨-, hl⟩
    · exact hwants t g hl hw
    · exact (hI.owned.fresh t c' (hH.fresh t c' hl)).1 henq
  intro t
  refine ⟨fun box hdeed howner => ?_, fun hdeed => ?_, fun hdeed => ?_⟩
  · obtain ⟨k, hk⟩ := code_of_take hdeed
    obtain ⟨p, g, hl, hw, haim⟩ := (hcode t _ _ k hk).2
    obtain ⟨hp, -⟩ := hposted.aimed t p g p box hl haim
    obtain rfl : p = c := hp.symm.trans howner
    exact hwants t g hl hw
  · exact (hwrites t _ (by simp) hdeed).1 rfl
  · exact (hwrites t _ (by simp) hdeed).2 rfl

/-- A consumer whose input was an ordinary text, before its step. -/
theorem inputClosed_of_resolvedCleanly_plain_text :
    ∃ as : List (Act (Tid 1) KernelCall),
      let sys := kernelSystem 1 { pager := {}, host := .inert } (.calm ⟨"hi", 1, 1, 2⟩)
      let post := sys.observed postman (boot 1 ⟨1, 1⟩) {} as
      Resolved post 2 ∧ InputClosed (sys.run (boot 1 ⟨1, 1⟩) as) post 2 := by
  refine ⟨Act.call (.client 0) (.spawn { prompt := "a", pipeTo := some 2 }) ::
    (steps 3 (.client 0) ++ Act.call (.client 0)
        (.spawn { prompt := inputPlaceholder, inputFrom := some 1 }) ::
      (steps 4 (.client 0) ++ steps 55 (.worker 0))), ?_,
    inputClosed_of_resolvedCleanly _ _ _ _ 2 ?_ ?_⟩
  · unfold Resolved
    decide +kernel
  · unfold Resolved
    decide +kernel
  · unfold ResolvedCleanly
    decide +kernel

end Gcos.Pool
