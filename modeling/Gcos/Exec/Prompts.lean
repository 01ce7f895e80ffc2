import Gcos.Memory.Replacement
import Gcos.Exec.Bounds

/-!
# The messages with and without a pager

`_build_messages` adds the prompt to the recorded pages as long as it is not among them.
With a pager it looks at the step counter for that, and the pager leaves an empty text out;
without one it looks whether there are any pages.
-/

namespace Gcos.Exec

open Lib Memory World Process

variable {n : ℕ}

/-! ### An empty context -/

section

variable {cfg : KernelConfig} {out : Outside} {t : Tid n} {p : Pid} {w : World n}

variable (cfg out t) in
/-- No policy does anything to an empty context. -/
lemma evict_nil (policy : Policy) (hnil : (w.pcbs p).contextPages = []) :
    (runs cfg out t (evict p policy) w).2.pcbs = w.pcbs := by
  have hread : ∀ look, World.exec cfg out t (.readPcb p look) w = (w.pcbs p, w) := fun _ => rfl
  cases policy with
  | lru minKeep =>
    have hempty : nonPinned (w.pcbs p).contextPages = [] := by
      rw [hnil]
      rfl
    simp only [evict, evictLru, Prog.perform_bind, runs_op, hread, hempty]
    split <;> rfl
  | summarize batchSize metered maxSummaryTokens =>
    rcases lt_or_ge ((summarizable (w.pcbs p).contextPages).length : ℤ) batchSize with hfew | hmany
    · rw [evict, evictSummarize_idle cfg out t p w metered maxSummaryTokens hfew]
    · have hbatch : summaryBatch batchSize (w.pcbs p).contextPages = [] := by
        refine List.eq_nil_iff_forall_not_mem.2 fun page hpage => ?_
        have hmem := mem_of_mem_summaryBatch hpage
        rw [hnil] at hmem
        exact List.not_mem_nil hmem
      rw [evict, runs_evictSummarize batchSize metered maxSummaryTokens hmany, hbatch]
      split
      · rfl
      · generalize hw₁ : (if metered = true then charged t w else w) = w₁
        have hsame : w₁.pcbs = w.pcbs := by rw [← hw₁]; split <;> rfl
        cases hchat : out.chat w₁.chats with
        | error e =>
          obtain ⟨w₂, hrun, hpcbs, -⟩ := runs_summarizeBatch_error cfg out t p batchSize metered
            maxSummaryTokens [] hchat
          rw [hrun, hpcbs, hsame]
        | ok r =>
          obtain ⟨e, w₂, hrun, hpcbs, -⟩ :=
            runs_summarizeBatch_nil cfg out t p batchSize metered maxSummaryTokens hchat
          rw [hrun, hpcbs, hsame]
  | swap batchSize minKeep =>
    have hempty : sliceTo (oldestFirst (nonPinned (w.pcbs p).contextPages)) batchSize = [] := by
      rw [hnil]
      unfold sliceTo
      split <;> exact List.take_nil
    simp only [evict, evictSwap, Prog.perform_bind, runs_op, hread, hempty]
    split
    · rfl
    · simp only [runs_op]
      have hwrite : (World.exec cfg out t (.swapOut p []) w).2.pcbs = w.pcbs := by
        simp only [World.exec]
        split <;> rfl
      split
      · exact hwrite
      · exact hwrite

variable (cfg out t) in
lemma tryPolicies_nil (policies : List Policy) (asked : ℤ) (hnil : (w.pcbs p).contextPages = []) :
    (runs cfg out t (tryPolicies p policies asked) w).2.pcbs = w.pcbs := by
  induction policies generalizing w asked with
  | nil => rfl
  | cons policy rest ih =>
    have hevict := evict_nil cfg out t policy hnil
    simp only [tryPolicies, runs_bind]
    split
    · exact hevict
    · split
      · exact hevict
      · rw [ih _ (by rw [hevict]; exact hnil), hevict]

variable (cfg out t) in
lemma makeRoom_nil (policies : List Policy) (effectiveBudget : ℤ) (guard : ℕ)
    (hnil : (w.pcbs p).contextPages = []) :
    (runs cfg out t (makeRoom policies p effectiveBudget guard) w).2.pcbs = w.pcbs := by
  have hread : ∀ look, World.exec cfg out t (.readPcb p look) w = (w.pcbs p, w) := fun _ => rfl
  induction guard generalizing w with
  | zero => rfl
  | succ guard ih =>
    have hround := tryPolicies_nil cfg out t policies 0 hnil
    simp only [makeRoom, Prog.perform_bind, runs_op, hread]
    split
    · rw [runs_bind]
      split
      · exact hround
      · split
        · exact hround
        · rw [ih (by rw [hround]; exact hnil) fun _ => rfl, hround]
    · rfl

variable (cfg out t) in
lemma assemble_nil (pager : ContextPager) (extra : Option String)
    (hnil : (w.pcbs p).contextPages = []) :
    (runs cfg out t (assemble pager p extra) w).2.pcbs p = w.pcbs p := by
  have hroom := makeRoom_nil cfg out t pager.policies
    (pager.budget - estimateTokens (extra.getD "")) 16 hnil
  simp only [assemble, runs_bind]
  split
  · exact congrFun hroom p
  · simp only [Prog.perform_bind, runs_op, Prog.pure_eq, runs_ret, World.exec, Function.update_self,
      Write.apply, hroom, hnil, List.mapIdx_nil]
    rw [← hnil]

/-- Assembling the messages has no part in the steps. -/
lemma react_assemble (pager : ContextPager) (extra : Option String) :
    ((runs cfg out t (assemble pager p extra) w).2.pcbs p).react = (w.pcbs p).react := by
  have hop : ∀ {β : Type} (o : KOp β) (w : World n), Paging p o →
      ((World.exec cfg out t o w).2.pcbs p).react = (w.pcbs p).react := by
    intro β o w ho
    cases o with
    | write q c =>
      cases c with
      | removePage page =>
        obtain ⟨rfl, -⟩ := ho
        simp only [World.exec, Function.update_self, Write.apply]
      | insertPage i draft =>
        obtain ⟨rfl, -⟩ := ho
        simp only [World.exec, Function.update_self, Write.apply]
      | touchPages =>
        obtain rfl : q = p := ho
        simp only [World.exec, Function.update_self, Write.apply]
      | _ => exact ho.elim
    | acquire | chat purpose request | swapOut q pages =>
      simp only [World.exec]
      split <;> rfl
    | readPcb q _ | now | refund => rfl
    | _ => exact ho.elim
  exact (only_paging_assemble p pager extra).alone (R := fun w w' : World n =>
    (w'.pcbs p).react = (w.pcbs p).react) (fun _ => rfl) (fun _ _ _ h h' => h'.trans h)
    (fun o w ho => hop o w ho) w

end

/-! ### The prompt is not recorded before the first step -/

/-- Before the first step nothing is recorded. -/
def Unrecorded (b : AgentControlBlock) : Prop := b.react.step = 0 → b.contextPages = []

section

variable {cfg : KernelConfig} {out : Outside} {t : Tid n} {p : Pid} {host : Host}
  {pager : Option ContextPager}

/-- The statement that nothing is recorded before the first step. -/
abbrev Early (p : Pid) : World n → Prop := At p fun b _ => Unrecorded b

lemma yields_assemble_early (pager : ContextPager) (extra : Option String) :
    Yields cfg out t (Early p) (assemble pager p extra) fun _ => Early p := by
  refine Prog.ensures_alone fun w hw => ?_
  show Unrecorded ((runs cfg out t (assemble pager p extra) w).2.pcbs p)
  intro hstep
  rw [react_assemble] at hstep
  rw [assemble_nil cfg out t pager extra (hw hstep)]
  exact hw hstep

lemma yields_buildMessages_early (pcb : AgentControlBlock) :
    Yields cfg out t (Early p) (buildMessages pager p pcb) fun _ => Early p := by
  cases pager with
  | none => exact yields_ret fun _ h => h
  | some pager =>
    refine Prog.Ensures.bind _ (yields_assemble_early pager _) fun answer => ?_
    cases answer <;> exact yields_ret fun _ h => h

/-- Writes that leave the pages and the steps alone. -/
lemma yields_write_early {α : Type} {c : Write} {k : Unit → Prog KOp α} {Q : α → World n → Prop}
    (hc : ∀ clock b, (c.apply clock b).react = b.react ∧
      (c.apply clock b).contextPages = b.contextPages)
    (hk : Yields cfg out t (Early p) (k ()) Q) :
    Yields cfg out t (Early p) (Prog.perform (.write p c) >>= k) Q := by
  refine yields_write (fun clock b _ h => ?_) hk
  obtain ⟨hreact, hpages⟩ := hc clock b
  intro hstep
  rw [hreact] at hstep
  rw [hpages]
  exact h hstep

lemma transition_apply_frame (st : AgentState) (clock : ℕ → Time) (b : AgentControlBlock) :
    ((Write.transition st).apply clock b).react = b.react ∧
      ((Write.transition st).apply clock b).contextPages = b.contextPages := by
  rw [Write.apply, AgentControlBlock.transition_frame]
  exact ⟨rfl, rfl⟩

lemma yields_failWith_early {st : AgentState} {msg : String} :
    Yields cfg out t (Early p) (failWith p st msg) fun _ => Early p := by
  refine yields_write_early (transition_apply_frame st) ?_
  exact yields_write_early (k := .ret) (fun _ _ => ⟨rfl, rfl⟩) (yields_ret fun _ h => h)

lemma yields_failWithExn_early (e : Exn) :
    Yields cfg out t (Early p) (failWithExn p e) fun _ => Early p := by
  cases e <;> exact yields_failWith_early

/-- From the first step on the statement says nothing. -/
lemma yields_finishReact_early (r : ChatResult) :
    Yields cfg out t (Early p) (finishReact host p r) fun _ => Early p := by
  have hend : ∀ {α : Type} {a : α}, Yields cfg out t
      (At p fun b _ => b.react.step ≠ 0) (.ret a) fun _ => Early p :=
    fun {α a} => yields_ret fun w h hstep => absurd hstep h
  refine yields_write_early (fun _ _ => ⟨rfl, rfl⟩) ?_
  refine yields_read fun pcb _ _ => ?_
  split
  · exact yields_ret fun _ h => h
  refine Prog.Ensures.bind (fun _ => At p fun _ _ => True) (fun _ _ _ _ _ => trivial) fun _ => ?_
  refine yields_write (g := fun _ _ => True) (fun _ _ _ _ => trivial) ?_
  refine yields_write (g := fun b _ => b.react.step ≠ 0) (fun _ _ _ _ => Nat.succ_ne_zero _) ?_
  cases parseAction host r.content with
  | final arg =>
    refine yields_write (g := fun b _ => b.react.step ≠ 0) (fun _ _ _ h => h) ?_
    refine yields_write (g := fun b _ => b.react.step ≠ 0) (fun clock b _ h => ?_) hend
    rw [(transition_apply_frame .done clock b).1]
    exact h
  | tool name arg =>
    refine yields_write (g := fun b _ => b.react.step ≠ 0) (fun _ _ _ h => h) ?_
    exact yields_write (g := fun b _ => b.react.step ≠ 0) (fun _ _ _ h => h) hend

lemma yields_runReactStepWith_early :
    Yields cfg out t (Early p) (runReactStepWith pager host p) fun _ => Early p := by
  have hfail : ∀ {msg : String}, Yields cfg out t (Early p)
      (failWith p .error msg >>= fun _ => .ret (.ok false : Except Exn Bool)) fun _ => Early p :=
    Prog.Ensures.bind _ yields_failWith_early fun _ => yields_ret fun _ h => h
  refine yields_read fun pcb _ _ => ?_
  split
  · exact yields_ret fun _ h => h
  split
  · exact hfail
  split
  · exact hfail
  refine Prog.Ensures.bind (fun _ => Early p) ?_ fun _ => ?_
  · refine yields_read fun b _ _ => ?_
    split
    · exact yields_ret fun _ h => h
    · exact yields_write_early (k := .ret) (transition_apply_frame .running)
        (yields_ret fun _ h => h)
  refine yields_read fun b _ _ => ?_
  refine Prog.Ensures.bind _ (yields_buildMessages_early b) fun answer => ?_
  cases answer with
  | error e => exact yields_ret fun _ h => h
  | ok messages =>
    refine Prog.Ensures.step (fun _ => Early p) (stable_nobody _) (fun w h => ?_) fun result => ?_
    · obtain ⟨-, hpcbs, -⟩ := exec_chat cfg out t _ w
      show Unrecorded _
      rw [hpcbs]
      exact h
    · cases result with
      | error e =>
        exact Prog.Ensures.bind _ (yields_failWithExn_early e) fun _ => yields_ret fun _ h => h
      | ok r => exact yields_finishReact_early r

/-! ### Runs -/

variable (cfg out t p host)

/-- The world after calls of `run_react_step`, each with its pager. -/
def driveWith (pagers : List (Option ContextPager)) (w : World n) : World n :=
  pagers.foldl (fun w pager => (stepOnce cfg out t p host pager w).2) w

variable {cfg out t p host}

lemma unrecorded_driveWith (pagers : List (Option ContextPager)) {w : World n}
    (h : Unrecorded (w.pcbs p)) : Unrecorded ((driveWith cfg out t p host pagers w).pcbs p) := by
  induction pagers generalizing w with
  | nil => exact h
  | cons pager pagers ih =>
    have hstep : Early p (stepOnce cfg out t p host pager w).2 :=
      Prog.Ensures.alone yields_runReactStepWith_early h
    exact ih hstep

/-- The context is empty exactly before the first step. -/
def Tidy (b : AgentControlBlock) : Prop := b.contextPages = [] ↔ b.react.step = 0

/-- What keeps the steps and whether there are pages. -/
lemma Tidy.kept {b b' : AgentControlBlock} (h : Tidy b) (hkept : Kept b b')
    (hpages : b'.contextPages = [] ↔ b.contextPages = []) : Tidy b' := by
  rw [Tidy, hkept.react, hpages]
  exact h

lemma Tidy.reactStep {chat : ℕ → Except Exn ChatResult} {b b' : AgentControlBlock} {m m' : ℕ}
    {answer : Except Exn Bool} (h : Tidy b)
    (hstep : ReactStep host chat (fun pages pages' => pages' = [] ↔ pages = []) b m answer b' m') :
    Tidy b' := by
  cases hstep with
  | dead => exact h
  | refused hlive hno hkept hpages hstate => exact h.kept hkept (by rw [hpages])
  | raised hmay hchat hkept hpages hdead => exact h.kept hkept hpages
  | @acted b₁ _ r _ hmay hchat hkept hpages hstate hacted =>
    -- the reply is recorded, and the step is counted
    have hrec : ∃ observed drafts, Recorded b₁ 1 observed drafts b' ∧ drafts ≠ [] := by
      unfold Acted at hacted
      split at hacted
      · exact ⟨_, _, hacted.2.1, by simp⟩
      · exact ⟨_, _, hacted.2.1, by simp⟩
    obtain ⟨observed, drafts, hrec, hsome⟩ := hrec
    have hlen := hrec.pages.length_eq
    have hpos := List.length_pos_iff.2 hsome
    refine iff_of_false (fun hnil => ?_) ?_
    · rw [hnil, List.length_nil] at hlen
      omega
    · rw [hrec.step]
      exact Nat.succ_ne_zero _

lemma tidy_driveWith {pagers : List (Option ContextPager)} (hquiet : ∀ pager ∈ pagers, Quiet pager)
    {w : World n} (h : Tidy (w.pcbs p)) : Tidy ((driveWith cfg out t p host pagers w).pcbs p) := by
  induction pagers generalizing w with
  | nil => exact h
  | cons pager pagers ih =>
    have hassembles : Assembles cfg out t p pager fun pages pages' => pages' = [] ↔ pages = [] := by
      rcases hquiet pager List.mem_cons_self with rfl | ⟨budget, metered, rfl⟩
      · intro w
        obtain ⟨messages, w', pages, hrun, hhas, hsame⟩ := assembles_none cfg out t p w
        exact ⟨messages, w', pages, hrun, hhas, by rw [hsame]⟩
      · exact assembles_default cfg out t p budget metered
    exact ih (fun q hq => hquiet q (List.mem_cons_of_mem _ hq))
      (h.reactStep (reactStep_stepOnce host hassembles w))

/-! ### The two message lists -/

/-- What the pager hands out when the context and the pending prompt fit. -/
lemma runs_buildMessages_fits {pager : ContextPager} {w : World n}
    (hfits : contextSize (w.pcbs p).contextPages +
      estimateTokens ((pending (w.pcbs p)).getD "") ≤ pager.budget) :
    (runs cfg out t (buildMessages (some pager) p (w.pcbs p)) w).1 =
      .ok ({ role := .system, content := reactSystem } ::
        ((w.pcbs p).contextPages.map pageMessage ++ extraMessage (pending (w.pcbs p)))) := by
  have hroom : runs cfg out t (makeRoom pager.policies p
      (pager.budget - estimateTokens ((pending (w.pcbs p)).getD "")) 16) w = (.ok (), w) := by
    have hread : ∀ look, World.exec cfg out t (.readPcb p look) w = (w.pcbs p, w) := fun _ => rfl
    simp only [makeRoom, Prog.perform_bind, runs_op, hread]
    rw [if_neg (by omega)]
    rfl
  have hassemble : (runs cfg out t (assemble pager p (pending (w.pcbs p))) w).1 =
      .ok ((w.pcbs p).contextPages.map pageMessage ++ extraMessage (pending (w.pcbs p))) := by
    simp only [assemble, runs_bind, hroom]
    rfl
  show (runs cfg out t (assemble pager p (pending (w.pcbs p)) >>= _) w).1 = _
  rw [runs_bind, hassemble]
  rfl

/-- The two lists of messages agree exactly if the prompt is pending and not empty, or
recorded together with the pages. -/
lemma messages_agree_iff {pager : ContextPager} {w : World n} (h : Unrecorded (w.pcbs p))
    (hfits : contextSize (w.pcbs p).contextPages +
      estimateTokens ((pending (w.pcbs p)).getD "") ≤ pager.budget) :
    (runs cfg out t (buildMessages (some pager) p (w.pcbs p)) w).1 =
        (runs cfg out t (buildMessages none p (w.pcbs p)) w).1 ↔
      ((w.pcbs p).prompt ≠ "" ∨ (w.pcbs p).react.step ≠ 0) ∧
        ((w.pcbs p).contextPages = [] → (w.pcbs p).react.step = 0) := by
  rw [runs_buildMessages_fits hfits]
  show Except.ok _ = Except.ok (_ :: if (w.pcbs p).contextPages = [] then _ else _) ↔ _
  rw [Except.ok.injEq, List.cons.injEq, and_iff_right rfl]
  by_cases hstep : (w.pcbs p).react.step = 0
  · have hnil := h hstep
    rw [pending, if_pos hstep, if_pos hnil, hnil, extraMessage]
    by_cases hprompt : (w.pcbs p).prompt = ""
    · rw [if_pos (by rw [hprompt]; rfl)]
      simp [hprompt, hstep]
    · rw [if_neg (by rwa [String.toList_eq_nil_iff])]
      simp [hprompt, hstep]
  · rw [pending, if_neg hstep, extraMessage, List.append_nil]
    by_cases hnil : (w.pcbs p).contextPages = []
    · simp [hnil, hstep]
    · simp [hnil, hstep]

end

/-- **When the messages agree with and without a pager.**  In every state that calls of
`run_react_step` lead to, whatever pager each of them has, and whatever the client does: if
the recorded pages and the pending prompt fit the budget, the messages with the pager and
without one agree exactly if the prompt is not empty or a step was made, and the context is
not empty once a step was made.  The second half is true of every run with the pager of the
kernel or without one. -/
theorem prompts_agree_iff (cfg : KernelConfig) (out : Outside) (t : Tid n) (p : Pid) (host : Host)
    (w : World n) (hfresh : Fresh (w.pcbs p)) (pagers : List (Option ContextPager))
    (pager : ContextPager) :
    let w' := driveWith cfg out t p host pagers w
    let b := w'.pcbs p
    (contextSize b.contextPages + estimateTokens ((pending b).getD "") ≤ pager.budget →
        ((runs cfg out t (buildMessages (some pager) p b) w').1 =
            (runs cfg out t (buildMessages none p b) w').1 ↔
          (b.prompt ≠ "" ∨ b.react.step ≠ 0) ∧ (b.contextPages = [] → b.react.step = 0))) ∧
      ((∀ q ∈ pagers, Quiet q) → (b.contextPages = [] ↔ b.react.step = 0)) := by
  intro w' b
  refine ⟨fun hfits => messages_agree_iff ?_ hfits, fun hquiet => tidy_driveWith hquiet ?_⟩
  · exact unrecorded_driveWith pagers fun _ => hfresh.pages
  · rw [Tidy, hfresh.pages, hfresh.react]
    exact iff_of_true rfl rfl

/-- An agent with a prompt, after one step without a pager. -/
theorem prompts_agree_iff_one_step :
    let w := driveWith { pager := {}, host := .inert } (scripted 1) (.client 0) 1 .inert [none]
      (newAgent 8 10)
    (runs { pager := {}, host := .inert } (scripted 1) (.client 0)
        (buildMessages (some ⟨4096, []⟩) 1 (w.pcbs 1)) w).1 =
      (runs { pager := {}, host := .inert } (scripted 1) (.client 0)
        (buildMessages none 1 (w.pcbs 1)) w).1 := by
  have hagree := prompts_agree_iff { pager := {}, host := .inert } (scripted 1) (.client 0) 1 .inert
    (newAgent 8 10) (fresh_newAgent 8 10) [none] ⟨4096, []⟩
  exact (hagree.1 (by decide +kernel)).2 (by decide +kernel)

/-- A fresh agent with an empty prompt: without a pager the empty prompt is sent, with one it
is left out. -/
theorem empty_prompt_differs :
    let w : World 0 :=
      { pcbs := fun _ => { pid := 1, prompt := "", createdAt := 0, capability := .agent }
        quota := ⟨0, 0⟩ }
    let messages (pager : Option ContextPager) :=
      (runs { pager := {}, host := .inert } (scripted 0) (.client 0)
        (buildMessages pager 1 (w.pcbs 1)) w).1
    contextSize (w.pcbs 1).contextPages + estimateTokens (w.pcbs 1).prompt ≤ 4096 ∧
      messages (some ⟨4096, []⟩) = .ok [{ role := .system, content := reactSystem }] ∧
      messages none = .ok [{ role := .system, content := reactSystem },
        { role := .user, content := "" }] := by
  exact ⟨by decide, rfl, rfl⟩

end Gcos.Exec
