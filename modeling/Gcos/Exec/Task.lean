import Gcos.Exec.Bounds
import Gcos.Exec.Footprint

/-!
# The task of an agent

The prompt of a multi-step agent goes with its first call.  After that it is a page like the
others, and the pager drops the pages that were not used for the longest time: whether the
agent is still told its task depends on the place of that page among them.
-/

namespace Gcos.Exec

open Lib Memory World Process

variable {n : ℕ}

/-! ### What the client is asked -/

/-- The messages of a call for a step. -/
def asked : {β : Type} → KOp β → Option (List ChatMessage)
  | _, .chat .step request => some request.messages
  | _, _ => none

/-- Everything but a call for a step. -/
def Unasked : Prog.Class KOp := fun o => asked o = none

section

variable {p : Pid} {host : Host}

lemma unasked_of_touches {β : Type} (o : KOp β) (ho : Touches p o) : Unasked o := by
  cases o with
  | readPcb q _ | write q c => rfl
  | _ => exact ho.elim

lemma unasked_assemble (pager : ContextPager) (extra : Option String) :
    (assemble pager p extra).Only Unasked := by
  refine (only_assemble p pager extra).mono fun o ho => ?_
  cases o with
  | chat purpose request =>
    cases purpose with
    | step => exact ho.elim
    | summarize metered => rfl
  | _ => rfl

lemma unasked_buildMessages (pager : Option ContextPager) (pcb : AgentControlBlock) :
    (buildMessages pager p pcb).Only Unasked := by
  cases pager with
  | none => trivial
  | some pager =>
    refine (unasked_assemble pager _).bind fun answer => ?_
    cases answer <;> trivial

lemma unasked_failWith {α : Type} {a : α} {st : AgentState}
    (hst : (Write.transition st).isStep = true) (msg : String) :
    (failWith p st msg >>= fun _ => .ret a).Only Unasked :=
  ((only_failWith hst msg).mono unasked_of_touches).bind fun _ => trivial

lemma unasked_reactReply (answer : Except Exn ChatResult) :
    (reactReply host p answer).Only Unasked := by
  cases answer with
  | error e => exact ((only_failWithExn e).mono unasked_of_touches).bind fun _ => trivial
  | ok r => exact (only_finishReact r).mono unasked_of_touches

end

section

variable (cfg : KernelConfig) (out : Outside) (t : Tid n) (p : Pid) (host : Host)
  (pager : Option ContextPager)

/-- The message lists that `run_react_step` passes to the client. -/
def asks (w : World n) : List (List ChatMessage) :=
  (runReactStepWith pager host p).seen (World.exec cfg out) t asked w

end

section

variable {cfg : KernelConfig} {out : Outside} {t : Tid n} {p : Pid} {host : Host}
  {pager : Option ContextPager} {w : World n}

/-- What is not a call for a step is not seen. -/
lemma seen_of_unasked {α : Type} {prog : Prog KOp α} (h : prog.Only Unasked) (w : World n) :
    prog.seen (World.exec cfg out) t asked w = [] :=
  h.seen_eq_nil (fun _ ho => ho) w

lemma seen_readPcb {look : Look} {α : Type} (k : AgentControlBlock → Prog KOp α) (w : World n) :
    (Prog.perform (.readPcb p look) >>= k).seen (World.exec cfg out) t asked w =
      (k (w.pcbs p)).seen (World.exec cfg out) t asked w := rfl

/-- An agent that may not make a call makes none. -/
lemma asks_of_not_mayCall (hno : ¬MayCall (w.pcbs p)) : asks cfg out t p host pager w = [] := by
  rw [asks, runReactStepWith, seen_readPcb]
  split
  · rfl
  split
  · exact seen_of_unasked (unasked_failWith rfl _) w
  split
  · exact seen_of_unasked (unasked_failWith rfl _) w
  · next hlive hquota hstep =>
    exact absurd ⟨Bool.eq_false_iff.2 hlive, not_le.1 hquota, not_le.1 hstep⟩ hno

/-- **The call of an agent that may make one**: the system text, the pages that are kept,
and before the first step the prompt. -/
lemma asks_of_mayCall {budget : ℤ} {metered : Bool} (hmay : MayCall (w.pcbs p)) :
    asks cfg out t p host (some ⟨budget, defaultPolicies metered⟩) w =
      [{ role := .system, content := reactSystem } ::
        ((keptPages budget (w.pcbs p)).map pageMessage ++ extraMessage (pending (w.pcbs p)))] := by
  have hlive : ¬(w.pcbs p).isTerminal = true := by
    rw [hmay.live]
    exact Bool.false_ne_true
  rw [asks, runReactStepWith, seen_readPcb, if_neg hlive, if_neg (not_le.2 hmay.quota),
    if_neg (not_le.2 hmay.step), Prog.seen_bind,
    seen_of_unasked (only_enterRunning.mono unasked_of_touches),
    List.nil_append]
  have henter : At p (fun b' m' => (Kept (w.pcbs p) b' ∧
        b'.contextPages = (w.pcbs p).contextPages ∧ b'.state = .running) ∧ m' = w.chats)
      (Prog.alone (World.exec cfg out) t (enterRunning p) w).2 :=
    Prog.Ensures.alone (yields_enterRunning_kept hmay.live) ⟨rfl, rfl⟩
  obtain ⟨⟨hkept, hpages, -⟩, -⟩ := henter
  generalize (Prog.alone (World.exec cfg out) t (enterRunning p) w).2 = w₁ at hkept hpages
  obtain ⟨w₂, pages, hrun, -⟩ := runs_buildMessages_default cfg out t p budget metered w₁
  have hmessages : Prog.alone (World.exec cfg out) t (buildMessages _ p _) w₁ = _ := hrun
  rw [reactCallWith, seen_readPcb, Prog.seen_bind, seen_of_unasked (unasked_buildMessages _ _),
    List.nil_append, hmessages]
  have hpending : pending (w₁.pcbs p) = pending (w.pcbs p) := by
    rw [pending, pending, hkept.react, hkept.prompt]
  have hleft : keptPages budget (w₁.pcbs p) = keptPages budget (w.pcbs p) := by
    rw [keptPages, keptPages, hpending, hpages]
  rw [hpending, hleft]
  show _ :: (reactReply host p _).seen (World.exec cfg out) t asked _ = _
  rw [seen_of_unasked (unasked_reactReply _)]

/-! ### Whether the task is among the pages -/

/-- The user message with the task. -/
def taskMessage (b : AgentControlBlock) : ChatMessage := { role := .user, content := b.prompt }

/-- A page with the task stays when the pages have to fit `budget`: in the order of the last
access it is one of the last two, or the sixteen rounds of the pager end before it, or the
pages from it on fit. -/
def TaskStays (budget : ℤ) (b : AgentControlBlock) : Prop :=
  ∃ i page, (oldestFirst b.contextPages)[i]? = some page ∧ pageMessage page = taskMessage b ∧
    (16 ≤ i ∨ b.contextPages.length ≤ i + 2 ∨
      contextSize ((oldestFirst b.contextPages).drop i) ≤ budget)

/-- No page is pinned. -/
def Unpinned (pages : List ContextPage) : Prop := ∀ page ∈ pages, page.pinned = false

lemma mem_lruLeft_iff {effectiveBudget : ℤ} {guard : ℕ} {pages : List ContextPage}
    {page : ContextPage} (hpinned : Unpinned pages) :
    page ∈ lruLeft effectiveBudget guard pages ↔ ∃ i, (oldestFirst pages)[i]? = some page ∧
      (guard ≤ i ∨ pages.length ≤ i + 2 ∨
        contextSize ((oldestFirst pages).drop i) ≤ effectiveBudget) := by
  have hlength : (oldestFirst pages).length = pages.length := List.length_insertionSort ..
  have hmem : page ∈ lruLeft effectiveBudget guard pages ↔
      page ∈ oldestFirst (lruLeft effectiveBudget guard pages) :=
    (List.mem_insertionSort _).symm
  rw [hmem, oldestFirst_lruLeft effectiveBudget guard hpinned, List.mem_iff_getElem?]
  simp only [List.getElem?_drop, ← hlength, ← dropped_le_iff]
  constructor
  · rintro ⟨i, hi⟩
    exact ⟨_, hi, Nat.le_add_right _ i⟩
  · rintro ⟨i, hi, hle⟩
    refine ⟨i - dropped effectiveBudget guard (oldestFirst pages), ?_⟩
    rwa [Nat.add_sub_cancel' hle]

/-- The first call tells the agent its task, and a later one exactly if the page stays. -/
lemma task_mem_iff {budget : ℤ} {b : AgentControlBlock} (hpinned : Unpinned b.contextPages)
    (hprompt : b.prompt ≠ "") :
    taskMessage b ∈ ({ role := .system, content := reactSystem } : ChatMessage) ::
        ((keptPages budget b).map pageMessage ++ extraMessage (pending b)) ↔
      b.react.step = 0 ∨ TaskStays budget b := by
  have hsystem : taskMessage b ≠ { role := .system, content := reactSystem } := nofun
  rw [List.mem_cons, or_iff_right hsystem, List.mem_append]
  by_cases hstep : b.react.step = 0
  · refine iff_of_true (.inr ?_) (.inl hstep)
    have htext : b.prompt.toList ≠ [] := fun h => hprompt (String.toList_eq_nil_iff.1 h)
    rw [pending, if_pos hstep, extraMessage, if_neg htext]
    exact List.mem_singleton_self _
  · have hbudget : budget - estimateTokens ((pending b).getD "") = budget := by
      rw [pending, if_neg hstep]
      exact sub_zero budget
    have hextra : taskMessage b ∉ extraMessage (pending b) := by
      rw [pending, if_neg hstep]
      exact List.not_mem_nil
    rw [or_iff_left hextra, or_iff_right hstep, keptPages, hbudget, List.mem_map]
    simp only [mem_lruLeft_iff hpinned]
    constructor
    · rintro ⟨page, ⟨i, hi, hplace⟩, htask⟩
      exact ⟨i, page, hi, htask, hplace⟩
    · rintro ⟨i, page, hi, htask, hplace⟩
      exact ⟨page, ⟨i, hi, hplace⟩, htask⟩

/-! ### Runs -/

lemma unpinned_forget {pages : List ContextPage} :
    Unpinned (pages.map ContextPage.forget) ↔ Unpinned pages := by
  simp only [Unpinned, List.forall_mem_map]
  rfl

lemma Unpinned.append {xs ys : List ContextPage} (hx : Unpinned xs) (hy : Unpinned ys) :
    Unpinned (xs ++ ys) := List.forall_mem_append.2 ⟨hx, hy⟩

lemma lruLeft_sublist (effectiveBudget : ℤ) (guard : ℕ) (pages : List ContextPage) :
    (lruLeft effectiveBudget guard pages).Sublist pages := by
  induction guard generalizing pages with
  | zero => exact .refl _
  | succ guard ih =>
    rw [lruLeft]
    split
    · split
      · exact .refl _
      · exact (ih _).trans List.erase_sublist
    · exact .refl _

/-- The pager pins nothing. -/
lemma assembles_unpinned (budget : ℤ) (metered : Bool) :
    Assembles cfg out t p (some ⟨budget, defaultPolicies metered⟩)
      fun pages pages' => Unpinned pages → Unpinned pages' := by
  intro w
  obtain ⟨w', pages, hrun, hhas, hforget⟩ :=
    runs_buildMessages_default cfg out t p budget metered w
  refine ⟨_, w', pages, hrun, hhas, fun hpinned => ?_⟩
  rw [← unpinned_forget, hforget, unpinned_forget]
  exact fun page hpage => hpinned page ((lruLeft_sublist _ _ _).subset hpage)

/-- The agent keeps its task, and none of its pages is pinned. -/
structure Tasked (prompt : String) (b : AgentControlBlock) : Prop where
  prompt : b.prompt = prompt
  pages : Unpinned b.contextPages

variable {prompt : String} {b b' : AgentControlBlock} {m m' : ℕ} {answer : Except Exn Bool}

lemma Tasked.kept (h : Tasked prompt b) (hkept : Kept b b') (hpages : Unpinned b'.contextPages) :
    Tasked prompt b' := ⟨hkept.prompt.trans h.prompt, hpages⟩

lemma Tasked.recorded {steps : ℕ} {observed : List String} {drafts : List PageDraft}
    (h : Tasked prompt b) (hrec : Recorded b steps observed drafts b')
    (hdrafts : ∀ d ∈ drafts, d.pinned = false) : Tasked prompt b' := by
  refine ⟨hrec.prompt.trans h.prompt, ?_⟩
  rw [← unpinned_forget, hrec.pages]
  refine (unpinned_forget.2 h.pages).append fun page hpage => ?_
  obtain ⟨d, hd, rfl⟩ := List.mem_map.1 hpage
  exact hdrafts d hd

/-- A step records no pinned page. -/
lemma Tasked.reactStep {chat : ℕ → Except Exn ChatResult} (h : Tasked prompt b)
    (hstep : ReactStep host chat (fun pages pages' => Unpinned pages → Unpinned pages') b m answer
      b' m') : Tasked prompt b' := by
  have hfirst (b : AgentControlBlock) (r : ChatResult) : ∀ d ∈ promptPages b r, d.pinned = false := by
    intro d hd
    rw [promptPages] at hd
    split at hd
    · rw [List.mem_singleton.1 hd]
    · cases hd
  cases hstep with
  | dead => exact h
  | refused hlive hno hkept hpages => exact h.kept hkept (hpages ▸ h.pages)
  | raised hmay hchat hkept hpages => exact h.kept hkept (hpages h.pages)
  | @acted b₁ _ r _ hmay hchat hkept hpages hstate hacted =>
    have hmid := h.kept hkept (hpages h.pages)
    unfold Acted at hacted
    split at hacted
    · refine hmid.recorded hacted.2.1 (List.forall_mem_append.2 ⟨hfirst b₁ r, ?_⟩)
      exact List.forall_mem_singleton.2 rfl
    · refine hmid.recorded hacted.2.1 (List.forall_mem_append.2 ⟨hfirst b₁ r, ?_⟩)
      exact List.forall_mem_cons.2 ⟨rfl, List.forall_mem_singleton.2 rfl⟩

lemma tasked_drive {budget : ℤ} {metered : Bool} (hfresh : Fresh (w.pcbs p)) (j : ℕ) :
    Tasked (w.pcbs p).prompt
      ((drive cfg out t p host (some ⟨budget, defaultPolicies metered⟩) j w).pcbs p) := by
  induction j with
  | zero =>
    refine ⟨rfl, ?_⟩
    show Unpinned (w.pcbs p).contextPages
    rw [hfresh.pages]
    exact List.forall_mem_nil _
  | succ j ih =>
    rw [drive_succ]
    exact ih.reactStep (reactStep_stepOnce host (assembles_unpinned budget metered) _)

end

/-- **When a multi-step agent keeps its task.**  A fresh agent with a prompt and the pager of
the kernel, with any budget, and any client: the messages of its first `j` steps all contain
the task exactly if before each of the steps that make a call, the first one apart, a page
with the task stays when the pages have to fit the budget. -/
theorem task_asked_iff_stays (cfg : KernelConfig) (out : Outside) (t : Tid n) (p : Pid)
    (host : Host) (budget : ℤ) (metered : Bool) (w : World n) (hfresh : Fresh (w.pcbs p))
    (hprompt : (w.pcbs p).prompt ≠ "") (j : ℕ) :
    let pager := some ⟨budget, defaultPolicies metered⟩
    let before (i : ℕ) := drive cfg out t p host pager i w
    (∀ i < j, ∀ messages ∈ asks cfg out t p host pager (before i),
        { role := .user, content := (w.pcbs p).prompt } ∈ messages) ↔
      ∀ i < j, let b := (before i).pcbs p
        MayCall b → b.react.step ≠ 0 → TaskStays budget b := by
  intro pager before
  refine forall₂_congr fun i _ => ?_
  have htasked : Tasked (w.pcbs p).prompt ((before i).pcbs p) := tasked_drive hfresh i
  by_cases hmay : MayCall ((before i).pcbs p)
  · rw [asks_of_mayCall hmay, List.forall_mem_singleton, ← htasked.prompt]
    refine (task_mem_iff htasked.pages ?_).trans ?_
    · rw [htasked.prompt]
      exact hprompt
    · rw [or_iff_not_imp_left]
      exact ⟨fun h _ => h, fun h => h hmay⟩
  · rw [asks_of_not_mayCall hmay]
    exact iff_of_true (List.forall_mem_nil _) fun h => absurd h hmay

/-- With the budget of the kernel the three pages of the first step stay. -/
theorem task_asked_iff_stays_two :
    ((newAgent 8 10).pcbs 1).prompt = "task" ∧
      ∀ i < 2, ∀ messages ∈ asks { pager := {}, host := .inert } (scripted 1) (.client 0) 1 .inert
          (some ⟨4096, defaultPolicies false⟩)
          (drive { pager := {}, host := .inert } (scripted 1) (.client 0) 1 .inert
            (some ⟨4096, defaultPolicies false⟩) i (newAgent 8 10)),
        { role := .user, content := "task" } ∈ messages := by
  have hiff := task_asked_iff_stays { pager := {}, host := .inert } (scripted 1) (.client 0) 1
    .inert 4096 false (newAgent 8 10) (fresh_newAgent 8 10) (by decide) 2
  refine ⟨rfl, hiff.2 fun i hi => ?_⟩
  intro b _ hstep
  obtain rfl | rfl : i = 0 ∨ i = 1 := by omega
  · exact absurd rfl hstep
  · exact ⟨0, { role := .user, content := "task", tokens := 0, lastAccess := 0 }, by decide +kernel⟩

/-- An agent with a budget of eight tokens: its second call is without its task. -/
theorem task_forgotten :
    let pager : Option ContextPager := some ⟨8, defaultPolicies false⟩
    let w := drive { pager := {}, host := .inert } (scripted 1) (.client 0) 1 .inert pager 1
      (newAgent 8 10)
    (w.pcbs 1).prompt = "task" ∧
      asks { pager := {}, host := .inert } (scripted 1) (.client 0) 1 .inert pager w =
        [[{ role := .system, content := reactSystem },
          { role := .assistant, content := "TOOL: note x" },
          { role := .user, content := "OBSERVATION: noted: x" }]] := by
  decide +kernel

end Gcos.Exec
