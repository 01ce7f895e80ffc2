import Gcos.Memory.Pager
import Gcos.Lib.Footprint

/-!
# What the pager touches

Assembling the messages of an agent reads its block, rearranges its pages, and may spend
a unit of the quota on a summary; it never changes the state of the agent, its prompt or
its result, and never makes a call in the agent's own name.
-/

namespace Gcos

open Lib Prog

/-- The writes to the conversation of an agent. -/
def Write.isPage : Write → Bool
  | removePage _ | insertPage _ _ | appendPage _ | touchPages | countStep | observe _ => true
  | _ => false

/-- The policy makes summarize calls outside the quota. -/
def Policy.callsFree : Policy → Bool
  | .summarize _ metered _ => !metered
  | .lru _ | .swap _ _ => false

namespace Memory

/-- The operations of the pager when it works for `p`. -/
def Pages (p : Pid) : Class KOp
  | _, .readPcb q .fields => q = p
  | _, .write q c => q = p ∧ c.isPage = true
  | _, .chat (.summarize _) _ | _, .now | _, .acquire | _, .refund | _, .swapOut _ _ => True
  | _, _ => False

/-- The same operations, with the pages that they may concern: only pages that are not
pinned are removed or written to disk, and only summaries are put in. -/
def Paging (p : Pid) : Class KOp
  | _, .readPcb q .fields => q = p
  | _, .write q (.removePage page) => q = p ∧ page.pinned = false
  | _, .write q (.insertPage _ draft) => q = p ∧ ∃ batch r, draft = summaryPage batch r
  | _, .write q .touchPages => q = p
  | _, .swapOut _ pages => ∀ page ∈ pages, page.pinned = false
  | _, .chat (.summarize _) _ | _, .now | _, .acquire | _, .refund => True
  | _, _ => False

/-- The pager asks for the fields of its agent only. -/
lemma Pages.read {p q : Pid} {look : Look} (h : Pages p (.readPcb q look)) :
    q = p ∧ look = .fields := by
  cases look with
  | fields => exact ⟨h, rfl⟩
  | terminal | zombie => exact h.elim

lemma Paging.pages {p : Pid} {β : Type} (o : KOp β) (h : Paging p o) : Pages p o := by
  cases o with
  | write q c =>
    cases c with
    | removePage page | insertPage i draft => exact ⟨h.1, rfl⟩
    | touchPages => exact ⟨h, rfl⟩
    | _ => exact h.elim
  | chat purpose request =>
    cases purpose with
    | step => exact h.elim
    | summarize metered => trivial
  | readPcb q look =>
    cases look with
    | fields => exact h
    | terminal | zombie => exact h.elim
  | now | acquire | refund | swapOut q pages => trivial
  | _ => exact h.elim

/-! ### Batches -/

lemma pinned_of_mem_nonPinned {pages : List ContextPage} {page : ContextPage}
    (h : page ∈ nonPinned pages) : page.pinned = false := by
  simpa using (List.mem_filter.1 h).2

/-- A batch of the oldest of some pages that are not pinned. -/
lemma pinned_of_mem_batch {pages : List ContextPage} (hpages : ∀ page ∈ pages, page.pinned = false)
    (k : ℤ) : ∀ page ∈ sliceTo (oldestFirst pages) k, page.pinned = false := by
  intro page hpage
  have hmem : page ∈ pages := (List.mem_insertionSort _).1 ((sliceTo_sublist _ k).subset hpage)
  exact hpages page hmem

lemma pinned_of_mem_summarizable {pages : List ContextPage} {page : ContextPage}
    (h : page ∈ summarizable pages) : page.pinned = false := by
  have hflags := (List.mem_filter.1 h).2
  simp only [Bool.and_eq_true, Bool.not_eq_true'] at hflags
  exact hflags.1.1

/-! ### The pager -/

/-- Whether the pager has taken a unit for a summary that is neither spent nor given back. -/
inductive Purse
  | even | lent
deriving DecidableEq, Repr

namespace Purse

/-- Which operation may be performed when.  `free`: summaries may be made outside the quota. -/
def allows (free : Prop) : {β : Type} → KOp β → Purse → Prop
  | _, .chat (.summarize true) _, s | _, .refund, s => s = lent
  | _, .chat (.summarize false) _, s => s = even ∧ free
  | _, _, s => s = even

/-- What has become of the unit. -/
def after : {β : Type} → KOp β → β → Purse → Purse
  | _, .acquire, got, s => if got then lent else s
  | _, .chat (.summarize true) _, answer, s => if answer.toBool then even else s
  | _, .refund, _, _ => even
  | _, _, _, s => s

end Purse

/-- The discipline of the pager when it works for `p`. -/
def paging (p : Pid) (free : Prop) : Discipline KOp Purse where
  pre o s := Paging p o ∧ s.allows free o
  post o s b s' := s' = s.after o b

section

variable {p : Pid} {free : Prop} {α : Type} {Q : α → Purse → Prop}

/-- The rule for an operation that concerns no unit. -/
lemma pages_step {β : Type} {o : KOp β} {k : β → Prog KOp α} (ho : Paging p o)
    (hpurse : Purse.allows free o .even) (hafter : ∀ b, Purse.after o b .even = .even)
    (hk : ∀ b, (k b).Obeys (paging p free) .even Q) :
    (perform o >>= k).Obeys (paging p free) .even Q := by
  refine Obeys.step ⟨ho, hpurse⟩ ?_
  rintro b _ rfl
  rw [hafter b]
  exact hk b

/-- A look at the block. -/
lemma pages_read {k : AgentControlBlock → Prog KOp α}
    (hk : ∀ pcb, (k pcb).Obeys (paging p free) .even Q) :
    (perform (.readPcb p .fields) >>= k).Obeys (paging p free) .even Q :=
  pages_step rfl rfl (fun _ => rfl) hk

lemma pages_removePages {pages : List ContextPage} (hpages : ∀ page ∈ pages, page.pinned = false) :
    (removePages p pages).Obeys (paging p free) .even fun _ s => s = .even := by
  induction pages with
  | nil => rfl
  | cons page rest ih =>
    refine pages_step ⟨rfl, hpages page List.mem_cons_self⟩ rfl (fun _ => rfl) fun _ => ?_
    exact ih fun q hq => hpages q (List.mem_cons_of_mem _ hq)

lemma pages_evictLru (minKeep : ℤ) :
    (evictLru minKeep p).Obeys (paging p free) .even fun _ s => s = .even := by
  refine pages_read fun pcb => ?_
  split
  · rfl
  · split
    · rfl
    · next victim hmin =>
      have hpinned := pinned_of_mem_nonPinned (List.argmin_mem hmin)
      refine pages_step trivial rfl (fun _ => rfl) fun _ => ?_
      exact pages_step ⟨rfl, hpinned⟩ rfl (fun _ => rfl) fun _ => rfl

lemma pages_evictSwap (batchSize minKeep : ℤ) :
    (evictSwap batchSize minKeep p).Obeys (paging p free) .even fun _ s => s = .even := by
  refine pages_read fun pcb => ?_
  have hbatch := pinned_of_mem_batch
    (fun page (h : page ∈ nonPinned pcb.contextPages) => pinned_of_mem_nonPinned h) batchSize
  split
  · rfl
  · refine pages_step hbatch rfl (fun _ => rfl) fun answer => ?_
    split
    · rfl
    · refine (pages_removePages hbatch).bind _ ?_
      rintro - _ rfl
      rfl

/-- Replacing the batch by its summary. -/
lemma pages_replaceBatch (batchSize : ℤ) (batch : List ContextPage) (r : ChatResult) :
    (∀ page ∈ batch, page.pinned = false) → (match batch with
      | [] => pure (.error (.other "IndexError" "list index out of range"))
      | first :: _ => do
        let pcb ← .perform (.readPcb p .fields)
        removePages p batch
        .perform (.write p (.insertPage (pcb.contextPages.idxOf first) (summaryPage batch r)))
        pure (.ok (batchSize - 1)) : Prog KOp (Except Exn ℤ)).Obeys (paging p free) .even
      fun _ s => s = .even := by
  intro hbatch
  cases batch with
  | nil => rfl
  | cons first rest =>
    refine pages_read fun pcb => (pages_removePages hbatch).bind _ ?_
    rintro - _ rfl
    exact pages_step ⟨rfl, _, r, rfl⟩ rfl (fun _ => rfl) fun _ => rfl

/-- The summarize call: the unit that was taken for it is spent, or given back. -/
lemma pages_summarizeBatch (batchSize : ℤ) {metered : Bool} (maxSummaryTokens : ℤ)
    {batch : List ContextPage} (hbatch : ∀ page ∈ batch, page.pinned = false)
    (hfree : metered = false → free) :
    (summarizeBatch batchSize metered maxSummaryTokens p batch).Obeys (paging p free)
      (if metered then .lent else .even) fun _ s => s = .even := by
  cases metered with
  | true =>
    refine Obeys.step ⟨trivial, rfl⟩ ?_
    rintro (e | r) _ rfl
    · refine Obeys.step ⟨trivial, rfl⟩ ?_
      rintro - _ rfl
      rfl
    · exact pages_replaceBatch batchSize batch r hbatch
  | false =>
    refine Obeys.step ⟨trivial, rfl, hfree rfl⟩ ?_
    rintro (e | r) _ rfl
    · rfl
    · exact pages_replaceBatch batchSize batch r hbatch

lemma pages_evictSummarize (batchSize : ℤ) {metered : Bool} (maxSummaryTokens : ℤ)
    (hfree : metered = false → free) :
    (evictSummarize batchSize metered maxSummaryTokens p).Obeys (paging p free) .even
      fun _ s => s = .even := by
  refine pages_read fun pcb => ?_
  have hbatch := pinned_of_mem_batch
    (fun page (h : page ∈ summarizable pcb.contextPages) => pinned_of_mem_summarizable h) batchSize
  split
  · rfl
  · cases metered with
    | true =>
      refine Obeys.step ⟨trivial, rfl⟩ ?_
      rintro got _ rfl
      cases got with
      | true => exact pages_summarizeBatch batchSize maxSummaryTokens hbatch hfree
      | false => rfl
    | false => exact pages_summarizeBatch batchSize maxSummaryTokens hbatch hfree

lemma pages_evict {policy : Policy} (hfree : policy.callsFree = true → free) :
    (evict p policy).Obeys (paging p free) .even fun _ s => s = .even := by
  cases policy with
  | lru minKeep => exact pages_evictLru minKeep
  | summarize batchSize metered maxSummaryTokens =>
    refine pages_evictSummarize batchSize maxSummaryTokens fun hmetered => hfree ?_
    simp [Policy.callsFree, hmetered]
  | swap batchSize minKeep => exact pages_evictSwap batchSize minKeep

lemma pages_tryPolicies {policies : List Policy}
    (hfree : ∀ policy ∈ policies, policy.callsFree = true → free) (freed : ℤ) :
    (tryPolicies p policies freed).Obeys (paging p free) .even fun _ s => s = .even := by
  induction policies generalizing freed with
  | nil => rfl
  | cons policy rest ih =>
    refine (pages_evict (hfree policy List.mem_cons_self)).bind _ ?_
    rintro answer _ rfl
    split
    · rfl
    · split
      · rfl
      · exact ih (fun q hq => hfree q (List.mem_cons_of_mem _ hq)) _

lemma pages_makeRoom {policies : List Policy}
    (hfree : ∀ policy ∈ policies, policy.callsFree = true → free) (effectiveBudget : ℤ)
    (guard : ℕ) :
    (makeRoom policies p effectiveBudget guard).Obeys (paging p free) .even
      fun _ s => s = .even := by
  induction guard with
  | zero => rfl
  | succ guard ih =>
    refine pages_read fun pcb => ?_
    split
    · refine (pages_tryPolicies hfree 0).bind _ ?_
      rintro answer _ rfl
      split
      · rfl
      · split
        · rfl
        · exact ih
    · rfl

/-- **Assembling the messages** does nothing but paging, and is even with the quota in the end. -/
lemma pages_assemble {pager : ContextPager}
    (hfree : ∀ policy ∈ pager.policies, policy.callsFree = true → free) (extra : Option String) :
    (assemble pager p extra).Obeys (paging p free) .even fun _ s => s = .even := by
  refine (pages_makeRoom hfree _ 16).bind _ ?_
  rintro answer _ rfl
  split
  · rfl
  · exact pages_read fun pcb => pages_step rfl rfl (fun _ => rfl) fun _ => rfl

lemma only_of_pages {prog : Prog KOp α} {s : Purse} (h : prog.Obeys (paging p free) s Q) :
    prog.Only (Paging p) := by
  refine Obeys.only (K := fun _ => True) ?_ h trivial
  exact fun o s _ hpre => ⟨hpre.1, fun b => ⟨_, rfl, trivial⟩⟩

end

variable (p : Pid)

lemma only_makeRoom (policies : List Policy) (effectiveBudget : ℤ) (guard : ℕ) :
    (makeRoom policies p effectiveBudget guard).Only (Paging p) :=
  only_of_pages (pages_makeRoom (fun _ _ _ => trivial) effectiveBudget guard)

lemma only_paging_assemble (pager : ContextPager) (extra : Option String) :
    (assemble pager p extra).Only (Paging p) :=
  only_of_pages (pages_assemble (fun _ _ _ => trivial) extra)

/-- Assembling the messages touches nothing but the pages. -/
lemma only_assemble (pager : ContextPager) (extra : Option String) :
    (assemble pager p extra).Only (Pages p) :=
  (only_paging_assemble p pager extra).mono Paging.pages

end Memory

end Gcos
