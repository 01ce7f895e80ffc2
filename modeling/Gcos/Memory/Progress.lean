import Gcos.Memory.Guard

/-!
# The progress of evictions

An eviction answers by how many pages the context has become shorter.  A summary may be longer
than what it replaces, so the tokens say nothing; but a round of the loop of
`ContextPager.assemble` that goes on has made the pages fewer, and the loop comes to its end
without its guard.
-/

namespace Gcos.Memory

open Lib World

/-! ### One policy -/

/-- The parameters with which a policy that does something takes pages away. -/
def Proper : Policy → Prop
  | .lru minKeep => 0 ≤ minKeep
  | .summarize batchSize _ _ => 2 ≤ batchSize
  | .swap batchSize minKeep => 1 ≤ batchSize ∧ 0 ≤ minKeep

variable {n : ℕ}

/-- The client answers, or the file is written, where the policy needs it. -/
def Returns (out : Outside) (w : World n) : Policy → Prop
  | .lru _ => True
  | .summarize _ _ _ => (out.chat w.chats).isOk = true
  | .swap _ _ => out.swapWrite w.swaps = none

/-- The pages are as they were, or there are as many fewer as the answer says.  Unless
`returns` holds something may be raised, and then the pages are as they were. -/
inductive Reports (p : Pid) (pages : List ContextPage) (returns : Prop) :
    Except Exn ℤ × World n → Prop
  | kept {w' : World n} (hsame : (w'.pcbs p).contextPages = pages) :
      Reports p pages returns (.ok 0, w')
  | freed {k : ℕ} {w' : World n} (hpos : 0 < k)
      (hlen : pages.length = (w'.pcbs p).contextPages.length + k) :
      Reports p pages returns (.ok k, w')
  | raised {e : Exn} {w' : World n} (hfails : ¬returns) (hsame : (w'.pcbs p).contextPages = pages) :
      Reports p pages returns (.error e, w')

/-- A batch of pages of the context is removed as a whole, duplicates or not. -/
lemma length_diff_add {pages batch : List ContextPage} (h : (batch : Multiset ContextPage) ≤ pages) :
    (pages.diff batch).length + batch.length = pages.length := by
  have hcard := Multiset.card_sub h
  have hle := Multiset.card_le_card h
  rw [Multiset.coe_sub] at hcard
  simp only [Multiset.coe_card] at hcard hle
  omega

lemma summaryBatch_le (batchSize : ℤ) (pages : List ContextPage) :
    (summaryBatch batchSize pages : Multiset ContextPage) ≤ pages :=
  sliceTo_oldestFirst_le List.filter_sublist batchSize

lemma length_summaryBatch {batchSize : ℤ} (hsize : 0 ≤ batchSize) {pages : List ContextPage}
    (hmany : batchSize ≤ ((summarizable pages).length : ℤ)) :
    ((summaryBatch batchSize pages).length : ℤ) = batchSize := by
  rw [summaryBatch, length_sliceTo_oldestFirst, sliceTo, if_pos hsize, List.length_take]
  omega

section

variable {cfg : KernelConfig} {out : Outside} {t : Tid n} {p : Pid} {w : World n}

lemma reports_evictLru {minKeep : ℤ} (hkeep : 0 ≤ minKeep) :
    Reports p (w.pcbs p).contextPages (Returns out w (.lru minKeep))
      (runs cfg out t (evictLru minKeep p) w) := by
  rcases le_or_gt ((nonPinned (w.pcbs p).contextPages).length : ℤ) minKeep with hfew | hmany
  · rw [evictLru_floor cfg out t p w hfew]
    exact .kept rfl
  · obtain ⟨victim, hmem, hrun⟩ := evictLru_frees cfg out t p w hkeep hmany
    have hpages : victim ∈ (w.pcbs p).contextPages := (List.mem_filter.1 hmem).1
    rw [hrun]
    refine .freed (k := 1) one_pos ?_
    simp only [afterLru, Function.update_self]
    rw [List.length_erase_add_one hpages]

lemma reports_evictSummarize {batchSize : ℤ} (hsize : 2 ≤ batchSize) (metered : Bool)
    (maxSummaryTokens : ℤ) :
    Reports p (w.pcbs p).contextPages
      (Returns out w (.summarize batchSize metered maxSummaryTokens))
      (runs cfg out t (evictSummarize batchSize metered maxSummaryTokens p) w) := by
  rcases lt_or_ge ((summarizable (w.pcbs p).contextPages).length : ℤ) batchSize with hfew | hmany
  · rw [evictSummarize_idle cfg out t p w metered maxSummaryTokens hfew]
    exact .kept rfl
  · rw [runs_evictSummarize batchSize metered maxSummaryTokens hmany]
    split
    · exact .kept rfl
    · generalize hw₁ : (if metered = true then charged t w else w) = w₁
      have hsame : w₁.pcbs = w.pcbs := by rw [← hw₁]; split <;> rfl
      have hchats : w₁.chats = w.chats := by rw [← hw₁]; split <;> rfl
      rw [← hsame] at hmany ⊢
      generalize hbatch : summaryBatch batchSize (w₁.pcbs p).contextPages = batch
      cases hchat : out.chat w₁.chats with
      | error e =>
        obtain ⟨w₂, hrun, hpcbs, -⟩ := runs_summarizeBatch_error cfg out t p batchSize metered
          maxSummaryTokens batch hchat
        rw [hrun]
        refine .raised (fun hreturns => ?_) (by rw [hpcbs])
        rw [Returns, ← hchats, hchat] at hreturns
        exact Bool.noConfusion hreturns
      | ok r =>
        have hlen := length_summaryBatch (by omega) hmany
        have hle := summaryBatch_le batchSize (w₁.pcbs p).contextPages
        rw [hbatch] at hlen hle
        obtain ⟨first, rest, rfl⟩ := List.exists_cons_of_length_pos (l := batch) (by omega)
        obtain ⟨hanswer, ⟨s, -, hpages⟩, -⟩ := runs_summarizeBatch_ok cfg out t p batchSize metered
          maxSummaryTokens first rest hchat
        -- the summary is the one page that comes back
        have hplace : summaryPlace (w₁.pcbs p).contextPages (first :: rest) first ≤
            ((w₁.pcbs p).contextPages.diff (first :: rest)).length := min_le_right _ _
        have hremoved := length_diff_add hle
        have hrest : batchSize - 1 = (rest.length : ℤ) := by
          rw [List.length_cons] at hlen
          omega
        rw [← Prod.mk.eta (p := runs _ _ _ _ _), hanswer, hrest]
        refine .freed (by omega) ?_
        rw [hpages, List.length_insertIdx_of_le_length hplace, ← hremoved, List.length_cons]
        omega

lemma reports_evictSwap {batchSize minKeep : ℤ} (hsize : 1 ≤ batchSize) (hkeep : 0 ≤ minKeep) :
    Reports p (w.pcbs p).contextPages (Returns out w (.swap batchSize minKeep))
      (runs cfg out t (evictSwap batchSize minKeep p) w) := by
  rcases le_or_gt ((nonPinned (w.pcbs p).contextPages).length : ℤ) minKeep with hfew | hmany
  · rw [evictSwap_floor cfg out t p w batchSize hfew]
    exact .kept rfl
  · cases hwrite : out.swapWrite w.swaps with
    | some failure =>
      obtain ⟨e, opened⟩ := failure
      obtain ⟨w', hfail, hpcbs⟩ := runs_evictSwap_error cfg out t p batchSize hmany hwrite
      rw [hfail]
      refine .raised (fun hreturns => ?_) (by rw [hpcbs])
      rw [Returns, hwrite] at hreturns
      cases hreturns
    | none =>
      have hswap : swapBatch batchSize minKeep (w.pcbs p).contextPages =
          some (sliceTo (oldestFirst (nonPinned (w.pcbs p).contextPages)) batchSize) :=
        if_neg (not_le.2 hmany)
      rw [runs_evictSwap cfg out t p batchSize minKeep hwrite, hswap]
      refine .freed ?_ ?_
      · rw [length_sliceTo_oldestFirst, sliceTo, if_pos (by omega), List.length_take]
        omega
      · simp only [swappedOut, Function.update_self]
        exact (length_diff_add (swapBatch_le hswap)).symm

variable (cfg out t p w) in
/-- **What a policy reports.** -/
lemma reports_evict {policy : Policy} (hproper : Proper policy) :
    Reports p (w.pcbs p).contextPages (Returns out w policy) (runs cfg out t (evict p policy) w) := by
  cases policy with
  | lru minKeep => exact reports_evictLru hproper
  | summarize batchSize metered maxSummaryTokens =>
    exact reports_evictSummarize hproper metered maxSummaryTokens
  | swap batchSize minKeep => exact reports_evictSwap hproper.1 hproper.2

variable {pages : List ContextPage} {returns : Prop}

/-- An answer is the number of pages that are gone, and 0 only if nothing has changed. -/
lemma Reports.of_ok {freed : ℤ} {w' : World n} (h : Reports p pages returns (.ok freed, w')) :
    freed = pages.length - (w'.pcbs p).contextPages.length ∧ 0 ≤ freed ∧
      (freed = 0 → (w'.pcbs p).contextPages = pages) := by
  cases h with
  | kept hsame => exact ⟨by rw [hsame, sub_self], le_rfl, fun _ => hsame⟩
  | freed hpos hlen =>
    refine ⟨by omega, by omega, fun hzero => ?_⟩
    omega

lemma Reports.exists_ok {run : Except Exn ℤ × World n} (h : Reports p pages returns run)
    (hreturns : returns) : ∃ freed w', run = (.ok freed, w') := by
  cases h with
  | kept hsame => exact ⟨_, _, rfl⟩
  | freed hpos hlen => exact ⟨_, _, rfl⟩
  | raised hfails hsame => exact absurd hreturns hfails

/-! ### The rounds -/

variable (cfg out t p w) in
/-- A round reports as its policies do. -/
lemma reports_tryPolicies {policies : List Policy} (hproper : ∀ policy ∈ policies, Proper policy) :
    Reports p (w.pcbs p).contextPages False (runs cfg out t (tryPolicies p policies 0) w) := by
  induction policies generalizing w with
  | nil => exact .kept rfl
  | cons policy rest ih =>
    have hfirst := reports_evict cfg out t p w (hproper policy List.mem_cons_self)
    have hrest := fun w₁ : World n => ih (w := w₁) fun q hq => hproper q (List.mem_cons_of_mem _ hq)
    simp only [tryPolicies, runs_bind]
    generalize runs cfg out t (evict p policy) w = run at hfirst
    generalize (w.pcbs p).contextPages = pages at hfirst
    cases hfirst with
    | @kept w₁ hsame =>
      have hround := hrest w₁
      rw [hsame] at hround
      exact hround
    | freed hpos hlen =>
      have hpos' : (0 : ℤ) < (_ : ℕ) := Int.natCast_pos.2 hpos
      simp only [if_pos hpos']
      exact .freed hpos hlen
    | raised hfails hsame => exact .raised id hsame

end

/-! ### The loop -/

section

variable (cfg : KernelConfig) (out : Outside) (t : Tid n) (p : Pid) (policies : List Policy)
  (effectiveBudget : ℤ)

/-- One round of the eviction loop of `assemble`: how the loop ends, or where it goes on. -/
def loopRound (w : World n) : (Except Exn Unit × World n) ⊕ World n :=
  if effectiveBudget < contextSize (w.pcbs p).contextPages then
    match runs cfg out t (tryPolicies p policies 0) w with
    | (.error e, w₁) => .inl (.error e, w₁)
    | (.ok freed, w₁) => if freed = 0 then .inl (.ok (), w₁) else .inr w₁
  else .inl (.ok (), w)

/-- How the loop ends if it has no guard. -/
inductive LoopEnds : World n → Except Exn Unit × World n → Prop
  | done {w : World n} {result : Except Exn Unit × World n}
      (hround : loopRound cfg out t p policies effectiveBudget w = .inl result) : LoopEnds w result
  | again {w w₁ : World n} {result : Except Exn Unit × World n}
      (hround : loopRound cfg out t p policies effectiveBudget w = .inr w₁)
      (hrest : LoopEnds w₁ result) : LoopEnds w result

variable {cfg out t p policies effectiveBudget} {w : World n}

/-- The loop ends in one way only. -/
lemma LoopEnds.unique {result result' : Except Exn Unit × World n}
    (h : LoopEnds cfg out t p policies effectiveBudget w result)
    (h' : LoopEnds cfg out t p policies effectiveBudget w result') : result = result' := by
  induction h with
  | done hround =>
    cases h' with
    | done hround' => exact Sum.inl.inj (hround.symm.trans hround')
    | again hround' hrest' => cases hround.symm.trans hround'
  | again hround hrest ih =>
    cases h' with
    | done hround' => cases hround.symm.trans hround'
    | again hround' hrest' =>
      obtain rfl := Sum.inr.inj (hround.symm.trans hround')
      exact ih hrest'

/-- The rounds of the loop with its guard are the same. -/
lemma runs_makeRoom_loopRound (guard : ℕ) :
    runs cfg out t (makeRoom policies p effectiveBudget (guard + 1)) w =
      match loopRound cfg out t p policies effectiveBudget w with
      | .inl result => result
      | .inr w₁ => runs cfg out t (makeRoom policies p effectiveBudget guard) w₁ := by
  rw [runs_makeRoom_succ, loopRound]
  split
  · rcases runs cfg out t (tryPolicies p policies 0) w with ⟨e | freed, w₁⟩
    · rfl
    · simp only
      split <;> rfl
  · rfl

/-- A round after which the loop goes on has made the pages fewer. -/
lemma length_lt_of_loopRound (hproper : ∀ policy ∈ policies, Proper policy) {w₁ : World n}
    (hround : loopRound cfg out t p policies effectiveBudget w = .inr w₁) :
    (w₁.pcbs p).contextPages.length < (w.pcbs p).contextPages.length := by
  have hreports := reports_tryPolicies cfg out t p w hproper
  rw [loopRound] at hround
  split at hround
  · generalize runs cfg out t (tryPolicies p policies 0) w = round at hreports hround
    obtain ⟨e | freed, w₂⟩ := round
    · cases hround
    · obtain ⟨hlen, hnonneg, -⟩ := hreports.of_ok
      simp only at hround
      split at hround
      · cases hround
      · cases hround
        omega
  · cases hround

/-- With a guard above the number of the pages the loop ends as it does without. -/
lemma loopEnds_makeRoom (hproper : ∀ policy ∈ policies, Proper policy) {guard : ℕ}
    (hguard : (w.pcbs p).contextPages.length < guard) :
    LoopEnds cfg out t p policies effectiveBudget w
      (runs cfg out t (makeRoom policies p effectiveBudget guard) w) := by
  -- by induction on the guard: the pages become fewer faster than it
  induction guard generalizing w with
  | zero => omega
  | succ guard ih =>
    rw [runs_makeRoom_loopRound]
    cases hround : loopRound cfg out t p policies effectiveBudget w with
    | inl result => exact .done hround
    | inr w₁ =>
      have hfewer := length_lt_of_loopRound hproper hround
      exact .again hround (ih (by omega))

end

/-- **Evictions make progress and report it.**  For all pages and all policies with proper
parameters: an eviction that returns answers by how many pages the context has become
shorter, and 0 only if the pages are unchanged; it does return if the client answers and the
file is written.  The loop of `assemble` ends without its guard, whatever is raised in it, as
it ends with a guard above the number of the pages. -/
theorem evictions_progress {n : ℕ} (cfg : KernelConfig) (out : Outside) (t : Tid n) (p : Pid)
    (policies : List Policy) (hproper : ∀ policy ∈ policies, Proper policy) (effectiveBudget : ℤ)
    (w : World n) :
    (∀ policy ∈ policies,
      (∀ freed w', runs cfg out t (evict p policy) w = (.ok freed, w') →
        freed = (w.pcbs p).contextPages.length - (w'.pcbs p).contextPages.length ∧
          (freed = 0 → (w'.pcbs p).contextPages = (w.pcbs p).contextPages)) ∧
      (Returns out w policy → ∃ freed w', runs cfg out t (evict p policy) w = (.ok freed, w'))) ∧
    ∃ result, LoopEnds cfg out t p policies effectiveBudget w result ∧
      ∀ guard, (w.pcbs p).contextPages.length < guard →
        runs cfg out t (makeRoom policies p effectiveBudget guard) w = result := by
  refine ⟨fun policy hmem => ⟨fun freed w' hrun => ?_, ?_⟩, ?_⟩
  · have hreports := reports_evict cfg out t p w (hproper policy hmem)
    rw [hrun] at hreports
    exact ⟨hreports.of_ok.1, hreports.of_ok.2.2⟩
  · exact (reports_evict cfg out t p w (hproper policy hmem)).exists_ok
  · have hends : LoopEnds cfg out t p policies effectiveBudget w _ :=
      loopEnds_makeRoom hproper (Nat.lt_succ_self (w.pcbs p).contextPages.length)
    exact ⟨_, hends, fun guard hguard => (loopEnds_makeRoom hproper hguard).unique hends⟩

/-- Nineteen turns and no room: without the guard LRU goes on until two are left. -/
theorem evictions_progress_nineteen :
    ∃ result, LoopEnds { pager := {}, host := .inert } (.calm ⟨"", 0, 0, 0⟩) (.client 0) 1
        (defaultPolicies false) 0 (shortTurns 19) result ∧
      ((result.2.pcbs 1).contextPages).length = 2 := by
  have hproper : ∀ policy ∈ defaultPolicies false, Proper policy := by simp [defaultPolicies, Proper]
  obtain ⟨result, hends, hguard⟩ := (evictions_progress { pager := {}, host := .inert }
    (.calm ⟨"", 0, 0, 0⟩) (.client 0) 1 (defaultPolicies false) hproper 0 (shortTurns 19)).2
  refine ⟨result, hends, ?_⟩
  rw [← hguard 20 (by decide)]
  decide +kernel

end Gcos.Memory
