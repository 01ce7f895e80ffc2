import Gcos.Memory.Shape
import Gcos.Memory.Collapse
import Gcos.Lib.Lists

/-!
# What LRU leaves

With the default policies `assemble` drops the pages that were not accessed for the longest
time, one by one.  Sorted by the time of their last access the pages lose a first part, and
how long that part is depends on the sizes alone: the context fits, or two pages are left,
or sixteen are gone.
-/

namespace Gcos.Memory

open Lib World

/-! ### The pages that are left -/

/-- What is left of the pages when LRU has dropped pages until the context fits, at most
`guard` of them and as long as there are more than two that are not pinned. -/
def lruLeft (effectiveBudget : ℤ) : ℕ → List ContextPage → List ContextPage
  | 0, pages => pages
  | guard + 1, pages =>
    if effectiveBudget < contextSize pages ∧ 2 < (nonPinned pages).length then
      match (nonPinned pages).argmin (·.lastAccess) with
      | none => pages
      | some victim => lruLeft effectiveBudget guard (pages.erase victim)
    else pages

/-- How many pages are dropped from the front of the pages in the order of their last
access. -/
def dropped (effectiveBudget : ℤ) : ℕ → List ContextPage → ℕ
  | 0, _ => 0
  | guard + 1, pages =>
    if effectiveBudget < contextSize pages ∧ 2 < pages.length then
      dropped effectiveBudget guard pages.tail + 1
    else 0

lemma pageTokens_nonneg (page : ContextPage) : 0 ≤ pageTokens page := by
  unfold pageTokens estimateTokens
  split
  · omega
  · split <;> omega

lemma contextSize_cons (page : ContextPage) (pages : List ContextPage) :
    contextSize (page :: pages) = pageTokens page + contextSize pages := List.sum_cons

lemma contextSize_drop_le (pages : List ContextPage) (i : ℕ) :
    contextSize (pages.drop i) ≤ contextSize pages := by
  induction i generalizing pages with
  | zero => exact le_rfl
  | succ i ih =>
    cases pages with
    | nil => exact le_rfl
    | cons page pages =>
      have hrest := ih pages
      have hpage := pageTokens_nonneg page
      rw [List.drop_succ_cons, contextSize_cons]
      omega

/-- A place in the order is kept exactly if the pages from it on fit, or it is one of the
last two, or the guard runs out before it is reached. -/
lemma dropped_le_iff (effectiveBudget : ℤ) (guard : ℕ) (pages : List ContextPage) (i : ℕ) :
    dropped effectiveBudget guard pages ≤ i ↔
      guard ≤ i ∨ pages.length ≤ i + 2 ∨ contextSize (pages.drop i) ≤ effectiveBudget := by
  induction guard generalizing pages i with
  | zero => simp [dropped]
  | succ guard ih =>
    rw [dropped]
    split
    · next hmore =>
      cases i with
      | zero =>
        rw [List.drop_zero]
        omega
      | succ i =>
        have hrest := ih pages.tail i
        rw [List.drop_tail, List.length_tail] at hrest
        rw [Nat.succ_le_succ_iff, hrest]
        refine or_congr (by omega) (or_congr ?_ Iff.rfl)
        omega
    · next hstop =>
      refine iff_of_true (Nat.zero_le i) ?_
      have hsize := contextSize_drop_le pages i
      by_cases hfits : contextSize pages ≤ effectiveBudget
      · exact .inr (.inr (by omega))
      · exact .inr (.inl (by omega))

lemma contextSize_perm {xs ys : List ContextPage} (h : xs.Perm ys) :
    contextSize xs = contextSize ys := (h.map pageTokens).sum_eq

/-- **LRU drops a first part of the pages in the order of their last access.** -/
lemma oldestFirst_lruLeft (effectiveBudget : ℤ) (guard : ℕ) {pages : List ContextPage}
    (hpinned : ∀ page ∈ pages, page.pinned = false) :
    oldestFirst (lruLeft effectiveBudget guard pages) =
      (oldestFirst pages).drop (dropped effectiveBudget guard (oldestFirst pages)) := by
  induction guard generalizing pages with
  | zero => rfl
  | succ guard ih =>
    have hall : nonPinned pages = pages := by
      refine List.filter_eq_self.2 fun page hpage => ?_
      rw [hpinned page hpage]
      rfl
    have hsort : (oldestFirst pages).Perm pages := List.perm_insertionSort _ _
    rw [lruLeft, dropped, hall, contextSize_perm hsort, hsort.length_eq]
    split
    · next hmore =>
      cases hmin : pages.argmin (·.lastAccess) with
      | none =>
        rw [List.argmin_eq_none.1 hmin] at hmore
        cases hmore.2
      | some victim =>
        have hfirst : oldestFirst pages = victim :: oldestFirst (pages.erase victim) :=
          insertionSort_eq_argmin_cons ContextPage.lastAccess hmin
        simp only [hfirst, List.tail_cons, List.drop_succ_cons]
        exact ih fun page hpage => hpinned page (List.mem_of_mem_erase hpage)
    · rfl

/-- A context that is not empty does not become empty. -/
lemma lruLeft_eq_nil_iff (effectiveBudget : ℤ) (guard : ℕ) (pages : List ContextPage) :
    lruLeft effectiveBudget guard pages = [] ↔ pages = [] := by
  induction guard generalizing pages with
  | zero => rfl
  | succ guard ih =>
    rw [lruLeft]
    split
    · next hmore =>
      have hlen : (nonPinned pages).length ≤ pages.length := List.length_filter_le _ _
      cases (nonPinned pages).argmin (·.lastAccess) with
      | none => rfl
      | some victim =>
        have herase := List.length_erase_le (a := victim) (l := pages)
        have hlast := List.le_length_erase (a := victim) (l := pages)
        rw [ih, ← List.length_eq_zero_iff, ← List.length_eq_zero_iff]
        omega
    · rfl

/-! ### The pager with the default policies -/

section

variable {n : ℕ} (cfg : KernelConfig) (out : Outside) (t : Tid n) (p : Pid)

/-- From `w` to `w'` the agent has the given pages, and no call was made. -/
def HasPages (w w' : World n) (pages : List ContextPage) : Prop :=
  w'.chats = w.chats ∧ w'.pcbs p = { w.pcbs p with contextPages := pages }

/-- The loop with LRU leaves `lruLeft`. -/
lemma runs_makeRoom_lru (effectiveBudget : ℤ) (guard : ℕ) (w : World n) :
    ∃ w', runs cfg out t (makeRoom [.lru 2] p effectiveBudget guard) w = (.ok (), w') ∧
      HasPages p w w' (lruLeft effectiveBudget guard (w.pcbs p).contextPages) := by
  -- by induction on the guard: a round drops the first minimum
  induction guard generalizing w with
  | zero => exact ⟨w, rfl, rfl, rfl⟩
  | succ guard ih =>
    have hread : ∀ look, World.exec cfg out t (.readPcb p look) w = (w.pcbs p, w) := fun _ => rfl
    simp only [makeRoom, Prog.perform_bind, runs_op, hread, lruLeft]
    by_cases hover : effectiveBudget < contextSize (w.pcbs p).contextPages
    · rw [if_pos hover, runs_bind]
      rcases le_or_gt ((nonPinned (w.pcbs p).contextPages).length : ℤ) 2 with hfew | hmany
      · have hround : runs cfg out t (tryPolicies p [.lru 2] 0) w = (.ok 0, w) := by
          simp [tryPolicies, evict, evictLru_floor cfg out t p w hfew]
        have hkeep : ¬(effectiveBudget < contextSize (w.pcbs p).contextPages ∧
            2 < (nonPinned (w.pcbs p).contextPages).length) := by omega
        rw [hround, if_neg hkeep]
        exact ⟨w, rfl, rfl, rfl⟩
      · have hdrop : effectiveBudget < contextSize (w.pcbs p).contextPages ∧
            2 < (nonPinned (w.pcbs p).contextPages).length := ⟨hover, by omega⟩
        rw [if_pos hdrop]
        cases hmin : (nonPinned (w.pcbs p).contextPages).argmin (·.lastAccess) with
        | none =>
          rw [List.argmin_eq_none.1 hmin] at hmany
          cases hmany
        | some victim =>
          have hlru := evictLru_drops cfg out t p w hmany hmin
          have hround : runs cfg out t (tryPolicies p [.lru 2] 0) w =
              (.ok 1, afterLru p w victim) := by
            simp [tryPolicies, evict, hlru]
          obtain ⟨w', hrest, hchats, hpages⟩ := ih (afterLru p w victim)
          have hblock : (afterLru p w victim).pcbs p =
              { w.pcbs p with contextPages := (w.pcbs p).contextPages.erase victim } :=
            Function.update_self ..
          rw [hblock] at hpages
          rw [hround]
          exact ⟨w', hrest, hchats, hpages⟩
    · rw [if_neg hover]
      have hkeep : ¬(effectiveBudget < contextSize (w.pcbs p).contextPages ∧
          2 < (nonPinned (w.pcbs p).contextPages).length) := fun h => hover h.1
      rw [if_neg hkeep]
      exact ⟨w, rfl, rfl, rfl⟩

/-- With the default stack `assemble` returns the messages of the pages that LRU leaves, and
the agent has these pages, accessed just now. -/
lemma runs_assemble_default (budget : ℤ) (metered : Bool) (extra : Option String) (w : World n) :
    let left := lruLeft (budget - estimateTokens (extra.getD "")) 16 (w.pcbs p).contextPages
    ∃ w' pages, runs cfg out t (assemble ⟨budget, defaultPolicies metered⟩ p extra) w =
        (.ok (left.map pageMessage ++ extraMessage extra), w') ∧
      HasPages p w w' pages ∧ pages.map ContextPage.forget = left.map ContextPage.forget := by
  intro left
  obtain ⟨w₁, hroom, hchats, hpages⟩ :=
    runs_makeRoom_lru cfg out t p (budget - estimateTokens (extra.getD "")) 16 w
  have hleft : (w₁.pcbs p).contextPages = left := by rw [hpages]
  simp only [assemble, runs_bind, makeRoom_default, hroom]
  refine ⟨(World.exec cfg out t (.write p .touchPages) w₁).2,
    ((World.exec cfg out t (.write p .touchPages) w₁).2.pcbs p).contextPages, ?_, ⟨hchats, ?_⟩, ?_⟩
  · rw [← hleft]
    rfl
  · simp only [World.exec, Function.update_self, Write.apply, hpages]
  · simp only [World.exec, Function.update_self, Write.apply, hleft]
    exact map_forget_touched _ _

end

end Gcos.Memory
