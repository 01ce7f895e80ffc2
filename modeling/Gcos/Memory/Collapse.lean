import Gcos.Memory.Pager

/-!
# The default policy stack

The kernel advertises three tiers of eviction: LRU, then summarize, then swap.  In
`default_policies` the first tier gives up only when at most two pages are not pinned,
and then the other two have nothing to work on: a summary needs four candidates, which
are pages that are not pinned, and swap keeps the same two pages.  So the stack does what
LRU alone does.
-/

namespace Gcos.Memory

open Lib World

section

variable {n : ℕ} (cfg : KernelConfig) (out : Outside) (t : Tid n) (p : Pid) (w : World n)

lemma length_summarizable_le (pages : List ContextPage) :
    (summarizable pages).length ≤ (nonPinned pages).length := by
  have hsub : summarizable pages = (nonPinned pages).filter
      fun q => !q.summarized && q.role ≠ .system := by
    simp [summarizable, nonPinned, List.filter_filter, Bool.and_comm, Bool.and_assoc]
  rw [hsub]
  exact List.length_filter_le _ _

/-! ### What the policies do -/

/-- At its floor LRU frees nothing and changes nothing. -/
lemma evictLru_floor {minKeep : ℤ}
    (h : ((nonPinned (w.pcbs p).contextPages).length : ℤ) ≤ minKeep) :
    runs cfg out t (evictLru minKeep p) w = (.ok 0, w) := by
  simp [evictLru, World.exec, h]

/-- The world after LRU has dropped a page. -/
def afterLru (victim : ContextPage) : World n :=
  { w with
    pcbs := Function.update w.pcbs p
      { w.pcbs p with contextPages := (w.pcbs p).contextPages.erase victim }
    ticks := w.ticks + 1 + 1 }

/-- Above its floor LRU drops the page that was not accessed for the longest time. -/
lemma evictLru_drops {minKeep : ℤ} {victim : ContextPage}
    (h : minKeep < ((nonPinned (w.pcbs p).contextPages).length : ℤ))
    (hmin : (nonPinned (w.pcbs p).contextPages).argmin (·.lastAccess) = some victim) :
    runs cfg out t (evictLru minKeep p) w = (.ok 1, afterLru p w victim) := by
  simp [evictLru, World.exec, not_le.2 h, hmin, Write.apply, Write.ticks, afterLru]

/-- Above its floor LRU drops a page that is not pinned. -/
lemma evictLru_frees {minKeep : ℤ} (hkeep : 0 ≤ minKeep)
    (h : minKeep < ((nonPinned (w.pcbs p).contextPages).length : ℤ)) :
    ∃ victim ∈ nonPinned (w.pcbs p).contextPages,
      runs cfg out t (evictLru minKeep p) w = (.ok 1, afterLru p w victim) := by
  cases hmin : (nonPinned (w.pcbs p).contextPages).argmin (·.lastAccess) with
  | none =>
    rw [List.argmin_eq_none] at hmin
    rw [hmin, List.length_nil] at h
    omega
  | some victim =>
    exact ⟨victim, List.argmin_mem hmin, evictLru_drops cfg out t p w h hmin⟩

/-- Summarize has too few candidates and changes nothing. -/
lemma evictSummarize_idle {batchSize : ℤ} (metered : Bool) (maxSummaryTokens : ℤ)
    (h : ((summarizable (w.pcbs p).contextPages).length : ℤ) < batchSize) :
    runs cfg out t (evictSummarize batchSize metered maxSummaryTokens p) w = (.ok 0, w) := by
  simp [evictSummarize, World.exec, h]

/-- Swap is at its floor and changes nothing. -/
lemma evictSwap_floor {minKeep : ℤ} (batchSize : ℤ)
    (h : ((nonPinned (w.pcbs p).contextPages).length : ℤ) ≤ minKeep) :
    runs cfg out t (evictSwap batchSize minKeep p) w = (.ok 0, w) := by
  simp [evictSwap, World.exec, h]

/-! ### The stack -/

/-- Where LRU gives up, the other tiers free nothing. -/
lemma lower_tiers_idle (metered : Bool)
    (h : (runs cfg out t (evict p (.lru 2)) w).1 = .ok 0) :
    runs cfg out t (evict p (.summarize 4 metered 200)) w = (.ok 0, w) ∧
      runs cfg out t (evict p (.swap 2 2)) w = (.ok 0, w) := by
  -- LRU frees a page whenever there are more than two
  have hfloor : ((nonPinned (w.pcbs p).contextPages).length : ℤ) ≤ 2 := by
    by_contra hmany
    obtain ⟨victim, -, hrun⟩ := evictLru_frees cfg out t p w (by norm_num) (not_le.1 hmany)
    rw [evict, hrun] at h
    cases h
  have hsub := length_summarizable_le (w.pcbs p).contextPages
  exact ⟨evictSummarize_idle cfg out t p w metered 200 (by omega),
    evictSwap_floor cfg out t p w 2 hfloor⟩

/-- One round of the stack is one round of LRU. -/
lemma tryPolicies_default (metered : Bool) :
    runs cfg out t (tryPolicies p (defaultPolicies metered) 0) w =
      runs cfg out t (tryPolicies p [.lru 2] 0) w := by
  rcases le_or_gt ((nonPinned (w.pcbs p).contextPages).length : ℤ) 2 with hfew | hmany
  · have hlru := evictLru_floor cfg out t p w hfew
    obtain ⟨hsum, hswap⟩ := lower_tiers_idle cfg out t p w metered (by rw [evict, hlru])
    simp only [evict] at hsum hswap
    simp [tryPolicies, defaultPolicies, evict, hlru, hsum, hswap]
  · obtain ⟨victim, -, hlru⟩ := evictLru_frees cfg out t p w (by norm_num) hmany
    simp [tryPolicies, defaultPolicies, evict, hlru]

lemma makeRoom_default (metered : Bool) (effectiveBudget : ℤ) (guard : ℕ) :
    runs cfg out t (makeRoom (defaultPolicies metered) p effectiveBudget guard) w =
      runs cfg out t (makeRoom [.lru 2] p effectiveBudget guard) w := by
  induction guard generalizing w with
  -- by induction on the guard: the two loops go through the same rounds
  | zero => rfl
  | succ guard ih =>
    simp only [makeRoom, Prog.perform_bind, runs_op]
    split
    · rw [runs_bind, runs_bind, tryPolicies_default]
      split
      · rfl
      · split
        · rfl
        · exact ih _
    · rfl

/-! ### What LRU leaves alone -/

/-- The parts of the world that no eviction by LRU touches. -/
def Untouched (w w' : World n) : Prop :=
  w'.chats = w.chats ∧ w'.quota = w.quota ∧ w'.swapDir = w.swapDir ∧ w'.swaps = w.swaps

lemma Untouched.trans {w w' w'' : World n} (h : Untouched w w') (h' : Untouched w' w'') :
    Untouched w w'' :=
  ⟨h'.1.trans h.1, h'.2.1.trans h.2.1, h'.2.2.1.trans h.2.2.1, h'.2.2.2.trans h.2.2.2⟩

lemma untouched_tryPolicies_lru :
    Untouched w (runs cfg out t (tryPolicies p [.lru 2] 0) w).2 := by
  rcases le_or_gt ((nonPinned (w.pcbs p).contextPages).length : ℤ) 2 with hfew | hmany
  · have hlru := evictLru_floor cfg out t p w hfew
    simp [tryPolicies, evict, hlru, Untouched]
  · obtain ⟨victim, -, hlru⟩ := evictLru_frees cfg out t p w (by norm_num) hmany
    simp [tryPolicies, evict, hlru, Untouched, afterLru]

lemma untouched_makeRoom_lru (effectiveBudget : ℤ) (guard : ℕ) :
    Untouched w (runs cfg out t (makeRoom [.lru 2] p effectiveBudget guard) w).2 := by
  induction guard generalizing w with
  | zero => exact ⟨rfl, rfl, rfl, rfl⟩
  | succ guard ih =>
    simp only [makeRoom, Prog.perform_bind, runs_op]
    split
    · rw [runs_bind]
      have hround := untouched_tryPolicies_lru cfg out t p w
      split
      · exact hround
      · split
        · exact hround
        · exact hround.trans (ih _)
    · exact ⟨rfl, rfl, rfl, rfl⟩

lemma untouched_assemble_lru (budget : ℤ) (extra : Option String) :
    Untouched w (runs cfg out t (assemble ⟨budget, [.lru 2]⟩ p extra) w).2 := by
  have hroom := untouched_makeRoom_lru cfg out t p w (budget - estimateTokens (extra.getD "")) 16
  simp only [assemble, runs_bind]
  split
  · exact hroom
  · exact hroom

/-! ### What the default stack does to the agent -/

/-- From `w` to `w'` the agent has at most other pages, and no call was made. -/
def OnlyPages (p : Pid) (w w' : World n) : Prop :=
  w'.chats = w.chats ∧ ∃ pages, w'.pcbs p = { w.pcbs p with contextPages := pages }

lemma OnlyPages.trans {p : Pid} {w w' w'' : World n} (h : OnlyPages p w w')
    (h' : OnlyPages p w' w'') : OnlyPages p w w'' := by
  obtain ⟨hchats, pages, hpages⟩ := h
  obtain ⟨hchats', pages', hpages'⟩ := h'
  refine ⟨hchats'.trans hchats, pages', ?_⟩
  rw [hpages', hpages]

lemma tryPolicies_lru_answers :
    ∃ freed w', runs cfg out t (tryPolicies p [.lru 2] 0) w = (.ok freed, w') ∧
      OnlyPages p w w' := by
  rcases le_or_gt ((nonPinned (w.pcbs p).contextPages).length : ℤ) 2 with hfew | hmany
  · have hlru := evictLru_floor cfg out t p w hfew
    exact ⟨0, w, by simp [tryPolicies, evict, hlru], rfl, _, rfl⟩
  · obtain ⟨victim, -, hlru⟩ := evictLru_frees cfg out t p w (by norm_num) hmany
    exact ⟨1, afterLru p w victim, by simp [tryPolicies, evict, hlru], rfl, _,
      Function.update_self ..⟩

lemma makeRoom_lru_answers (effectiveBudget : ℤ) (guard : ℕ) :
    ∃ w', runs cfg out t (makeRoom [.lru 2] p effectiveBudget guard) w = (.ok (), w') ∧
      OnlyPages p w w' := by
  induction guard generalizing w with
  | zero => exact ⟨w, rfl, rfl, _, rfl⟩
  | succ guard ih =>
    simp only [makeRoom, Prog.perform_bind, runs_op]
    split
    · obtain ⟨freed, w₁, hround, hpages⟩ := tryPolicies_lru_answers cfg out t p w
      have hread : ∀ look, (World.exec cfg out t (.readPcb p look) w).2 = w := fun _ => rfl
      rw [runs_bind, hread, hround]
      simp only
      split
      · exact ⟨w₁, rfl, hpages⟩
      · obtain ⟨w₂, hrest, hpages'⟩ := ih w₁
        exact ⟨w₂, hrest, hpages.trans hpages'⟩
    · exact ⟨w, rfl, rfl, _, rfl⟩

/-- With the default stack `assemble` does not raise, makes no call, and changes nothing of
the agent but its pages. -/
lemma assemble_default_answers (budget : ℤ) (metered : Bool) (extra : Option String) :
    ∃ messages w', runs cfg out t (assemble ⟨budget, defaultPolicies metered⟩ p extra) w =
      (.ok messages, w') ∧ OnlyPages p w w' := by
  obtain ⟨w₁, hroom, hpages⟩ :=
    makeRoom_lru_answers cfg out t p w (budget - estimateTokens (extra.getD "")) 16
  simp only [assemble, runs_bind, makeRoom_default, hroom]
  refine ⟨_, _, rfl, hpages.trans ⟨rfl, _, Function.update_self ..⟩⟩

end

/-- **The default stack is LRU alone.**  Whatever the world (the pages, the client, the
quota, the clock), the budget and the extra prompt, `assemble` with `default_policies`
leaves the same world and returns the same messages as with LRU alone; it makes no chat
call, takes no quota unit and writes no swap file; and wherever LRU has given up, the two
other tiers free nothing. -/
theorem defaultPolicies_collapse {n : ℕ} (cfg : KernelConfig) (out : Outside) (t : Tid n)
    (w : World n) (p : Pid) (budget : ℤ) (metered : Bool) (extra : Option String) :
    runs cfg out t (assemble ⟨budget, defaultPolicies metered⟩ p extra) w =
        runs cfg out t (assemble ⟨budget, [.lru 2]⟩ p extra) w ∧
      (runs cfg out t (assemble ⟨budget, defaultPolicies metered⟩ p extra) w).2.chats = w.chats ∧
      (runs cfg out t (assemble ⟨budget, defaultPolicies metered⟩ p extra) w).2.quota = w.quota ∧
      (runs cfg out t (assemble ⟨budget, defaultPolicies metered⟩ p extra) w).2.swapDir =
        w.swapDir ∧
      ∀ w' : World n, (runs cfg out t (evict p (.lru 2)) w').1 = .ok 0 →
        runs cfg out t (evict p (.summarize 4 metered 200)) w' = (.ok 0, w') ∧
          runs cfg out t (evict p (.swap 2 2)) w' = (.ok 0, w') := by
  have heq : runs cfg out t (assemble ⟨budget, defaultPolicies metered⟩ p extra) w =
      runs cfg out t (assemble ⟨budget, [.lru 2]⟩ p extra) w := by
    simp only [assemble, runs_bind]
    rw [makeRoom_default]
  obtain ⟨hchats, hquota, hdir, -⟩ := untouched_assemble_lru cfg out t p w budget extra
  rw [heq]
  exact ⟨rfl, hchats, hquota, hdir, fun w' h => lower_tiers_idle cfg out t p w' metered h⟩

end Gcos.Memory
