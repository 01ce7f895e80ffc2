import Gcos.Memory.Swap
import Gcos.Lib.Lists
import Mathlib.Data.List.Rotate

/-!
# What a swap-out takes

`SwapEvictionPolicy.evict` writes the pages that were not accessed for the longest time and
takes them out of the context.  It compares the number of pages with the floor before it
takes a batch, not after, so that the batch can go below the floor; and `swap_in` puts the
pages at the end of the context, wherever they were taken from.
-/

namespace Gcos.Memory

open Lib

variable {n : ℕ} {cfg : KernelConfig} {out : Outside} {t : Tid n} {p : Pid}

/-- What an eviction that returned has done. -/
lemma runs_evictSwap_ok {batchSize minKeep freed : ℤ} {w w' : World n}
    (hrun : World.runs cfg out t (evictSwap batchSize minKeep p) w = (.ok freed, w')) :
    (swapBatch batchSize minKeep (w.pcbs p).contextPages = none ∧ w' = w) ∨
      ∃ batch, swapBatch batchSize minKeep (w.pcbs p).contextPages = some batch ∧
        w' = swappedOut out p batch w := by
  cases hwrite : out.swapWrite w.swaps with
  | none =>
    rw [runs_evictSwap cfg out t p batchSize minKeep hwrite] at hrun
    cases hbatch : swapBatch batchSize minKeep (w.pcbs p).contextPages with
    | none =>
      rw [hbatch] at hrun
      exact .inl ⟨rfl, (Prod.mk.inj hrun).2.symm⟩
    | some batch =>
      rw [hbatch] at hrun
      exact .inr ⟨batch, rfl, (Prod.mk.inj hrun).2.symm⟩
  | some failure =>
    obtain ⟨e, opened⟩ := failure
    by_cases hfloor : ((nonPinned (w.pcbs p).contextPages).length : ℤ) ≤ minKeep
    · simp [evictSwap, World.exec, hfloor] at hrun
      exact .inl ⟨by simp [swapBatch, hfloor], hrun.2.symm⟩
    · cases opened <;> simp [evictSwap, World.exec, hfloor, hwrite] at hrun

/-! ### The floor -/

/-- From `w` to `w'` the agent keeps the floor: at least `minKeep` pages that are not pinned
are left, or all that there were; the pages that are gone were not pinned, and none of them
was accessed after one that is left; and they are what was written, if anything was. -/
structure SwapsOldest (out : Outside) (p : Pid) (minKeep : ℤ) (w w' : World n) : Prop where
  floor : min minKeep (nonPinned (w.pcbs p).contextPages).length ≤
    (nonPinned (w'.pcbs p).contextPages).length
  oldest : ∃ batch : List ContextPage,
    (↑(w'.pcbs p).contextPages : Multiset ContextPage) + ↑batch = ↑(w.pcbs p).contextPages ∧
    (w'.pcbs p).contextPages.Sublist (w.pcbs p).contextPages ∧
    (∀ page ∈ batch, page.pinned = false ∧
      ∀ kept ∈ nonPinned (w'.pcbs p).contextPages, page.lastAccess ≤ kept.lastAccess) ∧
    (w'.swapDir = w.swapDir ∧ batch = [] ∨
      w'.swapDir = SwapFile.writeTo ⟨p, swapStamp out w, some batch⟩ w.swapDir)

/-- A slice is a first part. -/
lemma exists_sliceTo_append {α : Type} (xs : List α) (k : ℤ) :
    ∃ rest, sliceTo xs k ++ rest = xs := by
  unfold sliceTo
  split
  · exact ⟨_, List.take_append_drop _ xs⟩
  · exact ⟨_, List.take_append_drop _ xs⟩

/-- There are more pages than the floor, and the batch is a slice of them. -/
lemma swapBatch_eq_some {batchSize minKeep : ℤ} {pages batch : List ContextPage}
    (h : swapBatch batchSize minKeep pages = some batch) :
    minKeep < (nonPinned pages).length ∧
      batch = sliceTo (oldestFirst (nonPinned pages)) batchSize := by
  unfold swapBatch at h
  split at h
  · cases h
  · next hfloor => exact ⟨by omega, (Option.some.inj h).symm⟩

lemma le_of_swapBatch_eq_none {batchSize minKeep : ℤ} {pages : List ContextPage}
    (h : swapBatch batchSize minKeep pages = none) : ((nonPinned pages).length : ℤ) ≤ minKeep := by
  unfold swapBatch at h
  split at h
  · assumption
  · cases h

lemma perm_oldestFirst (pages : List ContextPage) : (oldestFirst pages).Perm pages :=
  List.perm_insertionSort _ _

lemma pinned_of_mem_swapBatch {batchSize minKeep : ℤ} {pages batch : List ContextPage}
    (h : swapBatch batchSize minKeep pages = some batch) :
    ∀ page ∈ batch, page.pinned = false := by
  intro page hpage
  rw [(swapBatch_eq_some h).2] at hpage
  have hmem := (perm_oldestFirst _).mem_iff.1 ((sliceTo_sublist _ _).subset hpage)
  simpa using (List.mem_filter.1 hmem).2

/-- The pages that are not pinned, in the order of their last access: those of the batch, and
those that are left besides it. -/
lemma exists_batch_append {batchSize minKeep : ℤ} {pages batch : List ContextPage}
    (h : swapBatch batchSize minKeep pages = some batch) :
    ∃ rest, batch ++ rest = oldestFirst (nonPinned pages) ∧
      (nonPinned (pages.diff batch)).Perm rest := by
  obtain ⟨rest, hrest⟩ := exists_sliceTo_append (oldestFirst (nonPinned pages)) batchSize
  rw [← (swapBatch_eq_some h).2] at hrest
  have hpages : (pages.diff batch ++ batch).Perm pages := by
    rw [← Multiset.coe_eq_coe, ← Multiset.coe_add]
    exact diff_add_batch h
  have hall : nonPinned batch = batch :=
    List.filter_eq_self.2 fun page hpage => by simp [pinned_of_mem_swapBatch h page hpage]
  have hkinds : (nonPinned (pages.diff batch) ++ nonPinned batch).Perm (nonPinned pages) := by
    have hfilter := hpages.filter fun page => !page.pinned
    rwa [List.filter_append] at hfilter
  rw [hall] at hkinds
  have hsorted : (nonPinned pages).Perm (batch ++ rest) := hrest ▸ (perm_oldestFirst _).symm
  refine ⟨rest, hrest, (List.perm_append_right_iff batch).1 ?_⟩
  exact (hkinds.trans hsorted).trans List.perm_append_comm

/-- What is taken is never more recent than what is left. -/
lemma lastAccess_le_of_mem_batch {batchSize minKeep : ℤ} {pages batch : List ContextPage}
    (h : swapBatch batchSize minKeep pages = some batch) {page kept : ContextPage}
    (hpage : page ∈ batch) (hkept : kept ∈ nonPinned (pages.diff batch)) :
    page.lastAccess ≤ kept.lastAccess := by
  obtain ⟨rest, hrest, hperm⟩ := exists_batch_append h
  have hsorted : (batch ++ rest).Pairwise fun q r => q.lastAccess ≤ r.lastAccess := by
    rw [hrest]
    exact List.pairwise_insertionSort _ _
  exact (List.pairwise_append.1 hsorted).2.2 page hpage kept (hperm.mem_iff.1 hkept)

/-- How many pages are left. -/
lemma length_nonPinned_diff_batch {batchSize minKeep : ℤ} (hbatch : 1 ≤ batchSize)
    {pages batch : List ContextPage} (h : swapBatch batchSize minKeep pages = some batch) :
    ((nonPinned (pages.diff batch)).length : ℤ) =
      (nonPinned pages).length - min batchSize (nonPinned pages).length := by
  obtain ⟨rest, hrest, hperm⟩ := exists_batch_append h
  have hall := congrArg List.length hrest
  have hslice := congrArg List.length (swapBatch_eq_some h).2
  have hnonneg : 0 ≤ batchSize := by omega
  rw [List.length_append, (perm_oldestFirst _).length_eq] at hall
  rw [sliceTo, if_pos hnonneg, List.length_take, (perm_oldestFirst _).length_eq] at hslice
  rw [hperm.length_eq]
  omega

/-- An agent with three pages that are not pinned, and no file on disk. -/
def threePages : World 0 where
  pcbs := fun _ =>
    { pid := 1, prompt := "", createdAt := 0
      contextPages := [{ role := .user, content := "a", lastAccess := 0 },
        { role := .assistant, content := "b", lastAccess := 1 },
        { role := .user, content := "c", lastAccess := 2 }] }
  quota := ⟨0, 0⟩

/-- **Below the floor.**  Two of three pages are swapped out, though two should stay. -/
theorem swap_goes_below_floor :
    ∃ (cfg : KernelConfig) (out : Outside) (w' : World 0),
      World.runs cfg out (.client 0) (evictSwap 2 2 1) threePages = (.ok 2, w') ∧
        ¬SwapsOldest out 1 2 threePages w' := by
  refine ⟨{ pager := {}, host := .inert }, .calm ⟨"", 0, 0, 0⟩, _,
    runs_evictSwap _ _ _ 1 2 2 rfl, fun hswaps => ?_⟩
  have hfloor := hswaps.floor
  revert hfloor
  decide +kernel

/-- **When a swap-out keeps the floor.**  An eviction that returned has kept its floor, taken
the pages of the oldest accesses, and written what it took, exactly when the floor is zero,
or not more pages than the floor were there, or a whole batch more. -/
theorem swapsOldest_iff {batchSize minKeep freed : ℤ} (hbatch : 1 ≤ batchSize)
    (hkeep : 0 ≤ minKeep) {w w' : World n}
    (hrun : World.runs cfg out t (evictSwap batchSize minKeep p) w = (.ok freed, w')) :
    SwapsOldest out p minKeep w w' ↔
      minKeep = 0 ∨ ((nonPinned (w.pcbs p).contextPages).length : ℤ) ≤ minKeep ∨
        minKeep + batchSize ≤ (nonPinned (w.pcbs p).contextPages).length := by
  rcases runs_evictSwap_ok hrun with ⟨hnone, rfl⟩ | ⟨batch, hsome, rfl⟩
  · have hfew := le_of_swapBatch_eq_none hnone
    refine iff_of_true ⟨by omega, [], ?_⟩ (.inr (.inl hfew))
    exact ⟨add_zero _, List.Sublist.refl _, nofun, .inl ⟨rfl, rfl⟩⟩
  · have hpages : ((swappedOut out p batch w).pcbs p).contextPages =
        (w.pcbs p).contextPages.diff batch := by simp [swappedOut]
    have hmany := (swapBatch_eq_some hsome).1
    have hleft := length_nonPinned_diff_batch hbatch hsome
    constructor
    · rintro ⟨hfloor, -⟩
      rw [hpages, hleft] at hfloor
      omega
    · intro hcond
      refine ⟨by rw [hpages, hleft]; omega, batch, ?_⟩
      rw [hpages]
      refine ⟨diff_add_batch hsome, List.diff_sublist _ _, fun page hpage => ⟨?_, ?_⟩, .inr rfl⟩
      · exact pinned_of_mem_swapBatch hsome page hpage
      · exact fun kept hkept => lastAccess_le_of_mem_batch hsome hpage hkept

/-- One of three pages is swapped out, and two stay. -/
theorem swapsOldest_iff_three_pages :
    ∃ w', World.runs { pager := {}, host := .inert } (.calm ⟨"", 0, 0, 0⟩) (.client 0)
        (evictSwap 1 2 1) threePages = (.ok 1, w') ∧
      SwapsOldest (.calm ⟨"", 0, 0, 0⟩) 1 2 threePages w' := by
  have hrun := runs_evictSwap { pager := {}, host := .inert } (.calm ⟨"", 0, 0, 0⟩) (.client 0) 1 1 2
    (w := threePages) rfl
  exact ⟨_, hrun, (swapsOldest_iff (by decide) (by decide) hrun).2 (by decide +kernel)⟩

/-! ### The order of the pages -/

/-- The pages stay in their order when a batch is taken out and put at the end: no batch is
taken, or it is empty, or the pages that are not pinned come last, and can be rotated by
the length of the batch. -/
def StaysInOrder (batchSize minKeep : ℤ) (pages : List ContextPage) : Prop :=
  ((nonPinned pages).length : ℤ) ≤ minKeep ∨ sliceTo (nonPinned pages) batchSize = [] ∨
    pages.filter (fun page => page.pinned) ++ nonPinned pages = pages ∧
      (nonPinned pages).rotate (sliceTo (nonPinned pages) batchSize).length = nonPinned pages

/-- Pages in the order of their last access are not moved by sorting. -/
lemma oldestFirst_eq_self {pages : List ContextPage}
    (h : pages.Pairwise fun q r => q.lastAccess ≤ r.lastAccess) :
    oldestFirst (nonPinned pages) = nonPinned pages :=
  (h.sublist List.filter_sublist).insertionSort_eq

/-- What `swap_in` does right after a batch was written into an empty directory. -/
lemma swapIn_swappedOut (out : Outside) {w : World n} (hempty : ∀ f ∈ w.swapDir, f.pid ≠ p)
    (batch : List ContextPage) :
    (swapIn p (swappedOut out p batch w)).1 = .ok batch.length ∧
      ((swapIn p (swappedOut out p batch w)).2.pcbs p).contextPages =
        (w.pcbs p).contextPages.diff batch ++ batch := by
  have hnone : filesOf p w.swapDir = [] := by
    simpa [filesOf, List.filter_eq_nil_iff] using hempty
  have hfiles : swapFiles (swappedOut out p batch w).swapDir p =
      [⟨p, swapStamp out w, some batch⟩] := by
    have hone := filesOf_writeTo p (swapStamp out w) (some batch) w.swapDir
    rw [hnone, List.filter_nil, List.nil_append] at hone
    rw [swapFiles, swappedOut, ← filesOf, hone]
    rfl
  have hpages : ((swappedOut out p batch w).pcbs p).contextPages =
      (w.pcbs p).contextPages.diff batch := by simp [swappedOut]
  simp [swapIn, hfiles, hpages, swapInFrom]

/-- **When a round trip restores the conversation.**  Pages in the order of their last access
come back in their order, when a batch is swapped out into an empty directory and swapped
in, exactly when they stay in order. -/
theorem swapIn_restores_order_iff {batchSize minKeep freed : ℤ} {w w' : World n}
    (hempty : ∀ f ∈ w.swapDir, f.pid ≠ p)
    (hsorted : (w.pcbs p).contextPages.Pairwise fun q r => q.lastAccess ≤ r.lastAccess)
    (hrun : World.runs cfg out t (evictSwap batchSize minKeep p) w = (.ok freed, w')) :
    ((∃ loaded, (swapIn p w').1 = .ok loaded) ∧
        ((swapIn p w').2.pcbs p).contextPages = (w.pcbs p).contextPages) ↔
      StaysInOrder batchSize minKeep (w.pcbs p).contextPages := by
  rcases runs_evictSwap_ok hrun with ⟨hnone, rfl⟩ | ⟨batch, hsome, rfl⟩
  · have hfiles : swapFiles w'.swapDir p = [] := by
      have hfilter : w'.swapDir.filter (fun f => f.pid = p) = [] := by
        simpa [List.filter_eq_nil_iff] using hempty
      rw [swapFiles, hfilter]
      rfl
    exact iff_of_true ⟨⟨0, by simp [swapIn, hfiles, swapInFrom]⟩,
      by simp [swapIn, hfiles, swapInFrom]⟩ (.inl (le_of_swapBatch_eq_none hnone))
  · obtain ⟨hback, hpages⟩ := swapIn_swappedOut out hempty batch
    obtain ⟨hmany, hslice⟩ := swapBatch_eq_some hsome
    rw [oldestFirst_eq_self hsorted] at hslice
    have hfirst : batch = (nonPinned (w.pcbs p).contextPages).take batch.length :=
      List.prefix_iff_eq_take.1 (hslice ▸ exists_sliceTo_append _ _)
    have hlen := congrArg List.length hfirst
    rw [List.length_take] at hlen
    rw [hback, hpages, StaysInOrder, ← hslice, List.rotate_eq_drop_append_take (by omega), ← hfirst]
    by_cases hnil : batch = []
    · simp [hnil]
    · have htaken : (nonPinned (w.pcbs p).contextPages).take batch.length ≠ [] := by rwa [← hfirst]
      have hmove := diff_filter_append_eq_self_iff htaken
      rw [← nonPinned, ← hfirst] at hmove
      simp only [Bool.not_not] at hmove
      simp [hmove, hnil, not_le.2 hmany]

lemma threePages_sorted :
    (threePages.pcbs 1).contextPages.Pairwise fun q r => q.lastAccess ≤ r.lastAccess := by
  decide +kernel

lemma threePages_empty : ∀ f ∈ threePages.swapDir, f.pid ≠ 1 := List.forall_mem_nil _

/-- **Older turns after newer ones.**  The oldest of three pages is swapped out and back in;
it comes back as the last one. -/
theorem swap_changes_order :
    (∀ f ∈ threePages.swapDir, f.pid ≠ 1) ∧
      ((threePages.pcbs 1).contextPages.Pairwise fun q r => q.lastAccess ≤ r.lastAccess) ∧
      ∃ (cfg : KernelConfig) (out : Outside) (w' : World 0),
        World.runs cfg out (.client 0) (evictSwap 1 0 1) threePages = (.ok 1, w') ∧
          (threePages.pcbs 1).contextPages.map ContextPage.content = ["a", "b", "c"] ∧
          ((swapIn 1 w').2.pcbs 1).contextPages.map ContextPage.content = ["b", "c", "a"] := by
  refine ⟨threePages_empty, threePages_sorted, { pager := {}, host := .inert },
    .calm ⟨"", 0, 0, 0⟩, _, runs_evictSwap _ _ _ 1 1 0 rfl, ?_⟩
  decide +kernel

/-- Three pages that are all swapped out come back in their order. -/
theorem swapIn_restores_order_iff_all :
    ∃ w', World.runs { pager := {}, host := .inert } (.calm ⟨"", 0, 0, 0⟩) (.client 0)
        (evictSwap 3 0 1) threePages = (.ok 3, w') ∧
      ((swapIn 1 w').2.pcbs 1).contextPages = (threePages.pcbs 1).contextPages := by
  have hrun := runs_evictSwap { pager := {}, host := .inert } (.calm ⟨"", 0, 0, 0⟩) (.client 0) 1 3 0
    (w := threePages) rfl
  have horder : StaysInOrder 3 0 (threePages.pcbs 1).contextPages := by
    unfold StaysInOrder
    decide +kernel
  exact ⟨_, hrun,
    ((swapIn_restores_order_iff threePages_empty threePages_sorted hrun).2 horder).2⟩

end Gcos.Memory
