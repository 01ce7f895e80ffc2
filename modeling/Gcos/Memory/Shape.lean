import Gcos.Memory.Swap
import Gcos.Memory.Footprint
import Gcos.Lib.Revision

/-!
# The shape of a context

The policies of the pager remove pages by value and put summaries in at an index that was
computed before the removal, in any order and any number of times, and a call that raises
stops them midway.  Whatever they do, the context that is left is a revision of the one
that was there: pages that are not pinned are missing, summaries were put in, and the rest
stands in its old order.
-/

namespace Gcos

open Lib Prog

/-- A page without the time of its last access, which `assemble` refreshes. -/
def ContextPage.forget (page : ContextPage) : ContextPage := { page with lastAccess := 0 }

namespace Memory

variable {n : ℕ}

/-- A page that `SummarizeEvictionPolicy` has created. -/
def IsSummary (page : ContextPage) : Prop :=
  ∃ batch r now, page = (summaryPage batch r).page now

lemma IsSummary.of_forget_eq {page page' : ContextPage} (h : page.forget = page'.forget)
    (hsum : IsSummary page) : IsSummary page' := by
  obtain ⟨batch, r, now, rfl⟩ := hsum
  refine ⟨batch, r, page'.lastAccess, ?_⟩
  cases page'
  simp only [ContextPage.forget, PageDraft.page, ContextPage.mk.injEq] at h ⊢
  simp [h]

lemma pinned_of_forget_eq {page page' : ContextPage} (h : page.forget = page'.forget) :
    page.pinned = page'.pinned :=
  show page.forget.pinned = page'.forget.pinned by rw [h]

/-- The context was revised: pages that are not pinned were removed, and summaries put in. -/
abbrev Revised : List ContextPage → List ContextPage → Prop :=
  Revision ContextPage.forget (fun page => page.pinned = false) IsSummary

lemma Revised.trans {xs ys zs : List ContextPage} (h : Revised xs ys) (h' : Revised ys zs) :
    Revised xs zs := by
  refine Revision.trans (fun x y hxy hy => ?_) (fun x y hxy hx => hx.of_forget_eq hxy) h h'
  rw [pinned_of_forget_eq hxy]
  exact hy

/-- `page.touch()` leaves everything but the time. -/
lemma map_forget_touched (clock : ℕ → Time) (pages : List ContextPage) :
    (pages.mapIdx fun i page => { page with lastAccess := clock i }).map ContextPage.forget =
      pages.map ContextPage.forget := by
  refine List.ext_getElem? fun i => ?_
  have hsame : (fun page : ContextPage => ContextPage.forget page) =
      fun page => { page with lastAccess := 0 } := rfl
  simp [Function.comp_def, hsame]

/-- What the pager may do to the context of `p` and to the disk. -/
structure Reshaped (p : Pid) (w w' : World n) : Prop where
  context : Revised (w.pcbs p).contextPages (w'.pcbs p).contextPages
  disk : ∀ f ∈ w'.swapDir, f ∈ w.swapDir ∨ ∀ page ∈ f.records, page.pinned = false

namespace Reshaped

variable {p : Pid} {w w' w'' : World n}

lemma refl (p : Pid) (w : World n) : Reshaped p w w := ⟨.refl _, fun _ hf => .inl hf⟩

lemma trans (h : Reshaped p w w') (h' : Reshaped p w' w'') : Reshaped p w w'' := by
  refine ⟨h.context.trans h'.context, fun f hf => ?_⟩
  rcases h'.disk f hf with hf | hf
  · exact h.disk f hf
  · exact .inr hf

/-- The context and the disk are as they were. -/
lemma of_eq (hpcbs : w'.pcbs = w.pcbs) (hdir : w'.swapDir = w.swapDir) : Reshaped p w w' := by
  refine ⟨?_, fun f hf => .inl (hdir ▸ hf)⟩
  rw [hpcbs]
  exact .refl _

end Reshaped

lemma reshaped_write {p : Pid} (cfg : KernelConfig) (out : Outside) (t : Tid n) (w : World n)
    {q : Pid} {c : Write} (hc : Paging p (.write q c)) :
    Reshaped p w (World.exec cfg out t (.write q c) w).2 := by
  cases c with
  | removePage page =>
    obtain ⟨rfl, hpinned⟩ := hc
    refine ⟨?_, fun f hf => .inl hf⟩
    simp only [World.exec, Function.update_self, Write.apply]
    refine Revision.erase ?_ _
    exact hpinned
  | insertPage i draft =>
    obtain ⟨rfl, batch, r, rfl⟩ := hc
    refine ⟨?_, fun f hf => .inl hf⟩
    simp only [World.exec, Function.update_self, Write.apply]
    exact .insertIdx ⟨batch, r, _, rfl⟩ _ _
  | touchPages =>
    obtain rfl : q = p := hc
    refine ⟨.of_map_eq ?_, fun f hf => .inl hf⟩
    simp only [World.exec, Function.update_self, Write.apply]
    exact (map_forget_touched _ _).symm
  | _ => exact hc.elim

lemma reshaped_swapOut {p : Pid} (cfg : KernelConfig) (out : Outside) (t : Tid n) (w : World n)
    {q : Pid} {pages : List ContextPage} (hpages : ∀ page ∈ pages, page.pinned = false) :
    Reshaped p w (World.exec cfg out t (.swapOut q pages) w).2 := by
  have hfile : ∀ (stamp : String) (content : Option (List ContextPage)),
      (∀ page ∈ content.getD [], page.pinned = false) →
      ∀ f ∈ SwapFile.writeTo { pid := q, stamp := stamp, pages := content } w.swapDir,
        f ∈ w.swapDir ∨ ∀ page ∈ f.records, page.pinned = false := by
    intro stamp content hcontent f hf
    rcases List.mem_append.1 hf with hf | hf
    · exact .inl (List.mem_of_mem_filter hf)
    · rw [List.mem_singleton.1 hf]
      exact .inr hcontent
  simp only [World.exec]
  split
  · exact .of_eq rfl rfl
  · exact ⟨.refl _, hfile _ none (by simp)⟩
  · exact ⟨.refl _, hfile _ (some pages) hpages⟩

/-- One operation of the pager. -/
lemma reshaped_exec {p : Pid} (cfg : KernelConfig) (out : Outside) (t : Tid n) {β : Type} (o : KOp β)
    (w : World n) (ho : Paging p o) : Reshaped p w (World.exec cfg out t o w).2 := by
  cases o with
  | write q c => exact reshaped_write cfg out t w ho
  | swapOut q pages => exact reshaped_swapOut cfg out t w ho
  | acquire | chat purpose request =>
    simp only [World.exec]
    split <;> exact .of_eq rfl rfl
  | readPcb q _ | now | refund => exact .of_eq rfl rfl
  | _ => exact ho.elim

/-- One `assemble`, whether it returns or raises. -/
lemma reshaped_assemble {p : Pid} (cfg : KernelConfig) (out : Outside) (t : Tid n)
    (pager : ContextPager) (extra : Option String) (w : World n) :
    Reshaped p w (World.runs cfg out t (assemble pager p extra) w).2 :=
  (only_paging_assemble p pager extra).alone (Reshaped.refl p) (fun _ _ _ => Reshaped.trans)
    (fun o w ho => reshaped_exec cfg out t o w ho) w

/-- The world after a sequence of calls of `assemble`, each with its pager and the turn that
it appends. -/
def assembled (cfg : KernelConfig) (out : Outside) (t : Tid n) (p : Pid)
    (calls : List (ContextPager × Option String)) (w : World n) : World n :=
  calls.foldl (fun w call => (World.runs cfg out t (assemble call.1 p call.2) w).2) w

lemma reshaped_assembled {p : Pid} (cfg : KernelConfig) (out : Outside) (t : Tid n)
    (calls : List (ContextPager × Option String)) (w : World n) :
    Reshaped p w (assembled cfg out t p calls w) := by
  induction calls generalizing w with
  | nil => exact .refl p w
  | cons call calls ih => exact (reshaped_assemble cfg out t call.1 call.2 w).trans (ih _)

/-- **The shape of a context under any policy stack.**  Whatever the pages, the policies and
their parameters, the behaviour of the client and the sequence of calls of `assemble`: the
pages that are there afterwards are original pages, in their old order, and summaries; the
pinned pages are the original pinned pages; and no pinned page was written to the swap
directory. -/
theorem assembled_keeps_shape (cfg : KernelConfig) (out : Outside) (t : Tid n) (p : Pid)
    (calls : List (ContextPager × Option String)) (w : World n) :
    let w' := assembled cfg out t p calls w
    (∃ marked : List (ContextPage × Bool), (w'.pcbs p).contextPages = marked.map Prod.fst ∧
        ((marked.filter Prod.snd).map fun m => m.1.forget).Sublist
          ((w.pcbs p).contextPages.map ContextPage.forget) ∧
        ∀ m ∈ marked, m.2 = false → IsSummary m.1) ∧
      ((w'.pcbs p).contextPages.filter (·.pinned)).map ContextPage.forget =
        ((w.pcbs p).contextPages.filter (·.pinned)).map ContextPage.forget ∧
      ∀ f ∈ w'.swapDir, f ∈ w.swapDir ∨ ∀ page ∈ f.records, page.pinned = false := by
  intro w'
  obtain ⟨hcontext, hdisk⟩ := reshaped_assembled (p := p) cfg out t calls w
  refine ⟨hcontext.exists_marked, ?_, hdisk⟩
  refine hcontext.filter_map_eq (fun x y => pinned_of_forget_eq) (fun x hx => hx) ?_
  rintro x ⟨batch, r, now, rfl⟩
  rfl

end Memory

end Gcos
