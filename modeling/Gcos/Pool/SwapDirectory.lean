import Gcos.Pool.Runs
import Gcos.Memory.Swap

/-!
# Several kernels and one swap directory

`DEFAULT_SWAP_DIR` is a path relative to the working directory, and the files in it are told
apart by the pid of the agent and the time of the clock.  Every kernel counts its pids from
one, and nothing ever removes a file.  So all kernels of a process, and all boots in one
working directory, share the files of an agent with the agents of the same pid in the
others.

A *site* is a working directory with the kernels that were ever constructed in it; the
earlier ones need not move any more.  With the process backend the files are written by the
child processes, from their copies of the blocks.
-/

namespace Gcos

open Lib Memory World

/-- The file that an operation writes. -/
def KOp.writes {n : ℕ} (out : Outside) (w : World n) : {β : Type} → KOp β → Option SwapFile
  | _, .swapOut p pages =>
    match out.swapWrite w.swaps with
    | some (_, false) => none
    | some (_, true) => some { pid := p, stamp := swapStamp out w, pages := none }
    | none => some { pid := p, stamp := swapStamp out w, pages := some pages }
  | _, _ => none

namespace Pool

variable {n : ℕ}

/-- The calls of a kernel, and swapping out by hand. -/
inductive SwapCall
  | kernel (c : KernelCall)
  | evict (p : Pid) (batchSize minKeep : ℤ)
deriving DecidableEq, Repr

/-- The threads of a kernel whose callers may also swap out. -/
def swapSystem (n : ℕ) (cfg : KernelConfig) (out : Outside) :
    System KOp (Tid n) (World n) SwapCall where
  exec := World.exec cfg out
  body := (kernelSystem n cfg out).body
  serves := fun t _ => !t.isWorker
  entry
    | .kernel c => (kernelSystem n cfg out).entry c
    | .evict p batchSize minKeep => do
      let _ ← evictSwap batchSize minKeep p
      return false

/-- A kernel of a site. -/
structure Resident (n : ℕ) where
  cfg : KernelConfig
  out : Outside
  pool : Lib.Pool KOp (Tid n) (World n)

/-- A working directory and its kernels, in the order of their construction.  The history
says which kernel wrote the file of a name, and which kernel swapped out which page of
which of its agents. -/
structure Site (n : ℕ) where
  kernels : List (Resident n) := []
  disk : List SwapFile := []
  writer : Pid × String → ℕ := fun _ => 0
  log : List (ℕ × Pid × ContextPage) := []

/-- What happens at a site. -/
inductive SiteEvent (n : ℕ)
  /-- A kernel is constructed and started. -/
  | boot (cfg : KernelConfig) (out : Outside) (quota : Quota)
  /-- A thread of a kernel makes a step, or a call is made. -/
  | act (i : ℕ) (a : Act (Tid n) SwapCall)
  /-- A child process of a kernel swaps out pages. -/
  | child (i : ℕ) (file : SwapFile)
  /-- `Kernel.swap_in`. -/
  | swapIn (i : ℕ) (p : Pid)

namespace Resident

/-- The kernel with the files as they are now. -/
def mount (k : Resident n) (disk : List SwapFile) : Lib.Pool KOp (Tid n) (World n) :=
  { k.pool with shared := { k.pool.shared with swapDir := disk } }

/-- The pool after a step. -/
def next (k : Resident n) (disk : List SwapFile) (a : Act (Tid n) SwapCall) :
    Lib.Pool KOp (Tid n) (World n) :=
  (swapSystem n k.cfg k.out).next (k.mount disk) a

/-- The file that is written in a step. -/
def writes (k : Resident n) (disk : List SwapFile) : Act (Tid n) SwapCall → Option SwapFile
  | .step t =>
    match k.pool.code t with
    | .op o _ => o.writes k.out (k.mount disk).shared
    | .ret _ => none
  | .call _ _ => none

end Resident

namespace Site

/-- Write down that kernel `i` has written a file. -/
def record (s : Site n) (i : ℕ) : Option SwapFile → Site n
  | none => s
  | some file =>
    { s with
      writer := Function.update s.writer (file.pid, file.stamp) i
      log := s.log ++ file.records.map fun page => (i, file.pid, page) }

/-- The site after an event. -/
def next (s : Site n) : SiteEvent n → Site n
  | .boot cfg out quota => { s with kernels := s.kernels ++ [⟨cfg, out, boot n quota⟩] }
  | .act i a =>
    match s.kernels[i]? with
    | none => s
    | some k =>
      { s.record i (k.writes s.disk a) with
        kernels := s.kernels.set i { k with pool := k.next s.disk a }
        disk := (k.next s.disk a).shared.swapDir }
  | .child i file => { s.record i (some file) with disk := file.writeTo s.disk }
  | .swapIn i p =>
    match s.kernels[i]? with
    | none => s
    | some k =>
      { s with
        kernels := s.kernels.set i
          { k with pool :=
            { k.pool with shared := (kernelSwapIn p (k.mount s.disk).shared).2 } } }

/-- Every file with pages that `swap_in` is about to find was written by the same kernel. -/
def OwnFiles (s : Site n) : SiteEvent n → Prop
  | .swapIn i p =>
    ∀ k, s.kernels[i]? = some k → p ∈ k.pool.shared.table →
      ∀ f ∈ s.disk, f.pid = p → f.records ≠ [] → s.writer (f.pid, f.stamp) = i
  | _ => True

/-- `swap_in` only appends pages that were swapped out from the same block of the same
kernel, and touches no other block. -/
def RestoresOwn (s : Site n) (i : ℕ) (p : Pid) : Prop :=
  ∀ k, s.kernels[i]? = some k →
    let w := (k.mount s.disk).shared
    (∃ back, ((kernelSwapIn p w).2.pcbs p).contextPages = (w.pcbs p).contextPages ++ back ∧
      ∀ page ∈ back, (i, p, page) ∈ s.log) ∧
    ∀ q, q ≠ p → (kernelSwapIn p w).2.pcbs q = w.pcbs q

end Site

/-! ### What is on disk -/

variable {cfg : KernelConfig} {out : Outside} {t : Tid n} {w : World n}

/-- Only a swap-out changes the directory. -/
lemma swapDir_exec {β : Type} (o : KOp β) :
    (exec cfg out t o w).2.swapDir =
      (o.writes out w).elim w.swapDir fun file => file.writeTo w.swapDir := by
  cases o with
  | swapOut p pages =>
    simp only [exec, KOp.writes, swapStamp]
    rcases out.swapWrite w.swaps with _ | ⟨e, _ | _⟩ <;> rfl
  | tableAdd q | waitNonempty | pickNext | acquire | write q c | chat purpose request =>
    simp only [exec]
    split <;> rfl
  | put q =>
    simp only [exec, put]
    split <;> rfl
  | _ => rfl

/-- A step of a kernel writes its file, and nothing else. -/
lemma swapDir_next (k : Resident n) (disk : List SwapFile) (a : Act (Tid n) SwapCall) :
    (k.next disk a).shared.swapDir = (k.writes disk a).elim disk fun file => file.writeTo disk := by
  cases a with
  | step t =>
    simp only [Resident.next, Resident.writes, System.next, Resident.mount]
    split
    · next h => rw [h]; rfl
    · next h => rw [h]; rfl
    · next h => rw [h]; exact swapDir_exec _
  | call t c =>
    simp only [Resident.next, Resident.writes, System.next, Resident.mount]
    split <;> rfl

/-- Every page on disk was swapped out by the kernel that wrote its file. -/
def Traced (s : Site n) : Prop :=
  ∀ f ∈ s.disk, ∀ page ∈ f.records, (s.writer (f.pid, f.stamp), f.pid, page) ∈ s.log

lemma Traced.record {s : Site n} (h : Traced s) (i : ℕ) (file : Option SwapFile)
    {kernels : List (Resident n)} :
    Traced { s.record i file with
      kernels := kernels
      disk := file.elim s.disk fun file => file.writeTo s.disk } := by
  cases file with
  | none => exact h
  | some file =>
    intro f hf page hpage
    rcases List.mem_append.1 hf with hf | hf
    · -- another file, under another name
      obtain ⟨hf, hname⟩ := List.mem_filter.1 hf
      have hne : (f.pid, f.stamp) ≠ (file.pid, file.stamp) := fun heq =>
        of_decide_eq_true hname (Prod.mk.inj heq)
      simp only [Site.record, Function.update_of_ne hne]
      exact List.mem_append_left _ (h f hf page hpage)
    · obtain rfl := List.mem_singleton.1 hf
      simp only [Site.record, Function.update_self]
      exact List.mem_append_right _ (List.mem_map_of_mem hpage)

lemma Traced.next {s : Site n} (h : Traced s) (e : SiteEvent n) : Traced (s.next e) := by
  cases e with
  | boot cfg out quota => exact h
  | act i a =>
    simp only [Site.next]
    split
    · exact h
    · next k hk =>
      rw [swapDir_next]
      exact h.record i (k.writes s.disk a)
  | child i file => exact h.record i (some file)
  | swapIn i p =>
    simp only [Site.next]
    split <;> exact h

/-- What `swap_in` appends are records of the files of the pid. -/
lemma swapInFrom_appends (files : List SwapFile) (pages : List ContextPage) (loaded : ℕ) :
    ∃ back, (swapInFrom files pages loaded).2 = pages ++ back ∧
      ∀ page ∈ back, ∃ f ∈ files, page ∈ f.records := by
  induction files generalizing pages loaded with
  | nil => exact ⟨[], by simp [swapInFrom], by simp⟩
  | cons f rest ih =>
    simp only [swapInFrom]
    split
    · exact ⟨[], by simp, by simp⟩
    · next batch hbatch =>
      obtain ⟨back, heq, hback⟩ := ih (pages ++ batch) (loaded + batch.length)
      refine ⟨batch ++ back, by rw [heq, List.append_assoc], fun page hpage => ?_⟩
      rcases List.mem_append.1 hpage with hpage | hpage
      · exact ⟨f, List.mem_cons_self, by simpa [SwapFile.records, hbatch] using hpage⟩
      · obtain ⟨g, hg, hmem⟩ := hback page hpage
        exact ⟨g, List.mem_cons_of_mem _ hg, hmem⟩

lemma Traced.restoresOwn {s : Site n} (h : Traced s) {i : ℕ} {p : Pid}
    (hown : s.OwnFiles (.swapIn i p)) : s.RestoresOwn i p := by
  intro k hk w
  unfold kernelSwapIn
  split
  · next hin =>
    refine ⟨?_, fun q hq => Function.update_of_ne hq _ _⟩
    obtain ⟨back, heq, hback⟩ := swapInFrom_appends (swapFiles s.disk p) (w.pcbs p).contextPages 0
    refine ⟨back, ?_, fun page hpage => ?_⟩
    · simp only [swapIn, Function.update_self]
      exact heq
    · obtain ⟨f, hf, hmem⟩ := hback page hpage
      obtain ⟨hdisk, hpid⟩ : f ∈ s.disk ∧ f.pid = p := by
        simpa [swapFiles, List.mem_insertionSort] using hf
      have hlog := h f hdisk page hmem
      rwa [hown k hk hin f hdisk hpid (List.ne_nil_of_mem hmem), hpid] at hlog
  · exact ⟨⟨[], by simp, by simp⟩, fun _ _ => rfl⟩

/-- An agent of pid 1 is spawned in kernel `i`, and the worker runs it to its end. -/
def firstAgent (i : ℕ) (prompt : String) : List (SiteEvent 1) :=
  .act i (.call (.client 0) (.kernel (.spawn { prompt := prompt }))) ::
    List.replicate 6 (.act i (.step (.client 0))) ++ List.replicate 30 (.act i (.step (.worker 0)))

/-- The pages of the agent of pid 1 in kernel `i` are swapped out. -/
def firstSwap (i : ℕ) : List (SiteEvent 1) :=
  .act i (.call (.client 0) (.evict 1 2 0)) :: List.replicate 6 (.act i (.step (.client 0)))

/-- **Pages of another kernel.**  Two kernels run one agent each, both with pid 1.  The pages of
the agent of the first are swapped out; `swap_in(1)` of the second restores them to its own
agent. -/
theorem swapIn_restores_stranger :
    let cfg : KernelConfig := { pager := {}, host := .inert }
    let out : Outside := .calm ⟨"hi", 1, 1, 2⟩
    let es : List (SiteEvent 1) := [.boot cfg out ⟨5, 5⟩, .boot cfg out ⟨5, 5⟩] ++
      firstAgent 0 "secret" ++ firstAgent 1 "other" ++ firstSwap 0
    ¬(es.foldl Site.next {}).RestoresOwn 1 1 := by
  intro cfg out es h
  have hpages : ((es.foldl Site.next {}).kernels[1]?).map (fun k =>
      let w := (k.mount (es.foldl Site.next {}).disk).shared
      ((w.pcbs 1).contextPages.length, ((kernelSwapIn 1 w).2.pcbs 1).contextPages.length)) =
        some (2, 4) := by decide +kernel
  have hlog : ∀ e ∈ (es.foldl Site.next {}).log, e.1 = 0 := by decide +kernel
  obtain ⟨k, hk, hlength⟩ := Option.map_eq_some_iff.1 hpages
  obtain ⟨⟨back, heq, hback⟩, -⟩ := h k hk
  obtain ⟨hbefore, hafter⟩ := Prod.mk.inj hlength
  -- nothing was swapped out by the second kernel, but two pages came back
  have hnil : back = [] := List.eq_nil_iff_forall_not_mem.2 fun page hpage =>
    absurd (hlog _ (hback page hpage)) (by simp)
  rw [heq, hnil, List.append_nil, hbefore] at hafter
  cases hafter

/-- **Swap isolation, where the directory is not shared.**  In every history of kernels over one
working directory in which `swap_in` is only called where the files of the pid are those of the
same kernel, it only restores what was swapped out from the same block. -/
theorem restoresOwn_of_ownFiles {n : ℕ} (es : List (SiteEvent n))
    (hes : Along Site.next Site.OwnFiles {} es) (pre : List (SiteEvent n)) (i : ℕ) (p : Pid)
    (hpre : pre ++ [.swapIn i p] <+: es) : (pre.foldl Site.next {}).RestoresOwn i p := by
  have htraced : Traced (pre.foldl Site.next ({} : Site n)) :=
    List.foldlRecOn pre Site.next (motive := Traced) (fun f hf => nomatch hf)
      fun s hs e _ => hs.next e
  exact htraced.restoresOwn (hes.restrict hpre)

/-- A kernel that is alone in its working directory gets back what it swapped out. -/
theorem restoresOwn_of_ownFiles_one_kernel :
    let cfg : KernelConfig := { pager := {}, host := .inert }
    let out : Outside := .calm ⟨"hi", 1, 1, 2⟩
    let es : List (SiteEvent 1) := [.boot cfg out ⟨5, 5⟩] ++ firstAgent 0 "secret" ++ firstSwap 0
    (es.foldl Site.next {}).RestoresOwn 0 1 := by
  intro cfg out es
  refine restoresOwn_of_ownFiles (es ++ [.swapIn 0 1]) ?_ es 0 1 List.prefix_rfl
  refine along_append.2 ⟨along_of_forall (fun e he s => ?_) _, fun k _ _ f hf _ _ => ?_, trivial⟩
  · cases e with
    | swapIn i p => simp [es, firstAgent, firstSwap] at he
    | _ => trivial
  · have hwriter : ∀ f ∈ (es.foldl Site.next {}).disk,
        (es.foldl Site.next {}).writer (f.pid, f.stamp) = 0 := by decide +kernel
    exact hwriter f hf

end Pool

end Gcos
