import Gcos.Memory.Pager
import Gcos.Lib.Ledger
import Mathlib.Data.Multiset.OrderedMonoid
import Mathlib.Data.String.Basic

/-!
# Swapping pages out and in

`gcos/memory/swap.py`: the half of the round trip that reads.  `evict` writes one file for
each batch, under the pid of the agent and the time of the clock with six decimals;
`swap_in` reads all files of the pid, in the order of their names, and leaves them where
they are.

The pages of an agent are in its context or in a file that was not read back yet, and there
should be as many of them as the agent was ever given.  That fails in two ways.  A batch
that is swapped out in the same microsecond as an earlier one overwrites its file, so pages
get lost; and a file that was read back is read again by the next `swap_in`, so pages get
doubled.  The two theorems of this file say that these are the only ways.
-/

namespace Gcos

open Lib

/-- The records in a file. -/
def SwapFile.records (file : SwapFile) : List ContextPage := file.pages.getD []

namespace Memory

/-- `sorted(target_dir.iterdir())` in the directory of an agent. -/
def swapFiles (dir : List SwapFile) (p : Pid) : List SwapFile :=
  (dir.filter fun f => f.pid = p).insertionSort fun f g => f.stamp ++ ".json" ≤ g.stamp ++ ".json"

/-- The loop of `swap_in`.  A file whose write broke off is no JSON text; the pages of the
files before it are already in the context. -/
def swapInFrom : List SwapFile → List ContextPage → ℕ → Except Exn ℕ × List ContextPage
  | [], pages, loaded => (.ok loaded, pages)
  | file :: rest, pages, loaded =>
    match file.pages with
    | none =>
      (.error (.other "JSONDecodeError" "Expecting value: line 1 column 1 (char 0)"), pages)
    | some batch => swapInFrom rest (pages ++ batch) (loaded + batch.length)

variable {n : ℕ}

/-- `swap_in`. -/
def swapIn (p : Pid) (w : World n) : Except Exn ℕ × World n :=
  let answer := swapInFrom (swapFiles w.swapDir p) (w.pcbs p).contextPages 0
  (answer.1,
    { w with pcbs := Function.update w.pcbs p { w.pcbs p with contextPages := answer.2 } })

/-- `Kernel.swap_in`. -/
def kernelSwapIn (p : Pid) (w : World n) : Except Exn ℤ × World n :=
  if p ∈ w.table then ((swapIn p w).1.map fun loaded => (loaded : ℤ), (swapIn p w).2)
  else (.ok (-1), w)

/-! ### Swapping out -/

/-- The batch that `SwapEvictionPolicy.evict` writes, if there are enough pages. -/
def swapBatch (batchSize minKeep : ℤ) (pages : List ContextPage) : Option (List ContextPage) :=
  if ((nonPinned pages).length : ℤ) ≤ minKeep then none
  else some (sliceTo (oldestFirst (nonPinned pages)) batchSize)

/-- The name of a file that is written now. -/
def swapStamp (out : Outside) (w : World n) : String := Text.fixed 6 (out.clock w.ticks)

/-- The world after a batch was swapped out. -/
def swappedOut (out : Outside) (p : Pid) (batch : List ContextPage) (w : World n) : World n :=
  { w with
    pcbs := Function.update w.pcbs p
      { w.pcbs p with contextPages := (w.pcbs p).contextPages.diff batch }
    swapDir :=
      SwapFile.writeTo { pid := p, stamp := swapStamp out w, pages := some batch } w.swapDir
    ticks := w.ticks + 1 + batch.length
    swaps := w.swaps + 1 }

section

variable (cfg : KernelConfig) (out : Outside) (t : Tid n) (p : Pid)

/-- Removing a batch page by page. -/
lemma runs_removePages (batch : List ContextPage) (w : World n) :
    World.runs cfg out t (removePages p batch) w =
      ((), { w with
        pcbs := Function.update w.pcbs p
          { w.pcbs p with contextPages := (w.pcbs p).contextPages.diff batch }
        ticks := w.ticks + batch.length }) := by
  induction batch generalizing w with
  | nil => simp [removePages]
  | cons page rest ih =>
    simp only [removePages, Prog.perform_bind, World.runs_op, ih]
    simp [World.exec, Write.apply, Write.ticks, List.diff_cons, Nat.add_assoc, Nat.add_comm 1]

/-- What `SwapEvictionPolicy.evict` does when the file system does its part. -/
lemma runs_evictSwap (batchSize minKeep : ℤ) {w : World n} (hwrite : out.swapWrite w.swaps = none) :
    World.runs cfg out t (evictSwap batchSize minKeep p) w =
      match swapBatch batchSize minKeep (w.pcbs p).contextPages with
      | none => (.ok 0, w)
      | some batch => (.ok batch.length, swappedOut out p batch w) := by
  by_cases hfloor : ((nonPinned (w.pcbs p).contextPages).length : ℤ) ≤ minKeep
  · simp [evictSwap, swapBatch, World.exec, hfloor]
  · simp [evictSwap, swapBatch, World.exec, hfloor, hwrite, runs_removePages, swappedOut, swapStamp]

/-- What it does when the file cannot be written: the pages stay. -/
lemma runs_evictSwap_error (batchSize : ℤ) {minKeep : ℤ} {w : World n} {e : Exn} {opened : Bool}
    (hmany : minKeep < ((nonPinned (w.pcbs p).contextPages).length : ℤ))
    (hwrite : out.swapWrite w.swaps = some (e, opened)) :
    ∃ w', World.runs cfg out t (evictSwap batchSize minKeep p) w = (.error e, w') ∧
      w'.pcbs = w.pcbs := by
  cases opened <;> simp [evictSwap, World.exec, not_le.2 hmany, hwrite]

end

/-- The oldest pages of a part are pages of the whole. -/
lemma sliceTo_oldestFirst_le {pages part : List ContextPage} (hpart : part.Sublist pages) (k : ℤ) :
    (sliceTo (oldestFirst part) k : Multiset ContextPage) ≤ pages :=
  calc (↑(sliceTo (oldestFirst part) k) : Multiset ContextPage)
      ≤ ↑(oldestFirst part) := (sliceTo_sublist _ _).subperm
    _ = ↑part := Multiset.coe_eq_coe.2 (List.perm_insertionSort _ _)
    _ ≤ ↑pages := hpart.subperm

/-- A batch consists of pages of the context. -/
lemma swapBatch_le {batchSize minKeep : ℤ} {pages batch : List ContextPage}
    (h : swapBatch batchSize minKeep pages = some batch) :
    (batch : Multiset ContextPage) ≤ pages := by
  unfold swapBatch at h
  split at h
  · cases h
  · cases h
    exact sliceTo_oldestFirst_le List.filter_sublist batchSize

/-! ### What is in memory and what is on disk -/

/-- The files of an agent. -/
def filesOf (p : Pid) (dir : List SwapFile) : List SwapFile := dir.filter fun f => f.pid = p

/-- The records of some files. -/
def recordsOf (files : List SwapFile) : Multiset ContextPage := ↑(files.flatMap SwapFile.records)

lemma recordsOf_append (fs gs : List SwapFile) :
    recordsOf (fs ++ gs) = recordsOf fs + recordsOf gs := by
  rw [recordsOf, List.flatMap_append, ← Multiset.coe_add]
  rfl

lemma recordsOf_perm {fs gs : List SwapFile} (h : fs.Perm gs) : recordsOf fs = recordsOf gs :=
  Multiset.coe_eq_coe.2 (h.flatMap_right _)

lemma recordsOf_eq_zero_iff {fs : List SwapFile} :
    recordsOf fs = 0 ↔ ∀ f ∈ fs, f.records = [] := by
  rw [recordsOf, Multiset.coe_eq_zero, List.flatMap_eq_nil_iff]

/-- The records of the files that are of a kind and of those that are not. -/
lemma recordsOf_filter_add (q : SwapFile → Bool) (fs : List SwapFile) :
    recordsOf (fs.filter q) + recordsOf (fs.filter fun f => !q f) = recordsOf fs := by
  rw [← recordsOf_append]
  exact recordsOf_perm (List.filter_append_perm q fs)

/-- All files of the agent are complete. -/
def Readable (p : Pid) (dir : List SwapFile) : Prop :=
  ∀ f ∈ dir, f.pid = p → f.pages.isSome = true

/-- What `swap_in` does when all files can be read. -/
lemma swapInFrom_of_readable {files : List SwapFile} (h : ∀ f ∈ files, f.pages.isSome = true)
    (pages : List ContextPage) (loaded : ℕ) :
    swapInFrom files pages loaded =
      (.ok (loaded + (files.flatMap SwapFile.records).length),
        pages ++ files.flatMap SwapFile.records) := by
  induction files generalizing pages loaded with
  | nil => simp [swapInFrom]
  | cons f rest ih =>
    obtain ⟨batch, hbatch⟩ := Option.isSome_iff_exists.1 (h f List.mem_cons_self)
    have htail := ih fun g hg => h g (List.mem_cons_of_mem _ hg)
    simp [swapInFrom, SwapFile.records, hbatch, htail, Nat.add_assoc]

/-- `swap_in` finds every record of every file of the agent. -/
lemma swapIn_of_readable {p : Pid} {w : World n} (h : Readable p w.swapDir) :
    ∃ back : List ContextPage, (swapIn p w).1 = .ok back.length ∧
      ((swapIn p w).2.pcbs p).contextPages = (w.pcbs p).contextPages ++ back ∧
      (back : Multiset ContextPage) = recordsOf (filesOf p w.swapDir) := by
  have hperm : (swapFiles w.swapDir p).Perm (filesOf p w.swapDir) := List.perm_insertionSort _ _
  have hread : ∀ f ∈ swapFiles w.swapDir p, f.pages.isSome = true := by
    intro f hf
    obtain ⟨hmem, hpid⟩ := List.mem_filter.1 (hperm.mem_iff.1 hf)
    exact h f hmem (by simpa using hpid)
  refine ⟨(swapFiles w.swapDir p).flatMap SwapFile.records, ?_, ?_, recordsOf_perm hperm⟩
  · simp [swapIn, swapInFrom_of_readable hread]
  · simp [swapIn, swapInFrom_of_readable hread]

/-- The pages of an agent in memory and on disk. -/
def allPages (p : Pid) (w : World n) : Multiset ContextPage :=
  ↑(w.pcbs p).contextPages + recordsOf (filesOf p w.swapDir)

/-- The pages that stay in memory and those that went into the batch are the pages that
were there. -/
lemma diff_add_batch {batchSize minKeep : ℤ} {pages batch : List ContextPage}
    (h : swapBatch batchSize minKeep pages = some batch) :
    (↑(pages.diff batch) : Multiset ContextPage) + ↑batch = ↑pages := by
  rw [← Multiset.coe_sub]
  exact Multiset.sub_add_cancel (swapBatch_le h)

/-- The files of the agent after one was written. -/
lemma filesOf_writeTo (p : Pid) (stamp : String) (content : Option (List ContextPage))
    (dir : List SwapFile) :
    filesOf p (SwapFile.writeTo { pid := p, stamp := stamp, pages := content } dir) =
      (filesOf p dir).filter (fun f => !decide (f.stamp = stamp)) ++
        [{ pid := p, stamp := stamp, pages := content }] := by
  rw [SwapFile.writeTo, filesOf, List.filter_append, List.filter_filter, filesOf,
    List.filter_filter]
  congr 1
  · refine List.filter_congr fun f _ => ?_
    by_cases hpid : f.pid = p <;> simp [hpid]
  · simp

/-! ### Histories of swap-outs -/

/-- What happens to the pages of an agent before they are restored. -/
inductive PageEvent
  /-- The agent is given a page. -/
  | append (page : ContextPage)
  /-- `SwapEvictionPolicy(batch_size, min_keep).evict`. -/
  | evict (batchSize minKeep : ℤ)
deriving DecidableEq, Repr

namespace PageEvent

/-- The pages that an event brings. -/
def gain : PageEvent → Multiset ContextPage
  | append page => {page}
  | evict _ _ => 0

section

variable (cfg : KernelConfig) (out : Outside) (t : Tid n) (p : Pid)

/-- The world after an event. -/
def next (w : World n) : PageEvent → World n
  | append page =>
    { w with
      pcbs := Function.update w.pcbs p
        { w.pcbs p with contextPages := (w.pcbs p).contextPages ++ [page] } }
  | evict batchSize minKeep => (World.runs cfg out t (evictSwap batchSize minKeep p) w).2

/-- Whether the event swaps out a batch. -/
def writes (w : World n) : PageEvent → Bool
  | append _ => false
  | evict batchSize minKeep => (swapBatch batchSize minKeep (w.pcbs p).contextPages).isSome

/-- The files that have the name under which a file would be written now. -/
def homonyms (w : World n) : List SwapFile :=
  (filesOf p w.swapDir).filter fun f => f.stamp = swapStamp out w

/-- No file with pages has the name under which the event writes. -/
def SparesFiles (w : World n) (e : PageEvent) : Prop :=
  e.writes p w = true → ∀ f ∈ w.swapDir, f.pid = p → f.stamp = swapStamp out w → f.records = []

instance (w : World n) (e : PageEvent) : Decidable (e.SparesFiles out p w) :=
  inferInstanceAs (Decidable (_ → ∀ f ∈ w.swapDir, _))

/-- The pages that are overwritten. -/
def leak (w : World n) (e : PageEvent) : Multiset ContextPage :=
  if e.writes p w then recordsOf (homonyms out p w) else 0

/-- What an event does to the world. -/
lemma next_cases (hwrites : ∀ k, out.swapWrite k = none) (w : World n) (e : PageEvent) :
    (e.writes p w = false ∧ (e.next cfg out t p w).swapDir = w.swapDir ∧
        (((e.next cfg out t p w).pcbs p).contextPages : Multiset ContextPage) =
          ↑(w.pcbs p).contextPages + e.gain) ∨
      ∃ batch, e.writes p w = true ∧ e.gain = 0 ∧
        e.next cfg out t p w = swappedOut out p batch w ∧
        (↑((w.pcbs p).contextPages.diff batch) : Multiset ContextPage) + ↑batch =
          ↑(w.pcbs p).contextPages := by
  cases e with
  | append page =>
    refine .inl ⟨rfl, rfl, ?_⟩
    simp [next, gain, ← Multiset.coe_add]
  | evict batchSize minKeep =>
    have hrun := runs_evictSwap cfg out t p batchSize minKeep (hwrites w.swaps)
    cases hbatch : swapBatch batchSize minKeep (w.pcbs p).contextPages with
    | none =>
      refine .inl ⟨by simp [writes, hbatch], ?_⟩
      simp [next, gain, hrun, hbatch]
    | some batch =>
      refine .inr ⟨batch, by simp [writes, hbatch], rfl, ?_, diff_add_batch hbatch⟩
      simp [next, hrun, hbatch]

/-- The events leave complete files behind. -/
lemma readable_next (hwrites : ∀ k, out.swapWrite k = none) {w : World n}
    (h : Readable p w.swapDir) (e : PageEvent) : Readable p (e.next cfg out t p w).swapDir := by
  rcases next_cases cfg out t p hwrites w e with ⟨-, hdir, -⟩ | ⟨batch, -, -, hnext, -⟩
  · rwa [hdir]
  · rw [hnext]
    intro f hf hpid
    rcases List.mem_append.1 hf with hf | hf
    · exact h f (List.mem_of_mem_filter hf) hpid
    · rw [List.mem_singleton.1 hf]
      rfl

lemma leak_eq_zero_iff (w : World n) (e : PageEvent) :
    e.leak out p w = 0 ↔ e.SparesFiles out p w := by
  unfold leak SparesFiles
  split
  · next hwrites =>
    simp only [recordsOf_eq_zero_iff, homonyms, filesOf, List.mem_filter, decide_eq_true_eq, hwrites,
      forall_const]
    exact ⟨fun h f hf hpid hstamp => h f ⟨⟨hf, hpid⟩, hstamp⟩, fun h f hf => h f hf.1.1 hf.1.2 hf.2⟩
  · next hidle => exact iff_of_true rfl fun h => absurd h hidle

/-- One event: the pages in memory and on disk change by what the event brings and by what
it overwrites. -/
lemma total_next (hwrites : ∀ k, out.swapWrite k = none) (w : World n) (e : PageEvent) :
    allPages p (e.next cfg out t p w) + e.leak out p w = allPages p w + e.gain := by
  unfold allPages
  rcases next_cases cfg out t p hwrites w e with ⟨hidle, hdir, hpages⟩ | ⟨batch, hw, hgain, hnext, hsplit⟩
  · rw [hdir, hpages, leak, hidle, if_neg (by simp), add_zero, add_right_comm]
  · have hfiles := recordsOf_filter_add (fun f => decide (f.stamp = swapStamp out w))
      (filesOf p w.swapDir)
    have hnew : recordsOf [{ pid := p, stamp := swapStamp out w, pages := some batch }] = ↑batch := by
      simp [recordsOf, SwapFile.records]
    have hmem : ((swappedOut out p batch w).pcbs p).contextPages =
        (w.pcbs p).contextPages.diff batch := by simp [swappedOut]
    have hdir : filesOf p (swappedOut out p batch w).swapDir = _ :=
      filesOf_writeTo p (swapStamp out w) (some batch) w.swapDir
    rw [hnext, hmem, hdir, recordsOf_append, hnew, leak, if_pos hw, hgain, ← hfiles, ← hsplit,
      homonyms]
    abel

end

end PageEvent

/-- **Two batches in one microsecond.**  Two pages are swapped out one after the other while
the clock shows the same time: the second file overwrites the first, and `swap_in` brings
back one page. -/
theorem swap_loses_page :
    ∃ (cfg : KernelConfig) (out : Outside) (w : World 0) (es : List PageEvent),
      (∀ k, out.swapWrite k = none) ∧ Monotone out.clock ∧ (∀ f ∈ w.swapDir, f.pid ≠ 1) ∧
        (((swapIn 1 (es.foldl (PageEvent.next cfg out (.client 0) 1) w)).2.pcbs 1).contextPages :
            Multiset ContextPage) ≠
          ↑(w.pcbs 1).contextPages + (es.map PageEvent.gain).sum := by
  refine ⟨{ pager := {}, host := .inert }, .calm ⟨"", 0, 0, 0⟩,
    { pcbs := fun _ =>
        { pid := 1, prompt := "", createdAt := 0
          contextPages := [{ role := .user, content := "a", lastAccess := 0 },
            { role := .user, content := "b", lastAccess := 1 }] }
      quota := ⟨0, 0⟩ }, [.evict 1 0, .evict 1 0], fun _ => rfl, fun _ _ _ => le_rfl, by simp, ?_⟩
  decide +kernel

/-- **Nothing is lost but what is overwritten.**  For every history of swap-outs and of new
pages that begins with no file of the agent on disk, whatever the clock does: a final
`swap_in` returns, and brings together all pages that the agent ever held, exactly when no
batch was written under the name of a file with pages. -/
theorem swapIn_restores_iff_sparesFiles (cfg : KernelConfig) (out : Outside) (t : Tid n) (p : Pid)
    (w : World n) (hwrites : ∀ k, out.swapWrite k = none) (hempty : ∀ f ∈ w.swapDir, f.pid ≠ p)
    (es : List PageEvent) :
    let w' := es.foldl (PageEvent.next cfg out t p) w
    ((∃ loaded, (swapIn p w').1 = .ok loaded) ∧
        (((swapIn p w').2.pcbs p).contextPages : Multiset ContextPage) =
          ↑(w.pcbs p).contextPages + (es.map PageEvent.gain).sum) ↔
      Along (PageEvent.next cfg out t p) (PageEvent.SparesFiles out p) w es := by
  intro w'
  have hread : Readable p w'.swapDir := by
    refine List.foldlRecOn es (PageEvent.next cfg out t p) (motive := fun w => Readable p w.swapDir)
      (fun f hf hpid => absurd hpid (hempty f hf)) fun w hw e _ => ?_
    exact PageEvent.readable_next cfg out t p hwrites hw e
  have hnone : filesOf p w.swapDir = [] := by
    simpa [filesOf, List.filter_eq_nil_iff] using hempty
  obtain ⟨back, hanswer, hpages, hback⟩ := swapIn_of_readable hread
  have htotal := Ledger.total_eq_iff (PageEvent.total_next cfg out t p hwrites) w es
  simp only [PageEvent.leak_eq_zero_iff] at htotal
  rw [← htotal, hpages, ← Multiset.coe_add, hback]
  simp [hanswer, hnone, allPages, recordsOf, w']

/-- Two batches in two microseconds come back. -/
theorem swapIn_restores_iff_sparesFiles_two_batches :
    let out : Outside := { Outside.calm ⟨"", 0, 0, 0⟩ with clock := fun k => k / 1000000 }
    let w : World 0 :=
      { pcbs := fun _ =>
          { pid := 1, prompt := "", createdAt := 0
            contextPages := [{ role := .user, content := "a", lastAccess := 0 },
              { role := .user, content := "b", lastAccess := 1 }] }
        quota := ⟨0, 0⟩ }
    let es : List PageEvent := [.evict 1 0, .evict 1 0]
    (((swapIn 1 (es.foldl (PageEvent.next { pager := {}, host := .inert } out (.client 0) 1) w)).2.pcbs
        1).contextPages : Multiset ContextPage) =
      ↑(w.pcbs 1).contextPages + (es.map PageEvent.gain).sum :=
  ((swapIn_restores_iff_sparesFiles { pager := {}, host := .inert } _ (.client 0) 1 _ (fun _ => rfl)
    (by simp) _).2 (by decide +kernel)).2

/-! ### Histories of swap-outs and swap-ins -/

/-- What happens to the pages of an agent. -/
inductive SwapEvent
  | page (e : PageEvent)
  | swapIn
deriving DecidableEq, Repr

/-- The world, and the names of the files of the agent that `swap_in` has read and that were
not written again since. -/
structure SwapHistory (n : ℕ) where
  world : World n
  restored : List String := []

namespace SwapHistory

/-- The files of the agent that were not read back. -/
def unread (p : Pid) (s : SwapHistory n) : List SwapFile :=
  (filesOf p s.world.swapDir).filter fun f => f.stamp ∉ s.restored

/-- The files of the agent that were read back. -/
def reread (p : Pid) (s : SwapHistory n) : List SwapFile :=
  (filesOf p s.world.swapDir).filter fun f => f.stamp ∈ s.restored

/-- The pages of the agent: those in its context and those that were swapped out and not
restored. -/
def pages (p : Pid) (s : SwapHistory n) : Multiset ContextPage :=
  ↑(s.world.pcbs p).contextPages + recordsOf (s.unread p)

/-- Nothing was swapped out since the last `swap_in`. -/
def NothingOut (p : Pid) (s : SwapHistory n) : Prop := s.unread p = []

instance (p : Pid) (s : SwapHistory n) : Decidable (s.NothingOut p) :=
  inferInstanceAs (Decidable (_ = []))

end SwapHistory

namespace SwapEvent

/-- The pages that an event brings. -/
def gain : SwapEvent → Multiset ContextPage
  | page e => e.gain
  | swapIn => 0

section

variable (cfg : KernelConfig) (out : Outside) (t : Tid n) (p : Pid)

/-- The history after an event. -/
def next (s : SwapHistory n) : SwapEvent → SwapHistory n
  | page e =>
    { world := e.next cfg out t p s.world
      restored :=
        if e.writes p s.world then s.restored.filter (· ≠ swapStamp out s.world) else s.restored }
  | swapIn =>
    { world := (Memory.swapIn p s.world).2
      restored := (filesOf p s.world.swapDir).map SwapFile.stamp }

/-- A batch is not written over a file with pages that were not restored, and `swap_in` is
not called while a file with pages is there that it has read before. -/
def Single (s : SwapHistory n) : SwapEvent → Prop
  | page e =>
    e.writes p s.world = true →
      ∀ f ∈ s.unread p, f.stamp = swapStamp out s.world → f.records = []
  | swapIn => ∀ f ∈ s.reread p, f.records = []

instance (s : SwapHistory n) : (e : SwapEvent) → Decidable (e.Single out p s)
  | page _ => inferInstanceAs (Decidable (_ → ∀ f ∈ s.unread p, _))
  | swapIn => inferInstanceAs (Decidable (∀ f ∈ s.reread p, _))

end

variable {cfg : KernelConfig} {out : Outside} {t : Tid n} {p : Pid}

/-- The files that are unread after one was written. -/
lemma unread_swappedOut (batch : List ContextPage) (s : SwapHistory n) :
    SwapHistory.unread p
        { world := swappedOut out p batch s.world
          restored := s.restored.filter (· ≠ swapStamp out s.world) } =
      (s.unread p).filter (fun f => !decide (f.stamp = swapStamp out s.world)) ++
        [{ pid := p, stamp := swapStamp out s.world, pages := some batch }] := by
  have hdir : filesOf p (swappedOut out p batch s.world).swapDir = _ :=
    filesOf_writeTo p (swapStamp out s.world) (some batch) s.world.swapDir
  rw [SwapHistory.unread, hdir, List.filter_append, List.filter_filter, SwapHistory.unread,
    List.filter_filter]
  congr 1
  · refine List.filter_congr fun f _ => ?_
    by_cases hstamp : f.stamp = swapStamp out s.world <;> simp [hstamp]
  · simp

/-- One event keeps the pages together exactly when it meets the condition. -/
lemma single_iff (hwrites : ∀ k, out.swapWrite k = none) (s : SwapHistory n) (e : SwapEvent)
    (hread : Readable p s.world.swapDir) :
    (e.Single out p s ↔ (e.next cfg out t p s).pages p = s.pages p + e.gain) ∧
      Readable p (e.next cfg out t p s).world.swapDir := by
  cases e with
  | page e =>
    refine ⟨?_, PageEvent.readable_next cfg out t p hwrites hread e⟩
    rcases PageEvent.next_cases cfg out t p hwrites s.world e with
      ⟨hidle, hdir, hpages⟩ | ⟨batch, hw, hgain, hnext, hsplit⟩
    · refine iff_of_true (fun h => by rw [hidle] at h; cases h) ?_
      simp only [SwapHistory.pages, SwapHistory.unread, next, hidle, hdir, hpages, gain,
        Bool.false_eq_true, if_false]
      rw [add_right_comm]
    · have hmem : ((swappedOut out p batch s.world).pcbs p).contextPages =
          (s.world.pcbs p).contextPages.diff batch := by simp [swappedOut]
      have hnew : recordsOf [{ pid := p, stamp := swapStamp out s.world, pages := some batch }] =
          ↑batch := by simp [recordsOf, SwapFile.records]
      have hfiles := recordsOf_filter_add (fun f => decide (f.stamp = swapStamp out s.world))
        (s.unread p)
      -- what is missing afterwards are the unread files of the same name
      have hlost : SwapHistory.pages p (next cfg out t p s (page e)) +
          recordsOf ((s.unread p).filter fun f => f.stamp = swapStamp out s.world) =
            s.pages p + (page e).gain := by
        simp only [SwapHistory.pages, next, hw, if_true, hnext, hmem, unread_swappedOut, gain, hgain]
        rw [recordsOf_append, hnew, ← hfiles, ← hsplit]
        abel
      rw [← hlost, left_eq_add, recordsOf_eq_zero_iff, Single]
      simp [hw]
  | swapIn =>
    refine ⟨?_, hread⟩
    obtain ⟨back, -, hpages, hback⟩ := swapIn_of_readable hread
    have hfiles := recordsOf_filter_add (fun f => decide (f.stamp ∈ s.restored))
      (filesOf p s.world.swapDir)
    have hunread : SwapHistory.unread p (next cfg out t p s .swapIn) = [] := by
      simp only [SwapHistory.unread, next, List.filter_eq_nil_iff]
      intro f hf
      simpa using ⟨f, hf, rfl⟩
    -- what is too much afterwards are the files that were read before
    have htwice : SwapHistory.pages p (next cfg out t p s .swapIn) =
        s.pages p + swapIn.gain + recordsOf (s.reread p) := by
      rw [SwapHistory.pages, hunread, SwapHistory.pages]
      simp only [next, hpages, ← Multiset.coe_add, hback, ← hfiles, gain, SwapHistory.unread,
        SwapHistory.reread, decide_not]
      rw [add_zero, add_comm (recordsOf (List.filter (fun f => decide (f.stamp ∈ s.restored)) _)),
        ← add_assoc]
      simp [recordsOf]
    rw [htwice, add_eq_left, recordsOf_eq_zero_iff, Single]

end SwapEvent

/-- Where all files are read, and those that were read are empty, `swap_in` restores nothing. -/
lemma SwapHistory.swapIn_of_nothingOut {p : Pid} {s : SwapHistory n}
    (hread : Readable p s.world.swapDir) (hout : s.NothingOut p)
    (hempty : ∀ f ∈ s.reread p, f.records = []) :
    (swapIn p s.world).1 = .ok 0 ∧
      ((swapIn p s.world).2.pcbs p).contextPages = (s.world.pcbs p).contextPages := by
  obtain ⟨back, hanswer, hpages, hback⟩ := swapIn_of_readable hread
  have hfiles := recordsOf_filter_add (fun f => decide (f.stamp ∈ s.restored))
    (filesOf p s.world.swapDir)
  have hunread : (filesOf p s.world.swapDir).filter (fun f => !decide (f.stamp ∈ s.restored)) = [] := by
    simpa [SwapHistory.NothingOut, SwapHistory.unread] using hout
  have hreread : recordsOf (s.reread p) = 0 := recordsOf_eq_zero_iff.2 hempty
  have hnil : back = [] := by
    rw [← Multiset.coe_eq_zero, hback, ← hfiles, hunread]
    simpa [recordsOf, SwapHistory.reread] using hreread
  rw [hanswer, hpages, hnil]
  exact ⟨rfl, List.append_nil _⟩

/-- **A second `swap_in` doubles the pages.**  One page is swapped out and restored; nothing
is swapped out after that, but the next `swap_in` restores it once more. -/
theorem swapIn_doubles_page :
    ∃ (cfg : KernelConfig) (out : Outside) (w : World 0),
      (∀ k, out.swapWrite k = none) ∧ (∀ f ∈ w.swapDir, f.pid ≠ 1) ∧
        let s := [SwapEvent.page (.evict 1 0), .swapIn].foldl
          (SwapEvent.next cfg out (.client 0) 1) { world := w }
        s.NothingOut 1 ∧ (s.world.pcbs 1).contextPages = (w.pcbs 1).contextPages ∧
          (swapIn 1 s.world).1 = .ok 1 ∧
          ((swapIn 1 s.world).2.pcbs 1).contextPages.length = 2 := by
  refine ⟨{ pager := {}, host := .inert }, .calm ⟨"", 0, 0, 0⟩,
    { pcbs := fun _ =>
        { pid := 1, prompt := "", createdAt := 0
          contextPages := [{ role := .user, content := "a", lastAccess := 0 }] }
      quota := ⟨0, 0⟩ }, fun _ => rfl, by simp, ?_⟩
  refine ⟨?_, ?_, ?_, ?_⟩
  · decide +kernel
  · decide +kernel
  · decide +kernel
  · decide +kernel

/-- **Pages are kept together.**  For every history of swap-outs, swap-ins and new pages that
begins with no file of the agent on disk: after each event the pages in the context and
those that are swapped out and not restored are together the pages that the agent was given,
and a `swap_in` before which nothing was swapped out restores nothing and returns zero,
exactly when no batch overwrites pages that were not restored and no `swap_in` finds a file
with pages that it has read before. -/
theorem pages_kept_iff_single (cfg : KernelConfig) (out : Outside) (t : Tid n) (p : Pid)
    (w : World n) (hwrites : ∀ k, out.swapWrite k = none) (hempty : ∀ f ∈ w.swapDir, f.pid ≠ p)
    (es : List SwapEvent) :
    ((∀ pre, pre <+: es →
          (pre.foldl (SwapEvent.next cfg out t p) { world := w }).pages p =
            ↑(w.pcbs p).contextPages + (pre.map SwapEvent.gain).sum) ∧
        ∀ pre, pre ++ [.swapIn] <+: es →
          let s := pre.foldl (SwapEvent.next cfg out t p) { world := w }
          s.NothingOut p →
            (swapIn p s.world).1 = .ok 0 ∧
              ((swapIn p s.world).2.pcbs p).contextPages = (s.world.pcbs p).contextPages) ↔
      Along (SwapEvent.next cfg out t p) (SwapEvent.Single out p) { world := w } es := by
  have hstep : ∀ (s : SwapHistory n) (e : SwapEvent), Readable p s.world.swapDir →
      (e.Single out p s ↔ (e.next cfg out t p s).pages p = s.pages p + e.gain) ∧
        Readable p (e.next cfg out t p s).world.swapDir :=
    fun s e hs => SwapEvent.single_iff hwrites s e hs
  have hread : Readable p w.swapDir := fun f hf hpid => absurd hpid (hempty f hf)
  have hnone : filesOf p w.swapDir = [] := by
    simpa [filesOf, List.filter_eq_nil_iff] using hempty
  have hstart : SwapHistory.pages p { world := w } = ↑(w.pcbs p).contextPages := by
    simp [SwapHistory.pages, SwapHistory.unread, hnone, recordsOf]
  rw [Ledger.along_iff_balanced hstep hread es, hstart]
  refine and_iff_left_of_imp fun hkept pre hpre hout => ?_
  have hsingle := ((Ledger.along_iff_balanced hstep hread es).2 (by rwa [hstart])).restrict hpre
  have hreads : Readable p (pre.foldl (SwapEvent.next cfg out t p) { world := w }).world.swapDir :=
    List.foldlRecOn pre (SwapEvent.next cfg out t p)
      (motive := fun s => Readable p s.world.swapDir) hread fun s hs e _ => (hstep s e hs).2
  exact SwapHistory.swapIn_of_nothingOut hreads hout hsingle

/-- A page goes out, comes back, and the next batch is written in another microsecond. -/
theorem pages_kept_iff_single_one_round :
    let out : Outside := { Outside.calm ⟨"", 0, 0, 0⟩ with clock := fun k => k / 1000000 }
    let w : World 0 :=
      { pcbs := fun _ =>
          { pid := 1, prompt := "", createdAt := 0
            contextPages := [{ role := .user, content := "a", lastAccess := 0 },
              { role := .user, content := "b", lastAccess := 1 }] }
        quota := ⟨0, 0⟩ }
    let es : List SwapEvent := [.page (.evict 1 0), .page (.evict 1 0), .swapIn, .page (.evict 1 0)]
    (es.foldl (SwapEvent.next { pager := {}, host := .inert } out (.client 0) 1)
        { world := w }).pages 1 =
      ↑(w.pcbs 1).contextPages + (es.map SwapEvent.gain).sum :=
  ((pages_kept_iff_single { pager := {}, host := .inert } _ (.client 0) 1 _ (fun _ => rfl)
    (by simp) _).2 (by decide +kernel)).1 _ List.prefix_rfl

end Memory

end Gcos
