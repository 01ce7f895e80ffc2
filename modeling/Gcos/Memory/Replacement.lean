import Gcos.Memory.Shape
import Gcos.Memory.Collapse
import Gcos.Lib.Lists

/-!
# What a summary replaces

`SummarizeEvictionPolicy.evict` puts the summary where the oldest page of its batch stands.
It looks that place up before it removes the batch, and the batch is chosen by the time of
the last access, not by the position: pages of the batch that stand before the oldest one
are removed from under the index, and the summary comes to stand too far behind.
-/

namespace Gcos.Memory

open Lib World

/-! ### The place of the summary -/

variable (pages batch : List ContextPage) (first : ContextPage)

/-- The surviving pages that stood before `batch[0]`. -/
def survivorsBefore : List ContextPage := (pages.take (pages.idxOf first)).diff batch

/-- The surviving pages that stood after `batch[0]`: what the removal takes out of the pages
up to `batch[0]` it does not take out of these. -/
def survivorsAfter : List ContextPage :=
  (pages.drop (pages.idxOf first + 1)).diff (batch.diff (pages.take (pages.idxOf first + 1)))

/-- Where `context_pages.insert(insert_at, …)` puts the summary among the survivors. -/
def summaryPlace : ℕ := min (pages.idxOf first) (pages.diff batch).length

/-- The summary stands behind the survivors that stood before `batch[0]` and in front of
those that stood after it. -/
def TakesPlace : Prop :=
  (pages.diff batch).take (summaryPlace pages batch first) = survivorsBefore pages batch first ∧
    (pages.diff batch).drop (summaryPlace pages batch first) = survivorsAfter pages batch first

/-- No page of the batch stands before `batch[0]`, or no page that stands after it
survives. -/
def NoneOvertaken : Prop :=
  (∀ page ∈ pages.take (pages.idxOf first), page ∉ batch) ∨ survivorsAfter pages batch first = []

instance : Decidable (TakesPlace pages batch first) := inferInstanceAs (Decidable (_ ∧ _))

instance : Decidable (NoneOvertaken pages batch first) := inferInstanceAs (Decidable (_ ∨ _))

variable {pages batch first}

/-- The survivors are those that stood before `batch[0]` and those that stood after it. -/
lemma diff_eq_survivors (hfirst : first ∈ pages) (hbatch : first ∈ batch) :
    pages.diff batch = survivorsBefore pages batch first ++ survivorsAfter pages batch first := by
  have hlt : pages.idxOf first < pages.length := List.idxOf_lt_length_of_mem hfirst
  have hnotin : first ∉ pages.take (pages.idxOf first) := by
    rw [List.mem_take_iff_idxOf_lt hfirst]
    omega
  have hsplit : pages = pages.take (pages.idxOf first) ++
      first :: pages.drop (pages.idxOf first + 1) := by
    conv_lhs => rw [← List.take_append_drop (pages.idxOf first) pages, List.drop_eq_getElem_cons hlt,
      List.getElem_idxOf hlt]
  have htake : pages.take (pages.idxOf first + 1) = pages.take (pages.idxOf first) ++ [first] := by
    rw [List.take_add_one, List.getElem?_eq_getElem hlt, List.getElem_idxOf hlt]
    rfl
  have hleft : first ∈ batch.diff (pages.take (pages.idxOf first)) :=
    List.mem_diff_of_mem hbatch hnotin
  conv_lhs => rw [hsplit]
  rw [append_diff, List.cons_diff_of_mem hleft, survivorsBefore, survivorsAfter, htake,
    List.diff_append, List.diff_cons, List.diff_nil]

/-- The summary takes the place of the batch exactly if none of the survivors is
overtaken. -/
lemma takesPlace_iff (hfirst : first ∈ pages) (hbatch : first ∈ batch) :
    TakesPlace pages batch first ↔ NoneOvertaken pages batch first := by
  have hsplit := diff_eq_survivors hfirst hbatch
  have hlt : pages.idxOf first < pages.length := List.idxOf_lt_length_of_mem hfirst
  have htake : (pages.take (pages.idxOf first)).length = pages.idxOf first :=
    List.length_take_of_le hlt.le
  have hle : (survivorsBefore pages batch first).length ≤ pages.idxOf first := by
    have hsub := (List.diff_sublist (pages.take (pages.idxOf first)) batch).length_le
    rwa [htake] at hsub
  -- the place is right if it is the number of the survivors before `batch[0]`
  have hplace : TakesPlace pages batch first ↔
      summaryPlace pages batch first = (survivorsBefore pages batch first).length := by
    constructor
    · rintro ⟨hbefore, -⟩
      have hlen := congrArg List.length hbefore
      rw [List.length_take, summaryPlace] at hlen
      rw [summaryPlace]
      omega
    · intro h
      rw [TakesPlace, h, hsplit]
      exact ⟨List.take_left, List.drop_left⟩
  have hlen : (pages.diff batch).length = (survivorsBefore pages batch first).length +
      (survivorsAfter pages batch first).length := by rw [hsplit, List.length_append]
  rw [hplace, summaryPlace]
  constructor
  · intro h
    rcases Nat.eq_zero_or_pos (survivorsAfter pages batch first).length with hnone | hsome
    · exact .inr (List.length_eq_zero_iff.1 hnone)
    · have hall : (survivorsBefore pages batch first).length =
          (pages.take (pages.idxOf first)).length := by omega
      exact .inl fun page => not_mem_of_length_diff hall
  · rintro (hall | hnone)
    · have hbefore : survivorsBefore pages batch first = pages.take (pages.idxOf first) :=
        diff_eq_self hall
      rw [hbefore] at hlen ⊢
      omega
    · rw [hnone, List.length_nil] at hlen
      omega

/-! ### The call -/

section

variable {n : ℕ} (cfg : KernelConfig) (out : Outside) (t : Tid n) (p : Pid)

/-- A call that returns, with a batch to replace. -/
lemma runs_summarizeBatch_ok (batchSize : ℤ) (metered : Bool) (maxSummaryTokens : ℤ)
    (first : ContextPage) (rest : List ContextPage) {w : World n} {r : ChatResult}
    (hchat : out.chat w.chats = .ok r) :
    let run :=
      runs cfg out t (summarizeBatch batchSize metered maxSummaryTokens p (first :: rest)) w
    run.1 = .ok (batchSize - 1) ∧
      (∃ s, IsSummary s ∧ (run.2.pcbs p).contextPages =
        ((w.pcbs p).contextPages.diff (first :: rest)).insertIdx
          (summaryPlace (w.pcbs p).contextPages (first :: rest) first) s) ∧
      run.2.quota = w.quota ∧ run.2.summaries = w.summaries + 1 := by
  have hcall : ∃ loc, World.exec cfg out t
      (.chat (.summarize metered) (summarizeRequest (first :: rest) maxSummaryTokens)) w =
        (.ok r, { w with chats := w.chats + 1, summaries := w.summaries + 1, loc := loc }) := by
    cases metered <;> simp [World.exec, hchat, World.note]
  obtain ⟨loc, hcall⟩ := hcall
  simp only [summarizeBatch, Prog.perform_bind, runs_op, hcall, runs_bind, runs_removePages]
  refine ⟨rfl, ⟨_, ⟨first :: rest, r, out.clock (w.ticks + (rest.length + 1)), rfl⟩, ?_⟩, rfl, rfl⟩
  simp [World.exec, Write.apply, World.clockFrom, summaryPlace]

/-- A call that returns, with nothing to replace. -/
lemma runs_summarizeBatch_nil (batchSize : ℤ) (metered : Bool) (maxSummaryTokens : ℤ)
    {w : World n} {r : ChatResult} (hchat : out.chat w.chats = .ok r) :
    ∃ e w', runs cfg out t (summarizeBatch batchSize metered maxSummaryTokens p []) w =
        (.error e, w') ∧ w'.pcbs = w.pcbs ∧ w'.quota = w.quota := by
  cases metered <;> simp [summarizeBatch, World.exec, hchat, World.note]

/-- A call that raises. -/
lemma runs_summarizeBatch_error (batchSize : ℤ) (metered : Bool) (maxSummaryTokens : ℤ)
    (batch : List ContextPage) {w : World n} {e : Exn} (hchat : out.chat w.chats = .error e) :
    ∃ w', runs cfg out t (summarizeBatch batchSize metered maxSummaryTokens p batch) w =
        (.error e, w') ∧ w'.pcbs = w.pcbs ∧ w'.summaries = w.summaries ∧
      w'.quota = if metered then w.quota.refund 1 else w.quota := by
  cases metered <;> simp [summarizeBatch, World.exec, hchat, World.note]

/-- The pages that `SummarizeEvictionPolicy.evict` would summarize. -/
def summaryBatch (batchSize : ℤ) (pages : List ContextPage) : List ContextPage :=
  sliceTo (oldestFirst (summarizable pages)) batchSize

/-- The world in which thread `t` has taken a unit of the quota. -/
def charged (t : Tid n) (w : World n) : World n :=
  { w with quota := { w.quota with remaining := w.quota.remaining - 1 } }.note t fun l =>
    { l with units := l.units + 1 }

variable {cfg out t p}

lemma exec_acquire (w : World n) : World.exec cfg out t .acquire w =
    if w.quota.remaining < 1 then (false, w) else (true, charged t w) := by
  simp only [World.exec, Quota.acquire]
  by_cases hlow : w.quota.remaining < 1
  · simp only [if_pos hlow]
  · simp only [if_neg hlow]
    rfl

/-- The first half of `evict`: whether there are enough candidates, and the unit. -/
lemma runs_evictSummarize (batchSize : ℤ) (metered : Bool) (maxSummaryTokens : ℤ) {w : World n}
    (hmany : batchSize ≤ ((summarizable (w.pcbs p).contextPages).length : ℤ)) :
    runs cfg out t (evictSummarize batchSize metered maxSummaryTokens p) w =
      if metered = true ∧ w.quota.remaining < 1 then (.ok 0, w)
      else runs cfg out t (summarizeBatch batchSize metered maxSummaryTokens p
        (summaryBatch batchSize (w.pcbs p).contextPages))
          (if metered = true then charged t w else w) := by
  simp only [evictSummarize, Prog.perform_bind, runs_op]
  rw [if_neg (by simpa [World.exec] using hmany)]
  cases metered with
  | false => rfl
  | true =>
    have hread : ∀ look, World.exec cfg out t (.readPcb p look) w = (w.pcbs p, w) := fun _ => rfl
    simp only [hread, if_true, runs_op, exec_acquire, true_and]
    by_cases hlow : w.quota.remaining < 1
    · simp only [if_pos hlow]
      rfl
    · simp only [if_neg hlow]
      rfl

lemma mem_of_mem_summaryBatch {batchSize : ℤ} {pages : List ContextPage} {page : ContextPage}
    (h : page ∈ summaryBatch batchSize pages) : page ∈ pages := by
  have hsort := (sliceTo_sublist _ _).subset h
  rw [oldestFirst, List.mem_insertionSort] at hsort
  exact List.mem_of_mem_filter hsort

/-- The second half, as far as it is reached with an answer. -/
lemma summarizeBatch_called {batchSize : ℤ} {metered : Bool} {maxSummaryTokens : ℤ}
    {batch : List ContextPage} {w w' : World n} {freed : ℤ}
    (hrun : runs cfg out t (summarizeBatch batchSize metered maxSummaryTokens p batch) w =
      (.ok freed, w')) :
    ∃ first rest s, batch = first :: rest ∧ IsSummary s ∧
      (w'.pcbs p).contextPages = ((w.pcbs p).contextPages.diff batch).insertIdx
        (summaryPlace (w.pcbs p).contextPages batch first) s := by
  cases hchat : out.chat w.chats with
  | error e =>
    obtain ⟨w₁, hfail, -⟩ :=
      runs_summarizeBatch_error cfg out t p batchSize metered maxSummaryTokens batch hchat
    rw [hfail] at hrun
    cases hrun
  | ok r =>
    cases batch with
    | nil =>
      obtain ⟨e, w₁, hfail, -⟩ :=
        runs_summarizeBatch_nil cfg out t p batchSize metered maxSummaryTokens hchat
      rw [hfail] at hrun
      cases hrun
    | cons first rest =>
      obtain ⟨-, ⟨s, hs, hpages⟩, -⟩ :=
        runs_summarizeBatch_ok cfg out t p batchSize metered maxSummaryTokens first rest hchat
      rw [hrun] at hpages
      exact ⟨first, rest, s, rfl, hs, hpages⟩

end

/-- A context whose pages were not accessed in the order in which they stand: `b` is the
oldest, and `a` stands before it. -/
def shuffledPages : List ContextPage :=
  [{ role := .user, content := "a", lastAccess := 2 },
    { role := .assistant, content := "b", lastAccess := 1 },
    { role := .user, content := "c", lastAccess := 3 }]

/-- The summary of `b` and `a` comes behind `c`, which stood behind `b`. -/
theorem summary_overtaken :
    let w : World 0 :=
      { pcbs := fun _ => { pid := 1, prompt := "", createdAt := 0, contextPages := shuffledPages }
        quota := ⟨1, 1⟩ }
    let run := runs { pager := {}, host := .inert } (.calm ⟨"S", 0, 0, 0⟩) (.client 0)
      (evictSummarize 2 true 200 1) w
    let batch := summaryBatch 2 shuffledPages
    run.1 = .ok 1 ∧ batch.map (·.content) = ["b", "a"] ∧
      ((run.2.pcbs 1).contextPages).map (·.content) = ["c", "[Summary of 2 prior turns]\nS"] ∧
      ∀ first ∈ batch.head?, ¬TakesPlace shuffledPages batch first := by
  decide +kernel

/-- **When a summary takes the place of what it summarizes.**  Whenever `evict` has made its
call and returned, the summary stands among the surviving pages at `summaryPlace`; it
stands between those that stood before `batch[0]` and those that stood after it exactly if
no page of the batch stood before `batch[0]`, or no page that stood after it survives. -/
theorem takesPlace_iff_noneOvertaken {n : ℕ} (cfg : KernelConfig) (out : Outside) (t : Tid n)
    (p : Pid) (w : World n) (batchSize : ℤ) (metered : Bool) (maxSummaryTokens : ℤ) {freed : ℤ}
    {w' : World n}
    (hrun : runs cfg out t (evictSummarize batchSize metered maxSummaryTokens p) w = (.ok freed, w'))
    (hcalled : w'.summaries = w.summaries + 1) :
    let pages := (w.pcbs p).contextPages
    let batch := summaryBatch batchSize pages
    ∃ first s, batch.head? = some first ∧ IsSummary s ∧
      (w'.pcbs p).contextPages =
        (pages.diff batch).insertIdx (summaryPlace pages batch first) s ∧
      (TakesPlace pages batch first ↔ NoneOvertaken pages batch first) := by
  intro pages batch
  have hidle : ¬(Except.ok (0 : ℤ), w) = ((.ok freed, w') : Except Exn ℤ × World n) := by
    intro h
    cases h
    omega
  rcases lt_or_ge ((summarizable (w.pcbs p).contextPages).length : ℤ) batchSize with hfew | hmany
  · rw [evictSummarize_idle cfg out t p w metered maxSummaryTokens hfew] at hrun
    exact absurd hrun hidle
  · rw [runs_evictSummarize batchSize metered maxSummaryTokens hmany] at hrun
    split at hrun
    · exact absurd hrun hidle
    · obtain ⟨first, rest, s, hbatch, hs, hpages⟩ := summarizeBatch_called hrun
      have hsame : (if metered = true then charged t w else w).pcbs = w.pcbs := by
        split <;> rfl
      rw [hsame] at hpages
      have hmem : first ∈ batch := by
        show first ∈ summaryBatch batchSize (w.pcbs p).contextPages
        rw [hbatch]
        exact List.mem_cons_self
      refine ⟨first, s, ?_, hs, hpages, takesPlace_iff (mem_of_mem_summaryBatch hmem) hmem⟩
      show (summaryBatch batchSize (w.pcbs p).contextPages).head? = some first
      rw [hbatch]
      rfl

/-- Two pages in the order of their last access: the summary stands in front of the
third. -/
theorem takesPlace_iff_noneOvertaken_in_order :
    let pages : List ContextPage :=
      [{ role := .user, content := "a", lastAccess := 1 },
        { role := .assistant, content := "b", lastAccess := 2 },
        { role := .user, content := "c", lastAccess := 3 }]
    ∃ first, (summaryBatch 2 pages).head? = some first ∧
      TakesPlace pages (summaryBatch 2 pages) first := by
  intro pages
  let w : World 0 :=
    { pcbs := fun _ => { pid := 1, prompt := "", createdAt := 0, contextPages := pages }
      quota := ⟨1, 1⟩ }
  have hanswer : (runs { pager := {}, host := .inert } (.calm ⟨"S", 0, 0, 0⟩) (.client 0)
      (evictSummarize 2 true 200 1) w).1 = .ok 1 := by decide +kernel
  obtain ⟨first, s, hfirst, -, -, hiff⟩ :=
    takesPlace_iff_noneOvertaken { pager := {}, host := .inert } (.calm ⟨"S", 0, 0, 0⟩)
      (.client 0) 1 w 2 true 200 (Prod.ext hanswer rfl) (by decide +kernel)
  have hnone : ∀ first ∈ (summaryBatch 2 pages).head?,
      NoneOvertaken pages (summaryBatch 2 pages) first := by decide +kernel
  exact ⟨first, hfirst, hiff.2 (hnone first hfirst)⟩

end Gcos.Memory
