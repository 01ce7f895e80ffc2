import Gcos.Lib.Ensures
import Gcos.Memory.Replacement

/-!
# The unit of a summary

`SummarizeEvictionPolicy.evict` takes a unit of the quota, gets hold of a client, makes its
call and replaces the batch.  A call that raises gives the unit back.  Whatever else raises
in between does not: the factory of the client, the constructor of `SolarClient`, and the
look at `batch[0]` when there is no batch.

In `Gcos.Memory.evictSummarize` the worker's client is at hand.  Here the policy may have to
make one.
-/

namespace Gcos.Memory

open Lib World

/-- The ways to a client of one's own. -/
inductive ClientOp : Type → Type
  /-- `self.client_factory()`; the answer says whether it is a client or `None`. -/
  | factory : ClientOp (Except Exn Bool)
  /-- `SolarClient()`. -/
  | solarClient : ClientOp (Except Exn Unit)

/-- The operations of an eviction that may make a client. -/
abbrev EvictOp (β : Type) : Type := KOp β ⊕ ClientOp β

/-- What the factory and the constructor do. -/
structure Makers where
  factory : Except Exn Bool
  solarClient : Except Exn Unit

variable {n : ℕ}

/-- What thread `t` is answered, and what becomes of the world. -/
def EvictOp.exec (cfg : KernelConfig) (out : Outside) (makers : Makers) :
    Prog.Handler EvictOp (Tid n) (World n)
  | _, t, .inl o, w => World.exec cfg out t o w
  | _, _, .inr .factory, w => (makers.factory, w)
  | _, _, .inr .solarClient, w => (makers.solarClient, w)

/-- `c = client or (self.client_factory() if self.client_factory else None)`, and
`SolarClient()` if that is `None`. -/
def obtainClient (given hasFactory : Bool) : Prog EvictOp (Except Exn Unit) := do
  if given then return .ok ()
  else if hasFactory then
    match ← .perform (.inr .factory) with
    | .error e => return .error e
    | .ok made => if made then return .ok () else .perform (.inr .solarClient)
  else .perform (.inr .solarClient)

/-- `SummarizeEvictionPolicy.evict` from the client on. -/
def summarizeWith (given hasFactory : Bool) (batchSize : ℤ) (metered : Bool)
    (maxSummaryTokens : ℤ) (p : Pid) (batch : List ContextPage) :
    Prog EvictOp (Except Exn ℤ) := do
  match ← obtainClient given hasFactory with
  | .error e => return .error e
  | .ok () => (summarizeBatch batchSize metered maxSummaryTokens p batch).lift Sum.inl

/-- `SummarizeEvictionPolicy.evict` with any `client` argument and any `client_factory`. -/
def evictWith (given hasFactory : Bool) (batchSize : ℤ) (metered : Bool) (maxSummaryTokens : ℤ)
    (p : Pid) : Prog EvictOp (Except Exn ℤ) := do
  let pcb ← .perform (.inl (.readPcb p .fields))
  if ((summarizable pcb.contextPages).length : ℤ) < batchSize then return .ok 0
  else
    let batch := sliceTo (oldestFirst (summarizable pcb.contextPages)) batchSize
    if metered then do
      if ← .perform (.inl .acquire) then
        summarizeWith given hasFactory batchSize metered maxSummaryTokens p batch
      else return .ok 0
    else summarizeWith given hasFactory batchSize metered maxSummaryTokens p batch

/-! ### What a client costs -/

/-- A client is at hand or can be made. -/
def Makers.obtains (makers : Makers) (given hasFactory : Bool) : Bool :=
  given ||
    if hasFactory then
      match makers.factory with
      | .error _ => false
      | .ok made => made || makers.solarClient.isOk
    else makers.solarClient.isOk

section

variable {cfg : KernelConfig} {out : Outside} {makers : Makers} {t : Tid n} {p : Pid}

/-- A program of the kernel runs as it did. -/
lemma alone_lift_inl {α : Type} (prog : Prog KOp α) (w : World n) :
    (prog.lift Sum.inl : Prog EvictOp α).alone (EvictOp.exec cfg out makers) t w =
      runs cfg out t prog w := by
  refine Prog.alone_lift ?_ prog w
  exact fun _ _ => rfl

variable (cfg out makers t) in
lemma alone_obtainClient (given hasFactory : Bool) (w : World n) :
    ((obtainClient given hasFactory).alone (EvictOp.exec cfg out makers) t w).2 = w ∧
      ((obtainClient given hasFactory).alone (EvictOp.exec cfg out makers) t w).1.isOk =
        makers.obtains given hasFactory := by
  cases given with
  | true => exact ⟨rfl, rfl⟩
  | false =>
    cases hasFactory with
    | false => exact ⟨rfl, rfl⟩
    | true =>
      have hstep : (obtainClient false true).alone (EvictOp.exec cfg out makers) t w =
          Prog.alone (EvictOp.exec cfg out makers) t (match makers.factory with
            | .error e => pure (.error e)
            | .ok made => if made then pure (.ok ()) else .perform (.inr .solarClient)) w := rfl
      rw [hstep, Makers.obtains]
      cases makers.factory with
      | error e => exact ⟨rfl, rfl⟩
      | ok made => cases made <;> exact ⟨rfl, rfl⟩

variable (cfg out) in
/-- With a client the batch is summarized. -/
lemma alone_summarizeWith {given hasFactory : Bool} (batchSize : ℤ) (metered : Bool)
    (maxSummaryTokens : ℤ) (batch : List ContextPage) (w : World n)
    (h : makers.obtains given hasFactory = true) :
    (summarizeWith given hasFactory batchSize metered maxSummaryTokens p batch).alone
        (EvictOp.exec cfg out makers) t w =
      runs cfg out t (summarizeBatch batchSize metered maxSummaryTokens p batch) w := by
  obtain ⟨hworld, hanswer⟩ := alone_obtainClient cfg out makers t given hasFactory w
  rw [h] at hanswer
  show Prog.alone _ t (obtainClient given hasFactory >>= _) w = _
  rw [Prog.alone_bind, hworld]
  cases hclient : ((obtainClient given hasFactory).alone (EvictOp.exec cfg out makers) t w).1 with
  | error e =>
    rw [hclient] at hanswer
    cases hanswer
  | ok u =>
    exact alone_lift_inl _ w

variable (cfg out) in
/-- Without one nothing more happens. -/
lemma alone_summarizeWith_none {given hasFactory : Bool} (batchSize : ℤ) (metered : Bool)
    (maxSummaryTokens : ℤ) (batch : List ContextPage) (w : World n)
    (h : makers.obtains given hasFactory = false) :
    ((summarizeWith given hasFactory batchSize metered maxSummaryTokens p batch).alone
      (EvictOp.exec cfg out makers) t w).2 = w := by
  obtain ⟨hworld, hanswer⟩ := alone_obtainClient cfg out makers t given hasFactory w
  rw [h] at hanswer
  show (Prog.alone _ t (obtainClient given hasFactory >>= _) w).2 = w
  rw [Prog.alone_bind, hworld]
  cases hclient : ((obtainClient given hasFactory).alone (EvictOp.exec cfg out makers) t w).1 with
  | error e => rfl
  | ok u =>
    rw [hclient] at hanswer
    cases hanswer

end

/-! ### Atomic evictions -/

/-- What an eviction from `w` to `w'` should come to: the batch is replaced by one summary,
which costs one unit if the policy was given the quota, or pages and quota are as they
were. -/
def Atomic (batchSize : ℤ) (metered : Bool) (p : Pid) (w w' : World n) : Prop :=
  let pages := (w.pcbs p).contextPages
  let survivors := pages.diff (summaryBatch batchSize pages)
  (∃ i ≤ survivors.length, ∃ s, IsSummary s ∧ (w'.pcbs p).contextPages = survivors.insertIdx i s ∧
      w'.quota.used = w.quota.used + if metered then 1 else 0) ∨
    (w'.pcbs p).contextPages = pages ∧ w'.quota = w.quota

/-- A unit is taken, and then there is no client to make the call with, or the call returns
and there is nothing to replace. -/
def LosesUnit (out : Outside) (makers : Makers) (given hasFactory : Bool) (batchSize : ℤ)
    (metered : Bool) (p : Pid) (w : World n) : Prop :=
  metered = true ∧ 1 ≤ w.quota.remaining ∧
    batchSize ≤ ((summarizable (w.pcbs p).contextPages).length : ℤ) ∧
    (makers.obtains given hasFactory = false ∨
      summaryBatch batchSize (w.pcbs p).contextPages = [] ∧ (out.chat w.chats).isOk = true)

instance (out : Outside) (makers : Makers) (given hasFactory : Bool) (batchSize : ℤ)
    (metered : Bool) (p : Pid) (w : World n) :
    Decidable (LosesUnit out makers given hasFactory batchSize metered p w) :=
  inferInstanceAs (Decidable (_ ∧ _))

lemma summaryBatch_subperm (batchSize : ℤ) (pages : List ContextPage) :
    (summaryBatch batchSize pages).Subperm pages := by
  have hsort : (oldestFirst (summarizable pages)).Subperm pages :=
    (List.perm_insertionSort _ _).subperm.trans List.filter_sublist.subperm
  exact (sliceTo_sublist _ _).subperm.trans hsort

/-- Replacing the batch is visible: there is one summary more than before. -/
lemma ne_of_replaced {batchSize : ℤ} {pages : List ContextPage} {s : ContextPage}
    (hs : IsSummary s) {i : ℕ} (hi : i ≤ (pages.diff (summaryBatch batchSize pages)).length) :
    pages ≠ (pages.diff (summaryBatch batchSize pages)).insertIdx i s := by
  intro h
  have hcount := congrArg (List.countP (·.summarized)) h
  have hbatch : (summaryBatch batchSize pages).countP (·.summarized) = 0 := by
    refine List.countP_eq_zero.2 fun page hpage => ?_
    have hmem := (sliceTo_sublist _ _).subset hpage
    rw [oldestFirst, List.mem_insertionSort] at hmem
    have hsum := List.of_mem_filter hmem
    simp only [Bool.and_eq_true, Bool.not_eq_true'] at hsum
    simp [hsum.1.2]
  have hone : s.summarized = true := by
    obtain ⟨batch, r, now, rfl⟩ := hs
    rfl
  rw [(List.perm_insertIdx s _ hi).countP_eq, List.countP_cons,
    List.countP_diff (summaryBatch_subperm batchSize pages), hbatch, hone] at hcount
  simp at hcount

/-- An eviction that keeps the pages is atomic exactly if it keeps the quota. -/
lemma atomic_of_pages_eq {batchSize : ℤ} {metered : Bool} {p : Pid} {w w' : World n}
    (h : (w'.pcbs p).contextPages = (w.pcbs p).contextPages) :
    Atomic batchSize metered p w w' ↔ w'.quota = w.quota := by
  refine ⟨fun hatomic => ?_, fun hquota => .inr ⟨h, hquota⟩⟩
  rcases hatomic with ⟨i, hi, s, hs, hpages, -⟩ | ⟨-, hquota⟩
  · exact absurd (h.symm.trans hpages) (ne_of_replaced hs hi)
  · exact hquota

section

variable (cfg : KernelConfig) (out : Outside) (makers : Makers) (t : Tid n)
  (given hasFactory : Bool)
  (batchSize : ℤ) (metered : Bool) (maxSummaryTokens : ℤ) (p : Pid) (w : World n)

/-- The world after an eviction from `w`, and its answer. -/
def evicted : Except Exn ℤ × World n :=
  (evictWith given hasFactory batchSize metered maxSummaryTokens p).alone
    (EvictOp.exec cfg out makers) t w

variable {cfg out makers t given hasFactory batchSize metered maxSummaryTokens p w}

lemma evicted_few (hfew : ((summarizable (w.pcbs p).contextPages).length : ℤ) < batchSize) :
    evicted cfg out makers t given hasFactory batchSize metered maxSummaryTokens p w = (.ok 0, w) := by
  show Prog.alone (EvictOp.exec cfg out makers) t
    (if ((summarizable (w.pcbs p).contextPages).length : ℤ) < batchSize then _ else _) w = _
  rw [if_pos hfew]
  rfl

/-- The first half of the eviction, as in the pager. -/
lemma evicted_many (hmany : batchSize ≤ ((summarizable (w.pcbs p).contextPages).length : ℤ)) :
    evicted cfg out makers t given hasFactory batchSize metered maxSummaryTokens p w =
      if metered = true ∧ w.quota.remaining < 1 then (.ok 0, w)
      else (summarizeWith given hasFactory batchSize metered maxSummaryTokens p
        (summaryBatch batchSize (w.pcbs p).contextPages)).alone (EvictOp.exec cfg out makers) t
          (if metered = true then charged t w else w) := by
  show Prog.alone (EvictOp.exec cfg out makers) t
    (if ((summarizable (w.pcbs p).contextPages).length : ℤ) < batchSize then _ else _) w = _
  rw [if_neg (by omega)]
  cases metered with
  | false => rfl
  | true =>
    show Prog.alone (EvictOp.exec cfg out makers) t
      (if (World.exec cfg out t .acquire w).1 = true then _ else _)
      (World.exec cfg out t .acquire w).2 = _
    by_cases hlow : w.quota.remaining < 1
    · have hnone : World.exec cfg out t .acquire w = (false, w) := by rw [exec_acquire, if_pos hlow]
      have hskip : true = true ∧ w.quota.remaining < 1 := ⟨rfl, hlow⟩
      rw [hnone, if_pos hskip]
      rfl
    · have hunit : World.exec cfg out t .acquire w = (true, charged t w) := by
        rw [exec_acquire, if_neg hlow]
      have hgo : ¬(true = true ∧ w.quota.remaining < 1) := fun h => hlow h.2
      rw [hunit, if_neg hgo]
      rfl

/-- What was taken is missing as long as it is neither given back nor spent. -/
lemma quota_charged_iff :
    (if metered = true then charged t w else w).quota = w.quota ↔ ¬metered = true := by
  split
  · next hm =>
    refine ⟨fun h => ?_, fun h => absurd hm h⟩
    have hrem : w.quota.remaining - 1 = w.quota.remaining := congrArg Quota.remaining h
    omega
  · next hm => exact ⟨fun _ => hm, fun _ => rfl⟩

/-- A refund gives back exactly what was taken. -/
lemma refund_charged (hquota : w.quota.Reached) : (charged t w).quota.refund 1 = w.quota := by
  have hle := hquota.remaining_le
  show Quota.refund 1 { w.quota with remaining := w.quota.remaining - 1 } = w.quota
  rw [Quota.refund_of_le (by simpa using hle)]
  show Quota.mk w.quota.total (w.quota.remaining - 1 + 1) = w.quota
  rw [sub_add_cancel]

/-- The call and what it leads to, once the unit is taken. -/
lemma atomic_summarizeBatch (hquota : w.quota.Reached) {w' : World n}
    (hw' : w' = (runs cfg out t (summarizeBatch batchSize metered maxSummaryTokens p
      (summaryBatch batchSize (w.pcbs p).contextPages))
        (if metered = true then charged t w else w)).2) :
    Atomic batchSize metered p w w' ↔ ¬(metered = true ∧
      summaryBatch batchSize (w.pcbs p).contextPages = [] ∧ (out.chat w.chats).isOk = true) := by
  generalize hw₁ : (if metered = true then charged t w else w) = w₁ at hw'
  have hpcbs : w₁.pcbs = w.pcbs := by rw [← hw₁]; split <;> rfl
  have hchats : w₁.chats = w.chats := by rw [← hw₁]; split <;> rfl
  cases hchat : out.chat w.chats with
  | error e =>
    obtain ⟨w₂, hrun, hsame, -, hrefund⟩ := runs_summarizeBatch_error cfg out t p batchSize metered
      maxSummaryTokens (summaryBatch batchSize (w.pcbs p).contextPages) (hchats ▸ hchat)
    rw [hrun] at hw'
    have hpages : (w'.pcbs p).contextPages = (w.pcbs p).contextPages := by rw [hw', hsame, hpcbs]
    rw [atomic_of_pages_eq hpages, hw']
    have hback : w₂.quota = w.quota := by
      rw [hrefund, ← hw₁]
      cases metered with
      | false => rfl
      | true => exact refund_charged hquota
    exact iff_of_true hback fun h => Bool.noConfusion h.2.2
  | ok r =>
    have hok := hchats ▸ hchat
    cases hbatch : summaryBatch batchSize (w.pcbs p).contextPages with
    | nil =>
      obtain ⟨e, w₂, hrun, hsame, hkeep⟩ :=
        runs_summarizeBatch_nil cfg out t p batchSize metered maxSummaryTokens hok
      rw [hbatch, hrun] at hw'
      have hpages : (w'.pcbs p).contextPages = (w.pcbs p).contextPages := by rw [hw', hsame, hpcbs]
      rw [atomic_of_pages_eq hpages, hw', hkeep, ← hw₁, quota_charged_iff]
      exact not_congr ⟨fun h => ⟨h, rfl, rfl⟩, fun h => h.1⟩
    | cons first rest =>
      obtain ⟨-, ⟨s, hs, hpages⟩, hkeep, -⟩ :=
        runs_summarizeBatch_ok cfg out t p batchSize metered maxSummaryTokens first rest hok
      rw [hbatch] at hw'
      rw [← hw', hpcbs, ← hbatch] at hpages
      rw [← hw'] at hkeep
      have hused : w₁.quota.used = w.quota.used + if metered then 1 else 0 := by
        rw [← hw₁]
        cases metered with
        | false => exact (add_zero _).symm
        | true =>
          show w.quota.total - (w.quota.remaining - 1) = w.quota.total - w.quota.remaining + 1
          omega
      refine iff_of_true (.inl ⟨_, ?_, s, hs, hpages, hkeep ▸ hused⟩) fun h => ?_
      · exact min_le_right _ _
      · cases h.2.1

end

/-- **When an eviction by summary is atomic.**  From any world whose quota came out of its
constructor and methods, with or without a client, with any factory, whatever factory,
constructor and call do: the batch is replaced by one summary at the price of one unit, or
pages and quota are as they were, exactly unless a unit was taken and there was no client to
make the call with or nothing to replace. -/
theorem atomic_iff_not_losesUnit {n : ℕ} (cfg : KernelConfig) (out : Outside) (makers : Makers)
    (t : Tid n) (given hasFactory : Bool) (batchSize : ℤ) (metered : Bool) (maxSummaryTokens : ℤ)
    (p : Pid) (w : World n) (hquota : w.quota.Reached) :
    Atomic batchSize metered p w
        (evicted cfg out makers t given hasFactory batchSize metered maxSummaryTokens p w).2 ↔
      ¬LosesUnit out makers given hasFactory batchSize metered p w := by
  rcases lt_or_ge ((summarizable (w.pcbs p).contextPages).length : ℤ) batchSize with hfew | hmany
  · rw [evicted_few hfew]
    refine iff_of_true (.inr ⟨rfl, rfl⟩) fun h => ?_
    have := h.2.2.1
    omega
  · rw [evicted_many hmany]
    by_cases hskip : metered = true ∧ w.quota.remaining < 1
    · rw [if_pos hskip]
      refine iff_of_true (.inr ⟨rfl, rfl⟩) fun h => ?_
      have := h.2.1
      omega
    · rw [if_neg hskip]
      have hpaid : metered = true → 1 ≤ w.quota.remaining := fun hm => by
        have := not_and.1 hskip hm
        omega
      cases hobtains : makers.obtains given hasFactory with
      | false =>
        have hworld := alone_summarizeWith_none (p := p) (t := t) cfg out batchSize metered
          maxSummaryTokens (summaryBatch batchSize (w.pcbs p).contextPages)
          (if metered = true then charged t w else w) hobtains
        have hpages : ((if metered = true then charged t w else w).pcbs p).contextPages =
            (w.pcbs p).contextPages := by split <;> rfl
        rw [hworld, atomic_of_pages_eq hpages, quota_charged_iff]
        exact not_congr ⟨fun h => ⟨h, hpaid h, hmany, .inl hobtains⟩, fun h => h.1⟩
      | true =>
        rw [alone_summarizeWith cfg out batchSize metered maxSummaryTokens _ _ hobtains,
          atomic_summarizeBatch hquota rfl]
        refine not_congr ⟨fun h => ⟨h.1, hpaid h.1, hmany, .inr h.2⟩, fun h => ⟨h.1, ?_⟩⟩
        rcases h.2.2.2 with hnone | hempty
        · rw [hobtains] at hnone
          cases hnone
        · exact hempty

/-- Two pages that may be summarized, and one unit. -/
def twoPages : World 0 where
  pcbs := fun _ =>
    { pid := 1, prompt := "", createdAt := 0
      contextPages := [{ role := .user, content := "a", lastAccess := 1 },
        { role := .assistant, content := "b", lastAccess := 2 }] }
  quota := ⟨1, 1⟩

/-- The world after an eviction of both by a policy with a quota and a factory, and no
client at hand. -/
def evictTwo (factory : Except Exn Bool) : Except Exn ℤ × World 0 :=
  evicted { pager := {}, host := .inert } (.calm ⟨"S", 0, 0, 0⟩)
    ⟨factory, .error (.other "RuntimeError" "no key")⟩ (.client 0) false true 2 true 200 1 twoPages

/-- With a client from the factory the eviction is atomic. -/
theorem atomic_iff_not_losesUnit_made : Atomic 2 true 1 twoPages (evictTwo (.ok true)).2 := by
  refine (atomic_iff_not_losesUnit _ _ _ _ _ _ _ _ _ _ twoPages ?_).2 (by decide +kernel)
  exact .ofTotal (rfl : Quota.ofTotal 1 = some ⟨1, 1⟩)

/-- The factory raises: the pages are as they were, and the unit is gone. -/
theorem factory_loses_unit :
    (evictTwo (.error (.other "RuntimeError" "no client"))).2.quota = ⟨1, 0⟩ ∧
      ¬Atomic 2 true 1 twoPages (evictTwo (.error (.other "RuntimeError" "no client"))).2 := by
  have hquota : (evictTwo (.error (.other "RuntimeError" "no client"))).2.quota = ⟨1, 0⟩ := by
    decide +kernel
  have hpages : ((evictTwo (.error (.other "RuntimeError" "no client"))).2.pcbs 1).contextPages =
      (twoPages.pcbs 1).contextPages := by decide +kernel
  refine ⟨hquota, fun h => ?_⟩
  rw [atomic_of_pages_eq hpages, hquota] at h
  exact absurd h (by decide)

end Gcos.Memory
