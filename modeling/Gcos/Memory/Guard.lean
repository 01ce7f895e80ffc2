import Gcos.Memory.Replacement

/-!
# The guard of the pager

`ContextPager.assemble` applies its policies until the context fits or nothing more can be
freed, and at most sixteen times.  The guard is there to stop a policy that claims to free
pages and does not; but LRU frees one page at a time, so it also stops policies that do.
-/

namespace Gcos.Memory

open Lib World

variable {n : ℕ}

/-! ### Evictions one after another -/

section

variable (cfg : KernelConfig) (out : Outside) (t : Tid n) (p : Pid)

/-- The policy frees something when it is applied to the pages as they are. -/
def Frees (w : World n) (policy : Policy) : Prop :=
  ∃ freed, 0 < freed ∧ (runs cfg out t (evict p policy) w).1 = .ok freed

/-- The context fits, or no policy of the stack frees anything. -/
def Settled (policies : List Policy) (effectiveBudget : ℤ) (w : World n) : Prop :=
  contextSize (w.pcbs p).contextPages ≤ effectiveBudget ∨
    ∀ policy ∈ policies, ¬Frees cfg out t p w policy

/-- The first policy of the stack that frees something is applied. -/
inductive Evicts : List Policy → World n → World n → Prop
  | here {policy : Policy} {rest : List Policy} {w w' : World n} {freed : ℤ}
      (hrun : runs cfg out t (evict p policy) w = (.ok freed, w')) (hfreed : 0 < freed) :
      Evicts (policy :: rest) w w'
  | later {policy : Policy} {rest : List Policy} {w w₁ w' : World n} {freed : ℤ}
      (hrun : runs cfg out t (evict p policy) w = (.ok freed, w₁)) (hfreed : freed ≤ 0)
      (hrest : Evicts rest w₁ w') : Evicts (policy :: rest) w w'

/-- A number of evictions, one after another. -/
inductive Evictions (policies : List Policy) : ℕ → World n → World n → Prop
  | none {w : World n} : Evictions policies 0 w w
  | more {k : ℕ} {w w₁ w' : World n} (hfirst : Evicts cfg out t p policies w w₁)
      (hrest : Evictions policies k w₁ w') : Evictions policies (k + 1) w w'

/-- The context settles after at most `limit` evictions. -/
def SettlesWithin (policies : List Policy) (effectiveBudget : ℤ) (limit : ℕ) (w : World n) : Prop :=
  ∃ k ≤ limit, ∃ w', Evictions cfg out t p policies k w w' ∧
    Settled cfg out t p policies effectiveBudget w'

end

/-! ### When a policy frees something -/

/-- What lets a policy free something: there are enough pages, and the unit, the call or the
file that it needs. -/
def CanFree (out : Outside) (p : Pid) (w : World n) : Policy → Prop
  | .lru minKeep =>
    minKeep < ((nonPinned (w.pcbs p).contextPages).length : ℤ) ∧
      nonPinned (w.pcbs p).contextPages ≠ []
  | .summarize batchSize metered _ =>
    batchSize ≤ ((summarizable (w.pcbs p).contextPages).length : ℤ) ∧
      ¬(metered = true ∧ w.quota.remaining < 1) ∧ (out.chat w.chats).isOk = true
  | .swap batchSize minKeep =>
    minKeep < ((nonPinned (w.pcbs p).contextPages).length : ℤ) ∧
      (sliceTo (nonPinned (w.pcbs p).contextPages) batchSize).length ≠ 0 ∧
      out.swapWrite w.swaps = none

/-- The policy has nothing to do, whatever a call or a file would bring. -/
def Rests (p : Pid) (w : World n) : Policy → Prop
  | .lru minKeep => ((nonPinned (w.pcbs p).contextPages).length : ℤ) ≤ minKeep
  | .summarize batchSize metered _ =>
    ((summarizable (w.pcbs p).contextPages).length : ℤ) < batchSize ∨
      metered = true ∧ w.quota.remaining < 1
  | .swap batchSize minKeep =>
    ((nonPinned (w.pcbs p).contextPages).length : ℤ) ≤ minKeep ∨
      (sliceTo (nonPinned (w.pcbs p).contextPages) batchSize).length = 0

/-- The parameter with which a summary replaces more than it adds. -/
def Sensible : Policy → Prop
  | .summarize batchSize _ _ => 2 ≤ batchSize
  | _ => True

/-- A policy that frees nothing leaves all that decides about the others, except that a
file without pages may have been written. -/
structure Unmoved (out : Outside) (w w' : World n) : Prop where
  pcbs : w'.pcbs = w.pcbs
  quota : w'.quota = w.quota
  chats : w'.chats = w.chats
  swaps : w'.swaps = w.swaps ∨ out.swapWrite w.swaps = none

lemma Rests.not_canFree {out : Outside} {p : Pid} {w : World n} {policy : Policy}
    (h : Rests p w policy) : ¬CanFree out p w policy := by
  cases policy with
  | lru minKeep => exact fun hfree => not_lt.2 h hfree.1
  | summarize batchSize metered maxSummaryTokens =>
    rintro ⟨hmany, hpaid, -⟩
    rcases h with hfew | hlow
    · exact not_lt.2 hmany hfew
    · exact hpaid hlow
  | swap batchSize minKeep =>
    rintro ⟨hmany, hbatch, -⟩
    rcases h with hfew | hnone
    · exact not_lt.2 hfew hmany
    · exact hbatch hnone

lemma length_sliceTo_oldestFirst (pages : List ContextPage) (k : ℤ) :
    (sliceTo (oldestFirst pages) k).length = (sliceTo pages k).length := by
  have hlen : (oldestFirst pages).length = pages.length := List.length_insertionSort _ _
  unfold sliceTo
  split <;> simp [hlen]

/-- The three ways in which the application of a policy ends. -/
inductive Does (out : Outside) (p : Pid) (w : World n) (policy : Policy) :
    Except Exn ℤ × World n → Prop
  | frees {freed : ℤ} {w' : World n} (h : CanFree out p w policy) (hfreed : 0 < freed) :
      Does out p w policy (.ok freed, w')
  | rests {w' : World n} (h : Rests p w policy) (hsame : Unmoved out w w') :
      Does out p w policy (.ok 0, w')
  | raises {e : Exn} {w' : World n} (h : ¬CanFree out p w policy) :
      Does out p w policy (.error e, w')

section

variable {cfg : KernelConfig} {out : Outside} {t : Tid n} {p : Pid} {w : World n}

lemma does_evictLru (minKeep : ℤ) :
    Does out p w (.lru minKeep) (runs cfg out t (evictLru minKeep p) w) := by
  rcases le_or_gt ((nonPinned (w.pcbs p).contextPages).length : ℤ) minKeep with hfew | hmany
  · rw [evictLru_floor cfg out t p w hfew]
    exact .rests hfew ⟨rfl, rfl, rfl, .inl rfl⟩
  · have hread : ∀ look, (World.exec cfg out t (.readPcb p look) w) = (w.pcbs p, w) := fun _ => rfl
    simp only [evictLru, Prog.perform_bind, runs_op, hread, if_neg (not_le.2 hmany)]
    cases hmin : (nonPinned (w.pcbs p).contextPages).argmin (·.lastAccess) with
    | none =>
      have hempty := List.argmin_eq_none.1 hmin
      exact .raises fun h => h.2 hempty
    | some victim =>
      exact .frees ⟨hmany, List.ne_nil_of_mem (List.argmin_mem hmin)⟩ one_pos

lemma does_evictSummarize {batchSize : ℤ} (hsize : 2 ≤ batchSize) (metered : Bool)
    (maxSummaryTokens : ℤ) :
    Does out p w (.summarize batchSize metered maxSummaryTokens)
      (runs cfg out t (evictSummarize batchSize metered maxSummaryTokens p) w) := by
  rcases lt_or_ge ((summarizable (w.pcbs p).contextPages).length : ℤ) batchSize with hfew | hmany
  · rw [evictSummarize_idle cfg out t p w metered maxSummaryTokens hfew]
    exact .rests (.inl hfew) ⟨rfl, rfl, rfl, .inl rfl⟩
  · rw [runs_evictSummarize batchSize metered maxSummaryTokens hmany]
    by_cases hlow : metered = true ∧ w.quota.remaining < 1
    · rw [if_pos hlow]
      exact .rests (.inr hlow) ⟨rfl, rfl, rfl, .inl rfl⟩
    · rw [if_neg hlow]
      have hbatch : 0 < (summaryBatch batchSize (w.pcbs p).contextPages).length := by
        rw [summaryBatch, length_sliceTo_oldestFirst, sliceTo, if_pos (by omega), List.length_take]
        omega
      generalize hw₁ : (if metered = true then charged t w else w) = w₁
      have hchats : w₁.chats = w.chats := by rw [← hw₁]; split <;> rfl
      cases hchat : out.chat w₁.chats with
      | error e =>
        obtain ⟨w₂, hrun, -⟩ := runs_summarizeBatch_error cfg out t p batchSize metered
          maxSummaryTokens (summaryBatch batchSize (w.pcbs p).contextPages) hchat
        rw [hrun]
        rw [hchats] at hchat
        refine .raises fun h => ?_
        rw [CanFree, hchat] at h
        exact Bool.noConfusion h.2.2
      | ok r =>
        obtain ⟨first, rest, hcons⟩ := List.exists_cons_of_length_pos hbatch
        obtain ⟨hanswer, -⟩ := runs_summarizeBatch_ok cfg out t p batchSize metered
          maxSummaryTokens first rest hchat
        rw [hcons, ← Prod.mk.eta (p := runs _ _ _ _ _), hanswer]
        rw [hchats] at hchat
        refine .frees ⟨hmany, hlow, ?_⟩ (by omega)
        rw [hchat]
        rfl

lemma does_evictSwap (batchSize minKeep : ℤ) :
    Does out p w (.swap batchSize minKeep) (runs cfg out t (evictSwap batchSize minKeep p) w) := by
  rcases le_or_gt ((nonPinned (w.pcbs p).contextPages).length : ℤ) minKeep with hfew | hmany
  · rw [evictSwap_floor cfg out t p w batchSize hfew]
    exact .rests (.inl hfew) ⟨rfl, rfl, rfl, .inl rfl⟩
  · cases hwrite : out.swapWrite w.swaps with
    | some failure =>
      have hbusy : ¬CanFree out p w (.swap batchSize minKeep) := by
        rintro ⟨-, -, hnone⟩
        rw [hwrite] at hnone
        cases hnone
      obtain ⟨e, opened⟩ := failure
      obtain ⟨w', hfail, -⟩ := runs_evictSwap_error cfg out t p batchSize hmany hwrite
      rw [hfail]
      exact .raises hbusy
    | none =>
      have hswap : swapBatch batchSize minKeep (w.pcbs p).contextPages =
          some (sliceTo (oldestFirst (nonPinned (w.pcbs p).contextPages)) batchSize) :=
        if_neg (not_le.2 hmany)
      rw [runs_evictSwap cfg out t p batchSize minKeep hwrite, hswap]
      have hlen := length_sliceTo_oldestFirst (nonPinned (w.pcbs p).contextPages) batchSize
      rcases Nat.eq_zero_or_pos
        (sliceTo (oldestFirst (nonPinned (w.pcbs p).contextPages)) batchSize).length
        with hnone | hsome
      · simp only [hnone]
        refine .rests (.inr (hlen ▸ hnone)) ⟨?_, rfl, rfl, .inr hwrite⟩
        simp [swappedOut, List.length_eq_zero_iff.1 hnone]
      · refine .frees ⟨hmany, ?_, hwrite⟩ (by exact_mod_cast hsome)
        omega

variable (cfg out t p w) in
/-- **What one policy does**: it frees something, or rests and answers 0, or raises. -/
lemma does_evict {policy : Policy} (hsensible : Sensible policy) :
    Does out p w policy (runs cfg out t (evict p policy) w) := by
  cases policy with
  | lru minKeep => exact does_evictLru minKeep
  | summarize batchSize metered maxSummaryTokens =>
    exact does_evictSummarize hsensible metered maxSummaryTokens
  | swap batchSize minKeep => exact does_evictSwap batchSize minKeep

variable (cfg out t p w) in
lemma frees_iff_canFree {policy : Policy} (hsensible : Sensible policy) :
    Frees cfg out t p w policy ↔ CanFree out p w policy := by
  have hdoes := does_evict cfg out t p w hsensible
  unfold Frees
  generalize runs cfg out t (evict p policy) w = run at hdoes
  cases hdoes with
  | frees h hfreed => exact iff_of_true ⟨_, hfreed, rfl⟩ h
  | rests h hsame =>
    refine iff_of_false ?_ h.not_canFree
    rintro ⟨freed, hfreed, hrun⟩
    cases hrun
    exact lt_irrefl _ hfreed
  | raises h =>
    refine iff_of_false ?_ h
    rintro ⟨freed, -, hrun⟩
    cases hrun

/-! ### One round -/

lemma Unmoved.refl (w : World n) : Unmoved out w w := ⟨rfl, rfl, rfl, .inl rfl⟩

lemma Unmoved.trans {w₁ w₂ : World n} (h : Unmoved out w w₁) (h' : Unmoved out w₁ w₂) :
    Unmoved out w w₂ := by
  refine ⟨h'.pcbs.trans h.pcbs, h'.quota.trans h.quota, h'.chats.trans h.chats, ?_⟩
  rcases h.swaps with hsame | hnone
  · rw [← hsame]
    exact h'.swaps
  · exact .inr hnone

lemma Unmoved.rests_iff {w₁ : World n} (h : Unmoved out w w₁) (policy : Policy) :
    Rests p w₁ policy ↔ Rests p w policy := by
  cases policy <;> simp only [Rests, h.pcbs, h.quota]

lemma Unmoved.canFree {w₁ : World n} (h : Unmoved out w w₁) {policy : Policy}
    (hfree : CanFree out p w₁ policy) : CanFree out p w policy := by
  cases policy with
  | lru minKeep => simpa only [CanFree, h.pcbs] using hfree
  | summarize batchSize metered maxSummaryTokens =>
    simpa only [CanFree, h.pcbs, h.quota, h.chats] using hfree
  | swap batchSize minKeep =>
    obtain ⟨hmany, hbatch, hwrite⟩ := hfree
    rw [h.pcbs] at hmany hbatch
    refine ⟨hmany, hbatch, ?_⟩
    rcases h.swaps with hsame | hnone
    · rwa [hsame] at hwrite
    · exact hnone

/-- An eviction needs a policy that can free something. -/
lemma Evicts.canFree {policies : List Policy} {w' : World n} (h : Evicts cfg out t p policies w w')
    (hsensible : ∀ policy ∈ policies, Sensible policy) :
    ∃ policy ∈ policies, CanFree out p w policy := by
  induction h with
  | @here policy rest w w' freed hrun hfreed =>
    have hpolicy := hsensible policy List.mem_cons_self
    refine ⟨policy, List.mem_cons_self, (frees_iff_canFree cfg out t p w hpolicy).1 ?_⟩
    exact ⟨freed, hfreed, congrArg Prod.fst hrun⟩
  | @later policy rest w w₁ w' freed hrun hfreed hrest ih =>
    obtain ⟨other, hmem, hfree⟩ := ih fun q hq => hsensible q (List.mem_cons_of_mem _ hq)
    have hdoes := does_evict cfg out t p w (hsensible policy List.mem_cons_self)
    rw [hrun] at hdoes
    cases hdoes with
    | frees h hpos => omega
    | rests h hsame => exact ⟨other, List.mem_cons_of_mem _ hmem, hsame.canFree hfree⟩

/-- The round of the loop goes as the eviction does. -/
lemma Evicts.runs_tryPolicies {policies : List Policy} {w' : World n}
    (h : Evicts cfg out t p policies w w') (asked : ℤ) :
    ∃ freed, 0 < freed ∧ runs cfg out t (tryPolicies p policies asked) w = (.ok freed, w') := by
  induction h generalizing asked with
  | @here policy rest w w' freed hrun hfreed =>
    refine ⟨freed, hfreed, ?_⟩
    simp only [tryPolicies, runs_bind, hrun, if_pos hfreed]
    rfl
  | @later policy rest w w₁ w' freed hrun hfreed hrest ih =>
    obtain ⟨freed', hpos, hround⟩ := ih freed
    refine ⟨freed', hpos, ?_⟩
    simpa only [tryPolicies, runs_bind, hrun, if_neg (not_lt.2 hfreed)] using hround

lemma Evicts.unique {policies : List Policy} {w₁ w₂ : World n}
    (h : Evicts cfg out t p policies w w₁) (h' : Evicts cfg out t p policies w w₂) : w₁ = w₂ := by
  obtain ⟨freed, -, hround⟩ := h.runs_tryPolicies 0
  obtain ⟨freed', -, hround'⟩ := h'.runs_tryPolicies 0
  rw [hround] at hround'
  exact congrArg Prod.snd hround'

/-- A round that returns is an eviction, or all policies rest. -/
lemma tryPolicies_cases {policies : List Policy} {freed : ℤ} {w' : World n}
    (hsensible : ∀ policy ∈ policies, Sensible policy)
    (hround : runs cfg out t (tryPolicies p policies 0) w = (.ok freed, w')) :
    0 < freed ∧ Evicts cfg out t p policies w w' ∨
      freed = 0 ∧ (∀ policy ∈ policies, Rests p w policy) ∧ Unmoved out w w' := by
  induction policies generalizing w with
  | nil =>
    cases hround
    exact .inr ⟨rfl, by simp, .refl _⟩
  | cons policy rest ih =>
    have hdoes := does_evict cfg out t p w (hsensible policy List.mem_cons_self)
    simp only [tryPolicies, runs_bind] at hround
    generalize hrun : runs cfg out t (evict p policy) w = run at hdoes hround
    cases hdoes with
    | @frees freed₁ w₁ h hfreed =>
      simp only [if_pos hfreed] at hround
      cases hround
      exact .inl ⟨hfreed, .here hrun hfreed⟩
    | @rests w₁ h hsame =>
      rcases ih (fun q hq => hsensible q (List.mem_cons_of_mem _ hq)) hround with
        ⟨hpos, hevicts⟩ | ⟨hzero, hrests, hsame'⟩
      · exact .inl ⟨hpos, .later hrun le_rfl hevicts⟩
      · refine .inr ⟨hzero, ?_, hsame.trans hsame'⟩
        intro q hq
        rcases List.mem_cons.1 hq with rfl | hq
        · exact h
        · exact (hsame.rests_iff q).1 (hrests q hq)
    | raises h => cases hround

/-! ### The loop -/

lemma settled_iff {policies : List Policy} {effectiveBudget : ℤ}
    (hsensible : ∀ policy ∈ policies, Sensible policy) :
    Settled cfg out t p policies effectiveBudget w ↔
      contextSize (w.pcbs p).contextPages ≤ effectiveBudget ∨
        ∀ policy ∈ policies, ¬CanFree out p w policy := by
  refine or_congr Iff.rfl (forall_congr' fun policy => forall_congr' fun hmem => ?_)
  rw [frees_iff_canFree cfg out t p w (hsensible policy hmem)]

/-- The loop with a guard that is left. -/
lemma runs_makeRoom_succ (policies : List Policy) (effectiveBudget : ℤ) (guard : ℕ) :
    runs cfg out t (makeRoom policies p effectiveBudget (guard + 1)) w =
      if effectiveBudget < contextSize (w.pcbs p).contextPages then
        match runs cfg out t (tryPolicies p policies 0) w with
        | (.error e, w₁) => (.error e, w₁)
        | (.ok freed, w₁) =>
          if freed = 0 then (.ok (), w₁)
          else runs cfg out t (makeRoom policies p effectiveBudget guard) w₁
      else (.ok (), w) := by
  have hread : ∀ look, World.exec cfg out t (.readPcb p look) w = (w.pcbs p, w) := fun _ => rfl
  simp only [makeRoom, Prog.perform_bind, runs_op, hread]
  split
  · rw [runs_bind]
    rcases runs cfg out t (tryPolicies p policies 0) w with ⟨_ | freed, w₁⟩
    · rfl
    · simp only
      split <;> rfl
  · rfl

/-- The ways in which the loop goes on. -/
lemma makeRoom_cases {policies : List Policy} {effectiveBudget : ℤ} {guard : ℕ} {w' : World n}
    (hsensible : ∀ policy ∈ policies, Sensible policy)
    (hrun : runs cfg out t (makeRoom policies p effectiveBudget (guard + 1)) w = (.ok (), w')) :
    contextSize (w.pcbs p).contextPages ≤ effectiveBudget ∧ w' = w ∨
      (∀ policy ∈ policies, Rests p w policy) ∧ Unmoved out w w' ∨
      effectiveBudget < contextSize (w.pcbs p).contextPages ∧
        ∃ w₁, Evicts cfg out t p policies w w₁ ∧
          runs cfg out t (makeRoom policies p effectiveBudget guard) w₁ = (.ok (), w') := by
  rw [runs_makeRoom_succ] at hrun
  split at hrun
  · next hover =>
    generalize hround : runs cfg out t (tryPolicies p policies 0) w = round at hrun
    obtain ⟨e | freed, w₁⟩ := round
    · cases hrun
    · rcases tryPolicies_cases hsensible hround with ⟨hpos, hevicts⟩ | ⟨rfl, hrests, hsame⟩
      · simp only [if_neg hpos.ne'] at hrun
        exact .inr (.inr ⟨hover, w₁, hevicts, hrun⟩)
      · cases hrun
        exact .inr (.inl ⟨hrests, hsame⟩)
  · next hfits =>
    cases hrun
    exact .inl ⟨not_lt.1 hfits, rfl⟩

/-- Where the loop ends settled, few evictions were enough. -/
lemma settlesWithin_of_settled {policies : List Policy} {effectiveBudget : ℤ} {guard : ℕ}
    {w' : World n} (hsensible : ∀ policy ∈ policies, Sensible policy)
    (hrun : runs cfg out t (makeRoom policies p effectiveBudget guard) w = (.ok (), w'))
    (hend : Settled cfg out t p policies effectiveBudget w') :
    SettlesWithin cfg out t p policies effectiveBudget guard w := by
  -- by induction on the guard: every round is an eviction
  induction guard generalizing w with
  | zero =>
    cases hrun
    exact ⟨0, le_rfl, w', .none, hend⟩
  | succ guard ih =>
    rcases makeRoom_cases hsensible hrun with ⟨hfits, -⟩ | ⟨hrests, -⟩ | ⟨-, w₁, hevicts, hrest⟩
    · exact ⟨0, Nat.zero_le _, w, .none, .inl hfits⟩
    · have hstuck : Settled cfg out t p policies effectiveBudget w :=
        (settled_iff hsensible).2 (.inr fun policy hmem => (hrests policy hmem).not_canFree)
      exact ⟨0, Nat.zero_le _, w, .none, hstuck⟩
    · obtain ⟨k, hk, w₂, hmore, hsettled⟩ := ih hrest
      exact ⟨k + 1, Nat.succ_le_succ hk, w₂, .more hevicts hmore, hsettled⟩

/-- Where few evictions are enough, the loop ends settled. -/
lemma settled_of_settlesWithin {policies : List Policy} {effectiveBudget : ℤ} {guard : ℕ}
    {w' : World n} (hsensible : ∀ policy ∈ policies, Sensible policy)
    (hrun : runs cfg out t (makeRoom policies p effectiveBudget guard) w = (.ok (), w'))
    (hfew : SettlesWithin cfg out t p policies effectiveBudget guard w) :
    Settled cfg out t p policies effectiveBudget w' := by
  induction guard generalizing w with
  | zero =>
    obtain ⟨k, hk, w₂, hmore, hsettled⟩ := hfew
    obtain rfl : k = 0 := Nat.le_zero.1 hk
    cases hmore
    cases hrun
    exact hsettled
  | succ guard ih =>
    rcases makeRoom_cases hsensible hrun with
      ⟨hfits, rfl⟩ | ⟨hrests, hsame⟩ | ⟨hover, w₁, hevicts, hrest⟩
    · exact .inl hfits
    · refine (settled_iff hsensible).2 (.inr fun policy hmem => ?_)
      exact ((hsame.rests_iff policy).2 (hrests policy hmem)).not_canFree
    · refine ih hrest ?_
      obtain ⟨k, hk, w₂, hmore, hsettled⟩ := hfew
      cases hmore with
      | none =>
        -- the policy that evicts could free something
        obtain ⟨policy, hmem, hfree⟩ := hevicts.canFree hsensible
        rcases (settled_iff hsensible).1 hsettled with hfits | hstuck
        · omega
        · exact absurd hfree (hstuck policy hmem)
      | more hfirst hmore =>
        obtain rfl := hevicts.unique hfirst
        exact ⟨_, Nat.le_of_succ_le_succ hk, w₂, hmore, hsettled⟩

/-! ### The last access -/

lemma length_nonPinned_forget (pages : List ContextPage) :
    (nonPinned (pages.map ContextPage.forget)).length = (nonPinned pages).length := by
  rw [nonPinned, List.filter_map, List.length_map]
  rfl

lemma length_summarizable_forget (pages : List ContextPage) :
    (summarizable (pages.map ContextPage.forget)).length = (summarizable pages).length := by
  rw [summarizable, List.filter_map, List.length_map]
  rfl

lemma contextSize_forget (pages : List ContextPage) :
    contextSize (pages.map ContextPage.forget) = contextSize pages := by
  rw [contextSize, List.map_map]
  rfl

lemma length_sliceTo_congr {α : Type} {xs ys : List α} (h : xs.length = ys.length) (k : ℤ) :
    (sliceTo xs k).length = (sliceTo ys k).length := by
  unfold sliceTo
  split <;> simp [h]

/-- The time of the last access has no part in whether something can be freed. -/
lemma canFree_congr {w' : World n}
    (hpages : (w'.pcbs p).contextPages.map ContextPage.forget =
      (w.pcbs p).contextPages.map ContextPage.forget)
    (hquota : w'.quota = w.quota) (hchats : w'.chats = w.chats) (hswaps : w'.swaps = w.swaps)
    (policy : Policy) : CanFree out p w' policy ↔ CanFree out p w policy := by
  have hfree : (nonPinned (w'.pcbs p).contextPages).length =
      (nonPinned (w.pcbs p).contextPages).length := by
    rw [← length_nonPinned_forget, hpages, length_nonPinned_forget]
  cases policy with
  | lru minKeep => simp only [CanFree, hfree, ← List.length_pos_iff]
  | summarize batchSize metered maxSummaryTokens =>
    have hcand : (summarizable (w'.pcbs p).contextPages).length =
        (summarizable (w.pcbs p).contextPages).length := by
      rw [← length_summarizable_forget, hpages, length_summarizable_forget]
    simp only [CanFree, hcand, hquota, hchats]
  | swap batchSize minKeep => simp only [CanFree, hfree, length_sliceTo_congr hfree, hswaps]

lemma settled_touched {policies : List Policy} {effectiveBudget : ℤ}
    (hsensible : ∀ policy ∈ policies, Sensible policy) :
    Settled cfg out t p policies effectiveBudget (World.exec cfg out t (.write p .touchPages) w).2 ↔
      Settled cfg out t p policies effectiveBudget w := by
  have hpages : ((World.exec cfg out t (.write p .touchPages) w).2.pcbs p).contextPages.map
      ContextPage.forget = (w.pcbs p).contextPages.map ContextPage.forget := by
    simp only [World.exec, Function.update_self, Write.apply]
    exact map_forget_touched _ _
  have hsize : contextSize ((World.exec cfg out t (.write p .touchPages) w).2.pcbs p).contextPages =
      contextSize (w.pcbs p).contextPages := by
    rw [← contextSize_forget, hpages, contextSize_forget]
  rw [settled_iff hsensible, settled_iff hsensible, hsize]
  refine or_congr Iff.rfl (forall_congr' fun policy => forall_congr' fun _ => ?_)
  rw [canFree_congr hpages rfl rfl rfl]

end

/-- **When the pager evicts until the context fits or cannot.**  Whatever the pages, the
budget, the extra prompt, the behaviour of the client, the quota and the file system, and
for every stack of policies with their parameters: when `assemble` returns, the context fits
the budget that the extra prompt leaves, or every policy would free nothing, exactly if at
most sixteen evictions lead from the pages at the call to pages of which that is true. -/
theorem settled_iff_settlesWithin {n : ℕ} (cfg : KernelConfig) (out : Outside) (t : Tid n) (p : Pid)
    (w : World n) (pager : ContextPager) (extra : Option String)
    (hsensible : ∀ policy ∈ pager.policies, Sensible policy) {messages : List ChatMessage}
    {w' : World n} (hrun : runs cfg out t (assemble pager p extra) w = (.ok messages, w')) :
    let effectiveBudget := pager.budget - estimateTokens (extra.getD "")
    Settled cfg out t p pager.policies effectiveBudget w' ↔
      SettlesWithin cfg out t p pager.policies effectiveBudget 16 w := by
  intro effectiveBudget
  simp only [assemble, runs_bind] at hrun
  generalize hroom : runs cfg out t (makeRoom pager.policies p effectiveBudget 16) w = room at hrun
  obtain ⟨e | u, w₁⟩ := room
  · cases hrun
  · have hend : w' = (World.exec cfg out t (.write p .touchPages) w₁).2 :=
      (congrArg Prod.snd hrun).symm
    rw [hend, settled_touched hsensible]
    constructor
    · exact settlesWithin_of_settled hsensible hroom
    · exact settled_of_settlesWithin hsensible hroom

/-- An agent with `k` pages of one token each, which it accessed one after the other. -/
def shortTurns (k : ℕ) : World 0 where
  pcbs := fun _ =>
    { pid := 1, prompt := "", createdAt := 0
      contextPages := (List.range k).map fun i =>
        { role := .user, content := "x", tokens := 1, lastAccess := i } }
  quota := ⟨1, 1⟩

/-- Three turns, room for two, and LRU: one eviction is enough. -/
theorem settled_iff_settlesWithin_three :
    Settled { pager := {}, host := .inert } (.calm ⟨"", 0, 0, 0⟩) (.client 0) 1 [.lru 1] 2
      (runs { pager := {}, host := .inert } (.calm ⟨"", 0, 0, 0⟩) (.client 0)
        (assemble ⟨2, [.lru 1]⟩ 1 none) (shortTurns 3)).2 := by
  obtain ⟨messages, hanswer⟩ : ∃ messages, (runs { pager := {}, host := .inert }
      (.calm ⟨"", 0, 0, 0⟩) (.client 0) (assemble ⟨2, [.lru 1]⟩ 1 none) (shortTurns 3)).1 =
        .ok messages := ⟨_, rfl⟩
  refine (settled_iff_settlesWithin { pager := {}, host := .inert } (.calm ⟨"", 0, 0, 0⟩)
    (.client 0) 1 (shortTurns 3) ⟨2, [.lru 1]⟩ none ?_ (Prod.ext hanswer rfl)).2 ?_
  · intro policy hmem
    rw [List.mem_singleton.1 hmem]
    trivial
  · have hfirst : (runs { pager := {}, host := .inert } (.calm ⟨"", 0, 0, 0⟩) (.client 0)
        (evict 1 (.lru 1)) (shortTurns 3)).1 = .ok 1 := by decide +kernel
    refine ⟨1, by decide, _, .more (.here (Prod.ext hfirst rfl) one_pos) .none, .inl ?_⟩
    decide +kernel

/-- Nineteen turns and no room: the guard stops the loop with three pages left, and LRU would
free a fourth. -/
theorem guard_stops_lru :
    let run := runs { pager := {}, host := .inert } (.calm ⟨"", 0, 0, 0⟩) (.client 0)
      (assemble ⟨0, defaultPolicies false⟩ 1 none) (shortTurns 19)
    run.1.isOk = true ∧ contextSize (run.2.pcbs 1).contextPages = 3 ∧
      ¬Settled { pager := {}, host := .inert } (.calm ⟨"", 0, 0, 0⟩) (.client 0) 1
        (defaultPolicies false) 0 run.2 := by
  intro run
  have hsize : contextSize (run.2.pcbs 1).contextPages = 3 := by decide +kernel
  have hfrees : (runs { pager := {}, host := .inert } (.calm ⟨"", 0, 0, 0⟩) (.client 0)
      (evict 1 (.lru 2)) run.2).1 = .ok 1 := by decide +kernel
  refine ⟨by decide +kernel, hsize, ?_⟩
  rintro (hfits | hstuck)
  · rw [hsize] at hfits
    omega
  · exact hstuck (.lru 2) List.mem_cons_self ⟨1, one_pos, hfrees⟩

end Gcos.Memory
