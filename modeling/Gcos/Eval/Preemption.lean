import Gcos.Pool.RoundRobin
import Gcos.Lib.Text
import Mathlib.Data.List.Chain

/-!
# The convoy, measured

`measure_scheduler_preemption` in `gcos/eval/__init__.py`.  A pool with one worker is run twice
with the same agents, all of which need the same number of steps: under FCFS, and under round
robin.  The measurement compares the longest time that one agent has the worker to itself, and
how long the agents wait for their first step.
-/

namespace Gcos.Eval

open Pool Lib RoundRobin

/-! ### The measurement -/

/-- One pid of `_longest_run`. -/
def runOn (x : ℕ × ℕ × Option Pid) (pid : Pid) : ℕ × ℕ × Option Pid :=
  let cur := if some pid = x.2.2 then x.2.1 + 1 else 1
  (max x.1 cur, cur, some pid)

/-- `_longest_run`. -/
def longestRun (order : List Pid) : ℕ := (order.foldl runOn (0, 0, none)).1

/-- `first_slice.setdefault(pid, idx)`. -/
def noteFirst (firstSlice : List (Pid × ℕ)) (x : Pid × ℕ) : List (Pid × ℕ) :=
  if x.1 ∈ firstSlice.map Prod.fst then firstSlice else firstSlice ++ [x]

/-- `first_slice`: the agents, with the number of steps before their first. -/
def firstSlice (order : List Pid) : List (Pid × ℕ) := order.zipIdx.foldl noteFirst []

/-- `mean_ttf`. -/
def meanTtf (order : List Pid) : ℚ :=
  if firstSlice order = [] then 0
  else (((firstSlice order).map Prod.snd).sum : ℚ) / (firstSlice order).length

/-- What the inner function `run` returns, without the answer of `wait_idle`. -/
structure PreemptionRun where
  order : List Pid
  maxConsecutiveRun : ℕ
  meanTimeToFirstSlice : ℚ
deriving DecidableEq, Repr

/-- The pids from one on. -/
def pids (nAgents : ℕ) : List Pid := (List.range nAgents).map fun i : ℕ => (i : ℤ) + 1

/-- The queue, the table and the quota of `run`, and a runner that has not been called. -/
def shop (nAgents : ℕ) (created : Pid → Time) : Shop 1 (Pid → ℕ) where
  world :=
    { pcbs := fun p =>
        { pid := p, name := s!"a{p}", prompt := "x", createdAt := created p, state := .ready }
      queue := { q := pids nAgents }
      quota := { total := 10000, remaining := 10000 } }
  memory := fun _ => 0

/-- A pool with a scheduler and no message bus. -/
def poolConfig (sched : Scheduler) : KernelConfig :=
  { scheduler := sched, hasBus := false, pager := {}, host := .inert }

/-- The inner function `run`, if the worker has made `turns` turns when it is shut down. -/
def runPool (nAgents stepsEach : ℕ) (created : Pid → Time) (now : Time) (out : Outside) (turns : ℕ)
    (sched : Scheduler) : PreemptionRun :=
  let order := ((shop nAgents created).turns (poolConfig sched) out
    (nStepRunner (fun _ => stepsEach) now) turns).log
  { order := order
    maxConsecutiveRun := longestRun order
    meanTimeToFirstSlice := Text.roundHalfEven (meanTtf order * 100) / 100 }

/-- What `measure_scheduler_preemption` returns. -/
structure PreemptionReport where
  nAgents : ℕ
  stepsEach : ℕ
  rrQuantum : ℕ
  fcfs : PreemptionRun
  rr : PreemptionRun
  rrPreempts : Bool
  rrImprovesFairness : Bool
deriving DecidableEq, Repr

/-- `measure_scheduler_preemption`. -/
def measureSchedulerPreemption (nAgents stepsEach rrQuantum : ℕ) (created : Pid → Time)
    (now : Time) (out : Outside) (turns : ℕ) : PreemptionReport :=
  let run := runPool nAgents stepsEach created now out turns
  let fcfs := run .fcfs
  let rr := run (.rr rrQuantum)
  { nAgents, stepsEach, rrQuantum, fcfs, rr
    rrPreempts := rr.maxConsecutiveRun ≤ rrQuantum && rrQuantum < fcfs.maxConsecutiveRun
    rrImprovesFairness := rr.meanTimeToFirstSlice < fcfs.meanTimeToFirstSlice }

/-! ### Jobs of one length -/

section Schedule

variable {agents : List Pid} {k m : ℕ}

/-- What the slices of jobs of one length have in common. -/
structure Even (agents : List Pid) (c : ℕ) (sl : List (Pid × ℕ)) : Prop where
  first : ∃ rest, sl = agents.map (fun a => (a, c)) ++ rest
  slice : ∀ x ∈ sl, 0 < x.2 ∧ x.2 ≤ c ∧ x.1 ∈ agents
  rotates : 2 ≤ agents.length → sl.IsChain fun x y => x.1 ≠ y.1

lemma head_ne_getLast (hnodup : agents.Nodup) (hlen : 2 ≤ agents.length) {a b : Pid}
    (ha : agents.head? = some a) (hb : agents.getLast? = some b) : b ≠ a := by
  rcases agents with _ | ⟨x, _ | ⟨y, rest⟩⟩
  · cases ha
  · exact absurd hlen (by simp)
  · obtain rfl : x = a := Option.some.inj ha
    rw [List.getLast?_cons_cons] at hb
    rintro rfl
    exact (List.nodup_cons.1 hnodup).1 (List.mem_of_getLast? hb)

lemma isChain_map (hnodup : agents.Nodup) (c : ℕ) :
    (agents.map fun a => (a, c)).IsChain fun x y => x.1 ≠ y.1 := by
  refine List.Pairwise.isChain (List.pairwise_map.2 ?_)
  exact hnodup

/-- **The slices of jobs of one length** go round: everyone has one, and then everyone the
next. -/
lemma even_slices (hnodup : agents.Nodup) (hk : 1 ≤ k) (hm : 1 ≤ m) :
    Even agents (min m k) (slices k (agents.map fun a => (a, m))) := by
  have hmax : max 1 k = k := max_eq_right hk
  induction m using Nat.strong_induction_on with
  | _ m ih =>
    rcases le_or_gt m k with hle | hgt
    · have hself : slices k (agents.map fun a => (a, m)) = agents.map fun a => (a, m) := by
        refine slices_eq_self fun x hx => ?_
        obtain ⟨a, -, rfl⟩ := List.mem_map.1 hx
        rwa [hmax]
      rw [hself, min_eq_left hle]
      refine ⟨⟨[], (List.append_nil _).symm⟩, fun x hx => ?_, fun _ => isChain_map hnodup m⟩
      obtain ⟨a, ha, rfl⟩ := List.mem_map.1 hx
      exact ⟨hm, le_rfl, ha⟩
    · have hround : slices k (agents.map fun a => (a, m)) =
          agents.map (fun a => (a, k)) ++ slices k (agents.map fun a => (a, m - k)) := by
        have hleft : leftover k (agents.map fun a => (a, m)) = agents.map fun a => (a, m - k) := by
          simp only [leftover, List.filterMap_map, Function.comp_def, hmax, if_neg (not_le.2 hgt)]
          exact congrFun List.filterMap_eq_map' agents
        have happend := slices_append k (agents.map fun a => (a, m)) []
        simp only [List.append_nil, List.nil_append, List.map_map, Function.comp_def, hleft, hmax,
          min_eq_right hgt.le] at happend
        exact happend
      have heven := ih (m - k) (by omega) (by omega)
      rw [hround, min_eq_right hgt.le]
      refine ⟨⟨_, rfl⟩, fun x hx => ?_, fun hlen => ?_⟩
      · rcases List.mem_append.1 hx with hx | hx
        · obtain ⟨a, ha, rfl⟩ := List.mem_map.1 hx
          exact ⟨hk, le_rfl, ha⟩
        · obtain ⟨hpos, hle, hmem⟩ := heven.slice x hx
          exact ⟨hpos, hle.trans (min_le_right _ _), hmem⟩
      · refine List.isChain_append.2 ⟨isChain_map hnodup k, heven.rotates hlen, ?_⟩
        intro x hx y hy
        obtain ⟨rest, hrest⟩ := heven.first
        obtain ⟨b, hb, rfl⟩ : ∃ b, agents.getLast? = some b ∧ (b, k) = x := by
          simpa [List.getLast?_map] using hx
        have hhead : ∃ a, agents.head? = some a ∧ (a, min (m - k) k) = y := by
          rw [hrest] at hy
          cases hagents : agents with
          | nil => simp [hagents] at hlen
          | cons a as =>
            rw [hagents] at hy
            exact ⟨a, rfl, Option.some.inj hy⟩
        obtain ⟨a, ha, rfl⟩ := hhead
        exact head_ne_getLast hnodup hlen ha hb

end Schedule

/-! ### The longest run -/

section LongestRun

variable {a : Pid} {sl : List (Pid × ℕ)} {best cur c : ℕ} {prev : Option Pid}

/-- A run that goes on. -/
lemma foldl_runOn_same (k : ℕ) (h : cur ≤ best) :
    (List.replicate k a).foldl runOn (best, cur, some a) = (max best (cur + k), cur + k, some a) := by
  induction k generalizing best cur with
  | zero => simp [h]
  | succ k ih =>
    have hstep : runOn (best, cur, some a) a = (max best (cur + 1), cur + 1, some a) := by
      simp [runOn]
    rw [List.replicate_succ, List.foldl_cons, hstep, ih (le_max_right _ _)]
    have hmax : max (max best (cur + 1)) (cur + 1 + k) = max best (cur + (k + 1)) := by omega
    rw [hmax, add_assoc, add_comm 1 k]

/-- A run that begins. -/
lemma foldl_runOn_new (hc : 0 < c) (h : prev ≠ some a) :
    (List.replicate c a).foldl runOn (best, cur, prev) = (max best c, c, some a) := by
  obtain ⟨k, rfl⟩ := Nat.exists_eq_add_of_le' hc
  have hstep : runOn (best, cur, prev) a = (max best 1, 1, some a) := by
    simp [runOn, h.symm]
  rw [List.replicate_succ, List.foldl_cons, hstep, foldl_runOn_same k (le_max_right _ _)]
  have hmax : max (max best 1) (1 + k) = max best (k + 1) := by omega
  rw [hmax, add_comm 1 k]

/-- Slices that change hands are the runs. -/
lemma foldl_runOn_steps (hpos : ∀ x ∈ sl, 0 < x.2) (hchain : sl.IsChain fun x y => x.1 ≠ y.1)
    (hprev : ∀ x ∈ sl.head?, prev ≠ some x.1) :
    ((steps sl).foldl runOn (best, cur, prev)).1 = (sl.map Prod.snd).foldl max best := by
  induction sl generalizing best cur prev with
  | nil => rfl
  | cons x sl ih =>
    rw [steps_cons, List.foldl_append, foldl_runOn_new (hpos x List.mem_cons_self) (hprev x rfl),
      List.map_cons, List.foldl_cons]
    refine ih (fun y hy => hpos y (List.mem_cons_of_mem _ hy)) hchain.tail fun y hy heq => ?_
    cases sl with
    | nil => cases hy
    | cons z sl =>
      obtain rfl : z = y := Option.some.inj hy
      exact (List.isChain_cons_cons.1 hchain).1 (Option.some.inj heq)

lemma foldl_max_eq {ns : List ℕ} (hle : ∀ n ∈ ns, n ≤ c) (hmem : c ∈ ns) :
    ns.foldl max best = max best c := by
  induction ns generalizing best with
  | nil => cases hmem
  | cons n ns ih =>
    rw [List.foldl_cons]
    by_cases hns : c ∈ ns
    · rw [ih (fun k hk => hle k (List.mem_cons_of_mem _ hk)) hns]
      have hn := hle n List.mem_cons_self
      omega
    · have hnc : n = c := by
        rcases List.mem_cons.1 hmem with h | h
        · exact h.symm
        · exact absurd h hns
      subst hnc
      have hrest : ∀ ks : List ℕ, (∀ k ∈ ks, k ≤ n) → ∀ m, n ≤ m → ks.foldl max m = m := by
        intro ks
        induction ks with
        | nil => exact fun _ _ _ => rfl
        | cons k ks ih =>
          intro hks m hm
          have hk := (hks k List.mem_cons_self).trans hm
          rw [List.foldl_cons, max_eq_left hk]
          exact ih (fun k' hk' => hks k' (List.mem_cons_of_mem _ hk')) m hm
      exact hrest ns (fun k hk => hle k (List.mem_cons_of_mem _ hk)) _ (le_max_right _ _)

/-- Of slices that go round the longest is the longest run. -/
lemma longestRun_of_even {agents : List Pid} (h : Even agents c sl) (hlen : 2 ≤ agents.length) :
    longestRun (steps sl) = c := by
  rw [longestRun, foldl_runOn_steps (fun x hx => (h.slice x hx).1) (h.rotates hlen)
    fun x _ => (Option.some_ne_none _).symm]
  refine (foldl_max_eq (c := c) ?_ ?_).trans (max_eq_right (Nat.zero_le c))
  · intro n hn
    obtain ⟨x, hx, rfl⟩ := List.mem_map.1 hn
    exact (h.slice x hx).2.1
  · obtain ⟨rest, rfl⟩ := h.first
    cases agents with
    | nil => simp at hlen
    | cons a as => simp

end LongestRun

/-! ### The first steps -/

section FirstSlice

variable {agents : List Pid} {first : List (Pid × ℕ)} {c : ℕ}

lemma foldl_noteFirst_known {order : List Pid} (i : ℕ) (h : ∀ p ∈ order, p ∈ first.map Prod.fst) :
    (order.zipIdx i).foldl noteFirst first = first := by
  induction order generalizing i with
  | nil => rfl
  | cons p order ih =>
    rw [List.zipIdx_cons, List.foldl_cons, noteFirst, if_pos (h p List.mem_cons_self)]
    exact ih (i + 1) fun q hq => h q (List.mem_cons_of_mem _ hq)

lemma foldl_noteFirst_slice {a : Pid} (i : ℕ) (hc : 0 < c) (h : a ∉ first.map Prod.fst) :
    ((List.replicate c a).zipIdx i).foldl noteFirst first = first ++ [(a, i)] := by
  obtain ⟨k, rfl⟩ := Nat.exists_eq_add_of_le' hc
  rw [List.replicate_succ, List.zipIdx_cons, List.foldl_cons, noteFirst, if_neg h]
  refine foldl_noteFirst_known (i + 1) fun p hp => ?_
  rw [(List.mem_replicate.1 hp).2]
  simp

/-- In the first round everyone is noted, a slice after the one before. -/
lemma foldl_noteFirst_round (i : ℕ) (hc : 0 < c) (hnodup : agents.Nodup)
    (h : ∀ a ∈ agents, a ∉ first.map Prod.fst) :
    ((steps (agents.map fun a => (a, c))).zipIdx i).foldl noteFirst first =
      first ++ agents.zipIdx.map fun x => (x.1, i + x.2 * c) := by
  induction agents generalizing i first with
  | nil => simp
  | cons a agents ih =>
    obtain ⟨hnotin, hnodup⟩ := List.nodup_cons.1 hnodup
    have hfresh : ∀ b ∈ agents, b ∉ (first ++ [(a, i)]).map Prod.fst := by
      intro b hb hmem
      rw [List.map_append, List.mem_append] at hmem
      rcases hmem with hmem | hmem
      · exact h b (List.mem_cons_of_mem _ hb) hmem
      · obtain rfl : b = a := by simpa using hmem
        exact hnotin hb
    rw [List.map_cons, steps_cons, List.zipIdx_append, List.foldl_append,
      foldl_noteFirst_slice i hc (h a List.mem_cons_self), List.length_replicate,
      ih (i + c) hnodup hfresh, List.append_assoc, List.zipIdx_cons, List.map_cons,
      List.zipIdx_succ, List.map_map]
    refine congrArg (first ++ ·) (congrArg₂ List.cons (by simp) (List.map_congr_left ?_))
    rintro ⟨b, k⟩ -
    simp only [Function.comp_apply]
    rw [Nat.succ_mul]
    congr 1
    omega

/-- Everyone waits for one slice of each agent before. -/
lemma firstSlice_of_even {sl : List (Pid × ℕ)} (hc : 0 < c) (hnodup : agents.Nodup)
    (h : Even agents c sl) : firstSlice (steps sl) = agents.zipIdx.map fun x => (x.1, x.2 * c) := by
  obtain ⟨rest, hrest⟩ := h.first
  have hmem : ∀ x ∈ rest, x.1 ∈ agents := by
    intro x hx
    refine (h.slice x ?_).2.2
    rw [hrest]
    exact List.mem_append_right _ hx
  rw [firstSlice, hrest, steps_append, List.zipIdx_append, List.foldl_append,
    foldl_noteFirst_round 0 hc hnodup (fun a _ => List.not_mem_nil)]
  simp only [List.nil_append, Nat.zero_add]
  refine foldl_noteFirst_known _ fun p hp => ?_
  obtain ⟨x, hx, hpx⟩ := List.mem_flatMap.1 hp
  rw [(List.mem_replicate.1 hpx).2, List.map_map]
  have hfst : (Prod.fst ∘ fun x : Pid × ℕ => (x.1, x.2 * c)) = Prod.fst := rfl
  rw [hfst, List.zipIdx_map_fst]
  exact hmem x hx

lemma two_mul_sum_waits (agents : List Pid) (i c : ℕ) :
    2 * ((agents.zipIdx i).map fun x => x.2 * c).sum + agents.length * c =
      agents.length * (2 * i + agents.length) * c := by
  induction agents generalizing i with
  | nil => simp
  | cons a agents ih =>
    have hrest := ih (i + 1)
    rw [List.zipIdx_cons, List.map_cons, List.sum_cons, List.length_cons]
    simp only at hrest ⊢
    nlinarith [hrest]

/-- **The agents wait half the slices of the others**, on the average. -/
lemma meanTtf_of_even {sl : List (Pid × ℕ)} (hc : 0 < c) (hnodup : agents.Nodup)
    (hne : agents ≠ []) (h : Even agents c sl) :
    meanTtf (steps sl) = ((c * (agents.length - 1) : ℤ) : ℚ) / 2 := by
  have hlen : agents.length ≠ 0 := fun h0 => hne (List.length_eq_zero_iff.1 h0)
  have hfirst := firstSlice_of_even hc hnodup h
  have hsum := two_mul_sum_waits agents 0 c
  have hnonempty : firstSlice (steps sl) ≠ [] := by
    rw [hfirst]
    simpa using hne
  rw [meanTtf, if_neg hnonempty, hfirst, List.map_map, List.length_map, List.length_zipIdx]
  have hsnd : (Prod.snd ∘ fun x : Pid × ℕ => (x.1, x.2 * c)) = fun x => x.2 * c := rfl
  rw [hsnd]
  set total := (agents.zipIdx.map fun x => x.2 * c).sum with htotal
  have hq : (2 : ℚ) * total + agents.length * c = agents.length * agents.length * c := by
    have hsum' : 2 * total + agents.length * c = agents.length * agents.length * c := by
      rw [hsum]
      ring
    exact_mod_cast hsum'
  have hlen' : (agents.length : ℚ) ≠ 0 := by exact_mod_cast hlen
  push_cast
  rw [div_eq_div_iff hlen' two_ne_zero]
  linarith

end FirstSlice

/-! ### The pool -/

section Measured

variable {nAgents stepsEach turns : ℕ} {created : Pid → Time} {now : Time} {out : Outside}
  {sched : Scheduler}

lemma pids_nodup (nAgents : ℕ) : (pids nAgents).Nodup := by
  refine List.nodup_range.map fun i j h => ?_
  have hij : (i : ℤ) + 1 = j + 1 := h
  omega

lemma length_pids (nAgents : ℕ) : (pids nAgents).length = nAgents := by
  simp [pids]

/-- An agent has its first step in any case. -/
lemma nStepRunner_max (n : ℕ) (now : Time) :
    nStepRunner (fun _ => n) now = nStepRunner (fun _ => max 1 n) now := by
  funext p s
  have hsame : (n ≤ Function.update s.2 p (s.2 p + 1) p) =
      (max 1 n ≤ Function.update s.2 p (s.2 p + 1) p) := by
    rw [Function.update_self]
    exact propext (by omega)
  simp only [nStepRunner, hsame]

/-- The agents of the measurement, with the steps that they need. -/
def jobs (nAgents stepsEach : ℕ) : List (Pid × ℕ) :=
  (pids nAgents).map fun p => (p, max 1 stepsEach)

lemma inLine_shop (created : Pid → Time) (hquota : nAgents * max 1 stepsEach ≤ 10000) :
    InLine (fun counts p => max 1 stepsEach - counts p) 0 (shop nAgents created) where
  nodup := pids_nodup nAgents
  awake := fun _ _ => ⟨rfl, rfl⟩
  pos := fun _ _ => (le_max_left 1 stepsEach : 0 < max 1 stepsEach)
  ample := by
    refine ⟨rfl, le_rfl, ?_⟩
    have hsum : ((pids nAgents).map fun _ => max 1 stepsEach - 0).sum =
        nAgents * max 1 stepsEach := by
      rw [List.map_const', List.sum_replicate_nat, length_pids, Nat.sub_zero]
    change ((((pids nAgents).map fun _ => max 1 stepsEach - 0).sum * (1 + 0) : ℕ) : ℤ) ≤ 10000
    rw [hsum]
    exact_mod_cast by simpa using hquota

lemma length_le_length_steps {sl : List (Pid × ℕ)} (h : ∀ x ∈ sl, 0 < x.2) :
    sl.length ≤ (steps sl).length := by
  induction sl with
  | nil => exact le_rfl
  | cons x sl ih =>
    have hx := h x List.mem_cons_self
    have hrest := ih fun y hy => h y (List.mem_cons_of_mem _ hy)
    rw [steps_cons, List.length_append, List.length_replicate, List.length_cons]
    omega

lemma even_jobs (nAgents stepsEach : ℕ) (sched : Scheduler) :
    Even (pids nAgents) (min (max 1 stepsEach) (stepLimit sched))
      (slices (stepLimit sched) (jobs nAgents stepsEach)) :=
  even_slices (pids_nodup nAgents) (stepLimit_pos sched) (le_max_left 1 stepsEach)

lemma length_steps_jobs (nAgents stepsEach : ℕ) :
    (steps (jobs nAgents stepsEach)).length = nAgents * max 1 stepsEach := by
  rw [steps, jobs, List.flatMap_map, List.length_flatMap]
  simp [length_pids]

/-- Every step of the schedule is taken. -/
lemma order_runPool (created : Pid → Time) (now : Time) (out : Outside)
    (hhead : takesHead sched = true) (hquota : nAgents * max 1 stepsEach ≤ 10000)
    (hturns : nAgents * max 1 stepsEach ≤ turns) :
    (runPool nAgents stepsEach created now out turns sched).order =
      steps (slices (stepLimit sched) (jobs nAgents stepsEach)) := by
  have hlog := log_turns (poolConfig sched) out hhead
    (paced_nStepRunner (fun _ => max 1 stepsEach) now) (inLine_shop created hquota) turns
  have hlength :=
    length_le_length_steps fun x hx => ((even_jobs nAgents stepsEach sched).slice x hx).1
  rw [(steps_slices_perm _ _).length_eq, length_steps_jobs] at hlength
  rw [← nStepRunner_max] at hlog
  refine hlog.trans (congrArg steps (List.take_of_length_le ?_))
  exact hlength.trans hturns

lemma roundHalfEven_intCast (z : ℤ) : Text.roundHalfEven (z : ℚ) = z := by
  simp [Text.roundHalfEven]

/-- A mean of half a number of steps is not changed by rounding to two digits. -/
lemma round_half (z : ℤ) : (Text.roundHalfEven ((z : ℚ) / 2 * 100) : ℚ) / 100 = (z : ℚ) / 2 := by
  have hwhole : (z : ℚ) / 2 * 100 = ((50 * z : ℤ) : ℚ) := by
    push_cast
    ring
  rw [hwhole, roundHalfEven_intCast]
  push_cast
  ring

lemma runPool_congr {sched' : Scheduler}
    (h : (runPool nAgents stepsEach created now out turns sched).order =
      (runPool nAgents stepsEach created now out turns sched').order) :
    runPool nAgents stepsEach created now out turns sched =
      runPool nAgents stepsEach created now out turns sched' := by
  simp only [runPool] at h ⊢
  rw [h]

/-- What a pool with two agents or more comes to. -/
lemma runPool_of_two_le (hhead : takesHead sched = true) (htwo : 2 ≤ nAgents)
    (hquota : nAgents * max 1 stepsEach ≤ 10000) (hturns : nAgents * max 1 stepsEach ≤ turns) :
    let run := runPool nAgents stepsEach created now out turns sched
    let c := min (max 1 stepsEach) (stepLimit sched)
    run.maxConsecutiveRun = c ∧ run.meanTimeToFirstSlice = ((c * (nAgents - 1) : ℤ) : ℚ) / 2 := by
  intro run c
  have horder := order_runPool created now out hhead hquota hturns
  have heven := even_jobs nAgents stepsEach sched
  have hc : 0 < c := lt_min (le_max_left 1 stepsEach) (stepLimit_pos sched)
  have hlen := length_pids nAgents
  constructor
  · change longestRun run.order = c
    rw [horder]
    exact longestRun_of_even heven (by omega)
  · have hne : pids nAgents ≠ [] := by
      rw [← List.length_pos_iff_ne_nil]
      omega
    have hmean : meanTtf run.order = ((c * (nAgents - 1) : ℤ) : ℚ) / 2 := by
      rw [horder, meanTtf_of_even hc (pids_nodup nAgents) hne heven, hlen]
    change (Text.roundHalfEven (meanTtf run.order * 100) : ℚ) / 100 = _
    rw [hmean, round_half]

/-- A pool with one agent, or none, does what it does under any scheduler. -/
lemma slices_jobs_of_lt_two (hlt : nAgents < 2) (k : ℕ) :
    steps (slices k (jobs nAgents stepsEach)) = steps (jobs nAgents stepsEach) := by
  have hperm := steps_slices_perm k (jobs nAgents stepsEach)
  obtain rfl | rfl : nAgents = 0 ∨ nAgents = 1 := by omega
  · exact congrArg steps (slices_nil k)
  · have hone : steps (jobs 1 stepsEach) = List.replicate (max 1 stepsEach) 1 := by
      simp [jobs, pids, steps]
    rw [hone] at hperm ⊢
    exact List.perm_replicate.1 hperm

/-- **Round robin is better exactly when there is somebody to rotate to and the quantum bites.**
Let the quota be enough for all steps, and let the worker have made a turn for every step.
FCFS has run one agent after the other.  Both comparisons come out in favour of round robin if
there are two agents or more and the quantum is shorter than what an agent needs; otherwise the
two runs are the same. -/
theorem measureSchedulerPreemption_iff (nAgents stepsEach rrQuantum turns : ℕ)
    (hquantum : 1 ≤ rrQuantum) (hquota : nAgents * max 1 stepsEach ≤ 10000)
    (hturns : nAgents * max 1 stepsEach ≤ turns) (created : Pid → Time) (now : Time)
    (out : Outside) :
    let report := measureSchedulerPreemption nAgents stepsEach rrQuantum created now out turns
    report.fcfs.order = (pids nAgents).flatMap (List.replicate (max 1 stepsEach)) ∧
      report.rr.order = steps (slices rrQuantum (jobs nAgents stepsEach)) ∧
      (report.rrPreempts = true ↔ 2 ≤ nAgents ∧ rrQuantum < max 1 stepsEach) ∧
      (report.rrImprovesFairness = true ↔ 2 ≤ nAgents ∧ rrQuantum < max 1 stepsEach) ∧
      (¬(2 ≤ nAgents ∧ rrQuantum < max 1 stepsEach) → report.rr = report.fcfs) := by
  intro report
  have hfcfs : report.fcfs.order = steps (jobs nAgents stepsEach) := by
    refine (order_runPool created now out rfl hquota hturns).trans ?_
    refine congrArg steps (slices_eq_self fun x hx => ?_)
    obtain ⟨p, hp, rfl⟩ := List.mem_map.1 hx
    have hpos : 0 < nAgents := by
      rw [← length_pids nAgents]
      exact List.length_pos_of_mem hp
    have hle : max 1 stepsEach ≤ nAgents * max 1 stepsEach := Nat.le_mul_of_pos_left _ hpos
    exact (hle.trans hquota).trans (le_max_right 1 _)
  have hlimit : stepLimit (.rr rrQuantum) = rrQuantum := max_eq_right hquantum
  have hrr : report.rr.order = steps (slices rrQuantum (jobs nAgents stepsEach)) := by
    have horder := order_runPool created now out
      (show takesHead (.rr rrQuantum) = true from rfl) hquota hturns
    rwa [hlimit] at horder
  refine ⟨?_, hrr, ?_⟩
  · rw [hfcfs, steps, jobs, List.flatMap_map]
  by_cases hcase : 2 ≤ nAgents ∧ rrQuantum < max 1 stepsEach
  · obtain ⟨htwo, hbites⟩ := hcase
    have hcap : max 1 stepsEach ≤ stepLimit .fcfs := by
      have hle : max 1 stepsEach ≤ nAgents * max 1 stepsEach := Nat.le_mul_of_pos_left _ (by omega)
      exact hle.trans hquota
    obtain ⟨hlongest, hmean⟩ : report.fcfs.maxConsecutiveRun = min _ _ ∧
        report.fcfs.meanTimeToFirstSlice = _ := runPool_of_two_le rfl htwo hquota hturns
    obtain ⟨hlongest', hmean'⟩ : report.rr.maxConsecutiveRun = min _ _ ∧
        report.rr.meanTimeToFirstSlice = _ := runPool_of_two_le rfl htwo hquota hturns
    rw [min_eq_left hcap] at hlongest hmean
    rw [hlimit, min_eq_right hbites.le] at hlongest' hmean'
    have hpreempts : report.rrPreempts = true := by
      change (decide (report.rr.maxConsecutiveRun ≤ rrQuantum) &&
        decide (rrQuantum < report.fcfs.maxConsecutiveRun)) = true
      rw [hlongest, hlongest', decide_eq_true le_rfl, decide_eq_true hbites]
      rfl
    have hfair : report.rrImprovesFairness = true := by
      refine decide_eq_true ?_
      change report.rr.meanTimeToFirstSlice < report.fcfs.meanTimeToFirstSlice
      rw [hmean, hmean']
      refine div_lt_div_of_pos_right ?_ two_pos
      have hpeers : (0 : ℤ) < nAgents - 1 := by omega
      exact_mod_cast mul_lt_mul_of_pos_right (by exact_mod_cast hbites) hpeers
    exact ⟨iff_of_true hpreempts ⟨htwo, hbites⟩, iff_of_true hfair ⟨htwo, hbites⟩,
      fun h => absurd ⟨htwo, hbites⟩ h⟩
  · have hsame : steps (slices rrQuantum (jobs nAgents stepsEach)) =
        steps (jobs nAgents stepsEach) := by
      rcases lt_or_ge nAgents 2 with hfew | htwo
      · exact slices_jobs_of_lt_two hfew rrQuantum
      · refine congrArg steps (slices_eq_self fun x hx => ?_)
        obtain ⟨p, -, rfl⟩ := List.mem_map.1 hx
        have hle : max 1 stepsEach ≤ rrQuantum := not_lt.1 fun h => hcase ⟨htwo, h⟩
        exact hle.trans (le_max_right 1 _)
    have hequal : report.rr = report.fcfs := runPool_congr (hrr.trans (hsame.trans hfcfs.symm))
    refine ⟨iff_of_false ?_ hcase, iff_of_false ?_ hcase, fun _ => hequal⟩
    · change ¬(decide (report.rr.maxConsecutiveRun ≤ rrQuantum) &&
        decide (rrQuantum < report.fcfs.maxConsecutiveRun)) = true
      rw [hequal, Bool.and_eq_true, decide_eq_true_iff, decide_eq_true_iff]
      exact fun h => absurd h.1 (not_le.2 h.2)
    · change ¬decide (report.rr.meanTimeToFirstSlice < report.fcfs.meanTimeToFirstSlice) = true
      rw [hequal, decide_eq_true_iff]
      exact lt_irrefl _

/-- The measurement with its default arguments. -/
theorem measureSchedulerPreemption_default :
    let report := measureSchedulerPreemption 3 4 2 (fun _ => 0) 0 (.calm { content := "" }) 12
    report.fcfs.order = [1, 1, 1, 1, 2, 2, 2, 2, 3, 3, 3, 3] ∧ report.rrPreempts = true ∧
      report.rrImprovesFairness = true := by
  intro report
  obtain ⟨hfcfs, -, hpreempts, hfair, -⟩ := measureSchedulerPreemption_iff 3 4 2 12 (by decide)
    (by decide) (by decide) (fun _ => 0) 0 (.calm { content := "" })
  exact ⟨hfcfs, hpreempts.2 (by decide), hfair.2 (by decide)⟩

end Measured

end Gcos.Eval
