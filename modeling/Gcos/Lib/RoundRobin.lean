import Mathlib.Data.List.Perm.Basic
import Mathlib.Data.List.Nodup
import Mathlib.Algebra.Order.Ring.Nat

/-!
# Round robin

The schedule of a list of jobs, each with the number of steps that it needs: the first job
in line is given a slice of at most `k` steps, and goes to the end of the line if it is not
finished.  In a schedule every job gets the steps that it needs, and between two slices of
one job every other job that is not finished gets one.
-/

namespace Gcos.Lib.RoundRobin

variable {A : Type*} {k : ℕ} {jobs : List (A × ℕ)} {a b : A} {n : ℕ}

/-- The slices of the round-robin schedule of quantum `k` (of quantum 1, if `k` is zero). -/
def slices (k : ℕ) : List (A × ℕ) → List (A × ℕ)
  | [] => []
  | (a, n) :: rest =>
    if n ≤ max 1 k then (a, n) :: slices k rest
    else (a, max 1 k) :: slices k (rest ++ [(a, n - max 1 k)])
termination_by jobs => (jobs.map Prod.snd).sum + jobs.length
decreasing_by
  · simp only [List.map_cons, List.sum_cons, List.length_cons]
    omega
  · simp only [List.map_append, List.map_cons, List.map_nil, List.sum_append, List.sum_cons,
      List.sum_nil, List.length_append, List.length_cons, List.length_nil]
    omega

/-- The single steps of a list of slices. -/
def steps (l : List (A × ℕ)) : List A := l.flatMap fun x => List.replicate x.2 x.1

@[simp] lemma steps_nil : steps ([] : List (A × ℕ)) = [] := rfl

@[simp] lemma steps_cons (x : A × ℕ) (l : List (A × ℕ)) :
    steps (x :: l) = List.replicate x.2 x.1 ++ steps l := rfl

@[simp] lemma steps_append (l l' : List (A × ℕ)) : steps (l ++ l') = steps l ++ steps l' :=
  List.flatMap_append

@[simp] lemma slices_nil (k : ℕ) : slices k ([] : List (A × ℕ)) = [] := by rw [slices]

lemma slices_of_le (rest : List (A × ℕ)) (h : n ≤ max 1 k) :
    slices k ((a, n) :: rest) = (a, n) :: slices k rest := by rw [slices, if_pos h]

lemma slices_of_lt (rest : List (A × ℕ)) (h : max 1 k < n) :
    slices k ((a, n) :: rest) = (a, max 1 k) :: slices k (rest ++ [(a, n - max 1 k)]) := by
  rw [slices, if_neg (not_le.2 h)]

/-- A quantum that is large enough for every job is never used up. -/
lemma slices_eq_self (h : ∀ x ∈ jobs, x.2 ≤ max 1 k) : slices k jobs = jobs := by
  induction jobs with
  | nil => exact slices_nil k
  | cons x rest ih =>
    rw [slices_of_le rest (h x List.mem_cons_self), ih fun y hy => h y (List.mem_cons_of_mem _ hy)]

/-- The schedule only orders the steps of the jobs. -/
lemma steps_slices_perm (k : ℕ) (jobs : List (A × ℕ)) : (steps (slices k jobs)).Perm (steps jobs) := by
  induction jobs using slices.induct k with
  | case1 => rw [slices_nil]
  | case2 a n rest h ih =>
    rw [slices_of_le rest h, steps_cons, steps_cons]
    exact ih.append_left _
  | case3 a n rest h ih =>
    have hn : List.replicate n a = List.replicate (max 1 k) a ++ List.replicate (n - max 1 k) a := by
      rw [List.replicate_append_replicate, Nat.add_sub_of_le (not_le.1 h).le]
    rw [slices_of_lt rest (not_le.1 h), steps_cons, steps_cons, hn, List.append_assoc]
    refine List.Perm.append_left _ (ih.trans ?_)
    rw [steps_append, steps_cons, steps_nil, List.append_nil]
    exact List.perm_append_comm

/-- Whoever has a slice has a job. -/
lemma mem_of_mem_slices (h : a ∈ (slices k jobs).map Prod.fst) : a ∈ jobs.map Prod.fst := by
  induction jobs using slices.induct k with
  | case1 => rwa [slices_nil] at h
  | case2 b n rest hn ih =>
    rw [slices_of_le rest hn] at h
    rcases List.mem_cons.1 h with rfl | h
    · exact List.mem_cons_self
    · exact List.mem_cons_of_mem _ (ih h)
  | case3 b n rest hn ih =>
    rw [slices_of_lt rest (not_le.1 hn)] at h
    rcases List.mem_cons.1 h with rfl | h
    · exact List.mem_cons_self
    · simpa [or_comm] using ih h

/-! ### One round -/

/-- What is left of some jobs after each has had a slice. -/
def leftover (k : ℕ) (jobs : List (A × ℕ)) : List (A × ℕ) :=
  jobs.filterMap fun x => if x.2 ≤ max 1 k then none else some (x.1, x.2 - max 1 k)

/-- The jobs in front of the line get one slice each, before anyone gets a second. -/
lemma slices_append (k : ℕ) (xs ys : List (A × ℕ)) :
    slices k (xs ++ ys) =
      xs.map (fun x => (x.1, min x.2 (max 1 k))) ++ slices k (ys ++ leftover k xs) := by
  induction xs generalizing ys with
  | nil => simp [leftover]
  | cons x xs ih =>
    rcases le_or_gt x.2 (max 1 k) with h | h
    · have hleft : leftover k (x :: xs) = leftover k xs := by
        simp only [leftover, List.filterMap_cons, if_pos h]
      rw [List.cons_append, slices_of_le _ h, ih, List.map_cons, min_eq_left h, hleft]
      rfl
    · have hleft : leftover k (x :: xs) = (x.1, x.2 - max 1 k) :: leftover k xs := by
        simp only [leftover, List.filterMap_cons, if_neg (not_le.2 h)]
      rw [List.cons_append, slices_of_lt _ h, List.append_assoc, ih, List.map_cons,
        min_eq_right h.le, hleft, List.append_assoc]
      rfl

/-! ### Between two slices -/

/-- Every job is there once, and has something to do. -/
structure Proper (jobs : List (A × ℕ)) : Prop where
  nodup : (jobs.map Prod.fst).Nodup
  pos : ∀ x ∈ jobs, 0 < x.2

lemma Proper.tail {x : A × ℕ} (h : Proper (x :: jobs)) : Proper jobs :=
  ⟨(List.nodup_cons.1 h.nodup).2, fun y hy => h.pos y (List.mem_cons_of_mem _ hy)⟩

lemma Proper.rotate (h : Proper ((a, n) :: jobs)) {m : ℕ} (hm : 0 < m) : Proper (jobs ++ [(a, m)]) where
  nodup := by
    rw [List.map_append]
    have hperm : (jobs.map Prod.fst ++ [a]).Perm (a :: jobs.map Prod.fst) := List.perm_append_singleton a _
    exact hperm.nodup_iff.2 h.nodup
  pos := fun x hx => by
    rcases List.mem_append.1 hx with hx | hx
    · exact h.pos x (List.mem_cons_of_mem _ hx)
    · rw [List.mem_singleton.1 hx]
      exact hm

variable [DecidableEq A]

/-- The rest of a schedule is the schedule of what is left to do. -/
lemma exists_rest (h : Proper jobs) {pre post : List (A × ℕ)} (hsplit : slices k jobs = pre ++ post) :
    ∃ jobs', Proper jobs' ∧ post = slices k jobs' ∧
      ∀ b, (steps pre).count b + (steps jobs').count b = (steps jobs).count b := by
  -- by induction on the part of the schedule that is over
  induction pre generalizing jobs with
  | nil => exact ⟨jobs, h, hsplit.symm, fun b => by simp⟩
  | cons x pre ih =>
    cases jobs with
    | nil => simp at hsplit
    | cons y rest =>
      obtain ⟨a, n⟩ := y
      rcases le_or_gt n (max 1 k) with hn | hn
      · rw [slices_of_le rest hn] at hsplit
        obtain ⟨rfl, htail⟩ := List.cons.inj hsplit
        obtain ⟨jobs', hproper, hpost, hcount⟩ := ih h.tail htail
        refine ⟨jobs', hproper, hpost, fun b => ?_⟩
        simp only [steps_cons, List.count_append]
        rw [add_assoc, hcount b]
      · rw [slices_of_lt rest hn] at hsplit
        obtain ⟨rfl, htail⟩ := List.cons.inj hsplit
        obtain ⟨jobs', hproper, hpost, hcount⟩ := ih (h.rotate (Nat.sub_pos_of_lt hn)) htail
        refine ⟨jobs', hproper, hpost, fun b => ?_⟩
        have hrest := hcount b
        have hparts : (List.replicate n a).count b =
            (List.replicate (max 1 k) a).count b + (List.replicate (n - max 1 k) a).count b := by
          rw [← List.count_append, List.replicate_append_replicate, Nat.add_sub_of_le hn.le]
        simp only [steps_cons, steps_append, steps_nil, List.append_nil, List.count_append] at hrest ⊢
        omega

lemma mem_iff_count_pos (h : Proper jobs) : b ∈ jobs.map Prod.fst ↔ 0 < (steps jobs).count b := by
  rw [List.count_pos_iff, steps, List.mem_flatMap, List.mem_map]
  refine ⟨?_, ?_⟩
  · rintro ⟨x, hx, rfl⟩
    exact ⟨x, hx, List.mem_replicate.2 ⟨(h.pos x hx).ne', rfl⟩⟩
  · rintro ⟨x, hx, hb⟩
    exact ⟨x, hx, (List.mem_replicate.1 hb).2.symm⟩

/-- The steps of a job in all jobs together are its own. -/
lemma count_steps_of_mem (h : Proper jobs) (hmem : (a, n) ∈ jobs) : (steps jobs).count a = n := by
  induction jobs with
  | nil => cases hmem
  | cons x rest ih =>
    have hnotin : x.1 ∉ rest.map Prod.fst := (List.nodup_cons.1 h.nodup).1
    rw [steps_cons, List.count_append, List.count_replicate]
    rcases List.mem_cons.1 hmem with rfl | hmem
    · have hnone : ¬0 < (steps rest).count a := fun hpos => hnotin ((mem_iff_count_pos h.tail).2 hpos)
      rw [Nat.eq_zero_of_not_pos hnone]
      simp
    · have hne : x.1 ≠ a := by
        rintro rfl
        exact hnotin (List.mem_map.2 ⟨_, hmem, rfl⟩)
      rw [ih h.tail hmem]
      simp [hne]

/-- What stands before the first `a`. -/
lemma takeWhile_of_notMem {l l' : List A} (hl : a ∉ l) :
    (l ++ a :: l').takeWhile (· ≠ a) = l := by
  have hne : ∀ b ∈ l, decide (b ≠ a) = true := fun b hb => decide_eq_true (by rintro rfl; exact hl hb)
  rw [List.takeWhile_append_of_pos hne]
  simp

/-- **Between two consecutive slices of a job every other job has one slice if it is not
finished, and none if it is.** -/
theorem count_between (h : Proper jobs) {pre mid post : List (A × ℕ)} {x y : ℕ}
    (hsplit : slices k jobs = pre ++ (a, x) :: (mid ++ (a, y) :: post))
    (hmid : a ∉ mid.map Prod.fst) (hb : b ≠ a) :
    (mid.map Prod.fst).count b =
      if (steps pre).count b < (steps jobs).count b then 1 else 0 := by
  obtain ⟨jobs', hproper, hrest, hcount⟩ := exists_rest h hsplit
  cases jobs' with
  | nil => simp at hrest
  | cons z rest =>
    obtain ⟨a', n⟩ := z
    rcases le_or_gt n (max 1 k) with hn | hn
    · -- the job is finished with this slice, so there is no other
      rw [slices_of_le rest hn] at hrest
      obtain ⟨hhead, htail⟩ := List.cons.inj hrest
      obtain ⟨rfl, -⟩ := Prod.mk.inj hhead
      have hmem : a ∈ (slices k rest).map Prod.fst := by rw [← htail]; simp
      exact absurd (mem_of_mem_slices hmem) (List.nodup_cons.1 hproper.nodup).1
    · rw [slices_of_lt rest hn, slices_append] at hrest
      obtain ⟨hhead, htail⟩ := List.cons.inj hrest
      obtain ⟨rfl, -⟩ := Prod.mk.inj hhead
      have hnotin : a ∉ rest.map Prod.fst := (List.nodup_cons.1 hproper.nodup).1
      -- everybody else in line comes before the next slice of `a`
      have hlabels : mid.map Prod.fst = rest.map Prod.fst := by
        have hnext : ∃ z l, slices k ([(a, n - max 1 k)] ++ leftover k rest) = (a, z) :: l := by
          rcases le_or_gt (n - max 1 k) (max 1 k) with hle | hlt
          · exact ⟨_, _, slices_of_le _ hle⟩
          · exact ⟨_, _, slices_of_lt _ hlt⟩
        obtain ⟨z, l, hz⟩ := hnext
        have hmap := congrArg (List.map Prod.fst) htail
        rw [hz, List.map_append, List.map_append, List.map_cons, List.map_cons, List.map_map] at hmap
        rw [← takeWhile_of_notMem hmid, hmap]
        exact takeWhile_of_notMem hnotin
      have hmem : b ∈ rest.map Prod.fst ↔ (steps pre).count b < (steps jobs).count b := by
        have hpos := mem_iff_count_pos (b := b) hproper
        rw [List.map_cons, List.mem_cons, or_iff_right hb] at hpos
        rw [hpos, ← hcount b]
        omega
      rw [hlabels, (List.nodup_cons.1 hproper.nodup).2.count]
      simp only [hmem]

end Gcos.Lib.RoundRobin
