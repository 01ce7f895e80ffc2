import Mathlib.Data.List.Count
import Mathlib.Data.List.DropRight
import Mathlib.Data.List.MinMax
import Mathlib.Data.List.Sort

/-!
# Lists that lose entries

Lists from which the entries of another list are taken out, the place of the least entry in
a sorted list, lists whose entries move to the end, lists on the two sides of a separator,
and the sublists that end with a given entry.
-/

namespace Gcos.Lib

/-! ### Taking entries out -/

section

variable {α : Type} [DecidableEq α]

/-- Entries that are removed from a list are looked for in its first part first. -/
lemma append_diff (xs ys zs : List α) :
    (xs ++ ys).diff zs = xs.diff zs ++ ys.diff (zs.diff xs) := by
  induction xs generalizing zs with
  | nil => simp
  | cons x xs ih =>
    rw [List.cons_append, List.cons_diff, List.cons_diff, List.diff_cons]
    by_cases hx : x ∈ zs
    · rw [if_pos hx, if_pos hx, ih]
    · rw [if_neg hx, if_neg hx, ih, List.cons_append, List.erase_of_not_mem hx]

/-- A list from which nothing is missing had none of the removed entries. -/
lemma not_mem_of_length_diff {xs zs : List α} (h : (xs.diff zs).length = xs.length) {x : α}
    (hx : x ∈ xs) : x ∉ zs := by
  intro hz
  have hsame : xs.diff zs = xs := (List.diff_sublist xs zs).eq_of_length h
  have hcount := List.count_diff x xs zs
  rw [hsame] at hcount
  have hpos : 0 < xs.count x := List.count_pos_iff.2 hx
  have hpos' : 0 < zs.count x := List.count_pos_iff.2 hz
  omega

/-- A list loses none of its entries if none of them is removed. -/
lemma diff_eq_self {xs zs : List α} (h : ∀ x ∈ xs, x ∉ zs) : xs.diff zs = xs := by
  induction xs with
  | nil => simp
  | cons x xs ih =>
    rw [List.cons_diff_of_not_mem (h x List.mem_cons_self),
      ih fun y hy => h y (List.mem_cons_of_mem x hy)]

/-! ### The least entry -/

/-- The first minimum of a list comes first when the list is sorted. -/
lemma insertionSort_eq_argmin_cons {κ : Type} [LinearOrder κ] (f : α → κ) {xs : List α} {x : α}
    (h : xs.argmin f = some x) :
    xs.insertionSort (fun a b => f a ≤ f b) =
      x :: (xs.erase x).insertionSort fun a b => f a ≤ f b := by
  induction xs generalizing x with
  | nil => cases h
  | cons y ys ih =>
    rw [List.argmin_cons] at h
    rw [List.insertionSort_cons]
    cases hys : ys.argmin f with
    | none =>
      rw [hys] at h
      obtain rfl : y = x := Option.some.inj h
      rw [List.argmin_eq_none.1 hys, List.erase_cons_head]
      rfl
    | some z =>
      rw [hys] at h
      by_cases hlt : f z < f y
      · obtain rfl : z = x := by simpa [hlt] using h
        have hne : y ≠ z := by
          rintro rfl
          exact lt_irrefl _ hlt
        rw [ih hys, List.orderedInsert_cons, if_neg (not_le.2 hlt),
          List.erase_cons_tail (by simpa using hne), List.insertionSort_cons]
      · obtain rfl : y = x := by simpa [hlt] using h
        rw [ih hys, List.orderedInsert_cons, if_pos (not_lt.1 hlt), List.erase_cons_head, ih hys]

end

/-- An entry that is less than all before it and at most all after it is the first minimum. -/
lemma argmin_append_cons {α κ : Type} [LinearOrder κ] {f : α → κ} {xs ys : List α} {x : α}
    (hbefore : ∀ y ∈ xs, f x < f y) (hafter : ∀ y ∈ ys, f x ≤ f y) :
    (xs ++ x :: ys).argmin f = some x := by
  have hleast : (x :: ys).argmin f = some x := by
    rw [List.argmin_cons]
    cases hys : ys.argmin f with
    | none => rfl
    | some z =>
      have hz := hafter z (List.argmin_mem hys)
      simp [not_lt.2 hz]
  induction xs with
  | nil => exact hleast
  | cons y xs ih =>
    rw [List.cons_append, List.argmin_cons, ih fun z hz => hbefore z (List.mem_cons_of_mem y hz)]
    simp [hbefore y List.mem_cons_self]

/-- The first minimum of a list of images. -/
lemma argmin_map {α β κ : Type} [LinearOrder κ] (f : β → κ) (g : α → β) (xs : List α) :
    (xs.map g).argmin f = (xs.argmin fun x => f (g x)).map g := by
  induction xs with
  | nil => rfl
  | cons x xs ih =>
    rw [List.map_cons, List.argmin_cons, List.argmin_cons, ih]
    cases xs.argmin fun x => f (g x) with
    | none => rfl
    | some y =>
      by_cases hlt : f (g y) < f (g x)
      · simp [hlt]
      · simp [hlt]

/-! ### Moving entries to the end -/

section

variable {α : Type} [DecidableEq α] {q : α → Bool} {xs : List α} {j : ℕ}

lemma cons_diff_filter_of_neg {x : α} (hx : q x = false) :
    (x :: xs).diff ((xs.filter q).take j) = x :: xs.diff ((xs.filter q).take j) := by
  refine List.cons_diff_of_not_mem (fun h => ?_) xs
  have hq := (List.mem_filter.1 (List.mem_of_mem_take h)).2
  rw [hx] at hq
  cases hq

/-- How far the first entry of the other kind moves up when entries are taken out. -/
lemma findIdx_diff_filter (hother : ∃ x ∈ xs, q x = false) :
    (xs.diff ((xs.filter q).take j)).findIdx (fun x => !q x) =
      xs.findIdx (fun x => !q x) - j := by
  induction xs generalizing j with
  | nil => simp
  | cons x xs ih =>
    cases hx : q x with
    | false =>
      rw [List.filter_cons_of_neg (by simp [hx]), cons_diff_filter_of_neg hx]
      simp [List.findIdx_cons, hx]
    | true =>
      have hrest : ∃ y ∈ xs, q y = false := by simpa [hx] using hother
      cases j with
      | zero => rfl
      | succ j =>
        rw [List.filter_cons_of_pos hx, List.take_succ_cons, List.diff_cons, List.erase_cons_head,
          ih hrest, List.findIdx_cons, hx]
        simp

/-- If moving the first entries of a kind to the end changes nothing, they come last. -/
lemma filter_append_filter_of_moved (hne : (xs.filter q).take j ≠ [])
    (hsame : xs.diff ((xs.filter q).take j) ++ (xs.filter q).take j = xs) :
    xs.filter (fun x => !q x) ++ xs.filter q = xs := by
  induction xs with
  | nil => rfl
  | cons x xs ih =>
    cases hx : q x with
    | false =>
      have hkind : (x :: xs).filter q = xs.filter q := List.filter_cons_of_neg (by simp [hx])
      have hrest : (x :: xs).filter (fun x => !q x) = x :: xs.filter fun x => !q x :=
        List.filter_cons_of_pos (by simp [hx])
      rw [hkind] at hne hsame ⊢
      rw [cons_diff_filter_of_neg hx, List.cons_append] at hsame
      rw [hrest, List.cons_append, ih hne (List.cons.inj hsame).2]
    | true =>
      -- if there was an entry of the other kind, the first one would move up
      have hall : ∀ y ∈ x :: xs, q y = true := by
        by_contra hbad
        push Not at hbad
        obtain ⟨y, hy, hqy⟩ := hbad
        have hqy : q y = false := by simpa using hqy
        have hstay : y ∈ (x :: xs).diff (((x :: xs).filter q).take j) := by
          rw [← hsame] at hy
          refine (List.mem_append.1 hy).resolve_right fun h => ?_
          have hq := (List.mem_filter.1 (List.mem_of_mem_take h)).2
          rw [hqy] at hq
          cases hq
        have hmove := findIdx_diff_filter (j := j) ⟨y, hy, hqy⟩
        have hfirst := congrArg (List.findIdx fun y => !q y) hsame
        rw [List.findIdx_append, if_pos (List.findIdx_lt_length_of_exists ⟨y, hstay, by simp [hqy]⟩),
          hmove, List.findIdx_cons, hx] at hfirst
        have hj : j ≠ 0 := by
          rintro rfl
          exact hne rfl
        simp only [Bool.not_true, cond_false] at hfirst
        omega
      rw [List.filter_eq_self.2 hall, List.filter_eq_nil_iff.2 (by simpa using hall),
        List.nil_append]

/-- Entries that are removed again from the front. -/
lemma append_diff_self (xs ys : List α) : (xs ++ ys).diff xs = ys := by
  induction xs with
  | nil => rfl
  | cons x xs ih => rw [List.cons_append, List.diff_cons, List.erase_cons_head, ih]

/-- Where the entries of a kind come last, the first of them are moved by a rotation. -/
lemma diff_filter_append (hlast : xs.filter (fun x => !q x) ++ xs.filter q = xs) (j : ℕ) :
    xs.diff ((xs.filter q).take j) ++ (xs.filter q).take j =
      xs.filter (fun x => !q x) ++ ((xs.filter q).drop j ++ (xs.filter q).take j) := by
  have hother : ∀ x ∈ xs.filter (fun x => !q x), x ∉ (xs.filter q).take j := by
    intro x hx hmem
    have hneg := (List.mem_filter.1 hx).2
    rw [(List.mem_filter.1 (List.mem_of_mem_take hmem)).2] at hneg
    cases hneg
  have hself : (xs.filter q).diff ((xs.filter q).take j) = (xs.filter q).drop j := by
    have hsplit := append_diff_self ((xs.filter q).take j) ((xs.filter q).drop j)
    rwa [List.take_append_drop] at hsplit
  have hmoved : xs.diff ((xs.filter q).take j) =
      xs.filter (fun x => !q x) ++ (xs.filter q).drop j := by
    have hsplit := append_diff (xs.filter fun x => !q x) (xs.filter q) ((xs.filter q).take j)
    rwa [hlast, diff_eq_self hother, diff_eq_self fun x hx hmem => hother x hmem hx, hself] at hsplit
  rw [hmoved, List.append_assoc]

/-- The first entries of a kind can be moved to the end without a change exactly if the
entries of that kind come last and can be rotated among themselves. -/
lemma diff_filter_append_eq_self_iff (hne : (xs.filter q).take j ≠ []) :
    xs.diff ((xs.filter q).take j) ++ (xs.filter q).take j = xs ↔
      xs.filter (fun x => !q x) ++ xs.filter q = xs ∧
        (xs.filter q).drop j ++ (xs.filter q).take j = xs.filter q := by
  constructor
  · intro hsame
    have hlast := filter_append_filter_of_moved hne hsame
    refine ⟨hlast, ?_⟩
    rw [diff_filter_append hlast] at hsame
    exact List.append_cancel_left (hsame.trans hlast.symm)
  · rintro ⟨hlast, hrotate⟩
    rw [diff_filter_append hlast, hrotate, hlast]

end

/-! ### Separators -/

/-- A list without the separator lies on one side of it. -/
lemma infix_append_cons {α : Type} {xs ys zs : List α} {x : α} (hx : x ∉ zs)
    (h : zs <:+: xs ++ x :: ys) : zs <:+: xs ∨ zs <:+: ys := by
  have hstart : ∀ us, us ⊆ zs → us <+: x :: ys → us = [] := by
    rintro (_ | ⟨u, us⟩) hus hu
    · rfl
    · obtain rfl : u = x := (List.cons_prefix_cons.1 hu).1
      exact absurd (hus List.mem_cons_self) hx
  rcases List.infix_append_iff.1 h with hleft | hright | ⟨us, vs, rfl, hus, hvs⟩
  · exact .inl hleft
  · rcases List.infix_cons_iff.1 hright with hright | hright
    · rw [hstart zs (List.Subset.refl zs) hright]
      exact .inl (List.nil_infix)
    · exact .inr hright
  · rw [hstart vs (List.subset_append_right us vs) hvs, List.append_nil]
    exact .inl hus.isInfix

/-- What begins with the separator begins after the part that does not have it. -/
lemma cons_suffix_append {α : Type} {xs ys zs : List α} {x : α} (hx : x ∉ xs)
    (h : x :: zs <:+ xs ++ x :: ys) : zs <:+ ys := by
  rcases List.suffix_or_suffix_of_suffix h (List.suffix_append xs (x :: ys)) with hin | hover
  · rcases List.suffix_cons_iff.1 hin with heq | hin
    · exact (List.cons.inj heq).2 ▸ List.suffix_rfl
    · exact (List.suffix_cons x zs).trans hin
  · obtain ⟨us, hus⟩ := hover
    cases us with
    | nil => exact (List.cons.inj hus).2 ▸ List.suffix_rfl
    | cons u us =>
      obtain rfl : u = x := (List.cons.inj hus).1
      rw [← hus] at h
      obtain ⟨vs, hvs⟩ := h
      have hxs : vs ++ u :: us = xs := by
        rw [← List.append_assoc] at hvs
        exact List.append_cancel_right hvs
      exact absurd (hxs ▸ List.mem_append_right vs List.mem_cons_self) hx

/-- The parts into which a list is split at a separator do not have it. -/
lemma not_mem_of_mem_splitOn {α : Type} [DecidableEq α] {xs : List α} {x : α} :
    ∀ ys ∈ xs.splitOn x, x ∉ ys := by
  induction xs with
  | nil => simp
  | cons y xs ih =>
    rw [List.splitOn_cons_eq_if_modifyHead]
    obtain ⟨zs, zss, hsplit⟩ := List.exists_cons_of_ne_nil (List.splitOn_ne_nil x xs)
    rw [hsplit] at ih ⊢
    by_cases hy : y = x
    · simpa [hy] using ih
    · have hzs := ih zs List.mem_cons_self
      intro ys hys
      rw [if_neg (by simpa using hy), List.modifyHead_cons] at hys
      rcases List.mem_cons.1 hys with rfl | hys
      · exact fun hmem => (List.mem_cons.1 hmem).elim (fun h => hy h.symm) hzs
      · exact ih ys (List.mem_cons_of_mem zs hys)

/-- Parts with the separator between them, and one more after the last. -/
lemma intercalate_append_singleton {α : Type} {x : α} {xss : List (List α)} (h : xss ≠ []) :
    [x].intercalate xss ++ [x] = xss.flatMap (· ++ [x]) := by
  induction xss with
  | nil => exact absurd rfl h
  | cons xs xss ih =>
    cases xss with
    | nil => simp
    | cons ys xss =>
      rw [List.intercalate_cons_cons, List.append_assoc, ih (List.cons_ne_nil ys xss)]
      rfl

/-! ### The last entry -/

/-- A list that has an entry is split at its last occurrence. -/
lemma exists_append_rtakeWhile {α : Type} [DecidableEq α] {xs : List α} {x : α} (h : x ∈ xs) :
    ∃ ys, xs = ys ++ x :: xs.rtakeWhile (· ≠ x) := by
  have hne : xs.rdropWhile (· ≠ x) ≠ [] := fun hnil => by
    have hall := List.rdropWhile_eq_nil_iff.1 hnil x h
    simp at hall
  have hlast : (xs.rdropWhile (· ≠ x)).getLast hne = x := by
    simpa using List.rdropWhile_last_not (· ≠ x) xs hne
  have hfirst : (xs.rdropWhile (· ≠ x)).dropLast ++ [x] = xs.rdropWhile (· ≠ x) := by
    have hconcat := List.dropLast_concat_getLast hne
    rwa [hlast] at hconcat
  refine ⟨(xs.rdropWhile (· ≠ x)).dropLast, ?_⟩
  rw [List.append_cons, hfirst, List.rdropWhile_append_rtakeWhile]

/-- The entries from the end are taken until one that is not wanted. -/
lemma rtakeWhile_append_cons {α : Type} {p : α → Bool} {xs ys : List α} {x : α} (hx : p x = false) :
    (xs ++ x :: ys).rtakeWhile p = ys.rtakeWhile p := by
  induction ys using List.reverseRecOn with
  | nil => simp [hx]
  | append_singleton ys y ih =>
    rw [← List.cons_append, ← List.append_assoc, List.rtakeWhile_concat, List.rtakeWhile_concat, ih]

/-- Two texts that begin with characters of a class, and then none, begin with the same. -/
lemma span_unique {α : Type} {p : α → Bool} {xs xs' ys ys' : List α}
    (hxs : ∀ x ∈ xs, p x = true) (hxs' : ∀ x ∈ xs', p x = true) (hys : ys.head?.any p = false)
    (hys' : ys'.head?.any p = false) (h : xs ++ ys = xs' ++ ys') : xs = xs' ∧ ys = ys' := by
  have hnone : ∀ {zs : List α}, zs.head?.any p = false → zs.takeWhile p = [] := by
    intro zs hzs
    cases zs with
    | nil => rfl
    | cons z zs => exact List.takeWhile_cons_of_neg (by simpa using hzs)
  have htake := congrArg (List.takeWhile p) h
  rw [List.takeWhile_append_of_pos hxs, List.takeWhile_append_of_pos hxs', hnone hys, hnone hys',
    List.append_nil, List.append_nil] at htake
  subst htake
  exact ⟨rfl, List.append_cancel_left h⟩

/-- A stable sort compares the entries with later ones only. -/
lemma map_insertionSort_of_pairwise {α β : Type} {r : α → α → Prop} {s : β → β → Prop}
    [DecidableRel r] [DecidableRel s] (f : α → β) {xs : List α}
    (h : xs.Pairwise fun x y => r x y ↔ s (f x) (f y)) :
    (xs.insertionSort r).map f = (xs.map f).insertionSort s := by
  have hinsert : ∀ (x : α) (ys : List α), (∀ y ∈ ys, r x y ↔ s (f x) (f y)) →
      (ys.orderedInsert r x).map f = (ys.map f).orderedInsert s (f x) := by
    intro x ys
    induction ys with
    | nil => exact fun _ => rfl
    | cons y ys ih =>
      intro hys
      have hy := hys y (List.mem_cons_self ..)
      rw [List.map_cons, List.orderedInsert_cons, List.orderedInsert_cons, apply_ite (List.map f)]
      simp only [List.map_cons, hy, ih fun y' hy' => hys y' (List.mem_cons_of_mem _ hy')]
  induction xs with
  | nil => rfl
  | cons x xs ih =>
    obtain ⟨hx, hxs⟩ := List.pairwise_cons.1 h
    rw [List.insertionSort_cons, List.map_cons, List.insertionSort_cons, ← ih hxs]
    exact hinsert x _ fun y hy => hx y ((List.mem_insertionSort r).1 hy)

/-- A property of the entries of a list that can be computed. -/
lemma forall_mem_of_all {α : Type} {p : α → Prop} [DecidablePred p] {xs : List α}
    (h : xs.all (fun x => decide (p x)) = true) : ∀ x ∈ xs, p x :=
  fun x hx => of_decide_eq_true (List.all_eq_true.1 h x hx)

/-- A list with a last entry is a sublist of another with that entry, or with the rest of it. -/
lemma sublist_concat_iff {α : Type} {xs ys : List α} {x y : α} :
    (xs ++ [x]).Sublist (ys ++ [y]) ↔ (xs ++ [x]).Sublist ys ∨ x = y ∧ xs.Sublist ys := by
  rw [← List.reverse_sublist, List.reverse_concat, List.reverse_concat, List.cons_sublist_cons',
    ← List.reverse_concat, List.reverse_sublist, List.reverse_sublist]

end Gcos.Lib
