import Gcos.Lib.Worklist

/-!
# The outline of a forest

`outline succ` lists a node and, below it, the outlines of its successors; every row
carries its depth.  In a forest the outline of a node has a row for every node that can be
reached from it, and no node twice (`Shallow.mem_outline`, `Forest.nodup_outlines`).  The
depths are enough to read the forest back: the parent of a row is the closest row above it
that is one level up (`Hangs`).
-/

namespace Gcos.Lib.Worklist

open Relation

variable {α : Type}

/-- A node at depth `d`, then the outlines of its successors one level down, with at most
so many levels. -/
def outline (succ : α → List α) : ℕ → α → ℕ → List (α × ℕ)
  | 0, _, _ => []
  | levels + 1, a, d => (a, d) :: (succ a).flatMap fun b => outline succ levels b (d + 1)

/-- The outline of a node has at most so many levels. -/
def Shallow (succ : α → List α) : ℕ → α → Prop
  | 0, _ => False
  | levels + 1, a => ∀ b ∈ succ a, Shallow succ levels b

/-- There is a path of so many steps. -/
def Descends (succ : α → List α) : ℕ → α → α → Prop
  | 0, a, b => a = b
  | k + 1, a, b => ∃ c ∈ succ a, Descends succ k c b

/-- To leave a node out is to give it no rows. -/
lemma flatMap_filter {β : Type} (keep : α → Bool) (rows : α → List β) (list : List α) :
    (list.filter keep).flatMap rows = list.flatMap fun a => if keep a then rows a else [] := by
  induction list with
  | nil => rfl
  | cons a list ih =>
    rw [List.filter_cons, List.flatMap_cons]
    split
    · rw [List.flatMap_cons, ih]
    · rw [ih, List.nil_append]

variable {succ : α → List α} {depth : α → ℕ}

/-! ### How deep an outline is -/

/-- In a forest every outline ends. -/
lemma Forest.shallow (h : Forest succ depth) {levels : ℕ} {a : α} (hlevels : depth a < levels) :
    Shallow succ levels a := by
  induction levels generalizing a with
  | zero => omega
  | succ levels ih =>
    intro b hb
    have hlt := h.decreasing a b hb
    exact ih (by omega)

/-- An outline is too deep exactly when a path leads below its last level. -/
lemma not_shallow_iff {levels : ℕ} {a : α} :
    ¬Shallow succ levels a ↔ ∃ b, Descends succ levels a b := by
  induction levels generalizing a with
  | zero => exact iff_of_true (fun h => h) ⟨a, rfl⟩
  | succ levels ih =>
    simp only [Shallow, Descends, not_forall, ih]
    constructor
    · rintro ⟨c, hc, b, hb⟩
      exact ⟨b, c, hc, hb⟩
    · rintro ⟨b, c, hc, hb⟩
      exact ⟨c, hc, b, hb⟩

/-- A path is longer by its last step. -/
lemma descends_succ {k : ℕ} {a b : α} :
    Descends succ (k + 1) a b ↔ ∃ c, Descends succ k a c ∧ b ∈ succ c := by
  induction k generalizing a with
  | zero =>
    simp only [Descends]
    constructor
    · rintro ⟨c, hc, rfl⟩
      exact ⟨a, rfl, hc⟩
    · rintro ⟨c, rfl, hb⟩
      exact ⟨b, hb, rfl⟩
  | succ k ih =>
    rw [Descends]
    constructor
    · rintro ⟨d, hd, hpath⟩
      obtain ⟨c, hc, hb⟩ := ih.1 hpath
      exact ⟨c, ⟨d, hd, hc⟩, hb⟩
    · rintro ⟨c, ⟨d, hd, hc⟩, hb⟩
      exact ⟨d, hd, ih.2 ⟨c, hc, hb⟩⟩

/-- Beyond a path there are all the shorter ones. -/
lemma Descends.shorten {k m : ℕ} {a b : α} (h : Descends succ m a b) (hle : k ≤ m) :
    ∃ c, Descends succ k a c := by
  induction k generalizing m a with
  | zero => exact ⟨a, rfl⟩
  | succ k ih =>
    cases m with
    | zero => omega
    | succ m =>
      obtain ⟨d, hd, hpath⟩ := h
      obtain ⟨c, hc⟩ := ih hpath (by omega)
      exact ⟨c, d, hd, hc⟩

/-! ### Which nodes are listed -/

lemma Shallow.mem_outline {levels : ℕ} {a : α} (h : Shallow succ levels a) (d : ℕ) (b : α) :
    b ∈ (outline succ levels a d).map Prod.fst ↔ ReflTransGen (Edge succ) a b := by
  induction levels generalizing a d with
  | zero => exact h.elim
  | succ levels ih =>
    have hsucc : ∀ c ∈ succ a, (b ∈ (outline succ levels c (d + 1)).map Prod.fst ↔
        ReflTransGen (Edge succ) c b) := fun c hc => ih (h c hc) (d + 1)
    rw [outline, List.map_cons, List.mem_cons, List.map_flatMap, List.mem_flatMap,
      ReflTransGen.cases_head_iff]
    refine or_congr eq_comm ⟨?_, ?_⟩
    · rintro ⟨c, hc, hb⟩
      exact ⟨c, hc, (hsucc c hc).1 hb⟩
    · rintro ⟨c, hc, hb⟩
      exact ⟨c, hc, (hsucc c hc).2 hb⟩

/-- No node has two rows: the successors of a node reach nothing in common. -/
lemma Forest.nodup_outline (h : Forest succ depth) {levels : ℕ} {a : α}
    (hlevels : Shallow succ levels a) (d : ℕ) :
    ((outline succ levels a d).map Prod.fst).Nodup := by
  induction levels generalizing a d with
  | zero => exact hlevels.elim
  | succ levels ih =>
    rw [outline, List.map_cons, List.map_flatMap, List.nodup_cons, List.nodup_flatMap]
    refine ⟨fun ha => ?_, fun c hc => ih (hlevels c hc) _, ?_⟩
    · obtain ⟨c, hc, hmem⟩ := List.mem_flatMap.1 ha
      have hback := ((hlevels c hc).mem_outline _ _).1 hmem
      exact h.irrefl (.head' hc hback) rfl
    · refine (h.nodup a).imp_of_mem ?_
      intro b c hb hc hne x hxb hxc
      exact hne (h.eq_of_common hb hc (((hlevels b hb).mem_outline _ _).1 hxb)
        (((hlevels c hc).mem_outline _ _).1 hxc))

/-- The outlines of different nodes that have no predecessor do not meet. -/
lemma Forest.nodup_outlines (h : Forest succ depth) {levels : ℕ} {tops : List α}
    (hlevels : ∀ a ∈ tops, Shallow succ levels a) (htops : tops.Nodup)
    (hfirst : ∀ a ∈ tops, ∀ b, a ∉ succ b) :
    ((tops.flatMap fun a => outline succ levels a 0).map Prod.fst).Nodup := by
  have huniq : Relator.RightUnique (Function.swap (Edge succ)) := fun _ _ _ => h.unique _ _ _
  have hstop : ∀ a b, b ∈ tops → ReflTransGen (Edge succ) a b → a = b := by
    intro a b hb hab
    rcases ReflTransGen.cases_tail hab with heq | ⟨c, -, hcb⟩
    · exact heq.symm
    · exact absurd hcb (hfirst b hb c)
  rw [List.map_flatMap, List.nodup_flatMap]
  refine ⟨fun a ha => h.nodup_outline (hlevels a ha) 0, htops.imp_of_mem ?_⟩
  intro a b ha hb hne x hxa hxb
  have hax := ((hlevels a ha).mem_outline _ _).1 hxa
  have hbx := ((hlevels b hb).mem_outline _ _).1 hxb
  rcases ReflTransGen.total_of_right_unique huniq (reflTransGen_swap.2 hax)
    (reflTransGen_swap.2 hbx) with hab | hba
  · exact hne (hstop b a ha (reflTransGen_swap.1 hab)).symm
  · exact hne (hstop a b hb (reflTransGen_swap.1 hba))

/-! ### Reading the depths -/

/-- `a` is in the last of the rows `above` that have depth `k`. -/
def Closest (above : List (α × ℕ)) (k : ℕ) (a : α) : Prop :=
  ∃ before between, above = before ++ (a, k) :: between ∧ ∀ r ∈ between, r.2 ≠ k

lemma Closest.append {above : List (α × ℕ)} {k : ℕ} {a : α} (h : Closest above k a)
    (more : List (α × ℕ)) : Closest (more ++ above) k a := by
  obtain ⟨before, between, rfl, hne⟩ := h
  exact ⟨more ++ before, between, (List.append_assoc ..).symm, hne⟩

/-- The rows hang together from depth `d` on: a row has that depth and is one of the tops,
or the closest row above it and one level up is a row of its parent. -/
def Hangs (parent : α → α → Prop) (top : α → Prop) (d : ℕ) (rows : List (α × ℕ)) : Prop :=
  ∀ above b j below, rows = above ++ (b, j) :: below →
    (j = d ∧ top b) ∨ ∃ k a, j = k + 1 ∧ d ≤ k ∧ Closest above k a ∧ parent a b

namespace Hangs

variable {parent : α → α → Prop} {top : α → Prop} {d : ℕ} {rows more : List (α × ℕ)}

lemma nil : Hangs parent top d [] := by
  intro above b j below h
  simp at h

lemma le (h : Hangs parent top d rows) {r : α × ℕ} (hr : r ∈ rows) : d ≤ r.2 := by
  obtain ⟨above, below, heq⟩ := List.append_of_mem hr
  rcases h above r.1 r.2 below heq with ⟨hj, -⟩ | ⟨k, -, hj, hk, -⟩
  · omega
  · omega

lemma append (h : Hangs parent top d rows) (h' : Hangs parent top d more) :
    Hangs parent top d (rows ++ more) := by
  intro above b j below heq
  rcases List.append_eq_append_iff.1 heq with ⟨first, rfl, hmore⟩ | ⟨last, hrows, hrest⟩
  · -- the row is in the second part
    refine (h' first b j below hmore).imp_right ?_
    rintro ⟨k, a, hj, hk, hclose, hpar⟩
    exact ⟨k, a, hj, hk, hclose.append _, hpar⟩
  · cases last with
    | nil =>
      rw [List.append_nil] at hrows
      refine (h' [] b j below hrest.symm).imp_right ?_
      rintro ⟨k, a, -, -, ⟨before, between, hnil, -⟩, -⟩
      simp at hnil
    | cons r last =>
      obtain ⟨rfl, rfl⟩ := List.cons.inj hrest
      exact h above b j last hrows

lemma flatMap {tops : List α} {list : α → List (α × ℕ)}
    (h : ∀ a ∈ tops, Hangs parent top d (list a)) : Hangs parent top d (tops.flatMap list) := by
  induction tops with
  | nil => exact nil
  | cons a tops ih =>
    rw [List.flatMap_cons]
    exact (h a List.mem_cons_self).append (ih fun b hb => h b (List.mem_cons_of_mem _ hb))

/-- A row under which other rows hang. -/
lemma cons {a : α} (ha : top a) (h : Hangs parent (parent a) (d + 1) rows) :
    Hangs parent top d ((a, d) :: rows) := by
  intro above b j below heq
  cases above with
  | nil =>
    obtain ⟨hrow, -⟩ := List.cons.inj heq
    obtain ⟨rfl, rfl⟩ := Prod.mk.inj hrow
    exact .inl ⟨rfl, ha⟩
  | cons r above =>
    obtain ⟨rfl, hrows⟩ := List.cons.inj heq
    right
    rcases h above b j below hrows with ⟨rfl, hpar⟩ | ⟨k, c, rfl, hk, hclose, hpar⟩
    · refine ⟨d, a, rfl, Nat.le_refl d, ⟨[], above, rfl, fun r hr => ?_⟩, hpar⟩
      have hle := h.le (r := r) (by simp [hrows, hr])
      omega
    · exact ⟨k, c, rfl, by omega, hclose.append [(a, d)], hpar⟩

end Hangs

/-- The rows of an outline hang together. -/
lemma hangs_outline {top : α → Prop} (levels : ℕ) {a : α} (ha : top a) (d : ℕ) :
    Hangs (Edge succ) top d (outline succ levels a d) := by
  induction levels generalizing a d top with
  | zero => exact .nil
  | succ levels ih => exact .cons ha (.flatMap fun b hb => ih hb (d + 1))

end Gcos.Lib.Worklist
