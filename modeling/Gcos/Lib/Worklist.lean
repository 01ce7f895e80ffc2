import Mathlib.Data.List.Nodup
import Mathlib.Logic.Relation
import Mathlib.Tactic.Common

/-!
# Traversal with a stack and no record of what was visited

`visit succ` is the loop that pops a node, records it, and pushes its successors.  It
keeps no set of visited nodes, so it ends only where there is no cycle, and meets a node
twice where two paths lead to it.  In a *forest* (a measure decreases along the edges, no
successor is listed twice and no node has two predecessors) the loop visits every node
that can be reached exactly once; `visit_forest` is the rule for its use.
-/

namespace Gcos.Lib.Worklist

open Relation

variable {α : Type}

/-- The loop.  The top of the stack is the head of the list; `none` says that the fuel
did not suffice. -/
def visit (succ : α → List α) : ℕ → List α → List α → Option (List α)
  | _, [], out => some out
  | 0, _ :: _, _ => none
  | fuel + 1, cur :: stack, out => visit succ fuel ((succ cur).reverse ++ stack) (out ++ [cur])

/-- The edges along which the loop moves. -/
def Edge (succ : α → List α) (a b : α) : Prop := b ∈ succ a

/-- What makes the loop visit everything once. -/
structure Forest (succ : α → List α) (depth : α → ℕ) : Prop where
  /-- The measure decreases along the edges. -/
  decreasing : ∀ a b, b ∈ succ a → depth b < depth a
  /-- No successor is listed twice. -/
  nodup : ∀ a, (succ a).Nodup
  /-- No node has two predecessors. -/
  unique : ∀ a b c, c ∈ succ a → c ∈ succ b → a = b

/-- `list` is what the loop does with `a`: it takes one unit of fuel for every entry and
appends the list to the record. -/
structure Visits (succ : α → List α) (a : α) (list : List α) : Prop where
  /-- The nodes that can be reached, and no others. -/
  mem_iff : ∀ b, b ∈ list ↔ ReflTransGen (Edge succ) a b
  /-- Each of them once. -/
  nodup : list.Nodup
  /-- The effect on the stack and on the record. -/
  run : ∀ fuel stack out,
    visit succ (list.length + fuel) (a :: stack) out = visit succ fuel stack (out ++ list)

variable {succ : α → List α} {depth : α → ℕ}

lemma visit_nil (fuel : ℕ) (out : List α) : visit succ fuel [] out = some out := by
  cases fuel <;> rfl

/-- More fuel does not change an answer. -/
lemma visit_mono {fuel : ℕ} {stack out answer : List α}
    (h : visit succ fuel stack out = some answer) (more : ℕ) :
    visit succ (fuel + more) stack out = some answer := by
  induction fuel generalizing stack out with
  | zero =>
    cases stack with
    | nil => rw [visit_nil] at h ⊢; exact h
    | cons a stack => cases h
  | succ fuel ih =>
    cases stack with
    | nil => rw [visit_nil] at h ⊢; exact h
    | cons a stack =>
      rw [Nat.add_right_comm]
      exact ih h

/-- Two amounts of fuel that suffice give the same answer. -/
lemma visit_unique {fuel fuel' : ℕ} {stack out answer answer' : List α}
    (h : visit succ fuel stack out = some answer) (h' : visit succ fuel' stack out = some answer') :
    answer = answer' := by
  have hmore := visit_mono h fuel'
  rw [Nat.add_comm, visit_mono h' fuel] at hmore
  exact (Option.some.inj hmore).symm

namespace Forest

variable (h : Forest succ depth)
include h

lemma depth_le {a b : α} (hab : ReflTransGen (Edge succ) a b) : depth b ≤ depth a := by
  induction hab with
  | refl => exact Nat.le_refl _
  | tail _ hbc ih => exact Nat.le_trans (Nat.le_of_lt (h.decreasing _ _ hbc)) ih

/-- No node reaches itself. -/
lemma irrefl {a b : α} (hab : TransGen (Edge succ) a b) : a ≠ b := by
  rintro rfl
  obtain ⟨b, hab, hba⟩ := TransGen.head'_iff.1 hab
  have hlt := h.decreasing _ _ hab
  have hle := h.depth_le hba
  omega

/-- What two successors of one node reach is disjoint. -/
lemma eq_of_common {a b c d : α} (hb : b ∈ succ a) (hc : c ∈ succ a)
    (hbd : ReflTransGen (Edge succ) b d) (hcd : ReflTransGen (Edge succ) c d) : b = c := by
  have huniq : Relator.RightUnique (Function.swap (Edge succ)) := fun _ _ _ => h.unique _ _ _
  -- a path from one successor to the other would have to enter it through `a`
  have hstop : ∀ x y, x ∈ succ a → y ∈ succ a → ReflTransGen (Edge succ) x y → x = y := by
    intro x y hx hy hxy
    rcases ReflTransGen.cases_tail hxy with hyx | ⟨z, hxz, hzy⟩
    · exact hyx.symm
    · obtain rfl := h.unique _ _ _ hzy hy
      have hlt := h.decreasing _ _ hx
      have hle := h.depth_le hxz
      omega
  rcases ReflTransGen.total_of_right_unique huniq (reflTransGen_swap.2 hbd)
    (reflTransGen_swap.2 hcd) with hbc | hcb
  · exact (hstop c b hc hb (reflTransGen_swap.1 hbc)).symm
  · exact hstop b c hb hc (reflTransGen_swap.1 hcb)

end Forest

/-- The effect of the loop on a stack of nodes for which it is known. -/
lemma visit_flatMap {order : α → List α} (nodes : List α)
    (hnodes : ∀ a ∈ nodes, Visits succ a (order a)) (fuel : ℕ) (stack out : List α) :
    visit succ ((nodes.flatMap order).length + fuel) (nodes ++ stack) out =
      visit succ fuel stack (out ++ nodes.flatMap order) := by
  induction nodes generalizing out with
  | nil => simp
  | cons a nodes ih =>
    have ha := hnodes a List.mem_cons_self
    rw [List.flatMap_cons, List.length_append, Nat.add_assoc, List.cons_append, ha.run,
      ih fun b hb => hnodes b (List.mem_cons_of_mem _ hb), List.append_assoc]

/-- The successors' records make up a record of what the node reaches. -/
lemma Forest.nodup_flatMap (h : Forest succ depth) {a : α} {order : α → List α}
    (horder : ∀ b ∈ succ a, Visits succ b (order b)) :
    ((succ a).reverse.flatMap order).Nodup := by
  rw [List.nodup_flatMap]
  refine ⟨fun b hb => (horder b (List.mem_reverse.1 hb)).nodup, ?_⟩
  rw [List.pairwise_reverse]
  refine (h.nodup a).imp_of_mem ?_
  intro b c hb hc hne d hd hd'
  exact hne (h.eq_of_common hb hc (((horder b hb).mem_iff d).1 hd')
    (((horder c hc).mem_iff d).1 hd))

lemma mem_flatMap_iff {a : α} {order : α → List α}
    (horder : ∀ b ∈ succ a, Visits succ b (order b)) (c : α) :
    c ∈ (succ a).reverse.flatMap order ↔ TransGen (Edge succ) a c := by
  rw [List.mem_flatMap, TransGen.head'_iff]
  constructor
  · rintro ⟨b, hb, hc⟩
    have hb' := List.mem_reverse.1 hb
    exact ⟨b, hb', ((horder b hb').mem_iff c).1 hc⟩
  · rintro ⟨b, hb, hc⟩
    exact ⟨b, List.mem_reverse.2 hb, ((horder b hb).mem_iff c).2 hc⟩

/-- In a forest the loop gets through with every node. -/
theorem Forest.exists_visits (h : Forest succ depth) (a : α) : ∃ list, Visits succ a list := by
  -- by induction on the measure of the node
  induction hd : depth a using Nat.strongRecOn generalizing a with
  | _ d ih =>
    subst hd
    have hsucc : ∀ b, ∃ list, b ∈ succ a → Visits succ b list := by
      intro b
      by_cases hb : b ∈ succ a
      · obtain ⟨list, hlist⟩ := ih _ (h.decreasing a b hb) b rfl
        exact ⟨list, fun _ => hlist⟩
      · exact ⟨[], fun hb' => absurd hb' hb⟩
    choose order horder using hsucc
    refine ⟨a :: (succ a).reverse.flatMap order, fun b => ?_, ?_, fun fuel stack out => ?_⟩
    · rw [List.mem_cons, mem_flatMap_iff horder, reflTransGen_iff_eq_or_transGen]
    · refine List.nodup_cons.2 ⟨fun ha => ?_, h.nodup_flatMap horder⟩
      exact h.irrefl ((mem_flatMap_iff horder a).1 ha) rfl
    · rw [List.length_cons, Nat.add_right_comm]
      change visit succ _ ((succ a).reverse ++ stack) (out ++ [a]) = _
      rw [visit_flatMap _ fun b hb => horder b (List.mem_reverse.1 hb)]
      simp

/-- **The loop in a forest.**  Started with the successors of a node, it ends, and has
recorded everything below the node exactly once, and not the node itself. -/
theorem Forest.visit_forest (h : Forest succ depth) (a : α) :
    ∃ answer : List α, (∀ fuel, answer.length ≤ fuel →
        visit succ fuel (succ a).reverse [] = some answer) ∧
      answer.Nodup ∧ a ∉ answer ∧ ∀ b, b ∈ answer ↔ TransGen (Edge succ) a b := by
  choose order horder using h.exists_visits
  have hmem := mem_flatMap_iff (a := a) fun b _ => horder b
  refine ⟨(succ a).reverse.flatMap order, fun fuel hfuel => ?_,
    h.nodup_flatMap fun b _ => horder b, fun ha => h.irrefl ((hmem a).1 ha) rfl, hmem⟩
  obtain ⟨more, rfl⟩ := Nat.exists_eq_add_of_le hfuel
  have hvisit := visit_flatMap (succ a).reverse (fun b _ => horder b) more [] []
  rwa [List.append_nil, List.nil_append, visit_nil] at hvisit

end Gcos.Lib.Worklist
