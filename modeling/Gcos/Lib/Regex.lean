import Mathlib.Data.List.Infix
import Mathlib.Tactic.Common

/-!
# Regular expressions with a look at the neighbours

The part of the expressions of `re` that has classes of characters, greedy repetition of a
class, alternatives, one group, word boundaries and a look at the character before.
`Regex.exec` tries the ways to match in the order of a backtracking matcher, and
`Regex.search` finds the leftmost match.

`Regex.Matches` says what a match is, and `search` finds one exactly if there is one
(`search_isSome_iff`, `search_spec`).  A match depends on the text around it only as far as
the neighbours of its ends are looked at (`Matches.congr`).
-/

namespace Gcos.Lib

/-- A regular expression. -/
inductive Regex
  | eps
  /-- `[…]`. -/
  | one (cls : Char → Bool)
  /-- `[…]*`. -/
  | many (cls : Char → Bool)
  | seq (a b : Regex)
  /-- `a|b`. -/
  | alt (a b : Regex)
  /-- `\b`. -/
  | boundary
  /-- `(?<![…])`. -/
  | notAfter (cls : Char → Bool)
  /-- `(?P<…>a)`. -/
  | group (a : Regex)

namespace Regex

/-- A fixed text. -/
def text : List Char → Regex
  | [] => eps
  | c :: s => seq (one (· == c)) (text s)

/-- The first of the alternatives that leads to a match. -/
def oneOf : List Regex → Regex
  | [] => one fun _ => false
  | a :: as => alt a (oneOf as)

/-- The parts one after the other. -/
def parts : List Regex → Regex
  | [] => eps
  | a :: as => seq a (parts as)

/-! ### What a match is -/

variable {β : Type} (word : Char → Bool)

/-- There is a word character. -/
def isWord (c : Option Char) : Bool := c.any word

/-- The character before what comes after `x`. -/
def lastOf (prev : Option Char) (x : List Char) : Option Char := x.getLast?.or prev

/-- The text `x` is a match after the character `prev` and before the text `rest`.  The
group is `g` before the match and `g'` after it. -/
def Matches : Regex → Option Char → List Char → List Char → List Char → List Char → Prop
  | eps, _, g, x, _, g' => x = [] ∧ g' = g
  | one cls, _, g, x, _, g' => ∃ c, x = [c] ∧ cls c = true ∧ g' = g
  | many cls, _, g, x, _, g' => (∀ c ∈ x, cls c = true) ∧ g' = g
  | seq a b, prev, g, x, rest, g' => ∃ y z h, x = y ++ z ∧
      Matches a prev g y (z ++ rest) h ∧ Matches b (lastOf prev y) h z rest g'
  | alt a b, prev, g, x, rest, g' =>
      Matches a prev g x rest g' ∨ Matches b prev g x rest g'
  | boundary, prev, g, x, rest, g' =>
      x = [] ∧ g' = g ∧ isWord word prev ≠ isWord word rest.head?
  | notAfter cls, prev, g, x, _, g' => x = [] ∧ g' = g ∧ prev.any cls = false
  | group a, prev, g, x, rest, g' => g' = x ∧ ∃ h, Matches a prev g x rest h

/-- The expression has a match somewhere in the text. -/
def Occurs (r : Regex) (s : List Char) : Prop :=
  ∃ u x v g, s = u ++ x ++ v ∧ Matches word r u.getLast? [] x v g

/-! ### The matcher -/

/-- As many characters of the class as possible, where `next` matches what comes after. -/
def greedy (cls : Char → Bool) (next : Option Char → List Char → Option β) :
    Option Char → List Char → Option β
  | prev, [] => next prev []
  | prev, c :: s =>
    if cls c then (greedy cls next (some c) s).or (next prev (c :: s)) else next prev (c :: s)

/-- The first way to match the beginning of a text that `next` accepts. -/
def exec : Regex → Option Char → List Char → List Char →
    (Option Char → List Char → List Char → Option β) → Option β
  | eps, prev, s, g, next => next prev s g
  | one _, _, [], _, _ => none
  | one cls, _, c :: s, g, next => if cls c then next (some c) s g else none
  | many cls, prev, s, g, next => greedy cls (fun prev s => next prev s g) prev s
  | seq a b, prev, s, g, next =>
    exec a prev s g fun prev s g => exec b prev s g next
  | alt a b, prev, s, g, next => (exec a prev s g next).or (exec b prev s g next)
  | boundary, prev, s, g, next =>
    if isWord word prev ≠ isWord word s.head? then next prev s g else none
  | notAfter cls, prev, s, g, next => if prev.any cls then none else next prev s g
  | group a, prev, s, g, next =>
    exec a prev s g fun prev' s' _ => next prev' s' (s.take (s.length - s'.length))

/-- A match in a text. -/
structure Found where
  before : List Char
  text : List Char
  after : List Char
  group : List Char
deriving DecidableEq, Repr

/-- The leftmost match that begins after the text `before`. -/
def searchFrom (r : Regex) (before : List Char) : List Char → Option Found
  | [] =>
    (exec word r before.getLast? [] [] fun _ rest g => some (rest, g)).map
      fun m => ⟨before, [], m.1, m.2⟩
  | c :: s =>
    match exec word r before.getLast? (c :: s) [] fun _ rest g => some (rest, g) with
    | some m => some ⟨before, (c :: s).take ((c :: s).length - m.1.length), m.1, m.2⟩
    | none => searchFrom r (before ++ [c]) s

/-- `re.search`. -/
def search (r : Regex) (s : List Char) : Option Found := searchFrom word r [] s

/-! ### The matcher finds the matches -/

@[simp] lemma lastOf_nil (prev : Option Char) : lastOf prev [] = prev := rfl

lemma lastOf_cons (prev : Option Char) (c : Char) (x : List Char) :
    lastOf prev (c :: x) = lastOf (some c) x := by
  cases x with
  | nil => rfl
  | cons d x =>
    rw [lastOf, lastOf, List.getLast?_cons_cons,
      List.getLast?_eq_some_getLast (List.cons_ne_nil d x), Option.some_or, Option.some_or]

lemma lastOf_append (prev : Option Char) (x y : List Char) :
    lastOf prev (x ++ y) = lastOf (lastOf prev x) y := by
  rw [lastOf, List.getLast?_append, Option.or_assoc]
  rfl

lemma lastOf_getLast? (u x : List Char) : lastOf u.getLast? x = (u ++ x).getLast? := by
  rw [List.getLast?_append]
  rfl

variable {word}

section

variable {cls : Char → Bool} {next : Option Char → List Char → Option β} {prev : Option Char}
  {s : List Char} {b : β}

lemma greedy_sound (h : greedy cls next prev s = some b) :
    ∃ x y, s = x ++ y ∧ (∀ c ∈ x, cls c = true) ∧ next (lastOf prev x) y = some b := by
  induction s generalizing prev with
  | nil => exact ⟨[], [], rfl, List.forall_mem_nil _, h⟩
  | cons c s ih =>
    rw [greedy] at h
    split_ifs at h with hc
    · rcases Option.or_eq_some_iff.1 h with hmore | ⟨-, hstop⟩
      · obtain ⟨x, y, rfl, hx, hy⟩ := ih hmore
        exact ⟨c :: x, y, rfl, List.forall_mem_cons.2 ⟨hc, hx⟩, by rwa [lastOf_cons]⟩
      · exact ⟨[], c :: s, rfl, List.forall_mem_nil _, hstop⟩
    · exact ⟨[], c :: s, rfl, List.forall_mem_nil _, h⟩

lemma greedy_complete {x y : List Char} (hx : ∀ c ∈ x, cls c = true)
    (h : (next (lastOf prev x) y).isSome = true) :
    (greedy cls next prev (x ++ y)).isSome = true := by
  induction x generalizing prev with
  | nil =>
    cases y with
    | nil => exact h
    | cons c y =>
      rw [List.nil_append, greedy]
      split_ifs
      · rw [Option.isSome_or]
        exact Bool.or_eq_true_iff.2 (.inr h)
      · exact h
  | cons c x ih =>
    rw [lastOf_cons] at h
    rw [List.cons_append, greedy, if_pos (hx c List.mem_cons_self), Option.isSome_or,
      ih (fun d hd => hx d (List.mem_cons_of_mem c hd)) h, Bool.true_or]

end

section

variable {r : Regex} {prev : Option Char} {s g : List Char} {b : β}
  {next : Option Char → List Char → List Char → Option β}

/-- **The matcher is sound.** -/
lemma exec_sound (h : exec word r prev s g next = some b) :
    ∃ x y g', s = x ++ y ∧ Matches word r prev g x y g' ∧ next (lastOf prev x) y g' = some b := by
  induction r generalizing prev s g next with
  | eps => exact ⟨[], s, g, rfl, ⟨rfl, rfl⟩, h⟩
  | one cls =>
    cases s with
    | nil => simp [exec] at h
    | cons c s =>
      simp only [exec, Option.ite_none_right_eq_some] at h
      exact ⟨[c], s, g, rfl, ⟨c, rfl, h.1, rfl⟩, h.2⟩
  | many cls =>
    obtain ⟨x, y, rfl, hx, hy⟩ := greedy_sound h
    exact ⟨x, y, g, rfl, ⟨hx, rfl⟩, hy⟩
  | seq a b iha ihb =>
    obtain ⟨y, s', g₁, rfl, ha, h⟩ := iha h
    obtain ⟨z, rest, g₂, rfl, hb, h⟩ := ihb h
    refine ⟨y ++ z, rest, g₂, (List.append_assoc y z rest).symm, ⟨y, z, g₁, rfl, ha, hb⟩, ?_⟩
    rwa [lastOf_append]
  | alt a b iha ihb =>
    rcases Option.or_eq_some_iff.1 h with h | ⟨-, h⟩
    · obtain ⟨x, y, g', hs, ha, h⟩ := iha h
      exact ⟨x, y, g', hs, .inl ha, h⟩
    · obtain ⟨x, y, g', hs, hb, h⟩ := ihb h
      exact ⟨x, y, g', hs, .inr hb, h⟩
  | boundary =>
    simp only [exec, Option.ite_none_right_eq_some] at h
    exact ⟨[], s, g, rfl, ⟨rfl, rfl, h.1⟩, h.2⟩
  | notAfter cls =>
    simp only [exec, Option.ite_none_left_eq_some] at h
    exact ⟨[], s, g, rfl, ⟨rfl, rfl, Bool.eq_false_iff.2 h.1⟩, h.2⟩
  | group a iha =>
    obtain ⟨x, y, g', rfl, ha, h⟩ := iha h
    refine ⟨x, y, x, rfl, ⟨rfl, g', ha⟩, ?_⟩
    rwa [List.length_append, Nat.add_sub_cancel_right, List.take_left' rfl] at h

/-- **The matcher is complete.** -/
lemma exec_complete {x y g' : List Char} (hm : Matches word r prev g x y g')
    (h : (next (lastOf prev x) y g').isSome = true) :
    (exec word r prev (x ++ y) g next).isSome = true := by
  induction r generalizing prev x y g g' next with
  | eps =>
    obtain ⟨rfl, rfl⟩ := hm
    exact h
  | one cls =>
    obtain ⟨c, rfl, hc, rfl⟩ := hm
    rw [List.cons_append, List.nil_append, exec, if_pos hc]
    exact h
  | many cls =>
    obtain ⟨hx, rfl⟩ := hm
    exact greedy_complete hx h
  | seq a b iha ihb =>
    obtain ⟨y₁, z, g₁, rfl, ha, hb⟩ := hm
    rw [lastOf_append] at h
    rw [exec, List.append_assoc]
    exact iha ha (ihb hb h)
  | alt a b iha ihb =>
    rw [exec, Option.isSome_or]
    rcases hm with ha | hb
    · rw [iha ha h, Bool.true_or]
    · rw [ihb hb h, Bool.or_true]
  | boundary =>
    obtain ⟨rfl, rfl, hne⟩ := hm
    rw [List.nil_append, exec, if_pos hne]
    exact h
  | notAfter cls =>
    obtain ⟨rfl, rfl, hprev⟩ := hm
    rw [List.nil_append, exec, if_neg (by rw [hprev]; exact Bool.false_ne_true)]
    exact h
  | group a iha =>
    obtain ⟨rfl, g₁, ha⟩ := hm
    refine iha ha ?_
    rwa [List.length_append, Nat.add_sub_cancel_right, List.take_left' rfl]

end

/-! ### The search -/

variable {r : Regex} {s before : List Char} {m : Found}

/-- What a search finds is a match, and there is none that begins before it. -/
structure Leftmost (word : Char → Bool) (r : Regex) (before s : List Char) (m : Found) : Prop where
  whole : before ++ s = m.before ++ m.text ++ m.after
  starts : before <+: m.before
  isMatch : Matches word r m.before.getLast? [] m.text m.after m.group
  first : ∀ u x v g, before <+: u → u.length < m.before.length → before ++ s = u ++ x ++ v →
    ¬Matches word r u.getLast? [] x v g

lemma exec_of_matches {x v g : List Char} (hm : Matches word r before.getLast? [] x v g) :
    (exec word r before.getLast? (x ++ v) [] fun _ rest g => some (rest, g)).isSome = true :=
  exec_complete hm rfl

/-- What the matcher finds at the beginning of `s`. -/
lemma leftmost_here {q : List Char × List Char}
    (h : (exec word r before.getLast? s [] fun _ rest g => some (rest, g)) = some q) :
    Leftmost word r before s ⟨before, s.take (s.length - q.1.length), q.1, q.2⟩ := by
  obtain ⟨x, y, g, rfl, hm, hq⟩ := exec_sound h
  obtain rfl := Option.some.inj hq
  have htake : (x ++ y).take ((x ++ y).length - y.length) = x := by
    rw [List.length_append, Nat.add_sub_cancel_right, List.take_left' rfl]
  refine ⟨?_, List.prefix_refl _, ?_, ?_⟩
  · dsimp only
    rw [htake, List.append_assoc]
  · dsimp only
    rw [htake]
    exact hm
  · intro u x' v g' hu hlt
    exact absurd hu.length_le (Nat.not_le.2 hlt)

lemma searchFrom_sound (h : searchFrom word r before s = some m) :
    Leftmost word r before s m := by
  induction s generalizing before with
  | nil =>
    obtain ⟨q, hq, rfl⟩ := Option.map_eq_some_iff.1 h
    simpa only [List.take_nil] using leftmost_here hq
  | cons c s ih =>
    rw [searchFrom] at h
    split at h
    · next q hq =>
      obtain rfl := Option.some.inj h
      exact leftmost_here hq
    · next hnone =>
      obtain ⟨hwhole, hstarts, hmatch, hfirst⟩ := ih h
      have hsplit : before ++ c :: s = before ++ [c] ++ s := by simp
      refine ⟨by rw [hsplit, hwhole], (List.prefix_append _ _).trans hstarts, hmatch, ?_⟩
      rintro u x v g ⟨d, rfl⟩ hlt htext hm
      cases d with
      | nil =>
        -- a match right here would have been found
        rw [List.append_nil, List.append_assoc] at htext
        rw [List.append_nil] at hm
        have hhere := exec_of_matches hm
        rw [← List.append_cancel_left htext, hnone] at hhere
        cases hhere
      | cons c' d =>
        have hhead : c = c' := by
          rw [List.append_assoc, List.append_assoc] at htext
          exact (List.cons.inj (List.append_cancel_left htext)).1
        subst hhead
        refine hfirst _ x v g ⟨d, by simp⟩ hlt ?_ hm
        rw [← hsplit, htext]

lemma searchFrom_complete {u x v g : List Char} (hu : before <+: u) (hs : before ++ s = u ++ x ++ v)
    (hm : Matches word r u.getLast? [] x v g) : (searchFrom word r before s).isSome = true := by
  induction s generalizing before with
  | nil =>
    obtain ⟨d, rfl⟩ := hu
    rw [List.append_assoc, List.append_assoc] at hs
    obtain ⟨rfl, hxv⟩ := List.append_eq_nil_iff.1 (List.append_cancel_left hs).symm
    obtain ⟨rfl, rfl⟩ := List.append_eq_nil_iff.1 hxv
    rw [List.append_nil] at hm
    rw [searchFrom, Option.isSome_map]
    exact exec_of_matches hm
  | cons c s ih =>
    rw [searchFrom]
    split
    · rfl
    · next hnone =>
      obtain ⟨d, rfl⟩ := hu
      cases d with
      | nil =>
        rw [List.append_nil, List.append_assoc] at hs
        rw [List.append_nil] at hm
        have hhere := exec_of_matches hm
        rw [← List.append_cancel_left hs, hnone] at hhere
        cases hhere
      | cons c' d =>
        rw [List.append_assoc, List.append_assoc] at hs
        obtain ⟨rfl, hrest⟩ := List.cons.inj (List.append_cancel_left hs)
        refine ih ⟨d, by simp⟩ ?_
        rw [hrest]
        simp

/-- **The search finds a match exactly if there is one.** -/
theorem search_isSome_iff : (search word r s).isSome = true ↔ Occurs word r s := by
  constructor
  · intro h
    obtain ⟨m, hm⟩ := Option.isSome_iff_exists.1 h
    obtain ⟨hwhole, -, hmatch, -⟩ := searchFrom_sound hm
    exact ⟨m.before, m.text, m.after, m.group, hwhole, hmatch⟩
  · rintro ⟨u, x, v, g, hs, hm⟩
    exact searchFrom_complete (List.nil_prefix) hs hm

/-- **And it finds the leftmost one.** -/
theorem search_spec (h : search word r s = some m) :
    s = m.before ++ m.text ++ m.after ∧
      Matches word r m.before.getLast? [] m.text m.after m.group ∧
      ∀ u x v g, u.length < m.before.length → s = u ++ x ++ v →
        ¬Matches word r u.getLast? [] x v g := by
  obtain ⟨hwhole, -, hmatch, hfirst⟩ := searchFrom_sound h
  exact ⟨hwhole, hmatch, fun u x v g hlt hs => hfirst u x v g List.nil_prefix hlt hs⟩

/-! ### The neighbours -/

/-- The expression cannot tell the two characters before it apart. -/
def SameBefore (word : Char → Bool) (prev prev' : Option Char) : Regex → Prop
  | eps | one _ | many _ => True
  | seq a b | alt a b => SameBefore word prev prev' a ∧ SameBefore word prev prev' b
  | boundary => isWord word prev = isWord word prev'
  | notAfter cls => prev.any cls = prev'.any cls
  | group a => SameBefore word prev prev' a

lemma sameBefore_refl (prev : Option Char) (r : Regex) : SameBefore word prev prev r := by
  induction r with
  | eps | one _ | many _ => trivial
  | seq a b iha ihb | alt a b iha ihb => exact ⟨iha, ihb⟩
  | boundary | notAfter _ => rfl
  | group a iha => exact iha

@[simp] lemma sameBefore_text {prev prev' : Option Char} {t : List Char} :
    SameBefore word prev prev' (text t) := by
  induction t with
  | nil => trivial
  | cons c t ih => exact ⟨trivial, ih⟩

lemma sameBefore_lastOf {prev prev' : Option Char} (h : SameBefore word prev prev' r)
    (x : List Char) : SameBefore word (lastOf prev x) (lastOf prev' x) r := by
  rcases List.eq_nil_or_concat x with rfl | ⟨y, c, rfl⟩
  · exact h
  · have hlast : ∀ p, lastOf p (y ++ [c]) = some c := fun p => by simp [lastOf]
    rw [List.concat_eq_append, hlast, hlast]
    exact sameBefore_refl _ _

/-- **A match stays one in other surroundings** that look the same to it. -/
theorem Matches.congr {prev prev' : Option Char} {g x rest rest' g' : List Char}
    (hm : Matches word r prev g x rest g') (hprev : SameBefore word prev prev' r)
    (hrest : isWord word rest.head? = isWord word rest'.head?) :
    Matches word r prev' g x rest' g' := by
  induction r generalizing prev prev' g x rest rest' g' with
  | eps | one _ | many _ => exact hm
  | seq a b iha ihb =>
    obtain ⟨y, z, h, rfl, ha, hb⟩ := hm
    refine ⟨y, z, h, rfl, iha ha hprev.1 ?_, ihb hb (sameBefore_lastOf hprev.2 y) hrest⟩
    cases z with
    | nil => exact hrest
    | cons c z => rfl
  | alt a b iha ihb =>
    rcases hm with ha | hb
    · exact .inl (iha ha hprev.1 hrest)
    · exact .inr (ihb hb hprev.2 hrest)
  | boundary =>
    obtain ⟨rfl, rfl, hne⟩ := hm
    have hprev' : isWord word prev = isWord word prev' := hprev
    exact ⟨rfl, rfl, by rwa [← hprev', ← hrest]⟩
  | notAfter cls =>
    obtain ⟨rfl, rfl, hnot⟩ := hm
    have hprev' : prev.any cls = prev'.any cls := hprev
    exact ⟨rfl, rfl, by rwa [← hprev']⟩
  | group a iha =>
    obtain ⟨rfl, h, ha⟩ := hm
    exact ⟨rfl, h, iha ha hprev hrest⟩

/-- **What occurs in a text occurs in a longer one**, if the neighbours of the text look like
its ends. -/
theorem Occurs.pad {u v : List Char} (h : Occurs word r s)
    (hu : SameBefore word none u.getLast? r) (hv : isWord word v.head? = false) :
    Occurs word r (u ++ s ++ v) := by
  obtain ⟨a, x, b, g, rfl, hm⟩ := h
  refine ⟨u ++ a, x, b ++ v, g, by simp, hm.congr ?_ ?_⟩
  · rw [← lastOf_getLast?]
    have hnone : a.getLast? = lastOf none a := by simp [lastOf]
    rw [hnone]
    exact sameBefore_lastOf hu a
  · cases b with
    | nil => exact hv.symm
    | cons c b => rfl

/-! ### Matches of no characters -/

/-- Every match has a character. -/
def consumes : Regex → Bool
  | eps | many _ | boundary | notAfter _ => false
  | one _ => true
  | seq a b => a.consumes || b.consumes
  | alt a b => a.consumes && b.consumes
  | group a => a.consumes

lemma Matches.ne_nil {prev : Option Char} {g x rest g' : List Char}
    (hm : Matches word r prev g x rest g') (hr : r.consumes = true) : x ≠ [] := by
  induction r generalizing prev g x rest g' with
  | eps | many _ | boundary | notAfter _ => cases hr
  | one _ =>
    obtain ⟨c, rfl, -⟩ := hm
    exact List.cons_ne_nil c []
  | seq a b iha ihb =>
    obtain ⟨y, z, h, rfl, ha, hb⟩ := hm
    rw [Ne, List.append_eq_nil_iff, not_and_or]
    exact (Bool.or_eq_true_iff.1 hr).imp (iha ha) (ihb hb)
  | alt a b iha ihb =>
    obtain ⟨hca, hcb⟩ := Bool.and_eq_true_iff.1 hr
    exact hm.elim (fun ha => iha ha hca) fun hb => ihb hb hcb
  | group a iha =>
    obtain ⟨-, h, ha⟩ := hm
    exact iha ha hr

/-! ### The matches of the usual expressions -/

variable {prev : Option Char} {g x rest g' : List Char}

lemma matches_text {t : List Char} :
    Matches word (text t) prev g x rest g' ↔ x = t ∧ g' = g := by
  induction t generalizing prev g x with
  | nil => rfl
  | cons c t ih =>
    constructor
    · rintro ⟨y, z, h, rfl, ⟨d, rfl, hd, rfl⟩, hz⟩
      obtain ⟨rfl, rfl⟩ := ih.1 hz
      rw [beq_iff_eq.1 hd]
      exact ⟨rfl, rfl⟩
    · rintro ⟨rfl, rfl⟩
      exact ⟨[c], t, g', rfl, ⟨c, rfl, beq_self_eq_true c, rfl⟩, ih.2 ⟨rfl, rfl⟩⟩

lemma matches_oneOf {as : List Regex} :
    Matches word (oneOf as) prev g x rest g' ↔ ∃ a ∈ as, Matches word a prev g x rest g' := by
  induction as with
  | nil => simp [oneOf, Matches]
  | cons a as ih => simp [oneOf, Matches, ih]

end Regex

end Gcos.Lib
