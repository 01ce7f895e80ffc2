import Gcos.Lib.Lists
import Gcos.Lib.Pattern
import Gcos.Lib.Text
import Mathlib.Data.List.DropRight

/-!
# The code in a reply

`gcos/sandbox/extract.py`: `extract_python` scans a reply of the language model for fences
of three backticks, sorts them by their labels and hands out the body of the first one.  The
code that is handed out goes to the sandbox.

The labels that name no Python come last in the order, but they are in it: a reply that has
only such fences is not refused.
-/

namespace Gcos.Sandbox

open Lib Pattern

/-- Three backticks. -/
def ticks : List Char := ['`', '`', '`']

/-- `[a-zA-Z0-9_+\-]`. -/
def isLabelChar (c : Char) : Bool := c.isAlphanum || c == '_' || c == '+' || c == '-'

/-- `_FENCE`. -/
def fencePattern : List Part :=
  [.lit ticks, .many isLabelChar, .many Text.isSpace, .lit ['\n'], .few fun _ => true, .lit ticks]

/-- The groups of a match of `_FENCE`. -/
structure Fence where
  lang : List Char
  body : List Char
deriving DecidableEq, Repr

/-- `list(_FENCE.finditer(text))`. -/
def fences (text : List Char) : List Fence :=
  (findAll fencePattern 0 text).map fun texts => ⟨texts.getD 1 [], texts.getD 4 []⟩

/-- The dictionary `preferred`. -/
def preferred : List (List Char × ℕ) := [(['p', 'y', 't', 'h', 'o', 'n'], 1), (['p', 'y'], 2), ([], 3)]

/-- `str.lower` on a label, which has no letters outside ASCII. -/
def lower (lang : List Char) : List Char := lang.map Char.toLower

/-- `preferred.get(m.group("lang").lower(), 99)`. -/
def Fence.rank (f : Fence) : ℕ := (preferred.lookup (lower f.lang)).getD 99

/-- `body.strip("\n")`. -/
def stripNewlines (body : List Char) : List Char :=
  (body.dropWhile (· == '\n')).rdropWhile (· == '\n')

/-- `extract_python`. -/
def extractPython (text : String) : Option String :=
  if text.toList = [] then none
  else
    match (fences text.toList).insertionSort fun f g => f.rank ≤ g.rank with
    | [] => none
    | f :: _ => some (String.ofList (stripNewlines f.body))

/-- The fence is labelled `python` or `py`, in any case, or it has no label. -/
def Fence.IsPython (f : Fence) : Prop := lower f.lang ∈ preferred.map Prod.fst

instance (f : Fence) : Decidable f.IsPython := inferInstanceAs (Decidable (_ ∈ _))

/-- What `extract_python` promises for a text: it returns nothing if no fence is Python, and
otherwise the body of the first fence with the best label. -/
def SelectsPython (text : String) : Prop :=
  ((∀ f ∈ fences text.toList, ¬f.IsPython) → extractPython text = none) ∧
    ∀ before f after, fences text.toList = before ++ f :: after → f.IsPython →
      (∀ g ∈ before, f.rank < g.rank) → (∀ g ∈ after, f.rank ≤ g.rank) →
        extractPython text = some (String.ofList (stripNewlines f.body))

/-- Whatever the labels are, the body of the first fence of the least rank is returned. -/
lemma extractPython_eq (text : String) :
    extractPython text =
      ((fences text.toList).argmin Fence.rank).map fun f => String.ofList (stripNewlines f.body) := by
  unfold extractPython
  split
  · next hempty =>
    rw [hempty]
    rfl
  · cases hmin : (fences text.toList).argmin Fence.rank with
    | none =>
      rw [List.argmin_eq_none.1 hmin]
      rfl
    | some f => simp [insertionSort_eq_argmin_cons Fence.rank hmin]

/-- **JavaScript is handed out.**  The only fence of the reply is labelled `js`. -/
theorem extracts_javascript :
    (∀ f ∈ fences "```js\nalert(1)\n```".toList, ¬f.IsPython) ∧
      extractPython "```js\nalert(1)\n```" = some "alert(1)" := by
  refine ⟨by decide +kernel, by decide +kernel⟩

/-- **When only Python is extracted.**  A reply is treated as promised exactly when it has no
fence at all, or one that is labelled `python` or `py` or not labelled. -/
theorem selectsPython_iff (text : String) :
    SelectsPython text ↔
      fences text.toList = [] ∨ ∃ f ∈ fences text.toList, f.IsPython := by
  constructor
  · rintro ⟨hnone, -⟩
    by_contra hbad
    push Not at hbad
    obtain ⟨hne, hother⟩ := hbad
    have hanswer := hnone hother
    rw [extractPython_eq, Option.map_eq_none_iff, List.argmin_eq_none] at hanswer
    exact hne hanswer
  · intro hgood
    refine ⟨fun hother => ?_, fun before f after hsplit _ hbefore hafter => ?_⟩
    · rcases hgood with hnil | ⟨f, hf, hpython⟩
      · rw [extractPython_eq, hnil]
        rfl
      · exact absurd hpython (hother f hf)
    · rw [extractPython_eq, hsplit, argmin_append_cons hbefore hafter]
      rfl

end Gcos.Sandbox
