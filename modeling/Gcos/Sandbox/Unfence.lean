import Gcos.Sandbox.Reply

/-!
# Fencing and extraction

Code that is fenced with the label `python` comes back from the extraction as it was, but
for the blank lines before it and the newlines at its ends; other labelled blocks around it
make no difference.
-/

namespace Gcos.Sandbox

open Lib Pattern

/-! ### Blank lines -/

/-- The line is only white space. -/
def isBlank (l : List Char) : Bool := l.all Text.isSpace

/-- The text without the blank lines at its beginning. -/
def dropBlankLines (x : List Char) : List Char :=
  ['\n'].intercalate ((x.splitOn '\n').dropWhile isBlank)

/-- White space is given back up to its last newline. -/
def afterBreak (x : List Char) : List Char :=
  ('\n' :: x.takeWhile Text.isSpace).rtakeWhile (· ≠ '\n') ++ x.dropWhile Text.isSpace

lemma rtakeWhile_newline (x : List Char) :
    ('\n' :: x).rtakeWhile (· ≠ '\n') = x.rtakeWhile (· ≠ '\n') :=
  @rtakeWhile_append_cons _ _ [] x '\n' (by decide)

lemma rtakeWhile_line {x : List Char} (hx : '\n' ∉ x) :
    ('\n' :: x).rtakeWhile (· ≠ '\n') = x := by
  rw [rtakeWhile_newline, List.rtakeWhile_eq_self_iff]
  intro c hc
  have hne : c ≠ '\n' := fun h => hx (h ▸ hc)
  simpa using hne

/-- White space up to its last newline is the blank lines that a text begins with. -/
lemma afterBreak_lines {ls : List (List Char)} (hls : ∀ l ∈ ls, '\n' ∉ l) :
    afterBreak (ls.flatMap (· ++ ['\n'])) = (ls.dropWhile isBlank).flatMap (· ++ ['\n']) := by
  induction ls with
  | nil => decide
  | cons l ls ih =>
    have hl := hls l List.mem_cons_self
    have ih := ih fun k hk => hls k (List.mem_cons_of_mem l hk)
    rw [List.flatMap_cons, List.append_assoc, List.singleton_append]
    by_cases hblank : isBlank l
    · have hspace : ∀ c ∈ l, Text.isSpace c = true := List.all_eq_true.1 hblank
      rw [List.dropWhile_cons_of_pos hblank, ← ih, afterBreak, afterBreak,
        List.takeWhile_append_of_pos hspace, List.dropWhile_append_of_pos hspace,
        List.takeWhile_cons_of_pos isSpace_newline, List.dropWhile_cons_of_pos isSpace_newline,
        ← List.cons_append, rtakeWhile_append_cons (by decide), rtakeWhile_newline]
    · have hstop : (l.dropWhile Text.isSpace) ≠ [] := fun hnil =>
        hblank (List.all_eq_true.2 (List.dropWhile_eq_nil_iff.1 hnil))
      have hshort : (l.takeWhile Text.isSpace).length ≠ l.length := fun hlen => by
        have hsplit := congrArg List.length (List.takeWhile_append_dropWhile (p := Text.isSpace) (l := l))
        rw [List.length_append, hlen] at hsplit
        exact hstop (List.length_eq_zero_iff.1 (by omega))
      have hplain : '\n' ∉ l.takeWhile Text.isSpace := fun hmem =>
        hl ((List.takeWhile_prefix _).subset hmem)
      rw [List.dropWhile_cons_of_neg hblank, afterBreak, List.takeWhile_append, if_neg hshort,
        rtakeWhile_line hplain, List.dropWhile_append, if_neg (by simpa using hstop),
        ← List.append_assoc, List.takeWhile_append_dropWhile, List.flatMap_cons, List.append_assoc]
      rfl

/-- What is left of a text with a newline after it. -/
lemma stripNewlines_afterBreak (x : List Char) :
    stripNewlines (afterBreak (x ++ ['\n'])) = stripNewlines (dropBlankLines x) := by
  have hlines : x ++ ['\n'] = (x.splitOn '\n').flatMap (· ++ ['\n']) := by
    rw [← intercalate_append_singleton (List.splitOn_ne_nil _ _), List.intercalate_splitOn]
  rw [hlines, afterBreak_lines not_mem_of_mem_splitOn, dropBlankLines]
  cases hrest : (x.splitOn '\n').dropWhile isBlank with
  | nil => rfl
  | cons l ls =>
    rw [← intercalate_append_singleton (List.cons_ne_nil l ls), stripNewlines_concat]

/-! ### Labelled blocks -/

/-- The line after the opening backticks is a label. -/
def Block.Labelled (b : Block) : Prop := ∀ c ∈ b.info, isLabelChar c = true

lemma Block.Labelled.span {b : Block} (hb : b.Labelled) :
    label (Stretch.block b).text = b.info ∧
      gap (Stretch.block b).text = '\n' :: (b.text ++ ['\n']).takeWhile Text.isSpace ∧
      afterGap (Stretch.block b).text = (b.text ++ ['\n']).dropWhile Text.isSpace := by
  have hlabel : label (Stretch.block b).text = b.info := by
    rw [label, Stretch.text, List.takeWhile_append_of_pos hb,
      List.takeWhile_cons_of_neg (by decide), List.append_nil]
  have hrest : (Stretch.block b).text.dropWhile isLabelChar = '\n' :: (b.text ++ ['\n']) := by
    rw [Stretch.text, List.dropWhile_append_of_pos hb, List.dropWhile_cons_of_neg (by decide)]
  refine ⟨hlabel, ?_, ?_⟩
  · rw [gap, hrest, List.takeWhile_cons_of_pos isSpace_newline]
  · rw [afterGap, hrest, List.dropWhile_cons_of_pos isSpace_newline]

lemma Block.Labelled.opens {b : Block} (hb : b.Labelled) : Opens (Stretch.block b).text := by
  rw [Opens, hb.span.2.1]
  exact List.mem_cons_self

lemma Block.Labelled.fenceOf {b : Block} (hb : b.Labelled) :
    fenceOf (Stretch.block b).text = ⟨b.info, afterBreak (b.text ++ ['\n'])⟩ := by
  obtain ⟨hlabel, hgap, hafter⟩ := hb.span
  rw [Sandbox.fenceOf, hlabel, hgap, hafter]
  rfl

/-- The block has a label, and it is not `python`. -/
structure Block.IsOther (b : Block) : Prop where
  labelled : b.Labelled
  nonempty : b.info ≠ []
  other : lower b.info ≠ ['p', 'y', 't', 'h', 'o', 'n']

lemma Block.IsOther.rank {b : Block} (hb : b.IsOther) : 1 < (Stretch.block b).rank := by
  have hlower : lower b.info ≠ [] := fun h => hb.nonempty (List.map_eq_nil_iff.1 h)
  rw [Stretch.rank, hb.labelled.fenceOf, Fence.rank, preferred]
  simp only [List.lookup_cons, List.lookup_nil, beq_eq_false_iff_ne.2 hb.other,
    beq_eq_false_iff_ne.2 hlower]
  split
  · decide
  · decide

/-- Code as a block. -/
def pythonBlock (body : List Char) (hbody : ¬ticks <:+: body) : Block where
  info := ['p', 'y', 't', 'h', 'o', 'n']
  text := body
  line := by decide
  plain := by decide
  closed := hbody

lemma pythonBlock_labelled (body : List Char) (hbody : ¬ticks <:+: body) :
    (pythonBlock body hbody).Labelled := by
  have hlabel : ['p', 'y', 't', 'h', 'o', 'n'].all isLabelChar = true := by decide
  exact List.all_eq_true.1 hlabel

/-- The code is extracted from among the other blocks. -/
lemma extractPython_pythonBlock (opening p : Prose) {body : List Char} (hbody : ¬ticks <:+: body)
    {before after : List (Block × Prose)} (hbefore : ∀ x ∈ before, x.1.IsOther)
    (hafter : ∀ x ∈ after, x.1.IsOther) :
    extractPython (Reply.render ⟨opening, before ++ (pythonBlock body hbody, p) :: after⟩) =
      some (String.ofList (stripNewlines (dropBlankLines body))) := by
  have hlabelled : ∀ x ∈ before ++ (pythonBlock body hbody, p) :: after, x.1.Labelled := by
    intro x hx
    rcases List.mem_append.1 hx with hx | hx
    · exact (hbefore x hx).labelled
    · rcases List.mem_cons.1 hx with rfl | hx
      · exact pythonBlock_labelled body hbody
      · exact (hafter x hx).labelled
  have hrank : (Stretch.block (pythonBlock body hbody)).rank = 1 := by
    rw [Stretch.rank, (pythonBlock_labelled body hbody).fenceOf]
    rfl
  have hmin : (Reply.read ⟨opening, before ++ (pythonBlock body hbody, p) :: after⟩).argmin
      Stretch.rank = some (.block (pythonBlock body hbody)) := by
    rw [Reply.read, readings_stretches fun x hx => (hlabelled x hx).opens, List.map_append,
      List.map_cons]
    refine argmin_append_cons (fun k hk => ?_) fun k hk => ?_
    · obtain ⟨x, hx, rfl⟩ := List.mem_map.1 hk
      rw [hrank]
      exact (hbefore x hx).rank
    · obtain ⟨x, hx, rfl⟩ := List.mem_map.1 hk
      rw [hrank]
      exact (hafter x hx).rank.le
  rw [extractPython_render, hmin, Option.map_some, (pythonBlock_labelled body hbody).fenceOf,
    ← stripNewlines_afterBreak]
  rfl

lemma render_pythonBlock (opening p : Prose) {body : List Char} (hbody : ¬ticks <:+: body)
    (before after : List (Block × Prose)) :
    Reply.render ⟨opening, before ++ (pythonBlock body hbody, p) :: after⟩ =
      String.ofList opening.text ++ String.ofList (renderBlocks before) ++ "```python\n" ++
        String.ofList body ++ "\n```" ++ String.ofList p.text ++
        String.ofList (renderBlocks after) := by
  refine String.toList_injective ?_
  simp [Reply.render, renderBlocks, Block.render, pythonBlock, ticks]

/-- **Extraction undoes fencing.**  Code in a `python` fence between prose comes back without
the blank lines before it and the newlines at its ends, and the same is extracted if there
are other labelled blocks before and after it. -/
theorem extractPython_fenced (opening p : Prose) {body : List Char} (hbody : ¬ticks <:+: body)
    {before after : List (Block × Prose)} (hbefore : ∀ x ∈ before, x.1.IsOther)
    (hafter : ∀ x ∈ after, x.1.IsOther) :
    extractPython (String.ofList opening.text ++ "```python\n" ++ String.ofList body ++ "\n```" ++
        String.ofList p.text) =
      some (String.ofList (stripNewlines (dropBlankLines body))) ∧
    extractPython (String.ofList opening.text ++ String.ofList (renderBlocks before) ++
        "```python\n" ++ String.ofList body ++ "\n```" ++ String.ofList p.text ++
        String.ofList (renderBlocks after)) =
      some (String.ofList (stripNewlines (dropBlankLines body))) := by
  constructor
  · have halone : extractPython (Reply.render ⟨opening, [] ++ [(pythonBlock body hbody, p)]⟩) = _ :=
      extractPython_pythonBlock opening p hbody nofun nofun
    rw [render_pythonBlock] at halone
    simpa [renderBlocks] using halone
  · rw [← render_pythonBlock opening p hbody]
    exact extractPython_pythonBlock opening p hbody hbefore hafter

/-- Two lines after a blank one, alone and after a block in JavaScript. -/
theorem extractPython_fenced_two_lines :
    extractPython (String.ofList ['H', 'i'] ++ "```python\n" ++
        String.ofList ['\n', ' ', 'x', '\n', 'y', '\n'] ++ "\n```" ++ String.ofList ['.']) =
      some (String.ofList [' ', 'x', '\n', 'y']) ∧
    extractPython (String.ofList ['H', 'i'] ++
        String.ofList (ticks ++ ['j', 's', '\n', 'z', '\n'] ++ ticks ++ ['\n']) ++ "```python\n" ++
        String.ofList ['\n', ' ', 'x', '\n', 'y', '\n'] ++ "\n```" ++ String.ofList ['.'] ++
        String.ofList []) =
      some (String.ofList [' ', 'x', '\n', 'y']) := by
  have hjs : Block.IsOther ⟨['j', 's'], ['z'], by decide, by decide, by decide⟩ :=
    ⟨List.all_eq_true.1 (by decide), by decide, by decide⟩
  have hbefore : ∀ x ∈ [((⟨['j', 's'], ['z'], by decide, by decide, by decide⟩ : Block),
      (⟨['\n'], by decide⟩ : Prose))], x.1.IsOther := by
    intro x hx
    rw [List.mem_singleton.1 hx]
    exact hjs
  have hcode : stripNewlines (dropBlankLines ['\n', ' ', 'x', '\n', 'y', '\n']) =
      [' ', 'x', '\n', 'y'] := by decide
  have hfenced := extractPython_fenced ⟨['H', 'i'], by decide⟩ ⟨['.'], by decide⟩
    (by decide : ¬ticks <:+: ['\n', ' ', 'x', '\n', 'y', '\n']) hbefore
    (List.forall_mem_nil fun x : Block × Prose => x.1.IsOther)
  rw [hcode] at hfenced
  exact hfenced

end Gcos.Sandbox
