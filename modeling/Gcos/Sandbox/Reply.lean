import Gcos.Sandbox.Scan

/-!
# Replies with fenced blocks

A reply in Markdown is prose with fenced blocks in it.  What the scan reads are stretches
between backticks, some of them blocks and some of them prose: where the line after the
opening backticks of a block is more than a label, the closing backticks are taken for
opening ones.
-/

namespace Gcos.Sandbox

open Lib Pattern

/-- A fenced block: a line after the opening backticks, and a text that they do not close. -/
structure Block where
  info : List Char
  text : List Char
  line : '\n' ∉ info
  plain : '`' ∉ info
  closed : ¬ticks <:+: text

/-- Prose without backticks. -/
structure Prose where
  text : List Char
  plain : '`' ∉ text

/-- Prose, and blocks with prose after each. -/
structure Reply where
  opening : Prose
  blocks : List (Block × Prose)

/-- What stands between backticks in a reply. -/
inductive Stretch
  | block (b : Block)
  | prose (p : Prose)

/-- A block in a reply. -/
def Block.render (b : Block) : List Char :=
  ticks ++ b.info ++ ['\n'] ++ b.text ++ ['\n'] ++ ticks

/-- The text of blocks with prose after each. -/
def renderBlocks (bs : List (Block × Prose)) : List Char :=
  bs.flatMap fun x => x.1.render ++ x.2.text

/-- The text of a reply. -/
def Reply.render (r : Reply) : String := String.ofList (r.opening.text ++ renderBlocks r.blocks)

/-- What stands between the backticks of a block, or after them. -/
def Stretch.text : Stretch → List Char
  | .block b => b.info ++ '\n' :: (b.text ++ ['\n'])
  | .prose p => p.text

/-- The stretches of blocks with prose after each. -/
def stretches (bs : List (Block × Prose)) : List Stretch :=
  bs.flatMap fun x => [.block x.1, .prose x.2]

/-- The rank that a stretch has if it is read as a fence. -/
def Stretch.rank (k : Stretch) : ℕ := (fenceOf k.text).rank

/-- The stretches of a reply that are read as fences. -/
def Reply.read (r : Reply) : List Stretch := readings Stretch.text (stretches r.blocks)

lemma renderBlocks_cons (x : Block × Prose) (bs : List (Block × Prose)) :
    renderBlocks (x :: bs) = x.1.render ++ x.2.text ++ renderBlocks bs := rfl

lemma stretches_cons (x : Block × Prose) (bs : List (Block × Prose)) :
    stretches (x :: bs) = .block x.1 :: .prose x.2 :: stretches bs := rfl

lemma renderBlocks_eq (bs : List (Block × Prose)) :
    renderBlocks bs = fenced ((stretches bs).map Stretch.text) := by
  induction bs with
  | nil => rfl
  | cons x bs ih =>
    rw [renderBlocks_cons, ih, stretches_cons, List.map_cons, List.map_cons, fenced_cons,
      fenced_cons, Block.render, Stretch.text, Stretch.text]
    simp only [List.append_assoc, List.cons_append, List.nil_append]

/-! ### The stretches of a reply -/

lemma Block.clean (b : Block) : Clean (Stretch.block b).text where
  last := by
    rw [Stretch.text, ← List.cons_append, ← List.append_assoc, List.getLast?_concat]
    decide
  inside := fun hinside => by
    have hbreak : '\n' ∉ ticks := by decide
    rcases infix_append_cons hbreak hinside with hinfo | htext
    · exact b.plain (hinfo.subset List.mem_cons_self)
    · rcases infix_append_cons hbreak htext with htext | hnil
      · exact b.closed htext
      · exact absurd hnil.length_le (by decide)

lemma Stretch.clean (k : Stretch) : Clean k.text := by
  cases k with
  | block b => exact b.clean
  | prose p => exact clean_of_not_mem p.plain

lemma Stretch.head_ne (k : Stretch) : k.text.head? ≠ some '`' := by
  cases k with
  | block b =>
    rw [Stretch.text]
    cases hinfo : b.info with
    | nil => exact fun hhead => absurd (Option.some.inj hhead) (by decide)
    | cons c info =>
      rintro hc
      obtain rfl : c = '`' := Option.some.inj hc
      exact b.plain (hinfo ▸ List.mem_cons_self)
  | prose p => exact fun hhead => p.plain (List.mem_of_head? hhead)

/-- The scan of a reply. -/
lemma fences_render (r : Reply) :
    fences r.render.toList = r.read.map fun k => fenceOf k.text := by
  have hpass : ∀ v, v <:+ r.opening.text → v ≠ [] →
      matchAt fencePattern (v ++ fenced ((stretches r.blocks).map Stretch.text)) = none :=
    fun v hv hne => matchAt_fencePattern_of_not_isPrefix
      ((clean_of_not_mem r.opening.plain).not_isPrefix hv hne)
  have hread := fences_fenced Stretch.text (stretches r.blocks) (fun k _ => k.clean)
    fun k _ => k.head_ne
  rw [Reply.render, String.toList_ofList, renderBlocks_eq, fences, findAll_append_of_none hpass]
  exact hread

/-- What is extracted from a reply. -/
lemma extractPython_render (r : Reply) :
    extractPython r.render =
      (r.read.argmin Stretch.rank).map fun k => String.ofList (stripNewlines (fenceOf k.text).body) := by
  rw [extractPython_eq, fences_render, argmin_map, Option.map_map]
  rfl

/-! ### Newlines at the ends -/

lemma stripNewlines_isInfix (x : List Char) : stripNewlines x <:+: x :=
  (List.rdropWhile_prefix _ _).isInfix.trans (List.dropWhile_suffix _).isInfix

/-- A newline more at the end makes no difference. -/
lemma stripNewlines_concat (x : List Char) : stripNewlines (x ++ ['\n']) = stripNewlines x := by
  rw [stripNewlines, stripNewlines, List.dropWhile_append]
  split
  · next hall =>
    rw [List.isEmpty_iff.1 hall]
    rfl
  · exact List.rdropWhile_concat_pos _ _ _ (by decide)

/-- What is read from a block is a part of its text. -/
lemma Block.body_isInfix (b : Block) (hopen : Opens (Stretch.block b).text) :
    stripNewlines (fenceOf (Stretch.block b).text).body <:+: b.text := by
  obtain ⟨x, hx, -⟩ := matchAt_of_opens (s := []) hopen nofun
  have hsuffix : '\n' :: (fenceOf (Stretch.block b).text).body <:+
      b.info ++ '\n' :: (b.text ++ ['\n']) :=
    ⟨label (Stretch.block b).text ++ x, by rw [List.append_assoc, hx, Stretch.text]⟩
  rcases List.suffix_concat_iff.1 (cons_suffix_append b.line hsuffix) with hnil | ⟨v, hbody, hv⟩
  · rw [hnil]
    exact List.nil_infix
  · rw [hbody, stripNewlines_concat]
    exact (stripNewlines_isInfix v).trans hv.isInfix

/-! ### Blocks and prose -/

lemma mem_readings {κ : Type} {stretch : κ → List Char} {ks : List κ} {k : κ}
    (h : k ∈ readings stretch ks) : k ∈ ks ∧ Opens (stretch k) := by
  induction ks using readings.induct stretch with
  | case1 => cases h
  | case2 => cases h
  | case3 j j' js hopen ih =>
    rw [readings, if_pos hopen] at h
    rcases List.mem_cons.1 h with rfl | h
    · exact ⟨List.mem_cons_self, hopen⟩
    · exact ⟨List.mem_cons_of_mem _ (List.mem_cons_of_mem _ (ih h).1), (ih h).2⟩
  | case4 j j' js hopen ih =>
    rw [readings, if_neg hopen] at h
    exact ⟨List.mem_cons_of_mem _ (ih h).1, (ih h).2⟩

lemma block_mem_stretches {bs : List (Block × Prose)} {b : Block}
    (h : Stretch.block b ∈ stretches bs) : b ∈ bs.map Prod.fst := by
  obtain ⟨x, hx, hb⟩ := List.mem_flatMap.1 h
  rcases List.mem_cons.1 hb with heq | hb
  · obtain rfl : b = x.1 := Stretch.block.inj heq
    exact List.mem_map_of_mem hx
  · cases List.mem_singleton.1 hb

/-- Blocks that all open are read one after the other. -/
lemma readings_stretches {bs : List (Block × Prose)}
    (hbs : ∀ x ∈ bs, Opens (Stretch.block x.1).text) :
    readings Stretch.text (stretches bs) = bs.map fun x => .block x.1 := by
  induction bs with
  | nil => rfl
  | cons x bs ih =>
    have hopen := hbs x List.mem_cons_self
    rw [stretches_cons, readings, if_pos hopen, ih fun y hy => hbs y (List.mem_cons_of_mem x hy),
      List.map_cons]

/-- What is extracted lies within a block. -/
def Reply.StaysInBlocks (r : Reply) : Prop :=
  ∀ code, extractPython r.render = some code →
    ∃ b ∈ r.blocks.map Prod.fst, code.toList <:+: b.text

/-- If the first stretch of the best rank that is read as a fence is prose, then what it says
after its label stands in a block as well. -/
def Reply.Aligned (r : Reply) : Prop :=
  ∀ p, r.read.argmin Stretch.rank = some (.prose p) →
    ∃ b ∈ r.blocks.map Prod.fst, stripNewlines (fenceOf p.text).body <:+: b.text

/-- A block in C#, a sentence, and a block without a label. -/
def sharpReply : Reply where
  opening := ⟨[], by decide⟩
  blocks :=
    [(⟨['c', '#'], ['f', 'o', 'o'], by decide, by decide, by decide⟩,
      ⟨['\n', 'r', 'u', 'n', ' ', 't', 'h', 'i', 's', '\n'], by decide⟩),
      (⟨[], ['b', 'a', 'r'], by decide, by decide, by decide⟩, ⟨[], by decide⟩)]

/-- **Prose is handed out.**  The sentence between the two blocks is read as a fence. -/
theorem sharpReply_not_staysInBlocks : ¬sharpReply.StaysInBlocks := by
  intro hstays
  obtain ⟨b, hb, hcode⟩ := hstays "run this" (by decide +kernel)
  revert hcode
  rcases List.mem_cons.1 hb with rfl | hb
  · decide +kernel
  · rcases List.mem_cons.1 hb with rfl | hb
    · decide +kernel
    · cases hb

/-- **When the scan stays in phase.**  What is extracted from a reply lies within one of its
blocks exactly when the scan does not prefer prose, or prose that says nothing of its own. -/
theorem staysInBlocks_iff (r : Reply) : r.StaysInBlocks ↔ r.Aligned := by
  constructor
  · intro hstays p hp
    have hcode := hstays (String.ofList (stripNewlines (fenceOf p.text).body))
      (by rw [extractPython_render, hp]; rfl)
    rwa [String.toList_ofList] at hcode
  · intro haligned code hcode
    rw [extractPython_render, Option.map_eq_some_iff] at hcode
    obtain ⟨k, hk, rfl⟩ := hcode
    rw [String.toList_ofList]
    obtain ⟨hmem, hopen⟩ := mem_readings (List.argmin_mem hk)
    cases k with
    | block b => exact ⟨b, block_mem_stretches hmem, b.body_isInfix hopen⟩
    | prose p => exact haligned p hk

end Gcos.Sandbox
