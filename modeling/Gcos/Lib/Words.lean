import Mathlib.Data.List.Basic
import Mathlib.Tactic.Common

/-!
# The words of a line

`shlex.split` of Python: words between blanks, with quotes and backslashes as in a shell.  The
splitter goes over the line once, in one of four states.  What it finds is given by a grammar:
a word is made of plain characters, escaped characters and quoted parts.
-/

namespace Gcos.Lib.Words

/-- `shlex.whitespace`. -/
def isBlank (c : Char) : Bool := c == ' ' || c == '\t' || c == '\r' || c == '\n'

/-- `shlex.quotes`. -/
def isQuote (c : Char) : Bool := c == '\'' || c == '"'

/-- The state of the splitter: between two words, in a word, in a quoted part of a word, and
after a backslash, which may stand in a quoted part; with the word so far. -/
inductive Mode
  | gap
  | word (token : List Char)
  | quote (q : Char) (token : List Char)
  | escape (quote : Option Char) (token : List Char)
deriving DecidableEq, Repr

/-- What `shlex.split` complains of. -/
inductive Complaint
  | noClosingQuotation
  | noEscapedCharacter
deriving DecidableEq, Repr

/-- The text of the exception. -/
def Complaint.text : Complaint → String
  | noClosingQuotation => "No closing quotation"
  | noEscapedCharacter => "No escaped character"

/-- What a backslash and a character stand for in a quoted part. -/
def unescape (q c : Char) : List Char := if c = '\\' ∨ c = q then [c] else ['\\', c]

/-- `shlex.read_token`, until the end of the text. -/
@[simp] def scan : Mode → List Char → Except Complaint (List (List Char))
  | .gap, [] => .ok []
  | .word token, [] => .ok [token]
  | .quote _ _, [] => .error .noClosingQuotation
  | .escape _ _, [] => .error .noEscapedCharacter
  | .gap, c :: s =>
    if isBlank c then scan .gap s
    else if c = '\\' then scan (.escape none []) s
    else if isQuote c then scan (.quote c []) s
    else scan (.word [c]) s
  | .word token, c :: s =>
    if isBlank c then (scan .gap s).map (token :: ·)
    else if isQuote c then scan (.quote c token) s
    else if c = '\\' then scan (.escape none token) s
    else scan (.word (token ++ [c])) s
  | .quote q token, c :: s =>
    if c = q then scan (.word token) s
    else if c = '\\' ∧ q = '"' then scan (.escape (some q) token) s
    else scan (.quote q (token ++ [c])) s
  | .escape none token, c :: s => scan (.word (token ++ [c])) s
  | .escape (some q) token, c :: s => scan (.quote q (token ++ unescape q c)) s

/-- `shlex.split`. -/
def split (s : List Char) : Except Complaint (List (List Char)) := scan .gap s

/-! ### The grammar -/

/-- A character that stands for itself. -/
def isPlain (c : Char) : Bool := !isBlank c && !isQuote c && c != '\\'

/-- What is written between two double quotes, and what it stands for. -/
inductive Inside : List Char → List Char → Prop
  | nil : Inside [] []
  | plain {c : Char} {w x : List Char} (hquote : c ≠ '"') (hback : c ≠ '\\') (h : Inside w x) :
      Inside (c :: w) (c :: x)
  | escaped (c : Char) {w x : List Char} (h : Inside w x) :
      Inside ('\\' :: c :: w) (unescape '"' c ++ x)

/-- A part of a word as it is written, and what it stands for. -/
inductive Piece : List Char → List Char → Prop
  | plain {c : Char} (h : isPlain c = true) : Piece [c] [c]
  | escaped (c : Char) : Piece ['\\', c] [c]
  | single {x : List Char} (h : '\'' ∉ x) : Piece ('\'' :: (x ++ ['\''])) x
  | double {w x : List Char} (h : Inside w x) : Piece ('"' :: (w ++ ['"'])) x

/-- Parts of a word. -/
inductive Pieces : List Char → List Char → Prop
  | nil : Pieces [] []
  | cons {w x w' x' : List Char} (h : Piece w x) (h' : Pieces w' x') : Pieces (w ++ w') (x ++ x')

/-- A word ends here. -/
def Ends (s : List Char) : Prop := ∀ c ∈ s.head?, isBlank c = true

/-- The text spells the words. -/
inductive Spells : List (List Char) → List Char → Prop
  | nil : Spells [] []
  | blank {c : Char} {xs : List (List Char)} {s : List Char} (hc : isBlank c = true)
      (h : Spells xs s) : Spells xs (c :: s)
  | word {w x : List Char} {xs : List (List Char)} {s : List Char} (hword : Pieces w x)
      (hne : w ≠ []) (hend : Ends s) (h : Spells xs s) : Spells (x :: xs) (w ++ s)

/-! ### What is spelled is found -/

variable {c q : Char} {s w x token : List Char} {xs : List (List Char)}

lemma not_isBlank_backslash : isBlank '\\' = false := rfl

lemma not_isQuote_backslash : isQuote '\\' = false := rfl

/-- The first character of a word may as well stand in its middle. -/
lemma scan_gap_of_not_blank (h : isBlank c = false) (s : List Char) :
    scan .gap (c :: s) = scan (.word []) (c :: s) := by
  rw [scan, scan, h, if_neg Bool.false_ne_true, if_neg Bool.false_ne_true]
  by_cases hback : c = '\\'
  · subst hback
    rw [if_pos rfl, if_neg (by rw [not_isQuote_backslash]; exact Bool.false_ne_true), if_pos rfl]
  · rw [if_neg hback, if_neg hback]
    rfl

lemma scan_single (h : '\'' ∉ x) (s : List Char) :
    scan (.quote '\'' token) (x ++ '\'' :: s) = scan (.word (token ++ x)) s := by
  induction x generalizing token with
  | nil => rw [List.nil_append, scan, if_pos rfl, List.append_nil]
  | cons c x ih =>
    have hc : c ≠ '\'' := fun hc => h (hc ▸ List.mem_cons_self)
    rw [List.cons_append, scan, if_neg hc, if_neg (fun hq => absurd hq.2 (by decide)),
      ih (fun hx => h (List.mem_cons_of_mem c hx)), List.append_assoc]
    rfl

lemma scan_double (h : Inside w x) (s : List Char) (token : List Char) :
    scan (.quote '"' token) (w ++ '"' :: s) = scan (.word (token ++ x)) s := by
  induction h generalizing token with
  | nil => rw [List.nil_append, scan, if_pos rfl, List.append_nil]
  | plain hquote hback _ ih =>
    rw [List.cons_append, scan, if_neg hquote, if_neg (fun h => hback h.1), ih, List.append_assoc]
    rfl
  | escaped c _ ih =>
    rw [List.cons_append, List.cons_append, scan, if_neg (by decide), if_pos ⟨rfl, rfl⟩, scan, ih,
      List.append_assoc]

lemma scan_piece (h : Piece w x) (s : List Char) :
    scan (.word token) (w ++ s) = scan (.word (token ++ x)) s := by
  cases h with
  | @plain c h =>
    rw [isPlain, Bool.and_eq_true, Bool.and_eq_true, Bool.not_eq_true', Bool.not_eq_true',
      bne_iff_ne] at h
    obtain ⟨⟨hblank, hquote⟩, hback⟩ := h
    rw [List.cons_append, scan, hblank, hquote, if_neg Bool.false_ne_true,
      if_neg Bool.false_ne_true, if_neg hback]
    rfl
  | escaped c =>
    rw [List.cons_append, scan, not_isBlank_backslash, not_isQuote_backslash,
      if_neg Bool.false_ne_true, if_neg Bool.false_ne_true, if_pos rfl, List.cons_append, scan]
    rfl
  | single h =>
    rw [List.cons_append, List.append_assoc, scan, if_neg (by decide), if_pos (by decide)]
    exact scan_single h s
  | double h =>
    rw [List.cons_append, List.append_assoc, scan, if_neg (by decide), if_pos (by decide)]
    exact scan_double h s token

lemma scan_pieces (h : Pieces w x) (s : List Char) (token : List Char) :
    scan (.word token) (w ++ s) = scan (.word (token ++ x)) s := by
  induction h generalizing token with
  | nil => rw [List.nil_append, List.append_nil]
  | cons h _ ih => rw [List.append_assoc, scan_piece h, ih, List.append_assoc]

lemma Piece.head_not_blank (h : Piece w x) : ∃ c w', w = c :: w' ∧ isBlank c = false := by
  cases h with
  | plain h =>
    rw [isPlain, Bool.and_eq_true, Bool.and_eq_true, Bool.not_eq_true'] at h
    exact ⟨_, _, rfl, h.1.1⟩
  | escaped c => exact ⟨_, _, rfl, rfl⟩
  | single h => exact ⟨_, _, rfl, rfl⟩
  | double h => exact ⟨_, _, rfl, rfl⟩

lemma Pieces.head_not_blank (h : Pieces w x) (hne : w ≠ []) :
    ∃ c w', w = c :: w' ∧ isBlank c = false := by
  cases h with
  | nil => exact absurd rfl hne
  | cons h _ =>
    obtain ⟨c, w', rfl, hc⟩ := h.head_not_blank
    exact ⟨c, _, rfl, hc⟩

lemma scan_word_of_ends (h : Ends s) : scan (.word token) s = (scan .gap s).map (token :: ·) := by
  cases s with
  | nil => rfl
  | cons c s =>
    have hc : isBlank c = true := h c rfl
    rw [scan, scan, if_pos hc, if_pos hc]

lemma scan_of_spells (h : Spells xs s) : scan .gap s = .ok xs := by
  induction h with
  | nil => rfl
  | blank hc _ ih => rw [scan, if_pos hc, ih]
  | word hword hne hend _ ih =>
    obtain ⟨c, w', rfl, hc⟩ := hword.head_not_blank hne
    rw [List.cons_append, scan_gap_of_not_blank hc, ← List.cons_append, scan_pieces hword,
      List.nil_append, scan_word_of_ends hend, ih]
    rfl

/-! ### What is found is spelled -/

/-- What is written between two quotes `q`, and what it stands for. -/
def Quoted (q : Char) (w x : List Char) : Prop := if q = '"' then Inside w x else w = x ∧ q ∉ x

/-- In a word, the text goes on with parts of it. -/
def GoesOn (xs : List (List Char)) (token s : List Char) : Prop :=
  ∃ w x ys s', s = w ++ s' ∧ Pieces w x ∧ Ends s' ∧ Spells ys s' ∧ xs = (token ++ x) :: ys

/-- In a quoted part, the text goes on to its end, and then with the word. -/
def Closes (xs : List (List Char)) (q : Char) (token s : List Char) : Prop :=
  ∃ w x s', s = w ++ q :: s' ∧ Quoted q w x ∧ GoesOn xs (token ++ x) s'

/-- The text goes on from a state and makes the words. -/
def Reads (xs : List (List Char)) : Mode → List Char → Prop
  | .gap, s => Spells xs s
  | .word token, s => GoesOn xs token s
  | .quote q token, s => Closes xs q token s
  | .escape none token, s => ∃ c s', s = c :: s' ∧ GoesOn xs (token ++ [c]) s'
  | .escape (some q) token, s => ∃ c s', s = c :: s' ∧ Closes xs q (token ++ unescape q c) s'

/-- The quotes of a state are quotes. -/
def Mode.Sane : Mode → Prop
  | .quote q _ => isQuote q = true
  | .escape (some q) _ => q = '"'
  | _ => True

lemma GoesOn.cons_piece (hpiece : Piece w x) (h : GoesOn xs (token ++ x) s) :
    GoesOn xs token (w ++ s) := by
  obtain ⟨w', x', ys, s', rfl, hpieces, hend, hspells, rfl⟩ := h
  exact ⟨w ++ w', x ++ x', ys, s', (List.append_assoc ..).symm, .cons hpiece hpieces, hend, hspells,
    by rw [List.append_assoc]⟩

lemma Closes.goesOn (hq : isQuote q = true) (h : Closes xs q token s) :
    GoesOn xs token (q :: s) := by
  obtain ⟨w, x, s', rfl, hquoted, hword⟩ := h
  have hpiece : Piece (q :: (w ++ [q])) x := by
    by_cases hdouble : q = '"'
    · subst hdouble
      rw [Quoted, if_pos rfl] at hquoted
      exact .double hquoted
    · rw [Quoted, if_neg hdouble] at hquoted
      obtain ⟨rfl, hnotin⟩ := hquoted
      obtain rfl : q = '\'' := by
        rw [isQuote, Bool.or_eq_true, beq_iff_eq, beq_iff_eq] at hq
        exact hq.resolve_right hdouble
      exact .single hnotin
  have hall := hword.cons_piece hpiece
  rwa [List.cons_append, List.append_assoc] at hall

/-- A character of a word that the splitter goes past. -/
lemma reads_word (ih : ∀ mode, Mode.Sane mode → scan mode s = .ok xs → Reads xs mode s)
    (hgap : ∀ ys, scan .gap s = .ok ys → Spells ys s)
    (h : scan (.word token) (c :: s) = .ok xs) : GoesOn xs token (c :: s) := by
  rw [scan] at h
  split_ifs at h with hblank hquote hback
  · cases hs : scan .gap s with
    | error e =>
      rw [hs] at h
      cases h
    | ok ys =>
      rw [hs] at h
      cases h
      have hend : Ends (c :: s) := fun d hd => Option.some.inj hd ▸ hblank
      exact ⟨[], [], ys, c :: s, rfl, .nil, hend, .blank hblank (hgap ys hs), by rw [List.append_nil]⟩
  · exact Closes.goesOn hquote (ih (.quote c token) hquote h)
  · subst hback
    obtain ⟨d, s', rfl, hword⟩ := ih (.escape none token) trivial h
    exact hword.cons_piece (.escaped d)
  · have hplain : isPlain c = true := by
      rw [isPlain, Bool.and_eq_true, Bool.and_eq_true, Bool.not_eq_true', Bool.not_eq_true',
        bne_iff_ne]
      exact ⟨⟨eq_false_of_ne_true hblank, eq_false_of_ne_true hquote⟩, hback⟩
    exact GoesOn.cons_piece (.plain hplain) (ih (.word (token ++ [c])) trivial h)

/-- A character in a quoted part. -/
lemma reads_quote (ih : ∀ mode, Mode.Sane mode → scan mode s = .ok xs → Reads xs mode s)
    (hq : isQuote q = true) (h : scan (.quote q token) (c :: s) = .ok xs) :
    Closes xs q token (c :: s) := by
  rw [scan] at h
  split_ifs at h with hclose hback
  · subst hclose
    have hempty : Quoted c [] [] := by
      by_cases hdouble : c = '"'
      · rw [Quoted, if_pos hdouble]
        exact .nil
      · rw [Quoted, if_neg hdouble]
        exact ⟨rfl, List.not_mem_nil⟩
    exact ⟨[], [], s, rfl, hempty, by rw [List.append_nil]; exact ih (.word token) trivial h⟩
  · obtain ⟨rfl, rfl⟩ := hback
    obtain ⟨d, s', rfl, w, x, s'', rfl, hquoted, hword⟩ := ih (.escape (some '"') token) rfl h
    rw [Quoted, if_pos rfl] at hquoted
    refine ⟨'\\' :: d :: w, unescape '"' d ++ x, s'', rfl, ?_, ?_⟩
    · rw [Quoted, if_pos rfl]
      exact .escaped d hquoted
    · rwa [List.append_assoc] at hword
  · obtain ⟨w, x, s', rfl, hquoted, hword⟩ := ih (.quote q (token ++ [c])) hq h
    refine ⟨c :: w, c :: x, s', rfl, ?_, ?_⟩
    · by_cases hdouble : q = '"'
      · rw [Quoted, if_pos hdouble] at hquoted ⊢
        subst hdouble
        exact .plain hclose (fun hc => hback ⟨hc, rfl⟩) hquoted
      · rw [Quoted, if_neg hdouble] at hquoted ⊢
        obtain ⟨rfl, hnotin⟩ := hquoted
        exact ⟨rfl, List.not_mem_cons_of_ne_of_not_mem (fun hc => hclose hc.symm) hnotin⟩
    · rwa [List.append_assoc] at hword

lemma reads_of_scan (s : List Char) : ∀ (mode : Mode) (xs : List (List Char)), mode.Sane →
    scan mode s = .ok xs → Reads xs mode s := by
  induction s with
  | nil =>
    intro mode xs _ h
    cases mode with
    | gap =>
      cases h
      exact Spells.nil
    | word token =>
      cases h
      exact ⟨[], [], [], [], rfl, .nil, fun c hc => absurd hc (Option.not_mem_none c), .nil,
        by rw [List.append_nil]⟩
    | quote q token => cases h
    | escape back token => cases back <;> cases h
  | cons c s ih =>
    intro mode xs hsane h
    have hword : ∀ token, scan (.word token) (c :: s) = .ok xs → GoesOn xs token (c :: s) :=
      fun token => reads_word (fun mode => ih mode xs) (fun ys => ih .gap ys trivial)
    cases mode with
    | gap =>
      cases hblank : isBlank c with
      | true =>
        rw [scan, if_pos hblank] at h
        exact Spells.blank hblank (ih .gap xs trivial h)
      | false =>
        rw [scan_gap_of_not_blank hblank] at h
        obtain ⟨w, x, ys, s', hs, hpieces, hend, hspells, rfl⟩ := hword [] h
        change Spells _ (c :: s)
        rw [hs]
        refine .word hpieces ?_ hend hspells
        rintro rfl
        rw [List.nil_append] at hs
        subst hs
        exact Bool.false_ne_true (hblank.symm.trans (hend c rfl))
    | word token => exact hword token h
    | quote q token => exact reads_quote (fun mode => ih mode xs) hsane h
    | escape back token =>
      cases back with
      | none => exact ⟨c, s, rfl, ih (.word _) xs trivial h⟩
      | some q =>
        obtain rfl : q = '"' := hsane
        exact ⟨c, s, rfl, ih (.quote '"' _) xs rfl h⟩

/-- **The splitter finds exactly the words that are spelled.** -/
theorem split_eq_ok_iff : split s = .ok xs ↔ Spells xs s :=
  ⟨reads_of_scan s .gap xs trivial, scan_of_spells⟩

/-! ### Writing words down -/

/-- A way to write a word: a backslash before every character. -/
def escapeAll (x : List Char) : List Char := '\'' :: '\'' :: x.flatMap fun c => ['\\', c]

/-- A way to write words on a line. -/
def write (xs : List (List Char)) : List Char := xs.flatMap fun x => escapeAll x ++ [' ']

lemma pieces_escapeAll (x : List Char) : Pieces (escapeAll x) x := by
  have hrest : ∀ x : List Char, Pieces (x.flatMap fun c => ['\\', c]) x := by
    intro x
    induction x with
    | nil => exact .nil
    | cons c x ih => exact .cons (.escaped c) ih
  exact .cons (.single List.not_mem_nil) (hrest x)

lemma spells_write (xs : List (List Char)) : Spells xs (write xs) := by
  induction xs with
  | nil => exact .nil
  | cons x xs ih =>
    have hend : Ends (' ' :: write xs) := fun c hc => Option.some.inj hc ▸ rfl
    have hspells := Spells.word (pieces_escapeAll x) (List.cons_ne_nil _ _) hend (.blank rfl ih)
    rwa [write, List.flatMap_cons, List.append_assoc]

/-- Nothing else is on the line than the characters of the words, quotes, backslashes and
blanks. -/
lemma mem_write (h : c ∈ write xs) : c = ' ' ∨ c = '\'' ∨ c = '\\' ∨ ∃ x ∈ xs, c ∈ x := by
  obtain ⟨x, hx, hc⟩ := List.mem_flatMap.1 h
  rcases List.mem_append.1 hc with hc | hc
  · rcases List.mem_cons.1 hc with rfl | hc
    · exact .inr (.inl rfl)
    · rcases List.mem_cons.1 hc with rfl | hc
      · exact .inr (.inl rfl)
      · obtain ⟨d, hd, hc⟩ := List.mem_flatMap.1 hc
        rcases List.mem_pair.1 hc with rfl | rfl
        · exact .inr (.inr (.inl rfl))
        · exact .inr (.inr (.inr ⟨x, hx, hd⟩))
  · exact .inl (List.mem_singleton.1 hc)

lemma subset_of_inside (h : Inside w x) : x ⊆ w := by
  induction h with
  | nil => exact List.Subset.refl _
  | plain _ _ _ ih => exact List.cons_subset_cons _ ih
  | escaped c _ ih =>
    intro d hd
    rcases List.mem_append.1 hd with hd | hd
    · rw [unescape] at hd
      split_ifs at hd
      · exact List.mem_cons_of_mem _ (List.mem_singleton.1 hd ▸ List.mem_cons_self)
      · rcases List.mem_pair.1 hd with rfl | rfl <;> simp
    · exact List.mem_cons_of_mem _ (List.mem_cons_of_mem _ (ih hd))

lemma subset_of_pieces (h : Pieces w x) : x ⊆ w := by
  have hpiece : ∀ {w x : List Char}, Piece w x → x ⊆ w := by
    intro w x h
    cases h with
    | plain h => exact List.Subset.refl _
    | escaped c => exact List.subset_cons_self _ _
    | single h => exact fun d hd => List.mem_cons_of_mem _ (List.mem_append_left _ hd)
    | double h =>
      exact fun d hd => List.mem_cons_of_mem _ (List.mem_append_left _ (subset_of_inside h hd))
  induction h with
  | nil => exact List.Subset.refl _
  | cons h _ ih =>
    exact List.append_subset.2 ⟨fun d hd => List.mem_append_left _ (hpiece h hd),
      fun d hd => List.mem_append_right _ (ih hd)⟩

/-- The characters of the words are on the line. -/
lemma mem_of_spells {x : List Char} (h : Spells xs s) (hx : x ∈ xs) (hc : c ∈ x) : c ∈ s := by
  induction h with
  | nil => cases hx
  | blank _ _ ih => exact List.mem_cons_of_mem _ (ih hx)
  | word hword _ _ _ ih =>
    rcases List.mem_cons.1 hx with rfl | hx
    · exact List.mem_append_left _ (subset_of_pieces hword hc)
    · exact List.mem_append_right _ (ih hx)

end Gcos.Lib.Words
