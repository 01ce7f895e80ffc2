import Gcos.Sandbox.Extract

/-!
# What the scan for fences reads

A text is a row of stretches with three backticks between them.  The scan does not know
which of the backticks are meant to open a fence.  It takes the first ones that it meets; if
the stretch after them begins with a label, white space and a line feed, the stretch is
read as a fence and the backticks at its end are used up, otherwise the scan goes on with
those.
-/

namespace Gcos.Sandbox

open Lib Pattern

variable {s q lab x y z : List Char}

/-! ### The stretches -/

/-- There are no three backticks within the stretch, and it does not run into those after
it. -/
structure Clean (q : List Char) : Prop where
  last : q.getLast? ≠ some '`'
  inside : ¬ticks <:+: q

lemma clean_of_not_mem (h : '`' ∉ q) : Clean q where
  last := fun hlast => h (List.mem_of_getLast? hlast)
  inside := fun hinside => h (hinside.subset List.mem_cons_self)

lemma Clean.suffix (hq : Clean q) {v : List Char} (hv : v <:+ q) : Clean v where
  last := fun hlast => by
    obtain ⟨u, rfl⟩ := hv
    refine hq.last ?_
    rw [List.getLast?_append, hlast]
    rfl
  inside := fun hinside => hq.inside (hinside.trans hv.isInfix)

/-- No three backticks begin in a clean stretch, whatever follows. -/
lemma Clean.not_isPrefix (hq : Clean q) {v : List Char} (hv : v <:+ q) (hne : v ≠ []) :
    ¬ticks <+: v ++ s := by
  intro hticks
  rcases List.prefix_or_prefix_of_prefix hticks (List.prefix_append v s) with hin | hshort
  · exact hq.inside (hin.isInfix.trans hv.isInfix)
  · have hmem : v.getLast hne ∈ ticks := hshort.subset (List.getLast_mem hne)
    have htick : v.getLast hne = '`' := by simpa [ticks] using hmem
    refine hq.last ?_
    rw [List.getLast?_eq_some_getLast (hv.ne_nil hne), ← hv.getLast hne, htick]

/-- The label at the beginning of a stretch. -/
def label (q : List Char) : List Char := q.takeWhile isLabelChar

/-- The white space after the label. -/
def gap (q : List Char) : List Char := (q.dropWhile isLabelChar).takeWhile Text.isSpace

/-- What comes after the white space. -/
def afterGap (q : List Char) : List Char := (q.dropWhile isLabelChar).dropWhile Text.isSpace

/-- The stretch begins with a label and white space that contains a line feed. -/
def Opens (q : List Char) : Prop := '\n' ∈ gap q

instance (q : List Char) : Decidable (Opens q) := inferInstanceAs (Decidable (_ ∈ _))

/-- The fence that is read from a stretch: its body begins after the last line feed of the
white space. -/
def fenceOf (q : List Char) : Fence where
  lang := label q
  body := (gap q).rtakeWhile (· ≠ '\n') ++ afterGap q

lemma label_append_gap (q : List Char) : label q ++ (gap q ++ afterGap q) = q := by
  rw [gap, afterGap, List.takeWhile_append_dropWhile, label, List.takeWhile_append_dropWhile]

lemma isSpace_of_mem_gap {c : Char} (hc : c ∈ gap q) : Text.isSpace c = true :=
  List.mem_takeWhile_imp hc

lemma isLabelChar_of_mem_label {c : Char} (hc : c ∈ label q) : isLabelChar c = true :=
  List.mem_takeWhile_imp hc

/-! ### The characters -/

lemma toNat_between {c a z : Char} (h : a.val ≤ c.val ∧ c.val ≤ z.val) :
    a.toNat ≤ c.toNat ∧ c.toNat ≤ z.toNat :=
  h.imp UInt32.le_iff_toNat_le.1 UInt32.le_iff_toNat_le.1

/-- Label characters lie between the plus sign and the letter `z`. -/
lemma toNat_of_isLabelChar {c : Char} (hc : isLabelChar c = true) :
    43 ≤ c.toNat ∧ c.toNat ≤ 122 := by
  simp only [isLabelChar, Bool.or_eq_true, beq_iff_eq] at hc
  rcases hc with ((halnum | rfl) | rfl) | rfl
  · obtain (hupper | hlower) | hdigit :
        (c.isUpper = true ∨ c.isLower = true) ∨ c.isDigit = true := by
      rw [← Bool.or_eq_true, ← Bool.or_eq_true]
      exact halnum
    · obtain ⟨hA, hZ⟩ := toNat_between (of_decide_eq_true hupper)
      have h65 : 'A'.toNat = 65 := rfl
      have h90 : 'Z'.toNat = 90 := rfl
      omega
    · obtain ⟨ha, hz⟩ := toNat_between
        (((Bool.and_eq_true _ _).mp hlower).imp of_decide_eq_true of_decide_eq_true)
      have h97 : 'a'.toNat = 97 := rfl
      have h122 : 'z'.toNat = 122 := rfl
      omega
    · obtain ⟨h0, h9⟩ := toNat_between
        (((Bool.and_eq_true _ _).mp hdigit).imp of_decide_eq_true of_decide_eq_true)
      have h48 : '0'.toNat = 48 := rfl
      have h57 : '9'.toNat = 57 := rfl
      omega
  · decide
  · decide
  · decide

lemma not_isSpace_of_isLabelChar {c : Char} (hc : isLabelChar c = true) :
    Text.isSpace c = false := by
  obtain ⟨hlow, hhigh⟩ := toNat_of_isLabelChar hc
  simp only [Text.isSpace, Bool.or_eq_false_iff, Bool.and_eq_false_iff, decide_eq_false_iff_not,
    beq_eq_false_iff_ne]
  omega

lemma isSpace_newline : Text.isSpace '\n' = true := by decide

lemma isSpace_tick : Text.isSpace '`' = false := by decide

lemma isLabelChar_tick : isLabelChar '`' = false := by decide

/-! ### One fence -/

/-- The rest of the pattern from the body on. -/
def bodyPattern : List Part := [.few fun _ => true, .lit ticks]

/-- The rest of the pattern from the line feed on. -/
def breakPattern : List Part := .lit ['\n'] :: bodyPattern

/-- The rest of the pattern from the white space on. -/
def gapPattern : List Part := .many Text.isSpace :: breakPattern

lemma matchAt_fencePattern (s : List Char) :
    matchAt fencePattern (ticks ++ s) =
      ((greedy isLabelChar (matchAt gapPattern) s).map fun m => (m.1 :: m.2.1, m.2.2)).map
        fun m => (ticks :: m.1, m.2) :=
  matchAt_lit ticks _ s

lemma matchAt_fencePattern_of_not_isPrefix (h : ¬ticks <+: s) : matchAt fencePattern s = none :=
  matchAt_lit_of_not_isPrefix h _

/-- The body goes on over what has no backticks. -/
lemma matchAt_bodyPattern_append (hx : '`' ∉ x) :
    matchAt bodyPattern (x ++ s) =
      (lazy (fun _ => true) (matchAt [.lit ticks]) s).map fun m => ((x ++ m.1) :: m.2.1, m.2.2) := by
  have hrun : lazy (fun _ => true) (matchAt [.lit ticks]) (x ++ s) =
      (lazy (fun _ => true) (matchAt [.lit ticks]) s).map fun m => (x ++ m.1, m.2) :=
    lazy_run (fun _ _ => rfl) fun v hv hne =>
      matchAt_lit_of_not_isPrefix ((clean_of_not_mem hx).not_isPrefix hv hne) []
  rw [bodyPattern, matchAt, hrun, Option.map_map]
  rfl

/-- The body ends at the first three backticks. -/
lemma matchAt_bodyPattern (hz : Clean z) :
    matchAt bodyPattern (z ++ (ticks ++ s)) = some ([z, ticks], s) := by
  have hstop : matchAt [.lit ticks] (ticks ++ s) = some ([ticks], s) := matchAt_lit ticks [] s
  have hrun : lazy (fun _ => true) (matchAt [.lit ticks]) (z ++ (ticks ++ s)) =
      (lazy (fun _ => true) (matchAt [.lit ticks]) (ticks ++ s)).map fun m => (z ++ m.1, m.2) :=
    lazy_run (fun _ _ => rfl) fun v hv hne =>
      matchAt_lit_of_not_isPrefix (hz.not_isPrefix hv hne) []
  rw [bodyPattern, matchAt, hrun, lazy_stop hstop]
  simp

/-- The body does not end where there are no backticks. -/
lemma matchAt_bodyPattern_eq_none (hs : ¬ticks <:+: s) : matchAt bodyPattern s = none := by
  have hnone : lazy (fun _ => true) (matchAt [.lit ticks]) s = none :=
    lazy_eq_none fun v hv => matchAt_lit_of_not_isPrefix (fun h => hs (h.isInfix.trans hv.isInfix)) []
  rw [bodyPattern, matchAt, hnone]
  rfl

lemma matchAt_breakPattern_of_head (h : s.head? ≠ some '\n') : matchAt breakPattern s = none := by
  refine matchAt_lit_of_not_isPrefix (fun hstart => h ?_) _
  obtain ⟨rest, rfl⟩ := hstart
  rfl

/-- The white space ends at its last line feed, if there is one. -/
lemma matchAt_gapPattern (hx : ∀ c ∈ x, Text.isSpace c = true)
    (hy : ∀ c ∈ y, Text.isSpace c = true) (hbreak : '\n' ∉ y)
    (hs : ∀ c ∈ s.head?, Text.isSpace c = false) :
    matchAt gapPattern (x ++ ('\n' :: y ++ s)) =
      (matchAt bodyPattern (y ++ s)).map fun m => (x :: ['\n'] :: m.1, m.2) := by
  have hlit : ∀ u : List Char, matchAt breakPattern ('\n' :: u) =
      (matchAt bodyPattern u).map fun m => (['\n'] :: m.1, m.2) := fun u => matchAt_lit ['\n'] _ u
  have hrun : ∀ c ∈ x ++ '\n' :: y, Text.isSpace c = true := by
    intro c hc
    rcases List.mem_append.1 hc with hc | hc
    · exact hx c hc
    · rcases List.mem_cons.1 hc with rfl | hc
      · exact isSpace_newline
      · exact hy c hc
  have htick : ∀ c : Char, Text.isSpace c = true → c ≠ '`' := by
    rintro c hc rfl
    exact Bool.false_ne_true hc
  have hless : ∀ v, v <:+ '\n' :: y → v ≠ '\n' :: y → matchAt breakPattern (v ++ s) = none := by
    intro v hv hne
    refine matchAt_breakPattern_of_head fun hhead => ?_
    rcases List.suffix_cons_iff.1 hv with hv | hv
    · exact hne hv
    · cases v with
      | nil => exact absurd (hs '\n' hhead) (by decide)
      | cons c v =>
        obtain rfl : c = '\n' := Option.some.inj hhead
        exact hbreak (hv.subset List.mem_cons_self)
  have hmore : matchAt breakPattern ('\n' :: y ++ s) = none → ∀ v, v <:+ x →
      matchAt breakPattern (v ++ ('\n' :: y ++ s)) = none := by
    intro hnone v hv
    cases v with
    | nil => exact hnone
    | cons c v =>
      by_cases hc : c = '\n'
      · -- from an earlier line feed on there are no more backticks than from the last one on
        subst hc
        have hplain : '`' ∉ y := fun hmem => htick _ (hy _ hmem) rfl
        have hplain' : '`' ∉ v ++ '\n' :: y := fun hmem =>
          htick _ (hrun _ (List.mem_append.2 ((List.mem_append.1 hmem).imp_left fun h =>
            hv.subset (List.mem_cons_of_mem _ h)))) rfl
        rw [List.cons_append, hlit, matchAt_bodyPattern_append hplain, Option.map_map,
          Option.map_eq_none_iff] at hnone
        rw [List.cons_append, hlit, ← List.append_assoc, matchAt_bodyPattern_append hplain', hnone]
        rfl
      · refine matchAt_breakPattern_of_head fun hhead => hc ?_
        exact Option.some.inj hhead
  have hgreedy : greedy Text.isSpace (matchAt breakPattern) (x ++ ('\n' :: y ++ s)) =
      (matchAt breakPattern ('\n' :: y ++ s)).map fun a => (x, a) :=
    greedy_run hrun hs hless hmore
  rw [gapPattern, matchAt, hgreedy, List.cons_append, hlit, Option.map_map, Option.map_map]
  rfl

/-- White space without a line feed. -/
lemma matchAt_gapPattern_eq_none (hbreak : '\n' ∉ x)
    (hs : ∀ c ∈ s.head?, Text.isSpace c = false) : matchAt gapPattern (x ++ s) = none := by
  have hnone : greedy Text.isSpace (matchAt breakPattern) (x ++ s) = none := by
    refine greedy_eq_none hs fun v hv => matchAt_breakPattern_of_head fun hhead => ?_
    cases v with
    | nil => exact absurd (hs '\n' hhead) (by decide)
    | cons c v =>
      obtain rfl : c = '\n' := Option.some.inj hhead
      exact hbreak (hv.subset List.mem_cons_self)
  rw [gapPattern, matchAt, hnone]
  rfl

/-- The label is taken whole. -/
lemma matchAt_label (hlab : ∀ c ∈ lab, isLabelChar c = true)
    (hs : ∀ c ∈ s.head?, isLabelChar c = false) :
    matchAt fencePattern (ticks ++ (lab ++ s)) =
      (matchAt gapPattern s).map fun m => (ticks :: lab :: m.1, m.2) := by
  have hmore : matchAt gapPattern ([] ++ s) = none → ∀ v, v <:+ lab →
      matchAt gapPattern (v ++ ([] ++ s)) = none := by
    intro hnone v hv
    cases v with
    | nil => exact hnone
    | cons c v =>
      refine matchAt_gapPattern_eq_none (x := []) List.not_mem_nil fun d hd => ?_
      obtain rfl : c = d := Option.some.inj hd
      exact not_isSpace_of_isLabelChar (hlab c (hv.subset List.mem_cons_self))
  have hgreedy : greedy isLabelChar (matchAt gapPattern) (lab ++ ([] ++ s)) =
      (matchAt gapPattern ([] ++ s)).map fun a => (lab, a) :=
    greedy_run (by simpa using hlab) hs (fun v hv hne => absurd (List.suffix_nil.1 hv) hne) hmore
  rw [List.nil_append] at hgreedy
  rw [matchAt_fencePattern, hgreedy, Option.map_map, Option.map_map]
  rfl

/-! ### One stretch -/

/-- What comes after the label of a stretch does not go on with it. -/
lemma head_dropWhile_label (hs : ∀ c ∈ s.head?, c = '`') :
    ∀ c ∈ (q.dropWhile isLabelChar ++ s).head?, isLabelChar c = false := by
  intro c hc
  rw [Option.mem_def, List.head?_append, Option.or_eq_some_iff] at hc
  rcases hc with hc | ⟨-, hc⟩
  · have hstop := List.head?_dropWhile_not isLabelChar q
    rwa [hc] at hstop
  · rw [hs c hc]
    exact isLabelChar_tick

/-- What comes after the white space of a stretch does not go on with it. -/
lemma head_afterGap (hs : ∀ c ∈ s.head?, c = '`') :
    ∀ c ∈ (afterGap q ++ s).head?, Text.isSpace c = false := by
  intro c hc
  rw [Option.mem_def, List.head?_append, Option.or_eq_some_iff] at hc
  rcases hc with hc | ⟨-, hc⟩
  · have hstop := List.head?_dropWhile_not Text.isSpace (q.dropWhile isLabelChar)
    rw [afterGap] at hc
    rwa [hc] at hstop
  · rw [hs c hc]
    exact isSpace_tick

/-- The pattern on a stretch after the label. -/
lemma matchAt_stretch (hs : ∀ c ∈ s.head?, c = '`') :
    matchAt fencePattern (ticks ++ (q ++ s)) =
      (matchAt gapPattern (gap q ++ (afterGap q ++ s))).map fun m =>
        (ticks :: label q :: m.1, m.2) := by
  have hsplit : q ++ s = label q ++ (q.dropWhile isLabelChar ++ s) := by
    rw [← List.append_assoc, label, List.takeWhile_append_dropWhile]
  have hrest : q.dropWhile isLabelChar ++ s = gap q ++ (afterGap q ++ s) := by
    rw [← List.append_assoc, gap, afterGap, List.takeWhile_append_dropWhile]
  rw [hsplit, matchAt_label (fun c hc => isLabelChar_of_mem_label hc) (head_dropWhile_label hs),
    hrest]

/-- A stretch that does not open is not read. -/
lemma matchAt_of_not_opens (hopen : ¬Opens q) (hs : ∀ c ∈ s.head?, c = '`') :
    matchAt fencePattern (ticks ++ (q ++ s)) = none := by
  rw [matchAt_stretch hs, matchAt_gapPattern_eq_none hopen (head_afterGap hs)]
  rfl

/-- The body of a stretch that opens. -/
lemma matchAt_of_opens (hopen : Opens q) (hs : ∀ c ∈ s.head?, c = '`') :
    ∃ x, label q ++ (x ++ '\n' :: (fenceOf q).body) = q ∧
      matchAt fencePattern (ticks ++ (q ++ s)) =
        (matchAt bodyPattern ((fenceOf q).body ++ s)).map fun m =>
          (ticks :: label q :: x :: ['\n'] :: m.1, m.2) := by
  obtain ⟨x, hx⟩ := exists_append_rtakeWhile hopen
  have hgap : ∀ c ∈ x ++ '\n' :: (gap q).rtakeWhile (· ≠ '\n'), Text.isSpace c = true := by
    intro c hc
    rw [← hx] at hc
    exact isSpace_of_mem_gap hc
  have hbreak : '\n' ∉ (gap q).rtakeWhile (· ≠ '\n') := fun hmem => by
    simpa using List.mem_rtakeWhile_imp hmem
  have hmatch := matchAt_gapPattern (x := x) (s := afterGap q ++ s)
    (fun c hc => hgap c (List.mem_append_left _ hc))
    (fun c hc => hgap c (List.mem_append_right _ (List.mem_cons_of_mem _ hc))) hbreak
    (head_afterGap hs)
  refine ⟨x, ?_, ?_⟩
  · calc label q ++ (x ++ '\n' :: (fenceOf q).body)
        = label q ++ ((x ++ '\n' :: (gap q).rtakeWhile (· ≠ '\n')) ++ afterGap q) := by
          simp [fenceOf]
      _ = q := by rw [← hx, label_append_gap]
  · have hgapx : gap q ++ (afterGap q ++ s) =
        x ++ ('\n' :: (gap q).rtakeWhile (· ≠ '\n') ++ (afterGap q ++ s)) := by
      conv_lhs => rw [hx, List.append_assoc]
    rw [matchAt_stretch hs, hgapx, hmatch, Option.map_map, ← List.append_assoc]
    rfl

/-- The body is a part of the stretch. -/
lemma body_suffix (hopen : Opens q) : (fenceOf q).body <:+ q := by
  obtain ⟨x, hx, -⟩ := matchAt_of_opens (s := []) hopen nofun
  exact ⟨label q ++ (x ++ ['\n']), by simpa using hx⟩

/-! ### The scan -/

/-- The fences that are read from the stretches after each three backticks. -/
def readings {κ : Type} (stretch : κ → List Char) : List κ → List κ
  | [] => []
  | [_] => []
  | k :: k' :: ks =>
    if Opens (stretch k) then k :: readings stretch ks else readings stretch (k' :: ks)

/-- The text of some stretches with three backticks before each of them. -/
def fenced (qs : List (List Char)) : List Char := qs.flatMap fun q => ticks ++ q

lemma fenced_cons (q : List Char) (qs : List (List Char)) :
    fenced (q :: qs) = ticks ++ (q ++ fenced qs) := by
  rw [fenced, List.flatMap_cons, List.append_assoc]
  rfl

lemma head_fenced (qs : List (List Char)) : ∀ c ∈ (fenced qs).head?, c = '`' := by
  cases qs with
  | nil => exact nofun
  | cons q qs =>
    intro c hc
    exact (Option.some.inj hc).symm

lemma ticks_suffix {v : List Char} (hv : v <:+ ['`', '`']) (hne : v ≠ []) :
    v = ['`'] ∨ v = ['`', '`'] := by
  rcases List.suffix_cons_iff.1 hv with rfl | hv
  · exact .inr rfl
  rcases List.suffix_cons_iff.1 hv with rfl | hv
  · exact .inl rfl
  · exact absurd (List.suffix_nil.1 hv) hne

/-- One or two backticks more do not make a fence. -/
lemma matchAt_ticks_fenced {v : List Char} (hv : v <:+ ['`', '`']) (hne : v ≠ [])
    (qs : List (List Char)) : matchAt fencePattern (v ++ fenced qs) = none := by
  have hcases := ticks_suffix hv hne
  cases qs with
  | nil =>
    refine matchAt_fencePattern_of_not_isPrefix fun hstart => ?_
    rcases hcases with rfl | rfl
    · exact absurd hstart.length_le (by decide)
    · exact absurd hstart.length_le (by decide)
  | cons q qs =>
    have hshift : v ++ fenced (q :: qs) = ticks ++ ([] ++ (v ++ (q ++ fenced qs))) := by
      rcases hcases with rfl | rfl
      · rfl
      · rfl
    rw [hshift]
    refine matchAt_of_not_opens (by decide) fun c hc => ?_
    rcases hcases with rfl | rfl
    · exact (Option.some.inj hc).symm
    · exact (Option.some.inj hc).symm

/-- The scan passes over backticks that open no fence, and the stretch after them. -/
lemma findAll_pass (hq : Clean q) (hfirst : q.head? ≠ some '`') (qs : List (List Char))
    (hnone : matchAt fencePattern (ticks ++ (q ++ fenced qs)) = none) :
    findAll fencePattern 0 (ticks ++ (q ++ fenced qs)) =
      findAll fencePattern 0 (fenced qs) := by
  have hticks : ∀ v, v <:+ ticks → v ≠ [] → matchAt fencePattern (v ++ (q ++ fenced qs)) = none := by
    intro v hv hne
    rcases List.suffix_cons_iff.1 hv with rfl | hv
    · exact hnone
    cases q with
    | nil => exact matchAt_ticks_fenced hv hne qs
    | cons c q =>
      refine matchAt_fencePattern_of_not_isPrefix fun hstart => hfirst ?_
      rcases ticks_suffix hv hne with rfl | rfl
      · exact congrArg some (List.cons_prefix_cons.1 (List.cons_prefix_cons.1 hstart).2).1.symm
      · have htail := (List.cons_prefix_cons.1 (List.cons_prefix_cons.1 hstart).2).2
        exact congrArg some (List.cons_prefix_cons.1 htail).1.symm
  rw [findAll_append_of_none hticks, findAll_append_of_none fun v hv hne =>
    matchAt_fencePattern_of_not_isPrefix (hq.not_isPrefix hv hne)]

/-- **What is read.**  The scan of a row of stretches finds the fences of its readings. -/
lemma fences_fenced {κ : Type} (stretch : κ → List Char) (ks : List κ)
    (hclean : ∀ k ∈ ks, Clean (stretch k)) (hfirst : ∀ k ∈ ks, (stretch k).head? ≠ some '`') :
    fences (fenced (ks.map stretch)) = (readings stretch ks).map fun k => fenceOf (stretch k) := by
  induction ks using readings.induct stretch with
  | case1 => rfl
  | case2 k =>
    have hq := hclean k List.mem_cons_self
    have hnone : matchAt fencePattern (ticks ++ (stretch k ++ fenced [])) = none := by
      by_cases hopen : Opens (stretch k)
      · obtain ⟨x, -, hmatch⟩ := matchAt_of_opens (s := fenced []) hopen (head_fenced [])
        have hbody : ¬ticks <:+: (fenceOf (stretch k)).body ++ fenced [] := by
          rw [fenced, List.flatMap_nil, List.append_nil]
          exact (hq.suffix (body_suffix hopen)).inside
        rw [hmatch, matchAt_bodyPattern_eq_none hbody]
        rfl
      · exact matchAt_of_not_opens hopen (head_fenced [])
    have hpass := findAll_pass hq (hfirst k List.mem_cons_self) [] hnone
    rw [fences, List.map_singleton, fenced_cons, hpass]
    rfl
  | case3 k k' ks hopen ih =>
    have hks : ∀ j ∈ ks, j ∈ k :: k' :: ks := fun j hj =>
      List.mem_cons_of_mem _ (List.mem_cons_of_mem _ hj)
    have hq := hclean k List.mem_cons_self
    have hq' := hclean k' (List.mem_cons_of_mem _ List.mem_cons_self)
    have ih := ih (fun j hj => hclean j (hks j hj)) fun j hj => hfirst j (hks j hj)
    obtain ⟨x, hsplit, hmatch⟩ := matchAt_of_opens
      (s := fenced (stretch k' :: ks.map stretch)) hopen (head_fenced _)
    rw [fenced_cons (stretch k'), matchAt_bodyPattern (hq.suffix (body_suffix hopen))] at hmatch
    have hflat : ticks ++ (stretch k ++ (ticks ++ (stretch k' ++ fenced (ks.map stretch)))) =
        [ticks, label (stretch k), x, ['\n'], (fenceOf (stretch k)).body, ticks].flatten ++
          (stretch k' ++ fenced (ks.map stretch)) := by
      conv_lhs => rw [← hsplit]
      simp only [List.flatten_cons, List.flatten_nil, List.append_assoc, List.cons_append,
        List.nil_append]
    have hfind := findAll_of_match hmatch hflat (by simp [ticks])
    have hpass : findAll fencePattern 0 (stretch k' ++ fenced (ks.map stretch)) =
        findAll fencePattern 0 (fenced (ks.map stretch)) :=
      findAll_append_of_none fun v hv hne =>
        matchAt_fencePattern_of_not_isPrefix (hq'.not_isPrefix hv hne)
    rw [readings, if_pos hopen, List.map_cons (l := readings stretch ks), ← ih, List.map_cons,
      List.map_cons, fenced_cons, fenced_cons, fences, hfind, hpass]
    rfl
  | case4 k k' ks hopen ih =>
    have ih := ih (fun j hj => hclean j (List.mem_cons_of_mem _ hj)) fun j hj =>
      hfirst j (List.mem_cons_of_mem _ hj)
    have hnone := matchAt_of_not_opens (s := fenced ((k' :: ks).map stretch)) hopen (head_fenced _)
    have hpass := findAll_pass (hclean k List.mem_cons_self) (hfirst k List.mem_cons_self) _ hnone
    rw [readings, if_neg hopen, ← ih, fences, List.map_cons, fenced_cons, hpass, fences]

end Gcos.Sandbox
