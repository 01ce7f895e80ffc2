import Gcos.Lib.Lists
import Mathlib.Data.List.Infix
import Mathlib.Data.List.DropRight
import Mathlib.Tactic.Common

/-!
# JSON

`json.dumps` and `json.loads` of Python on values without floating-point numbers: the text
is plain ASCII, with every other character escaped.

The two results that the development needs are that the decoder inverts the encoder
(`decode_encode`), and that it accepts no proper prefix of the text of a list or of an
object (`decode_of_prefix`), so that a text that broke off is never mistaken for another
one.  Both rest on what a scanner does with a text that goes on after what it has scanned.
-/

namespace Gcos.Lib

/-- The values of `json.loads`, without floating-point numbers. -/
inductive Json
  | null
  | bool (b : Bool)
  | int (n : ℤ)
  | str (text : String)
  | arr (items : List Json)
  | obj (members : List (String × Json))

namespace Json

/-- `payload.get(key)`: of two members with one key the last one counts. -/
def get (key : String) : Json → Option Json
  | obj members => members.reverse.lookup key
  | null | bool _ | int _ | str _ | arr _ => none

/-! ### The encoder -/

/-- The hexadecimal digit of a number below 16. -/
def hexDigit (d : ℕ) : Char := if d < 10 then Char.ofNat (48 + d) else Char.ofNat (87 + d)

/-- `'{0:04x}'.format(n)`. -/
def hex4 (n : ℕ) : List Char :=
  [hexDigit (n / 4096 % 16), hexDigit (n / 256 % 16), hexDigit (n / 16 % 16), hexDigit (n % 16)]

/-- `ESCAPE_DCT`. -/
def short (c : Char) : Option Char :=
  if c = '"' then some '"'
  else if c = '\\' then some '\\'
  else if c = '\n' then some 'n'
  else if c = '\r' then some 'r'
  else if c = '\t' then some 't'
  else if c = '\x0c' then some 'f'
  else if c = '\x08' then some 'b'
  else none

/-- The text that stands for a character in a string. -/
def escape (c : Char) : List Char :=
  match short c with
  | some d => ['\\', d]
  | none =>
    if 0x20 ≤ c.toNat ∧ c.toNat ≤ 0x7e then [c]
    else if c.toNat < 0x10000 then '\\' :: 'u' :: hex4 c.toNat
    else
      '\\' :: 'u' :: hex4 (0xd800 + (c.toNat - 0x10000) / 1024) ++
        '\\' :: 'u' :: hex4 (0xdc00 + (c.toNat - 0x10000) % 1024)

/-- `py_encode_basestring_ascii`. -/
def quoted (text : List Char) : List Char := '"' :: text.flatMap escape ++ ['"']

/-- `int.__repr__`. -/
def intText : ℤ → List Char
  | .ofNat n => Nat.toDigits 10 n
  | .negSucc n => '-' :: Nat.toDigits 10 (n + 1)

mutual

/-- `json.dumps`. -/
def encode : Json → List Char
  | null => ['n', 'u', 'l', 'l']
  | bool true => ['t', 'r', 'u', 'e']
  | bool false => ['f', 'a', 'l', 's', 'e']
  | int n => intText n
  | str text => quoted text.toList
  | arr [] => ['[', ']']
  | arr (v :: items) => '[' :: (encode v ++ encodeItems items)
  | obj [] => ['{', '}']
  | obj ((key, v) :: members) =>
    '{' :: (quoted key.toList ++ ':' :: ' ' :: (encode v ++ encodeMembers members))

/-- The items after the first one, and the closing bracket. -/
def encodeItems : List Json → List Char
  | [] => [']']
  | v :: items => ',' :: ' ' :: (encode v ++ encodeItems items)

/-- The members after the first one, and the closing brace. -/
def encodeMembers : List (String × Json) → List Char
  | [] => ['}']
  | (key, v) :: members =>
    ',' :: ' ' :: (quoted key.toList ++ ':' :: ' ' :: (encode v ++ encodeMembers members))

end

/-! ### The decoder -/

/-- `WHITESPACE`. -/
def isBlank (c : Char) : Bool := c == ' ' || c == '\t' || c == '\n' || c == '\r'

/-- The text after its blanks. -/
def skip (s : List Char) : List Char := s.dropWhile isBlank

/-- The value of a hexadecimal digit. -/
def hexVal (c : Char) : Option ℕ :=
  if c.isDigit then some (c.toNat - 48)
  else if 'a' ≤ c ∧ c ≤ 'f' then some (c.toNat - 87)
  else if 'A' ≤ c ∧ c ≤ 'F' then some (c.toNat - 55)
  else none

/-- `_decode_uXXXX`. -/
def unit4 : List Char → Option (ℕ × List Char)
  | a :: b :: c :: d :: s => do
    let a ← hexVal a
    let b ← hexVal b
    let c ← hexVal c
    let d ← hexVal d
    return (a * 4096 + b * 256 + c * 16 + d, s)
  | _ => none

/-- `BACKSLASH`. -/
def unescape (c : Char) : Option Char :=
  if c = '"' ∨ c = '\\' ∨ c = '/' then some c
  else if c = 'n' then some '\n'
  else if c = 'r' then some '\r'
  else if c = 't' then some '\t'
  else if c = 'f' then some '\x0c'
  else if c = 'b' then some '\x08'
  else none

/-- A unit of UTF-16 and the text after it.  The units of a pair are put together, and half
a pair is refused, because it stands for no character. -/
def scanUnit (s : List Char) : Option (Char × List Char) :=
  match unit4 s with
  | none => none
  | some (n, s) =>
    if 0xd800 ≤ n ∧ n ≤ 0xdbff then
      match s with
      | '\\' :: 'u' :: s =>
        match unit4 s with
        | none => none
        | some (m, s) =>
          if 0xdc00 ≤ m ∧ m ≤ 0xdfff then
            some (Char.ofNat (0x10000 + (n - 0xd800) * 1024 + (m - 0xdc00)), s)
          else none
      | _ => none
    else if 0xdc00 ≤ n ∧ n ≤ 0xdfff then none
    else some (Char.ofNat n, s)

/-- The first character that a string stands for, and the text after it. -/
def scanChar : List Char → Option (Char × List Char)
  | [] => none
  | c :: s =>
    if c = '\\' then
      match s with
      | [] => none
      | d :: s => if d = 'u' then scanUnit s else (unescape d).map fun c => (c, s)
    else if c.toNat < 0x20 then none
    else some (c, s)

/-- `py_scanstring`, for a text of at most `fuel` characters. -/
def scanString : ℕ → List Char → Option (List Char × List Char)
  | 0, _ => none
  | _ + 1, [] => none
  | fuel + 1, c :: s =>
    if c = '"' then some ([], s)
    else
      match scanChar (c :: s) with
      | none => none
      | some (d, s) => (scanString fuel s).map fun m => (d :: m.1, m.2)

/-- `0|[1-9]\d*`. -/
def scanNat : List Char → Option (ℕ × List Char)
  | [] => none
  | c :: s =>
    if c = '0' then some (0, s)
    else if c.isDigit then
      some (Nat.ofDigitChars 10 ((c :: s).takeWhile Char.isDigit) 0, s.dropWhile Char.isDigit)
    else none

/-- The number does not go on as a floating-point number. -/
def isWhole (s : List Char) : Bool :=
  match s.head? with
  | none => true
  | some c => c != '.' && c != 'e' && c != 'E'

/-- `NUMBER_RE`, for integers. -/
def scanInt (s : List Char) : Option (ℤ × List Char) :=
  match s with
  | '-' :: s =>
    match scanNat s with
    | none => none
    | some (n, s) => if isWhole s then some (-n, s) else none
  | s =>
    match scanNat s with
    | none => none
    | some (n, s) => if isWhole s then some (n, s) else none

mutual

/-- `scan_once`, for values that are nested at most `fuel` times. -/
@[simp] def value : ℕ → List Char → Option (Json × List Char)
  | 0, _ => none
  | fuel + 1, s =>
    match s with
    | '"' :: s => (scanString (s.length + 1) s).map fun m => (str (String.ofList m.1), m.2)
    | '[' :: s =>
      match skip s with
      | ']' :: s => some (arr [], s)
      | s => (items fuel s).map fun m => (arr m.1, m.2)
    | '{' :: s =>
      match skip s with
      | '}' :: s => some (obj [], s)
      | s => (members fuel s).map fun m => (obj m.1, m.2)
    | 'n' :: 'u' :: 'l' :: 'l' :: s => some (null, s)
    | 't' :: 'r' :: 'u' :: 'e' :: s => some (bool true, s)
    | 'f' :: 'a' :: 'l' :: 's' :: 'e' :: s => some (bool false, s)
    | s => (scanInt s).map fun m => (int m.1, m.2)

/-- `JSONArray`, after the opening bracket. -/
@[simp] def items : ℕ → List Char → Option (List Json × List Char)
  | 0, _ => none
  | fuel + 1, s =>
    match value fuel s with
    | none => none
    | some (v, s) =>
      match skip s with
      | ']' :: s => some ([v], s)
      | ',' :: s => (items fuel (skip s)).map fun m => (v :: m.1, m.2)
      | _ => none

/-- `JSONObject`, after the opening brace. -/
@[simp] def members : ℕ → List Char → Option (List (String × Json) × List Char)
  | 0, _ => none
  | fuel + 1, s =>
    match s with
    | '"' :: s =>
      match scanString (s.length + 1) s with
      | none => none
      | some (key, s) =>
        match skip s with
        | ':' :: s =>
          match value fuel (skip s) with
          | none => none
          | some (v, s) =>
            match skip s with
            | '}' :: s => some ([(String.ofList key, v)], s)
            | ',' :: s =>
              (members fuel (skip s)).map fun m => ((String.ofList key, v) :: m.1, m.2)
            | _ => none
        | _ => none
    | _ => none

end

/-- `json.loads`. -/
def decode (s : List Char) : Option Json :=
  match value (s.length + 1) (skip s) with
  | none => none
  | some (v, s) => if skip s = [] then some v else none

/-! ### Scanning a text that goes on -/

section

variable {s r t : List Char}

@[simp] lemma skip_cons_of_blank {c : Char} (h : isBlank c = true) : skip (c :: s) = skip s := by
  simp [skip, h]

@[simp] lemma skip_cons_of_not_blank {c : Char} (h : isBlank c = false) :
    skip (c :: s) = c :: s := by
  simp [skip, h]

/-- A text that has more than blanks is skipped no further if it goes on. -/
lemma skip_append {c : Char} (h : skip s = c :: r) (t : List Char) :
    skip (s ++ t) = c :: (r ++ t) := by
  induction s with
  | nil => simp [skip] at h
  | cons d s ih =>
    rw [List.cons_append]
    cases hd : isBlank d with
    | true =>
      rw [skip_cons_of_blank hd] at h ⊢
      exact ih h
    | false =>
      rw [skip_cons_of_not_blank hd] at h ⊢
      obtain ⟨rfl, rfl⟩ := List.cons.inj h
      rfl

lemma unit4_append {n : ℕ} (h : unit4 s = some (n, r)) (t : List Char) :
    unit4 (s ++ t) = some (n, r ++ t) := by
  match s, h with
  | a :: b :: c :: d :: s, h =>
    simp only [unit4, Option.bind_eq_bind, Option.bind_eq_some_iff, Option.pure_def,
      Option.some.injEq, Prod.mk.injEq, List.cons_append] at h ⊢
    obtain ⟨a', ha, b', hb, c', hc, d', hd, hn, rfl⟩ := h
    exact ⟨a', ha, b', hb, c', hc, d', hd, hn, rfl⟩

lemma scanUnit_append {c : Char} (h : scanUnit s = some (c, r)) (t : List Char) :
    scanUnit (s ++ t) = some (c, r ++ t) := by
  unfold scanUnit at h ⊢
  cases hn : unit4 s with
  | none => simp [hn] at h
  | some m =>
    obtain ⟨n, s'⟩ := m
    rw [unit4_append hn]
    simp only [hn] at h ⊢
    split at h
    · next hhigh =>
      rw [if_pos hhigh]
      split at h
      · next s'' =>
        simp only [List.cons_append]
        cases hm : unit4 s'' with
        | none => simp [hm] at h
        | some m =>
          rw [unit4_append hm]
          simp only [hm] at h ⊢
          split at h
          · next hlow =>
            obtain ⟨rfl, rfl⟩ := Prod.mk.inj (Option.some.inj h)
            rw [if_pos hlow]
          · simp at h
      · simp at h
    · next hhigh =>
      rw [if_neg hhigh]
      split at h
      · simp at h
      · next hlow =>
        obtain ⟨rfl, rfl⟩ := Prod.mk.inj (Option.some.inj h)
        rw [if_neg hlow]

lemma scanChar_append {c : Char} (h : scanChar s = some (c, r)) (t : List Char) :
    scanChar (s ++ t) = some (c, r ++ t) := by
  match s, h with
  | [d], h =>
    by_cases hd : d = '\\'
    · simp [scanChar, hd] at h
    · simp only [scanChar, if_neg hd, List.cons_append, List.nil_append] at h ⊢
      split at h
      · simp at h
      · next hctl =>
        obtain ⟨rfl, rfl⟩ := Prod.mk.inj (Option.some.inj h)
        rw [if_neg hctl, List.nil_append]
  | d :: e :: s, h =>
    simp only [scanChar, List.cons_append] at h ⊢
    split_ifs at h ⊢ with hd he hctl
    · exact scanUnit_append h t
    · obtain ⟨c', hc', hm⟩ := Option.map_eq_some_iff.1 h
      obtain ⟨rfl, rfl⟩ := Prod.mk.inj hm
      rw [hc', Option.map_some]
    · obtain ⟨rfl, rfl⟩ := Prod.mk.inj (Option.some.inj h)
      rfl

lemma scanString_append {n m : ℕ} {x : List Char} (h : scanString n s = some (x, r)) (hnm : n ≤ m)
    (t : List Char) : scanString m (s ++ t) = some (x, r ++ t) := by
  -- by induction on the fuel, one character at a time
  induction n generalizing m s x with
  | zero => simp [scanString] at h
  | succ n ih =>
    obtain ⟨m, rfl⟩ : ∃ k, m = k + 1 := ⟨m - 1, by omega⟩
    cases s with
    | nil => simp [scanString] at h
    | cons c s =>
      rw [List.cons_append]
      simp only [scanString] at h ⊢
      split_ifs at h ⊢ with hc
      · obtain ⟨rfl, rfl⟩ := Prod.mk.inj (Option.some.inj h)
        rfl
      · cases hd : scanChar (c :: s) with
        | none => simp [hd] at h
        | some d =>
          have hd' := scanChar_append hd t
          rw [List.cons_append] at hd'
          simp only [hd, hd'] at h ⊢
          obtain ⟨y, hy, hxy⟩ := Option.map_eq_some_iff.1 h
          obtain ⟨rfl, rfl⟩ := Prod.mk.inj hxy
          rw [ih hy (by omega), Option.map_some]

lemma takeWhile_append_of_rest {p : Char → Bool} (h : s.dropWhile p ≠ []) (t : List Char) :
    (s ++ t).takeWhile p = s.takeWhile p ∧ (s ++ t).dropWhile p = s.dropWhile p ++ t := by
  induction s with
  | nil => simp at h
  | cons c s ih =>
    cases hc : p c with
    | true =>
      simp only [List.dropWhile_cons_of_pos hc, List.takeWhile_cons_of_pos hc,
        List.cons_append] at h ⊢
      exact ⟨by rw [(ih h).1], (ih h).2⟩
    | false => simp [hc]

lemma scanNat_append {n : ℕ} (h : scanNat s = some (n, r)) (hr : r ≠ []) (t : List Char) :
    scanNat (s ++ t) = some (n, r ++ t) := by
  cases s with
  | nil => simp [scanNat] at h
  | cons c s =>
    simp only [scanNat, List.cons_append] at h ⊢
    split_ifs at h ⊢ with hzero hdigit
    · obtain ⟨rfl, rfl⟩ := Prod.mk.inj (Option.some.inj h)
      rfl
    · obtain ⟨rfl, rfl⟩ := Prod.mk.inj (Option.some.inj h)
      obtain ⟨htake, hdrop⟩ := takeWhile_append_of_rest hr t
      simp only [List.takeWhile_cons_of_pos hdigit, htake, hdrop]

lemma isWhole_append (hr : r ≠ []) (t : List Char) : isWhole (r ++ t) = isWhole r := by
  cases r with
  | nil => exact absurd rfl hr
  | cons c r => rfl

/-- An integer stands at the beginning of a text only with its sign or with a digit. -/
lemma scanNat_head {m : ℕ × List Char} (h : scanNat s = some m) :
    ∃ c s', s = c :: s' ∧ c.isDigit = true := by
  cases s with
  | nil => simp [scanNat] at h
  | cons c s =>
    refine ⟨c, s, rfl, ?_⟩
    simp only [scanNat] at h
    split_ifs at h with hzero hdigit
    · rw [hzero]
      rfl
    · exact hdigit

lemma scanInt_of_digit {c : Char} (hc : c.isDigit = true) :
    scanInt (c :: s) = (scanNat (c :: s)).bind fun m =>
      if isWhole m.2 then some ((m.1 : ℤ), m.2) else none := by
  unfold scanInt
  split
  · next heq =>
    obtain ⟨rfl, -⟩ := List.cons.inj heq
    exact absurd hc (by decide)
  · cases scanNat (c :: s) <;> rfl

lemma scanInt_of_minus : scanInt ('-' :: s) = (scanNat s).bind fun m =>
    if isWhole m.2 then some (-(m.1 : ℤ), m.2) else none := by
  simp only [scanInt]
  cases scanNat s <;> rfl

lemma scanInt_head {m : ℤ × List Char} (h : scanInt s = some m) :
    ∃ c s', s = c :: s' ∧ (c = '-' ∨ c.isDigit = true) := by
  unfold scanInt at h
  split at h
  · next s' => exact ⟨'-', s', rfl, .inl rfl⟩
  · cases hn : scanNat s with
    | none => simp [hn] at h
    | some n =>
      obtain ⟨c, s', hs, hc⟩ := scanNat_head hn
      exact ⟨c, s', hs, .inr hc⟩

lemma scanInt_append {n : ℤ} (h : scanInt s = some (n, r)) (hr : r ≠ []) (t : List Char) :
    scanInt (s ++ t) = some (n, r ++ t) := by
  obtain ⟨c, s', rfl, hc⟩ := scanInt_head h
  rw [List.cons_append]
  rcases hc with rfl | hc
  · rw [scanInt_of_minus] at h ⊢
    obtain ⟨⟨k, q⟩, hk, hwhole⟩ := Option.bind_eq_some_iff.1 h
    dsimp only at hwhole
    split_ifs at hwhole with hq
    obtain ⟨rfl, rfl⟩ := Prod.mk.inj (Option.some.inj hwhole)
    rw [scanNat_append hk hr, Option.bind_some, isWhole_append hr, if_pos hq]
  · rw [scanInt_of_digit hc] at h ⊢
    obtain ⟨⟨k, q⟩, hk, hwhole⟩ := Option.bind_eq_some_iff.1 h
    dsimp only at hwhole
    split_ifs at hwhole with hq
    obtain ⟨rfl, rfl⟩ := Prod.mk.inj (Option.some.inj hwhole)
    have hk' := scanNat_append hk hr t
    rw [List.cons_append] at hk'
    rw [hk', Option.bind_some, isWhole_append hr, if_pos hq]

/-- A text that begins with a sign or a digit is scanned as a number. -/
lemma value_of_number {c : Char} (hc : c = '-' ∨ c.isDigit = true) (n : ℕ) :
    value (n + 1) (c :: s) = (scanInt (c :: s)).map fun m => (int m.1, m.2) := by
  have hne : ∀ d, d = c → ¬(d ≠ '-' ∧ d.isDigit = false) := by
    rintro d rfl ⟨hminus, hdigit⟩
    rcases hc with rfl | hc
    · exact hminus rfl
    · rw [hc] at hdigit
      cases hdigit
  rw [value]
  all_goals
    intro s' heq
    obtain ⟨rfl, -⟩ := List.cons.inj heq
    exact hne _ rfl (by decide)

/-- The value is a number, whose text may go on. -/
def isInt : Json → Bool
  | int _ => true
  | null | bool _ | str _ | arr _ | obj _ => false

/-- What is found in a text is found in it when it goes on, unless it is a number at its
end. -/
def Extends (n : ℕ) : Prop :=
  (∀ m s v r, value n s = some (v, r) → n ≤ m → (v.isInt = true → r ≠ []) →
    ∀ t, value m (s ++ t) = some (v, r ++ t)) ∧
  (∀ m s vs r, items n s = some (vs, r) → n ≤ m → ∀ t, items m (s ++ t) = some (vs, r ++ t)) ∧
  ∀ m s ms r, members n s = some (ms, r) → n ≤ m → ∀ t, members m (s ++ t) = some (ms, r ++ t)

lemma value_nil (n : ℕ) : value n [] = none := by
  cases n with
  | zero => rfl
  | succ n => rfl

lemma items_nil (n : ℕ) : items n [] = none := by
  cases n with
  | zero => rfl
  | succ n => simp [items, value_nil]

lemma members_nil (n : ℕ) : members n [] = none := by
  cases n with
  | zero => rfl
  | succ n => simp [members]

lemma value_bracket_close (n : ℕ) (hs : skip s = ']' :: r) :
    value (n + 1) ('[' :: s) = some (arr [], r) := by
  simp [value, hs]

lemma value_bracket {c : Char} (n : ℕ) (hs : skip s = c :: r) (hc : c ≠ ']') :
    value (n + 1) ('[' :: s) = (items n (c :: r)).map fun m => (arr m.1, m.2) := by
  simp only [value, hs]
  split
  · next heq => exact absurd (List.cons.inj heq).1 hc
  · rfl

lemma value_brace_close (n : ℕ) (hs : skip s = '}' :: r) :
    value (n + 1) ('{' :: s) = some (obj [], r) := by
  simp [value, hs]

lemma value_brace {c : Char} (n : ℕ) (hs : skip s = c :: r) (hc : c ≠ '}') :
    value (n + 1) ('{' :: s) = (members n (c :: r)).map fun m => (obj m.1, m.2) := by
  simp only [value, hs]
  split
  · next heq => exact absurd (List.cons.inj heq).1 hc
  · rfl

lemma value_append_succ {n m : ℕ} (hn : Extends n) (hnm : n ≤ m) {v : Json}
    (h : value (n + 1) s = some (v, r)) (hint : v.isInt = true → r ≠ []) (t : List Char) :
    value (m + 1) (s ++ t) = some (v, r ++ t) := by
  obtain ⟨-, hitems, hmembers⟩ := hn
  unfold value at h
  split at h
  · next s =>
    obtain ⟨⟨x, q⟩, hx, hv⟩ := Option.map_eq_some_iff.1 h
    obtain ⟨rfl, rfl⟩ := Prod.mk.inj hv
    have hx' : scanString ((s ++ t).length + 1) (s ++ t) = some (x, q ++ t) :=
      scanString_append hx (by simp) t
    rw [List.cons_append, value, hx', Option.map_some]
  · next s =>
    rw [List.cons_append]
    split at h
    · next q hq =>
      obtain ⟨rfl, rfl⟩ := Prod.mk.inj (Option.some.inj h)
      exact value_bracket_close m (skip_append hq t)
    · next hno =>
      obtain ⟨⟨vs, q⟩, hvs, hv⟩ := Option.map_eq_some_iff.1 h
      obtain ⟨rfl, rfl⟩ := Prod.mk.inj hv
      cases hs : skip s with
      | nil => simp [hs, items_nil] at hvs
      | cons c q' =>
        have hc : c ≠ ']' := by
          rintro rfl
          exact hno q' hs
        have hvs' := hitems m _ vs q hvs hnm t
        rw [hs, List.cons_append] at hvs'
        rw [value_bracket m (skip_append hs t) hc, hvs', Option.map_some]
  · next s =>
    rw [List.cons_append]
    split at h
    · next q hq =>
      obtain ⟨rfl, rfl⟩ := Prod.mk.inj (Option.some.inj h)
      exact value_brace_close m (skip_append hq t)
    · next hno =>
      obtain ⟨⟨vs, q⟩, hvs, hv⟩ := Option.map_eq_some_iff.1 h
      obtain ⟨rfl, rfl⟩ := Prod.mk.inj hv
      cases hs : skip s with
      | nil => simp [hs, members_nil] at hvs
      | cons c q' =>
        have hc : c ≠ '}' := by
          rintro rfl
          exact hno q' hs
        have hvs' := hmembers m _ vs q hvs hnm t
        rw [hs, List.cons_append] at hvs'
        rw [value_brace m (skip_append hs t) hc, hvs', Option.map_some]
  · obtain ⟨rfl, rfl⟩ := Prod.mk.inj (Option.some.inj h)
    simp [value]
  · obtain ⟨rfl, rfl⟩ := Prod.mk.inj (Option.some.inj h)
    simp [value]
  · obtain ⟨rfl, rfl⟩ := Prod.mk.inj (Option.some.inj h)
    simp [value]
  · obtain ⟨⟨k, q⟩, hk, hv⟩ := Option.map_eq_some_iff.1 h
    obtain ⟨rfl, rfl⟩ := Prod.mk.inj hv
    obtain ⟨c, s', rfl, hc⟩ := scanInt_head hk
    have hk' := scanInt_append hk (hint rfl) t
    rw [List.cons_append] at hk' ⊢
    rw [value_of_number hc, hk', Option.map_some]

lemma skip_ne_nil {c : Char} (h : skip s = c :: r) : s ≠ [] := by
  rintro rfl
  simp [skip] at h

lemma items_append_succ {n m : ℕ} (hn : Extends n) (hnm : n ≤ m) {vs : List Json}
    (h : items (n + 1) s = some (vs, r)) (t : List Char) :
    items (m + 1) (s ++ t) = some (vs, r ++ t) := by
  obtain ⟨hvalue, hitems, -⟩ := hn
  rw [items] at h ⊢
  cases hv : value n s with
  | none => simp [hv] at h
  | some v =>
    obtain ⟨v, q⟩ := v
    simp only [hv] at h
    split at h
    · next q' hq =>
      rw [hvalue m s v q hv hnm (fun _ => skip_ne_nil hq) t]
      simp only [skip_append hq t]
      obtain ⟨rfl, rfl⟩ := Prod.mk.inj (Option.some.inj h)
      rfl
    · next q' hq =>
      rw [hvalue m s v q hv hnm (fun _ => skip_ne_nil hq) t]
      simp only [skip_append hq t]
      obtain ⟨⟨vs', q''⟩, hvs, hm⟩ := Option.map_eq_some_iff.1 h
      obtain ⟨rfl, rfl⟩ := Prod.mk.inj hm
      cases hq' : skip q' with
      | nil => simp [hq', items_nil] at hvs
      | cons c q3 =>
        have hvs' := hitems m _ vs' q'' hvs hnm t
        rw [hq', List.cons_append] at hvs'
        rw [skip_append hq' t, hvs', Option.map_some]
    · simp at h

lemma members_append_succ {n m : ℕ} (hn : Extends n) (hnm : n ≤ m) {ms : List (String × Json)}
    (h : members (n + 1) s = some (ms, r)) (t : List Char) :
    members (m + 1) (s ++ t) = some (ms, r ++ t) := by
  obtain ⟨hvalue, -, hmembers⟩ := hn
  unfold members at h
  split at h
  · next s =>
    rw [List.cons_append, members]
    cases hkey : scanString (s.length + 1) s with
    | none => simp [hkey] at h
    | some key =>
      obtain ⟨key, q⟩ := key
      rw [scanString_append hkey (by simp) t]
      simp only [hkey] at h ⊢
      split at h
      · next q1 hq1 =>
        simp only [skip_append hq1 t]
        cases hv : value n (skip q1) with
        | none => simp [hv] at h
        | some v =>
          obtain ⟨v, q2⟩ := v
          cases hq2 : skip q1 with
          | nil => simp [hq2, value_nil] at hv
          | cons c q3 =>
            have hv' : q2 ≠ [] → value m (skip (q1 ++ t)) = some (v, q2 ++ t) := by
              intro hne
              have hlong := hvalue m _ v q2 hv hnm (fun _ => hne) t
              rwa [hq2, List.cons_append, ← skip_append hq2 t] at hlong
            simp only [hv] at h
            split at h
            · next q4 hq4 =>
              rw [hv' (skip_ne_nil hq4)]
              simp only [skip_append hq4 t]
              obtain ⟨rfl, rfl⟩ := Prod.mk.inj (Option.some.inj h)
              rfl
            · next q4 hq4 =>
              rw [hv' (skip_ne_nil hq4)]
              simp only [skip_append hq4 t]
              obtain ⟨⟨ms', q5⟩, hms, hm⟩ := Option.map_eq_some_iff.1 h
              obtain ⟨rfl, rfl⟩ := Prod.mk.inj hm
              cases hq5 : skip q4 with
              | nil => simp [hq5, members_nil] at hms
              | cons c' q6 =>
                have hms' := hmembers m _ ms' q5 hms hnm t
                rw [hq5, List.cons_append] at hms'
                rw [skip_append hq5 t, hms', Option.map_some]
            · simp at h
      · simp at h
  · simp at h

/-- **Scanning goes the same way in a text that goes on.** -/
lemma extends_all (n : ℕ) : Extends n := by
  -- by induction on the fuel: the three scanners call each other with less of it
  induction n with
  | zero =>
    refine ⟨?_, ?_, ?_⟩
    · intro m s v r h
      simp [value] at h
    · intro m s vs r h
      simp [items] at h
    · intro m s ms r h
      simp [members] at h
  | succ n ih =>
    refine ⟨?_, ?_, ?_⟩
    · intro m s v r h hnm hint t
      obtain ⟨m, rfl⟩ : ∃ k, m = k + 1 := ⟨m - 1, by omega⟩
      exact value_append_succ ih (by omega) h hint t
    · intro m s vs r h hnm t
      obtain ⟨m, rfl⟩ : ∃ k, m = k + 1 := ⟨m - 1, by omega⟩
      exact items_append_succ ih (by omega) h t
    · intro m s ms r h hnm t
      obtain ⟨m, rfl⟩ : ∃ k, m = k + 1 := ⟨m - 1, by omega⟩
      exact members_append_succ ih (by omega) h t

end

/-! ### Decoding what was encoded -/

lemma hexVal_hexDigit : ∀ d < 16, hexVal (hexDigit d) = some d := by decide

lemma unit4_hex4 {n : ℕ} (hn : n < 65536) (s : List Char) : unit4 (hex4 n ++ s) = some (n, s) := by
  have ha := hexVal_hexDigit (n / 4096 % 16) (by omega)
  have hb := hexVal_hexDigit (n / 256 % 16) (by omega)
  have hc := hexVal_hexDigit (n / 16 % 16) (by omega)
  have hd := hexVal_hexDigit (n % 16) (by omega)
  simp only [hex4, unit4, List.cons_append, List.nil_append, ha, hb, hc, hd, Option.bind_eq_bind,
    Option.bind_some, Option.pure_def, Option.some.injEq, Prod.mk.injEq, and_true]
  omega

/-- A character is no surrogate and lies below the end of Unicode. -/
lemma toNat_cases (c : Char) :
    c.toNat < 0xd800 ∨ 0xdfff < c.toNat ∧ c.toNat < 0x110000 := c.valid

/-- **The two units of a character** outside the basic plane are put together again. -/
lemma scanUnit_pair {c : Char} (hc : 0x10000 ≤ c.toNat) (s : List Char) :
    scanUnit (hex4 (0xd800 + (c.toNat - 0x10000) / 1024) ++
      '\\' :: 'u' :: (hex4 (0xdc00 + (c.toNat - 0x10000) % 1024) ++ s)) = some (c, s) := by
  have hmax : c.toNat < 0x110000 := by
    rcases toNat_cases c with h | h <;> omega
  have hhigh : 0xd800 ≤ 0xd800 + (c.toNat - 0x10000) / 1024 ∧
      0xd800 + (c.toNat - 0x10000) / 1024 ≤ 0xdbff := by omega
  have hlow : 0xdc00 ≤ 0xdc00 + (c.toNat - 0x10000) % 1024 ∧
      0xdc00 + (c.toNat - 0x10000) % 1024 ≤ 0xdfff := by omega
  rw [scanUnit, unit4_hex4 (by omega)]
  simp only [if_pos hhigh, unit4_hex4 (show 0xdc00 + (c.toNat - 0x10000) % 1024 < 65536 by omega),
    if_pos hlow]
  have hvalue : 0x10000 + (0xd800 + (c.toNat - 0x10000) / 1024 - 0xd800) * 1024 +
      (0xdc00 + (c.toNat - 0x10000) % 1024 - 0xdc00) = c.toNat := by omega
  rw [hvalue, Char.ofNat_toNat]

lemma scanUnit_single {c : Char} (hc : c.toNat < 0x10000) (s : List Char) :
    scanUnit (hex4 c.toNat ++ s) = some (c, s) := by
  rw [scanUnit, unit4_hex4 (by omega)]
  dsimp only
  rw [if_neg, if_neg, Char.ofNat_toNat]
  · rcases toNat_cases c with h | h <;> omega
  · rcases toNat_cases c with h | h <;> omega

lemma unescape_short {c d : Char} (h : short c = some d) : unescape d = some c ∧ d ≠ 'u' := by
  unfold short at h
  split_ifs at h with h1 h2 h3 h4 h5 h6 h7
  all_goals
    obtain rfl := Option.some.inj h
    subst c
    decide

lemma scanChar_escape (c : Char) (s : List Char) : scanChar (escape c ++ s) = some (c, s) := by
  unfold escape
  cases hd : short c with
  | some d =>
    obtain ⟨hc, hu⟩ := unescape_short hd
    simp [scanChar, hc, hu]
  | none =>
    have hback : c ≠ '\\' := by
      rintro rfl
      cases hd
    dsimp only
    split_ifs with hplain hbmp
    · simp [scanChar, hback, show ¬c.toNat < 0x20 by omega]
    · simp [scanChar, scanUnit_single hbmp]
    · have hpair := scanUnit_pair (not_lt.1 hbmp) s
      simp only [List.cons_append, List.append_assoc, scanChar, if_true]
      exact hpair

lemma escape_head (c : Char) : ∃ d x, escape c = d :: x ∧ d ≠ '"' := by
  unfold escape
  cases hd : short c with
  | some d => exact ⟨_, _, rfl, by decide⟩
  | none =>
    have hquote : c ≠ '"' := by
      rintro rfl
      cases hd
    dsimp only
    split_ifs
    · exact ⟨_, _, rfl, hquote⟩
    · exact ⟨_, _, rfl, by decide⟩
    · exact ⟨_, _, rfl, by decide⟩

lemma scanString_escape {fuel : ℕ} (x s : List Char) (hfuel : x.length < fuel) :
    scanString fuel (x.flatMap escape ++ '"' :: s) = some (x, s) := by
  induction x generalizing fuel with
  | nil =>
    obtain ⟨fuel, rfl⟩ : ∃ k, fuel = k + 1 := ⟨fuel - 1, by simp at hfuel; omega⟩
    simp [scanString]
  | cons c x ih =>
    rw [List.length_cons] at hfuel
    obtain ⟨fuel, rfl⟩ : ∃ k, fuel = k + 1 := ⟨fuel - 1, by omega⟩
    obtain ⟨d, y, hy, hd⟩ := escape_head c
    have hscan := scanChar_escape c (x.flatMap escape ++ '"' :: s)
    rw [List.flatMap_cons, List.append_assoc]
    rw [hy, List.cons_append] at hscan ⊢
    simp only [scanString, if_neg hd, hscan]
    rw [ih (by omega), Option.map_some]

lemma length_le_flatMap_escape (x : List Char) : x.length ≤ (x.flatMap escape).length := by
  induction x with
  | nil => exact le_rfl
  | cons c x ih =>
    obtain ⟨d, y, hy, -⟩ := escape_head c
    rw [List.flatMap_cons, hy]
    simp only [List.length_append, List.length_cons]
    omega

lemma quoted_append (x s : List Char) :
    quoted x ++ s = '"' :: (x.flatMap escape ++ '"' :: s) := by
  simp [quoted]

/-- What a scanner makes of a quoted text. -/
lemma scanString_quoted (x s : List Char) :
    scanString ((x.flatMap escape ++ '"' :: s).length + 1) (x.flatMap escape ++ '"' :: s) =
      some (x, s) := by
  refine scanString_escape x s ?_
  have hlen := length_le_flatMap_escape x
  simp only [List.length_append, List.length_cons]
  omega

/-- The text cannot be the rest of a number. -/
def Delimits (s : List Char) : Prop := ∀ c ∈ s.head?, c.isDigit = false ∧ isWhole [c] = true

lemma delimits_nil : Delimits [] := by
  intro c hc
  cases hc

lemma isWhole_of_delimits {s : List Char} (h : Delimits s) : isWhole s = true := by
  cases s with
  | nil => rfl
  | cons c s => exact (h c rfl).2

/-- The text of a positive number begins with no zero. -/
lemma toDigits_head {n : ℕ} (hn : 0 < n) : ∃ c x, Nat.toDigits 10 n = c :: x ∧ c ≠ '0' := by
  induction n using Nat.strong_induction_on with
  | _ n ih =>
    rcases Nat.lt_or_ge n 10 with hlt | hge
    · refine ⟨n.digitChar, [], Nat.toDigits_of_lt_base hlt, ?_⟩
      have hdigit : ∀ k < 10, 0 < k → Nat.digitChar k ≠ '0' := by decide
      exact hdigit n hlt hn
    · obtain ⟨c, x, hx, hc⟩ := ih (n / 10) (by omega) (by omega)
      refine ⟨c, x ++ [Nat.digitChar (n % 10)], ?_, hc⟩
      rw [Nat.toDigits_of_base_le (by decide) hge, hx, List.cons_append]

lemma scanNat_toDigits (n : ℕ) {s : List Char} (hs : Delimits s) :
    scanNat (Nat.toDigits 10 n ++ s) = some (n, s) := by
  rcases Nat.eq_zero_or_pos n with rfl | hn
  · simp [scanNat]
  · have hdigits : ∀ c ∈ Nat.toDigits 10 n, c.isDigit = true := fun c hc =>
      Nat.isDigit_of_mem_toDigits (by decide) le_rfl hc
    have hstop : s.takeWhile Char.isDigit = [] ∧ s.dropWhile Char.isDigit = s := by
      cases s with
      | nil => exact ⟨rfl, rfl⟩
      | cons c s => simp [(hs c rfl).1]
    have htake : (Nat.toDigits 10 n ++ s).takeWhile Char.isDigit = Nat.toDigits 10 n := by
      rw [List.takeWhile_append_of_pos hdigits, hstop.1, List.append_nil]
    have hdrop : (Nat.toDigits 10 n ++ s).dropWhile Char.isDigit = s := by
      rw [List.dropWhile_append_of_pos hdigits, hstop.2]
    obtain ⟨c, x, hx, hc⟩ := toDigits_head hn
    have hdigit : c.isDigit = true := hdigits c (by simp [hx])
    have hvalue : Nat.ofDigitChars 10 (Nat.toDigits 10 n) 0 = n := Nat.ofDigitChars_ten_toDigits
    rw [hx, List.cons_append] at htake hdrop ⊢
    rw [List.dropWhile_cons_of_pos hdigit] at hdrop
    rw [scanNat, if_neg hc, if_pos hdigit, htake, hdrop, ← hx, hvalue]

lemma scanInt_intText (n : ℤ) {s : List Char} (hs : Delimits s) :
    scanInt (intText n ++ s) = some (n, s) := by
  cases n with
  | ofNat n =>
    obtain ⟨c, x, hx, hc⟩ := scanNat_head (scanNat_toDigits n hs)
    rw [intText, hx, scanInt_of_digit hc, ← hx, scanNat_toDigits n hs, Option.bind_some,
      if_pos (isWhole_of_delimits hs)]
    rfl
  | negSucc n =>
    rw [intText, List.cons_append, scanInt_of_minus, scanNat_toDigits (n + 1) hs, Option.bind_some,
      if_pos (isWhole_of_delimits hs)]
    rfl

lemma intText_head (n : ℤ) : ∃ c x, intText n = c :: x ∧ (c = '-' ∨ c.isDigit = true) := by
  cases n with
  | ofNat n =>
    obtain ⟨c, x, hx⟩ := List.exists_cons_of_ne_nil (Nat.toDigits_ne_nil (n := n) (b := 10))
    refine ⟨c, x, hx, .inr ?_⟩
    exact Nat.isDigit_of_mem_toDigits (by decide) le_rfl (hx ▸ List.mem_cons_self)
  | negSucc n => exact ⟨_, _, rfl, .inl rfl⟩

/-- A quoted text is not skipped. -/
lemma skip_quoted (x s : List Char) : skip (quoted x ++ s) = quoted x ++ s :=
  skip_cons_of_not_blank (by decide)

/-- The first character of the text of a value. -/
abbrev Opens (c : Char) : Prop := isBlank c = false ∧ c ≠ ']' ∧ c ≠ '}'

lemma opens_of_number {c : Char} (hc : c = '-' ∨ c.isDigit = true) : Opens c := by
  have hdigit : ∀ d : Char, d ≠ '-' ∧ d.isDigit = false → d ≠ c := by
    rintro d ⟨hminus, hd⟩ rfl
    rcases hc with h | h
    · exact hminus h
    · rw [h] at hd
      cases hd
  refine ⟨?_, (hdigit _ (by decide)).symm, (hdigit _ (by decide)).symm⟩
  simp only [isBlank, Bool.or_eq_false_iff, beq_eq_false_iff_ne]
  exact ⟨⟨⟨(hdigit _ (by decide)).symm, (hdigit _ (by decide)).symm⟩,
    (hdigit _ (by decide)).symm⟩, (hdigit _ (by decide)).symm⟩

lemma encode_head (v : Json) : ∃ c x, encode v = c :: x ∧ Opens c := by
  cases v with
  | null => exact ⟨_, _, rfl, by decide⟩
  | bool b => cases b <;> exact ⟨_, _, rfl, by decide⟩
  | int n =>
    obtain ⟨c, x, hx, hc⟩ := intText_head n
    exact ⟨c, x, by rw [encode, hx], opens_of_number hc⟩
  | str text => exact ⟨_, _, rfl, by decide⟩
  | arr items => cases items <;> exact ⟨_, _, by rw [encode], by decide⟩
  | obj members =>
    rcases members with _ | ⟨⟨key, v⟩, members⟩ <;> exact ⟨_, _, by rw [encode], by decide⟩

/-- The text of a value is not skipped. -/
lemma skip_encode (v : Json) (s : List Char) : skip (encode v ++ s) = encode v ++ s := by
  obtain ⟨c, x, hx, hc⟩ := encode_head v
  rw [hx, List.cons_append, skip_cons_of_not_blank hc.1]

/-- Scanning the text of a value gives the value back. -/
def RoundTrips (v : Json) : Prop :=
  ∀ n s, (encode v).length ≤ n → Delimits s → value n (encode v ++ s) = some (v, s)

lemma delimits_encodeItems (vs : List Json) (s : List Char) : Delimits (encodeItems vs ++ s) := by
  intro c hc
  cases vs <;>
  · simp only [encodeItems, List.cons_append, List.head?_cons, Option.mem_some_iff] at hc
    subst hc
    decide

lemma delimits_encodeMembers (ms : List (String × Json)) (s : List Char) :
    Delimits (encodeMembers ms ++ s) := by
  intro c hc
  rcases ms with _ | ⟨⟨key, v⟩, ms⟩ <;>
  · simp only [encodeMembers, List.cons_append, List.head?_cons, Option.mem_some_iff] at hc
    subst hc
    decide

/-- The scanner of the items comes back with the rest of them. -/
lemma items_encode {v : Json} (hv : RoundTrips v) {vs : List Json}
    (hvs : ∀ w ∈ vs, RoundTrips w) {n : ℕ} (hn : (encode v ++ encodeItems vs).length ≤ n)
    (s : List Char) : items n (encode v ++ (encodeItems vs ++ s)) = some (v :: vs, s) := by
  induction vs generalizing v n with
  | nil =>
    simp only [encodeItems, List.length_append, List.length_cons, List.length_nil] at hn
    obtain ⟨n, rfl⟩ : ∃ k, n = k + 1 := ⟨n - 1, by omega⟩
    rw [items, hv n _ (by omega) (delimits_encodeItems [] s)]
    simp only [encodeItems, List.cons_append, List.nil_append,
      skip_cons_of_not_blank (show isBlank ']' = false by decide)]
  | cons w vs ih =>
    simp only [encodeItems, List.length_append, List.length_cons] at hn
    obtain ⟨n, rfl⟩ : ∃ k, n = k + 1 := ⟨n - 1, by omega⟩
    have hrest : items n (encode w ++ (encodeItems vs ++ s)) = some (w :: vs, s) :=
      ih (hvs w List.mem_cons_self) (fun u hu => hvs u (List.mem_cons_of_mem w hu))
        (by rw [List.length_append]; omega)
    rw [items, hv n _ (by omega) (delimits_encodeItems (w :: vs) s)]
    simp only [encodeItems, List.cons_append, List.append_assoc,
      skip_cons_of_not_blank (show isBlank ',' = false by decide),
      skip_cons_of_blank (show isBlank ' ' = true by decide), skip_encode, hrest, Option.map_some]

/-- The scanner of the members comes back with the rest of them. -/
lemma members_encode {key : String} {v : Json} (hv : RoundTrips v) {ms : List (String × Json)}
    (hms : ∀ m ∈ ms, RoundTrips m.2) {n : ℕ}
    (hn : (encode v ++ encodeMembers ms).length < n) (s : List Char) :
    members n (quoted key.toList ++ ':' :: ' ' :: (encode v ++ (encodeMembers ms ++ s))) =
      some ((key, v) :: ms, s) := by
  induction ms generalizing key v n with
  | nil =>
    obtain ⟨n, rfl⟩ : ∃ k, n = k + 1 := ⟨n - 1, by omega⟩
    simp only [encodeMembers, List.length_append, List.length_cons, List.length_nil] at hn
    have hvalue := hv n _ (by omega) (delimits_encodeMembers [] s)
    rw [quoted_append, members]
    simp only [encodeMembers, List.cons_append, List.nil_append] at hvalue ⊢
    simp only [scanString_quoted, skip_cons_of_not_blank (show isBlank ':' = false by decide),
      skip_cons_of_blank (show isBlank ' ' = true by decide), skip_encode, hvalue,
      skip_cons_of_not_blank (show isBlank '}' = false by decide), String.ofList_toList]
  | cons m ms ih =>
    obtain ⟨key', w⟩ := m
    obtain ⟨n, rfl⟩ : ∃ k, n = k + 1 := ⟨n - 1, by omega⟩
    simp only [encodeMembers, List.length_append, List.length_cons] at hn
    have hrest : members n (quoted key'.toList ++ ':' :: ' ' ::
        (encode w ++ (encodeMembers ms ++ s))) = some ((key', w) :: ms, s) :=
      ih (v := w) (hms (key', w) List.mem_cons_self)
        (fun u hu => hms u (List.mem_cons_of_mem _ hu)) (by rw [List.length_append]; omega)
    have hvalue := hv n _ (by omega) (delimits_encodeMembers ((key', w) :: ms) s)
    rw [quoted_append, members]
    simp only [encodeMembers, List.cons_append, List.append_assoc] at hvalue ⊢
    simp only [scanString_quoted, skip_cons_of_not_blank (show isBlank ':' = false by decide),
      skip_cons_of_blank (show isBlank ' ' = true by decide), skip_encode, hvalue,
      skip_cons_of_not_blank (show isBlank ',' = false by decide), skip_quoted, hrest,
      Option.map_some, String.ofList_toList]

lemma roundTrips_of_scalar {v : Json} {c : Char} {x : List Char} (hx : encode v = c :: x)
    (h : ∀ n s, Delimits s → value (n + 1) (c :: (x ++ s)) = some (v, s)) : RoundTrips v := by
  intro n s hn hs
  rw [hx, List.length_cons] at hn
  obtain ⟨n, rfl⟩ : ∃ k, n = k + 1 := ⟨n - 1, by omega⟩
  rw [hx, List.cons_append]
  exact h n s hs

lemma roundTrips_int (k : ℤ) : RoundTrips (int k) := by
  obtain ⟨c, x, hx, hc⟩ := intText_head k
  refine roundTrips_of_scalar (by rw [encode, hx]) fun n s hs => ?_
  have hscan := scanInt_intText k hs
  rw [hx, List.cons_append] at hscan
  rw [value_of_number hc, hscan, Option.map_some]

lemma roundTrips_str (text : String) : RoundTrips (str text) := by
  refine roundTrips_of_scalar (by rw [encode, quoted, List.cons_append]) fun n s _ => ?_
  rw [List.append_assoc, List.cons_append, List.nil_append, value, scanString_quoted,
    Option.map_some, String.ofList_toList]

lemma roundTrips_arr {vs : List Json} (hvs : ∀ v ∈ vs, RoundTrips v) : RoundTrips (arr vs) := by
  cases vs with
  | nil =>
    refine roundTrips_of_scalar (x := [']']) (by rw [encode]) fun n s _ => ?_
    exact value_bracket_close n (skip_cons_of_not_blank (by decide))
  | cons v vs =>
    intro n s hn _
    rw [encode, List.length_cons] at hn
    obtain ⟨n, rfl⟩ : ∃ k, n = k + 1 := ⟨n - 1, by omega⟩
    have hitems := items_encode (hvs v List.mem_cons_self)
      (fun w hw => hvs w (List.mem_cons_of_mem v hw)) (n := n) (by omega) s
    obtain ⟨c, x, hx, hc⟩ := encode_head v
    have hskip : skip (encode v ++ (encodeItems vs ++ s)) = c :: (x ++ (encodeItems vs ++ s)) := by
      rw [skip_encode, hx, List.cons_append]
    rw [encode, List.cons_append, List.append_assoc, value_bracket n hskip hc.2.1,
      ← List.cons_append, ← hx, hitems, Option.map_some]

lemma roundTrips_obj {ms : List (String × Json)} (hms : ∀ m ∈ ms, RoundTrips m.2) :
    RoundTrips (obj ms) := by
  rcases ms with _ | ⟨⟨key, v⟩, ms⟩
  · refine roundTrips_of_scalar (x := ['}']) (by rw [encode]) fun n s _ => ?_
    exact value_brace_close n (skip_cons_of_not_blank (by decide))
  · intro n s hn _
    rw [encode] at hn
    simp only [List.length_cons, List.length_append] at hn
    obtain ⟨n, rfl⟩ : ∃ k, n = k + 1 := ⟨n - 1, by omega⟩
    have hv : RoundTrips v := hms (key, v) List.mem_cons_self
    have hmembers : members n (quoted key.toList ++ ':' :: ' ' ::
        (encode v ++ (encodeMembers ms ++ s))) = some ((key, v) :: ms, s) :=
      members_encode hv (fun m hm => hms m (List.mem_cons_of_mem _ hm))
        (by rw [List.length_append]; omega) s
    have hskip := skip_quoted key.toList (':' :: ' ' :: (encode v ++ (encodeMembers ms ++ s)))
    rw [quoted_append] at hskip hmembers
    rw [encode, List.cons_append, List.append_assoc, quoted_append, List.cons_append,
      List.cons_append, List.append_assoc, value_brace n hskip (by decide), hmembers,
      Option.map_some]

mutual

/-- **The decoder inverts the encoder**, whatever comes after the text of the value. -/
theorem roundTrips : ∀ v : Json, RoundTrips v
  | null => roundTrips_of_scalar rfl fun n s _ => by simp [value]
  | bool true => roundTrips_of_scalar rfl fun n s _ => by simp [value]
  | bool false => roundTrips_of_scalar rfl fun n s _ => by simp [value]
  | int k => roundTrips_int k
  | str text => roundTrips_str text
  | arr vs => roundTrips_arr (roundTrips_items vs)
  | obj ms => roundTrips_obj (roundTrips_members ms)

theorem roundTrips_items : ∀ vs : List Json, ∀ v ∈ vs, RoundTrips v
  | [] => List.forall_mem_nil _
  | v :: vs => List.forall_mem_cons.2 ⟨roundTrips v, roundTrips_items vs⟩

theorem roundTrips_members : ∀ ms : List (String × Json), ∀ m ∈ ms, RoundTrips m.2
  | [] => List.forall_mem_nil _
  | (_, v) :: ms => List.forall_mem_cons.2 ⟨roundTrips v, roundTrips_members ms⟩

end

/-- `json.loads(json.dumps(v))`. -/
theorem decode_encode (v : Json) : decode (encode v) = some v := by
  have hskip := skip_encode v []
  have hvalue := roundTrips v ((encode v).length + 1) [] (Nat.le_succ _) delimits_nil
  rw [List.append_nil] at hskip hvalue
  rw [decode, hskip, hvalue]
  rfl

/-- Only a number is scanned where a sign or a digit stands. -/
lemma value_isInt {n : ℕ} {c : Char} {s r : List Char} {v : Json}
    (h : value n (c :: s) = some (v, r)) (hv : v.isInt = true) : c = '-' ∨ c.isDigit = true := by
  cases n with
  | zero => simp [value] at h
  | succ n =>
    unfold value at h
    split at h
    case h_7 =>
      obtain ⟨m, hm, -⟩ := Option.map_eq_some_iff.1 h
      obtain ⟨d, s', hs, hd⟩ := scanInt_head hm
      obtain ⟨rfl, -⟩ := List.cons.inj hs
      exact hd
    case h_2 | h_3 =>
      split at h
      · rw [← (Prod.mk.inj (Option.some.inj h)).1] at hv
        cases hv
      · obtain ⟨m, -, hm⟩ := Option.map_eq_some_iff.1 h
        rw [← (Prod.mk.inj hm).1] at hv
        cases hv
    case h_1 =>
      obtain ⟨m, -, hm⟩ := Option.map_eq_some_iff.1 h
      rw [← (Prod.mk.inj hm).1] at hv
      cases hv
    all_goals
      rw [← (Prod.mk.inj (Option.some.inj h)).1] at hv
      cases hv

lemma encode_head_of_not_int {v : Json} (hv : v.isInt = false) :
    ∃ c x, encode v = c :: x ∧ isBlank c = false ∧ ¬(c = '-' ∨ c.isDigit = true) := by
  cases v with
  | int n => cases hv
  | null => exact ⟨_, _, rfl, by decide⟩
  | bool b => cases b <;> exact ⟨_, _, rfl, by decide⟩
  | str text => exact ⟨_, _, rfl, by decide⟩
  | arr items => cases items <;> exact ⟨_, _, by rw [encode], by decide⟩
  | obj members =>
    rcases members with _ | ⟨⟨key, v⟩, members⟩ <;> exact ⟨_, _, by rw [encode], by decide⟩

/-- **A text that broke off is not accepted**, unless it is that of a number. -/
theorem decode_of_prefix {v : Json} (hv : v.isInt = false) {s : List Char} (hs : s <+: encode v)
    (hne : s ≠ encode v) : decode s = none := by
  obtain ⟨t, ht⟩ := hs
  obtain ⟨c, x, hx, hblank, hnumber⟩ := encode_head_of_not_int hv
  cases s with
  | nil => rfl
  | cons d s =>
    obtain rfl : d = c := (List.cons.inj (ht.trans hx)).1
    rw [decode, skip_cons_of_not_blank hblank]
    cases hscan : value ((d :: s).length + 1) (d :: s) with
    | none => rfl
    | some m =>
      -- the same scan in the complete text would leave the rest of it
      exfalso
      obtain ⟨u, r⟩ := m
      have hlong := (extends_all _).1 ((encode v).length + (d :: s).length + 1) _ _ _ hscan
        (by omega) (fun hu => absurd (value_isInt hscan hu) hnumber) t
      have hwhole := roundTrips v ((encode v).length + (d :: s).length + 1) [] (by omega)
        delimits_nil
      rw [ht] at hlong
      rw [List.append_nil, hlong] at hwhole
      have hnil : r ++ t = [] := (Prod.mk.inj (Option.some.inj hwhole)).2
      refine hne (ht ▸ ?_)
      rw [(List.append_eq_nil_iff.1 hnil).2, List.append_nil]

/-! ### The text of a value is ASCII -/

/-- The character is encoded as one byte. -/
abbrev IsAscii (c : Char) : Prop := c.toNat < 128

lemma isAscii_hex4 (n : ℕ) : ∀ c ∈ hex4 n, IsAscii c := by
  have hdigit : ∀ d < 16, IsAscii (hexDigit d) := by decide
  simp only [hex4, List.forall_mem_cons, List.not_mem_nil, false_implies, implies_true, and_true]
  exact ⟨hdigit _ (by omega), hdigit _ (by omega), hdigit _ (by omega), hdigit _ (by omega)⟩

lemma isAscii_short {c d : Char} (h : short c = some d) : IsAscii d := by
  unfold short at h
  split_ifs at h <;>
  · obtain rfl := Option.some.inj h
    decide

lemma isAscii_escape (c : Char) : ∀ d ∈ escape c, IsAscii d := by
  have hback : IsAscii '\\' ∧ IsAscii 'u' := by decide
  unfold escape
  cases hd : short c with
  | some d => simp [isAscii_short hd]
  | none =>
    dsimp only
    split_ifs with hplain hbmp
    · simp only [List.forall_mem_singleton]
      exact Nat.lt_of_le_of_lt hplain.2 (by decide)
    · exact List.forall_mem_cons.2 ⟨hback.1, List.forall_mem_cons.2 ⟨hback.2, isAscii_hex4 _⟩⟩
    · simp only [List.cons_append, List.forall_mem_cons, List.forall_mem_append]
      exact ⟨hback.1, hback.2, isAscii_hex4 _, hback.1, hback.2, isAscii_hex4 _⟩

lemma isAscii_quoted (x : List Char) : ∀ c ∈ quoted x, IsAscii c := by
  simp only [quoted, List.cons_append, List.forall_mem_cons, List.forall_mem_append,
    List.mem_flatMap, List.not_mem_nil, false_implies, implies_true, and_true]
  refine ⟨by decide, ?_, by decide⟩
  rintro c ⟨d, -, hc⟩
  exact isAscii_escape d c hc

lemma isAscii_of_isDigit {c : Char} (h : c.isDigit = true) : IsAscii c := by
  simp only [Char.isDigit, Bool.and_eq_true, decide_eq_true_eq] at h
  exact Nat.lt_of_le_of_lt (UInt32.le_iff_toNat_le.1 h.2) (by decide)

lemma isAscii_intText (n : ℤ) : ∀ c ∈ intText n, IsAscii c := by
  have hdigits : ∀ k, ∀ c ∈ Nat.toDigits 10 k, IsAscii c := fun k c hc =>
    isAscii_of_isDigit (Nat.isDigit_of_mem_toDigits (by decide) le_rfl hc)
  cases n with
  | ofNat n => exact hdigits n
  | negSucc n => exact List.forall_mem_cons.2 ⟨by decide, hdigits (n + 1)⟩

mutual

/-- **The text of a value is plain ASCII.** -/
theorem isAscii_encode : ∀ v : Json, ∀ c ∈ encode v, IsAscii c
  | null => forall_mem_of_all (by decide)
  | bool true => forall_mem_of_all (by decide)
  | bool false => forall_mem_of_all (by decide)
  | int n => isAscii_intText n
  | str text => isAscii_quoted text.toList
  | arr [] => by rw [encode]; exact forall_mem_of_all (by decide)
  | arr (v :: vs) => by
    rw [encode, List.forall_mem_cons, List.forall_mem_append]
    exact ⟨by decide, isAscii_encode v, isAscii_encodeItems vs⟩
  | obj [] => by rw [encode]; exact forall_mem_of_all (by decide)
  | obj ((key, v) :: ms) => by
    simp only [encode, List.forall_mem_cons, List.forall_mem_append]
    exact ⟨by decide, isAscii_quoted _, by decide, by decide, isAscii_encode v,
      isAscii_encodeMembers ms⟩

theorem isAscii_encodeItems : ∀ vs : List Json, ∀ c ∈ encodeItems vs, IsAscii c
  | [] => by rw [encodeItems]; exact forall_mem_of_all (by decide)
  | v :: vs => by
    simp only [encodeItems, List.forall_mem_cons, List.forall_mem_append]
    exact ⟨by decide, by decide, isAscii_encode v, isAscii_encodeItems vs⟩

theorem isAscii_encodeMembers : ∀ ms : List (String × Json), ∀ c ∈ encodeMembers ms, IsAscii c
  | [] => by rw [encodeMembers]; exact forall_mem_of_all (by decide)
  | (key, v) :: ms => by
    simp only [encodeMembers, List.forall_mem_cons, List.forall_mem_append]
    exact ⟨by decide, by decide, isAscii_quoted _, by decide, by decide, isAscii_encode v,
      isAscii_encodeMembers ms⟩

end

end Json

end Gcos.Lib
