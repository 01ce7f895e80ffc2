import Mathlib.Data.List.Basic
import Mathlib.Data.String.Basic
import Mathlib.Tactic.Common

/-!
# Texts and bytes

UTF-8, with the decoder that puts a replacement character for what is no UTF-8, and base64.
Both come back as they were (`decodeReplace_utf8`, `decode_encode`), and a decoded text has at
most as many characters as there were bytes.
-/

namespace Gcos.Lib

/-- `str.encode("utf-8")`. -/
def utf8 (s : List Char) : List UInt8 := s.flatMap String.utf8EncodeChar

namespace Utf8

/-- The character that the bytes begin with, if they begin with one. -/
def nextChar (bs : List UInt8) : Option Char := bs.toByteArray.utf8DecodeChar? 0

/-- The least and the greatest second byte after a first one, and how many bytes there are. -/
def afterFirst (b : UInt8) : UInt8 × UInt8 × ℕ :=
  if b < 0xc2 then (1, 0, 1)
  else if b ≤ 0xdf then (0x80, 0xbf, 2)
  else if b = 0xe0 then (0xa0, 0xbf, 3)
  else if b = 0xed then (0x80, 0x9f, 3)
  else if b ≤ 0xef then (0x80, 0xbf, 3)
  else if b = 0xf0 then (0x90, 0xbf, 4)
  else if b ≤ 0xf3 then (0x80, 0xbf, 4)
  else if b = 0xf4 then (0x80, 0x8f, 4)
  else (1, 0, 1)

/-- The bytes that are replaced by one character: as many as could begin a character, and at
least one. -/
def illFormed : List UInt8 → ℕ
  | b :: c :: d :: _ =>
    let (least, greatest, n) := afterFirst b
    if ¬(least ≤ c ∧ c ≤ greatest) ∨ n = 2 then 1
    else if n = 4 ∧ 0x80 ≤ d ∧ d ≤ 0xbf then 3
    else 2
  | [b, c] =>
    let (least, greatest, _) := afterFirst b
    if least ≤ c ∧ c ≤ greatest then 2 else 1
  | _ => 1

/-- The characters of bytes of which the first `skip` were read. -/
def decodeFrom : ℕ → List UInt8 → List Char
  | _, [] => []
  | skip + 1, _ :: bs => decodeFrom skip bs
  | 0, b :: bs =>
    match nextChar (b :: bs) with
    | some c => c :: decodeFrom (c.utf8Size - 1) bs
    | none => '\ufffd' :: decodeFrom (illFormed (b :: bs) - 1) bs

/-- `bytes.decode("utf-8", "replace")`. -/
def decodeReplace (bs : List UInt8) : List Char := decodeFrom 0 bs

lemma length_decodeFrom_le (skip : ℕ) (bs : List UInt8) :
    (decodeFrom skip bs).length ≤ bs.length := by
  induction bs generalizing skip with
  | nil => cases skip <;> exact le_rfl
  | cons b bs ih =>
    cases skip with
    | succ skip => exact (ih skip).trans (Nat.le_succ _)
    | zero =>
      rw [decodeFrom]
      split <;> exact Nat.succ_le_succ (ih _)

/-- There are at most as many characters as bytes. -/
lemma length_decodeReplace_le (bs : List UInt8) : (decodeReplace bs).length ≤ bs.length :=
  length_decodeFrom_le 0 bs

lemma decodeFrom_append (x bs : List UInt8) : decodeFrom x.length (x ++ bs) = decodeFrom 0 bs := by
  induction x with
  | nil => rfl
  | cons b x ih => exact ih

lemma nextChar_append (c : Char) (bs : List UInt8) :
    nextChar (String.utf8EncodeChar c ++ bs) = some c := by
  rw [nextChar, List.toByteArray_append]
  exact ByteArray.utf8DecodeChar?_utf8EncodeChar_append

/-- **A text comes back from its bytes.** -/
theorem decodeReplace_utf8 (s : List Char) : decodeReplace (utf8 s) = s := by
  induction s with
  | nil => rfl
  | cons c s ih =>
    have hnext := nextChar_append c (utf8 s)
    have hlength := String.length_utf8EncodeChar c
    rw [decodeReplace, utf8, List.flatMap_cons, ← utf8]
    cases hbytes : String.utf8EncodeChar c with
    | nil => exact absurd hbytes String.utf8EncodeChar_ne_nil
    | cons b x =>
      rw [hbytes, List.cons_append] at hnext
      rw [hbytes, List.length_cons] at hlength
      rw [List.cons_append, decodeFrom, hnext]
      have hskip : c.utf8Size - 1 = x.length := by omega
      dsimp only
      rw [hskip, decodeFrom_append]
      exact congrArg (c :: ·) ih

end Utf8

/-! ### Base64 -/

namespace Base64

/-- The character of a group of six bits. -/
def digit (n : ℕ) : Char :=
  if n < 26 then Char.ofNat (n + 65)
  else if n < 52 then Char.ofNat (n + 71)
  else if n < 62 then Char.ofNat (n - 4)
  else if n = 62 then '+' else '/'

/-- The six bits of a character. -/
def value (c : Char) : Option ℕ :=
  let n := c.toNat
  if 65 ≤ n ∧ n ≤ 90 then some (n - 65)
  else if 97 ≤ n ∧ n ≤ 122 then some (n - 71)
  else if 48 ≤ n ∧ n ≤ 57 then some (n + 4)
  else if c = '+' then some 62 else if c = '/' then some 63 else none

/-- `base64.b64encode`. -/
def encode : List UInt8 → List Char
  | [] => []
  | [a] => [digit (a.toNat / 4), digit (a.toNat % 4 * 16), '=', '=']
  | [a, b] =>
    [digit (a.toNat / 4), digit (a.toNat % 4 * 16 + b.toNat / 16), digit (b.toNat % 16 * 4), '=']
  | a :: b :: c :: bs =>
    digit (a.toNat / 4) :: digit (a.toNat % 4 * 16 + b.toNat / 16) ::
      digit (b.toNat % 16 * 4 + c.toNat / 64) :: digit (c.toNat % 64) :: encode bs

/-- `base64.b64decode`, of a text of the alphabet with its padding. -/
def decode : List Char → Option (List UInt8)
  | [] => some []
  | [p, q, '=', '='] =>
    match value p, value q with
    | some p, some q => some [UInt8.ofNat (p * 4 + q / 16)]
    | _, _ => none
  | [p, q, r, '='] =>
    match value p, value q, value r with
    | some p, some q, some r =>
      some [UInt8.ofNat (p * 4 + q / 16), UInt8.ofNat (q % 16 * 16 + r / 4)]
    | _, _, _ => none
  | p :: q :: r :: s :: rest =>
    match value p, value q, value r, value s, decode rest with
    | some p, some q, some r, some s, some bs =>
      some (UInt8.ofNat (p * 4 + q / 16) :: UInt8.ofNat (q % 16 * 16 + r / 4) ::
        UInt8.ofNat (r % 4 * 64 + s) :: bs)
    | _, _, _, _, _ => none
  | _ => none

/-- The characters of the alphabet, and of the padding. -/
def isDigit (c : Char) : Bool := (value c).isSome || c == '='

lemma value_digit {n : ℕ} (hn : n < 64) : value (digit n) = some n := by
  have hall : ∀ n < 64, value (digit n) = some n := by decide
  exact hall n hn

lemma digit_ne_pad {n : ℕ} (hn : n < 64) : digit n ≠ '=' := by
  intro h
  have hvalue := value_digit hn
  rw [h] at hvalue
  cases hvalue

lemma ofNat_eq (a : UInt8) {n : ℕ} (h : n = a.toNat) : UInt8.ofNat n = a := by
  rw [h, UInt8.ofNat_toNat]

/-- **Bytes come back from their text.** -/
theorem decode_encode (bs : List UInt8) : decode (encode bs) = some bs := by
  induction bs using encode.induct with
  | case1 => rfl
  | case2 a =>
    have ha := a.toNat_lt
    rw [encode, decode, value_digit (by omega), value_digit (by omega)]
    simp only [Option.some.injEq, List.cons.injEq, and_true]
    exact ofNat_eq a (by omega)
  | case3 a b =>
    have ha := a.toNat_lt
    have hb := b.toNat_lt
    rw [encode, decode, value_digit (by omega), value_digit (by omega), value_digit (by omega)]
    · simp only [Option.some.injEq, List.cons.injEq, and_true]
      exact ⟨ofNat_eq a (by omega), ofNat_eq b (by omega)⟩
    · exact fun h => absurd h (digit_ne_pad (by omega))
  | case4 a b c bs ih =>
    have ha := a.toNat_lt
    have hb := b.toNat_lt
    have hc := c.toNat_lt
    rw [encode, decode, value_digit (by omega), value_digit (by omega), value_digit (by omega),
      value_digit (by omega), ih]
    · simp only [Option.some.injEq, List.cons.injEq, and_true]
      exact ⟨ofNat_eq a (by omega), ofNat_eq b (by omega), ofNat_eq c (by omega)⟩
    all_goals exact fun h => absurd h (digit_ne_pad (by omega))

/-- **The text has no characters outside the alphabet.** -/
theorem isDigit_of_mem_encode {bs : List UInt8} {c : Char} (h : c ∈ encode bs) :
    isDigit c = true := by
  have hdigit : ∀ {n}, n < 64 → isDigit (digit n) = true := fun hn => by
    rw [isDigit, value_digit hn]
    rfl
  induction bs using encode.induct with
  | case1 => cases h
  | case2 a =>
    have ha := a.toNat_lt
    simp only [encode, List.mem_cons, List.not_mem_nil, or_false] at h
    rcases h with rfl | rfl | rfl | rfl
    · exact hdigit (by omega)
    · exact hdigit (by omega)
    · decide
    · decide
  | case3 a b =>
    have ha := a.toNat_lt
    have hb := b.toNat_lt
    simp only [encode, List.mem_cons, List.not_mem_nil, or_false] at h
    rcases h with rfl | rfl | rfl | rfl
    · exact hdigit (by omega)
    · exact hdigit (by omega)
    · exact hdigit (by omega)
    · decide
  | case4 a b c' bs ih =>
    have ha := a.toNat_lt
    have hb := b.toNat_lt
    have hc := c'.toNat_lt
    simp only [encode, List.mem_cons] at h
    rcases h with rfl | rfl | rfl | rfl | h
    · exact hdigit (by omega)
    · exact hdigit (by omega)
    · exact hdigit (by omega)
    · exact hdigit (by omega)
    · exact ih h

end Base64

end Gcos.Lib
