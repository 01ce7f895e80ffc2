import Mathlib.Data.Rat.Floor
import Mathlib.Data.List.Infix
import Mathlib.Tactic.Common

/-!
# Text

The string operations of Python that the development needs, on lists of code points:
stripping, splitting into lines, substring search and replacement, and the fixed-point
formatting of numbers.  Everything here is structurally recursive, so that it computes.
-/

namespace Gcos.Lib.Text

/-- `str.isspace` on one character. -/
def isSpace (c : Char) : Bool :=
  let n := c.toNat
  (9 ≤ n && n ≤ 13) || (28 ≤ n && n ≤ 32) || n == 0x85 || n == 0xa0 || n == 0x1680 ||
    (0x2000 ≤ n && n ≤ 0x200a) || n == 0x2028 || n == 0x2029 || n == 0x202f || n == 0x205f ||
    n == 0x3000

/-- The line boundaries of `str.splitlines`. -/
def isLineBreak (c : Char) : Bool :=
  let n := c.toNat
  (10 ≤ n && n ≤ 13) || (28 ≤ n && n ≤ 30) || n == 0x85 || n == 0x2028 || n == 0x2029

/-- `str.rstrip`. -/
def rstrip (s : List Char) : List Char := (s.reverse.dropWhile isSpace).reverse

/-- `str.strip`. -/
def strip (s : List Char) : List Char := rstrip (s.dropWhile isSpace)

/-- The lines of `s` after the beginning `cur` of the first one.  `cr` says that the
character before `s` was a carriage return, which swallows a line feed. -/
def splitlinesFrom (cur : List Char) (cr : Bool) : List Char → List (List Char)
  | [] => if cur.isEmpty then [] else [cur]
  | c :: s =>
    if cr && c == '\n' then splitlinesFrom cur false s
    else if isLineBreak c then cur :: splitlinesFrom [] (c == '\r') s
    else splitlinesFrom (cur ++ [c]) false s

/-- `str.splitlines`. -/
def splitlines (s : List Char) : List (List Char) := splitlinesFrom [] false s

/-- `pat in s`. -/
def contains (pat s : List Char) : Bool := decide (pat <:+: s)

/-- `s.replace(pat, new)` for a non-empty `pat`, skipping the next `skip` characters,
which belong to an occurrence that was replaced. -/
def replaceFrom (pat new : List Char) : ℕ → List Char → List Char
  | _, [] => []
  | skip + 1, _ :: s => replaceFrom pat new skip s
  | 0, c :: s =>
    if pat <+: c :: s then new ++ replaceFrom pat new (pat.length - 1) s
    else c :: replaceFrom pat new 0 s

/-- `str.replace`. -/
def replace (pat new s : String) : String :=
  String.ofList (replaceFrom pat.toList new.toList 0 s.toList)

/-- `s.partition(" ")`, without the separator. -/
def partitionSpace (s : List Char) : List Char × List Char :=
  (s.takeWhile (· ≠ ' '), (s.dropWhile (· ≠ ' ')).drop 1)

/-- Rounding to an integer, ties to even. -/
def roundHalfEven (x : ℚ) : ℤ :=
  let r := x - ⌊x⌋
  if r < 1 / 2 then ⌊x⌋
  else if 1 / 2 < r then ⌊x⌋ + 1
  else if ⌊x⌋ % 2 = 0 then ⌊x⌋ else ⌊x⌋ + 1

/-- `f"{x:.{digits}f}"`. -/
def fixed (digits : ℕ) (x : ℚ) : String :=
  let n := roundHalfEven (x * 10 ^ digits)
  let whole := n.natAbs / 10 ^ digits
  let frac := toString (n.natAbs % 10 ^ digits)
  (if x < 0 then "-" else "") ++ toString whole ++ "." ++
    String.ofList (List.replicate (digits - frac.length) '0') ++ frac

end Gcos.Lib.Text
