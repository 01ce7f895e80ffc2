import Gcos.Kernel.Calls
import Gcos.Lib.Words
import Mathlib.Data.List.TakeWhile

/-!
# The shell

`Shell` in `gcos/shell/repl.py`: a line is split into words, the first word is the command, and
the command reads its arguments before it asks the kernel for anything.  What the kernel does
with a request, and what `rich` makes of a text with markup in it, are parameters: both may
raise.  A message that is printed because of an exception may raise once more, and then nobody
catches it.
-/

namespace Gcos.Repl

open Lib

/-- An exception: its type and its text. -/
structure Raised where
  kind : String
  text : String
deriving DecidableEq, Repr

/-- What is not the shell's own: the digits beyond ASCII, `repr` on a text, and the exception
that `console.print` raises. -/
structure Terminal where
  decimal : Char → Option (Fin 10)
  repr : List Char → String
  print : String → Option Raised

/-! ### Numbers -/

/-- What `int` takes for white space. -/
def isIntSpace (c : Char) : Bool :=
  if c.toNat < 127 then (9 ≤ c.toNat && c.toNat ≤ 13) || c == ' ' else Text.isSpace c

/-- The value of a digit. -/
def digitValue (t : Terminal) (c : Char) : Option ℕ :=
  if c.isDigit then some (c.toNat - '0'.toNat)
  else if c.toNat < 127 then none
  else (t.decimal c).map Fin.val

/-- Digits, with single underscores between them, and what follows. -/
def scanDigits (t : Terminal) : List Char → Option (List ℕ × List Char)
  | [] => none
  | c :: s =>
    match digitValue t c with
    | none => none
    | some v =>
      match s with
      | [] => some ([v], [])
      | '_' :: s => (scanDigits t s).map fun r => (v :: r.1, r.2)
      | d :: s =>
        if (digitValue t d).isSome then (scanDigits t (d :: s)).map fun r => (v :: r.1, r.2)
        else some ([v], d :: s)

/-- `sys.get_int_max_str_digits()`. -/
def intMaxStrDigits : ℕ := 4300

/-- The number with these digits. -/
def ofDigits (ds : List ℕ) : ℕ := ds.foldl (fun n d => 10 * n + d) 0

/-- A sign, and what follows. -/
def scanSign : List Char → Bool × List Char
  | '-' :: s => (true, s)
  | '+' :: s => (false, s)
  | s => (false, s)

/-- The exception that `int` raises on a text that is no number. -/
def invalidLiteral (t : Terminal) (s : List Char) : Raised where
  kind := "ValueError"
  text := "invalid literal for int() with base 10: " ++ String.ofList ((t.repr s).toList.take 200)

/-- The exception that `int` raises on a number that is too long. -/
def tooLong (digits : ℕ) : Raised where
  kind := "ValueError"
  text := "Exceeds the limit (4300 digits) for integer string conversion: value has " ++
    toString digits ++ " digits; use sys.set_int_max_str_digits() to increase the limit"

/-- `int(s)`. -/
def int (t : Terminal) (s : List Char) : Except Raised ℤ :=
  let signed := scanSign (s.dropWhile isIntSpace)
  match scanDigits t signed.2 with
  | none => .error (invalidLiteral t s)
  | some (ds, rest) =>
    if intMaxStrDigits < ds.length then .error (tooLong ds.length)
    else if rest.all isIntSpace then .ok (if signed.1 then -(ofDigits ds : ℤ) else ofDigits ds)
    else .error (invalidLiteral t s)

/-! ### Commands -/

/-- What a command asks the kernel for. -/
inductive Request
  | help
  | spawn (name : String) (prio : ℤ) (prompt : String)
  | coder (name prompt : String)
  | ps
  | top
  | kill (pid : Pid)
  | cat (pid : Pid)
  | mem (pid : Pid)
  | tree (rootPid : Option Pid)
  | bus
  | quota
  | batcher
  | dmesg (limit : ℤ)
deriving DecidableEq, Repr

/-- What a command comes to before it asks the kernel for anything. -/
inductive Reading
  | leave
  | usage (text : String)
  | raised (e : Raised)
  | request (r : Request)
deriving DecidableEq, Repr

/-- A command that goes on with `int(s)`. -/
def withInt (t : Terminal) (s : List Char) (k : ℤ → Request) : Reading :=
  match int t s with
  | .ok n => .request (k n)
  | .error e => .raised e

/-- `" ".join(words)`. -/
def joinWords (words : List (List Char)) : String := String.ofList ([' '].intercalate words)

/-- A command with the pid of an agent for its argument. -/
def withPid (t : Terminal) (name : String) (k : Pid → Request) : List (List Char) → Reading
  | [] => .usage ("[red]usage:[/] " ++ name ++ " <pid>")
  | pid :: _ => withInt t pid k

/-- `cmd_spawn`, up to the call of the kernel. -/
def cmdSpawn (t : Terminal) : List (List Char) → Reading
  | name :: prio :: word :: words =>
    withInt t prio fun n => .spawn (String.ofList name) n (joinWords (word :: words))
  | _ => .usage "[red]usage:[/] spawn <name> <prio> <prompt...>"

/-- `cmd_coder`, up to the call of the kernel. -/
def cmdCoder : List (List Char) → Reading
  | name :: word :: words => .request (.coder (String.ofList name) (joinWords (word :: words)))
  | _ => .usage "[red]usage:[/] coder <name> <prompt...>"

/-- `cmd_tree`, up to the call of the kernel. -/
def cmdTree (t : Terminal) : List (List Char) → Reading
  | [] => .request (.tree none)
  | pid :: _ => withInt t pid fun n => .tree (some n)

/-- `cmd_dmesg`, up to the call of the kernel. -/
def cmdDmesg (t : Terminal) : List (List Char) → Reading
  | [] => .request (.dmesg 25)
  | limit :: _ => withInt t limit .dmesg

/-- The method `cmd_…` of `Shell`, if there is one, on its arguments. -/
def handler (t : Terminal) (cmd : String) (args : List (List Char)) : Option Reading :=
  match cmd with
  | "help" => some (.request .help)
  | "exit" => some .leave
  | "quit" => some .leave
  | "spawn" => some (cmdSpawn t args)
  | "coder" => some (cmdCoder args)
  | "ps" => some (.request .ps)
  | "top" => some (.request .top)
  | "kill" => some (withPid t "kill" .kill args)
  | "cat" => some (withPid t "cat" .cat args)
  | "mem" => some (withPid t "mem" .mem args)
  | "tree" => some (cmdTree t args)
  | "bus" => some (.request .bus)
  | "quota" => some (.request .quota)
  | "batcher" => some (.request .batcher)
  | "dmesg" => some (cmdDmesg t args)
  | _ => none

/-- The call of the kernel that a request makes.  The other requests only look. -/
def Request.call (fuel : ℕ) : Request → Option KernelCall
  | .spawn name prio prompt => some (.spawn { prompt, name, priority := prio })
  | .coder name prompt =>
    some (.spawn { prompt, name, priority := 5, capability := some .coder })
  | .kill pid => some (.kill fuel pid)
  | _ => none

/-! ### A session -/

/-- What the handling of a request comes to. -/
inductive Outcome
  | done
  | raised (e : Raised)
  | interrupted
deriving DecidableEq, Repr

/-- What a line comes to. -/
inductive Verdict
  | goOn
  | leave
  | interrupted
  | crashed (e : Raised)
deriving DecidableEq, Repr

/-- `console.print`, where nobody catches an exception. -/
def say (t : Terminal) (text : String) : Verdict :=
  match t.print text with
  | none => .goOn
  | some e => .crashed e

/-- The message of `except Exception`. -/
def Raised.message (e : Raised) : String := "[red]" ++ e.kind ++ ":[/] " ++ e.text

/-- `except Exception`. -/
def complain (t : Terminal) (e : Raised) : Verdict := say t e.message

/-- The message that stands for a line that is not split. -/
def parseError (e : Words.Complaint) : String := "[red]parse error:[/] " ++ e.text

/-- The message that stands for an unknown command. -/
def unknownCommand (t : Terminal) (cmd : List Char) : String :=
  "[red]unknown command:[/] " ++ t.repr cmd ++ "  (try [bold]help[/])"

/-- What `console.input` comes to: a line, the end of the input, Ctrl-C, or another exception. -/
inductive Input
  | line (raw : String)
  | eof
  | interrupt
  | broken (e : Raised)
deriving DecidableEq, Repr

/-- How a session ended, if it did. -/
inductive Ending
  | waiting
  | left
  | interrupted
  | crashed (e : Raised)
deriving DecidableEq, Repr

section Session

variable {σ : Type} (t : Terminal) (perform : Request → σ → Outcome × σ)

/-- `_dispatch`: what the line comes to, the requests that were made, and the kernel. -/
def dispatch (line : String) (k : σ) : Verdict × List Request × σ :=
  match Words.split line.toList with
  | .error e => (say t (parseError e), [], k)
  | .ok [] => (.goOn, [], k)
  | .ok (cmd :: args) =>
    match handler t (String.ofList cmd) args with
    | none => (say t (unknownCommand t cmd), [], k)
    | some .leave => (.leave, [], k)
    | some (.usage text) =>
      match t.print text with
      | none => (.goOn, [], k)
      | some e => (complain t e, [], k)
    | some (.raised e) => (complain t e, [], k)
    | some (.request r) =>
      match perform r k with
      | (.done, k') => (.goOn, [r], k')
      | (.raised e, k') => (complain t e, [r], k')
      | (.interrupted, k') => (.interrupted, [r], k')

/-- `console.print()` and `break`, at the end of the input or at Ctrl-C. -/
def breaks : Ending :=
  match t.print "" with
  | none => .left
  | some e => .crashed e

/-- The loop of `run`, on the inputs so far. -/
def loop : List Input → σ → Ending × List Request × σ
  | [], k => (.waiting, [], k)
  | .eof :: _, k => (breaks t, [], k)
  | .interrupt :: _, k => (breaks t, [], k)
  | .broken e :: _, k => (.crashed e, [], k)
  | .line raw :: inputs, k =>
    if (Text.strip raw.toList).isEmpty then loop inputs k
    else
      match dispatch t perform raw k with
      | (.goOn, asked, k') =>
        ((loop inputs k').1, asked ++ (loop inputs k').2.1, (loop inputs k').2.2)
      | (.leave, asked, k') => (.left, asked, k')
      | (.interrupted, asked, k') => (.interrupted, asked, k')
      | (.crashed e, asked, k') => (.crashed e, asked, k')

/-- The two lines that a session begins with. -/
def banner (scheduler : String) (workers quota : ℤ) : List String :=
  ["[bold yellow]GCOS[/] interactive shell — " ++
      ("sched=[cyan]" ++ scheduler ++ "[/] ") ++
      ("workers=[cyan]" ++ toString workers ++ "[/] ") ++
      ("quota=[cyan]" ++ toString quota ++ "[/]"),
    "type [bold]help[/] for commands, [bold]exit[/] to quit.\n"]

/-- What `run` needs of the kernel apart from the requests.  Its methods may raise. -/
structure Lifecycle (σ : Type) where
  start : σ → Outcome × σ
  shutdown : σ → Outcome × σ
  scheduler : σ → String
  workers : σ → ℤ
  quota : σ → ℤ

variable (life : Lifecycle σ)

/-- What comes before the `try` of `run`: how it ends there, if it does. -/
def opening (k : σ) : Option Ending :=
  match life.start k with
  | (.raised e, _) => some (.crashed e)
  | (.interrupted, _) => some .interrupted
  | (.done, k') =>
    ((banner (life.scheduler k') (life.workers k') (life.quota k')).findSome? t.print).map
      .crashed

/-- How `run` ends after its `finally`, where `ending` was the end of the loop. -/
def closing (k : σ) (ending : Ending) : Ending :=
  match (life.shutdown k).1 with
  | .raised e => .crashed e
  | .interrupted => .interrupted
  | .done =>
    match t.print "[dim]kernel shut down.[/]" with
    | none => ending
    | some e => .crashed e

/-- `run`, on the inputs so far. -/
def run (inputs : List Input) (k : σ) : Ending × List Request × σ :=
  match opening t life k with
  | some ending => (ending, [], (life.start k).2)
  | none =>
    match loop t perform inputs (life.start k).2 with
    | (.waiting, asked, k') => (.waiting, asked, k')
    | (ending, asked, k') => (closing t life k' ending, asked, (life.shutdown k').2)

end Session

/-! ### Reading numbers -/

section Numbers

variable {t : Terminal} {c : Char} {s rest : List Char} {ds : List ℕ}

lemma toNat_of_isDigit (h : c.isDigit = true) : 48 ≤ c.toNat ∧ c.toNat ≤ 57 := by
  rw [Char.isDigit, Bool.and_eq_true] at h
  exact ⟨UInt32.le_iff_toNat_le.1 (of_decide_eq_true h.1),
    UInt32.le_iff_toNat_le.1 (of_decide_eq_true h.2)⟩

lemma digitValue_of_isDigit (h : c.isDigit = true) :
    digitValue t c = some (c.toNat - '0'.toNat) := if_pos h

lemma digitValue_lt {v : ℕ} (h : digitValue t c = some v) : v < 10 := by
  rw [digitValue] at h
  split_ifs at h with hdigit
  · obtain rfl := Option.some.inj h
    have hle := (toNat_of_isDigit hdigit).2
    have hzero : '0'.toNat = 48 := rfl
    omega
  · obtain ⟨d, -, rfl⟩ := Option.map_eq_some_iff.1 h
    exact d.isLt

/-- Digits of ASCII are read to the end. -/
lemma scanDigits_of_isDigit (hs : ∀ c ∈ s, c.isDigit = true) (hne : s ≠ []) :
    scanDigits t s = some (s.map fun c => c.toNat - '0'.toNat, []) := by
  induction s with
  | nil => exact absurd rfl hne
  | cons c s ih =>
    obtain ⟨hc, hs⟩ := List.forall_mem_cons.1 hs
    rw [scanDigits, digitValue_of_isDigit hc]
    cases s with
    | nil => rfl
    | cons d s =>
      have hd : d.isDigit = true := hs d List.mem_cons_self
      have hunderscore : d ≠ '_' := by
        rintro rfl
        cases hd
      simp only [ih hs (List.cons_ne_nil d s), digitValue_of_isDigit hd, Option.isSome_some,
        if_true, Option.map_some, List.map_cons]

lemma lt_of_mem_scanDigits (h : scanDigits t s = some (ds, rest)) : ∀ d ∈ ds, d < 10 := by
  fun_induction scanDigits t s generalizing ds with
  | case1 => cases h
  | case2 c s hnone => cases h
  | case3 c v hv =>
    cases h
    exact List.forall_mem_singleton.2 (digitValue_lt hv)
  | case4 c v hv s ih =>
    obtain ⟨⟨es, q⟩, hes, heq⟩ := Option.map_eq_some_iff.1 h
    cases heq
    exact List.forall_mem_cons.2 ⟨digitValue_lt hv, ih hes⟩
  | case5 c v hv d s hne hd ih =>
    obtain ⟨⟨es, q⟩, hes, heq⟩ := Option.map_eq_some_iff.1 h
    cases heq
    exact List.forall_mem_cons.2 ⟨digitValue_lt hv, ih hes⟩
  | case6 c v hv d s hne hd =>
    cases h
    exact List.forall_mem_singleton.2 (digitValue_lt hv)

lemma ofDigits_lt (h : ∀ d ∈ ds, d < 10) : ofDigits ds < 10 ^ ds.length := by
  induction ds using List.reverseRecOn with
  | nil => exact Nat.one_pos
  | append_singleton ds d ih =>
    have hd : d < 10 := h d (by simp)
    have hds := ih fun e he => h e (List.mem_append_left _ he)
    rw [ofDigits, List.foldl_append, List.length_append, pow_add, List.length_singleton, pow_one]
    change 10 * ofDigits ds + d < 10 ^ ds.length * 10
    omega

/-- A number that is read is not too long. -/
lemma natAbs_lt_of_int {n : ℤ} (h : int t s = .ok n) : n.natAbs < 10 ^ intMaxStrDigits := by
  simp only [int] at h
  split at h
  · cases h
  · next ds rest hscan =>
    split_ifs at h with hlong hrest hneg
    all_goals
      have hlt := ofDigits_lt (lt_of_mem_scanDigits hscan)
      have hpow := Nat.pow_le_pow_right (n := 10) (by decide) (not_lt.1 hlong)
      cases h
    · rw [Int.natAbs_neg, Int.natAbs_natCast]
      exact hlt.trans_le hpow
    · rw [Int.natAbs_natCast]
      exact hlt.trans_le hpow

/-- `str(n)`. -/
def numeral (n : ℤ) : List Char :=
  if n < 0 then '-' :: Nat.toDigits 10 n.natAbs else Nat.toDigits 10 n.natAbs

lemma ofDigits_toDigits (n : ℕ) :
    ofDigits ((Nat.toDigits 10 n).map fun c => c.toNat - '0'.toNat) = n := by
  have hvalue : Nat.ofDigitChars 10 (Nat.toDigits 10 n) 0 = n := Nat.ofDigitChars_ten_toDigits
  rw [ofDigits, List.foldl_map]
  exact hvalue

/-- **A numeral is read as its number**, if it is not too long. -/
lemma int_numeral {n : ℤ} (h : n.natAbs < 10 ^ intMaxStrDigits) : int t (numeral n) = .ok n := by
  have hdigits : ∀ c ∈ Nat.toDigits 10 n.natAbs, c.isDigit = true := fun c hc =>
    Nat.isDigit_of_mem_toDigits (by decide) le_rfl hc
  have hscan := scanDigits_of_isDigit (t := t) hdigits Nat.toDigits_ne_nil
  have hlen : (Nat.toDigits 10 n.natAbs).length ≤ intMaxStrDigits :=
    (Nat.length_toDigits_le_iff (by decide) (by decide)).2 h
  obtain ⟨c, x, hx⟩ := List.exists_cons_of_ne_nil (Nat.toDigits_ne_nil (b := 10) (n := n.natAbs))
  have hc : c.isDigit = true := hdigits c (hx ▸ List.mem_cons_self)
  have hspace : isIntSpace c = false := by
    obtain ⟨hge, hle⟩ := toNat_of_isDigit hc
    have hblank : (c == ' ') = false := by
      rw [beq_eq_false_iff_ne]
      rintro rfl
      cases hc
    rw [isIntSpace, if_pos (by omega), hblank, Bool.or_false, Bool.and_eq_false_iff]
    exact .inr (decide_eq_false (by omega))
  have hsign : scanSign ((numeral n).dropWhile isIntSpace) =
      (decide (n < 0), Nat.toDigits 10 n.natAbs) := by
    rw [numeral]
    split_ifs with hneg
    · rw [List.dropWhile_cons_of_neg (by decide), decide_eq_true hneg]
      rfl
    · rw [hx, List.dropWhile_cons_of_neg (by rw [hspace]; exact Bool.false_ne_true),
        decide_eq_false hneg]
      have hminus : c ≠ '-' := by
        rintro rfl
        cases hc
      have hplus : c ≠ '+' := by
        rintro rfl
        cases hc
      simp only [scanSign]
      split <;> simp_all
  simp only [int, hsign, hscan, List.length_map, if_neg (not_lt.2 hlen), List.all_nil, if_true,
    ofDigits_toDigits]
  congr 1
  split_ifs with hneg
  · have hneg' : n < 0 := of_decide_eq_true hneg
    omega
  · have hpos : ¬n < 0 := fun hlt => hneg (decide_eq_true hlt)
    omega

end Numbers

/-! ### Which requests can be typed -/

/-- The texts of a request. -/
def Request.texts : Request → List String
  | .spawn name _ prompt => [name, prompt]
  | .coder name prompt => [name, prompt]
  | _ => []

/-- The numbers of a request. -/
def Request.numbers : Request → List ℤ
  | .spawn _ prio _ => [prio]
  | .kill pid => [pid]
  | .cat pid => [pid]
  | .mem pid => [pid]
  | .tree (some pid) => [pid]
  | .dmesg limit => [limit]
  | _ => []

/-- What the command of a line comes to before it asks the kernel for anything. -/
def reading (t : Terminal) (raw : String) : Option Reading :=
  match Words.split raw.toList with
  | .ok (cmd :: args) => handler t (String.ofList cmd) args
  | _ => none

/-- The request that an input makes. -/
def asks (t : Terminal) : Input → Option Request
  | .line raw =>
    if (Text.strip raw.toList).isEmpty then none
    else
      match reading t raw with
      | some (.request r) => some r
      | _ => none
  | _ => none

/-- A text that can be part of one line. -/
def OneLine (s : List Char) : Prop := '\n' ∉ s ∧ '\r' ∉ s

instance decidableOneLine (s : List Char) : Decidable (OneLine s) :=
  inferInstanceAs (Decidable (_ ∧ _))

section Typing

variable {t : Terminal} {args : List (List Char)} {r : Request}

lemma mem_joinWords {c : Char} {words : List (List Char)} (h : c ∈ (joinWords words).toList) :
    c = ' ' ∨ ∃ w ∈ words, c ∈ w := by
  rw [joinWords, String.toList_ofList] at h
  induction words with
  | nil => cases h
  | cons w words ih =>
    cases words with
    | nil =>
      rw [List.intercalate_singleton] at h
      exact .inr ⟨w, List.mem_singleton_self w, h⟩
    | cons w' words =>
      rw [List.intercalate_cons_cons, List.mem_append, List.mem_append] at h
      rcases h with (h | h) | h
      · exact .inr ⟨w, List.mem_cons_self, h⟩
      · exact .inl (List.mem_singleton.1 h)
      · rcases ih h with h | ⟨v, hv, hc⟩
        · exact .inl h
        · exact .inr ⟨v, List.mem_cons_of_mem w hv, hc⟩

/-- The texts of a request are on the line, and its numbers are not too long. -/
structure FromArgs (t : Terminal) (args : List (List Char)) (r : Request) : Prop where
  texts : ∀ x ∈ r.texts, ∀ c ∈ x.toList, c = ' ' ∨ ∃ w ∈ args, c ∈ w
  numbers : ∀ n ∈ r.numbers, n.natAbs < 10 ^ intMaxStrDigits

lemma fromArgs_of_plain (htexts : r.texts = []) (hnumbers : r.numbers = []) :
    FromArgs t args r := by
  constructor
  · rw [htexts]
    exact List.forall_mem_nil _
  · rw [hnumbers]
    exact List.forall_mem_nil _

lemma withInt_eq_request {s : List Char} {k : ℤ → Request} (h : withInt t s k = .request r) :
    ∃ n, int t s = .ok n ∧ k n = r := by
  rw [withInt] at h
  split at h
  · next n hn => exact ⟨n, hn, Reading.request.inj h⟩
  · cases h

lemma fromArgs_of_withInt {s : List Char} {k : ℤ → Request} (htexts : ∀ n, (k n).texts = [])
    (hnumbers : ∀ n, (k n).numbers = [n]) (h : withInt t s k = .request r) : FromArgs t args r := by
  obtain ⟨n, hn, rfl⟩ := withInt_eq_request h
  constructor
  · rw [htexts]
    exact List.forall_mem_nil _
  · rw [hnumbers]
    exact List.forall_mem_singleton.2 (natAbs_lt_of_int hn)

lemma fromArgs_of_withPid {name : String} {k : Pid → Request} (htexts : ∀ n, (k n).texts = [])
    (hnumbers : ∀ n, (k n).numbers = [n]) (h : withPid t name k args = .request r) :
    FromArgs t args r := by
  cases args with
  | nil => cases h
  | cons pid args => exact fromArgs_of_withInt htexts hnumbers h

lemma fromArgs_of_cmdSpawn (h : cmdSpawn t args = .request r) : FromArgs t args r := by
  rw [cmdSpawn.eq_def] at h
  split at h
  · next name prio word words =>
    obtain ⟨n, hn, rfl⟩ := withInt_eq_request h
    constructor
    · refine List.forall_mem_cons.2 ⟨fun c hc => ?_, List.forall_mem_singleton.2 fun c hc => ?_⟩
      · rw [String.toList_ofList] at hc
        exact .inr ⟨name, List.mem_cons_self, hc⟩
      · rcases mem_joinWords hc with h | ⟨w, hw, hc⟩
        · exact .inl h
        · exact .inr ⟨w, List.mem_cons_of_mem _ (List.mem_cons_of_mem _ hw), hc⟩
    · exact List.forall_mem_singleton.2 (natAbs_lt_of_int hn)
  · cases h

lemma fromArgs_of_cmdCoder (h : cmdCoder args = .request r) : FromArgs t args r := by
  rw [cmdCoder.eq_def] at h
  split at h
  · next name word words =>
    obtain rfl := Reading.request.inj h
    constructor
    · refine List.forall_mem_cons.2 ⟨fun c hc => ?_, List.forall_mem_singleton.2 fun c hc => ?_⟩
      · rw [String.toList_ofList] at hc
        exact .inr ⟨name, List.mem_cons_self, hc⟩
      · rcases mem_joinWords hc with h | ⟨w, hw, hc⟩
        · exact .inl h
        · exact .inr ⟨w, List.mem_cons_of_mem _ hw, hc⟩
    · exact List.forall_mem_nil _
  · cases h

lemma fromArgs_of_handler {cmd : String} (h : handler t cmd args = some (.request r)) :
    FromArgs t args r := by
  rw [handler.eq_def] at h
  split at h
  all_goals simp only [Option.some.injEq, Reading.request.injEq, reduceCtorEq] at h
  -- the commands without arguments
  all_goals try (subst h; exact fromArgs_of_plain rfl rfl)
  · exact fromArgs_of_cmdSpawn h
  · exact fromArgs_of_cmdCoder h
  · exact fromArgs_of_withPid (fun _ => rfl) (fun _ => rfl) h
  · exact fromArgs_of_withPid (fun _ => rfl) (fun _ => rfl) h
  · exact fromArgs_of_withPid (fun _ => rfl) (fun _ => rfl) h
  · cases args with
    | nil =>
      obtain rfl := Reading.request.inj h
      exact fromArgs_of_plain rfl rfl
    | cons pid args => exact fromArgs_of_withInt (fun _ => rfl) (fun _ => rfl) h
  · cases args with
    | nil =>
      obtain rfl := Reading.request.inj h
      have hpow : 10 ^ 2 ≤ 10 ^ intMaxStrDigits := Nat.pow_le_pow_right (by decide) (by decide)
      exact ⟨List.forall_mem_nil _, List.forall_mem_singleton.2 (Nat.lt_of_lt_of_le (by decide) hpow)⟩
    | cons limit args => exact fromArgs_of_withInt (fun _ => rfl) (fun _ => rfl) h

/-- A way to type a request: the command and its arguments. -/
def Request.typed : Request → String × List (List Char)
  | .help => ("help", [])
  | .spawn name prio prompt => ("spawn", [name.toList, numeral prio, prompt.toList])
  | .coder name prompt => ("coder", [name.toList, prompt.toList])
  | .ps => ("ps", [])
  | .top => ("top", [])
  | .kill pid => ("kill", [numeral pid])
  | .cat pid => ("cat", [numeral pid])
  | .mem pid => ("mem", [numeral pid])
  | .tree none => ("tree", [])
  | .tree (some pid) => ("tree", [numeral pid])
  | .bus => ("bus", [])
  | .quota => ("quota", [])
  | .batcher => ("batcher", [])
  | .dmesg limit => ("dmesg", [numeral limit])

lemma handler_typed (h : ∀ n ∈ r.numbers, n.natAbs < 10 ^ intMaxStrDigits) :
    handler t r.typed.1 r.typed.2 = some (.request r) := by
  have hword : ∀ x : String, joinWords [x.toList] = x := fun x => by
    rw [joinWords, List.intercalate_singleton, String.ofList_toList]
  have hint : ∀ n ∈ r.numbers, ∀ k : ℤ → Request, withInt t (numeral n) k = .request (k n) := by
    intro n hn k
    rw [withInt, int_numeral (h n hn)]
  cases r with
  | spawn name prio prompt =>
    simp only [Request.typed, handler, cmdSpawn, hint prio List.mem_cons_self, hword,
      String.ofList_toList]
  | coder name prompt => simp only [Request.typed, handler, cmdCoder, hword, String.ofList_toList]
  | kill pid => simp only [Request.typed, handler, withPid, hint pid List.mem_cons_self]
  | cat pid => simp only [Request.typed, handler, withPid, hint pid List.mem_cons_self]
  | mem pid => simp only [Request.typed, handler, withPid, hint pid List.mem_cons_self]
  | tree rootPid =>
    cases rootPid with
    | none => rfl
    | some pid => simp only [Request.typed, handler, cmdTree, hint pid List.mem_cons_self]
  | dmesg limit => simp only [Request.typed, handler, cmdDmesg, hint limit List.mem_cons_self]
  | _ => rfl

lemma oneLine_numeral (n : ℤ) : OneLine (numeral n) := by
  have hdigits : ∀ c, c.isDigit = false → c ∉ Nat.toDigits 10 n.natAbs := by
    intro c hc hmem
    have hdigit : c.isDigit = true := Nat.isDigit_of_mem_toDigits (by decide) le_rfl hmem
    exact Bool.false_ne_true (hc.symm.trans hdigit)
  rw [numeral]
  split
  · exact ⟨List.not_mem_cons_of_ne_of_not_mem (by decide) (hdigits _ rfl),
      List.not_mem_cons_of_ne_of_not_mem (by decide) (hdigits _ rfl)⟩
  · exact ⟨hdigits _ rfl, hdigits _ rfl⟩

lemma forall_mem_pair {p : List Char → Prop} {x y : List Char} (hx : p x) (hy : p y) :
    ∀ w ∈ [x, y], p w := List.forall_mem_cons.2 ⟨hx, List.forall_mem_singleton.2 hy⟩

lemma oneLine_typed (h : ∀ x ∈ r.texts, OneLine x.toList) :
    ∀ w ∈ r.typed.1.toList :: r.typed.2, OneLine w := by
  have hcommand : OneLine r.typed.1.toList := by
    cases r with
    | tree rootPid => cases rootPid <;> (simp only [Request.typed]; decide)
    | _ => simp only [Request.typed]; decide
  refine List.forall_mem_cons.2 ⟨hcommand, ?_⟩
  cases r with
  | spawn name prio prompt =>
    have hname : OneLine name.toList := h name List.mem_cons_self
    have hprompt : OneLine prompt.toList := h prompt (List.mem_cons_of_mem _ List.mem_cons_self)
    exact List.forall_mem_cons.2 ⟨hname, forall_mem_pair (oneLine_numeral prio) hprompt⟩
  | coder name prompt =>
    have hname : OneLine name.toList := h name List.mem_cons_self
    have hprompt : OneLine prompt.toList := h prompt (List.mem_cons_of_mem _ List.mem_cons_self)
    exact forall_mem_pair hname hprompt
  | kill pid => exact List.forall_mem_singleton.2 (oneLine_numeral pid)
  | cat pid => exact List.forall_mem_singleton.2 (oneLine_numeral pid)
  | mem pid => exact List.forall_mem_singleton.2 (oneLine_numeral pid)
  | tree rootPid =>
    cases rootPid with
    | none => exact List.forall_mem_nil _
    | some pid => exact List.forall_mem_singleton.2 (oneLine_numeral pid)
  | dmesg limit => exact List.forall_mem_singleton.2 (oneLine_numeral limit)
  | _ => exact List.forall_mem_nil _

/-- What is not white space is not stripped. -/
lemma strip_ne_nil {s : List Char} {c : Char} (hc : c ∈ s) (hspace : Text.isSpace c = false) :
    Text.strip s ≠ [] := by
  have hkeep : ∀ {s : List Char}, c ∈ s → c ∈ s.dropWhile Text.isSpace := by
    intro s hc
    rw [← List.takeWhile_append_dropWhile (p := Text.isSpace) (l := s)] at hc
    refine (List.mem_append.1 hc).resolve_left fun hdropped => ?_
    exact Bool.false_ne_true (hspace.symm.trans (List.mem_takeWhile_imp hdropped))
  have hmem : c ∈ Text.strip s := by
    rw [Text.strip, Text.rstrip]
    exact List.mem_reverse.2 (hkeep (List.mem_reverse.2 (hkeep hc)))
  exact List.ne_nil_of_mem hmem

lemma asks_of_reading {raw : String} (hne : Text.strip raw.toList ≠ [])
    (h : reading t raw = some (.request r)) : asks t (.line raw) = some r := by
  rw [asks, List.isEmpty_eq_false_iff.2 hne, h]
  rfl

lemma reading_eq_some {raw : String} {x : Reading} (h : reading t raw = some x) :
    ∃ cmd args, Words.split raw.toList = .ok (cmd :: args) ∧
      handler t (String.ofList cmd) args = some x := by
  rw [reading] at h
  split at h
  · next cmd args hwords => exact ⟨cmd, args, hwords, h⟩
  · cases h

lemma reading_of_asks {raw : String} (h : asks t (.line raw) = some r) :
    reading t raw = some (.request r) := by
  rw [asks] at h
  split_ifs at h
  split at h
  · next hread => rw [hread, Option.some.inj h]
  · cases h

/-- **Any request can be typed that fits on a line.**  There is a line that makes the request if
and only if no text of the request has a line break in it and no number is longer than `int`
allows. -/
theorem typable_iff (t : Terminal) (r : Request) :
    (∃ raw : String, OneLine raw.toList ∧ asks t (.line raw) = some r) ↔
      (∀ x ∈ r.texts, OneLine x.toList) ∧ ∀ n ∈ r.numbers, n.natAbs < 10 ^ intMaxStrDigits := by
  constructor
  · rintro ⟨raw, ⟨hfeed, hreturn⟩, hasks⟩
    obtain ⟨cmd, args, hwords, hhandler⟩ := reading_eq_some (reading_of_asks hasks)
    have hfrom := fromArgs_of_handler hhandler
    have hspells := Words.split_eq_ok_iff.1 hwords
    have hline : ∀ x ∈ r.texts, ∀ c ∈ x.toList, c = ' ' ∨ c ∈ raw.toList := by
      intro x hx c hc
      rcases hfrom.texts x hx c hc with h | ⟨w, hw, hcw⟩
      · exact .inl h
      · exact .inr (Words.mem_of_spells hspells (List.mem_cons_of_mem cmd hw) hcw)
    refine ⟨fun x hx => ⟨fun hmem => ?_, fun hmem => ?_⟩, hfrom.numbers⟩
    · exact hfeed ((hline x hx _ hmem).resolve_left (by decide))
    · exact hreturn ((hline x hx _ hmem).resolve_left (by decide))
  · rintro ⟨htexts, hnumbers⟩
    set words := r.typed.1.toList :: r.typed.2 with hwords
    have hone := oneLine_typed htexts
    have hread : reading t (String.ofList (Words.write words)) = some (.request r) := by
      rw [reading, String.toList_ofList, Words.split_eq_ok_iff.2 (Words.spells_write words)]
      simp only [hwords, String.ofList_toList]
      exact handler_typed hnumbers
    refine ⟨String.ofList (Words.write words), ?_, ?_⟩
    · have hnot : ∀ c, c ∉ [' ', '\'', '\\'] → (∀ w ∈ words, c ∉ w) → c ∉ Words.write words := by
        intro c hplain hwords hmem
        rcases Words.mem_write hmem with h | h | h | ⟨w, hw, hc⟩
        · exact hplain (by simp [h])
        · exact hplain (by simp [h])
        · exact hplain (by simp [h])
        · exact hwords w hw hc
      rw [String.toList_ofList]
      exact ⟨hnot '\n' (by decide) fun w hw => (hone w hw).1,
        hnot '\r' (by decide) fun w hw => (hone w hw).2⟩
    · refine asks_of_reading (strip_ne_nil (c := '\'') ?_ rfl) hread
      rw [String.toList_ofList]
      exact List.mem_cons_self

/-- **What can be typed at the prompt changes the kernel in three ways.**  There is a line for a
call of the kernel if and only if it spawns an agent of the default capability, under any
priority that is not too long, or a coder, or kills: with one line each for the name and the
prompt, and without a parent, a pipe, a quota or a time limit. -/
theorem callable_iff (t : Terminal) (fuel : ℕ) (call : KernelCall) :
    (∃ raw : String, OneLine raw.toList ∧
        (asks t (.line raw)).bind (Request.call fuel) = some call) ↔
      (∃ name prio prompt, call = .spawn { prompt, name, priority := prio } ∧
        OneLine name.toList ∧ OneLine prompt.toList ∧ prio.natAbs < 10 ^ intMaxStrDigits) ∨
      (∃ name prompt,
        call = .spawn { prompt, name, priority := 5, capability := some .coder } ∧
        OneLine name.toList ∧ OneLine prompt.toList) ∨
      ∃ pid, call = .kill fuel pid ∧ pid.natAbs < 10 ^ intMaxStrDigits := by
  constructor
  · rintro ⟨raw, hline, hcall⟩
    obtain ⟨r, hasks, hcall⟩ := Option.bind_eq_some_iff.1 hcall
    obtain ⟨htexts, hnumbers⟩ := (typable_iff t r).1 ⟨raw, hline, hasks⟩
    cases r with
    | spawn name prio prompt =>
      exact .inl ⟨name, prio, prompt, (Option.some.inj hcall).symm, htexts name List.mem_cons_self,
        htexts prompt (List.mem_cons_of_mem _ List.mem_cons_self),
        hnumbers prio List.mem_cons_self⟩
    | coder name prompt =>
      exact .inr (.inl ⟨name, prompt, (Option.some.inj hcall).symm, htexts name List.mem_cons_self,
        htexts prompt (List.mem_cons_of_mem _ List.mem_cons_self)⟩)
    | kill pid =>
      exact .inr (.inr ⟨pid, (Option.some.inj hcall).symm, hnumbers pid List.mem_cons_self⟩)
    | _ => cases hcall
  · have htyped : ∀ r : Request, r.call fuel = some call → (∀ x ∈ r.texts, OneLine x.toList) →
        (∀ n ∈ r.numbers, n.natAbs < 10 ^ intMaxStrDigits) → ∃ raw : String, OneLine raw.toList ∧
          (asks t (.line raw)).bind (Request.call fuel) = some call := by
      intro r hcall htexts hnumbers
      obtain ⟨raw, hline, hasks⟩ := (typable_iff t r).2 ⟨htexts, hnumbers⟩
      exact ⟨raw, hline, by rw [hasks]; exact hcall⟩
    rintro (⟨name, prio, prompt, rfl, hname, hprompt, hprio⟩ | ⟨name, prompt, rfl, hname, hprompt⟩ |
      ⟨pid, rfl, hpid⟩)
    · exact htyped (.spawn name prio prompt) rfl
        (List.forall_mem_cons.2 ⟨hname, List.forall_mem_singleton.2 hprompt⟩)
        (List.forall_mem_singleton.2 hprio)
    · exact htyped (.coder name prompt) rfl
        (List.forall_mem_cons.2 ⟨hname, List.forall_mem_singleton.2 hprompt⟩) (List.forall_mem_nil _)
    · exact htyped (.kill pid) rfl (List.forall_mem_nil _) (List.forall_mem_singleton.2 hpid)

end Typing

/-! ### What a session does -/

/-- The ending that a verdict means. -/
def Verdict.ending : Verdict → Option Ending
  | .goOn => none
  | .leave => some .left
  | .interrupted => some .interrupted
  | .crashed e => some (.crashed e)

section Course

variable {σ : Type} (t : Terminal) (perform : Request → σ → Outcome × σ)

/-- The kernel after the requests of the inputs. -/
def served (inputs : List Input) (k : σ) : σ :=
  (inputs.filterMap (asks t)).foldl (fun k r => (perform r k).2) k

/-- A message about a line that is printed where nobody catches an exception. -/
inductive Unguarded (k : σ) (raw : String) : String → Prop
  | parse {e : Words.Complaint} (h : Words.split raw.toList = .error e) :
      Unguarded k raw (parseError e)
  | unknown {cmd : List Char} {args : List (List Char)}
      (h : Words.split raw.toList = .ok (cmd :: args))
      (hnone : handler t (String.ofList cmd) args = none) :
      Unguarded k raw (unknownCommand t cmd)
  | usage {text : String} {e : Raised} (h : reading t raw = some (.usage text))
      (he : t.print text = some e) : Unguarded k raw e.message
  | argument {e : Raised} (h : reading t raw = some (.raised e)) : Unguarded k raw e.message
  | performed {r : Request} {e : Raised} (h : reading t raw = some (.request r))
      (he : (perform r k).1 = .raised e) : Unguarded k raw e.message

/-- An input ends a session: it leaves, it is none, Ctrl-C comes while the kernel is at work,
or a message that nobody guards raises an exception. -/
inductive Ends (k : σ) : Input → Ending → Prop
  | leave {raw : String} (hne : Text.strip raw.toList ≠ []) (h : reading t raw = some .leave) :
      Ends k (.line raw) .left
  | eof : Ends k .eof (breaks t)
  | interrupt : Ends k .interrupt (breaks t)
  | broken {e : Raised} : Ends k (.broken e) (.crashed e)
  | interrupted {i : Input} {r : Request} (hr : asks t i = some r)
      (h : (perform r k).1 = .interrupted) : Ends k i .interrupted
  | crashed {raw text : String} {e : Raised} (hne : Text.strip raw.toList ≠ [])
      (htext : Unguarded t perform k raw text) (h : t.print text = some e) :
      Ends k (.line raw) (.crashed e)

/-- No input ends the session. -/
def GoesOn (k : σ) : List Input → Prop
  | [] => True
  | i :: inputs => (∀ ending, ¬Ends t perform k i ending) ∧ GoesOn (served t perform [i] k) inputs

end Course

section Session

variable {σ : Type} {t : Terminal} {perform : Request → σ → Outcome × σ} {k : σ} {raw : String}

lemma served_cons (i : Input) (inputs : List Input) (k : σ) :
    served t perform (i :: inputs) k = served t perform inputs (served t perform [i] k) := by
  rw [served, served, served, ← List.foldl_append, ← List.filterMap_append]
  rfl

lemma served_of_asks {i : Input} {r : Request} (h : asks t i = some r) (k : σ) :
    served t perform [i] k = (perform r k).2 := by
  rw [served, List.filterMap_cons_some h]
  rfl

lemma served_of_silent {i : Input} (h : asks t i = none) (k : σ) :
    served t perform [i] k = k := by
  rw [served, List.filterMap_cons_none h]
  rfl

lemma ending_say {text : String} {ending : Ending} :
    (say t text).ending = some ending ↔ ∃ e, t.print text = some e ∧ ending = .crashed e := by
  rw [say]
  cases t.print text with
  | none => simp [Verdict.ending]
  | some e => simp [Verdict.ending, eq_comm]

lemma ending_complain {e : Raised} {ending : Ending} :
    (complain t e).ending = some ending ↔
      ∃ e', t.print e.message = some e' ∧ ending = .crashed e' := ending_say

lemma ending_dispatch_of_leave (h : reading t raw = some .leave) :
    (dispatch t perform raw k).1 = .leave := by
  obtain ⟨cmd, args, hwords, hhandler⟩ := reading_eq_some h
  simp only [dispatch, hwords, hhandler]

lemma dispatch_of_request {r : Request} (h : reading t raw = some (.request r)) :
    dispatch t perform raw k =
      match perform r k with
      | (.done, k') => (.goOn, [r], k')
      | (.raised e, k') => (complain t e, [r], k')
      | (.interrupted, k') => (.interrupted, [r], k') := by
  obtain ⟨cmd, args, hwords, hhandler⟩ := reading_eq_some h
  simp only [dispatch, hwords, hhandler]

/-- A message that nobody guards ends the line if it cannot be printed. -/
lemma ending_dispatch_of_unguarded {text : String} {e : Raised}
    (htext : Unguarded t perform k raw text) (h : t.print text = some e) :
    (dispatch t perform raw k).1.ending = some (.crashed e) := by
  cases htext with
  | parse hwords =>
    simp only [dispatch, hwords]
    exact ending_say.2 ⟨e, h, rfl⟩
  | unknown hwords hnone =>
    simp only [dispatch, hwords, hnone]
    exact ending_say.2 ⟨e, h, rfl⟩
  | usage hread he =>
    obtain ⟨cmd, args, hwords, hhandler⟩ := reading_eq_some hread
    simp only [dispatch, hwords, hhandler, he]
    exact ending_complain.2 ⟨e, h, rfl⟩
  | argument hread =>
    obtain ⟨cmd, args, hwords, hhandler⟩ := reading_eq_some hread
    simp only [dispatch, hwords, hhandler]
    exact ending_complain.2 ⟨e, h, rfl⟩
  | @performed r e' hread he =>
    rw [dispatch_of_request hread]
    rcases hperform : perform r k with ⟨outcome, k'⟩
    rw [hperform] at he
    obtain rfl : outcome = .raised e' := he
    exact ending_complain.2 ⟨e, h, rfl⟩

lemma asks_eq_none (h : ∀ r, reading t raw ≠ some (.request r)) : asks t (.line raw) = none := by
  rw [asks]
  split_ifs
  · rfl
  · split
    · next r hread => exact absurd hread (h r)
    · rfl

/-- What a line does, and why it ends the session, if it does. -/
lemma dispatch_spec (t : Terminal) (perform : Request → σ → Outcome × σ)
    (hne : Text.strip raw.toList ≠ []) (k : σ) :
    (dispatch t perform raw k).2 =
        ((asks t (.line raw)).toList, served t perform [.line raw] k) ∧
      ∀ ending, (dispatch t perform raw k).1.ending = some ending →
        Ends t perform k (.line raw) ending := by
  have hsilent : (∀ r, reading t raw ≠ some (.request r)) →
      ((asks t (.line raw)).toList, served t perform [.line raw] k) = ([], k) := by
    intro hread
    have hasks := asks_eq_none hread
    rw [hasks, served_of_silent hasks]
    rfl
  rw [dispatch]
  split
  · next e hwords =>
    have hread : reading t raw = none := by rw [reading, hwords]
    refine ⟨(hsilent fun r => by simp [hread]).symm, fun ending h => ?_⟩
    obtain ⟨e', he', rfl⟩ := ending_say.1 h
    exact .crashed hne (.parse hwords) he'
  · next hwords =>
    have hread : reading t raw = none := by rw [reading, hwords]
    exact ⟨(hsilent fun r => by simp [hread]).symm, fun _ h => by cases h⟩
  · next cmd args hwords =>
    have hread : reading t raw = handler t (String.ofList cmd) args := by rw [reading, hwords]
    split
    · next hnone =>
      rw [hnone] at hread
      refine ⟨(hsilent fun r => by simp [hread]).symm, fun ending h => ?_⟩
      obtain ⟨e, he, rfl⟩ := ending_say.1 h
      exact .crashed hne (.unknown hwords hnone) he
    · next hleave =>
      rw [hleave] at hread
      refine ⟨(hsilent fun r => by simp [hread]).symm, fun ending h => ?_⟩
      cases h
      exact .leave hne hread
    · next text husage =>
      rw [husage] at hread
      have hsame := hsilent fun r => by simp [hread]
      split
      · exact ⟨hsame.symm, fun _ h => by cases h⟩
      · next e he =>
        refine ⟨hsame.symm, fun ending h => ?_⟩
        obtain ⟨e', he', rfl⟩ := ending_complain.1 h
        exact .crashed hne (.usage hread he) he'
    · next e hraised =>
      rw [hraised] at hread
      refine ⟨(hsilent fun r => by simp [hread]).symm, fun ending h => ?_⟩
      obtain ⟨e', he', rfl⟩ := ending_complain.1 h
      exact .crashed hne (.argument hread) he'
    · next r hrequest =>
      rw [hrequest] at hread
      have hasks := asks_of_reading hne hread
      rw [hasks, served_of_asks hasks]
      split
      · next k' hperform => exact ⟨by rw [hperform]; rfl, fun _ h => by cases h⟩
      · next e k' hperform =>
        refine ⟨by rw [hperform]; rfl, fun ending h => ?_⟩
        obtain ⟨e', he', rfl⟩ := ending_complain.1 h
        exact .crashed hne (.performed hread (by rw [hperform])) he'
      · next k' hperform =>
        refine ⟨by rw [hperform]; rfl, fun ending h => ?_⟩
        cases h
        exact .interrupted hasks (by rw [hperform])

/-- Whatever ends a session ends it. -/
lemma ending_of_ends {ending : Ending} (h : Ends t perform k (.line raw) ending) :
    Text.strip raw.toList ≠ [] ∧ (dispatch t perform raw k).1.ending = some ending := by
  cases h with
  | leave hne h => exact ⟨hne, by rw [ending_dispatch_of_leave h]; rfl⟩
  | @interrupted _ r hr h =>
    have hne : Text.strip raw.toList ≠ [] := by
      rintro hempty
      rw [asks, hempty] at hr
      cases hr
    refine ⟨hne, ?_⟩
    rw [dispatch_of_request (reading_of_asks hr)]
    rcases hperform : perform r k with ⟨outcome, k'⟩
    rw [hperform] at h
    obtain rfl : outcome = .interrupted := h
    rfl
  | crashed hne htext h => exact ⟨hne, ending_dispatch_of_unguarded htext h⟩

lemma loop_line (hne : Text.strip raw.toList ≠ []) (inputs : List Input) (k : σ) :
    loop t perform (.line raw :: inputs) k =
      match (dispatch t perform raw k).1.ending with
      | some ending => (ending, (dispatch t perform raw k).2)
      | none =>
        let later := loop t perform inputs (dispatch t perform raw k).2.2
        (later.1, (dispatch t perform raw k).2.1 ++ later.2.1, later.2.2) := by
  rw [loop, List.isEmpty_eq_false_iff.2 hne, if_neg Bool.false_ne_true]
  rcases dispatch t perform raw k with ⟨verdict, asked, k'⟩
  cases verdict <;> rfl

/-- One input: it ends the session, or the session goes on with the next one. -/
lemma loop_cons (t : Terminal) (perform : Request → σ → Outcome × σ) (i : Input) (k : σ) :
    ((∀ ending, ¬Ends t perform k i ending) ∧ ∀ inputs, loop t perform (i :: inputs) k =
        let later := loop t perform inputs (served t perform [i] k)
        (later.1, (asks t i).toList ++ later.2.1, later.2.2)) ∨
      ∃ ending, Ends t perform k i ending ∧ ∀ inputs, loop t perform (i :: inputs) k =
        (ending, (asks t i).toList, served t perform [i] k) := by
  cases i with
  | eof => exact .inr ⟨breaks t, .eof, fun _ => rfl⟩
  | interrupt => exact .inr ⟨breaks t, .interrupt, fun _ => rfl⟩
  | broken e => exact .inr ⟨.crashed e, .broken, fun _ => rfl⟩
  | line raw =>
    by_cases hne : Text.strip raw.toList = []
    · have hasks : asks t (.line raw) = none := by rw [asks, hne]; rfl
      refine .inl ⟨fun ending h => (ending_of_ends h).1 hne, fun inputs => ?_⟩
      rw [loop, hne, hasks, served_of_silent hasks]
      rfl
    · obtain ⟨hsnd, hends⟩ := dispatch_spec t perform hne k
      cases hending : (dispatch t perform raw k).1.ending with
      | none =>
        refine .inl ⟨fun ending h => ?_, fun inputs => ?_⟩
        · have hsome := (ending_of_ends h).2
          rw [hending] at hsome
          cases hsome
        · rw [loop_line hne, hending, hsnd]
      | some ending =>
        refine .inr ⟨ending, hends ending hending, fun inputs => ?_⟩
        rw [loop_line hne, hending, hsnd]

/-- The loop hears the inputs up to the one that ends the session. -/
lemma loop_spec (t : Terminal) (perform : Request → σ → Outcome × σ) (inputs : List Input)
    (k : σ) :
    (GoesOn t perform k inputs ∧ loop t perform inputs k =
        (.waiting, inputs.filterMap (asks t), served t perform inputs k)) ∨
      ∃ heard i unheard ending, inputs = heard ++ i :: unheard ∧ GoesOn t perform k heard ∧
        Ends t perform (served t perform heard k) i ending ∧ loop t perform inputs k =
          (ending, (heard ++ [i]).filterMap (asks t), served t perform (heard ++ [i]) k) := by
  have hcons : ∀ i : Input, ∀ inputs : List Input, (i :: inputs).filterMap (asks t) =
      (asks t i).toList ++ inputs.filterMap (asks t) := by
    intro i inputs
    rw [List.filterMap_cons]
    cases asks t i <;> rfl
  induction inputs generalizing k with
  | nil => exact .inl ⟨trivial, rfl⟩
  | cons i inputs ih =>
    rcases loop_cons t perform i k with ⟨hnot, hloop⟩ | ⟨ending, hends, hloop⟩
    · rcases ih (served t perform [i] k) with
        ⟨hgoes, hrest⟩ | ⟨heard, j, unheard, ending, rfl, hgoes, hends, hrest⟩
      · refine .inl ⟨⟨hnot, hgoes⟩, ?_⟩
        rw [hloop, hrest, hcons, served_cons i inputs]
      · refine .inr ⟨i :: heard, j, unheard, ending, rfl, ⟨hnot, hgoes⟩, ?_, ?_⟩
        · rw [served_cons]
          exact hends
        · rw [hloop, hrest, List.cons_append, hcons, served_cons i (heard ++ [j])]
    · refine .inr ⟨[], i, inputs, ending, rfl, trivial, hends, ?_⟩
      rw [hloop, List.nil_append, hcons, List.filterMap_nil, List.append_nil]

/-- What ends a session is not that the session goes on. -/
lemma Ends.ne_waiting {i : Input} {ending : Ending} (h : Ends t perform k i ending) :
    ending ≠ .waiting := by
  have hbreaks : breaks t ≠ .waiting := by
    rw [breaks]
    split <;> exact Ending.noConfusion
  cases h with
  | eof => exact hbreaks
  | interrupt => exact hbreaks
  | _ => exact Ending.noConfusion

/-- **A session.**  If the kernel does not start, or the console refuses a line of the banner,
that is all, and a kernel that has been started stays so.  Otherwise the requests of the inputs
are made one after the other, each of them once, until an input ends the session.  Then, and
only then, the kernel is shut down, whatever the console refuses, and the rest of the inputs is
not heard. -/
theorem run_session (t : Terminal) (perform : Request → σ → Outcome × σ) (life : Lifecycle σ)
    (inputs : List Input) (k : σ) :
    let begun := (life.start k).2
    (∃ ending, opening t life k = some ending ∧
        run t perform life inputs k = (ending, [], begun)) ∨
      opening t life k = none ∧
        (GoesOn t perform begun inputs ∧ run t perform life inputs k =
            (.waiting, inputs.filterMap (asks t), served t perform inputs begun) ∨
          ∃ heard i unheard ending, inputs = heard ++ i :: unheard ∧
            GoesOn t perform begun heard ∧
            Ends t perform (served t perform heard begun) i ending ∧
            let final := served t perform (heard ++ [i]) begun
            run t perform life inputs k = (closing t life final ending,
              (heard ++ [i]).filterMap (asks t), (life.shutdown final).2)) := by
  intro begun
  cases hopening : opening t life k with
  | some ending =>
    refine .inl ⟨ending, rfl, ?_⟩
    rw [run, hopening]
  | none =>
    refine .inr ⟨rfl, ?_⟩
    rcases loop_spec t perform inputs begun with
      ⟨hgoes, hloop⟩ | ⟨heard, i, unheard, ending, rfl, hgoes, hends, hloop⟩
    · refine .inl ⟨hgoes, ?_⟩
      rw [run, hopening]
      simp only
      rw [hloop]
    · refine .inr ⟨heard, i, unheard, ending, rfl, hgoes, hends, ?_⟩
      have hne := hends.ne_waiting
      rw [run, hopening]
      simp only
      rw [hloop]
      cases ending with
      | waiting => exact absurd rfl hne
      | _ => rfl

end Session

end Gcos.Repl
