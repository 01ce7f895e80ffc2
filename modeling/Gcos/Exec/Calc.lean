import Gcos.Lib.Text

/-!
# The calc tool

`_safe_calc` in `gcos/agent_loop.py` parses the argument of the tool as an expression and
walks over the tree.  It knows numbers and a table of operators, and raises on every other
node, wherever it stands; whatever is raised becomes the text of an error.

The walk is a recursion, and the interpreter allows only so many calls inside each other: a
tree that is deeper is an error like any other.
-/

namespace Gcos.Exec.Calc

open Lib

/-! ### Expressions -/

/-- The binary operators of `ast`. -/
inductive Operator
  | add | sub | mult | matMult | div | mod | pow | lShift | rShift | bitOr | bitXor | bitAnd
  | floorDiv
deriving DecidableEq

/-- The unary operators of `ast`. -/
inductive UnaryOp
  | invert | not | uAdd | uSub
deriving DecidableEq

/-- The value of an `ast.Constant`.  `F` are the floats. -/
inductive Constant (F : Type)
  | int (n : ℤ)
  | bool (b : Bool)
  | float (x : F)
  | complex (im : F)
  | str (s : String)
  | bytes (s : List UInt8)
  | none
  | ellipsis

/-- The expressions of `ast` that are neither constants nor applied operators. -/
inductive ExprKind
  | boolOp | namedExpr | lambda | ifExp | dict | set | listComp | setComp | dictComp
  | generatorExp | await | yield | yieldFrom | compare | call | formattedValue | joinedStr
  | attribute | subscript | starred | name | list | tuple | slice
deriving DecidableEq

/-- A Python expression. -/
inductive Expr (F : Type)
  | constant (c : Constant F)
  | binOp (left : Expr F) (op : Operator) (right : Expr F)
  | unaryOp (op : UnaryOp) (operand : Expr F)
  | other (kind : ExprKind) (arity : ℕ) (child : Fin arity → Expr F)

/-- A value of the evaluator: an integer, a boolean, or a number that is neither. -/
inductive Value (F : Type)
  | int (n : ℤ)
  | bool (b : Bool)
  | other (x : F)

/-- What Python does with numbers that are not integers: an operation answers or raises,
with the text of the exception. -/
structure Arith (F : Type) where
  binary : Operator → Value F → Value F → Except String (Value F)
  unary : UnaryOp → F → Except String (Value F)
  text : F → String

variable {F : Type}

/-! ### The evaluator -/

/-- The constants that are instances of `int` or `float`. -/
def Constant.number : Constant F → Option (Value F)
  | .int n => some (.int n)
  | .bool b => some (.bool b)
  | .float x => some (.other x)
  | .complex _ | .str _ | .bytes _ | .none | .ellipsis => Option.none

/-- A boolean is 0 or 1. -/
def Value.asInt : Value F → Option ℤ
  | .int n => some n
  | .bool b => some b.toInt
  | .other _ => none

/-- `type(node.op) in _ALLOWED_OPS`. -/
def Operator.isAllowed : Operator → Bool
  | .add | .sub | .mult | .div | .floorDiv | .mod | .pow => true
  | .matMult | .lShift | .rShift | .bitOr | .bitXor | .bitAnd => false

/-- `type(node.op) in _ALLOWED_OPS`. -/
def UnaryOp.isAllowed : UnaryOp → Bool
  | .uSub | .uAdd => true
  | .invert | .not => false

variable (arith : Arith F)

/-- An operator on two integers. -/
def intOp : Operator → ℤ → ℤ → Except String (Value F)
  | .add, m, n => .ok (.int (m + n))
  | .sub, m, n => .ok (.int (m - n))
  | .mult, m, n => .ok (.int (m * n))
  | .floorDiv, m, n =>
    if n = 0 then .error "integer division or modulo by zero" else .ok (.int (m.fdiv n))
  | .mod, m, n => if n = 0 then .error "integer modulo by zero" else .ok (.int (m.fmod n))
  | .pow, m, n => if 0 ≤ n then .ok (.int (m ^ n.toNat)) else arith.binary .pow (.int m) (.int n)
  | op, m, n => arith.binary op (.int m) (.int n)

/-- `_ALLOWED_OPS[type(node.op)](left, right)`. -/
def applyOp (op : Operator) (left right : Value F) : Except String (Value F) :=
  match left.asInt, right.asInt with
  | some m, some n => intOp arith op m n
  | _, _ => arith.binary op left right

/-- `_ALLOWED_OPS[type(node.op)](operand)`. -/
def applyUnary (op : UnaryOp) : Value F → Except String (Value F)
  | .other x => arith.unary op x
  | .int n => .ok (.int (if op = .uSub then -n else n))
  | .bool b => .ok (.int (if op = .uSub then -b.toInt else b.toInt))

/-- `ev(node)`, where the recursion limit leaves room for `frames` calls inside each other. -/
def ev : Expr F → ℕ → Except String (Value F)
  | _, 0 => .error "maximum recursion depth exceeded"
  | .constant c, _ + 1 =>
    match c.number with
    | some v => .ok v
    | none => .error "unsupported expression"
  | .binOp left op right, frames + 1 =>
    if op.isAllowed then do
      let a ← ev left frames
      let b ← ev right frames
      applyOp arith op a b
    else .error "unsupported expression"
  | .unaryOp op operand, frames + 1 =>
    if op.isAllowed then do
      let a ← ev operand frames
      applyUnary arith op a
    else .error "unsupported expression"
  | .other _ _ _, _ + 1 => .error "unsupported expression"

/-- `str(value)`, for integers that are not too long to be written out. -/
def Value.str : Value F → String
  | .int n => toString n
  | .bool b => if b then "True" else "False"
  | .other x => arith.text x

/-- `_safe_calc`.  `parse` is `ast.parse` with `mode="eval"`. -/
def safeCalc (parse : String → Except String (Expr F)) (frames : ℕ) (expr : String) : String :=
  let result : Except String (Value F) := do
    let tree ← parse (String.ofList (Text.strip expr.toList))
    ev arith tree frames
  match result with
  | .ok v => v.str arith
  | .error e => "calc error: " ++ e

/-! ### What the trees mean -/

/-- Every node is a number or an operator of the table. -/
def AllAllowed : Expr F → Prop
  | .constant c => c.number.isSome
  | .binOp left op right => op.isAllowed ∧ AllAllowed left ∧ AllAllowed right
  | .unaryOp op operand => op.isAllowed ∧ AllAllowed operand
  | .other _ _ _ => False

/-- Integer constants with `+`, `-`, `*`, `//`, `%` and the signs. -/
def IsInteger : Expr F → Prop
  | .constant (.int _) => True
  | .constant _ => False
  | .binOp left op right =>
    op ∈ [Operator.add, .sub, .mult, .floorDiv, .mod] ∧ IsInteger left ∧ IsInteger right
  | .unaryOp op operand => op ∈ [UnaryOp.uAdd, .uSub] ∧ IsInteger operand
  | .other _ _ _ => False

/-- The value of an operator, where it has one: the quotient is rounded down, and the
remainder is what it leaves. -/
def meaning : Operator → ℤ → ℤ → Option ℤ
  | .add, m, n => some (m + n)
  | .sub, m, n => some (m - n)
  | .mult, m, n => some (m * n)
  | .floorDiv, m, n => if n = 0 then none else some ⌊(m : ℚ) / n⌋
  | .mod, m, n => if n = 0 then none else some (m - n * ⌊(m : ℚ) / n⌋)
  | _, _, _ => none

/-- The mathematical value of an integer tree, where it has one. -/
def value : Expr F → Option ℤ
  | .constant (.int n) => some n
  | .constant _ => none
  | .binOp left op right => do
    let m ← value left
    let n ← value right
    meaning op m n
  | .unaryOp op operand => do
    let n ← value operand
    return if op = .uSub then -n else n
  | .other _ _ _ => none

/-- Somewhere in the tree there is a divisor whose value is zero. -/
inductive DividesByZero : Expr F → Prop
  | here {left right : Expr F} {op : Operator} (hop : op = .floorDiv ∨ op = .mod)
      (hzero : value right = some 0) : DividesByZero (.binOp left op right)
  | left {left right : Expr F} {op : Operator} (h : DividesByZero left) :
      DividesByZero (.binOp left op right)
  | right {left right : Expr F} {op : Operator} (h : DividesByZero right) :
      DividesByZero (.binOp left op right)
  | operand {operand : Expr F} {op : UnaryOp} (h : DividesByZero operand) :
      DividesByZero (.unaryOp op operand)

/-- The calls inside each other that a walk over the tree needs. -/
def depth : Expr F → ℕ
  | .constant _ => 1
  | .binOp left _ right => max (depth left) (depth right) + 1
  | .unaryOp _ operand => depth operand + 1
  | .other _ _ _ => 1

/-- The text of an error. -/
def IsCalcError (text : String) : Prop := ∃ e, text = "calc error: " ++ e

/-! ### No other nodes -/

variable {arith}

/-- A walk that ends with a value has met numbers and operators only. -/
lemma allAllowed_of_ev {e : Expr F} {frames : ℕ} {v : Value F} (h : ev arith e frames = .ok v) :
    AllAllowed e := by
  -- by induction on the tree: an error in any part is an error of the whole
  induction e generalizing frames v with
  | constant c =>
    cases frames with
    | zero => cases h
    | succ frames =>
      rw [ev] at h
      cases hc : c.number with
      | none =>
        rw [hc] at h
        cases h
      | some v' => rw [AllAllowed, hc]; rfl
  | binOp left op right ihl ihr =>
    cases frames with
    | zero => cases h
    | succ frames =>
      rw [ev] at h
      split at h
      · next hop =>
        cases hl : ev arith left frames with
        | error e =>
          rw [hl] at h
          cases h
        | ok a =>
          rw [hl] at h
          cases hr : ev arith right frames with
          | error e =>
            simp only [hr] at h
            cases h
          | ok b => exact ⟨hop, ihl hl, ihr hr⟩
      · cases h
  | unaryOp op operand ih =>
    cases frames with
    | zero => cases h
    | succ frames =>
      rw [ev] at h
      split at h
      · next hop =>
        cases ha : ev arith operand frames with
        | error e =>
          rw [ha] at h
          cases h
        | ok a => exact ⟨hop, ih ha⟩
      · cases h
  | other kind arity child ih => cases frames <;> cases h

/-! ### Integers -/

/-- The quotient of Python is rounded down. -/
lemma floor_div_eq_fdiv (m : ℤ) {n : ℤ} (hn : n ≠ 0) : ⌊(m : ℚ) / n⌋ = m.fdiv n := by
  have hpos : ∀ a b : ℤ, 0 < b → ⌊(a : ℚ) / b⌋ = a.fdiv b := by
    intro a b hb
    lift b to ℕ using hb.le
    rw [Int.fdiv_eq_ediv_of_nonneg a hb.le]
    exact Rat.floor_intCast_div_natCast a b
  rcases lt_or_gt_of_ne hn with hneg | hgt
  · have hflip := hpos (-m) (-n) (by omega)
    rw [Int.neg_fdiv_neg] at hflip
    rw [← hflip]
    push_cast
    rw [neg_div_neg_eq]
  · exact hpos m n hgt

/-- The operators of integer trees fail only on a divisor of zero. -/
lemma meaning_eq_none_iff {op : Operator} (hop : op ∈ [Operator.add, .sub, .mult, .floorDiv, .mod])
    (m n : ℤ) : meaning op m n = none ↔ (op = .floorDiv ∨ op = .mod) ∧ n = 0 := by
  simp only [List.mem_cons, List.not_mem_nil, or_false] at hop
  rcases hop with rfl | rfl | rfl | rfl | rfl <;> simp [meaning]

variable (arith) in
/-- What an operator answers on integers is its value, where it has one. -/
lemma intOp_eq {op : Operator} (hop : op ∈ [Operator.add, .sub, .mult, .floorDiv, .mod]) (m n : ℤ) :
    (∃ k, meaning op m n = some k ∧ intOp arith op m n = .ok (.int k)) ∨
      meaning op m n = none ∧ ∃ msg, intOp arith op m n = .error msg := by
  simp only [List.mem_cons, List.not_mem_nil, or_false] at hop
  rcases hop with rfl | rfl | rfl | rfl | rfl
  · exact .inl ⟨_, rfl, rfl⟩
  · exact .inl ⟨_, rfl, rfl⟩
  · exact .inl ⟨_, rfl, rfl⟩
  · by_cases hn : n = 0
    · exact .inr ⟨if_pos hn, _, if_pos hn⟩
    · refine .inl ⟨m.fdiv n, ?_, if_neg hn⟩
      rw [meaning, if_neg hn, floor_div_eq_fdiv m hn]
  · by_cases hn : n = 0
    · exact .inr ⟨if_pos hn, _, if_pos hn⟩
    · refine .inl ⟨m.fmod n, ?_, if_neg hn⟩
      rw [meaning, if_neg hn, floor_div_eq_fdiv m hn, Int.fmod_def]

lemma isAllowed_of_mem {op : Operator} (hop : op ∈ [Operator.add, .sub, .mult, .floorDiv, .mod]) :
    op.isAllowed = true := by
  simp only [List.mem_cons, List.not_mem_nil, or_false] at hop
  rcases hop with rfl | rfl | rfl | rfl | rfl <;> rfl

lemma isAllowed_of_mem_signs {op : UnaryOp} (hop : op ∈ [UnaryOp.uAdd, .uSub]) :
    op.isAllowed = true := by
  simp only [List.mem_cons, List.not_mem_nil, or_false] at hop
  rcases hop with rfl | rfl <;> rfl

/-- An integer tree has no value exactly if it has a divisor whose value is zero. -/
lemma value_eq_none_iff {e : Expr F} (h : IsInteger e) : value e = none ↔ DividesByZero e := by
  induction e with
  | constant c =>
    cases c with
    | int n => exact iff_of_false (Option.some_ne_none n) nofun
    | _ => exact h.elim
  | binOp left op right ihl ihr =>
    obtain ⟨hop, hl, hr⟩ := h
    rw [value]
    constructor
    · intro hnone
      cases hvl : value left with
      | none => exact .left ((ihl hl).1 hvl)
      | some m =>
        cases hvr : value right with
        | none => exact .right ((ihr hr).1 hvr)
        | some n =>
          rw [hvl, hvr] at hnone
          obtain ⟨hdiv, rfl⟩ := (meaning_eq_none_iff hop m n).1 hnone
          exact .here hdiv hvr
    · intro hdiv
      cases hdiv with
      | here hdiv hzero =>
        cases hvl : value left with
        | none => rfl
        | some m =>
          rw [hzero]
          exact (meaning_eq_none_iff hop m 0).2 ⟨hdiv, rfl⟩
      | left hdiv => rw [(ihl hl).2 hdiv]; rfl
      | right hdiv =>
        rw [(ihr hr).2 hdiv]
        cases value left <;> rfl
  | unaryOp op operand ih =>
    obtain ⟨hop, ha⟩ := h
    rw [value]
    constructor
    · intro hnone
      cases hv : value operand with
      | none => exact .operand ((ih ha).1 hv)
      | some n =>
        rw [hv] at hnone
        cases hnone
    · rintro ⟨⟩
      next hdiv =>
        rw [(ih ha).2 hdiv]
        rfl
  | other kind arity child ih => exact h.elim

variable (arith) in
/-- **A walk over an integer tree** ends with the value of the tree, or with an error, if the
tree has no value or is too deep. -/
lemma ev_spec {e : Expr F} (h : IsInteger e) (frames : ℕ) :
    (∃ k, value e = some k ∧ depth e ≤ frames ∧ ev arith e frames = .ok (.int k)) ∨
      (value e = none ∨ frames < depth e) ∧ ∃ msg, ev arith e frames = .error msg := by
  -- by induction on the tree: the left part is walked over first, and then the right one
  induction e generalizing frames with
  | constant c =>
    cases c with
    | int n =>
      cases frames with
      | zero => exact .inr ⟨.inr Nat.one_pos, _, rfl⟩
      | succ frames => exact .inl ⟨n, rfl, Nat.succ_le_succ (Nat.zero_le _), rfl⟩
    | _ => exact h.elim
  | binOp left op right ihl ihr =>
    obtain ⟨hop, hl, hr⟩ := h
    cases frames with
    | zero => exact .inr ⟨.inr (Nat.succ_pos _), _, rfl⟩
    | succ frames =>
      rw [ev, if_pos (isAllowed_of_mem hop), value, depth]
      rcases ihl hl frames with ⟨m, hvl, hdl, hevl⟩ | ⟨hwhy, msg, hevl⟩
      · rcases ihr hr frames with ⟨n, hvr, hdr, hevr⟩ | ⟨hwhy, msg, hevr⟩
        · rw [hevl, hevr, hvl, hvr]
          have hdepth : max (depth left) (depth right) + 1 ≤ frames + 1 := by omega
          rcases intOp_eq arith hop m n with ⟨k, hk, hok⟩ | ⟨hnone, msg, herr⟩
          · exact .inl ⟨k, hk, hdepth, hok⟩
          · exact .inr ⟨.inl hnone, msg, herr⟩
        · refine .inr ⟨hwhy.imp (fun hnone => ?_) (fun hdeep => by omega), msg, ?_⟩
          · rw [hvl, hnone]
            rfl
          · rw [hevl, hevr]
            rfl
      · refine .inr ⟨hwhy.imp (fun hnone => ?_) (fun hdeep => by omega), msg, ?_⟩
        · rw [hnone]
          rfl
        · rw [hevl]
          rfl
  | unaryOp op operand ih =>
    obtain ⟨hop, ha⟩ := h
    cases frames with
    | zero => exact .inr ⟨.inr (Nat.succ_pos _), _, rfl⟩
    | succ frames =>
      rw [ev, if_pos (isAllowed_of_mem_signs hop), value, depth]
      rcases ih ha frames with ⟨n, hv, hd, hev⟩ | ⟨hwhy, msg, hev⟩
      · rw [hev, hv]
        exact .inl ⟨_, rfl, Nat.succ_le_succ hd, rfl⟩
      · refine .inr ⟨hwhy.imp (fun hnone => ?_) (fun hdeep => by omega), msg, ?_⟩
        · rw [hnone]
          rfl
        · rw [hev]
          rfl
  | other kind arity child ih => exact h.elim

/-- The text of an integer is no error. -/
lemma not_isCalcError_toString (n : ℤ) : ¬IsCalcError (toString n) := by
  rintro ⟨e, he⟩
  have hhead : (toString n).toList.head? = some 'c' := by
    rw [he, String.toList_append]
    rfl
  have hdigit : ∀ m : ℕ, ∀ c ∈ (Nat.repr m).toList, c.isDigit = true := fun m c hc => by
    rw [Nat.repr, String.toList_ofList] at hc
    exact Nat.isDigit_of_mem_toDigits (by decide) (by decide) hc
  cases n with
  | ofNat m =>
    have hc := hdigit m 'c' (List.mem_of_head? hhead)
    revert hc
    decide
  | negSucc m =>
    have hminus : (toString (Int.negSucc m)).toList.head? = some '-' := by
      show ("-" ++ Nat.repr (m + 1)).toList.head? = some '-'
      rw [String.toList_append]
      rfl
    rw [hminus] at hhead
    revert hhead
    decide

/-! ### The tool -/

/-- What `_safe_calc` makes of the walk. -/
lemma safeCalc_of_ok {parse : String → Except String (Expr F)} {frames : ℕ} {expr : String}
    {e : Expr F} (hparse : parse (String.ofList (Text.strip expr.toList)) = .ok e) :
    safeCalc arith parse frames expr = match ev arith e frames with
      | .ok v => v.str arith
      | .error msg => "calc error: " ++ msg := by
  rw [safeCalc, hparse]
  rfl

/-- A sum of ones, `k` of them added to the first. -/
def ones : ℕ → Expr F
  | 0 => .constant (.int 1)
  | k + 1 => .binOp (ones k) .add (.constant (.int 1))

lemma isInteger_ones (k : ℕ) : IsInteger (ones k : Expr F) := by
  induction k with
  | zero => trivial
  | succ k ih => exact ⟨List.mem_cons_self, ih, trivial⟩

lemma value_ones (k : ℕ) : value (ones k : Expr F) = some (k + 1 : ℤ) := by
  induction k with
  | zero => rfl
  | succ k ih =>
    rw [ones, value, ih]
    simp [value, meaning]

lemma depth_ones (k : ℕ) : depth (ones k : Expr F) = k + 1 := by
  induction k with
  | zero => rfl
  | succ k ih =>
    rw [ones, depth, ih, depth]
    omega

/-- Arithmetic without floats. -/
def Arith.none : Arith Empty where
  binary := fun _ _ _ => .error "unsupported"
  unary := fun _ x => x.elim
  text := fun x => x.elim

/-- The sum of a thousand and one ones, with a recursion limit of a thousand: the tool
answers with an error, and there is no division in it. -/
theorem safeCalc_too_deep :
    let expr := "+".intercalate (List.replicate 1001 "1")
    let e : Expr Empty := ones 1000
    IsCalcError (safeCalc .none (fun _ => .ok e) 1000 expr) ∧ IsInteger e ∧
      value e = some 1001 ∧ ¬DividesByZero e := by
  intro expr e
  have hvalue : value e = some 1001 := value_ones 1000
  have hwhole : IsInteger e := isInteger_ones 1000
  refine ⟨?_, hwhole, hvalue, ?_⟩
  · rw [safeCalc_of_ok rfl]
    rcases ev_spec .none hwhole 1000 with ⟨k, -, hdepth, -⟩ | ⟨-, msg, herr⟩
    · rw [depth_ones] at hdepth
      omega
    · rw [herr]
      exact ⟨msg, rfl⟩
  · rw [← value_eq_none_iff hwhole, hvalue]
    exact Option.some_ne_none _

/-- **What the calc tool can be made to do.**  Whatever the floats are, and for every tree:
the tool answers with something else than an error only if every node of the tree is a number
or an operator of the table.  On integer trees it answers with an error exactly if some
divisor has the value zero or the tree is deeper than the recursion limit allows, and else
with the decimal text of the value. -/
theorem safeCalc_confined (arith : Arith F) (parse : String → Except String (Expr F)) (frames : ℕ)
    (expr : String) (e : Expr F)
    (hparse : parse (String.ofList (Text.strip expr.toList)) = .ok e) :
    let result := safeCalc arith parse frames expr
    (¬IsCalcError result → AllAllowed e) ∧
      (IsInteger e →
        (IsCalcError result ↔ DividesByZero e ∨ frames < depth e) ∧
          (¬IsCalcError result → ∃ k, value e = some k ∧ result = toString k)) := by
  intro result
  have hresult : result = match ev arith e frames with
      | .ok v => v.str arith
      | .error msg => "calc error: " ++ msg := safeCalc_of_ok hparse
  rw [hresult]
  refine ⟨fun hfine => ?_, fun hwhole => ?_⟩
  · cases hev : ev arith e frames with
    | error msg =>
      rw [hev] at hfine
      exact absurd ⟨msg, rfl⟩ hfine
    | ok v => exact allAllowed_of_ev hev
  · rw [← value_eq_none_iff hwhole]
    rcases ev_spec arith hwhole frames with ⟨k, hk, hdepth, hok⟩ | ⟨hwhy, msg, herr⟩
    · rw [hok, hk]
      refine ⟨iff_of_false (not_isCalcError_toString k) ?_, fun _ => ⟨k, rfl, rfl⟩⟩
      rintro (hnone | hdeep)
      · exact Option.some_ne_none _ hnone
      · omega
    · rw [herr]
      exact ⟨iff_of_true ⟨msg, rfl⟩ hwhy, fun hfine => absurd ⟨msg, rfl⟩ hfine⟩

/-- `-7 // 2`: the quotient is rounded down. -/
theorem safeCalc_confined_floor :
    let e : Expr Empty := .binOp (.unaryOp .uSub (.constant (.int 7))) .floorDiv (.constant (.int 2))
    safeCalc .none (fun _ => .ok e) 1000 "-7 // 2" = "-4" := by
  intro e
  have hwhole : IsInteger e := ⟨by decide, ⟨by decide, trivial⟩, trivial⟩
  have hvalue : value e = some (-4) := by
    show (if (2 : ℤ) = 0 then none else some ⌊((-7 : ℤ) : ℚ) / (2 : ℤ)⌋) = some (-4)
    rw [if_neg (by decide), floor_div_eq_fdiv (-7) (by decide)]
    rfl
  obtain ⟨-, hinteger⟩ := safeCalc_confined .none (fun _ => .ok e) 1000 "-7 // 2" e rfl
  obtain ⟨herror, htext⟩ := hinteger hwhole
  have hfine : ¬(DividesByZero e ∨ 1000 < depth e) := by
    rw [← value_eq_none_iff hwhole, hvalue]
    rintro (hnone | hdeep)
    · cases hnone
    · revert hdeep
      decide
  obtain ⟨k, hk, hresult⟩ := htext fun h => hfine (herror.1 h)
  rw [hvalue] at hk
  cases hk
  exact hresult

end Gcos.Exec.Calc
