import ClaudeC99.Lib.IntArith
import ClaudeC99.Optimize.Expr

/-! Constant folding against C's integer arithmetic. -/

namespace ClaudeC99

open IntArith (IntType UnOp BinOp Value evalUnary evalBinary)

/-- The type of a literal node. -/
def intTypeOf : TypeKind → Bool → Option IntType
  | .bool, _ => some { rank := .bool, signed := false }
  | .char, isUnsigned => some ⟨.char, !isUnsigned, by simp⟩
  | .short, isUnsigned => some ⟨.short, !isUnsigned, by simp⟩
  | .int, isUnsigned => some ⟨.int, !isUnsigned, by simp⟩
  | .long, isUnsigned => some ⟨.long, !isUnsigned, by simp⟩
  | .longLong, isUnsigned => some ⟨.longLong, !isUnsigned, by simp⟩
  | .unsignedLongLong, _ => some { rank := .longLong, signed := false }
  | _, _ => none

/-- The type and the value of a literal node: the text stands for a value modulo the width. -/
def Expr.denoted : Expr → Option Value
  | .intLiteral text kind isUnsigned =>
    (intTypeOf kind isUnsigned).map fun t => (t, t.convert text.toInt)
  | _ => none

inductive Base
  | decimal | octal | hex
  deriving DecidableEq, Repr

/-- An integer constant as written; `longs` counts the letters `l` of the suffix. -/
structure IntSpelling where
  base : Base
  value : Nat
  isUnsigned : Bool
  longs : Nat

/-- The literal that `lexer_next_token` and `parse_primary` make; `none` where the lexer gives an
error. -/
def lexIntLiteral (s : IntSpelling) : Option Expr :=
  let tooLarge := 2 ^ 64 ≤ s.value ∨ (!s.isUnsigned ∧ s.longs ≠ 2 ∧ 2 ^ 63 - 1 < s.value)
  if 2 < s.longs ∨ tooLarge then none
  else
    let text := if s.base = .hex then .hex s.value else .dec s.value
    let literalType : TypeKind :=
      if s.longs = 2 then if s.isUnsigned then .unsignedLongLong else .longLong
      else if s.longs = 1 then .long
      else if s.isUnsigned then if s.value ≤ 0xFFFFFFFF then .int else .long
      else if s.value ≤ 2 ^ 31 - 1 then .int
      else .long
    some (.intLiteral text literalType s.isUnsigned)

/-- The types that C99 tries in turn for an integer constant. -/
def IntSpelling.candidates (s : IntSpelling) : List IntType :=
  let ranks := [IntArith.Rank.int, .long, .longLong].drop s.longs
  let signed := ranks.map fun r => (⟨r, r ≠ .bool, by simp⟩ : IntType)
  let unsigned := ranks.map fun r => (⟨r, false, fun _ => rfl⟩ : IntType)
  if s.isUnsigned then unsigned
  else if s.base = .decimal then signed
  else (signed.zip unsigned).flatMap fun p => [p.1, p.2]

def IntSpelling.c99Value (s : IntSpelling) : Option Value :=
  (s.candidates.find? fun t => t.Holds s.value).map (·, (s.value : Int))

/-- An expression of integer literals that the lexer accepts. -/
inductive ConstExpr
  | literal (s : IntSpelling) (accepted : (lexIntLiteral s).isSome)
  | unary (op : UnOp) (e : ConstExpr)
  | binary (op : BinOp) (l r : ConstExpr)

def unaryOpOf : UnOp → UnaryOp
  | .plus => .plus
  | .minus => .minus
  | .complement => .tilde
  | .not => .bang

def binaryOpOf : BinOp → BinaryOp
  | .add => .add
  | .sub => .sub
  | .mul => .mul
  | .div => .div
  | .mod => .mod
  | .and => .bitAnd
  | .or => .bitOr
  | .xor => .bitXor
  | .shl => .shiftLeft
  | .shr => .shiftRight
  | .lt => .lt
  | .le => .le
  | .gt => .gt
  | .ge => .ge
  | .eq => .eq
  | .ne => .ne

namespace ConstExpr

def toExpr : ConstExpr → Expr
  | literal s accepted => (lexIntLiteral s).get accepted
  | unary op e => .unaryOp (unaryOpOf op) e.toExpr
  | binary op l r => .binaryOp (binaryOpOf op) l.toExpr r.toExpr .void

def c99Value : ConstExpr → Option Value
  | literal s _ => s.c99Value
  | unary op e => e.c99Value.bind (evalUnary op)
  | binary op l r => l.c99Value.bind fun x => r.c99Value.bind (evalBinary op x)

def parts : ConstExpr → List ConstExpr
  | literal s accepted => [literal s accepted]
  | unary op e => unary op e :: e.parts
  | binary op l r => binary op l r :: (l.parts ++ r.parts)

/-- The literal that the optimizer makes of the expression has C's type and value. -/
def FoldsRight (e : ConstExpr) : Prop :=
  ∀ x, e.c99Value = some x → (optimizeExpr [] e.toExpr).denoted = some x

end ConstExpr

def unaryLong : UnOp → Int → Int
  | .plus, v => v
  | .minus, v => wrap64 (-v)
  | .complement, v => -v - 1
  | .not, v => IntArith.truth (v = 0)

namespace ConstExpr

/-- The expression in signed 64-bit arithmetic throughout. -/
def asLong : ConstExpr → Option Int
  | literal s accepted => ((lexIntLiteral s).get accepted).literal
  | unary op e => e.asLong.map (unaryLong op)
  | binary op l r =>
    l.asLong.bind fun a => r.asLong.bind fun b => (foldLong (binaryOpOf op) a b).map Prod.fst

/-- The type of a literal for the lexer, and `int` or the type of the left operand for an
operator. -/
def leftType : ConstExpr → Option IntType
  | literal s accepted => ((lexIntLiteral s).get accepted).denoted.map Prod.fst
  | unary op e => if op = .not then some .int else e.c99Value.map Prod.fst
  | binary op l _ => if op.test.isSome then some .int else l.c99Value.map Prod.fst

/-- Signed 64-bit arithmetic and the type of the left operand give what C gives. -/
def OperatorAgrees (e : ConstExpr) : Prop :=
  ∀ x, e.c99Value = some x → e.leftType = some x.1 ∧ e.asLong.map x.1.convert = some x.2

def Agrees : ConstExpr → Prop
  | literal s accepted => ∀ x, s.c99Value = some x → (literal s accepted).leftType = some x.1
  | unary op e => (unary op e).OperatorAgrees
  | binary op l r => (binary op l r).OperatorAgrees

end ConstExpr

/-! ### Texts of folded literals are read back as they are -/

theorem strtol_bounds (text : NumText) : -2 ^ 63 ≤ strtol text ∧ strtol text < 2 ^ 63 := by
  rw [strtol]
  omega

theorem strtol_dec {n : Int} (h_min : -2 ^ 63 ≤ n) (h_max : n < 2 ^ 63) :
    strtol (.dec n) = n := by
  rw [strtol, NumText.toInt]
  omega

theorem toInt_bounds (b : BitVec 64) : -2 ^ 63 ≤ b.toInt ∧ b.toInt < 2 ^ 63 :=
  ⟨BitVec.le_toInt b, BitVec.toInt_lt⟩

theorem wrap64_bounds (n : Int) : -2 ^ 63 ≤ wrap64 n ∧ wrap64 n < 2 ^ 63 :=
  toInt_bounds _

theorem foldLong_bounds {op : BinaryOp} {a b n : Int} {isBool : Bool}
    (h : foldLong op a b = some (n, isBool)) : -2 ^ 63 ≤ n ∧ n < 2 ^ 63 := by
  cases op <;> simp only [foldLong] at h
  case div | mod =>
    split at h
    · cases h
    · cases h
      exact wrap64_bounds _
  case logicalAnd | logicalOr => cases h
  all_goals
    cases h
    first
      | exact wrap64_bounds _
      | exact toInt_bounds _
      | split <;> omega

theorem unaryLong_bounds (op : UnOp) {v : Int} (h : -2 ^ 63 ≤ v ∧ v < 2 ^ 63) :
    -2 ^ 63 ≤ unaryLong op v ∧ unaryLong op v < 2 ^ 63 := by
  cases op with
  | plus => exact h
  | minus => exact wrap64_bounds _
  | complement =>
    simp only [unaryLong]
    omega
  | not =>
    simp only [unaryLong, IntArith.truth]
    split <;> omega

/-! ### One operator on literals -/

theorem optimizeExpr_literal (text : NumText) (kind : TypeKind) (isUnsigned : Bool) :
    optimizeExpr [] (.intLiteral text kind isUnsigned) = .intLiteral text kind isUnsigned := rfl

/-- The flag `result_is_bool` marks the comparisons. -/
theorem foldLong_isBool {op : BinOp} {a b n : Int} {isBool : Bool}
    (h : foldLong (binaryOpOf op) a b = some (n, isBool)) : isBool = op.test.isSome := by
  cases op <;> simp only [foldLong, binaryOpOf] at h
  case div | mod =>
    split at h
    · cases h
    · cases h
      rfl
  all_goals
    cases h
    rfl

theorem foldLong_isSome {op : BinOp} {a b : Int} (h_b : b ≠ 0) :
    ∃ n isBool, foldLong (binaryOpOf op) a b = some (n, isBool) := by
  cases op <;> simp [foldLong, binaryOpOf, h_b]

theorem foldLong_of_not_division {op : BinOp} {a b : Int} (h_div : op ≠ .div)
    (h_mod : op ≠ .mod) : ∃ n isBool, foldLong (binaryOpOf op) a b = some (n, isBool) := by
  cases op <;> simp [foldLong, binaryOpOf] at *

/-- C divides by no zero. -/
theorem divisor_ne_zero {op : BinOp} {x y z : Value} (h_op : op = .div ∨ op = .mod)
    (h_eval : evalBinary op x y = some z) : y.2 ≠ 0 := by
  intro h_zero
  rcases h_op with h_op | h_op <;>
    simp [h_op, h_zero, evalBinary, BinOp.test, BinOp.isShift, BinOp.arith] at h_eval

theorem denoted_newLiteral {kind : TypeKind} {isUnsigned : Bool} {t : IntType} {n : Int}
    (h_type : intTypeOf kind isUnsigned = some t) :
    (newLiteral n kind isUnsigned).denoted = some (t, t.convert n) := by
  simp [newLiteral, Expr.denoted, h_type, NumText.toInt]

namespace ConstExpr

/-- The optimizer makes a literal that stands for `x`, which it will read as `asLong`. -/
def Reads (e : ConstExpr) (x : Value) : Prop :=
  ∃ text kind isUnsigned, optimizeExpr [] e.toExpr = .intLiteral text kind isUnsigned ∧
    (Expr.intLiteral text kind isUnsigned).denoted = some x ∧ e.asLong = some (strtol text)

theorem Reads.of_newLiteral {e : ConstExpr} {x : Value} {n : Int} {kind : TypeKind}
    {isUnsigned : Bool} (h_optimized : optimizeExpr [] e.toExpr = newLiteral n kind isUnsigned)
    (h_long : e.asLong = some n) (h_bounds : -2 ^ 63 ≤ n ∧ n < 2 ^ 63)
    (h_denoted : (optimizeExpr [] e.toExpr).denoted = some x) : Reads e x := by
  rw [h_optimized] at h_denoted
  exact ⟨_, _, _, h_optimized, h_denoted, by rw [h_long, strtol_dec h_bounds.1 h_bounds.2]⟩

/-- What the optimizer makes of a binary operator whose operands it folded right. -/
theorem optimize_binary {op : BinOp} {l r : ConstExpr} {x y z : Value} (h_l : Reads l x)
    (h_r : Reads r y) (h_eval : evalBinary op x y = some z) :
    ∃ n kind isUnsigned, optimizeExpr [] (binary op l r).toExpr = newLiteral n kind isUnsigned ∧
      (binary op l r).asLong = some n ∧ (-2 ^ 63 ≤ n ∧ n < 2 ^ 63) ∧
      intTypeOf kind isUnsigned = some (if op.test.isSome then .int else x.1) := by
  obtain ⟨text₁, kind₁, isUnsigned₁, h_opt₁, h_denoted₁, h_long₁⟩ := h_l
  obtain ⟨text₂, kind₂, isUnsigned₂, h_opt₂, h_denoted₂, h_long₂⟩ := h_r
  have h_fold : ∃ n isBool,
      foldLong (binaryOpOf op) (strtol text₁) (strtol text₂) = some (n, isBool) := by
    by_cases h_op : op = .div ∨ op = .mod
    · apply foldLong_isSome
      intro h_zero
      have h_text : text₂.toInt = 0 := by
        rw [strtol] at h_zero
        omega
      obtain ⟨t, -, h_y⟩ := Option.map_eq_some_iff.mp h_denoted₂
      apply divisor_ne_zero h_op h_eval
      rw [← h_y, h_text, IntType.convert_zero]
    · rw [not_or] at h_op
      exact foldLong_of_not_division h_op.1 h_op.2
  obtain ⟨n, isBool, h_fold⟩ := h_fold
  have h_isBool := foldLong_isBool h_fold
  have h_long : (binary op l r).asLong = some n := by
    simp [asLong, h_long₁, h_long₂, h_fold]
  have h_node : optimizeExpr [] (binary op l r).toExpr =
      if isBool then newLiteral n .int false else newLiteral n kind₁ isUnsigned₁ := by
    have h_children : optimizeExpr [] (binary op l r).toExpr =
        optimizeNode [] (.binaryOp (binaryOpOf op) (optimizeExpr [] l.toExpr)
          (optimizeExpr [] r.toExpr) .void) := by
      simp only [optimizeExpr, optimizeChildren, toExpr]
    rw [h_children, h_opt₁, h_opt₂]
    have h_binary : foldBinary (.binaryOp (binaryOpOf op) (.intLiteral text₁ kind₁ isUnsigned₁)
          (.intLiteral text₂ kind₂ isUnsigned₂) .void) =
        some (if isBool then newLiteral n .int false else newLiteral n kind₁ isUnsigned₁) := by
      simp only [foldBinary, Expr.literal, Option.bind_eq_bind, Option.bind_some, h_fold,
        Expr.declType, Expr.isUnsigned]
      split <;> rfl
    simp [optimizeNode, h_binary]
  have h_bounds := foldLong_bounds h_fold
  rw [h_isBool] at h_node
  cases h_test : op.test.isSome with
  | true =>
    rw [h_test] at h_node
    exact ⟨n, .int, false, h_node, h_long, h_bounds, rfl⟩
  | false =>
    rw [h_test] at h_node
    obtain ⟨t, h_type, h_x⟩ := Option.map_eq_some_iff.mp h_denoted₁
    exact ⟨n, kind₁, isUnsigned₁, h_node, h_long, h_bounds, by rw [h_type, ← h_x]; rfl⟩

theorem optimize_unary (op : UnOp) {e : ConstExpr} {x : Value} (h_e : Reads e x) :
    ∃ n kind isUnsigned, optimizeExpr [] (unary op e).toExpr = newLiteral n kind isUnsigned ∧
      (unary op e).asLong = some n ∧ (-2 ^ 63 ≤ n ∧ n < 2 ^ 63) ∧
      intTypeOf kind isUnsigned = some (if op = .not then .int else x.1) := by
  obtain ⟨text, kind, isUnsigned, h_opt, h_denoted, h_long⟩ := h_e
  obtain ⟨t, h_type, h_x⟩ := Option.map_eq_some_iff.mp h_denoted
  have h_children : optimizeExpr [] (unary op e).toExpr =
      optimizeNode [] (.unaryOp (unaryOpOf op) (.intLiteral text kind isUnsigned)) := by
    rw [← h_opt]
    simp only [optimizeExpr, optimizeChildren, toExpr]
  have h_bounds := unaryLong_bounds op (strtol_bounds text)
  have h_long' : (unary op e).asLong = some (unaryLong op (strtol text)) := by
    simp [asLong, h_long]
  rw [h_children]
  cases op with
  | not =>
    refine ⟨unaryLong .not (strtol text), .int, false, ?_, h_long', h_bounds, rfl⟩
    simp [optimizeNode, foldBinary, foldLogical, foldUnary, unaryOpOf, Expr.literal, unaryLong,
      intTruth, IntArith.truth]
  | _ =>
    refine ⟨_, kind, isUnsigned, ?_, h_long', h_bounds, by rw [h_type, ← h_x]; rfl⟩
    simp [optimizeNode, foldBinary, foldLogical, foldUnary, unaryOpOf, Expr.literal, unaryLong,
      Expr.declType, Expr.isUnsigned]

/-- A literal with the reading `asLong` and the type `leftType` is C's value exactly when these
agree with C. -/
theorem operatorAgrees_iff {e : ConstExpr}
    (h_folded : ∀ x, e.c99Value = some x → ∃ n kind isUnsigned t,
      optimizeExpr [] e.toExpr = newLiteral n kind isUnsigned ∧ e.asLong = some n ∧
        intTypeOf kind isUnsigned = some t ∧ e.leftType = some t) :
    e.OperatorAgrees ↔ e.FoldsRight := by
  rw [OperatorAgrees, FoldsRight]
  refine forall_congr' fun x => imp_congr_right fun h_x => ?_
  obtain ⟨n, kind, isUnsigned, t, h_opt, h_long, h_type, h_left⟩ := h_folded x h_x
  rw [h_opt, denoted_newLiteral h_type, h_long, h_left, Option.map_some, Option.some.injEq,
    Option.some.injEq, Option.some.injEq]
  constructor
  · rintro ⟨h_same, h_value⟩
    rw [h_same, h_value]
  · intro h_same
    rw [← h_same]
    exact ⟨rfl, rfl⟩

theorem agrees_binary_iff {op : BinOp} {l r : ConstExpr}
    (h_l : ∀ x, l.c99Value = some x → Reads l x) (h_r : ∀ y, r.c99Value = some y → Reads r y) :
    (binary op l r).Agrees ↔ (binary op l r).FoldsRight := by
  apply operatorAgrees_iff
  intro z h_z
  obtain ⟨x, h_x, h_z⟩ := Option.bind_eq_some_iff.mp h_z
  obtain ⟨y, h_y, h_eval⟩ := Option.bind_eq_some_iff.mp h_z
  obtain ⟨n, kind, isUnsigned, h_opt, h_long, -, h_type⟩ :=
    optimize_binary (h_l x h_x) (h_r y h_y) h_eval
  refine ⟨n, kind, isUnsigned, _, h_opt, h_long, h_type, ?_⟩
  rw [leftType, h_x]
  split <;> rfl

theorem agrees_unary_iff {op : UnOp} {e : ConstExpr}
    (h_e : ∀ x, e.c99Value = some x → Reads e x) :
    (unary op e).Agrees ↔ (unary op e).FoldsRight := by
  apply operatorAgrees_iff
  intro z h_z
  obtain ⟨x, h_x, h_eval⟩ := Option.bind_eq_some_iff.mp h_z
  obtain ⟨n, kind, isUnsigned, h_opt, h_long, -, h_type⟩ := optimize_unary op (h_e x h_x)
  refine ⟨n, kind, isUnsigned, _, h_opt, h_long, h_type, ?_⟩
  rw [leftType, h_x]
  split <;> rfl

theorem lexed_literal {s : IntSpelling} (accepted : (lexIntLiteral s).isSome) :
    ∃ text kind isUnsigned t, (lexIntLiteral s).get accepted = .intLiteral text kind isUnsigned ∧
      text.toInt = s.value ∧ intTypeOf kind isUnsigned = some t := by
  obtain ⟨e, h_lexed⟩ := Option.isSome_iff_exists.mp accepted
  simp only [h_lexed, Option.get_some]
  simp only [lexIntLiteral] at h_lexed
  split at h_lexed
  · cases h_lexed
  · cases h_lexed
    have h_text : (if s.base = .hex then NumText.hex s.value else .dec s.value).toInt = s.value := by
      split <;> rfl
    have h_type (kind : TypeKind) (h_kind : kind ∈ [.int, .long, .longLong, .unsignedLongLong]) :
        ∃ t, intTypeOf kind s.isUnsigned = some t := by
      simp only [List.mem_cons, List.not_mem_nil, or_false] at h_kind
      rcases h_kind with h | h | h | h <;> rw [h] <;> exact ⟨_, rfl⟩
    obtain ⟨t, h_t⟩ := h_type
      (if s.longs = 2 then if s.isUnsigned then .unsignedLongLong else .longLong
      else if s.longs = 1 then .long
      else if s.isUnsigned then if s.value ≤ 0xFFFFFFFF then .int else .long
      else if s.value ≤ 2 ^ 31 - 1 then .int
      else .long) (by split_ifs <;> simp)
    exact ⟨_, _, _, t, rfl, h_text, h_t⟩

theorem agrees_literal_iff {s : IntSpelling} {accepted : (lexIntLiteral s).isSome} :
    (literal s accepted).Agrees ↔ (literal s accepted).FoldsRight := by
  obtain ⟨text, kind, isUnsigned, t, h_lexed, h_text, h_type⟩ := lexed_literal accepted
  rw [Agrees, FoldsRight]
  refine forall_congr' fun x => imp_congr_right fun h_x => ?_
  obtain ⟨t', h_find, h_eq⟩ := Option.map_eq_some_iff.mp h_x
  have h_holds : t'.Holds s.value := by simpa using List.find?_some h_find
  rw [leftType, toExpr, h_lexed, optimizeExpr_literal, Expr.denoted, h_type, h_text, ← h_eq]
  simp only [Option.map_some, Option.some.injEq, Prod.mk.injEq]
  constructor
  · intro h_same
    rw [h_same]
    exact ⟨rfl, IntType.convert_of_holds h_holds⟩
  · exact And.left

theorem reads_literal {s : IntSpelling} {accepted : (lexIntLiteral s).isSome} {x : Value}
    (h_right : (literal s accepted).FoldsRight) (h_x : (literal s accepted).c99Value = some x) :
    Reads (literal s accepted) x := by
  obtain ⟨text, kind, isUnsigned, t, h_lexed, -, -⟩ := lexed_literal accepted
  have h_denoted := h_right x h_x
  rw [toExpr, h_lexed, optimizeExpr_literal] at h_denoted
  refine ⟨text, kind, isUnsigned, by rw [toExpr, h_lexed, optimizeExpr_literal], h_denoted, ?_⟩
  rw [asLong, h_lexed]
  rfl

theorem reads_of_foldsRight (e : ConstExpr) (h_parts : ∀ p ∈ e.parts, p.FoldsRight) {x : Value}
    (h_x : e.c99Value = some x) : Reads e x := by
  induction e generalizing x with
  | literal s accepted => exact reads_literal (h_parts _ List.mem_cons_self) h_x
  | unary op e ih =>
    obtain ⟨y, h_y, h_eval⟩ := Option.bind_eq_some_iff.mp h_x
    have h_e := ih (fun p h_mem => h_parts p (List.mem_cons_of_mem _ h_mem)) h_y
    obtain ⟨n, kind, isUnsigned, h_opt, h_long, h_bounds, -⟩ := optimize_unary op h_e
    exact .of_newLiteral h_opt h_long h_bounds (h_parts _ List.mem_cons_self x h_x)
  | binary op l r ih_l ih_r =>
    obtain ⟨y, h_y, h_x'⟩ := Option.bind_eq_some_iff.mp h_x
    obtain ⟨z, h_z, h_eval⟩ := Option.bind_eq_some_iff.mp h_x'
    have h_l := ih_l (fun p h_mem =>
      h_parts p (List.mem_cons_of_mem _ (List.mem_append_left _ h_mem))) h_y
    have h_r := ih_r (fun p h_mem =>
      h_parts p (List.mem_cons_of_mem _ (List.mem_append_right _ h_mem))) h_z
    obtain ⟨n, kind, isUnsigned, h_opt, h_long, h_bounds, -⟩ := optimize_binary h_l h_r h_eval
    exact .of_newLiteral h_opt h_long h_bounds (h_parts _ List.mem_cons_self x h_x)

/-- `-1u > 0u` -/
def minusOneGreaterZero : ConstExpr :=
  binary .gt (unary .minus (literal ⟨.decimal, 1, true, 0⟩ rfl))
    (literal ⟨.decimal, 0, true, 0⟩ rfl)

end ConstExpr

end ClaudeC99
