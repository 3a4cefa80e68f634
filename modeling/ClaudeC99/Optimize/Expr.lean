import ClaudeC99.HostLong

/-! The expression rewrites of the AST optimizer. -/

namespace ClaudeC99

/-- What the parser and the optimizer leave in `decl_type`; `void` where nothing sets it. -/
def Expr.declType : Expr → TypeKind
  | .intLiteral _ k _ | .floatLiteral _ k | .functionCall _ k _ | .cast k _ _ _
  | .binaryOp _ _ _ k | .sizeofType k _ | .compoundLiteral k _ _ _ _ => k
  | .charLiteral _ => .int
  | .stringLiteral _ => .array
  | .vaArg _ t => t.kind
  | _ => .void

def Expr.isUnsigned : Expr → Bool
  | .intLiteral _ _ u | .cast _ u _ _ | .compoundLiteral _ _ u _ _ => u
  | _ => false

/-- The value of an `AST_INT_LITERAL` node. -/
def Expr.literal : Expr → Option Int
  | .intLiteral value _ _ => some (strtol value)
  | _ => none

def newLiteral (value : Int) (declType : TypeKind) (isUnsigned : Bool) : Expr :=
  .intLiteral (.dec value) declType isUnsigned

structure ConstEntry where
  name : String
  value : Int
  declType : TypeKind
  isUnsigned : Bool
  deriving DecidableEq, Repr

/-- `g_const_table`, innermost entry first. -/
abbrev ConstTable := List ConstEntry

def constPropMax : Nat := 64

def isScalarIntType : TypeKind → Bool
  | .bool | .char | .short | .int | .long | .longLong | .unsignedLongLong => true
  | _ => false

def constPropLookup (table : ConstTable) (name : String) : Option ConstEntry :=
  table.find? fun e => e.name = name

def castValueSafe (val : Int) (target : TypeKind) (targetUnsigned : Bool) : Bool :=
  match target with
  | .bool => val = 0 ∨ val = 1
  | .char => if targetUnsigned then 0 ≤ val ∧ val ≤ 255 else -128 ≤ val ∧ val ≤ 127
  | .short => if targetUnsigned then 0 ≤ val ∧ val ≤ 65535 else -32768 ≤ val ∧ val ≤ 32767
  | .int =>
    if targetUnsigned then 0 ≤ val ∧ val ≤ 4294967295 else -2147483648 ≤ val ∧ val ≤ 2147483647
  | .long | .longLong => if targetUnsigned then 0 ≤ val else true
  | .unsignedLongLong => 0 ≤ val
  | _ => false

def sizeofScalarSize : TypeKind → Nat
  | .bool | .char => 1
  | .short => 2
  | .long | .longLong | .unsignedLongLong | .pointer | .double => 8
  | _ => 4

def makeSizeofLiteral (size : Nat) : Expr := newLiteral size .long true

/-- A binary operator on two `long`s, with the flag `result_is_bool`. Where `long` overflows the
result wraps, and a shift count is taken modulo 64, as the host machine does. -/
def foldLong (op : BinaryOp) (l r : Int) : Option (Int × Bool) :=
  let lhs := BitVec.ofInt 64 l
  let rhs := BitVec.ofInt 64 r
  let truth (b : Bool) : Int := if b then 1 else 0
  match op with
  | .add => some (wrap64 (l + r), false)
  | .sub => some (wrap64 (l - r), false)
  | .mul => some (wrap64 (l * r), false)
  | .div => if r = 0 then none else some (wrap64 (l.tdiv r), false)
  | .mod => if r = 0 then none else some (wrap64 (l.tmod r), false)
  | .bitAnd => some ((lhs &&& rhs).toInt, false)
  | .bitOr => some ((lhs ||| rhs).toInt, false)
  | .bitXor => some ((lhs ^^^ rhs).toInt, false)
  | .shiftLeft => some ((lhs <<< (rhs.toNat % 64)).toInt, false)
  | .shiftRight => some ((lhs.sshiftRight (rhs.toNat % 64)).toInt, false)
  | .lt => some (truth (l < r), true)
  | .le => some (truth (l ≤ r), true)
  | .gt => some (truth (l > r), true)
  | .ge => some (truth (l ≥ r), true)
  | .eq => some (truth (l = r), true)
  | .ne => some (truth (l ≠ r), true)
  | .logicalAnd | .logicalOr => none

/-- Constant integer binary folding. -/
def foldBinary : Expr → Option Expr
  | .binaryOp op l r _ => do
    let lval ← l.literal
    let rval ← r.literal
    let (result, isBool) ← foldLong op lval rval
    if isBool then newLiteral result .int false else newLiteral result l.declType l.isUnsigned
  | _ => none

def intTruth (b : Bool) : Expr := newLiteral (if b then 1 else 0) .int false

/-- Logical short-circuit folding. -/
def foldLogical : Expr → Option Expr
  | .binaryOp .logicalAnd l r _ => do
    let lval ← l.literal
    if lval = 0 then intTruth false else r.literal.map fun rval => intTruth (rval ≠ 0)
  | .binaryOp .logicalOr l r _ => do
    let lval ← l.literal
    if lval ≠ 0 then intTruth true else r.literal.map fun rval => intTruth (rval ≠ 0)
  | _ => none

/-- Constant unary folding. -/
def foldUnary : Expr → Option Expr
  | .unaryOp op e => do
    let val ← e.literal
    match op with
    | .minus => newLiteral (wrap64 (-val)) e.declType e.isUnsigned
    | .plus => newLiteral val e.declType e.isUnsigned
    | .bang => intTruth (val = 0)
    | .tilde => newLiteral (-val - 1) e.declType e.isUnsigned
  | _ => none

/-- `!!x` becomes `x != 0`. -/
def foldDoubleNot : Expr → Option Expr
  | .unaryOp .bang (.unaryOp .bang x) =>
    if x.literal.isNone then some (.binaryOp .ne x (newLiteral 0 .int false) .int) else none
  | _ => none

/-- `-(-x)` becomes `x`. -/
def foldDoubleNegation : Expr → Option Expr
  | .unaryOp .minus (.unaryOp .minus x) => if x.literal.isNone then some x else none
  | _ => none

/-- Identity rules: the result is one of the operands. -/
def foldIdentity : Expr → Option Expr
  | .binaryOp op l r _ =>
    match op with
    | .add => if r.literal = some 0 then some l else if l.literal = some 0 then some r else none
    | .sub => if r.literal = some 0 then some l else none
    | .mul => if r.literal = some 1 then some l else if l.literal = some 1 then some r else none
    | .div => if r.literal = some 1 then some l else none
    | .bitOr => if r.literal = some 0 then some l else if l.literal = some 0 then some r else none
    | .bitAnd =>
      if r.literal = some (-1) then some l else if l.literal = some (-1) then some r else none
    | _ => none
  | _ => none

def bothSameVar : Expr → Expr → Bool
  | .varRef a, .varRef b => a = b
  | _, _ => false

def zeroLike (e : Expr) : Expr := newLiteral 0 e.declType e.isUnsigned

/-- Zero rules: both operands are dropped. -/
def foldZero : Expr → Option Expr
  | .binaryOp op l r _ =>
    match op with
    | .mul =>
      if r.literal = some 0 then some (zeroLike l)
      else if l.literal = some 0 then some (zeroLike r) else none
    | .div => if l.literal = some 0 then some (zeroLike r) else none
    | .bitAnd =>
      if r.literal = some 0 then some (zeroLike l)
      else if l.literal = some 0 then some (zeroLike r) else none
    | .sub | .bitXor => if bothSameVar l r then some (zeroLike l) else none
    | _ => none
  | _ => none

/-- The exponent of a literal that is a power of two and greater than one. -/
def powerOfTwo (e : Expr) : Option Nat :=
  match e.literal with
  | some v => if 1 < v ∧ v = 2 ^ v.toNat.log2 then some v.toNat.log2 else none
  | none => none

/-- Strength reduction. -/
def reduceStrength : Expr → Option Expr
  | .binaryOp .mul l r k =>
    match powerOfTwo r, powerOfTwo l with
    | some n, _ => some (.binaryOp .shiftLeft l (newLiteral n .int false) k)
    | none, some n => some (.binaryOp .shiftLeft r (newLiteral n .int false) k)
    | none, none => none
  | .binaryOp .div l r k =>
    match powerOfTwo r with
    | some n =>
      if l.isUnsigned ∨ l.literal.any fun v => decide (0 ≤ v) then
        some (.binaryOp .shiftRight l (newLiteral n .int false) k)
      else none
    | none => none
  | _ => none

/-- Logical simplification with a literal on the right. -/
def simplifyLogical : Expr → Option Expr
  | .binaryOp .logicalAnd l r _ => r.literal.map fun v =>
    if v = 0 then intTruth false else .binaryOp .ne l (newLiteral 0 .int false) .int
  | .binaryOp .logicalOr l r _ => r.literal.map fun v =>
    if v ≠ 0 then intTruth true else .binaryOp .ne l r .int
  | _ => none

def foldConditional : Expr → Option Expr
  | .conditional c t e => c.literal.map fun v => if v ≠ 0 then t else e
  | _ => none

def foldSizeofType : Expr → Option Expr
  | .sizeofType declType fullType =>
    match declType, fullType with
    | .struct, some t | .union, some t | .array, some t => some (makeSizeofLiteral t.size)
    | k, _ => some (makeSizeofLiteral (sizeofScalarSize k))
  | _ => none

def foldSizeofExpr : Expr → Option Expr
  | .sizeofExpr (.stringLiteral bytes) => some (makeSizeofLiteral (bytes.length + 1))
  | .sizeofExpr (.intLiteral _ k _) => some (makeSizeofLiteral (sizeofScalarSize k))
  | .sizeofExpr (.charLiteral _) => some (makeSizeofLiteral 4)
  | _ => none

def foldCast : Expr → Option Expr
  | .cast declType isUnsigned _ e => do
    let val ← e.literal
    if isScalarIntType declType ∧ castValueSafe val declType isUnsigned then
      newLiteral val declType isUnsigned
    else none
  | _ => none

/-- Const propagation. -/
def propagateConst (table : ConstTable) : Expr → Option Expr
  | .varRef name => (constPropLookup table name).map fun e =>
    newLiteral e.value e.declType e.isUnsigned
  | _ => none

/-- What `optimize_expr` does with a node whose children it has optimized: the first rule that
fires returns. -/
def optimizeNode (table : ConstTable) (e : Expr) : Expr :=
  (foldBinary e <|> foldLogical e <|> foldUnary e <|> foldDoubleNot e <|> foldDoubleNegation e <|>
    foldIdentity e <|> foldZero e <|> reduceStrength e <|> simplifyLogical e <|>
    foldConditional e <|> foldSizeofType e <|> foldSizeofExpr e <|> foldCast e <|>
    propagateConst table e).getD e

mutual

/-- The recursion of `optimize_expr` into the children of a node. -/
def optimizeChildren (table : ConstTable) : Expr → Expr
  | .intLiteral v k u => .intLiteral v k u
  | .charLiteral b => .charLiteral b
  | .floatLiteral t k => .floatLiteral t k
  | .stringLiteral b => .stringLiteral b
  | .varRef n => .varRef n
  | .sizeofType k t => .sizeofType k t
  | .assignment n e => .assignment n (optimizeNode table (optimizeChildren table e))
  | .assignmentTo t e =>
    .assignmentTo (optimizeNode table (optimizeChildren table t))
      (optimizeNode table (optimizeChildren table e))
  | .addrOf e => .addrOf (optimizeNode table (optimizeChildren table e))
  | .deref e => .deref (optimizeNode table (optimizeChildren table e))
  | .arrayIndex b i =>
    .arrayIndex (optimizeNode table (optimizeChildren table b))
      (optimizeNode table (optimizeChildren table i))
  | .memberAccess b f => .memberAccess (optimizeNode table (optimizeChildren table b)) f
  | .arrowAccess b f => .arrowAccess (optimizeNode table (optimizeChildren table b)) f
  | .sizeofExpr e => .sizeofExpr (optimizeNode table (optimizeChildren table e))
  | .unaryOp op e => .unaryOp op (optimizeNode table (optimizeChildren table e))
  | .binaryOp op l r k =>
    .binaryOp op (optimizeNode table (optimizeChildren table l))
      (optimizeNode table (optimizeChildren table r)) k
  | .prefixIncDec op e => .prefixIncDec op (optimizeNode table (optimizeChildren table e))
  | .postfixIncDec op e => .postfixIncDec op (optimizeNode table (optimizeChildren table e))
  | .cast k u t e => .cast k u t (optimizeNode table (optimizeChildren table e))
  | .functionCall n k args => .functionCall n k (optimizeExprs table args)
  | .indirectCall c args =>
    .indirectCall (optimizeNode table (optimizeChildren table c)) (optimizeExprs table args)
  | .conditional c t e =>
    .conditional (optimizeNode table (optimizeChildren table c))
      (optimizeNode table (optimizeChildren table t)) (optimizeNode table (optimizeChildren table e))
  | .comma l r =>
    .comma (optimizeNode table (optimizeChildren table l))
      (optimizeNode table (optimizeChildren table r))
  | .initializerList es => .initializerList (optimizeExprs table es)
  | .designatedMember f e => .designatedMember f (optimizeNode table (optimizeChildren table e))
  | .designatedIndex i e => .designatedIndex i (optimizeNode table (optimizeChildren table e))
  | .compoundLiteral k t u s e =>
    .compoundLiteral k t u s (optimizeNode table (optimizeChildren table e))
  | .vaStart a l =>
    .vaStart (optimizeNode table (optimizeChildren table a))
      (optimizeNode table (optimizeChildren table l))
  | .vaEnd a => .vaEnd (optimizeNode table (optimizeChildren table a))
  | .vaCopy d s =>
    .vaCopy (optimizeNode table (optimizeChildren table d))
      (optimizeNode table (optimizeChildren table s))
  | .vaArg a t => .vaArg (optimizeNode table (optimizeChildren table a)) t

def optimizeExprs (table : ConstTable) : List Expr → List Expr
  | [] => []
  | e :: es => optimizeNode table (optimizeChildren table e) :: optimizeExprs table es

end

def optimizeExpr (table : ConstTable) (e : Expr) : Expr :=
  optimizeNode table (optimizeChildren table e)

end ClaudeC99
