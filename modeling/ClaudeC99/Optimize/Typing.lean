import ClaudeC99.Lib.CTypes
import ClaudeC99.Optimize.Folding

/-! C types of the expressions that the parser builds and of those that the optimizer makes. -/

namespace ClaudeC99

open CTypes (Ty Params Operand)

mutual

def CType.toTy : CType → Option Ty
  | .scalar .void _ _ => some .void
  | .scalar .float _ _ => some .float
  | .scalar .double _ _ => some .double
  | .scalar kind isSigned _ => (intTypeOf kind !isSigned).map .integer
  | .pointer base _ => base.toTy.map .pointer
  | .array base length _ => base.toTy.map fun t => .array t length
  | .function returnType params =>
    returnType.toTy.bind fun r => (CType.toParams params).map (.function r)
  | .record _ tag _ _ _ => some (.record tag)

def CType.toParams : List CType → Option Params
  | [] => some .nil
  | p :: ps => p.toTy.bind fun t => (CType.toParams ps).map (.cons t)

end

/-- The type named in a cast or a compound literal: a scalar is described by `decl_type`. -/
def namedType (declType : TypeKind) (isUnsigned : Bool) (fullType : Option CType) : Option Ty :=
  match declType with
  | .pointer | .array | .struct | .union => fullType.bind CType.toTy
  | kind => (CType.scalar kind (!isUnsigned) false).toTy

/-- The type of an integer literal. Code generation loads a literal whose `decl_type` was never set
as an `int`. -/
def literalType (kind : TypeKind) (isUnsigned : Bool) : Option Ty :=
  if kind = .void then some .int else (intTypeOf kind isUnsigned).map .integer

/-- The declarations in force around an expression, and C's null pointer constants: any predicate
that holds of the literals with value zero. -/
structure TypeEnv where
  varType : String → Option Ty
  fieldType : Nat → String → Option Ty
  isNullConstant : Expr → Bool
  zero_isNull : ∀ {e : Expr}, e.literal = some 0 → isNullConstant e = true

def Expr.isLvalue : Expr → Bool
  | .varRef _ | .deref _ | .arrayIndex _ _ | .arrowAccess _ _ | .stringLiteral _
  | .compoundLiteral _ _ _ _ _ => true
  | .memberAccess base _ => base.isLvalue
  | _ => false

def unaryType (op : UnaryOp) (t : Ty) : Option Ty :=
  match op with
  | .plus | .minus => t.promote
  | .tilde =>
    match t with
    | .integer s => some (.integer s.promote)
    | _ => none
  | .bang => if t.isScalar then some .int else none

def binaryType (op : BinaryOp) (a b : Operand) : Option Ty :=
  match op with
  | .mul | .div => a.type.arithmetic b.type
  | .mod | .bitAnd | .bitOr | .bitXor => a.type.integral b.type
  | .add =>
    match a.type, b.type with
    | .pointer t, .integer _ | .integer _, .pointer t => some (.pointer t)
    | s, t => s.arithmetic t
  | .sub =>
    match a.type, b.type with
    | .pointer t, .integer _ => some (.pointer t)
    | .pointer s, .pointer t => if s = t then some .long else none
    | s, t => s.arithmetic t
  | .shiftLeft | .shiftRight =>
    match a.type, b.type with
    | .integer s, .integer _ => some (.integer s.promote)
    | _, _ => none
  | .lt | .le | .gt | .ge => if a.ordered b then some .int else none
  | .eq | .ne => if a.equatable b then some .int else none
  | .logicalAnd | .logicalOr =>
    if a.type.isScalar ∧ b.type.isScalar then some .int else none

/-- The type of a call, of its callee and its arguments. -/
def callType (callee : Ty) (args : List Operand) : Option Ty :=
  match callee with
  | .pointer (.function result params) => if Operand.fit params args then some result else none
  | _ => none

def memberType (Γ : TypeEnv) (field : String) (base : Ty) : Option Ty :=
  match base with
  | .record tag => Γ.fieldType tag field
  | _ => none

def pointeeType : Ty → Option Ty
  | .pointer t => some t
  | _ => none

def indexType (a b : Ty) : Option Ty :=
  match a, b with
  | .pointer t, .integer _ | .integer _, .pointer t => some t
  | _, _ => none

def castType (target : Option Ty) (t : Ty) : Option Ty :=
  target.bind fun s => if s = .void ∨ (s.isScalar ∧ t.isScalar) then some s else none

def assignType (target : Ty) (a : Operand) : Option Ty :=
  if a.assignable target then some target else none

def addressable (e : Expr) (t : Ty) : Bool :=
  e.isLvalue ∨ t.decay ≠ t

mutual

/-- The type of an expression by the rules of C, before decay; `none` where it has none. -/
def typeOf (Γ : TypeEnv) : Expr → Option Ty
  | .intLiteral _ kind isUnsigned => literalType kind isUnsigned
  | .charLiteral _ => some .int
  | .floatLiteral _ kind =>
    match kind with
    | .float => some .float
    | .double => some .double
    | _ => none
  | .stringLiteral bytes =>
    some (.array (.integer { rank := .char, signed := true }) (bytes.length + 1))
  | .varRef name => Γ.varType name
  | .assignment name e =>
    (Γ.varType name).bind fun t => (typeOf Γ e).bind fun s =>
      assignType t ⟨s.decay, Γ.isNullConstant e⟩
  | .assignmentTo target e =>
    if target.isLvalue then
      (typeOf Γ target).bind fun t => (typeOf Γ e).bind fun s =>
        assignType t ⟨s.decay, Γ.isNullConstant e⟩
    else none
  | .addrOf e => (typeOf Γ e).bind fun t => if addressable e t then some (.pointer t) else none
  | .deref e => (typeOf Γ e).bind fun t => pointeeType t.decay
  | .arrayIndex base index =>
    (typeOf Γ base).bind fun s => (typeOf Γ index).bind fun t => indexType s.decay t.decay
  | .memberAccess base field => (typeOf Γ base).bind (memberType Γ field)
  | .arrowAccess base field =>
    (typeOf Γ base).bind fun t => (pointeeType t.decay).bind (memberType Γ field)
  | .sizeofType _ _ => some .unsignedLong
  | .sizeofExpr e => (typeOf Γ e).map fun _ => .unsignedLong
  | .unaryOp op e => (typeOf Γ e).bind fun t => unaryType op t.decay
  | .binaryOp op l r _ =>
    (typeOf Γ l).bind fun s => (typeOf Γ r).bind fun t =>
      binaryType op ⟨s.decay, Γ.isNullConstant l⟩ ⟨t.decay, Γ.isNullConstant r⟩
  | .prefixIncDec _ e | .postfixIncDec _ e =>
    (typeOf Γ e).bind fun t => if e.isLvalue ∧ t.isScalar then some t else none
  | .cast declType isUnsigned fullType e =>
    (typeOf Γ e).bind fun t => castType (namedType declType isUnsigned fullType) t.decay
  | .functionCall name _ args =>
    (Γ.varType name).bind fun t => (argTypes Γ args).bind (callType t.decay)
  | .indirectCall callee args =>
    (typeOf Γ callee).bind fun t => (argTypes Γ args).bind (callType t.decay)
  | .conditional cond thenExpr elseExpr =>
    (typeOf Γ cond).bind fun c => (typeOf Γ thenExpr).bind fun s => (typeOf Γ elseExpr).bind fun t =>
      if c.decay.isScalar then
        Operand.merge ⟨s.decay, Γ.isNullConstant thenExpr⟩ ⟨t.decay, Γ.isNullConstant elseExpr⟩
      else none
  | .comma l r => (typeOf Γ l).bind fun _ => (typeOf Γ r).map Ty.decay
  | .compoundLiteral declType fullType isUnsigned _ _ => namedType declType isUnsigned fullType
  | .vaStart ap last => (typeOf Γ ap).bind fun _ => (typeOf Γ last).map fun _ => .void
  | .vaEnd ap => (typeOf Γ ap).map fun _ => .void
  | .vaCopy dst src => (typeOf Γ dst).bind fun _ => (typeOf Γ src).map fun _ => .void
  | .vaArg ap type => (typeOf Γ ap).bind fun _ => type.toTy
  | .initializerList _ | .designatedMember _ _ | .designatedIndex _ _ => none

def argTypes (Γ : TypeEnv) : List Expr → Option (List Operand)
  | [] => some []
  | e :: es =>
    (typeOf Γ e).bind fun t => (argTypes Γ es).map (⟨t.decay, Γ.isNullConstant e⟩ :: ·)

end

/-- The expressions that a node is built from. -/
def Expr.children : Expr → List Expr
  | .intLiteral _ _ _ | .charLiteral _ | .floatLiteral _ _ | .stringLiteral _ | .varRef _
  | .sizeofType _ _ => []
  | .assignment _ e | .addrOf e | .deref e | .memberAccess e _ | .arrowAccess e _ | .sizeofExpr e
  | .unaryOp _ e | .prefixIncDec _ e | .postfixIncDec _ e | .cast _ _ _ e
  | .designatedMember _ e | .designatedIndex _ e | .compoundLiteral _ _ _ _ e | .vaEnd e
  | .vaArg e _ => [e]
  | .assignmentTo l r | .arrayIndex l r | .binaryOp _ l r _ | .comma l r | .vaStart l r
  | .vaCopy l r => [l, r]
  | .conditional c t e => [c, t, e]
  | .functionCall _ _ args => args
  | .indirectCall callee args => callee :: args
  | .initializerList es => es

/-- An expression and what it is built from, at every depth. -/
inductive Expr.IsPart : Expr → Expr → Prop
  | refl (e : Expr) : IsPart e e
  | child {p c e : Expr} (h_child : c ∈ e.children) (h_part : IsPart p c) : IsPart p e

theorem Expr.IsPart.trans_child {c p e : Expr} (h_part : p.IsPart e) (h_child : c ∈ p.children) :
    c.IsPart e := by
  induction h_part with
  | refl => exact .child h_child (.refl c)
  | child h_mem _ ih => exact .child h_mem ih

theorem Expr.sizeOf_child {c e : Expr} (h_child : c ∈ e.children) : sizeOf c < sizeOf e := by
  cases e <;> simp only [children, List.mem_cons, List.not_mem_nil, or_false] at h_child
  case functionCall | initializerList =>
    have h_mem := List.sizeOf_lt_of_mem h_child
    simp
    omega
  case indirectCall =>
    rcases h_child with h_callee | h_arg
    · simp [h_callee]
      omega
    · have h_mem := List.sizeOf_lt_of_mem h_arg
      simp
      omega
  case conditional =>
    rcases h_child with h_child | h_child | h_child <;> simp [h_child] <;> omega
  case assignmentTo | arrayIndex | binaryOp | comma | vaStart | vaCopy =>
    rcases h_child with h_child | h_child <;> simp [h_child] <;> omega
  all_goals
    simp [h_child]
    try omega

/-- Induction over expressions by their children. -/
theorem Expr.induction_children {motive : Expr → Prop}
    (h_node : ∀ e, (∀ c ∈ e.children, motive c) → motive e) : ∀ e, motive e := fun e =>
  h_node e fun c h_child =>
    have := Expr.sizeOf_child h_child
    Expr.induction_children h_node c
termination_by e => sizeOf e

theorem optimizeExprs_eq_map (table : ConstTable) (es : List Expr) :
    optimizeExprs table es = es.map (optimizeExpr table) := by
  induction es with
  | nil => rfl
  | cons e es ih => simp only [optimizeExprs, List.map_cons, ih, optimizeExpr]

end ClaudeC99
