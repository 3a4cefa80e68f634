import ClaudeC99.Lib.Effects
import ClaudeC99.Optimize.Typing

/-! Evaluation of expressions by the rules of C, on any machine, with the calls and the stores. -/

namespace ClaudeC99

open Effects (Run)

inductive Event (Place Val : Type)
  | call (name : String) (args : List Val)
  | callThrough (callee : Val) (args : List Val)
  | store (place : Place) (val : Val)
  | variadic (name : String) (type : Option CType) (args : List Val)

/-- The environment of an expression: the values and objects of a C implementation, what calls and
stores do, and what its functions return. -/
structure Machine where
  State : Type
  Place : Type
  Val : Type
  effect : Event Place Val → State → State
  reply : Event Place Val → State → Val
  /-- The values of literals and of `sizeof`, which need no evaluation. -/
  constant : Expr → Val
  object : String → Place
  string : List UInt8 → Place
  slot : Nat → Place
  temporary : Val → Place
  read : Place → State → Val
  address : Place → Val
  pointee : Val → Place
  index : Val → Val → Place
  member : Place → String → Place
  unary : UnaryOp → Val → Val
  binary : BinaryOp → Val → Val → Val
  cast : TypeKind → Bool → Option CType → Val → Val
  truth : Val → Bool
  ofTruth : Bool → Val
  /-- The conversion of an arm of `?:` to the common type of both. -/
  arm : Expr → Expr → Val → Val
  /-- The conversion to the type of the object that is assigned to. -/
  convert : Place → Val → Val
  step : IncDec → Val → Val
  aggregate : List Val → Val
  designatedMember : String → Val → Val
  designatedIndex : Nat → Val → Val

namespace Machine

variable (M : Machine)

abbrev Event : Type := ClaudeC99.Event M.Place M.Val

abbrev Run (α : Type) : Type := Effects.Run M.State M.Event α

/-- What an expression denotes; one that is no lvalue denotes a temporary. -/
structure Result where
  place : M.Place
  val : M.Val

def value (v : M.Val) : M.Run M.Result := pure ⟨M.temporary v, v⟩

def located (p : M.Place) : M.Run M.Result := do
  let s ← Run.get
  pure ⟨p, M.read p s⟩

def assign (p : M.Place) (v : M.Val) : M.Run M.Result := do
  Run.perform M.effect (.store p (M.convert p v))
  M.value (M.convert p v)

def invoke (event : M.Event) : M.Run M.Result := do
  let s ← Run.get
  Run.perform M.effect event
  M.value (M.reply event s)

end Machine

/-- Whether the right operand is evaluated after a left one of a given truth. -/
def evaluatesRight (op : BinaryOp) (truth : Bool) : Bool :=
  match op with
  | .logicalAnd => truth
  | .logicalOr => !truth
  | _ => true

def Machine.operate (M : Machine) (op : BinaryOp) (a b : M.Val) : M.Val :=
  match op with
  | .logicalAnd | .logicalOr => M.ofTruth (M.truth b)
  | _ => M.binary op a b

mutual

/-- Operands are evaluated from left to right. -/
def run (M : Machine) : Expr → M.Run M.Result
  | .intLiteral value kind isUnsigned => M.value (M.constant (.intLiteral value kind isUnsigned))
  | .charLiteral byte => M.value (M.constant (.charLiteral byte))
  | .floatLiteral text kind => M.value (M.constant (.floatLiteral text kind))
  | .sizeofType kind type => M.value (M.constant (.sizeofType kind type))
  | .sizeofExpr e => M.value (M.constant (.sizeofExpr e))
  | .stringLiteral bytes => M.located (M.string bytes)
  | .varRef name => M.located (M.object name)
  | .assignment name e => do
    let v ← run M e
    M.assign (M.object name) v.val
  | .assignmentTo target e => do
    let p ← run M target
    let v ← run M e
    M.assign p.place v.val
  | .addrOf e => do
    let p ← run M e
    M.value (M.address p.place)
  | .deref e => do
    let v ← run M e
    M.located (M.pointee v.val)
  | .arrayIndex base index => do
    let v ← run M base
    let w ← run M index
    M.located (M.index v.val w.val)
  | .memberAccess base field => do
    let p ← run M base
    M.located (M.member p.place field)
  | .arrowAccess base field => do
    let v ← run M base
    M.located (M.member (M.pointee v.val) field)
  | .unaryOp op e => do
    let v ← run M e
    M.value (M.unary op v.val)
  | .binaryOp op l r _ => do
    let v ← run M l
    if evaluatesRight op (M.truth v.val) then do
      let w ← run M r
      M.value (M.operate op v.val w.val)
    else M.value (M.ofTruth (M.truth v.val))
  | .prefixIncDec op e => do
    let p ← run M e
    M.assign p.place (M.step op p.val)
  | .postfixIncDec op e => do
    let p ← run M e
    let _ ← M.assign p.place (M.step op p.val)
    M.value p.val
  | .cast kind isUnsigned type e => do
    let v ← run M e
    M.value (M.cast kind isUnsigned type v.val)
  | .functionCall name _ args => do
    let vs ← runAll M args
    M.invoke (.call name vs)
  | .indirectCall callee args => do
    let v ← run M callee
    let vs ← runAll M args
    M.invoke (.callThrough v.val vs)
  | .conditional cond thenExpr elseExpr => do
    let v ← run M cond
    if M.truth v.val then do
      let w ← run M thenExpr
      M.value (M.arm thenExpr elseExpr w.val)
    else do
      let w ← run M elseExpr
      M.value (M.arm thenExpr elseExpr w.val)
  | .comma l r => do
    let _ ← run M l
    let w ← run M r
    M.value w.val
  | .initializerList es => do
    let vs ← runAll M es
    M.value (M.aggregate vs)
  | .designatedMember field e => do
    let v ← run M e
    M.value (M.designatedMember field v.val)
  | .designatedIndex i e => do
    let v ← run M e
    M.value (M.designatedIndex i v.val)
  | .compoundLiteral _ _ _ slot e => do
    let v ← run M e
    let _ ← M.assign (M.slot slot) v.val
    M.located (M.slot slot)
  | .vaStart ap last => do
    let v ← run M ap
    let w ← run M last
    M.invoke (.variadic "va_start" none [v.val, w.val])
  | .vaEnd ap => do
    let v ← run M ap
    M.invoke (.variadic "va_end" none [v.val])
  | .vaCopy dst src => do
    let v ← run M dst
    let w ← run M src
    M.invoke (.variadic "va_copy" none [v.val, w.val])
  | .vaArg ap type => do
    let v ← run M ap
    M.invoke (.variadic "va_arg" (some type) [v.val])

def runAll (M : Machine) : List Expr → M.Run (List M.Val)
  | [] => pure []
  | e :: es => do
    let v ← run M e
    let vs ← runAll M es
    pure (v.val :: vs)

end

section determined

variable (M : Machine)

theorem determined_value (v : M.Val) : Run.Determined M.effect (M.value v) :=
  Run.determined_pure _

theorem determined_located (p : M.Place) : Run.Determined M.effect (M.located p) :=
  Run.determined_get.bind fun _ => Run.determined_pure _

theorem determined_assign (p : M.Place) (v : M.Val) : Run.Determined M.effect (M.assign p v) :=
  (Run.determined_perform _).bind fun _ => determined_value M _

theorem determined_invoke (event : M.Event) : Run.Determined M.effect (M.invoke event) :=
  Run.determined_get.bind fun _ => (Run.determined_perform _).bind fun _ => determined_value M _

mutual

/-- An expression changes the state through its calls and stores only. -/
theorem determined_run : ∀ e : Expr, Run.Determined M.effect (run M e)
  | .intLiteral _ _ _ | .charLiteral _ | .floatLiteral _ _ | .sizeofType _ _ | .sizeofExpr _ =>
    determined_value M _
  | .stringLiteral _ | .varRef _ => determined_located M _
  | .assignment _ e => (determined_run e).bind fun _ => determined_assign M _ _
  | .assignmentTo target e =>
    (determined_run target).bind fun _ => (determined_run e).bind fun _ => determined_assign M _ _
  | .addrOf e | .unaryOp _ e | .cast _ _ _ e | .designatedMember _ e | .designatedIndex _ e =>
    (determined_run e).bind fun _ => determined_value M _
  | .deref e | .memberAccess e _ | .arrowAccess e _ =>
    (determined_run e).bind fun _ => determined_located M _
  | .arrayIndex base index =>
    (determined_run base).bind fun _ => (determined_run index).bind fun _ => determined_located M _
  | .binaryOp op l r _ => by
    refine (determined_run l).bind fun v => ?_
    split
    · exact (determined_run r).bind fun _ => determined_value M _
    · exact determined_value M _
  | .prefixIncDec _ e => (determined_run e).bind fun _ => determined_assign M _ _
  | .postfixIncDec _ e =>
    (determined_run e).bind fun _ => (determined_assign M _ _).bind fun _ => determined_value M _
  | .functionCall _ _ args => (determined_runAll args).bind fun _ => determined_invoke M _
  | .indirectCall callee args =>
    (determined_run callee).bind fun _ =>
      (determined_runAll args).bind fun _ => determined_invoke M _
  | .conditional cond thenExpr elseExpr => by
    refine (determined_run cond).bind fun v => ?_
    split
    · exact (determined_run thenExpr).bind fun _ => determined_value M _
    · exact (determined_run elseExpr).bind fun _ => determined_value M _
  | .comma l r =>
    (determined_run l).bind fun _ => (determined_run r).bind fun _ => determined_value M _
  | .initializerList es => (determined_runAll es).bind fun _ => determined_value M _
  | .compoundLiteral _ _ _ _ e =>
    (determined_run e).bind fun _ => (determined_assign M _ _).bind fun _ => determined_located M _
  | .vaStart l r | .vaCopy l r =>
    (determined_run l).bind fun _ => (determined_run r).bind fun _ => determined_invoke M _
  | .vaEnd e | .vaArg e _ => (determined_run e).bind fun _ => determined_invoke M _

theorem determined_runAll : ∀ es : List Expr, Run.Determined M.effect (runAll M es)
  | [] => Run.determined_pure _
  | e :: es =>
    (determined_run e).bind fun _ => (determined_runAll es).bind fun _ => Run.determined_pure _

end

end determined

end ClaudeC99
