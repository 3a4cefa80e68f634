import ClaudeC99.Codegen.Function
import ClaudeC99.Lib.StateExcept
import ClaudeC99.Optimize.TypeKeeping

/-! The lvalues in a function body, before and after optimization. -/

namespace ClaudeC99

open StateExcept

mutual

/-- The operands of `&`, `++` and `--` and the targets of assignments. -/
def Expr.lvalues : Expr → List Expr
  | .assignment name e => .varRef name :: e.lvalues
  | .assignmentTo target e => target :: (target.lvalues ++ e.lvalues)
  | .addrOf e | .prefixIncDec _ e | .postfixIncDec _ e => e :: e.lvalues
  | .intLiteral _ _ _ | .charLiteral _ | .floatLiteral _ _ | .stringLiteral _ | .varRef _
  | .sizeofType _ _ => []
  | .deref e | .memberAccess e _ | .arrowAccess e _ | .sizeofExpr e | .unaryOp _ e | .cast _ _ _ e
  | .designatedMember _ e | .designatedIndex _ e | .compoundLiteral _ _ _ _ e | .vaEnd e
  | .vaArg e _ => e.lvalues
  | .arrayIndex l r | .binaryOp _ l r _ | .comma l r | .vaStart l r | .vaCopy l r =>
    l.lvalues ++ r.lvalues
  | .functionCall _ _ args => Expr.lvaluesList args
  | .indirectCall c args => c.lvalues ++ Expr.lvaluesList args
  | .conditional c t e => c.lvalues ++ (t.lvalues ++ e.lvalues)
  | .initializerList es => Expr.lvaluesList es

def Expr.lvaluesList : List Expr → List Expr
  | [] => []
  | e :: es => e.lvalues ++ Expr.lvaluesList es

end

def Expr.lvaluesOption (e : Option Expr) : List Expr := e.elim [] Expr.lvalues

mutual

def Stmt.lvalues : Stmt → List Expr
  | .declaration _ value => Expr.lvaluesOption value
  | .declList stmts | .block stmts => Stmt.lvaluesList stmts
  | .returnStmt value => Expr.lvaluesOption value
  | .exprStmt value => value.lvalues
  | .ifStmt cond thenBody elseBody =>
    cond.lvalues ++ (thenBody.lvalues ++ Stmt.lvaluesOption elseBody)
  | .whileStmt cond body | .switchStmt cond body => cond.lvalues ++ body.lvalues
  | .doWhileStmt body cond => body.lvalues ++ cond.lvalues
  | .forStmt init cond update body =>
    Stmt.lvaluesOption init ++
      (Expr.lvaluesOption cond ++ (Expr.lvaluesOption update ++ body.lvalues))
  | .labelStmt _ body | .caseSection _ body | .defaultSection body => body.lvalues
  | .breakStmt | .continueStmt | .gotoStmt _ | .typedefDecl _ => []

def Stmt.lvaluesOption : Option Stmt → List Expr
  | none => []
  | some s => s.lvalues

def Stmt.lvaluesList : List Stmt → List Expr
  | [] => []
  | s :: ss => s.lvalues ++ Stmt.lvaluesList ss

end

/-- An lvalue before optimization, with the table at its place. There is none for a name that is no
node of the tree. -/
structure LvalueSite where
  table : Option ConstTable
  operand : Expr

def LvalueSite.after (p : LvalueSite) : Expr :=
  p.table.elim p.operand fun table => optimizeExpr table p.operand

/-- The positions in an expression that does not become a literal. -/
def alive (table : ConstTable) (e : Expr) (ps : List LvalueSite) : List LvalueSite :=
  if (optimizeExpr table e).literal.isSome then [] else ps

mutual

/-- The lvalues of an expression that its optimization keeps. -/
def positions (table : ConstTable) : Expr → List LvalueSite
  | .assignment name e => ⟨none, .varRef name⟩ :: alive table e (positions table e)
  | .assignmentTo target e =>
    ⟨some table, target⟩ ::
      (alive table target (positions table target) ++ alive table e (positions table e))
  | .addrOf e | .prefixIncDec _ e | .postfixIncDec _ e =>
    ⟨some table, e⟩ :: alive table e (positions table e)
  | .intLiteral _ _ _ | .charLiteral _ | .floatLiteral _ _ | .stringLiteral _ | .varRef _
  | .sizeofType _ _ => []
  | .deref e | .memberAccess e _ | .arrowAccess e _ | .sizeofExpr e | .unaryOp _ e | .cast _ _ _ e
  | .designatedMember _ e | .designatedIndex _ e | .compoundLiteral _ _ _ _ e | .vaEnd e
  | .vaArg e _ => alive table e (positions table e)
  | .arrayIndex l r | .binaryOp _ l r _ | .comma l r | .vaStart l r | .vaCopy l r =>
    alive table l (positions table l) ++ alive table r (positions table r)
  | .functionCall _ _ args => positionsList table args
  | .indirectCall c args => alive table c (positions table c) ++ positionsList table args
  | .conditional c t e =>
    match (optimizeExpr table c).literal with
    | some v =>
      if v ≠ 0 then alive table t (positions table t) else alive table e (positions table e)
    | none =>
      alive table c (positions table c) ++
        (alive table t (positions table t) ++ alive table e (positions table e))
  | .initializerList es => positionsList table es

def positionsList (table : ConstTable) : List Expr → List LvalueSite
  | [] => []
  | e :: es => alive table e (positions table e) ++ positionsList table es

end

def exprPositions (table : ConstTable) (e : Expr) : List LvalueSite :=
  alive table e (positions table e)

def optionPositions (table : ConstTable) (e : Option Expr) : List LvalueSite :=
  e.elim [] (exprPositions table)

/-- In the header of a `for`, an expression stays even where its condition is a literal. -/
def childPositions (table : ConstTable) : Expr → List LvalueSite
  | .conditional c t e => exprPositions table c ++ (exprPositions table t ++ exprPositions table e)
  | e => positions table e

def listedPositions (table : ConstTable) : Stmt → List LvalueSite
  | .declaration _ value => optionPositions table value
  | s => s.lvalues.map (⟨none, ·⟩)

mutual

/-- The lvalues of a statement that its optimization keeps. -/
def Stmt.positions (table : ConstTable) : Stmt → List LvalueSite
  | .block stmts => blockPositions table false stmts
  | .ifStmt cond thenBody elseBody =>
    match (optimizeExpr table cond).literal with
    | some v =>
      if v ≠ 0 then thenBody.positions table
      else elsePositions (constsAfter table thenBody) elseBody
    | none =>
      exprPositions table cond ++
        (thenBody.positions table ++ elsePositions (constsAfter table thenBody) elseBody)
  | .whileStmt cond body =>
    if (optimizeExpr table cond).literal = some 0 then []
    else exprPositions table cond ++ body.positions table
  | .doWhileStmt body cond =>
    body.positions table ++ exprPositions (constsAfter table body) cond
  | .forStmt init cond update body =>
    let table₁ := constsAfterOption table init
    if (cond.map (optimizeExpr table₁)).bind Expr.literal = some 0 then initPositions table init
    else
      initPositions table init ++ (optionPositions table₁ cond ++
        (optionPositions table₁ update ++ body.positions table₁))
  | .switchStmt value body => exprPositions table value ++ body.positions table
  | .returnStmt value | .declaration _ value => optionPositions table value
  | .exprStmt value => exprPositions table value
  | .declList decls => decls.flatMap (listedPositions table)
  | .labelStmt _ body | .caseSection _ body | .defaultSection body => body.positions table
  | .breakStmt | .continueStmt | .gotoStmt _ | .typedefDecl _ => []

def elsePositions (table : ConstTable) : Option Stmt → List LvalueSite
  | none => []
  | some s => s.positions table

def initPositions (table : ConstTable) : Option Stmt → List LvalueSite
  | none => []
  | some (.exprStmt value) => childPositions table value
  | some s => s.positions table

def blockPositions (table : ConstTable) (dead : Bool) : List Stmt → List LvalueSite
  | [] => []
  | s :: rest =>
    if dead ∧ ¬ isLabeled s then blockPositions table true rest
    else
      s.positions table ++
        blockPositions (constsAfter table s) (isTerminalStmt (optimizeStmt table s).1) rest

end

/-- The variable that an lvalue is, or is a part of. -/
def Expr.root : Expr → Option String
  | .varRef name => some name
  | .memberAccess base _ | .arrayIndex base _ => base.root
  | _ => none

/-- What the parser takes for an operand of `&` or the target of an assignment. -/
def Expr.lvalueForm : Expr → Bool
  | .varRef _ | .deref _ | .arrayIndex _ _ | .memberAccess _ _ | .arrowAccess _ _
  | .compoundLiteral _ _ _ _ _ => true
  | _ => false

/-- An lvalue and the same lvalue with its subscripts and bases optimized. -/
inductive SameForm : Expr → Expr → Prop
  | refl (e) : SameForm e e
  | deref (table e) : SameForm (.deref e) (.deref (optimizeExpr table e))
  | arrayIndex (table base index) : SameForm (.arrayIndex base index)
      (.arrayIndex (optimizeExpr table base) (optimizeExpr table index))
  | memberAccess (table base field) : SameForm (.memberAccess base field)
      (.memberAccess (optimizeExpr table base) field)
  | arrowAccess (table base field) : SameForm (.arrowAccess base field)
      (.arrowAccess (optimizeExpr table base) field)
  | compoundLiteral (table k t u slot e) : SameForm (.compoundLiteral k t u slot e)
      (.compoundLiteral k t u slot (optimizeExpr table e))

/-- The optimizer left an lvalue what it is: of the same form, in the same variable. -/
structure LvalueKept (before after : Expr) : Prop where
  form : SameForm before after
  root : ∀ name, before.root = some name → after.root = some name

/-- The table has an entry for the variable of the lvalue. -/
def LvalueSite.recorded (p : LvalueSite) : Prop :=
  ∃ table name entry, p.table = some table ∧ p.operand.root = some name ∧
    constPropLookup table name = some entry

section rules

def rewrites (table : ConstTable) : List (Expr → Option Expr) :=
  [foldBinary, foldLogical, foldUnary, foldDoubleNot, foldDoubleNegation, foldIdentity, foldZero,
    reduceStrength, simplifyLogical, foldConditional, foldSizeofType, foldSizeofExpr, foldCast,
    propagateConst table]

theorem optimizeNode_eq (table : ConstTable) (e : Expr) : optimizeNode table e =
    ((rewrites table).foldr (fun rule rest => rule e <|> rest) none).getD e := by
  have last : (propagateConst table e <|> none) = propagateConst table e := by
    cases propagateConst table e <;> rfl
  simp only [rewrites, List.foldr_cons, List.foldr_nil, last]
  rfl

theorem rule_of_foldr {rules : List (Expr → Option Expr)} {e e' : Expr}
    (fires : rules.foldr (fun rule rest => rule e <|> rest) none = some e') :
    ∃ rule ∈ rules, rule e = some e' := by
  induction rules with
  | nil => cases fires
  | cons rule rest ih =>
    rw [List.foldr_cons] at fires
    cases first : rule e with
    | some x =>
      rw [first] at fires
      cases fires
      exact ⟨rule, List.mem_cons_self, first⟩
    | none =>
      rw [first] at fires
      obtain ⟨other, member, result⟩ := ih fires
      exact ⟨other, List.mem_cons_of_mem _ member, result⟩

/-- A node stays as it is, or one of the rules gives the new one. -/
theorem optimizeNode_cases (table : ConstTable) (e : Expr) : optimizeNode table e = e ∨
    ∃ rule ∈ rewrites table, rule e = some (optimizeNode table e) := by
  rw [optimizeNode_eq]
  cases fires : (rewrites table).foldr (fun rule rest => rule e <|> rest) none with
  | none => exact .inl rfl
  | some e' => exact .inr (rule_of_foldr fires)

/-- A rule makes a literal, or it keeps the lvalues. -/
def KeepsLvalues (e e' : Expr) : Prop := e'.literal.isSome = true ∨ e'.lvalues = e.lvalues

theorem lvalues_of_literal {e : Expr} {v : Int} (literal : e.literal = some v) : e.lvalues = [] := by
  cases e <;> first | rfl | cases literal

theorem keeps_foldBinary {e e' : Expr} (h : foldBinary e = some e') : KeepsLvalues e e' := by
  unfold foldBinary at h
  split at h
  · simp only [bind, Option.bind_eq_some_iff] at h
    obtain ⟨_, _, _, _, ⟨_, isBool⟩, _, h⟩ := h
    cases isBool <;> cases h <;> exact .inl rfl
  · cases h

theorem keeps_foldLogical {e e' : Expr} (h : foldLogical e = some e') : KeepsLvalues e e' := by
  unfold foldLogical at h
  split at h
  · simp only [bind, Option.bind_eq_some_iff] at h
    obtain ⟨v, _, h⟩ := h
    split at h
    · cases h; exact .inl rfl
    · obtain ⟨_, _, rfl⟩ := Option.map_eq_some_iff.mp h
      exact .inl rfl
  · simp only [bind, Option.bind_eq_some_iff] at h
    obtain ⟨v, _, h⟩ := h
    split at h
    · cases h; exact .inl rfl
    · obtain ⟨_, _, rfl⟩ := Option.map_eq_some_iff.mp h
      exact .inl rfl
  · cases h

theorem keeps_foldUnary {e e' : Expr} (h : foldUnary e = some e') : KeepsLvalues e e' := by
  unfold foldUnary at h
  split at h
  · simp only [bind, Option.bind_eq_some_iff] at h
    obtain ⟨v, _, h⟩ := h
    split at h <;> cases h <;> exact .inl rfl
  · cases h

theorem keeps_foldDoubleNot {e e' : Expr} (h : foldDoubleNot e = some e') : KeepsLvalues e e' := by
  unfold foldDoubleNot at h
  split at h
  · split at h
    · cases h
      exact .inr (by simp [Expr.lvalues, newLiteral])
    · cases h
  · cases h

theorem keeps_foldDoubleNegation {e e' : Expr} (h : foldDoubleNegation e = some e') :
    KeepsLvalues e e' := by
  unfold foldDoubleNegation at h
  split at h
  · split at h
    · cases h
      exact .inr rfl
    · cases h
  · cases h

theorem keeps_left {op : BinaryOp} {l r : Expr} {k : TypeKind} {v : Int} (literal : r.literal = some v) :
    KeepsLvalues (.binaryOp op l r k) l := .inr (by simp [Expr.lvalues, lvalues_of_literal literal])

theorem keeps_right {op : BinaryOp} {l r : Expr} {k : TypeKind} {v : Int} (literal : l.literal = some v) :
    KeepsLvalues (.binaryOp op l r k) r := .inr (by simp [Expr.lvalues, lvalues_of_literal literal])

theorem keeps_foldIdentity {e e' : Expr} (h : foldIdentity e = some e') : KeepsLvalues e e' := by
  unfold foldIdentity at h
  split at h
  · split at h
    all_goals
      repeat' split at h
      all_goals cases h
      all_goals first | exact keeps_left ‹_› | exact keeps_right ‹_›
  · cases h

theorem keeps_foldZero {e e' : Expr} (h : foldZero e = some e') : KeepsLvalues e e' := by
  unfold foldZero at h
  split at h
  · split at h
    all_goals
      repeat' split at h
      all_goals cases h
      all_goals exact .inl rfl
  · cases h

theorem literal_of_powerOfTwo {e : Expr} {n : Nat} (h : powerOfTwo e = some n) :
    ∃ v, e.literal = some v := by
  unfold powerOfTwo at h
  split at h
  · exact ⟨_, ‹_›⟩
  · cases h

theorem keeps_reduceStrength {e e' : Expr} (h : reduceStrength e = some e') : KeepsLvalues e e' := by
  unfold reduceStrength at h
  split at h
  · split at h <;> cases h
    · obtain ⟨v, literal⟩ := literal_of_powerOfTwo ‹_›
      exact .inr (by simp [Expr.lvalues, lvalues_of_literal literal, newLiteral])
    · obtain ⟨v, literal⟩ := literal_of_powerOfTwo ‹powerOfTwo _ = some _›
      exact .inr (by simp [Expr.lvalues, lvalues_of_literal literal, newLiteral])
  · split at h
    · split at h <;> cases h
      obtain ⟨v, literal⟩ := literal_of_powerOfTwo ‹_›
      exact .inr (by simp [Expr.lvalues, lvalues_of_literal literal, newLiteral])
    · cases h
  · cases h

theorem keeps_simplifyLogical {e e' : Expr} (h : simplifyLogical e = some e') : KeepsLvalues e e' := by
  unfold simplifyLogical at h
  split at h
  · obtain ⟨v, literal, rfl⟩ := Option.map_eq_some_iff.mp h
    split
    · exact .inl rfl
    · exact .inr (by simp [Expr.lvalues, lvalues_of_literal literal, newLiteral])
  · obtain ⟨v, literal, rfl⟩ := Option.map_eq_some_iff.mp h
    split
    · exact .inl rfl
    · exact .inr (by simp [Expr.lvalues])
  · cases h

theorem keeps_foldSizeofType {e e' : Expr} (h : foldSizeofType e = some e') : KeepsLvalues e e' := by
  unfold foldSizeofType at h
  split at h
  · split at h <;> cases h <;> exact .inl rfl
  · cases h

theorem keeps_foldSizeofExpr {e e' : Expr} (h : foldSizeofExpr e = some e') : KeepsLvalues e e' := by
  unfold foldSizeofExpr at h
  split at h <;> cases h <;> exact .inl rfl

theorem keeps_foldCast {e e' : Expr} (h : foldCast e = some e') : KeepsLvalues e e' := by
  unfold foldCast at h
  split at h
  · simp only [bind, Option.bind_eq_some_iff] at h
    obtain ⟨v, _, h⟩ := h
    split at h <;> cases h
    exact .inl rfl
  · cases h

theorem keeps_propagateConst {table : ConstTable} {e e' : Expr}
    (h : propagateConst table e = some e') : KeepsLvalues e e' := by
  unfold propagateConst at h
  split at h
  · obtain ⟨_, _, rfl⟩ := Option.map_eq_some_iff.mp h
    exact .inl rfl
  · cases h

def Expr.isConditional : Expr → Bool
  | .conditional _ _ _ => true
  | _ => false

theorem keeps_foldConditional {e e' : Expr} (other : e.isConditional = false)
    (h : foldConditional e = some e') : KeepsLvalues e e' := by
  unfold foldConditional at h
  split at h
  · cases other
  · cases h

theorem keeps_optimizeNode (table : ConstTable) {e : Expr} (other : e.isConditional = false) :
    KeepsLvalues e (optimizeNode table e) := by
  rcases optimizeNode_cases table e with same | ⟨rule, member, result⟩
  · rw [same]
    exact .inr rfl
  · simp only [rewrites, List.mem_cons, List.not_mem_nil, or_false] at member
    rcases member with rfl | rfl | rfl | rfl | rfl | rfl | rfl | rfl | rfl | rfl | rfl | rfl | rfl |
      rfl
    · exact keeps_foldBinary result
    · exact keeps_foldLogical result
    · exact keeps_foldUnary result
    · exact keeps_foldDoubleNot result
    · exact keeps_foldDoubleNegation result
    · exact keeps_foldIdentity result
    · exact keeps_foldZero result
    · exact keeps_reduceStrength result
    · exact keeps_simplifyLogical result
    · exact keeps_foldConditional other result
    · exact keeps_foldSizeofType result
    · exact keeps_foldSizeofExpr result
    · exact keeps_foldCast result
    · exact keeps_propagateConst result

end rules

section expressions

variable {table : ConstTable}

theorem lvaluesList_eq (es : List Expr) : Expr.lvaluesList es = es.flatMap Expr.lvalues := by
  induction es with
  | nil => rfl
  | cons e es ih => rw [Expr.lvaluesList, List.flatMap_cons, ih]

theorem positionsList_eq (es : List Expr) :
    positionsList table es = es.flatMap (exprPositions table) := by
  induction es with
  | nil => rfl
  | cons e es ih =>
    rw [positionsList, List.flatMap_cons, ih]
    rfl

/-- The lvalues of the optimized expression are those of its positions. -/
def PositionsRight (table : ConstTable) (e : Expr) : Prop :=
  (optimizeExpr table e).lvalues = (exprPositions table e).map LvalueSite.after

theorem lvaluesList_optimized {es : List Expr} (each : ∀ e ∈ es, PositionsRight table e) :
    Expr.lvaluesList (optimizeExprs table es) = (positionsList table es).map LvalueSite.after := by
  rw [lvaluesList_eq, positionsList_eq, optimizeExprs_eq_map, List.flatMap_map, List.map_flatMap]
  exact List.flatMap_congr each

theorem lvalues_optimizeChildren {e : Expr} (children : ∀ c ∈ e.children, PositionsRight table c) :
    (optimizeChildren table e).lvalues = (childPositions table e).map LvalueSite.after := by
  have own (name : String) : LvalueSite.after ⟨none, .varRef name⟩ = .varRef name := rfl
  cases e with
  | intLiteral | charLiteral | floatLiteral | stringLiteral | varRef | sizeofType => rfl
  | deref e | memberAccess e | arrowAccess e | sizeofExpr e | unaryOp _ e | cast _ _ _ e
  | designatedMember _ e | designatedIndex _ e | compoundLiteral _ _ _ _ e | vaEnd e | vaArg e =>
    exact children e List.mem_cons_self
  | addrOf e | prefixIncDec _ e | postfixIncDec _ e | assignment _ e =>
    exact congrArg (List.cons _) (children e List.mem_cons_self)
  | arrayIndex l r | binaryOp _ l r | comma l r | vaStart l r | vaCopy l r =>
    have left := children l List.mem_cons_self
    have right := children r (List.mem_cons_of_mem _ List.mem_cons_self)
    exact (congrArg₂ (· ++ ·) left right).trans List.map_append.symm
  | assignmentTo l r =>
    have left := children l List.mem_cons_self
    have right := children r (List.mem_cons_of_mem _ List.mem_cons_self)
    exact congrArg (List.cons _) ((congrArg₂ (· ++ ·) left right).trans List.map_append.symm)
  | conditional c a b =>
    have cond := children c List.mem_cons_self
    have first := children a (List.mem_cons_of_mem _ List.mem_cons_self)
    have second := children b (List.mem_cons_of_mem _ (List.mem_cons_of_mem _ List.mem_cons_self))
    rw [childPositions, List.map_append, List.map_append, ← cond, ← first, ← second]
    rfl
  | functionCall _ _ args => exact lvaluesList_optimized children
  | indirectCall c args =>
    have callee := children c List.mem_cons_self
    have arguments := lvaluesList_optimized fun e member => children e (List.mem_cons_of_mem c member)
    exact (congrArg₂ (· ++ ·) callee arguments).trans List.map_append.symm
  | initializerList es => exact lvaluesList_optimized children

theorem childPositions_eq {e : Expr} (other : e.isConditional = false) :
    childPositions table e = positions table e := by
  cases e <;> first | rfl | cases other

theorem exprPositions_of_literal {e : Expr} {v : Int}
    (literal : (optimizeExpr table e).literal = some v) : exprPositions table e = [] := by
  rw [exprPositions, alive, literal]
  rfl

theorem exprPositions_of_other {e : Expr} (literal : (optimizeExpr table e).literal = none) :
    exprPositions table e = positions table e := by
  rw [exprPositions, alive, literal]
  rfl

theorem lvalues_optimizeExpr (table : ConstTable) (e : Expr) : PositionsRight table e := by
  induction e using Expr.induction_children with
  | h_node e ih =>
    have children := lvalues_optimizeChildren ih
    unfold PositionsRight
    cases literal : (optimizeExpr table e).literal with
    | some v => rw [exprPositions_of_literal literal, lvalues_of_literal literal, List.map_nil]
    | none =>
      rw [exprPositions_of_other literal]
      cases shape : e.isConditional with
      | false =>
        have kept : (optimizeChildren table e).isConditional = false := by
          cases e <;> first | rfl | cases shape
        rcases keeps_optimizeNode table kept with folded | same
        · rw [optimizeExpr_eq] at literal
          rw [literal] at folded
          cases folded
        · rw [optimizeExpr_eq, same, children, childPositions_eq shape]
      | true =>
        obtain ⟨c, a, b, rfl⟩ : ∃ c a b, e = .conditional c a b := by
          cases e <;> first | exact ⟨_, _, _, rfl⟩ | cases shape
        have first := ih a (List.mem_cons_of_mem _ List.mem_cons_self)
        have second := ih b (List.mem_cons_of_mem _ (List.mem_cons_of_mem _ List.mem_cons_self))
        have result : optimizeExpr table (.conditional c a b) =
            ((optimizeExpr table c).literal.map fun v =>
              if v ≠ 0 then optimizeExpr table a else optimizeExpr table b).getD
                (optimizeChildren table (.conditional c a b)) := optimizeNode_conditional
        rw [positions]
        cases cond : (optimizeExpr table c).literal with
        | none =>
          rw [result, cond]
          exact children
        | some v =>
          rw [result, cond]
          by_cases holds : v ≠ 0
          · simp only [Option.map_some, Option.getD_some, if_pos holds]
            exact first
          · simp only [Option.map_some, Option.getD_some, if_neg holds]
            exact second

theorem alive_sublist (e : Expr) (ps : List LvalueSite) : (alive table e ps).Sublist ps := by
  unfold alive
  split
  · exact List.nil_sublist ps
  · exact List.Sublist.refl ps

theorem exprPositions_sublist {e : Expr} {l : List Expr}
    (own : ((positions table e).map LvalueSite.operand).Sublist l) :
    ((exprPositions table e).map LvalueSite.operand).Sublist l :=
  ((alive_sublist e _).map _).trans own

/-- The positions are lvalues of the expression, in order. -/
theorem positions_sublist (table : ConstTable) (e : Expr) :
    ((positions table e).map LvalueSite.operand).Sublist e.lvalues := by
  induction e using Expr.induction_children with
  | h_node e ih =>
    have each : ∀ c ∈ e.children, ((exprPositions table c).map LvalueSite.operand).Sublist c.lvalues :=
      fun c member => exprPositions_sublist (ih c member)
    have all {es : List Expr} (each : ∀ c ∈ es,
        ((exprPositions table c).map LvalueSite.operand).Sublist c.lvalues) :
        ((positionsList table es).map LvalueSite.operand).Sublist (Expr.lvaluesList es) := by
      induction es with
      | nil => exact List.Sublist.refl _
      | cons c es ih =>
        rw [positionsList, List.map_append]
        exact (each c List.mem_cons_self).append
          (ih fun c' member => each c' (List.mem_cons_of_mem c member))
    cases e with
    | intLiteral | charLiteral | floatLiteral | stringLiteral | varRef | sizeofType =>
      exact List.Sublist.refl _
    | deref e | memberAccess e | arrowAccess e | sizeofExpr e | unaryOp _ e | cast _ _ _ e
    | designatedMember _ e | designatedIndex _ e | compoundLiteral _ _ _ _ e | vaEnd e | vaArg e =>
      exact each e List.mem_cons_self
    | addrOf e | prefixIncDec _ e | postfixIncDec _ e | assignment _ e =>
      exact (each e List.mem_cons_self).cons_cons _
    | arrayIndex l r | binaryOp _ l r | comma l r | vaStart l r | vaCopy l r =>
      rw [positions, List.map_append]
      exact (each l List.mem_cons_self).append (each r (List.mem_cons_of_mem _ List.mem_cons_self))
    | assignmentTo l r =>
      rw [positions, List.map_cons, List.map_append]
      exact ((each l List.mem_cons_self).append
        (each r (List.mem_cons_of_mem _ List.mem_cons_self))).cons_cons _
    | conditional c a b =>
      have first := each a (List.mem_cons_of_mem _ List.mem_cons_self)
      have second := each b (List.mem_cons_of_mem _ (List.mem_cons_of_mem _ List.mem_cons_self))
      rw [positions]
      split
      · split
        · exact first.trans ((List.sublist_append_left _ _).trans (List.sublist_append_right _ _))
        · exact second.trans ((List.sublist_append_right _ _).trans (List.sublist_append_right _ _))
      · rw [List.map_append, List.map_append]
        exact (each c List.mem_cons_self).append (first.append second)
    | functionCall _ _ args => exact all each
    | indirectCall c args =>
      rw [positions, List.map_append]
      exact (each c List.mem_cons_self).append
        (all fun e member => each e (List.mem_cons_of_mem c member))
    | initializerList es => exact all each

theorem lvaluesOption_optimized (table : ConstTable) (e : Option Expr) :
    Expr.lvaluesOption (e.map (optimizeExpr table)) =
      (optionPositions table e).map LvalueSite.after := by
  cases e with
  | none => rfl
  | some e => exact lvalues_optimizeExpr table e

theorem optionPositions_sublist (table : ConstTable) (e : Option Expr) :
    ((optionPositions table e).map LvalueSite.operand).Sublist (Expr.lvaluesOption e) := by
  cases e with
  | none => exact List.Sublist.refl _
  | some e => exact exprPositions_sublist (positions_sublist table e)

end expressions

section statements

theorem lvalues_optimizeListed (table : ConstTable) (s : Stmt) :
    (optimizeListed table s).lvalues = (listedPositions table s).map LvalueSite.after := by
  have unchanged (es : List Expr) :
      ((es.map fun e => (⟨none, e⟩ : LvalueSite)).map LvalueSite.after) = es := by
    rw [List.map_map]
    exact List.map_id es
  cases s with
  | declaration info value => exact lvaluesOption_optimized table value
  | _ => exact (unchanged _).symm

theorem lvaluesList_optimizeListed (table : ConstTable) (decls : List Stmt) :
    Stmt.lvaluesList (decls.map (optimizeListed table)) =
      (decls.flatMap (listedPositions table)).map LvalueSite.after := by
  induction decls with
  | nil => rfl
  | cons s decls ih =>
    rw [List.map_cons, Stmt.lvaluesList, ih, lvalues_optimizeListed, List.flatMap_cons,
      List.map_append]

mutual

/-- The lvalues of the optimized statement are those of its positions. -/
theorem lvalues_optimizeStmt (table : ConstTable) : ∀ s : Stmt,
    (optimizeStmt table s).1.lvalues = (s.positions table).map LvalueSite.after
  | .block stmts => lvalues_optimizeBlock table false stmts
  | .ifStmt cond thenBody elseBody => by
    have test := lvalues_optimizeExpr table cond
    have first := lvalues_optimizeStmt table thenBody
    have second := lvalues_optimizeElse (constsAfter table thenBody) elseBody
    simp only [optimizeStmt, Stmt.positions, optimizeStmt_table]
    cases literal : (optimizeExpr table cond).literal with
    | none =>
      simp only [List.map_append, ← first, ← second]
      exact congrArg (· ++ _) test
    | some v =>
      by_cases holds : v ≠ 0
      · simp only [if_pos holds]
        exact first
      · simp only [if_neg holds]
        rw [← second]
        cases (optimizeOption (constsAfter table thenBody) elseBody).1 <;> rfl
  | .whileStmt cond body => by
    have test := lvalues_optimizeExpr table cond
    have inner := lvalues_optimizeStmt table body
    rw [optimizeStmt, Stmt.positions]
    by_cases never : (optimizeExpr table cond).literal = some 0
    · simp only [if_pos never]
      rfl
    · simp only [if_neg never, List.map_append, ← inner]
      exact congrArg (· ++ _) test
  | .doWhileStmt body cond => by
    have test := lvalues_optimizeExpr (constsAfter table body) cond
    have inner := lvalues_optimizeStmt table body
    simp only [optimizeStmt, Stmt.positions, optimizeStmt_table, List.map_append, ← inner]
    exact congrArg (_ ++ ·) test
  | .forStmt init cond update body => by
    have first := lvalues_optimizeForInit table init
    have test := lvaluesOption_optimized (constsAfterOption table init) cond
    have step := lvaluesOption_optimized (constsAfterOption table init) update
    have inner := lvalues_optimizeStmt (constsAfterOption table init) body
    simp only [optimizeStmt, Stmt.positions, optimizeForInit_table]
    by_cases never :
        (cond.map (optimizeExpr (constsAfterOption table init))).bind Expr.literal = some 0
    · simp only [if_pos never]
      rw [← first]
      cases (optimizeForInit table init).1 <;> rfl
    · simp only [if_neg never, List.map_append, ← first, ← test, ← step, ← inner]
      rfl
  | .switchStmt value body => by
    have test := lvalues_optimizeExpr table value
    have inner := lvalues_optimizeStmt table body
    rw [optimizeStmt, Stmt.positions, List.map_append, ← inner]
    exact congrArg (· ++ _) test
  | .returnStmt value => lvaluesOption_optimized table value
  | .exprStmt value => lvalues_optimizeExpr table value
  | .declaration info value => lvaluesOption_optimized table value
  | .declList decls => lvaluesList_optimizeListed table decls
  | .labelStmt _ body | .caseSection _ body | .defaultSection body =>
    lvalues_optimizeStmt table body
  | .breakStmt | .continueStmt | .gotoStmt _ | .typedefDecl _ => rfl

theorem lvalues_optimizeElse (table : ConstTable) : ∀ s : Option Stmt,
    Stmt.lvaluesOption (optimizeOption table s).1 = (elsePositions table s).map LvalueSite.after
  | none => rfl
  | some s => lvalues_optimizeStmt table s

theorem lvalues_optimizeForInit (table : ConstTable) : ∀ s : Option Stmt,
    Stmt.lvaluesOption (optimizeForInit table s).1 = (initPositions table s).map LvalueSite.after
  | none => rfl
  | some s => by
    have whole := lvalues_optimizeStmt table s
    cases s with
    | exprStmt value => exact lvalues_optimizeChildren fun c _ => lvalues_optimizeExpr table c
    | _ => exact whole

theorem lvalues_optimizeBlock (table : ConstTable) (dead : Bool) : ∀ ss : List Stmt,
    Stmt.lvaluesList (optimizeBlock table dead ss) =
      (blockPositions table dead ss).map LvalueSite.after
  | [] => rfl
  | s :: rest => by
    rw [optimizeBlock, blockPositions]
    split
    · exact lvalues_optimizeBlock table true rest
    · have head := lvalues_optimizeStmt table s
      have tail := lvalues_optimizeBlock (constsAfter table s) (isTerminalStmt (optimizeStmt table s).1)
        rest
      rw [List.map_append, ← head, ← tail, ← optimizeStmt_table]
      rfl

end

end statements

section bodies

variable {table : ConstTable}

theorem flatMap_unlisted_sublist (decls : List Stmt) :
    ((decls.flatMap (listedPositions table)).map LvalueSite.operand).Sublist
      (Stmt.lvaluesList decls) := by
  induction decls with
  | nil => exact List.Sublist.refl _
  | cons s decls ih =>
    rw [List.flatMap_cons, List.map_append, Stmt.lvaluesList]
    refine List.Sublist.append ?_ ih
    cases s with
    | declaration info value => exact optionPositions_sublist table value
    | _ =>
      rw [listedPositions, List.map_map]
      · exact (congrArg (List.Sublist · _) (List.map_id _)).mpr (List.Sublist.refl _)
      · simp

theorem childPositions_sublist (e : Expr) :
    ((childPositions table e).map LvalueSite.operand).Sublist e.lvalues := by
  have each (c : Expr) : ((exprPositions table c).map LvalueSite.operand).Sublist c.lvalues :=
    exprPositions_sublist (positions_sublist table c)
  cases e with
  | conditional c a b =>
    rw [childPositions, List.map_append, List.map_append]
    exact (each c).append ((each a).append (each b))
  | _ => exact positions_sublist table _

mutual

theorem stmtPositions_sublist (table : ConstTable) : ∀ s : Stmt,
    ((s.positions table).map LvalueSite.operand).Sublist s.lvalues
  | .block stmts => blockPositions_sublist table false stmts
  | .ifStmt cond thenBody elseBody => by
    have first := stmtPositions_sublist table thenBody
    have second := elsePositions_sublist (constsAfter table thenBody) elseBody
    rw [Stmt.positions]
    split
    · split
      · exact first.trans ((List.sublist_append_left _ _).trans (List.sublist_append_right _ _))
      · exact second.trans ((List.sublist_append_right _ _).trans (List.sublist_append_right _ _))
    · rw [List.map_append, List.map_append]
      exact (exprPositions_sublist (positions_sublist table cond)).append (first.append second)
  | .whileStmt cond body => by
    rw [Stmt.positions]
    split
    · exact List.nil_sublist _
    · rw [List.map_append]
      exact (exprPositions_sublist (positions_sublist table cond)).append
        (stmtPositions_sublist table body)
  | .doWhileStmt body cond => by
    rw [Stmt.positions, List.map_append]
    exact (stmtPositions_sublist table body).append
      (exprPositions_sublist (positions_sublist _ cond))
  | .forStmt init cond update body => by
    have first := initPositions_sublist table init
    simp only [Stmt.positions]
    split
    · exact first.trans (List.sublist_append_left _ _)
    · rw [List.map_append, List.map_append, List.map_append]
      exact first.append ((optionPositions_sublist _ cond).append
        ((optionPositions_sublist _ update).append (stmtPositions_sublist _ body)))
  | .switchStmt value body => by
    rw [Stmt.positions, List.map_append]
    exact (exprPositions_sublist (positions_sublist table value)).append
      (stmtPositions_sublist table body)
  | .returnStmt value | .declaration _ value => optionPositions_sublist table value
  | .exprStmt value => exprPositions_sublist (positions_sublist table value)
  | .declList decls => flatMap_unlisted_sublist decls
  | .labelStmt _ body | .caseSection _ body | .defaultSection body =>
    stmtPositions_sublist table body
  | .breakStmt | .continueStmt | .gotoStmt _ | .typedefDecl _ => List.Sublist.refl _

theorem elsePositions_sublist (table : ConstTable) : ∀ s : Option Stmt,
    ((elsePositions table s).map LvalueSite.operand).Sublist (Stmt.lvaluesOption s)
  | none => List.Sublist.refl _
  | some s => stmtPositions_sublist table s

theorem initPositions_sublist (table : ConstTable) : ∀ s : Option Stmt,
    ((initPositions table s).map LvalueSite.operand).Sublist (Stmt.lvaluesOption s)
  | none => List.Sublist.refl _
  | some s => by
    have whole := stmtPositions_sublist table s
    cases s with
    | exprStmt value => exact childPositions_sublist value
    | _ => exact whole

theorem blockPositions_sublist (table : ConstTable) (dead : Bool) : ∀ ss : List Stmt,
    ((blockPositions table dead ss).map LvalueSite.operand).Sublist (Stmt.lvaluesList ss)
  | [] => List.Sublist.refl _
  | s :: rest => by
    rw [blockPositions]
    split
    · exact (blockPositions_sublist table true rest).trans (List.sublist_append_right _ _)
    · rw [List.map_append]
      exact (stmtPositions_sublist table s).append (blockPositions_sublist _ _ rest)

end

theorem root_recorded {e : Expr} {name : String} {entry : ConstEntry}
    (root : e.root = some name) (found : constPropLookup table name = some entry) :
    (optimizeExpr table e).root = none := by
  induction e using Expr.induction_children with
  | h_node e ih =>
    cases e with
    | varRef other =>
      cases root
      simp [optimizeExpr_varRef, propagateConst, found, newLiteral, Expr.root]
    | memberAccess base field => exact ih base List.mem_cons_self root
    | arrayIndex base index => exact ih base List.mem_cons_self root
    | _ => cases root

theorem root_unrecorded {e : Expr} {name : String} (root : e.root = some name)
    (absent : constPropLookup table name = none) : (optimizeExpr table e).root = some name := by
  induction e using Expr.induction_children with
  | h_node e ih =>
    cases e with
    | varRef other =>
      cases root
      simp [optimizeExpr_varRef, propagateConst, absent, Expr.root]
    | memberAccess base field => exact ih base List.mem_cons_self root
    | arrayIndex base index => exact ih base List.mem_cons_self root
    | _ => cases root

theorem sameForm_optimizeExpr {e : Expr} (form : e.lvalueForm = true)
    (absent : ∀ name, e.root = some name → constPropLookup table name = none) :
    SameForm e (optimizeExpr table e) := by
  cases e with
  | varRef name =>
    have result : optimizeExpr table (.varRef name) = .varRef name := by
      simp [optimizeExpr_varRef, propagateConst, absent name rfl]
    rw [result]
    exact .refl _
  | deref e => exact .deref table e
  | arrayIndex base index => exact .arrayIndex table base index
  | memberAccess base field => exact .memberAccess table base field
  | arrowAccess base field => exact .arrowAccess table base field
  | compoundLiteral k t u slot e => exact .compoundLiteral table k t u slot e
  | _ => cases form

/-- An lvalue is kept exactly where its variable is no recorded constant. -/
theorem lvalueKept_iff {p : LvalueSite} (form : p.operand.lvalueForm = true) :
    LvalueKept p.operand p.after ↔ ¬ p.recorded := by
  constructor
  · rintro kept ⟨table, name, entry, here, root, found⟩
    have after : p.after = optimizeExpr table p.operand := by rw [LvalueSite.after, here]; rfl
    have lost := root_recorded root found
    rw [← after, kept.root name root] at lost
    cases lost
  · intro fresh
    cases here : p.table with
    | none =>
      have after : p.after = p.operand := by rw [LvalueSite.after, here]; rfl
      rw [after]
      exact ⟨.refl _, fun _ root => root⟩
    | some table =>
      have after : p.after = optimizeExpr table p.operand := by rw [LvalueSite.after, here]; rfl
      have absent : ∀ name, p.operand.root = some name → constPropLookup table name = none := by
        intro name root
        cases found : constPropLookup table name with
        | none => rfl
        | some entry => exact absurd ⟨table, name, entry, here, root, found⟩ fresh
      rw [after]
      exact ⟨sameForm_optimizeExpr form absent, fun name root =>
        root_unrecorded root (absent name root)⟩

/-- The lvalues of a function body that its optimization keeps. -/
def bodyPositions (body : List Stmt) : List LvalueSite := blockPositions [] false body

/-- The lvalues of an optimized body are lvalues of the body, optimized in place; they are all kept
exactly where none belongs to a recorded constant. -/
theorem lvaluesKept_iff (body : List Stmt) :
    Stmt.lvaluesList (optimizeBody body) = (bodyPositions body).map LvalueSite.after ∧
    ((bodyPositions body).map LvalueSite.operand).Sublist (Stmt.lvaluesList body) ∧
    ((∀ p ∈ bodyPositions body, p.operand.lvalueForm = true → LvalueKept p.operand p.after) ↔
      ∀ p ∈ bodyPositions body, p.operand.lvalueForm = true → ¬ p.recorded) := by
  refine ⟨lvalues_optimizeBlock [] false body, blockPositions_sublist [] false body, ?_⟩
  constructor
  · intro kept p member form
    exact (lvalueKept_iff form).mp (kept p member form)
  · intro fresh p member form
    exact (lvalueKept_iff form).mpr (fresh p member form)

end bodies

/-- `int f() { const int c = 5; return *&c; }` -/
def addressOfConst : FunctionDef where
  name := "f"
  declType := .int
  fullType := none
  params := []
  isVariadic := false
  isNoPrototype := false
  storage := .none
  body := [.declaration ⟨"c", .int, none, false, true, .none⟩ (some (.intLiteral (.dec 5) .int false)),
    .returnStmt (some (.deref (.addrOf (.varRef "c"))))]

/-- The optimizer takes the address of a literal, which the code generator rejects. -/
theorem address_of_const_lost :
    (∃ cg, Yields (codegenFunction addressOfConst) (codegenInit [] fun _ => []) () cg) ∧
    (codegenFunction { addressOfConst with body := optimizeBody addressOfConst.body }
      (codegenInit [] fun _ => [])).isOk = false ∧
    ∃ p ∈ bodyPositions addressOfConst.body, p.operand = .varRef "c" ∧
      p.after = newLiteral 5 .int false ∧ ¬ LvalueKept p.operand p.after := by
  refine ⟨?_, by decide +kernel, ?_⟩
  · obtain ⟨⟨⟩, cg, run⟩ := exists_yields
      (show (codegenFunction addressOfConst (codegenInit [] fun _ => [])).isOk = true by decide +kernel)
    exact ⟨cg, run⟩
  · have inTree : bodyPositions addressOfConst.body =
        [⟨some [⟨"c", 5, .int, false⟩], .varRef "c"⟩] := rfl
    rw [inTree]
    refine ⟨_, List.mem_cons_self, rfl, rfl, ?_⟩
    intro kept
    cases kept.form

end ClaudeC99
