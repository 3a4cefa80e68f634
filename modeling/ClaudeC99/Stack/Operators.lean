import ClaudeC99.Stack.Lvalues

/-! Unary, binary and conditional operators leave the stack as they found it. -/

namespace ClaudeC99

open X86 StateExcept

variable {u : CodeGen} {b c : Nat} {S : List Held} {g l r : ExprGen}

theorem emits_genSizeofType (declType : TypeKind) (fullType : Option CType) :
    Emits u b c S S (genSizeofType declType fullType) := by
  refine .seq (.errorIf _ _) fun _ => ?_
  exact .seq (emits_emit rfl) fun _ => .pure _

theorem emits_genSizeofExpr (operand : Expr) : Emits u b c S S (genSizeofExpr operand) := by
  refine .get_bind fun cg _ _ => ?_
  exact .seq (emits_emit rfl) fun _ => .pure _

theorem emits_genUnaryOp (op : UnaryOp) (h : Good u g) :
    Emits u b (g.cost u) S S (genUnaryOp op g) := by
  refine .tail h.value fun a => ?_
  split
  next code kind hop =>
    have plain : Plain code := by
      split at hop
      · exact plain_genFloatingUnary hop
      · cases hop
    exact .seq (emits_emitAll plain) fun _ => .pure _
  next =>
    refine .seq (.errorIf _ _) fun _ => ?_
    have plain := plain_genIntegerUnary op a.resultType
    generalize genIntegerUnary op a.resultType = unary at plain
    exact .seq (emits_emitAll plain) fun _ => .pure _

theorem emits_incDecVar (op : IncDec) (isPost : Bool) (kind : TypeKind)
    (fullType : Option CType) {load : List Asm} {store : Bool → List Asm} (plainLoad : Plain load)
    (plainStore : ∀ long, Plain (store long)) :
    Emits u b c S S (incDecVar op isPost kind fullType load store) := by
  unfold incDecVar
  split
  · refine .seq (neutral_nonNull _).emits fun _ => ?_
    refine .seq (emits_emitAll plainLoad) fun _ => ?_
    refine .seq (emits_emitAll (by simp [movReg, Instr.keepsStack, Reg.isStack])) fun _ => ?_
    refine .seq (emits_emit rfl) fun _ => ?_
    refine .seq (emits_emitAll (plainStore _)) fun _ => ?_
    refine .seq (emits_emitAll (by simp [movReg, Instr.keepsStack, Reg.isStack])) fun _ => ?_
    exact .pure _
  · refine .seq (emits_emitAll plainLoad) fun _ => ?_
    refine .seq (emits_emitAll (by simp [movReg, Instr.keepsStack, Reg.isStack])) fun _ => ?_
    refine .seq (emits_emit rfl) fun _ => ?_
    refine .seq (emits_emitAll (plainStore _)) fun _ => ?_
    refine .seq (emits_emitAll (by simp [movReg, Instr.keepsStack, Reg.isStack])) fun _ => ?_
    exact .pure _

theorem emits_genIncDecVar (op : IncDec) (isPost : Bool) (name : String) :
    Emits u b c S S (genIncDecVar op isPost name) := by
  refine .get_bind fun cg _ _ => ?_
  split
  · refine .seq (.errorIf _ _) fun _ => ?_
    exact emits_incDecVar _ _ _ _ (by simp) (by simp)
  · split
    · exact .throw _
    · exact emits_incDecVar _ _ _ _ (by simp [emitLoadGlobal]) (by simp [emitStoreGlobal])

theorem emits_incDecOperand (h : Good u g) : Emits u b (g.cost u) S S (incDecOperand g) := by
  unfold incDecOperand
  split
  · exact .tail h.index fun _ => .pure _
  · exact .tail h.member fun _ => .pure _
  · exact .tail h.arrow fun _ => .pure _
  · refine .tail h.operand fun a => ?_
    split
    · exact .throw _
    · exact .seq (.errorIf _ _) fun _ => .pure _
  · exact .throw _

theorem emits_codegenIncDecGeneral (op : IncDec) (isPost : Bool) (h : Good u g) :
    Emits u b (g.cost u) S S (codegenIncDecGeneral op isPost g) := by
  refine .tail (emits_incDecOperand h) fun (kind, fullType, size) => ?_
  refine .seq (emits_emit rfl) fun _ => ?_
  split
  · exact .seq (emits_emitAll (by simp)) fun _ => .pure _
  · refine .seq (emits_emitAll (by simp)) fun _ => ?_
    split
    · exact .pure _
    · exact .pure _

theorem emits_genIncDec (op : IncDec) (isPost : Bool) (h : Good u g) :
    Emits u b (g.cost u) S S (genIncDec op isPost g) := by
  unfold genIncDec
  split
  · exact emits_genIncDecVar _ _ _
  · exact emits_codegenIncDecGeneral _ _ h

theorem emits_genCast (declType : TypeKind) (isUnsigned : Bool) (fullType : Option CType)
    (h : Good u g) : Emits u b (g.cost u) S S (genCast declType isUnsigned fullType g) := by
  refine .tail h.value fun a => ?_
  exact .seq (emits_emitAll (by simp)) fun _ => .pure _

theorem emits_evalLogicalOperand (h : Good u g) :
    Emits u b (g.cost u) S S (evalLogicalOperand g) :=
  .tail h.value fun _ => emits_emitAll (by simp)

theorem emits_evalSecondOperand (h : Good u g) :
    Emits u b (g.cost u) S S (evalSecondOperand g) :=
  .tail (emits_evalLogicalOperand h) fun _ =>
    emits_emitAll (by simp [movzxEaxAl, Instr.keepsStack, Reg.isStack])

theorem emits_genLogical {op : BinaryOp} {short : Cond} {shortKind endKind : LabelKind}
    {shortValue : Int} (decides : ShortCircuit op short shortKind endKind shortValue)
    {left right : Expr} (hl : Good u (codegen left)) (hr : Good u (codegen right)) :
    Emits u b ((codegen left).cost u + (codegen right).cost u) S S
      (genLogical short shortKind endKind shortValue (codegen left) (codegen right)) := by
  refine .newLabel_bind fun id => ?_
  have value : Emits u (b + S.length) 0 [] [] (emit (movImm .dword .rax shortValue)) :=
    emits_emit rfl
  exact .tail (.branch (emits_evalLogicalOperand hl) (emits_evalSecondOperand hr) value
    fun _ _ _ => .logical left right decides) fun _ => .pure _

theorem emits_rejectPointers (op : BinaryOp) (lt rt : TypeKind) :
    Emits u b c S S (rejectPointers op lt rt) := .errorIf _ _

theorem emits_genBitwise (op : BinaryOp) (insn : Alu) (hl : Good u l) (hr : Good u r) :
    Emits u b (l.cost u + r.cost u) S S (genBitwise op insn l r) := by
  refine .get_bind fun cg _ _ => ?_
  refine .seq (.lift _) fun lt => ?_
  refine .seq (.lift _) fun rt => ?_
  refine .seq (emits_rejectPointers _ _ _) fun _ => ?_
  refine .bind hl.value fun a => ?_
  refine .seq (emits_emitAll (by simp)) fun _ => ?_
  refine .seq (emits_pushReg .rax) fun _ => ?_
  refine .tail hr.value fun b => ?_
  refine .seq (emits_emitAll (by simp)) fun _ => ?_
  refine .seq (emits_popReg rfl) fun _ => ?_
  exact .seq (emits_emit rfl) fun _ => .pure _

theorem emits_genShift (op : BinaryOp) (hl : Good u l) (hr : Good u r) :
    Emits u b (l.cost u + r.cost u) S S (genShift op l r) := by
  refine .get_bind fun cg _ _ => ?_
  refine .seq (.lift _) fun lt => ?_
  refine .seq (.lift _) fun rt => ?_
  refine .seq (emits_rejectPointers _ _ _) fun _ => ?_
  refine .bind hl.value fun a => ?_
  refine .seq (emits_pushReg .rax) fun _ => ?_
  refine .tail hr.value fun _ => ?_
  refine .seq (emits_popReg rfl) fun _ => ?_
  refine .seq (emits_emit rfl) fun _ => ?_
  exact .seq (emits_emit rfl) fun _ => .pure _

theorem emits_emitFpOperands (useDouble : Bool) (hl : Good u l) (hr : Good u r) :
    Emits u b (l.cost u + r.cost u) S S (emitFpOperands useDouble l r) := by
  refine .bind hl.value fun a => ?_
  refine .seq (emits_emitAll (by simp)) fun _ => ?_
  refine emits_pushXmm _ ?_
  refine .tail hr.value fun b => ?_
  refine .seq (emits_emitAll (by simp)) fun _ => ?_
  refine .seq (emits_emit rfl) fun _ => ?_
  exact emits_popXmm

theorem emits_genFpArith (op : BinaryOp) (result : TypeKind) (hl : Good u l) (hr : Good u r) :
    Emits u b (l.cost u + r.cost u) S S (genFpArith op result l r) := by
  refine .tail (emits_emitFpOperands _ hl hr) fun _ => ?_
  exact .seq (emits_emitAll (by simp)) fun _ => .pure _

theorem emits_genFpCompare (op : BinaryOp) (result : TypeKind) (hl : Good u l)
    (hr : Good u r) : Emits u b (l.cost u + r.cost u) S S (genFpCompare op result l r) := by
  refine .tail (emits_emitFpOperands _ hl hr) fun _ => ?_
  refine .seq (emits_emit rfl) fun _ => ?_
  refine .seq (emits_emitAll (by simp)) fun _ => ?_
  exact .seq (emits_emit rfl) fun _ => .pure _

theorem emits_checkPointerCompare (op : BinaryOp) (left right : Expr) (x y : Ann) :
    Emits u b c S S (checkPointerCompare op left right x y) := by
  unfold checkPointerCompare
  split
  · exact .errorIf _ _
  repeat' split
  all_goals first | exact .throw _ | exact .pure _

theorem emits_rejectVoidOrFunction (base : CType) :
    Emits u b c S S (rejectVoidOrFunction base) :=
  .seq (.errorIf _ _) fun _ => .errorIf _ _

theorem emits_genPointerArith (op : BinaryOp) (x y : Ann) :
    Emits u b c S S (genPointerArith op x y) := by
  unfold genPointerArith
  generalize (if x.resultType = .pointer then x.fullType else y.fullType) = ptrType
  dsimp only
  split
  · exact .throw _
  · refine .seq (emits_rejectVoidOrFunction _) fun _ => ?_
    refine .seq (emits_emitAll ?_) fun _ => .pure _
    have scale {reg : Reg} (size : Nat) (h : reg.isStack = false) := plain_scaleReg size h
    split
    · simp [scale, Reg.isStack, aluReg, Instr.keepsStack]
    · simp [scale, Reg.isStack, aluReg, Instr.keepsStack]

theorem emits_genPointerDiff (x y : Ann) : Emits u b c S S (genPointerDiff x y) := by
  unfold genPointerDiff
  split
  · refine .seq (emits_rejectVoidOrFunction _) fun _ => ?_
    refine .seq (emits_rejectVoidOrFunction _) fun _ => ?_
    refine .seq (.errorIf _ _) fun _ => ?_
    refine .seq (emits_emitAll (by simp)) fun _ => ?_
    refine .seq (emits_emitAll ?_) fun _ => .pure _
    simp [movImm, Instr.keepsStack, Reg.isStack]
  · exact .throw _

theorem emits_genArithResult (op : BinaryOp) (mode : PointerMode) (common : TypeKind)
    (x y : Ann) : Emits u b c S S (genArithResult op mode common x y) := by
  unfold genArithResult
  split
  · exact .seq (emits_emitAll (by simp)) fun _ => .pure _
  · exact .seq (emits_emitAll (by simp)) fun _ => .pure _

theorem emits_genArith (op : BinaryOp) (lt rt : TypeKind) (hl : Good u l) (hr : Good u r) :
    Emits u b (l.cost u + r.cost u) S S (genArith op lt rt l r) := by
  refine .seq (.lift _) fun mode => ?_
  refine .bind hl.value fun a => ?_
  refine .seq (emits_emitAll (by simp)) fun _ => ?_
  refine .seq (emits_pushReg .rax) fun _ => ?_
  refine .tail hr.value fun b => ?_
  refine .seq (emits_emitAll (by simp)) fun _ => ?_
  refine .seq (emits_popReg rfl) fun _ => ?_
  split
  · exact emits_genPointerArith _ _ _
  · exact emits_genPointerDiff _ _
  · exact .seq (emits_checkPointerCompare _ _ _ _ _) fun _ => emits_genArithResult _ _ _ _ _
  · exact emits_genArithResult _ _ _ _ _

theorem emits_genArithOrFp (op : BinaryOp) (hl : Good u l) (hr : Good u r) :
    Emits u b (l.cost u + r.cost u) S S (genArithOrFp op l r) := by
  refine .get_bind fun cg _ _ => ?_
  refine .seq (.lift _) fun lt => ?_
  refine .seq (.lift _) fun rt => ?_
  split
  · exact emits_genFpArith _ _ hl hr
  split
  · exact emits_genFpCompare _ _ hl hr
  · exact emits_genArith _ _ _ hl hr

theorem emits_genBinaryOp (op : BinaryOp) {left right : Expr} (hl : Good u (codegen left))
    (hr : Good u (codegen right)) : Emits u b ((codegen left).cost u + (codegen right).cost u) S S
      (genBinaryOp op (codegen left) (codegen right)) := by
  unfold genBinaryOp
  split
  · exact emits_genLogical .and hl hr
  · exact emits_genLogical .or hl hr
  · exact emits_genBitwise _ _ hl hr
  · exact emits_genBitwise _ _ hl hr
  · exact emits_genBitwise _ _ hl hr
  · exact emits_genShift _ hl hr
  · exact emits_genShift _ hl hr
  · exact emits_genArithOrFp _ hl hr

theorem emits_evalCondition (h : Good u g) : Emits u b (g.cost u) S S (evalCondition g) :=
  .tail h.value fun _ => emits_emitAll (by simp)

theorem emits_evalBranch (commonFp : TypeKind) (h : Good u g) :
    Emits u b (g.cost u) S S (evalBranch commonFp g) :=
  .tail h.value fun _ => .seq (emits_emitAll (by simp)) fun _ => .pure _

theorem emits_conditionalAnn (commonFp : TypeKind) (thenExpr elseExpr : Expr) (x y : Ann) :
    Emits u b c S S (conditionalAnn commonFp thenExpr elseExpr x y) := by
  unfold conditionalAnn
  repeat' split
  all_goals first | exact .pure _ | exact .throw _

theorem emits_genConditional {cond thenExpr elseExpr : Expr} (hc : Good u (codegen cond))
    (ht : Good u (codegen thenExpr)) (he : Good u (codegen elseExpr)) :
    Emits u b ((codegen cond).cost u + (codegen thenExpr).cost u + (codegen elseExpr).cost u) S S
      (genConditional (codegen cond) (codegen thenExpr) (codegen elseExpr)) := by
  refine .newLabel_bind fun id => ?_
  refine .get_bind fun cg => ?_
  exact .tail (.branch (emits_evalCondition hc) (emits_evalBranch _ ht) (emits_evalBranch _ he)
    fun _ _ _ => .conditional cond thenExpr elseExpr _)
    fun (x, y) => emits_conditionalAnn _ _ _ _ _

theorem emits_genComma (hl : Good u l) (hr : Good u r) :
    Emits u b (l.cost u + r.cost u) S S (genComma l r) :=
  .bind hl.value fun _ => .tail hr.value fun _ => .pure _

end ClaudeC99
