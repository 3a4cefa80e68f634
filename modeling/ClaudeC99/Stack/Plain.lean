import ClaudeC99.Codegen.Expression
import ClaudeC99.Stack.ExprCode

/-! The straight-line sequences leave the stack and frame pointers alone. -/

namespace ClaudeC99

open X86

@[simp] theorem plain_nil : Plain [] := by
  simp [Plain]

@[simp] theorem plain_cons {i : Asm} {is : List Asm} :
    Plain (i :: is) ↔ i.keepsStack = true ∧ Plain is := by
  simp [Plain]

@[simp] theorem plain_append {is js : List Asm} : Plain (is ++ js) ↔ Plain is ∧ Plain js := by
  simp [Plain, or_imp, forall_and]

@[simp] theorem plain_ite {p : Prop} [Decidable p] {is js : List Asm} (h₁ : Plain is)
    (h₂ : Plain js) : Plain (if p then is else js) := by
  split <;> assumption

@[simp] theorem loadSized_keeps (size : Nat) (isUnsigned : Bool) (a : Address) :
    (loadSized size isUnsigned a).keepsStack = true := by
  unfold loadSized
  split <;> first | rfl | (cases isUnsigned <;> rfl)

@[simp] theorem storeSized_keeps (size : Nat) (a : Address) :
    (storeSized size a).keepsStack = true := by
  unfold storeSized
  split <;> rfl

@[simp] theorem plain_storeWidened (size : Nat) (srcIsLong : Bool) (a : Address) :
    Plain (storeWidened size srcIsLong a) := by
  unfold storeWidened
  split
  · rw [plain_cons]
    exact ⟨rfl, by simp⟩
  · simp

@[simp] theorem plain_loadLocalVar (lv : LocalVar) : Plain (loadLocalVar lv) := by
  unfold loadLocalVar
  split <;> simp [emitLoadGlobal, emitLoadLocal]

@[simp] theorem plain_storeLocalVar (lv : LocalVar) (srcIsLong : Bool) :
    Plain (storeLocalVar lv srcIsLong) := by
  unfold storeLocalVar
  split <;> simp [emitStoreGlobal, emitStoreLocal]

@[simp] theorem plain_emitIntConvert (src dst : TypeKind) : Plain (emitIntConvert src dst) := by
  unfold emitIntConvert
  repeat' split
  all_goals simp [movsxdRax, Instr.keepsStack, Reg.isStack]

@[simp] theorem plain_emitConvert (src dst : TypeKind) : Plain (emitConvert src dst) := by
  unfold emitConvert
  repeat' split
  all_goals simp [Instr.keepsStack, Reg.isStack]

@[simp] theorem plain_emitFpWidenIfNeeded (src dst : TypeKind) :
    Plain (emitFpWidenIfNeeded src dst) := by
  unfold emitFpWidenIfNeeded
  repeat' split
  all_goals simp [Instr.keepsStack]

@[simp] theorem plain_emitBoolNormalize (isLongValue : Bool) :
    Plain (emitBoolNormalize isLongValue) := by
  simp [emitBoolNormalize, aluReg, movzxEaxAl, Instr.keepsStack, Reg.isStack]

@[simp] theorem plain_emitFpBoolToRax (kind : TypeKind) : Plain (emitFpBoolToRax kind) := by
  simp [emitFpBoolToRax, aluReg, movzxRaxAl, Instr.keepsStack, Reg.isStack]

@[simp] theorem plain_emitCondCmpZero (kind : TypeKind) : Plain (emitCondCmpZero kind) := by
  unfold emitCondCmpZero
  repeat' split
  all_goals simp [aluImm, Instr.keepsStack, Reg.isStack]

@[simp] theorem plain_emitLogicalTest (kind : TypeKind) : Plain (emitLogicalTest kind) := by
  unfold emitLogicalTest
  repeat' split
  all_goals simp [aluReg, aluImm, Instr.keepsStack, Reg.isStack]

@[simp] theorem plain_emitConditionalTest (kind : TypeKind) :
    Plain (emitConditionalTest kind) := by
  unfold emitConditionalTest
  repeat' split
  all_goals simp [aluImm, Instr.keepsStack, Reg.isStack]

@[simp] theorem plain_widenBranch (commonFp kind : TypeKind) : Plain (widenBranch commonFp kind) := by
  simp [widenBranch]

@[simp] theorem plain_emitStructCopy (nbytes : Nat) : Plain (emitStructCopy nbytes) := by
  simp [emitStructCopy, movImm, Instr.keepsStack, Reg.isStack]

@[simp] theorem plain_addOffset (offset : Nat) : Plain (addOffset offset) := by
  simp [addOffset, aluImm, Instr.keepsStack, Reg.isStack]

@[simp] theorem plain_maskField (f : StructField) : Plain (maskField f) := by
  simp [maskField, aluImm, Instr.keepsStack, Reg.isStack]

@[simp] theorem plain_shiftField (op : Shift) (f : StructField) : Plain (shiftField op f) := by
  simp [shiftField, Instr.keepsStack, Reg.isStack]

@[simp] theorem plain_loadBitfield (f : StructField) : Plain (loadBitfield f) := by
  simp [loadBitfield, movMem, Instr.keepsStack, Reg.isStack]

@[simp] theorem plain_copyBytesLocal (dst src : Int) (n : Nat) :
    Plain (copyBytesLocal dst src n) := by
  induction n with
  | zero => simp [copyBytesLocal]
  | succ n ih => simp [copyBytesLocal, ih, Instr.keepsStack, Reg.isStack]

@[simp] theorem plain_zeroBytes (offset : Int) (n : Nat) : Plain (zeroBytes offset n) := by
  induction n with
  | zero => simp [zeroBytes]
  | succ n ih => simp [zeroBytes, ih, Instr.keepsStack]

@[simp] theorem plain_genFloatingNot (kind : TypeKind) : Plain (genFloatingNot kind) := by
  simp [genFloatingNot, aluReg, movzxRaxAl, Instr.keepsStack, Reg.isStack]

theorem plain_genFloatingUnary {op : UnaryOp} {kind k : TypeKind} {is : List Asm}
    (h : genFloatingUnary op kind = some (is, k)) : Plain is := by
  cases op <;> cases h <;> simp [Instr.keepsStack]

@[simp] theorem plain_genIntegerUnary (op : UnaryOp) (kind : TypeKind) :
    Plain (genIntegerUnary op kind).1 := by
  cases op <;> simp [genIntegerUnary, aluImm, movzxEaxAl, Instr.keepsStack, Reg.isStack]

@[simp] theorem plain_incDecFloating (op : IncDec) (isPost : Bool) (kind : TypeKind) :
    Plain (incDecFloating op isPost kind) := by
  simp [incDecFloating, Instr.keepsStack]

@[simp] theorem plain_incDecInteger (op : IncDec) (isPost : Bool) (size step : Nat) :
    Plain (incDecInteger op isPost size step) := by
  have moves (dst src : Reg) (h : dst.isStack = false) :
      Plain (if isPost then [movReg .qword dst src] else []) := by
    cases isPost <;> simp [movReg, Instr.keepsStack, h]
  have step : Plain [aluImm op.alu (if size = 8 then .qword else .dword) .rax step,
      storeSized size (through .rbx)] := by
    simp only [plain_cons, storeSized_keeps, plain_nil, and_true]
    rfl
  simp only [incDecInteger, plain_append, plain_cons, loadSized_keeps, plain_nil, and_true, step,
    moves .rcx .rax rfl, moves .rax .rcx rfl]

@[simp] theorem plain_widenBitwise (common : TypeKind) (a : Ann) : Plain (widenBitwise common a) := by
  simp [widenBitwise, movsxdRax, Instr.keepsStack, Reg.isStack]

@[simp] theorem plain_widenOperand (common : TypeKind) (a : Ann) : Plain (widenOperand common a) := by
  simp [widenOperand, movsxdRax, Instr.keepsStack, Reg.isStack]

@[simp] theorem plain_toCommonFp (useDouble : Bool) (kind : TypeKind) :
    Plain (toCommonFp useDouble kind) := by
  unfold toCommonFp
  repeat' split
  all_goals simp [Instr.keepsStack]

@[simp] theorem plain_fpArithCode (op : BinaryOp) (p : FpWidth) : Plain (fpArithCode op p) := by
  cases op <;> simp [fpArithCode, Instr.keepsStack]

@[simp] theorem plain_fpCompareCode (op : BinaryOp) : Plain (fpCompareCode op) := by
  cases op <;> simp [fpCompareCode, aluReg, Instr.keepsStack, Reg.isStack]

@[simp] theorem plain_subFromRcx (w : Width) : Plain (subFromRcx w) := by
  simp [subFromRcx, aluReg, movReg, Instr.keepsStack, Reg.isStack]

theorem plain_scaleReg {r : Reg} (size : Nat) (scratch : r.isStack = false) :
    Plain (scaleReg r size) := by
  simp [scaleReg, Instr.keepsStack, scratch]

@[simp] theorem plain_divCode (w : Width) (isUnsigned : Bool) : Plain (divCode w isUnsigned) := by
  cases isUnsigned <;> simp [divCode, aluReg, Instr.keepsStack, Reg.isStack]

@[simp] theorem plain_arithCode (op : BinaryOp) (w : Width) (isUnsigned : Bool) :
    Plain (arithCode op w isUnsigned) := by
  cases op <;> simp [arithCode, aluReg, movReg, Instr.keepsStack, Reg.isStack]

@[simp] theorem plain_compareCode (op : BinaryOp) (w : Width) (isUnsigned : Bool) :
    Plain (compareCode op w isUnsigned) := by
  simp [compareCode, aluReg, movzxEaxAl, Instr.keepsStack, Reg.isStack]

@[simp] theorem argReg_scratch (i : Nat) : (argReg i).isStack = false := by
  unfold argReg argRegs
  rcases i with _ | _ | _ | _ | _ | _ | i <;> rfl

@[simp] theorem plain_storeStackArg (arg : PlacedArg) : Plain (storeStackArg arg) := by
  unfold storeStackArg
  dsimp only
  repeat' split
  all_goals simp [Instr.keepsStack]

@[simp] theorem plain_loadSpills (spills : List Spill) : Plain (loadSpills spills) := by
  induction spills with
  | nil => simp [loadSpills]
  | cons s rest ih => cases s <;> simp [loadSpills, ih, movMem, Instr.keepsStack]

@[simp] theorem plain_structResult (retTemp size : Nat) : Plain (structResult retTemp size) := by
  unfold structResult
  repeat' split
  all_goals simp [Instr.keepsStack, Reg.isStack]

@[simp] theorem plain_variadicSetup (callee : Option FunctionSig) :
    Plain (variadicSetup callee) := by
  simp [variadicSetup, aluReg, Instr.keepsStack, Reg.isStack]

@[simp] theorem plain_nextOverflowWord (off : Int) : Plain (nextOverflowWord off) := by
  simp [nextOverflowWord, loadFrame, storeFrame, movMem, Instr.keepsStack, Reg.isStack]

@[simp] theorem plain_storeValue (offset : Int) (size : Nat) (a : Ann) :
    Plain (storeValue offset size a) := by
  simp [storeValue, emitStoreLocal]

@[simp] theorem plain_initFieldBytes (offset : Int) (n : Nat) (bytes : List UInt8) :
    Plain (initFieldBytes offset n bytes) := by
  induction n generalizing offset bytes with
  | zero => simp [initFieldBytes]
  | succ n ih => cases bytes <;> simp [initFieldBytes, ih, Instr.keepsStack]

end ClaudeC99
