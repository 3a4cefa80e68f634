import ClaudeC99.Codegen.Emit

/-! Argument placement, shared by call sites and prologues. -/

namespace ClaudeC99

open X86

/-- `MAX_CALL_LAYOUT_ITEMS` -/
def maxCallLayoutItems : Nat := 24

def structRegEightbytes (size : Nat) : Nat :=
  if size = 0 ∨ size > 16 then 0 else if size > 8 then 2 else 1

def returnIsMemoryStruct (declType : TypeKind) (fullType : Option CType) : Bool :=
  isStructOrUnionKind declType && decide (16 < fullType.elim 0 CType.size)

inductive ArgClass
  | struct (size : Nat)
  | floating (nbytes : Nat)
  | general
  deriving DecidableEq, Repr

structure ArgSlot where
  isStruct : Bool
  isFp : Bool
  mem : Bool
  nbytes : Nat
  gpStart : Nat
  gpCount : Nat
  xmmIdx : Option Nat
  stackOff : Nat
  deriving DecidableEq, Repr

structure LayoutState where
  gpNext : Nat
  xmmNext : Nat
  stackOff : Nat
  deriving DecidableEq, Repr

structure CallLayout where
  sret : Bool
  stackBytes : Nat
  items : List ArgSlot
  deriving DecidableEq, Repr

def gpSlot (c : ArgClass) (nbytes start count : Nat) : ArgSlot where
  isStruct := match c with | .struct _ => true | _ => false
  isFp := false
  mem := false
  nbytes
  gpStart := start
  gpCount := count
  xmmIdx := none
  stackOff := 0

def stackSlot (c : ArgClass) (nbytes off : Nat) : ArgSlot where
  isStruct := match c with | .struct _ => true | _ => false
  isFp := match c with | .floating _ => true | _ => false
  mem := true
  nbytes
  gpStart := 0
  gpCount := 0
  xmmIdx := none
  stackOff := off

def xmmSlot (nbytes idx : Nat) : ArgSlot where
  isStruct := false
  isFp := true
  mem := false
  nbytes
  gpStart := 0
  gpCount := 0
  xmmIdx := some idx
  stackOff := 0

def placeArg (st : LayoutState) (c : ArgClass) : ArgSlot × LayoutState :=
  match c with
  | .struct size =>
    let ebs := structRegEightbytes size
    if ebs > 0 ∧ st.gpNext + ebs ≤ 6 then
      (gpSlot c size st.gpNext ebs, { st with gpNext := st.gpNext + ebs })
    else
      (stackSlot c size st.stackOff, { st with stackOff := st.stackOff + alignUp size 8 })
  | .floating nbytes =>
    if st.xmmNext < 8 then
      (xmmSlot nbytes st.xmmNext, { st with xmmNext := st.xmmNext + 1 })
    else
      (stackSlot c nbytes st.stackOff, { st with stackOff := st.stackOff + 8 })
  | .general =>
    if st.gpNext < 6 then
      (gpSlot c 8 st.gpNext 1, { st with gpNext := st.gpNext + 1 })
    else
      (stackSlot c 8 st.stackOff, { st with stackOff := st.stackOff + 8 })

def placeArgs (st : LayoutState) : List ArgClass → List ArgSlot × LayoutState
  | [] => ([], st)
  | c :: cs =>
    let (slot, st') := placeArg st c
    let (slots, st'') := placeArgs st' cs
    (slot :: slots, st'')

def computeCallLayout (sret : Bool) (classes : List ArgClass) : CallLayout :=
  let (items, st) := placeArgs ⟨if sret then 1 else 0, 0, 0⟩ classes
  { sret, stackBytes := st.stackOff, items }

def Param.argClass (p : Param) : ArgClass :=
  if isStructOrUnionKind p.declType then .struct (p.fullType.elim 0 CType.size)
  else if typeIsFp p.declType then .floating (typeKindBytes p.declType)
  else .general

/-- The type of a struct argument beyond the declared parameters: only a variable's is found. -/
def extraStructType (cg : CodeGen) (arg : Expr) (parsed : Option CType) : Option CType :=
  match parsed, arg with
  | some t, _ => some t
  | none, .varRef name =>
    match cg.findVar name with
    | some lv => lv.fullType
    | none => (cg.findGlobal name).bind GlobalVar.fullType
  | none, _ => none

/-- An argument beyond the declared parameters goes by the kind `expr_result_type` predicts. -/
def extraArgClass (cg : CodeGen) (arg : Expr) (parsed : Option CType) (actual : TypeKind) :
    ArgClass :=
  if isStructOrUnionKind actual then .struct ((extraStructType cg arg parsed).elim 0 CType.size)
  else if typeIsFp actual then .floating 8
  else .general

def argRegs : List Reg := [.rdi, .rsi, .rdx, .rcx, .r8, .r9]

def argReg (i : Nat) : Reg := argRegs.getD i .rax

end ClaudeC99
