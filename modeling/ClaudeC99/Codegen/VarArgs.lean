import ClaudeC99.Codegen.CallLayout
import ClaudeC99.Codegen.Address

/-! The `__builtin_va_*` forms. A `va_list` is the 24-byte local slot of its variable. -/

namespace ClaudeC99

open X86

/-- `node->value`, for the node forms whose value can be the name of a variable. -/
def Expr.nameValue : Expr → Option String
  | .varRef name => some name
  | .assignment name _ => some name
  | .memberAccess _ field => some field
  | .arrowAccess _ field => some field
  | .functionCall name _ _ => some name
  | _ => none

def vaListLocal (ap : Expr) (message : String) : Gen LocalVar := do
  let cg ← get
  match ap.nameValue.bind cg.findVar with
  | some lv => pure lv
  | none => throw message

def storeFrame (w : Width) (offset : Int) (r : Reg) : Asm := .store w (frame offset) r
def loadFrame (w : Width) (r : Reg) (offset : Int) : Asm := movMem w r (frame offset)

def genVaStart (ap : Expr) : Gen Ann := do
  let lv ← vaListLocal ap "error: va_start: 'ap' is not a local variable"
  let cg ← get
  let off : Int := lv.offset
  emitAll [
    .storeImm .dword (frame off) (cg.variadicNamedGpParams * 8),
    .storeImm .dword (frame (off - 4)) (48 + cg.variadicNamedXmmParams * 16),
    .lea .rax (incoming (16 + cg.variadicNamedStackParams * 8)),
    storeFrame .qword (off - 8) .rax,
    .lea .rax (frame cg.variadicRegSaveOffset),
    storeFrame .qword (off - 16) .rax]
  pure (.ofKind .void)

def genVaCopy (dst src : Expr) : Gen Ann := do
  let message := "error: va_copy: operand is not a local variable"
  let d ← vaListLocal dst message
  let s ← vaListLocal src message
  let dstOff : Int := d.offset
  let srcOff : Int := s.offset
  emitAll [
    loadFrame .qword .rax srcOff, storeFrame .qword dstOff .rax,
    loadFrame .qword .rax (srcOff - 8), storeFrame .qword (dstOff - 8) .rax,
    loadFrame .qword .rax (srcOff - 16), storeFrame .qword (dstOff - 16) .rax]
  pure (.ofKind .void)

def checkVaArgType (type : CType) : Gen Unit := do
  match type.kind with
  | .void | .bool | .char | .short =>
    throw s!"error: va_arg: type {type.kind.name} is not supported; use int or a larger type"
  | .float =>
    throw ("error: va_arg: 'float' is not valid; use 'double'" ++
      " (float arguments are promoted to double)")
  | .struct | .union =>
    errorIf (type.size = 0) "error: va_arg: struct/union type has unknown size"
  | .array => throw "error: va_arg: array types are not supported"
  | _ => pure ()

/-- Tests for register exhaustion, then takes the register path or the overflow path. -/
def emitVaPaths (labelId : Nat) (exhausted : Cond) (join : LabelKind)
    (test reg overflow : List Asm) : Gen Unit := do
  let _ ← emitBranch exhausted .vaArgOvf join labelId (emitAll test) (emitAll reg)
    (emitAll overflow)

def genVaArgDouble (off : Int) (labelId : Nat) : Gen Unit :=
  emitVaPaths labelId .ge .vaArgDone
    [loadFrame .qword .rcx (off - 16), loadFrame .dword .rax (off - 4),
      aluImm .cmp .dword .rax 176]
    [aluReg .add .qword .rax .rcx, .fmov .double 0 (.mem (through .rax)),
      .aluMem .add .dword (frame (off - 4)) 16]
    [loadFrame .qword .rax (off - 8), .fmov .double 0 (.mem (through .rax)),
      .aluMem .add .qword (frame (off - 8)) 8]

def nextOverflowWord (off : Int) : List Asm :=
  [loadFrame .qword .rdx (off - 8), .lea .rcx (.based .rdx 8), storeFrame .qword (off - 8) .rcx]

/-- Copies a struct of `size` bytes from the argument area to the slot at `tempOff`. -/
def fetchVaStruct (off tempOff : Int) (labelId size : Nat) : Gen Unit :=
  match structRegEightbytes size with
  | 0 =>
    emitAll ([loadFrame .qword .rdx (off - 8), .lea .rcx (.based .rdx (alignUp size 8)),
      storeFrame .qword (off - 8) .rcx, .lea .rdi (frame tempOff), movReg .qword .rsi .rdx] ++
      emitStructCopy size)
  | 1 => do
    emitVaPaths labelId .ae .vaArgLoad
      [loadFrame .dword .rax off, aluImm .cmp .dword .rax 48]
      [loadFrame .qword .rcx (off - 16), .lea .rdx (.indexed .rcx .rax),
        .aluMem .add .dword (frame off) 8]
      (nextOverflowWord off)
    emitAll [movMem .qword .rax (through .rdx), storeFrame .qword tempOff .rax]
  | _ =>
    emitVaPaths labelId .a .vaArgDone
      [loadFrame .dword .rax off, aluImm .cmp .dword .rax 32]
      [loadFrame .qword .rcx (off - 16), aluReg .add .qword .rcx .rax,
        movMem .qword .r11 (through .rcx), movMem .qword .r10 (.based .rcx 8),
        storeFrame .qword tempOff .r11, storeFrame .qword (tempOff - 8) .r10,
        .aluMem .add .dword (frame off) 16]
      [loadFrame .qword .rdx (off - 8),
        movMem .qword .r11 (through .rdx), movMem .qword .r10 (.based .rdx 8),
        storeFrame .qword tempOff .r11, storeFrame .qword (tempOff - 8) .r10,
        .aluMem .add .qword (frame (off - 8)) (alignUp size 8)]

def genVaArgStruct (off : Int) (labelId : Nat) (type : CType) : Gen Unit := do
  let temp ← claimStructRetTemp type.size
  fetchVaStruct off temp labelId type.size
  emit (.lea .rax (frame temp))

def genVaArgGeneral (off : Int) (labelId : Nat) (type : CType) : Gen Unit := do
  emitVaPaths labelId .ae .vaArgLoad
    [loadFrame .dword .rax off, aluImm .cmp .dword .rax 48]
    [loadFrame .qword .rcx (off - 16), .lea .rdx (.indexed .rcx .rax),
      aluImm .add .dword .rax 8, storeFrame .dword off .rax]
    (nextOverflowWord off)
  match type.kind with
  | .int => emit (movMem .dword .rax (through .rdx))
  | .long | .longLong | .unsignedLongLong | .pointer =>
    emit (movMem .qword .rax (through .rdx))
  | _ => throw "error: va_arg: type not in GP register class"

def genVaArg (ap : Expr) (type : CType) : Gen Ann := do
  checkVaArgType type
  let lv ← vaListLocal ap "error: va_arg: 'ap' is not a local variable"
  let off : Int := lv.offset
  let labelId ← newLabel
  if type.kind = .double then do
    genVaArgDouble off labelId
    pure ⟨.double, some type, false⟩
  else if isStructOrUnionKind type.kind then do
    genVaArgStruct off labelId type
    pure ⟨type.kind, some type, false⟩
  else do
    genVaArgGeneral off labelId type
    pure ⟨type.kind, some type, !type.isSigned⟩

end ClaudeC99
