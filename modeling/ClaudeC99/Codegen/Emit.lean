import ClaudeC99.Codegen.Typing

/-! Straight-line instruction sequences shared by the expression forms. -/

namespace ClaudeC99

open X86

/-- What `codegen_expression` leaves on the node it compiled. -/
structure Ann where
  resultType : TypeKind
  fullType : Option CType
  isUnsigned : Bool

def Ann.ofKind (kind : TypeKind) : Ann := ⟨kind, none, false⟩

def Ann.pointerTo (base : CType) : Ann := ⟨.pointer, some (.typePointer base), false⟩

/-- `rax` holds a value of all 64 bits. -/
def isLongKind (kind : TypeKind) : Bool :=
  kind = .long ∨ kind = .longLong ∨ kind = .unsignedLongLong ∨ kind = .pointer

/-- The operation width for a value of kind `kind`. -/
def widthOfKind (kind : TypeKind) : Width := if kind = .long then .qword else .dword

/-- `[rbp - offset]` -/
def frame (offset : Int) : Address := .based .rbp (-offset)

/-- `[rbp + offset]` -/
def incoming (offset : Int) : Address := .based .rbp offset

/-- `[rsp + off]` -/
def stackArg (off : Nat) : Address := .based .rsp off

def through (r : Reg) : Address := .based r 0

def rel (s : Symbol) : Address := .symbol s 0

def movReg (w : Width) (dst src : Reg) : Asm := .mov w dst (.reg src)
def movImm (w : Width) (dst : Reg) (n : Int) : Asm := .mov w dst (.imm n)
def movMem (w : Width) (dst : Reg) (a : Address) : Asm := .mov w dst (.mem a)
def aluReg (op : Alu) (w : Width) (dst src : Reg) : Asm := .alu op w dst (.reg src)
def aluImm (op : Alu) (w : Width) (dst : Reg) (n : Int) : Asm := .alu op w dst (.imm n)

def subRsp (bytes : Nat) : Asm := aluImm .sub .qword .rsp bytes
def addRsp (bytes : Nat) : Asm := aluImm .add .qword .rsp bytes

def movsxdRax : Asm := .movsx .qword .dword .rax (.reg .rax)
def movzxEaxAl : Asm := .movzx .dword .byte .rax (.reg .rax)
def movzxRaxAl : Asm := .movzx .qword .byte .rax (.reg .rax)

def loadSized (size : Nat) (isUnsigned : Bool) (a : Address) : Asm :=
  match size with
  | 1 => if isUnsigned then .movzx .dword .byte .rax (.mem a) else .movsx .dword .byte .rax (.mem a)
  | 2 => if isUnsigned then .movzx .dword .word .rax (.mem a) else .movsx .dword .word .rax (.mem a)
  | 8 => movMem .qword .rax a
  | _ => movMem .dword .rax a

def storeSized (size : Nat) (a : Address) : Asm :=
  match size with
  | 1 => .store .byte a .rax
  | 2 => .store .word a .rax
  | 8 => .store .qword a .rax
  | _ => .store .dword a .rax

def emitLoadLocal (offset : Int) (size : Nat) (isUnsigned : Bool) : List Asm :=
  [loadSized size isUnsigned (frame offset)]

def emitLoadGlobal (name : Symbol) (size : Nat) (isUnsigned : Bool) : List Asm :=
  [loadSized size isUnsigned (rel name)]

def storeWidened (size : Nat) (srcIsLong : Bool) (a : Address) : List Asm :=
  if size = 8 ∧ srcIsLong = false then [movsxdRax, storeSized size a] else [storeSized size a]

def emitStoreLocal (offset : Int) (size : Nat) (srcIsLong : Bool) : List Asm :=
  storeWidened size srcIsLong (frame offset)

def emitStoreGlobal (name : Symbol) (size : Nat) (srcIsLong : Bool) : List Asm :=
  storeWidened size srcIsLong (rel name)

def fpWidth (kind : TypeKind) : FpWidth := if kind = .float then .single else .double

def loadFp (kind : TypeKind) (a : Address) : Asm := .fmov (fpWidth kind) 0 (.mem a)
def storeFp (kind : TypeKind) (a : Address) : Asm := .fstore (fpWidth kind) a 0

def LocalVar.address (lv : LocalVar) : Address :=
  if lv.isStatic then rel lv.staticLabel else frame lv.offset

def GlobalVar.symbol (gv : GlobalVar) : Symbol := .named gv.name

def loadLocalVar (lv : LocalVar) : List Asm :=
  if lv.isStatic then emitLoadGlobal lv.staticLabel lv.size lv.isUnsigned
  else emitLoadLocal lv.offset lv.size lv.isUnsigned

def storeLocalVar (lv : LocalVar) (srcIsLong : Bool) : List Asm :=
  if lv.isStatic then emitStoreGlobal lv.staticLabel lv.size srcIsLong
  else emitStoreLocal lv.offset lv.size srcIsLong

/-- `rep movsb` of `nbytes` bytes from `[rsi]` to `[rdi]`. -/
def emitStructCopy (nbytes : Nat) : List Asm := [movImm .qword .rcx nbytes, .repMovsb]

def emitIntConvert (src dst : TypeKind) : List Asm :=
  if typeKindBytes src = typeKindBytes dst then []
  else match typeKindBytes dst with
    | 8 => [movsxdRax]
    | 2 => [.movsx .dword .word .rax (.reg .rax)]
    | 1 => [.movsx .dword .byte .rax (.reg .rax)]
    | _ => []

def emitConvert (src dst : TypeKind) : List Asm :=
  if src = dst then []
  else if !typeIsFp src && typeIsFp dst then [.cvtFromInt (fpWidth dst) 0 .rax]
  else if typeIsFp src && !typeIsFp dst then [.cvtToInt (fpWidth src) .rax 0]
  else if src = .float ∧ dst = .double then [.cvtWiden 0 0]
  else if src = .double ∧ dst = .float then [.cvtNarrow 0 0]
  else emitIntConvert src dst

def emitFpWidenIfNeeded (src dst : TypeKind) : List Asm :=
  if src = dst then []
  else if !typeIsFp src && typeIsFp dst then [.cvtFromInt (fpWidth dst) 0 .rax]
  else if src = .float ∧ dst = .double then [.cvtWiden 0 0]
  else if src = .double ∧ dst = .float then [.cvtNarrow 0 0]
  else []

def emitBoolNormalize (isLongValue : Bool) : List Asm :=
  [aluReg .test (if isLongValue then .qword else .dword) .rax .rax, .setcc .ne .rax, movzxEaxAl]

def emitFpBoolToRax (kind : TypeKind) : List Asm :=
  let p := if kind = .double then FpWidth.double else .single
  [.fxor p 1 (.xmm 1), .ucomi p 0 1, .setcc .ne .rax, .setcc .p .rcx,
    aluReg .or .byte .rax .rcx, movzxRaxAl]

def emitCondCmpZero (kind : TypeKind) : List Asm :=
  if typeIsFp kind then emitFpBoolToRax kind ++ [aluImm .cmp .dword .rax 0]
  else if kind = .long then [aluImm .cmp .qword .rax 0]
  else [aluImm .cmp .dword .rax 0]

/-- The width of a struct field that has no `full_type` of its own. -/
def scalarFieldSize (kind : TypeKind) : Nat :=
  match kind with
  | .char => 1
  | .short => 2
  | .longLong | .unsignedLongLong | .long | .pointer => 8
  | _ => 4

def fieldSize (f : StructField) : Nat :=
  let sz := f.fullType.elim 0 CType.size
  if sz = 0 then scalarFieldSize f.kind else sz

def addOffset (offset : Nat) : List Asm :=
  if offset ≠ 0 then [aluImm .add .qword .rax offset] else []

def bitfieldMask (f : StructField) : Nat :=
  if f.bitWidth ≥ 32 then 0xFFFFFFFF else 2 ^ f.bitWidth - 1

def bitfieldClearMask (f : StructField) : Nat :=
  0xFFFFFFFF - bitfieldMask f * 2 ^ f.bitOffset % 2 ^ 32

def maskField (f : StructField) : List Asm :=
  if f.bitWidth < 32 then [aluImm .and .dword .rax (bitfieldMask f)] else []

def shiftField (op : Shift) (f : StructField) : List Asm :=
  if f.bitOffset > 0 then [.shift op .dword .rax (.imm f.bitOffset)] else []

def loadBitfield (f : StructField) : List Asm :=
  movMem .dword .rax (through .rax) :: shiftField .shr f ++ maskField f

def copyBytesLocal (dst src : Int) : Nat → List Asm
  | 0 => []
  | n + 1 => copyBytesLocal dst src n ++
      [.movzx .dword .byte .rax (.mem (frame (src - n))), .store .byte (frame (dst - n)) .rax]

def zeroBytes (offset : Int) : Nat → List Asm
  | 0 => []
  | n + 1 => zeroBytes offset n ++ [.storeImm .byte (frame (offset - n)) 0]

end ClaudeC99
