import ClaudeC99.Ast
import ClaudeC99.Lib.Bump
import ClaudeC99.Lib.X86

/-! The code generator's state, its emission primitives and its symbol tables. -/

namespace ClaudeC99

open X86

inductive LabelKind
  | elseBranch | endIf | whileStart | whileEnd | doStart | doEnd | forStart | forEnd
  | continueTo | breakTo | switchEnd | switchSec
  | andFalse | andEnd | orTrue | orEnd | condFalse | condEnd
  | vaArgOvf | vaArgLoad | vaArgDone
  deriving DecidableEq, Repr

def LabelKind.text : LabelKind → String
  | .elseBranch => "else"
  | .endIf => "end"
  | .whileStart => "while_start"
  | .whileEnd => "while_end"
  | .doStart => "do_start"
  | .doEnd => "do_end"
  | .forStart => "for_start"
  | .forEnd => "for_end"
  | .continueTo => "continue"
  | .breakTo => "break"
  | .switchEnd => "switch_end"
  | .switchSec => "switch_sec"
  | .andFalse => "and_false"
  | .andEnd => "and_end"
  | .orTrue => "or_true"
  | .orEnd => "or_end"
  | .condFalse => "cond_false"
  | .condEnd => "cond_end"
  | .vaArgOvf => "va_arg_ovf"
  | .vaArgLoad => "va_arg_load"
  | .vaArgDone => "va_arg_done"

/-- `.L_<kind>_<id>` and `.L_usr_<function>_<name>`; an id of -1 stands for "no such label". -/
inductive Label
  | numbered (kind : LabelKind) (id : Int)
  | user (func name : String)
  deriving DecidableEq, Repr

def Label.text : Label → String
  | numbered kind id => ".L_" ++ kind.text ++ "_" ++ toString id
  | user func name => ".L_usr_" ++ func ++ "_" ++ name

inductive Symbol
  | named (name : String)
  | string (index : Nat)
  | fpConst (index : Nat)
  | fpSignMask (p : FpWidth)
  | fpOne (p : FpWidth)
  | static (func : String) (index : Nat)
  | staticFunc (func : String) (index : Nat)
  deriving DecidableEq, Repr

abbrev Asm := Instr Label Symbol
abbrev Address := Addr Symbol

/-- A printed line, with the value `push_depth` had when it was printed. -/
structure Line where
  instr : Asm
  pushDepth : Nat
  deriving DecidableEq, Repr

structure LocalVar where
  name : String
  offset : Nat
  size : Nat
  kind : TypeKind
  fullType : Option CType
  isConst : Bool
  isUnsigned : Bool
  isStatic : Bool
  staticLabel : Symbol
  isRegister : Bool

structure LocalStaticVar where
  label : Symbol
  kind : TypeKind
  fullType : Option CType
  size : Nat
  isInitialized : Bool
  initValue : Int
  isUnsigned : Bool
  initNode : Option Expr
  isLabelInit : Bool

structure GlobalVar where
  name : String
  size : Nat
  kind : TypeKind
  fullType : Option CType
  isConst : Bool
  isUnsigned : Bool

structure BreakFrame where
  breakLabel : Int
  continueLabel : Int

/-- Statement nodes are told apart by their path of child indices from the switch body. -/
structure SwitchLabel where
  node : List Nat
  caseValue : Option Int
  label : Int

structure SwitchCtx where
  entries : List SwitchLabel
  defaultLabel : Int

structure FpLiteral where
  rawText : String
  isDouble : Bool

/-- A byte range `[rbp - offset, rbp - offset + size)` handed out to one object. -/
abbrev Slot := Bump.Block

/-- `slots` and `temps` are the only fields the source does not have: they record every range
handed out, to objects and to struct temporaries. -/
structure CodeGen where
  output : List Line
  labelCount : Nat
  locals : List LocalVar
  globals : List GlobalVar
  stackOffset : Nat
  scopeStart : Nat
  pushDepth : Nat
  breakStack : List BreakFrame
  switchStack : List SwitchCtx
  userLabels : List String
  currentFunc : String
  currentReturnType : TypeKind
  currentReturnFullType : Option CType
  functions : List FunctionSig
  structFields : Nat → List StructField
  stringPool : List (List UInt8)
  fpLiterals : List FpLiteral
  warningsAreErrors : Bool
  localStatics : List LocalStaticVar
  variadicRegSaveOffset : Nat
  variadicNamedGpParams : Nat
  variadicNamedXmmParams : Nat
  variadicNamedStackParams : Nat
  currentSretOffset : Nat
  structRetScratchCursor : Nat
  slots : List Slot
  temps : List Slot

/-- The generator before its first function, with the declarations of the translation unit. -/
def codegenInit (functions : List FunctionSig) (structFields : Nat → List StructField) :
    CodeGen where
  output := []
  labelCount := 0
  locals := []
  globals := []
  stackOffset := 0
  scopeStart := 0
  pushDepth := 0
  breakStack := []
  switchStack := []
  userLabels := []
  currentFunc := ""
  currentReturnType := .int
  currentReturnFullType := none
  functions
  structFields
  stringPool := []
  fpLiterals := []
  warningsAreErrors := false
  localStatics := []
  variadicRegSaveOffset := 0
  variadicNamedGpParams := 0
  variadicNamedXmmParams := 0
  variadicNamedStackParams := 0
  currentSretOffset := 0
  structRetScratchCursor := 0
  slots := []
  temps := []

abbrev Gen := StateT CodeGen (Except String)

def emit (i : Asm) : Gen Unit :=
  modify fun cg => { cg with output := cg.output ++ [⟨i, cg.pushDepth⟩] }

def emitAll : List Asm → Gen Unit
  | [] => pure ()
  | i :: is => do
    emit i
    emitAll is

def pushDepthInc : Gen Unit := modify fun cg => { cg with pushDepth := cg.pushDepth + 1 }
def pushDepthDec : Gen Unit := modify fun cg => { cg with pushDepth := cg.pushDepth - 1 }

def pushReg (r : Reg) : Gen Unit := do
  emit (.push r)
  pushDepthInc

def popReg (r : Reg) : Gen Unit := do
  emit (.pop r)
  pushDepthDec

def newLabel : Gen Nat := do
  let cg ← get
  set { cg with labelCount := cg.labelCount + 1 }
  pure cg.labelCount

def emitLabel (kind : LabelKind) (id : Int) : Gen Unit := emit (.label (.numbered kind id))
def emitJmp (kind : LabelKind) (id : Int) : Gen Unit := emit (.jmp (.numbered kind id))
def emitJcc (c : Cond) (kind : LabelKind) (id : Int) : Gen Unit :=
  emit (.jcc c (.numbered kind id))

/-- `test; jcc k₁; first; jmp k₂; k₁: second; k₂:` -/
def emitBranch {α β : Type} (c : Cond) (k₁ k₂ : LabelKind) (id : Nat) (test : Gen Unit)
    (first : Gen α) (second : Gen β) : Gen (α × β) := do
  test
  emitJcc c k₁ id
  let x ← first
  emitJmp k₂ id
  emitLabel k₁ id
  let y ← second
  emitLabel k₂ id
  pure (x, y)

def errorIf (c : Prop) [Decidable c] (message : String) : Gen Unit :=
  if c then throw message else pure ()

def onlyIf (c : Prop) [Decidable c] (m : Gen Unit) : Gen Unit := if c then m else pure ()

/-- Warnings only stop compilation under `-Werror`. -/
def warn (message : String) : Gen Unit := do
  let cg ← get
  errorIf cg.warningsAreErrors message

def typeKindBytes (kind : TypeKind) : Nat := kind.size

def typeIsFp (kind : TypeKind) : Bool := kind.isFloating

def isStructOrUnionKind (kind : TypeKind) : Bool := kind.isAggregate

def alignUp (n align : Nat) : Nat := Bump.roundUp n align

def CodeGen.findVar (cg : CodeGen) (name : String) : Option LocalVar :=
  cg.locals.reverse.find? (·.name = name)

def CodeGen.findGlobal (cg : CodeGen) (name : String) : Option GlobalVar :=
  cg.globals.find? (·.name = name)

def CodeGen.findFunctionDecl (cg : CodeGen) (name : String) : Option FunctionSig :=
  cg.functions.find? (·.name = name)

def CodeGen.fields (cg : CodeGen) : CType → List StructField
  | .record _ tag _ _ _ => cg.structFields tag
  | _ => []

def CodeGen.findStructField (cg : CodeGen) (st : CType) (name : String) : Option StructField :=
  (cg.fields st).find? (·.name = name)

def typeConstCopy : CType → CType
  | .scalar k s _ => .scalar k s true
  | .pointer b _ => .pointer b true
  | .array b n _ => .array b n true
  | .record u t n l _ => .record u t n l true
  | .function r ps => .function r ps

def scalarTypeOfKind : TypeKind → CType
  | .char => .typeChar
  | .short => .typeShort
  | .long => .typeLong
  | .longLong => .typeLongLong
  | .unsignedLongLong => .typeUnsignedLongLong
  | _ => .typeInt

def localVarType (lv : LocalVar) : Option CType :=
  match lv.fullType with
  | some t => some t
  | none =>
    if isStructOrUnionKind lv.kind then none
    else if lv.isConst then some (typeConstCopy (scalarTypeOfKind lv.kind))
    else some (scalarTypeOfKind lv.kind)

def globalVarType (gv : GlobalVar) : CType :=
  match gv.fullType with
  | some t => t
  | none =>
    if gv.isConst then typeConstCopy (scalarTypeOfKind gv.kind) else scalarTypeOfKind gv.kind

def structFieldType (f : StructField) : CType := f.fullType.getD (scalarTypeOfKind f.kind)

def typeFromKind (kind : TypeKind) : CType :=
  if kind = .void then .typeVoid else scalarTypeOfKind kind

def addLocal (lv : LocalVar) : Gen Unit :=
  modify fun cg => { cg with locals := cg.locals ++ [lv] }

def recordSlot (offset size align : Nat) : Gen Unit :=
  modify fun cg => { cg with slots := cg.slots ++ [⟨offset, size, align⟩] }

/-- The caller passes the flags that the source sets on the new entry right after the call. -/
def codegenAddVar (name : String) (size align : Nat) (kind : TypeKind) (fullType : Option CType)
    (isConst isUnsigned isRegister : Bool) : Gen Nat := do
  let cg ← get
  let offset := alignUp (cg.stackOffset + size) align
  set { cg with stackOffset := offset }
  recordSlot offset size align
  addLocal {
    name, offset, size, kind, fullType, isConst, isUnsigned
    isStatic := false
    staticLabel := .named ""
    isRegister }
  pure offset

/-- No struct asks for more than 8-byte alignment. -/
def claimStructRetTemp (size : Nat) : Gen Nat := do
  let cg ← get
  let offset := cg.structRetScratchCursor + alignUp size 8
  set { cg with
    structRetScratchCursor := offset
    temps := cg.temps ++ [Bump.Block.mk offset size 8] }
  pure offset

def codegenInternFpLiteral (rawText : String) (kind : TypeKind) : Gen Nat := do
  let cg ← get
  match cg.fpLiterals.findIdx? (·.rawText = rawText) with
  | some i => pure i
  | none =>
    set { cg with fpLiterals := cg.fpLiterals ++ [FpLiteral.mk rawText (kind = TypeKind.double)] }
    pure cg.fpLiterals.length

end ClaudeC99
