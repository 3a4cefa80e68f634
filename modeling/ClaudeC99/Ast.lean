import ClaudeC99.CType

/-! The syntax tree that the parser builds for function bodies. -/

namespace ClaudeC99

/-- The text of an integer literal: octal literals are rewritten to decimal by the lexer. -/
inductive NumText
  | dec (n : Int)
  | hex (n : Nat)
  deriving DecidableEq, Repr

def NumText.toInt : NumText → Int
  | dec n => n
  | hex n => n

inductive UnaryOp
  | plus | minus | tilde | bang
  deriving DecidableEq, Repr

inductive BinaryOp
  | add | sub | mul | div | mod
  | bitAnd | bitOr | bitXor | shiftLeft | shiftRight
  | eq | ne | lt | le | gt | ge
  | logicalAnd | logicalOr
  deriving DecidableEq, Repr

inductive IncDec
  | increment | decrement
  deriving DecidableEq, Repr

/-- `compoundLiteral` carries the frame slot that the scan before the body assigns to it. The parser
leaves the `declType` of a `binaryOp` void; the optimizer sets it on the `!=` nodes it makes. -/
inductive Expr
  | intLiteral (value : NumText) (declType : TypeKind) (isUnsigned : Bool)
  | charLiteral (byte : UInt8)
  | floatLiteral (text : String) (declType : TypeKind)
  | stringLiteral (bytes : List UInt8)
  | varRef (name : String)
  | assignment (name : String) (value : Expr)
  | assignmentTo (target value : Expr)
  | addrOf (operand : Expr)
  | deref (operand : Expr)
  | arrayIndex (base index : Expr)
  | memberAccess (base : Expr) (field : String)
  | arrowAccess (base : Expr) (field : String)
  | sizeofType (declType : TypeKind) (fullType : Option CType)
  | sizeofExpr (operand : Expr)
  | unaryOp (op : UnaryOp) (operand : Expr)
  | binaryOp (op : BinaryOp) (left right : Expr) (declType : TypeKind)
  | prefixIncDec (op : IncDec) (operand : Expr)
  | postfixIncDec (op : IncDec) (operand : Expr)
  | cast (declType : TypeKind) (isUnsigned : Bool) (fullType : Option CType) (operand : Expr)
  | functionCall (name : String) (declType : TypeKind) (args : List Expr)
  | indirectCall (callee : Expr) (args : List Expr)
  | conditional (cond thenExpr elseExpr : Expr)
  | comma (left right : Expr)
  | initializerList (elements : List Expr)
  | designatedMember (field : String) (value : Expr)
  | designatedIndex (index : Nat) (value : Expr)
  | compoundLiteral (declType : TypeKind) (fullType : Option CType) (isUnsigned : Bool)
      (slot : Nat) (initializer : Expr)
  | vaStart (ap last : Expr)
  | vaEnd (ap : Expr)
  | vaCopy (dst src : Expr)
  | vaArg (ap : Expr) (type : CType)

inductive StorageClass
  | none | external | static | typedef | auto | register
  deriving DecidableEq, Repr

structure DeclInfo where
  name : String
  declType : TypeKind
  fullType : Option CType
  isUnsigned : Bool
  isConst : Bool
  storage : StorageClass

/-- A `typedefDecl` stands for a declaration of a typedef, a type or a function in a block. It
carries the identifier declared there, which the parser's node has for typedefs only. -/
inductive Stmt
  | declaration (info : DeclInfo) (init : Option Expr)
  | declList (decls : List Stmt)
  | returnStmt (value : Option Expr)
  | ifStmt (cond : Expr) (thenBody : Stmt) (elseBody : Option Stmt)
  | whileStmt (cond : Expr) (body : Stmt)
  | doWhileStmt (body : Stmt) (cond : Expr)
  | forStmt (init : Option Stmt) (cond update : Option Expr) (body : Stmt)
  | switchStmt (value : Expr) (body : Stmt)
  | caseSection (value : Int) (body : Stmt)
  | defaultSection (body : Stmt)
  | breakStmt
  | continueStmt
  | gotoStmt (name : String)
  | labelStmt (name : String) (body : Stmt)
  | block (stmts : List Stmt)
  | exprStmt (value : Expr)
  | typedefDecl (declared : Option String)

structure Param where
  name : String
  declType : TypeKind
  fullType : Option CType
  isUnsigned : Bool
  isConst : Bool

/-- What call sites see of a function declaration or definition. -/
structure FunctionSig where
  name : String
  declType : TypeKind
  fullType : Option CType
  params : List Param
  isVariadic : Bool
  isNoPrototype : Bool

structure FunctionDef extends FunctionSig where
  storage : StorageClass
  body : List Stmt

end ClaudeC99
