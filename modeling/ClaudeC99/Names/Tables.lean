import ClaudeC99.Front.Parser
import ClaudeC99.Struct.Tags

/-! The parser's tables of typedef names, enumerators and tags, and what it takes a name for. Only
the typedef names are taken away at the end of a block; the parser keeps no table of the
variables. -/

namespace ClaudeC99.Names

open Preprocessor (Text)
open Front (EnumConst)
open Struct (TagKey TypeId TypeOp TypeTables)

/-- A `TypedefEntry`, with its type among the shared objects. `declaredAt` is not in the source: it
is the place of the declaration, and so it is in an `EnumConst`. -/
structure NamedTypedef where
  name : Text
  kind : TypeKind
  fullType : Option TypeId
  scopeDepth : Int
  declaredAt : Nat
  deriving DecidableEq

structure NamedConst extends EnumConst where
  declaredAt : Nat
  deriving DecidableEq

structure Tables where
  typedefs : List NamedTypedef
  scopeDepth : Int
  enumConsts : List NamedConst
  types : TypeTables

/-- What happens between two tokens of the translation unit. A scope is `counted` when the parser
counts its depth: that of a compound statement or of a `for` statement. The other scopes are those
of parameter lists, and of selection and iteration statements and their substatements. -/
inductive Event
  | enter (counted : Bool)
  | leave (counted : Bool)
  | typedefName (name : Text) (kind : TypeKind) (fullType : Option TypeId)
  | enumeratorName (name : Text)
  | enumerator (name : Text) (value : Int)
  | object (name : Text)
  | declareTag (key : TagKey)
  | types (op : TypeOp)

/-- What a name stands for; a declaration is known by its place. -/
inductive Meaning
  | typedefName (declaredAt : Nat) (kind : TypeKind) (fullType : Option TypeId)
  | enumConst (declaredAt : Nat) (value : Int)
  | ordinary
  deriving DecidableEq

namespace Tables

def parserInit : Tables := ⟨[], 0, [], Struct.parserTables⟩

def findTypedef (p : Tables) (name : Text) : Option NamedTypedef :=
  p.typedefs.reverse.find? fun e => e.name = name

def registerTypedef (p : Tables) (name : Text) (kind : TypeKind) (fullType : Option TypeId)
    (declaredAt : Nat) : Except String Tables :=
  if p.typedefs.any fun e => e.scopeDepth = p.scopeDepth ∧ e.name = name then
    .error ("error: duplicate typedef '" ++ String.ofList name ++ "' in this scope")
  else
    let entry : NamedTypedef := ⟨name, kind, fullType, p.scopeDepth, declaredAt⟩
    .ok { p with typedefs := p.typedefs ++ [entry] }

def enterScope (p : Tables) : Tables := { p with scopeDepth := p.scopeDepth + 1 }

def leaveScope (p : Tables) : Tables :=
  { p with
    typedefs := p.typedefs.filter fun e => e.scopeDepth < p.scopeDepth
    scopeDepth := p.scopeDepth - 1 }

/-- `parse_enum_specifier` at the name of an enumerator. -/
def checkEnumerator (p : Tables) (name : Text) : Except String Tables :=
  if p.enumConsts.any fun c => c.name = name then
    .error ("error: duplicate enumerator '" ++ String.ofList name ++ "'")
  else .ok p

/-- `parse_enum_specifier` behind the enumerator's value, which may hold declarations itself. -/
def pushEnumerator (p : Tables) (name : Text) (value : Int) (declaredAt : Nat) : Tables :=
  { p with enumConsts := p.enumConsts ++ [⟨⟨name, value⟩, declaredAt⟩] }

def findEnumConst (p : Tables) (name : Text) : Option NamedConst :=
  p.enumConsts.find? fun c => c.name = name

/-- What the parser takes a name for. Where a type may start it looks for a typedef name first;
`parse_primary` looks for an enumerator, and makes a variable of any other name. -/
def meaning (p : Tables) (typeMayStart : Bool) (name : Text) : Meaning :=
  match if typeMayStart then p.findTypedef name else none with
  | some e => .typedefName e.declaredAt e.kind e.fullType
  | none =>
    match p.findEnumConst name with
    | some c => .enumConst c.declaredAt c.value
    | none => .ordinary

/-- The parser does nothing with the declaration of a variable or a parameter. -/
def step (p : Tables) (declaredAt : Nat) : Event → Option Tables
  | .enter counted => some (if counted then p.enterScope else p)
  | .leave counted => some (if counted then p.leaveScope else p)
  | .typedefName name kind fullType => (p.registerTypedef name kind fullType declaredAt).toOption
  | .enumeratorName name => (p.checkEnumerator name).toOption
  | .enumerator name value => some (p.pushEnumerator name value declaredAt)
  | .object _ => some p
  | .declareTag key => some { p with types := p.types.refer key }
  | .types op => (Struct.step p.types op).map fun types => { p with types }

end Tables

/-- The tables after what has happened, none when one of the declarations is rejected. -/
def run (log : List Event) : Option Tables :=
  log.zipIdx.foldlM (fun p event => p.step event.2 event.1) Tables.parserInit

theorem run_concat (log : List Event) (event : Event) :
    run (log ++ [event]) = (run log).bind fun p => p.step log.length event := by
  rw [run, List.zipIdx_append, List.foldlM_append]
  simp [run]

/-- The type that the definition of a tag made. -/
def typeAt (log : List Event) (key : TagKey) (place : Nat) : Option TypeId :=
  (run (log.take (place + 1))).bind fun p => p.types.entry key

end ClaudeC99.Names
