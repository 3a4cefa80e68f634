import ClaudeC99.Front.Globals

/-! The parser's table of functions, which accepts or rejects each declaration. -/

namespace ClaudeC99.Front

open Tables (updateFirst)

def funcMaxParams : Nat := 16

structure FuncSig where
  name : String
  paramCount : Int
  hasDefinition : Bool
  returnType : TypeKind
  paramTypes : List TypeKind
  storage : StorageClass
  isVariadic : Bool
  hasNoPrototype : Bool

def parserFindFunction (funcs : List FuncSig) (name : String) : Option FuncSig :=
  funcs.find? (·.name = name)

/-- The array `old` with the first `count` types of `new` in their places. The callers bound
`count` by `funcMaxParams`. -/
def overwriteTypes (count : Int) (new old : List TypeKind) : List TypeKind :=
  new.take count.toNat ++ old.drop count.toNat

/-- The first of `count` places where the two arrays differ. -/
def typeMismatch (count : Int) (existing new : List TypeKind) : Option Nat :=
  (List.range count.toNat).find? fun i => existing[i]? ≠ new[i]?

namespace FuncSig

/-- The count, the return type and, where there are any, the parameter types of a later
declaration. -/
def patch (sig : FuncSig) (paramCount : Int) (returnType : TypeKind)
    (paramTypes : Option (List TypeKind)) : FuncSig :=
  { sig with
    paramCount := paramCount
    returnType := returnType
    paramTypes := match paramTypes with
      | some types => overwriteTypes paramCount types sig.paramTypes
      | none => sig.paramTypes }

/-- The row to check the declaration against: an unknown parameter list takes the new one. -/
def resolve (sig : FuncSig) (name : String) (paramCount : Int) (returnType : TypeKind)
    (paramTypes : Option (List TypeKind)) : Except String FuncSig :=
  if sig.hasNoPrototype = true ∧ 0 ≤ paramCount then
    .ok (sig.patch paramCount returnType paramTypes)
  else if sig.paramCount = -1 then .ok (sig.patch paramCount returnType paramTypes)
  else if paramCount ≠ -1 ∧ sig.paramCount ≠ paramCount then
    .error s!"error: function '{name}' parameter count mismatch ({sig.paramCount} vs {paramCount})"
  else .ok sig

def checkTypes (sig : FuncSig) (name : String) (paramCount : Int) (returnType : TypeKind)
    (paramTypes : Option (List TypeKind)) : Except String Unit :=
  if sig.returnType ≠ returnType then .error s!"error: function '{name}' return type mismatch"
  else if sig.hasNoPrototype = true then .ok ()
  else match typeMismatch paramCount sig.paramTypes (paramTypes.getD []) with
    | some i => .error s!"error: function '{name}' parameter type mismatch at position {i + 1}"
    | none => .ok ()

end FuncSig

def parserRegisterFunction (globals : List GlobalObjSig) (funcs : List FuncSig) (name : String)
    (paramCount : Int) (isDefinition : Bool) (returnType : TypeKind)
    (paramTypes : Option (List TypeKind)) (sc : StorageClass) (isVariadic isNoPrototype : Bool) :
    Except String (List FuncSig) := do
  if (parserFindGlobal globals name).isSome = true then
    .error s!"error: '{name}' redeclared as a different kind of symbol"
  else match parserFindFunction funcs name with
    | some existing =>
      if decide (existing.storage = .static) ≠ decide (sc = .static) then
        .error s!"error: conflicting linkage for '{name}'"
      else
        let sig ← existing.resolve name paramCount returnType paramTypes
        sig.checkTypes name paramCount returnType paramTypes
        if isDefinition = true ∧ sig.hasDefinition = true then
          .error s!"error: duplicate function definition '{name}'"
        else
          let sig := { sig with hasDefinition := sig.hasDefinition || isDefinition }
          .ok (updateFirst (·.name = name) (fun _ => sig) funcs)
    | none =>
      if funcMaxParams < paramCount then
        .error <| s!"error: function '{name}' has {paramCount} parameters; " ++
          s!"max supported is {funcMaxParams}"
      else
        let types := overwriteTypes paramCount (paramTypes.getD [])
          (List.replicate funcMaxParams .void)
        .ok (funcs ++ [⟨name, paramCount, isDefinition, returnType, types, sc, isVariadic,
          isNoPrototype⟩])

end ClaudeC99.Front
