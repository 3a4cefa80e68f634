import ClaudeC99.Ast
import ClaudeC99.Lib.Tables

/-! The parser's table of file-scope objects, which accepts or rejects each declaration. -/

namespace ClaudeC99.Front

open Tables (updateFirst)

structure GlobalObjSig where
  name : String
  kind : TypeKind
  storage : StorageClass
  fullType : Option CType
  isDefined : Bool

def funcPtrTypesEqual : CType → CType → Bool
  | .pointer (.function r ps) _, .pointer (.function r' ps') _ =>
    r.kind = r'.kind ∧ ps.map CType.kind = ps'.map CType.kind
  | _, _ => false

def isFunctionPointer : CType → Bool
  | .pointer (.function _ _) _ => true
  | _ => false

def conflictingSignatures : Option CType → Option CType → Bool
  | some ef, some nf => isFunctionPointer ef && isFunctionPointer nf && !funcPtrTypesEqual ef nf
  | _, _ => false

def conflictingType (existing : GlobalObjSig) (kind : TypeKind) (fullType : Option CType) : Bool :=
  existing.kind ≠ kind ∨
    kind = .pointer ∧ conflictingSignatures existing.fullType fullType = true

def parserFindGlobal (globals : List GlobalObjSig) (name : String) : Option GlobalObjSig :=
  globals.find? (·.name = name)

def parserRegisterGlobal (globals : List GlobalObjSig) (name : String) (kind : TypeKind)
    (sc : StorageClass) (fullType : Option CType) (hasInit : Bool) :
    Except String (List GlobalObjSig) :=
  let update (f : GlobalObjSig → GlobalObjSig) := updateFirst (·.name = name) f globals
  match parserFindGlobal globals name with
  | none => .ok (globals ++ [⟨name, kind, sc, fullType, hasInit⟩])
  | some existing =>
    if conflictingType existing kind fullType = true then
      .error s!"error: conflicting type for global '{name}'"
    else if decide (existing.storage = .static) ≠ decide (sc = .static) then
      .error s!"error: conflicting linkage for '{name}'"
    else if existing.storage = .static ∨ existing.storage ≠ .external ∧ sc ≠ .external then
      if existing.isDefined = true ∧ hasInit = true then
        .error s!"error: duplicate definition of '{name}'"
      else .ok (if hasInit = true then update ({ · with isDefined := true }) else globals)
    else .ok (if sc = .none then update ({ · with storage := .none }) else globals)

end ClaudeC99.Front
