import ClaudeC99.Ast
import ClaudeC99.Front.ConstExpr
import ClaudeC99.Front.Declarator

/-! The parser of declarators and of parameter declarations, over tokens. A type specifier is one
token here, which carries the type that `parse_type_specifier` reads; so is the constant expression
of an array bound, which carries its value. -/

namespace ClaudeC99.Declarators

open Front (TokenType ParsedDeclarator tokenDisplayName notConstant pointers buildFpType
  maxArrayDims arrayDimension)

structure DeclToken where
  type : TokenType
  text : String := ""
  specifier : Option CType := none
  value : Option Int := none

abbrev Tokens := List DeclToken

def current : Tokens → TokenType
  | [] => .eof
  | t :: _ => t.type

def currentText : Tokens → String
  | [] => ""
  | t :: _ => t.text

def expect (type : TokenType) (ts : Tokens) : Except String (DeclToken × Tokens) :=
  let message := "error: expected " ++ tokenDisplayName type ++ ", got " ++
    tokenDisplayName (current ts) ++ " ('" ++ currentText ts ++ "')"
  match ts with
  | [] => .error message
  | t :: rest => if t.type = type then .ok (t, rest) else .error message

def isQualifier : TokenType → Bool
  | .const | .volatile | .restrict => true
  | _ => false

def skipQualifiers (ts : Tokens) : Tokens := ts.dropWhile fun t => isQualifier t.type

def parseTypeSpecifier (ts : Tokens) : Except String (CType × Tokens) :=
  match ts with
  | [] => .error "error: expected integer type, got ''"
  | t :: rest =>
    match t.specifier with
    | some type => .ok (type, rest)
    | none => .error ("error: expected integer type, got '" ++ t.text ++ "'")

def evalConstExpr (context : String) (ts : Tokens) : Except String (Int × Tokens) :=
  match ts with
  | [] => .error (notConstant context)
  | t :: rest =>
    match t.value with
    | some n => .ok (n, rest)
    | none => .error (notConstant context)

/-! ### Stars -/

/-- The loop over stars after the first one: their number and whether a `const` follows one. -/
def starLoop : Tokens → Nat × Bool × Tokens
  | [] => (0, false, [])
  | t :: ts =>
    if t.type = .star then ((starLoop ts).1 + 1, (starLoop ts).2)
    else if isQualifier t.type then
      ((starLoop ts).1, t.type = .const || (starLoop ts).2.1, (starLoop ts).2.2)
    else (0, false, t :: ts)

/-- Stars with qualifiers after each. -/
def stars (ts : Tokens) : Nat × Bool × Tokens :=
  if current ts = .star then starLoop ts else (0, false, ts)

/-- Stars without qualifiers. -/
def plainStars : Tokens → Nat × Tokens
  | [] => (0, [])
  | t :: ts => if t.type = .star then ((plainStars ts).1 + 1, (plainStars ts).2) else (0, t :: ts)

/-! ### Parameter lists inside declarators -/

/-- Array suffixes of a parameter, each skipped to the next `]`. -/
def arraySuffixes : Bool → Tokens → Nat × Tokens
  | _, [] => (0, [])
  | true, t :: ts => arraySuffixes (t.type ≠ .rbracket) ts
  | false, t :: ts =>
    if t.type = .lbracket then ((arraySuffixes true ts).1 + 1, (arraySuffixes true ts).2)
    else (0, t :: ts)

def fpParameter (ts : Tokens) : Except String (CType × Tokens) := do
  let (t, ts) ← parseTypeSpecifier (skipQualifiers ts)
  let (n, ts) := plainStars (skipQualifiers ts)
  let ts := if current ts = .identifier then ts.tail else ts
  let (k, ts) := arraySuffixes false ts
  .ok (pointers t (n + k), ts)

def funcTypeMaxParams : Nat := 16

/-- At most `room` parameters; the next one meets `full`. -/
def fpParameters (full : Tokens → Except String (List CType × Tokens)) :
    Nat → Tokens → Except String (List CType × Tokens)
  | 0, ts => full ts
  | room + 1, ts => do
    let (t, ts) ← fpParameter ts
    if current ts = .comma then
      let (types, ts) ← fpParameters full room ts.tail
      .ok (t :: types, ts)
    else .ok ([t], ts)

/-- A list up to its closing parenthesis, and whether it is `()`. -/
def fpParameterList (full : Tokens → Except String (List CType × Tokens)) (ts : Tokens) :
    Except String (List CType × Bool × Tokens) := do
  if current ts = .void ∧ current ts.tail = .rparen then
    let (_, ts) ← expect .rparen ts.tail
    .ok ([], false, ts)
  else if current ts = .rparen then
    let (_, ts) ← expect .rparen ts
    .ok ([], true, ts)
  else
    let (types, ts) ← fpParameters full funcTypeMaxParams ts
    let (_, ts) ← expect .rparen ts
    .ok (types, false, ts)

def tooManyFpParams (_ : Tokens) : Except String (List CType × Tokens) :=
  .error s!"error: too many parameters in function pointer type (max {funcTypeMaxParams})"

/-! ### Declarators -/

/-- The dimensions after the ones in `dims`. -/
def laterDimensions : Nat → List Nat → Tokens → Except String (List Nat × Tokens)
  | room, dims, ts =>
    if current ts = .lbracket then
      match room with
      | 0 => .error s!"error: too many array dimensions (max {maxArrayDims})"
      | room + 1 => do
        let (length, ts) ← evalConstExpr "array dimension" ts.tail
        let n ← arrayDimension length
        let (_, ts) ← expect .rbracket ts
        laterDimensions room (dims ++ [n]) ts
    else .ok (dims, ts)

/-- The current token is the `[` behind the name. -/
def arrayDeclarator (d : ParsedDeclarator) (ts : Tokens) :
    Except String (ParsedDeclarator × Tokens) := do
  let ts := ts.tail
  if current ts = .rbracket then
    let (_, ts) ← expect .rbracket ts
    let (dims, ts) ← laterDimensions maxArrayDims [] ts
    .ok ({ d with isArray := true, arrayDims := dims }, ts)
  else
    let (length, ts) ← evalConstExpr "array dimension" ts
    let n ← arrayDimension length
    let (_, ts) ← expect .rbracket ts
    let (dims, ts) ← laterDimensions (maxArrayDims - 1) [n] ts
    .ok ({ d with isArray := true, hasSize := true, arrayLength := n, arrayDims := dims }, ts)

/-- `[n]` or `[]` inside the parentheses, behind the name. -/
def innerArray (d : ParsedDeclarator) (ts : Tokens) :
    Except String (ParsedDeclarator × Tokens) := do
  if current ts = .lbracket then
    let ts := ts.tail
    if current ts = .rbracket then
      let (_, ts) ← expect .rbracket ts
      .ok ({ d with isArray := true }, ts)
    else
      let (length, ts) ← evalConstExpr "array dimension" ts
      let n ← arrayDimension length
      let (_, ts) ← expect .rbracket ts
      .ok ({ d with isArray := true, arrayLength := n, hasSize := true }, ts)
  else .ok (d, ts)

def pointerBound (length : Int) : Except String Nat :=
  if length ≤ 0 then .error "error: pointer-to-array bound must be positive"
  else .ok length.toNat

/-- The suffix behind the closing parenthesis. -/
def outerSuffix (d : ParsedDeclarator) (outerStars innerStars : Nat) (ts : Tokens) :
    Except String (ParsedDeclarator × Tokens) := do
  if current ts = .lbracket then
    let d := { d with isPtrToArray := true, pointerCount := outerStars + innerStars }
    let ts := ts.tail
    if current ts = .rbracket then
      let (_, ts) ← expect .rbracket ts
      .ok (d, ts)
    else
      let (length, ts) ← evalConstExpr "pointer-to-array bound" ts
      let n ← pointerBound length
      let (_, ts) ← expect .rbracket ts
      .ok ({ d with ptrToArrayLength := n, ptrToArrayHasSize := true }, ts)
  else if current ts = .lparen then
    if innerStars > 0 then
      let (types, _, ts) ← fpParameterList tooManyFpParams ts.tail
      .ok ({ d with isFuncPointer := true, fpOuterStars := outerStars, fpInnerStars := innerStars
                    fpParamTypes := types }, ts)
    else .ok ({ d with isFunction := true, pointerCount := outerStars }, ts)
  else .ok ({ d with pointerCount := outerStars + innerStars }, ts)

/-- `(*name(own))(params)`; both lists stop at the largest number of parameters. -/
def functionReturningFp (d : ParsedDeclarator) (outerStars innerStars : Nat) (ts : Tokens) :
    Except String (ParsedDeclarator × Tokens) := do
  if innerStars = 0 then
    .error "error: functions cannot return function types directly"
  else
    let (own, noPrototype, ts) ← fpParameterList (fun ts => .ok ([], ts)) ts.tail
    let (_, ts) ← expect .rparen ts
    let (_, ts) ← expect .lparen ts
    let (types, _, ts) ← fpParameterList (fun ts => .ok ([], ts)) ts
    .ok ({ d with ownParamTypes := own, ownIsNoPrototype := noPrototype, fpParamTypes := types
                  isFuncReturningFp := true, fpInnerStars := innerStars
                  fpOuterStars := outerStars }, ts)

/-- Behind the opening parenthesis. -/
def parenDeclarator (outerStars : Nat) (pointerIsConst : Bool) (ts : Tokens) :
    Except String (ParsedDeclarator × Tokens) := do
  let (innerStars, ts) := plainStars ts
  let (name, ts) ← expect .identifier ts
  let d : ParsedDeclarator := { name := name.text, pointerIsConst }
  if current ts = .lparen then functionReturningFp d outerStars innerStars ts
  else
    let (d, ts) ← innerArray d ts
    let (_, ts) ← expect .rparen ts
    outerSuffix d outerStars innerStars ts

def parseDeclarator (ts : Tokens) : Except String (ParsedDeclarator × Tokens) := do
  let (outerStars, pointerIsConst, ts) := stars ts
  if current ts = .lparen then parenDeclarator outerStars pointerIsConst ts.tail
  else
    let (name, ts) ← expect .identifier ts
    let d : ParsedDeclarator := { name := name.text, pointerIsConst, pointerCount := outerStars }
    if current ts = .lbracket then arrayDeclarator d ts
    else if current ts = .lparen then .ok ({ d with isFunction := true }, ts)
    else .ok (d, ts)

/-! ### Parameter declarations -/

/-- Bracketed dimensions of an unnamed array parameter, skipped with the brackets inside them. -/
def skipDimensions : Nat → Tokens → Tokens
  | _, [] => []
  | 0, t :: ts => if t.type = .lbracket then skipDimensions 1 ts else t :: ts
  | depth + 1, t :: ts =>
    if t.type = .lbracket then skipDimensions (depth + 2) ts
    else if t.type = .rbracket then skipDimensions depth ts
    else skipDimensions (depth + 1) ts

/-- Up to the parenthesis that closes the list, `depth` levels further out. -/
def skipParameters : Nat → Tokens → Tokens
  | _, [] => []
  | depth, t :: ts =>
    if t.type = .lparen then skipParameters (depth + 1) ts
    else if t.type = .rparen then
      if depth ≤ 1 then t :: ts else skipParameters (depth - 1) ts
    else skipParameters depth ts

/-- A parameter whose declaration sets no more than its name. -/
def newParam (name : String) : Param := ⟨name, .void, none, false, false⟩

def pointerParam (name : String) (t : CType) : Param :=
  { newParam name with declType := .pointer, fullType := some t }

def arrayElement : CType → CType
  | .array base _ _ => base
  | t => t

/-- What a parameter becomes from its parsed declarator. -/
def declaredParam (baseType : CType) (d : ParsedDeclarator) : Param :=
  if d.isFuncPointer then pointerParam d.name (buildFpType baseType d)
  else if d.isFunction then pointerParam d.name (.typePointer (.function baseType []))
  else if d.isPtrToArray then
    let levels := if d.pointerCount > 0 then d.pointerCount else 1
    pointerParam d.name (pointers (baseType.typeArray d.ptrToArrayLength) levels)
  else if d.pointerCount > 0 then pointerParam d.name (pointers baseType d.pointerCount)
  else if d.isArray then pointerParam d.name baseType.typePointer
  else if baseType.kind = .array then pointerParam d.name (arrayElement baseType).typePointer
  else
    { newParam d.name with
      declType := baseType.kind
      isUnsigned := !baseType.isSigned
      fullType := if baseType.kind.isAggregate then some baseType else none }

def skipLeading (ts : Tokens) : Tokens :=
  if isQualifier (current ts) || current ts = .register then ts.tail else ts

/-- A parameter with a name, behind the stars in front of it. -/
def namedParameter (baseType : CType) (leadingStars : Nat) (ts : Tokens) :
    Except String (Param × Tokens) := do
  let (d, ts) ← parseDeclarator ts
  let d := { d with pointerCount := d.pointerCount + leadingStars }
  if d.isFunction ∧ ¬d.isFuncPointer then
    let (_, ts) ← expect .lparen ts
    let (_, ts) ← expect .rparen (skipParameters 1 ts)
    .ok (declaredParam baseType d, ts)
  else .ok (declaredParam baseType d, ts)

/-- What follows the type specifier and its qualifiers. -/
def parameterDeclarator (baseType : CType) (ts : Tokens) : Except String (Param × Tokens) :=
  if current ts = .comma ∨ current ts = .rparen then
    if baseType.kind = .array then .ok (pointerParam "" (arrayElement baseType).typePointer, ts)
    else .ok ({ newParam "" with declType := baseType.kind }, ts)
  else
    let (leadingStars, _, ts) := stars ts
    if leadingStars > 0 ∧ (current ts = .comma ∨ current ts = .rparen) then
      .ok (pointerParam "" (pointers baseType leadingStars), ts)
    else if leadingStars = 0 ∧ current ts = .lbracket then
      .ok (pointerParam "" baseType.typePointer, skipDimensions 0 ts)
    else namedParameter baseType leadingStars ts

def parseParameterDeclaration (ts : Tokens) : Except String (Param × Tokens) := do
  let (baseType, ts) ← parseTypeSpecifier (skipLeading ts)
  parameterDeclarator baseType (skipQualifiers ts)

end ClaudeC99.Declarators
