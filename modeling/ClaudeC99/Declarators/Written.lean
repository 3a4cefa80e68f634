import ClaudeC99.Declarators.Parse

/-! The declarations of parameters as they are written, with their tokens and their types. -/

namespace ClaudeC99.Declarators

open Front (TokenType pointers buildArrayTypeFromDims)

/-! ### Written declarators -/

def tok (type : TokenType) : DeclToken := { type }

def nameToken (name : String) : DeclToken := { type := .identifier, text := name }

def boundToken (n : Nat) : DeclToken := { type := .intLiteral, value := some n }

def startsSpecifier : TokenType → Bool
  | .void | .bool | .char | .short | .int | .long | .float | .double | .signed | .unsigned
  | .struct | .union | .enum | .identifier => true
  | _ => false

/-- The kinds of types that are no other constructor of `CType`. -/
def properScalar : CType → Bool
  | .scalar kind _ _ =>
    match kind with
    | .pointer | .array | .function | .struct | .union => false
    | _ => true
  | _ => true

structure Specifier where
  token : DeclToken
  type : CType
  proper : properScalar type = true
  reads : token.specifier = some type
  starts : startsSpecifier token.type = true
  void : token.type = .void → type = .typeVoid

/-- `const`, `volatile` and `restrict`, which parameters read and leave out of their types. -/
structure Qualifiers where
  tokens : Tokens
  all : ∀ t ∈ tokens, isQualifier t.type = true

/-- Texts in which the two kinds of brackets match. -/
inductive Balanced (l r : TokenType) : Tokens → Prop
  | nil : Balanced l r []
  | token {t : DeclToken} {ts : Tokens} (notLeft : t.type ≠ l) (notRight : t.type ≠ r)
      (rest : Balanced l r ts) : Balanced l r (t :: ts)
  | group {opening closing : DeclToken} {inner ts : Tokens} (left : opening.type = l)
      (right : closing.type = r) (within : Balanced l r inner) (rest : Balanced l r ts) :
      Balanced l r (opening :: (inner ++ closing :: ts))

/-- A dimension of an unnamed array. -/
structure SkippedDimension where
  text : Tokens
  balanced : Balanced .lbracket .rbracket text
  length : Nat

/-- A dimension of a parameter inside a declarator. -/
structure InnerDimension where
  text : Tokens
  unclosed : ∀ t ∈ text, t.type ≠ .rbracket
  length : Nat

/-- A parameter inside a declarator. -/
structure InnerParameter where
  before : Qualifiers
  specifier : Specifier
  after : Qualifiers
  stars : Nat
  name : Option String
  dims : List InnerDimension

/-- The parameter list of a function, with the types it declares. -/
structure FunctionParameters where
  text : Tokens
  balanced : Balanced .lparen .rparen text
  types : List CType

/-- The declarators of parameters, `stars` in front of each. An array inside parentheses, and a
bound behind them, may have no size. -/
inductive Written
  | absent
  | pointer (first : Qualifiers) (more : List Qualifiers)
  | brackets (first : SkippedDimension) (more : List SkippedDimension)
  | name (stars : List Qualifiers) (name : String)
  | nameArray (stars : List Qualifiers) (name : String) (first : Option Nat) (later : List Nat)
  | nameFunction (stars : List Qualifiers) (name : String) (list : FunctionParameters)
  | paren (stars : List Qualifiers) (inner : Nat) (name : String) (array : Option (Option Nat))
  | parenArray (stars : List Qualifiers) (inner : Nat) (name : String)
      (array : Option (Option Nat)) (bound : Option Nat)
  | parenFunction (stars : List Qualifiers) (name : String) (list : FunctionParameters)
  /-- `inner + 1` stars inside the parentheses. -/
  | functionPointer (stars : List Qualifiers) (inner : Nat) (name : String)
      (array : Option (Option Nat)) (params : List InnerParameter)
  /-- `inner + 1` stars inside the parentheses. -/
  | returnsFunctionPointer (stars : List Qualifiers) (inner : Nat) (name : String)
      (own params : List InnerParameter)

structure WrittenParameter where
  leading : Option { t : DeclToken // isQualifier t.type = true ∨ t.type = .register }
  specifier : Specifier
  trailing : Qualifiers
  declarator : Written

/-! ### Their tokens -/

def spellStars (ss : List Qualifiers) : Tokens := ss.flatMap fun q => tok .star :: q.tokens

def spellPlainStars (n : Nat) : Tokens := List.replicate n (tok .star)

def spellBound (bound : Option Nat) : Tokens :=
  tok .lbracket :: ((bound.map boundToken).toList ++ [tok .rbracket])

def spellInnerArray (array : Option (Option Nat)) : Tokens := array.elim [] spellBound

def SkippedDimension.spell (dim : SkippedDimension) : Tokens :=
  tok .lbracket :: (dim.text ++ [tok .rbracket])

def InnerDimension.spell (dim : InnerDimension) : Tokens :=
  tok .lbracket :: (dim.text ++ [tok .rbracket])

def InnerParameter.spell (p : InnerParameter) : Tokens :=
  p.before.tokens ++ p.specifier.token :: (p.after.tokens ++ (spellPlainStars p.stars ++
    ((p.name.map nameToken).toList ++ p.dims.flatMap InnerDimension.spell)))

def spellInnerParameters : List InnerParameter → Tokens
  | [] => []
  | [p] => p.spell
  | p :: ps => p.spell ++ tok .comma :: spellInnerParameters ps

def inParens (ts : Tokens) : Tokens := tok .lparen :: (ts ++ [tok .rparen])

def spellParen (inner : Nat) (name : String) (suffix : Tokens) : Tokens :=
  inParens (spellPlainStars inner ++ nameToken name :: suffix)

def Written.spell : Written → Tokens
  | absent => []
  | pointer first more => spellStars (first :: more)
  | brackets first more => (first :: more).flatMap SkippedDimension.spell
  | name stars x => spellStars stars ++ [nameToken x]
  | nameArray stars x first later =>
    spellStars stars ++ nameToken x :: (spellBound first ++ later.flatMap fun n => spellBound n)
  | nameFunction stars x list => spellStars stars ++ nameToken x :: inParens list.text
  | paren stars inner x array => spellStars stars ++ spellParen inner x (spellInnerArray array)
  | parenArray stars inner x array bound =>
    spellStars stars ++ (spellParen inner x (spellInnerArray array) ++ spellBound bound)
  | parenFunction stars x list => spellStars stars ++ (spellParen 0 x [] ++ inParens list.text)
  | functionPointer stars inner x array params =>
    spellStars stars ++ (spellParen (inner + 1) x (spellInnerArray array) ++
      inParens (spellInnerParameters params))
  | returnsFunctionPointer stars inner x own params =>
    spellStars stars ++ (spellParen (inner + 1) x (inParens (spellInnerParameters own)) ++
      inParens (spellInnerParameters params))

def WrittenParameter.spell (w : WrittenParameter) : Tokens :=
  (w.leading.map Subtype.val).toList ++ w.specifier.token ::
    (w.trailing.tokens ++ w.declarator.spell)

/-! ### Their types -/

/-- The adjustment of a parameter's type. -/
def adjust : CType → CType
  | .array base _ _ => base.typePointer
  | .function returnType params => (CType.function returnType params).typePointer
  | t => t

namespace InnerParameter

def declared (p : InnerParameter) : CType :=
  buildArrayTypeFromDims (pointers p.specifier.type p.stars) (p.dims.map InnerDimension.length)

/-- No more than a type, which is void. -/
def isVoid (p : InnerParameter) : Bool :=
  p.before.tokens.isEmpty && p.specifier.type.kind = .void && p.after.tokens.isEmpty &&
    p.stars = 0 && p.name.isNone && p.dims.isEmpty

end InnerParameter

/-- The types of a list; void alone stands for no parameters. -/
def innerTypes : List InnerParameter → List CType
  | [p] => if p.isVoid then [] else [adjust p.declared]
  | ps => ps.map fun p => adjust p.declared

/-- The type that the declarator would give an object. -/
def Written.type (base : CType) : Written → CType
  | absent => base
  | pointer _ more => pointers base (more.length + 1)
  | brackets first more =>
    buildArrayTypeFromDims base (first.length :: more.map SkippedDimension.length)
  | name stars _ => pointers base stars.length
  | nameArray stars _ first later =>
    buildArrayTypeFromDims (pointers base stars.length) (first.getD 0 :: later)
  | nameFunction stars _ list => .function (pointers base stars.length) list.types
  | paren stars inner _ array => inArray array (pointers base (stars.length + inner))
  | parenArray stars inner _ array bound =>
    inArray array (pointers ((pointers base stars.length).typeArray (bound.getD 0)) inner)
  | parenFunction stars _ list => .function (pointers base stars.length) list.types
  | functionPointer stars inner _ array params =>
    inArray array (pointers (.function (pointers base stars.length) (innerTypes params))
      (inner + 1))
  | returnsFunctionPointer stars inner _ own params =>
    .function (pointers (.function (pointers base stars.length) (innerTypes params)) (inner + 1))
      (innerTypes own)
where
  inArray (array : Option (Option Nat)) (t : CType) : CType :=
    array.elim t fun length => t.typeArray (length.getD 0)

end ClaudeC99.Declarators
