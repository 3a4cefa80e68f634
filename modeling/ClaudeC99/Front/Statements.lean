import ClaudeC99.Front.Parser
import ClaudeC99.Lib.Raising

/-! What the parser keeps while it is inside an external declaration: how deep it is in scopes,
loops and `switch` statements, in which function, and which names it has put into its tables. -/

namespace ClaudeC99.Statements

open Front (Token TokenType TypedefEntry tokenDisplayName)
open Preprocessor (Text)

/-- A row that is put into one of the parser's tables, or changed there. -/
inductive Entry
  | function (name : Text)
  | global (name : Text)
  | enumConst (name : Text) (value : Int)
  | enumTag (name : Text)
  | structTag (name : Text)
  | unionTag (name : Text)
  deriving DecidableEq

/-- `tokens` is what the next calls of `lexer_next_token` do: they return a token or raise an error.
`entries` are the rows put into the tables of functions, global objects, enumerators and tags. -/
structure Parser where
  current : Token
  tokens : List (Except String Token)
  typedefs : List TypedefEntry
  scopeDepth : Nat
  loopDepth : Nat
  switchDepth : Nat
  currentFuncIsVariadic : Bool
  currentFuncName : Option Text
  entries : List Entry

/-- A `PARSER_ERROR` jumps out of all that is being parsed and leaves the parser as it is. -/
abbrev Parse := EStateM String Parser

/-- The parser behind the first token. -/
def parserInit (current : Token) (tokens : List (Except String Token)) : Parser where
  current := current
  tokens := tokens
  typedefs := []
  scopeDepth := 0
  loopDepth := 0
  switchDepth := 0
  currentFuncIsVariadic := false
  currentFuncName := none
  entries := []

/-- `parser->current = lexer_next_token(parser->lexer)`; behind the last token is the end of the
source, as often as it is asked for. -/
def nextToken : Parse Unit := fun p =>
  match p.tokens with
  | [] => .ok () { p with current := { type := .eof, position := p.current.position } }
  | .ok current :: tokens => .ok () { p with current, tokens }
  | .error text :: tokens => .error text { p with tokens }

def parserExpect (type : TokenType) : Parse Unit := do
  let p ← get
  if p.current.type = type then nextToken
  else
    throw ("error: expected " ++ tokenDisplayName type ++ ", got " ++
      tokenDisplayName p.current.type ++ " ('" ++ String.ofList p.current.value ++ "')")

def nextTokens : Nat → Parse Unit
  | 0 => pure ()
  | n + 1 => do
    nextToken
    nextTokens n

def Parser.findTypedef (p : Parser) (name : Text) : Option TypedefEntry :=
  p.typedefs.reverse.find? fun e => e.name = name

def parserRegisterTypedef (name : Text) (kind : TypeKind) (fullType : Option CType) :
    Parse Unit := do
  let p ← get
  if p.typedefs.any fun e => e.scopeDepth = p.scopeDepth ∧ e.name = name then
    throw ("error: duplicate typedef '" ++ String.ofList name ++ "' in this scope")
  else
    let entry : TypedefEntry := ⟨name, kind, fullType, p.scopeDepth⟩
    modify fun p => { p with typedefs := p.typedefs ++ [entry] }

def parserLeaveScope : Parse Unit := modify fun p =>
  { p with
    typedefs := p.typedefs.filter fun e => e.scopeDepth < p.scopeDepth
    scopeDepth := p.scopeDepth - 1 }

/-- What the parser does in expressions, in declarators and in specifiers, where it changes no depth
and stays in the function. -/
inductive Step
  | next
  | expect (type : TokenType)
  /-- Some tokens, and back to the saved position. -/
  | lookAhead (count : Nat)
  | fail (text : String)
  /-- A typedef name as the type specifier. -/
  | typeName (name : Text)
  /-- `__func__` -/
  | funcName
  /-- `__builtin_va_start (` -/
  | vaStart
  | record (entry : Entry)

def Step.run : Step → Parse Unit
  | .next => nextToken
  | .expect type => parserExpect type
  | .lookAhead count => do
    let saved ← get
    nextTokens count
    modify fun p => { p with current := saved.current, tokens := saved.tokens }
  | .fail text => throw text
  | .typeName name => do
    let p ← get
    if (p.findTypedef name).isSome then nextToken
    else throw ("error: unknown type name '" ++ String.ofList name ++ "'")
  | .funcName => do
    let p ← get
    if p.currentFuncName.isSome then nextToken
    else throw "error: '__func__' used outside of a function body"
  | .vaStart => do
    nextToken
    parserExpect .lparen
    let p ← get
    if p.currentFuncIsVariadic then pure ()
    else throw "error: __builtin_va_start used outside a variadic function"
  | .record entry => modify fun p => { p with entries := p.entries ++ [entry] }

def runSteps : List Step → Parse Unit
  | [] => pure ()
  | step :: steps => do
    step.run
    runSteps steps

/-! ### Statements -/

section Parts

variable (condition body : Parse Unit)

def inScope : Parse Unit := do
  modify fun p => { p with scopeDepth := p.scopeDepth + 1 }
  body
  parserLeaveScope

def inLoop : Parse Unit := do
  modify fun p => { p with loopDepth := p.loopDepth + 1 }
  body
  modify fun p => { p with loopDepth := p.loopDepth - 1 }

def inSwitch : Parse Unit := do
  modify fun p => { p with switchDepth := p.switchDepth + 1 }
  body
  modify fun p => { p with switchDepth := p.switchDepth - 1 }

def parseBlock : Parse Unit := do
  parserExpect .lbrace
  inScope body
  parserExpect .rbrace

/-- `otherwise` is the `else` branch, or nothing. -/
def parseIfStatement (otherwise : Parse Unit) : Parse Unit := do
  parserExpect .if
  parserExpect .lparen
  condition
  parserExpect .rparen
  body
  otherwise

def parseWhileStatement : Parse Unit := do
  parserExpect .while
  parserExpect .lparen
  condition
  parserExpect .rparen
  inLoop body

def parseDoWhileStatement : Parse Unit := do
  parserExpect .do
  inLoop body
  parserExpect .while
  parserExpect .lparen
  condition
  parserExpect .rparen
  parserExpect .semicolon

/-- The first clause is parsed with its semicolon. -/
def parseForStatement (init update : Parse Unit) : Parse Unit := do
  parserExpect .for
  parserExpect .lparen
  inScope do
    init
    condition
    parserExpect .semicolon
    update
    parserExpect .rparen
    inLoop body

def parseSwitchStatement : Parse Unit := do
  parserExpect .switch
  parserExpect .lparen
  condition
  parserExpect .rparen
  inSwitch body

def parseCaseSection (value : Parse Unit) : Parse Unit := do
  let p ← get
  if p.switchDepth = 0 then throw "error: 'case' label outside of switch"
  else
    nextToken
    value
    parserExpect .colon
    body

def parseDefaultSection : Parse Unit := do
  let p ← get
  if p.switchDepth = 0 then throw "error: 'default' label outside of switch"
  else
    nextToken
    parserExpect .colon
    body

def parseBreak : Parse Unit := do
  let p ← get
  if p.loopDepth = 0 ∧ p.switchDepth = 0 then throw "error: break outside of loop or switch"
  else
    nextToken
    parserExpect .semicolon

def parseContinue : Parse Unit := do
  let p ← get
  if p.loopDepth = 0 then throw "error: continue outside of loop"
  else
    nextToken
    parserExpect .semicolon

end Parts

/-- A statement with what the parser does in it, up to an error where there is one. -/
inductive Statement
  /-- Expression statements, declarations, `return` and `goto` statements. -/
  | plain (steps : List Step)
  | typedefName (steps : List Step) (name : Text) (kind : TypeKind) (fullType : Option CType)
  /-- A label, or a storage class that is passed over. -/
  | behind (steps : List Step) (statement : Statement)
  | block (statements : List Statement)
  | ifThen (condition : List Step) (thenPart : Statement)
  | ifElse (condition : List Step) (thenPart elsePart : Statement)
  | whileLoop (condition : List Step) (body : Statement)
  | doWhile (body : Statement) (condition : List Step)
  | forLoop (init : Statement) (condition update : List Step) (body : Statement)
  | switch (selector : List Step) (body : Statement)
  | caseSection (value : List Step) (body : Statement)
  | defaultSection (body : Statement)
  | breakJump
  | continueJump

mutual

def parseStatement : Statement → Parse Unit
  | .plain steps => runSteps steps
  | .typedefName steps name kind fullType => do
    runSteps steps
    parserRegisterTypedef name kind fullType
  | .behind steps statement => do
    runSteps steps
    parseStatement statement
  | .block statements => parseBlock (parseStatements statements)
  | .ifThen condition thenPart =>
    parseIfStatement (runSteps condition) (parseStatement thenPart) (pure ())
  | .ifElse condition thenPart elsePart =>
    parseIfStatement (runSteps condition) (parseStatement thenPart) (do
      nextToken
      parseStatement elsePart)
  | .whileLoop condition body => parseWhileStatement (runSteps condition) (parseStatement body)
  | .doWhile body condition => parseDoWhileStatement (runSteps condition) (parseStatement body)
  | .forLoop init condition update body =>
    parseForStatement (runSteps condition) (parseStatement body) (parseStatement init)
      (runSteps update)
  | .switch selector body => parseSwitchStatement (runSteps selector) (parseStatement body)
  | .caseSection value body => parseCaseSection (parseStatement body) (runSteps value)
  | .defaultSection body => parseDefaultSection (parseStatement body)
  | .breakJump => parseBreak
  | .continueJump => parseContinue

def parseStatements : List Statement → Parse Unit
  | [] => pure ()
  | statement :: statements => do
    parseStatement statement
    parseStatements statements

end

/-- The steps before a function body are those of the specifiers, of the declarator and of
`parser_register_function`. -/
inductive ExternalDeclaration
  | declaration (steps : List Step)
  | typedefName (steps : List Step) (name : Text) (kind : TypeKind) (fullType : Option CType)
  | definition (header : List Step) (name : Text) (isVariadic : Bool) (body : List Statement)

def parseFunctionBody (name : Text) (isVariadic : Bool) (body : Parse Unit) : Parse Unit := do
  let saved ← get
  modify fun p => { p with currentFuncIsVariadic := isVariadic, currentFuncName := some name }
  parseBlock body
  modify fun p =>
    { p with
      currentFuncIsVariadic := saved.currentFuncIsVariadic
      currentFuncName := saved.currentFuncName }

def parseExternalDeclaration : ExternalDeclaration → Parse Unit
  | .declaration steps => runSteps steps
  | .typedefName steps name kind fullType => do
    runSteps steps
    parserRegisterTypedef name kind fullType
  | .definition header name isVariadic body => do
    runSteps header
    parseFunctionBody name isVariadic (parseStatements body)

/-! ### Recovery -/

/-- The depth behind a token that `parser_sync` passes, none where it stops behind it. -/
def syncDepth (depth : Nat) : TokenType → Option Nat
  | .lbrace => some (depth + 1)
  | .rbrace => if depth - 1 = 0 then none else some (depth - 1)
  | .semicolon => if depth = 0 then none else some depth
  | _ => some depth

/-- Every round takes a token or raises an error of the lexer. -/
def parserSyncLoop : Nat → Nat → Parse Unit
  | 0, _ => pure ()
  | n + 1, depth => do
    let p ← get
    if p.current.type = .eof then pure ()
    else
      nextToken
      match syncDepth depth p.current.type with
      | none => pure ()
      | some depth => parserSyncLoop n depth

def parserSync : Parse Unit := do
  let p ← get
  parserSyncLoop (p.tokens.length + 2) 0

/-- The count of errors after one more, none when it ends the process. -/
def doCompileError (maxErrors count : Nat) : Option Nat :=
  if 0 < maxErrors ∧ maxErrors ≤ count + 1 then none else some (count + 1)

/-- The handler of `parse_translation_unit`, which an error of the lexer in `parser_sync` starts
again, and the count of errors behind it. Every such error takes away one of `tokens`. -/
def recover (maxErrors : Nat) : Nat → Nat → Parser → Option (Nat × Parser)
  | 0, _, _ => none
  | n + 1, count, failed =>
    match doCompileError maxErrors count with
    | none => none
    | some count =>
      match parserSync { failed with scopeDepth := 0 } with
      | .ok _ after => some (count, after)
      | .error _ failed => recover maxErrors n count failed

/-- An error that `parse_translation_unit` catches: the parser where the declaration starts, where
the error is raised and where parsing goes on. -/
structure Recovery where
  declaration : ExternalDeclaration
  before : Parser
  failed : Parser
  after : Parser

/-- The errors that are caught, and the parser at the end, none when an error ends the process. -/
structure UnitRun where
  recoveries : List Recovery
  finish : Option Parser

def parseTranslationUnit (maxErrors : Nat) : List ExternalDeclaration → Nat → Parser → UnitRun
  | [], _, p => ⟨[], some p⟩
  | declaration :: declarations, count, p =>
    if p.current.type = .eof then ⟨[], some p⟩
    else
      match parseExternalDeclaration declaration p with
      | .ok _ p => parseTranslationUnit maxErrors declarations count p
      | .error _ failed =>
        match recover maxErrors (failed.tokens.length + 1) count failed with
        | none => ⟨[], none⟩
        | some (count, after) =>
          let rest := parseTranslationUnit maxErrors declarations count after
          ⟨⟨declaration, p, failed, after⟩ :: rest.recoveries, rest.finish⟩

end ClaudeC99.Statements
