import ClaudeC99.Front.Lexer

/-! The state of the parser, its errors and its steps over single tokens. -/

namespace ClaudeC99.Front

open Preprocessor (Text)

structure EnumConst where
  name : Text
  value : Int
  deriving DecidableEq, Repr

/-- `fullType` is none for a scalar typedef; file scope has depth 0. -/
structure TypedefEntry where
  name : Text
  kind : TypeKind
  fullType : Option CType
  scopeDepth : Nat
  deriving Repr

structure Parser where
  lexer : Lexer
  current : Token
  typedefs : List TypedefEntry
  scopeDepth : Nat
  enumConsts : List EnumConst

def parserInit (lexer : Lexer) : Except String Parser := do
  let (current, lexer) ← lexerNextToken lexer
  .ok { lexer, current, typedefs := [], scopeDepth := 0, enumConsts := [] }

/-- `parser->current = lexer_next_token(parser->lexer)` -/
def Parser.next (p : Parser) : Except String Parser := do
  let (current, lexer) ← lexerNextToken p.lexer
  .ok { p with lexer, current }

/-- The message of `compile_error_at` at the current token. -/
def Parser.message (p : Parser) (text : String) : String :=
  match p.current.position.file with
  | some path =>
    if 0 < p.current.position.line then
      String.ofList path ++ ":" ++ toString p.current.position.line ++ ":" ++
        toString p.current.position.col ++ ": " ++ text
    else text
  | none => text

def parserError {α : Type} (p : Parser) (text : String) : Except String α :=
  .error (p.message text)

def parserFindTypedef (p : Parser) (name : Text) : Option TypedefEntry :=
  p.typedefs.reverse.find? fun e => e.name = name

def tokenDisplayName : TokenType → String
  | .eof => "<EOF>"
  | .int => "'int'"
  | .char => "'char'"
  | .short => "'short'"
  | .long => "'long'"
  | .return => "'return'"
  | .if => "'if'"
  | .else => "'else'"
  | .while => "'while'"
  | .do => "'do'"
  | .for => "'for'"
  | .break => "'break'"
  | .continue => "'continue'"
  | .switch => "'switch'"
  | .default => "'default'"
  | .case => "'case'"
  | .goto => "'goto'"
  | .sizeof => "'sizeof'"
  | .externKeyword => "'extern'"
  | .static => "'static'"
  | .typedef => "'typedef'"
  | .enum => "'enum'"
  | .struct => "'struct'"
  | .union => "'union'"
  | .void => "'void'"
  | .float => "'float'"
  | .double => "'double'"
  | .bool => "'_Bool'"
  | .const => "'const'"
  | .volatile => "'volatile'"
  | .restrict => "'restrict'"
  | .inline => "'inline'"
  | .auto => "'auto'"
  | .register => "'register'"
  | .signed => "'signed'"
  | .unsigned => "'unsigned'"
  | .identifier => "identifier"
  | .intLiteral => "integer literal"
  | .floatLiteral => "float literal"
  | .doubleLiteral => "double literal"
  | .stringLiteral => "string literal"
  | .charLiteral => "character literal"
  | .lparen => "'('"
  | .rparen => "')'"
  | .lbrace => "'\x7b'"
  | .rbrace => "'\x7d'"
  | .lbracket => "'['"
  | .rbracket => "']'"
  | .semicolon => "';'"
  | .colon => "':'"
  | .comma => "','"
  | .plus => "'+'"
  | .minus => "'-'"
  | .star => "'*'"
  | .slash => "'/'"
  | .percent => "'%'"
  | .bang => "'!'"
  | .tilde => "'~'"
  | .assign => "'='"
  | .plusAssign => "'+='"
  | .minusAssign => "'-='"
  | .starAssign => "'*='"
  | .slashAssign => "'/='"
  | .percentAssign => "'%='"
  | .leftShiftAssign => "'<<='"
  | .rightShiftAssign => "'>>='"
  | .ampAssign => "'&='"
  | .caretAssign => "'^='"
  | .pipeAssign => "'|='"
  | .increment => "'++'"
  | .decrement => "'--'"
  | .eq => "'=='"
  | .ne => "'!='"
  | .lt => "'<'"
  | .le => "'<='"
  | .gt => "'>'"
  | .ge => "'>='"
  | .leftShift => "'<<'"
  | .rightShift => "'>>'"
  | .andAnd => "'&&'"
  | .orOr => "'||'"
  | .ampersand => "'&'"
  | .caret => "'^'"
  | .pipe => "'|'"
  | .question => "'?'"
  | .dot => "'.'"
  | .arrow => "'->'"
  | .ellipsis => "'...'"
  | .unknown => "<unknown>"

def parserExpect (p : Parser) (type : TokenType) : Except String Parser :=
  if p.current.type = type then p.next
  else
    parserError p ("error: expected " ++ tokenDisplayName type ++ ", got " ++
      tokenDisplayName p.current.type ++ " ('" ++ String.ofList p.current.value ++ "')")

end ClaudeC99.Front
