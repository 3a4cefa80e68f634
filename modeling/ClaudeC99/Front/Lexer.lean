import ClaudeC99.Front.Token
import ClaudeC99.HostLong

/-! The lexer. -/

namespace ClaudeC99.Front

open Numeral (isHexDigit digitsValue)
open Preprocessor (Text isSpaceChar isIdentStart isIdentChar)

/-- The operators and punctuators, a longer one before its prefixes. The one-character `.` stands
also before a floating literal, which is asked for first. -/
def punctuator : Text → Option (TokenType × Text)
  | '(' :: _ => some (.lparen, ['('])
  | ')' :: _ => some (.rparen, [')'])
  | '{' :: _ => some (.lbrace, ['{'])
  | '}' :: _ => some (.rbrace, ['}'])
  | '[' :: _ => some (.lbracket, ['['])
  | ']' :: _ => some (.rbracket, [']'])
  | ';' :: _ => some (.semicolon, [';'])
  | ':' :: _ => some (.colon, [':'])
  | '?' :: _ => some (.question, ['?'])
  | ',' :: _ => some (.comma, [','])
  | '.' :: '.' :: '.' :: _ => some (.ellipsis, ['.', '.', '.'])
  | '.' :: _ => some (.dot, ['.'])
  | '+' :: '+' :: _ => some (.increment, ['+', '+'])
  | '+' :: '=' :: _ => some (.plusAssign, ['+', '='])
  | '+' :: _ => some (.plus, ['+'])
  | '-' :: '-' :: _ => some (.decrement, ['-', '-'])
  | '-' :: '=' :: _ => some (.minusAssign, ['-', '='])
  | '-' :: '>' :: _ => some (.arrow, ['-', '>'])
  | '-' :: _ => some (.minus, ['-'])
  | '*' :: '=' :: _ => some (.starAssign, ['*', '='])
  | '*' :: _ => some (.star, ['*'])
  | '/' :: '=' :: _ => some (.slashAssign, ['/', '='])
  | '/' :: _ => some (.slash, ['/'])
  | '%' :: '=' :: _ => some (.percentAssign, ['%', '='])
  | '%' :: _ => some (.percent, ['%'])
  | '~' :: _ => some (.tilde, ['~'])
  | '=' :: '=' :: _ => some (.eq, ['=', '='])
  | '=' :: _ => some (.assign, ['='])
  | '!' :: '=' :: _ => some (.ne, ['!', '='])
  | '!' :: _ => some (.bang, ['!'])
  | '<' :: '<' :: '=' :: _ => some (.leftShiftAssign, ['<', '<', '='])
  | '<' :: '<' :: _ => some (.leftShift, ['<', '<'])
  | '>' :: '>' :: '=' :: _ => some (.rightShiftAssign, ['>', '>', '='])
  | '>' :: '>' :: _ => some (.rightShift, ['>', '>'])
  | '<' :: '=' :: _ => some (.le, ['<', '='])
  | '>' :: '=' :: _ => some (.ge, ['>', '='])
  | '<' :: _ => some (.lt, ['<'])
  | '>' :: _ => some (.gt, ['>'])
  | '&' :: '&' :: _ => some (.andAnd, ['&', '&'])
  | '&' :: '=' :: _ => some (.ampAssign, ['&', '='])
  | '&' :: _ => some (.ampersand, ['&'])
  | '|' :: '|' :: _ => some (.orOr, ['|', '|'])
  | '|' :: '=' :: _ => some (.pipeAssign, ['|', '='])
  | '|' :: _ => some (.pipe, ['|'])
  | '^' :: '=' :: _ => some (.caretAssign, ['^', '='])
  | '^' :: _ => some (.caret, ['^'])
  | _ => none

/-- `(char)(val & 0xFF)` -/
def lowByte (val : Nat) : Char := Char.ofNat (val % 256)

/-- An escape sequence from its backslash on, in a literal of the kind that `literal` names. -/
def lexEscape (simple : Char → Option Char) (literal : String) (l : Lexer) :
    Except String (Char × Lexer) :=
  match l.rest with
  | _ :: next :: _ =>
    if next = 'x' then
      let (digits, l') := (l.skip 2).copyWhile isHexDigit l.rest.length
      if digits = [] then .error ("error: invalid hex escape in " ++ literal)
      else .ok (lowByte (digitsValue 16 digits), l')
    else if isOctalDigit next then
      let (digits, l') := (l.skip 1).copyWhile isOctalDigit 3
      .ok (lowByte (digitsValue 8 digits), l')
    else
      match simple next with
      | some c => .ok (c, l.skip 2)
      | none => .error ("error: invalid escape sequence in " ++ literal)
  | _ => .error ("error: invalid escape sequence in " ++ literal)

def stringEscape : Char → Option Char
  | 'n' => some '\n'
  | 't' => some '\t'
  | 'r' => some '\r'
  | '\\' => some '\\'
  | '"' => some '"'
  | _ => none

def charEscape : Char → Option Char
  | 'a' => some (Char.ofNat 7)
  | 'b' => some (Char.ofNat 8)
  | 'f' => some (Char.ofNat 12)
  | 'n' => some '\n'
  | 'r' => some '\r'
  | 't' => some '\t'
  | 'v' => some (Char.ofNat 11)
  | '\\' => some '\\'
  | '\'' => some '\''
  | '"' => some '"'
  | '?' => some '?'
  | _ => none

/-- The literal after its opening quote, with `decoded` read so far. Every round consumes a
character, so that the rounds run out at the end of the source only. -/
def lexStringLoop : Nat → Text → Lexer → Except String (Text × Lexer)
  | 0, _, _ => .error "error: unterminated string literal"
  | n + 1, decoded, l =>
    match l.rest with
    | [] => .error "error: unterminated string literal"
    | ch :: _ =>
      if ch = '"' then .ok (decoded, lexerAdvance l)
      else if ch = '\n' then .error "error: newline in string literal"
      else if ch = '\\' then do
        let (c, l') ← lexEscape stringEscape "string literal" l
        lexStringLoop n (decoded ++ [c]) l'
      else lexStringLoop n (decoded ++ [ch]) (lexerAdvance l)

def lexString (l : Lexer) : Except String (Text × Lexer) :=
  lexStringLoop l.rest.length [] (lexerAdvance l)

/-- A character literal from its opening quote on. -/
def lexChar (l : Lexer) : Except String (Char × Lexer) := do
  let l := lexerAdvance l
  match l.rest with
  | [] => .error "error: unterminated character literal"
  | ch :: _ =>
    if ch = '\n' then .error "error: newline in character literal"
    else if ch = '\'' then .error "error: empty character literal"
    else
      let (c, l') ←
        if ch = '\\' then lexEscape charEscape "character literal" l
        else .ok (ch, lexerAdvance l)
      match l'.rest with
      | '\'' :: _ => .ok (c, lexerAdvance l')
      | rest =>
        match rest.dropWhile (fun p => p ≠ '\n' && p ≠ '\'') with
        | '\'' :: _ => .error "error: multi character constant"
        | _ => .error "error: unterminated character literal"

/-- The exponent of a floating literal, after `buf`. -/
def copyExponent (buf : Text) (l : Lexer) : Option (Text × Lexer) :=
  match l.rest with
  | e :: after =>
    if e = 'e' ∨ e = 'E' then
      let (buf, l) :=
        match after with
        | s :: _ => if s = '+' ∨ s = '-' then (buf ++ [e, s], l.skip 2) else (buf ++ [e], l.skip 1)
        | [] => (buf ++ [e], l.skip 1)
      let (digits, l) := l.copyWhile Char.isDigit (62 - buf.length)
      some (buf ++ digits, l)
    else none
  | [] => none

/-- The optional `f` of a floating literal decides its type. -/
def finishFloat (buf : Text) (l : Lexer) (position : Position) : Token × Lexer :=
  match l.rest with
  | f :: _ =>
    if f = 'f' ∨ f = 'F' then
      ({ type := .floatLiteral, value := buf ++ [f], position }, lexerAdvance l)
    else ({ type := .doubleLiteral, value := buf, position }, l)
  | [] => ({ type := .doubleLiteral, value := buf, position }, l)

/-- A floating literal that starts with its point. -/
def lexDotFloat (l : Lexer) : Token × Lexer :=
  let (digits, l') := (lexerAdvance l).copyWhile Char.isDigit 61
  let buf := '.' :: digits
  let (buf, l') := (copyExponent buf l').getD (buf, l')
  finishFloat buf l' l.position

/-- The rest of a floating literal after its digits before the point, if it is one. -/
def floatContinuation (buf : Text) (l : Lexer) : Option (Text × Lexer) :=
  let fraction :=
    match l.rest with
    | '.' :: '.' :: _ => none
    | '.' :: _ =>
      let (digits, l') := (lexerAdvance l).copyWhile Char.isDigit (62 - (buf.length + 1))
      some (buf ++ '.' :: digits, l')
    | _ => none
  match fraction with
  | some (buf, l) => some ((copyExponent buf l).getD (buf, l))
  | none => copyExponent buf l

def isSuffixChar (c : Char) : Bool := c == 'U' || c == 'u' || c == 'L' || c == 'l'

/-- The suffix and the value of an integer literal whose text is `buf`. -/
def finishInteger (buf : Text) (value : Nat) (isOctal : Bool) (l : Lexer) (position : Position) :
    Except String (Token × Lexer) :=
  let (suffix, l) := l.copyWhile isSuffixChar l.rest.length
  let unsigned := suffix.any fun c => c == 'U' || c == 'u'
  let lCount := suffix.countP fun c => c == 'L' || c == 'l'
  if 2 < lCount then .error "error: integer literal has too many 'L' suffixes"
  else if 2 ^ 64 ≤ value ∨ (¬ unsigned ∧ lCount ≠ 2 ∧ 2 ^ 63 ≤ value) then
    .error ("error: integer literal '" ++ String.ofList buf ++
      "' too large for supported integer types")
  else
    .ok ({ type := .intLiteral
           value := if isOctal then Nat.toDigits 10 value else buf
           longValue := wrap64 value
           literalType :=
            if lCount = 2 then if unsigned then .unsignedLongLong else .longLong
            else if lCount = 1 then .long
            else if unsigned then if value < 2 ^ 32 then .int else .long
            else if value < 2 ^ 31 then .int
            else .long
           isUnsigned := unsigned
           position }, l)

/-- A number from its first digit on. The buffer holds 62 characters, and the digits after these
are left in the source. -/
def lexNumber (l : Lexer) : Except String (Token × Lexer) :=
  let decimal :=
    let (digits, l') := l.copyWhile Char.isDigit 62
    match floatContinuation digits l' with
    | some (buf, l'') => .ok (finishFloat buf l'' l.position)
    | none => finishInteger digits (digitsValue 10 digits) false l' l.position
  match l.rest with
  | '0' :: c :: _ =>
    if c = 'x' ∨ c = 'X' then
      let (digits, l') := (l.skip 2).copyWhile isHexDigit 60
      if digits = [] then .error "error: invalid hexadecimal integer literal"
      else finishInteger ('0' :: c :: digits) (digitsValue 16 digits) false l' l.position
    else if c.isDigit then
      let (digits, l') := l.copyWhile Char.isDigit 62
      match digits.find? (fun d => ¬ isOctalDigit d) with
      | some d => .error ("error: invalid digit '" ++ d.toString ++ "' in octal constant")
      | none => finishInteger digits (digitsValue 8 digits) true l' l.position
    else decimal
  | _ => decimal

def keywords : List (String × TokenType) :=
  [("int", .int), ("char", .char), ("short", .short), ("long", .long), ("return", .return),
    ("if", .if), ("else", .else), ("while", .while), ("do", .do), ("for", .for),
    ("break", .break), ("continue", .continue), ("switch", .switch), ("default", .default),
    ("case", .case), ("goto", .goto), ("sizeof", .sizeof), ("extern", .externKeyword),
    ("static", .static), ("typedef", .typedef), ("enum", .enum), ("struct", .struct),
    ("union", .union), ("void", .void), ("float", .float), ("double", .double),
    ("const", .const), ("volatile", .volatile), ("restrict", .restrict), ("inline", .inline),
    ("auto", .auto), ("register", .register), ("signed", .signed), ("unsigned", .unsigned),
    ("_Bool", .bool)]

def keywordType (name : Text) : TokenType :=
  ((keywords.find? fun k => k.1.toList = name).map Prod.snd).getD .identifier

/-- `isalnum` and `_`, from a letter or `_` on. -/
def lexIdentifier (l : Lexer) : Token × Lexer :=
  let (name, l') := l.copyWhile isIdentChar l.rest.length
  ({ type := keywordType name, value := name, position := l.position }, l')

def lexerNextToken (l : Lexer) : Except String (Token × Lexer) :=
  let l := lexerSkipWhitespace l
  match l.rest with
  | [] => .ok ({ type := .eof, position := l.position }, l)
  | c :: after =>
    if c = '.' ∧ (after.head?.any Char.isDigit) then .ok (lexDotFloat l)
    else
      match punctuator l.rest with
      | some (type, value) =>
        .ok ({ type, value, position := l.position }, l.skip value.length)
      | none =>
        if c = '"' then do
          let (decoded, l') ← lexString l
          .ok ({ type := .stringLiteral, value := decoded, position := l.position }, l')
        else if c = '\'' then do
          let (byte, l') ← lexChar l
          .ok ({ type := .charLiteral, value := [byte], longValue := byte.toNat,
                 literalType := .int, position := l.position }, l')
        else if (c = 'L' ∨ c = 'U' ∨ c = 'u') ∧ after.head? = some '\'' then
          .error "error: wide character literal not supported"
        else if c.isDigit then lexNumber l
        else if isIdentStart c then .ok (lexIdentifier l)
        else .ok ({ type := .unknown, value := [c], position := l.position }, lexerAdvance l)

end ClaudeC99.Front
