import ClaudeC99.Front.Lexer
import ClaudeC99.Lib.Cursors

/-! The lexer with its position in the source: every read of the source and every step of `pos`,
with the faults that a read behind the terminating NUL, an `int` overflow of `pos` and an endless
loop would be. -/

namespace ClaudeC99.Positions

open Cursors
open Front (Token TokenType Position isOctalDigit isSuffixChar keywordType lowByte punctuator
  stringEscape charEscape)
open Numeral (isHexDigit digitsValue)
open Preprocessor (Text isSpaceChar isIdentStart isIdentChar)

def intMax : Nat := 2 ^ 31 - 1

/-- A source as the lexer gets it, up to its terminating NUL. -/
structure Source where
  text : Text
  noNul : '\x00' ∉ text

def Source.tape (source : Source) : Tape Char := ⟨source.text, '\x00', source.noNul, intMax⟩

abbrev Lexing (α : Type) := Prog Position String α

/-- How `lexer_advance` changes `line` and `col`. -/
def passed (c : Char) (p : Position) : Position :=
  if c = '\n' then { p with line := p.line + 1, col := 1 } else { p with col := p.col + 1 }

variable (source : Source)

/-- `source[pos + k]` -/
def peek (k : Nat) : Lexing Char := source.tape.peek k

/-- The right side of `known && source[pos + k]`; where it is not read, the NUL stands for it. -/
def peekIf (known : Bool) (k : Nat) : Lexing Char :=
  if known = true then peek source k else pure '\x00'

def lexerAdvance : Lexing Unit := source.tape.advance passed

def skip (n : Nat) : Lexing Unit := source.tape.advanceBy passed n

def copyWhile (p : Char → Bool) (room : Nat) : Lexing Text :=
  source.tape.passWhile passed p source.tape.rounds room

/-- A loop with no buffer to fill. -/
def copyAll (p : Char → Bool) : Lexing Text := copyWhile source p source.tape.rounds

/-- A loop that moves `pos` alone. -/
def passAll (p : Char → Bool) : Lexing Text :=
  source.tape.passWhile (fun _ info => info) p source.tape.rounds source.tape.rounds

/-- `if (source[pos] == c) pos++` -/
def passIf (c : Char) : Lexing Unit := do
  let d ← peek source 0
  if d = c then source.tape.bump else pure ()

def lexerParseLocationMarker : Lexing Unit := do
  source.tape.bump
  let digits ← passAll source Char.isDigit
  passIf source ':'
  let path ← passAll source fun c => c ≠ '\x00' && c ≠ '\n'
  passIf source '\n'
  modify fun c => { c with info :=
    { line := digitsValue 10 digits
      col := 1
      file := if path = [] then c.info.file else some (path.take 511) } }

def lexerSkipWhitespaceLoop : Nat → Lexing Unit
  | 0 => Tape.unending
  | n + 1 => do
    let c ← peek source 0
    if c = '\x01' then do
      lexerParseLocationMarker source
      lexerSkipWhitespaceLoop n
    else if c ≠ '\x00' ∧ isSpaceChar c = true then do
      lexerAdvance source
      lexerSkipWhitespaceLoop n
    else pure ()

def lexerSkipWhitespace : Lexing Unit := lexerSkipWhitespaceLoop source source.tape.rounds

/-- The characters that decide the operator or punctuator at `c`. -/
def readAhead (c : Char) : Lexing Text :=
  if c ∈ ['(', ')', '{', '}', '[', ']', ';', ':', '?', ',', '~'] then pure [c]
  else do
    let n ← peek source 1
    if c = n ∧ (c = '.' ∨ c = '<' ∨ c = '>') then do
      let m ← peek source 2
      pure [c, n, m]
    else pure [c, n]

/-- An escape sequence from its backslash on, in a literal of the kind that `literal` names. -/
def lexEscape (simple : Char → Option Char) (literal : String) : Lexing Char := do
  let next ← peek source 1
  if next = 'x' then do
    skip source 2
    let d ← peek source 0
    if isHexDigit d = true then do
      let digits ← copyAll source isHexDigit
      pure (lowByte (digitsValue 16 digits))
    else Tape.report ("error: invalid hex escape in " ++ literal)
  else if isOctalDigit next = true then do
    skip source 1
    let digits ← copyWhile source isOctalDigit 3
    pure (lowByte (digitsValue 8 digits))
  else
    match simple next with
    | some c => do
      skip source 2
      pure c
    | none => Tape.report ("error: invalid escape sequence in " ++ literal)

def lexStringLoop : Nat → Text → Lexing Text
  | 0, _ => Tape.unending
  | n + 1, decoded => do
    let ch ← peek source 0
    if ch = '"' then do
      lexerAdvance source
      pure decoded
    else if ch = '\x00' then Tape.report "error: unterminated string literal"
    else if ch = '\n' then Tape.report "error: newline in string literal"
    else if ch = '\\' then do
      let c ← lexEscape source stringEscape "string literal"
      lexStringLoop n (decoded ++ [c])
    else do
      lexerAdvance source
      lexStringLoop n (decoded ++ [ch])

def lexString : Lexing Text := do
  lexerAdvance source
  lexStringLoop source source.tape.rounds []

/-- The byte of a character literal that starts with `ch`. -/
def lexCharByte (ch : Char) : Lexing Char :=
  if ch = '\\' then lexEscape source charEscape "character literal"
  else do
    lexerAdvance source
    pure ch

/-- The closing quote. The source moves an `int p` that starts at `pos` to the next quote, newline
or NUL, and then exits either way. -/
def closeChar (dc : Char) : Lexing Char := do
  let close ← peek source 0
  if close = '\'' then do
    lexerAdvance source
    pure dc
  else do
    let _ ← passAll source fun p => p ≠ '\x00' && (p ≠ '\n' && p ≠ '\'')
    let stop ← peek source 0
    if stop = '\'' then Tape.report "error: multi character constant"
    else Tape.report "error: unterminated character literal"

/-- A character literal from its opening quote on. -/
def lexChar : Lexing Char := do
  lexerAdvance source
  let ch ← peek source 0
  if ch = '\x00' then Tape.report "error: unterminated character literal"
  else if ch = '\n' then Tape.report "error: newline in character literal"
  else if ch = '\'' then Tape.report "error: empty character literal"
  else do
    let dc ← lexCharByte source ch
    closeChar source dc

/-- The sign of an exponent, if there is one. -/
def copySign : Lexing Text := do
  let s ← peek source 0
  if s = '+' ∨ s = '-' then do
    lexerAdvance source
    pure [s]
  else pure []

/-- The exponent of a floating literal, after `buf`. -/
def copyExponent (buf : Text) : Lexing (Option Text) := do
  let e ← peek source 0
  if e = 'e' ∨ e = 'E' then do
    lexerAdvance source
    let sign ← copySign source
    let digits ← copyWhile source Char.isDigit (62 - (buf ++ e :: sign).length)
    pure (some (buf ++ e :: sign ++ digits))
  else pure none

def finishFloat (buf : Text) (position : Position) : Lexing Token := do
  let f ← peek source 0
  if f = 'f' ∨ f = 'F' then do
    lexerAdvance source
    pure { type := .floatLiteral, value := buf ++ [f], position }
  else pure { type := .doubleLiteral, value := buf, position }

def lexDotFloat (position : Position) : Lexing Token := do
  lexerAdvance source
  let digits ← copyWhile source Char.isDigit 61
  let buf ← copyExponent source ('.' :: digits)
  finishFloat source (buf.getD ('.' :: digits)) position

def floatContinuation (buf : Text) : Lexing (Option Text) := do
  let p ← peek source 0
  let q ← peekIf source (p = '.') 1
  if p = '.' ∧ q ≠ '.' then do
    lexerAdvance source
    let digits ← copyWhile source Char.isDigit (62 - (buf.length + 1))
    let more ← copyExponent source (buf ++ '.' :: digits)
    pure (some (more.getD (buf ++ '.' :: digits)))
  else copyExponent source buf

/-- The token of an integer literal whose text is `buf`, behind its suffix. -/
def integerToken (buf : Text) (value : Nat) (isOctal : Bool) (position : Position)
    (suffix : Text) : Except String Token :=
  let unsigned := suffix.any fun c => c == 'U' || c == 'u'
  let lCount := suffix.countP fun c => c == 'L' || c == 'l'
  if 2 < lCount then .error "error: integer literal has too many 'L' suffixes"
  else if 2 ^ 64 ≤ value ∨ (¬ unsigned ∧ lCount ≠ 2 ∧ 2 ^ 63 ≤ value) then
    .error ("error: integer literal '" ++ String.ofList buf ++
      "' too large for supported integer types")
  else
    .ok { type := .intLiteral
          value := if isOctal then Nat.toDigits 10 value else buf
          longValue := wrap64 value
          literalType :=
            if lCount = 2 then if unsigned then .unsignedLongLong else .longLong
            else if lCount = 1 then .long
            else if unsigned then if value < 2 ^ 32 then .int else .long
            else if value < 2 ^ 31 then .int
            else .long
          isUnsigned := unsigned
          position }

def finishInteger (buf : Text) (value : Nat) (isOctal : Bool) (position : Position) :
    Lexing Token := do
  let suffix ← copyAll source isSuffixChar
  match integerToken buf value isOctal position suffix with
  | .ok token => pure token
  | .error message => Tape.report message

/-- The digits of an octal literal, `i < 62` of them at most. -/
def octalDigits : Nat → Nat → Lexing Text
  | 0, _ => Tape.unending
  | n + 1, room => do
    let dc ← peek source 0
    if dc.isDigit = true ∧ 0 < room then
      if dc = '8' ∨ dc = '9' then
        Tape.report ("error: invalid digit '" ++ dc.toString ++ "' in octal constant")
      else do
        lexerAdvance source
        let rest ← octalDigits n (room - 1)
        pure (dc :: rest)
    else pure []

/-- A number from its first digit on. -/
def lexNumber (position : Position) : Lexing Token := do
  let c ← peek source 0
  let n ← peekIf source (c = '0') 1
  if c = '0' ∧ (n = 'x' ∨ n = 'X') then do
    skip source 2
    let d ← peek source 0
    if isHexDigit d = true then do
      let digits ← copyWhile source isHexDigit 60
      finishInteger source (c :: n :: digits) (digitsValue 16 digits) false position
    else Tape.report "error: invalid hexadecimal integer literal"
  else if c = '0' ∧ n.isDigit = true then do
    let digits ← octalDigits source source.tape.rounds 62
    finishInteger source digits (digitsValue 8 digits) true position
  else do
    let digits ← copyWhile source Char.isDigit 62
    let more ← floatContinuation source digits
    match more with
    | some buf => finishFloat source buf position
    | none => finishInteger source digits (digitsValue 10 digits) false position

def lexIdentifier (position : Position) : Lexing Token := do
  let name ← copyAll source isIdentChar
  pure { type := keywordType name, value := name, position }

def lexerNextToken : Lexing Token := do
  lexerSkipWhitespace source
  let start ← get
  let position := start.info
  let c ← peek source 0
  if c = '\x00' then pure { type := .eof, position }
  else do
    let ahead ← readAhead source c
    if c = '.' ∧ ahead.tail.head?.any Char.isDigit = true then lexDotFloat source position
    else
      match punctuator ahead with
      | some (type, value) => do
        skip source value.length
        pure { type, value, position }
      | none =>
        if c = '"' then do
          let decoded ← lexString source
          pure { type := .stringLiteral, value := decoded, position }
        else if c = '\'' then do
          let byte ← lexChar source
          pure { type := .charLiteral, value := [byte], longValue := byte.toNat,
                 literalType := .int, position }
        else if (c = 'L' ∨ c = 'U' ∨ c = 'u') ∧ ahead.tail.head? = some '\'' then
          Tape.report "error: wide character literal not supported"
        else if c.isDigit = true then lexNumber source position
        else if isIdentStart c = true then lexIdentifier source position
        else do
          lexerAdvance source
          pure { type := .unknown, value := [c], position }

end ClaudeC99.Positions
