import ClaudeC99.CType
import ClaudeC99.Lib.Numeral
import ClaudeC99.Preprocessor.Macros
import Mathlib

/-! The tokens of the lexer, its state, and how it moves over the preprocessed source. -/

namespace ClaudeC99.Front

open Numeral (digitsValue)
open Preprocessor (Text isSpaceChar isIdentStart isIdentChar)

inductive TokenType
  | eof | int | char | short | long | return | if | else | while | do | for | break | continue
  | switch | default | case | goto | sizeof | externKeyword | static | typedef | enum | struct | union
  | void | float | double | bool | const | volatile | restrict | inline | auto | register
  | signed | unsigned | identifier | intLiteral | floatLiteral | doubleLiteral | stringLiteral
  | charLiteral | lparen | rparen | lbrace | rbrace | lbracket | rbracket | semicolon | colon
  | comma | plus | minus | star | slash | percent | bang | tilde | assign | plusAssign
  | minusAssign | starAssign | slashAssign | percentAssign | leftShiftAssign | rightShiftAssign
  | ampAssign | caretAssign | pipeAssign | increment | decrement | eq | ne | lt | le | gt | ge
  | leftShift | rightShift | andAnd | orOr | ampersand | caret | pipe | question | dot | arrow
  | ellipsis | unknown
  deriving DecidableEq, Repr

/-- Where a token starts. `file` is the path in the lexer's pool, or none. -/
structure Position where
  line : Int
  col : Int
  file : Option Text
  deriving DecidableEq, Repr

/-- The `lexeme` of a token is its `value` in every token of the lexer and has no field here. -/
structure Token where
  type : TokenType
  value : Text := []
  longValue : Int := 0
  literalType : TypeKind := .void
  isUnsigned : Bool := false
  position : Position
  deriving DecidableEq, Repr

/-- `rest` is the source from `pos` on. The file pool holds one entry for each path, so that a
file is its path. -/
structure Lexer where
  rest : Text
  line : Int
  col : Int
  file : Option Text
  deriving DecidableEq, Repr

def lexerInit (source : Text) (filename : Option Text) : Lexer :=
  { rest := source, line := 1, col := 1, file := filename }

def lexerAdvance (l : Lexer) : Lexer :=
  match l.rest with
  | '\n' :: rest => { l with rest, line := l.line + 1, col := 1 }
  | _ :: rest => { l with rest, col := l.col + 1 }
  | [] => l

/-- `lexer_advance` called `n` times. -/
def Lexer.skip (l : Lexer) : Nat → Lexer
  | 0 => l
  | n + 1 => (lexerAdvance l).skip n

/-- `\x01<line>:<path>\n`, from the `\x01` on. A path is cut off at 511 characters and an empty
one leaves the file as it is. -/
def lexerParseLocationMarker (l : Lexer) : Lexer :=
  let afterMark := l.rest.drop 1
  let digits := afterMark.takeWhile Char.isDigit
  let afterDigits := afterMark.dropWhile Char.isDigit
  let afterColon :=
    match afterDigits with
    | ':' :: rest => rest
    | rest => rest
  let path := afterColon.takeWhile (· ≠ '\n')
  { rest := (afterColon.dropWhile (· ≠ '\n')).drop 1
    line := digitsValue 10 digits
    col := 1
    file := if path = [] then l.file else some (path.take 511) }

/-- Every round consumes a character, so as many rounds as there are characters are enough. -/
def lexerSkipWhitespaceLoop : Nat → Lexer → Lexer
  | 0, l => l
  | n + 1, l =>
    match l.rest with
    | [] => l
    | c :: _ =>
      if c = '\x01' then lexerSkipWhitespaceLoop n (lexerParseLocationMarker l)
      else if isSpaceChar c then lexerSkipWhitespaceLoop n (lexerAdvance l)
      else l

def lexerSkipWhitespace (l : Lexer) : Lexer := lexerSkipWhitespaceLoop l.rest.length l

def Lexer.position (l : Lexer) : Position := ⟨l.line, l.col, l.file⟩

/-- The longest run of at most `room` characters with `p`, copied into a buffer. -/
def Lexer.copyWhile (l : Lexer) (p : Char → Bool) (room : Nat) : Text × Lexer :=
  let run := (l.rest.takeWhile p).take room
  (run, l.skip run.length)

def isOctalDigit (c : Char) : Bool := '0' ≤ c && c ≤ '7'

end ClaudeC99.Front
