import ClaudeC99.Constant.Conditions
import ClaudeC99.Front.Scan
import Mathlib.Tactic.NormNum

/-! The tokens of the text of a constant expression. -/

namespace ClaudeC99.Constant

open Front
open Numeral (isHexDigit digitsValue)
open Preprocessor (Text isBlank)

def unaryToken : UnaryOp → TokenType
  | .plus => .plus
  | .minus => .minus
  | .tilde => .tilde
  | .bang => .bang

def binaryToken : BinaryOp → TokenType
  | .add => .plus
  | .sub => .minus
  | .mul => .star
  | .div => .slash
  | .mod => .percent
  | .bitAnd => .ampersand
  | .bitOr => .pipe
  | .bitXor => .caret
  | .shiftLeft => .leftShift
  | .shiftRight => .rightShift
  | .eq => .eq
  | .ne => .ne
  | .lt => .lt
  | .le => .le
  | .gt => .gt
  | .ge => .ge
  | .logicalAnd => .andAnd
  | .logicalOr => .orOr

def wordToken : Word → TokenType
  | .atom _ => .intLiteral
  | .unary op => unaryToken op
  | .binary op => binaryToken op
  | .openParen => .lparen
  | .closeParen => .rparen
  | .question => .question
  | .colon => .colon

/-- A literal that the lexer's buffer holds. -/
def Literal.Short (a : Literal) : Prop := a.mark.isSome → a.digits.length ≤ 60

instance (a : Literal) : Decidable a.Short := inferInstanceAs (Decidable (_ → _))

/-- A literal that the lexer reads as one token of its value. -/
def Literal.Lexable (a : Literal) : Prop := a.value < 2 ^ 63 ∧ a.Short

/-- The token of a word. -/
def IsToken (tok : Token) : Word → Prop
  | .atom a => tok.type = .intLiteral ∧ tok.longValue = wrap64 a.value
  | w => tok.type = wordToken w

theorem IsToken.type {tok : Token} {w : Word} (is : IsToken tok w) : tok.type = wordToken w := by
  cases w with
  | atom a => exact is.1
  | _ => exact is

theorem no_newline {p : Char → Bool} {run : Text} (all : ∀ c ∈ run, p c) (plain : p '\n' = false) :
    '\n' ∉ run := by
  intro mem
  rw [all _ mem] at plain
  cases plain

theorem suffixChar_of_suffix {c : Char} : isSuffixChar c = isSuffix c := by
  unfold isSuffixChar isSuffix
  cases (c == 'U') <;> cases (c == 'u') <;> cases (c == 'L') <;> cases (c == 'l') <;> rfl

theorem finishInteger_suffix {suffix t : Text} (suffixOk : ∀ c ∈ suffix, isSuffix c)
    (few : (suffix.countP fun c => c == 'L' || c == 'l') ≤ 2) (ends : NumberEnds t) {l : Lexer}
    (start : l.rest = suffix ++ t) {value : Nat} (small : value < 2 ^ 63) (buf : Text)
    (isOctal : Bool) (position : Position) :
    ∃ tok, finishInteger buf value isOctal l position = .ok (tok, l.after suffix t) ∧
      tok.type = .intLiteral ∧ tok.longValue = wrap64 value := by
  have all : ∀ c ∈ suffix, isSuffixChar c := by
    intro c mem
    rw [suffixChar_of_suffix]
    exact suffixOk c mem
  have stop : ∀ c ∈ t.head?, isSuffixChar c = false := by
    intro c mem
    rw [suffixChar_of_suffix]
    exact ends.not_suffix c mem
  have fits : suffix.length ≤ l.rest.length := by simp [start]
  have copied := copyWhile_run start all stop fits (no_newline all rfl)
  unfold finishInteger
  rw [copied]
  dsimp only
  rw [if_neg (by omega), if_neg (by omega)]
  exact ⟨_, rfl, rfl, rfl⟩

/-- A decimal literal in range has few digits. -/
theorem Literal.decimal_short {a : Literal} (mark : a.mark = none) (small : a.value < 2 ^ 63) :
    a.digits.length ≤ 62 := by
  cases digits : a.digits with
  | nil => simp
  | cons c rest =>
    by_cases zero : c = '0'
    · have single := a.not_octal mark (by simp [digits, zero])
      rw [digits] at single
      simp [single]
    · have digit := Literal.digits_decimal mark c (by simp [digits])
      have pos : 1 ≤ Numeral.hexDigitValue c := by
        rcases digit_cases digit with rfl | rfl | rfl | rfl | rfl | rfl | rfl | rfl | rfl | rfl
        · exact absurd rfl zero
        all_goals decide
      have large := Numeral.digitsValue_cons_ge 10 c rest
      have value : a.value = digitsValue 10 (c :: rest) := by
        simp [Literal.value, Literal.base, mark, digits]
      have power : 10 ^ rest.length < 10 ^ 19 := by
        calc 10 ^ rest.length ≤ Numeral.hexDigitValue c * 10 ^ rest.length :=
              Nat.le_mul_of_pos_left _ pos
          _ ≤ a.value := by rw [value]; exact large
          _ < 2 ^ 63 := small
          _ < 10 ^ 19 := by norm_num
      have := (Nat.pow_lt_pow_iff_right (by norm_num : 1 < 10)).mp power
      simp only [List.length_cons]
      omega

/-- What follows the digits of a literal does not make it a floating literal. -/
theorem after_integer (a : Literal) {t : Text} (ends : NumberEnds t) :
    ∀ c ∈ (a.suffix ++ t).head?, c ≠ '.' ∧ c ≠ 'e' ∧ c ≠ 'E' := by
  intro c head
  have noHex := after_digits a ends c head
  refine ⟨?_, ?_, ?_⟩
  · rintro rfl
    cases suffix : a.suffix with
    | nil =>
      exact (ends '.' (by simpa [suffix] using head)).2 rfl
    | cons d rest =>
      have ok := a.suffix_ok d (by simp [suffix])
      obtain rfl : d = '.' := by simpa [suffix] using head
      cases ok
  all_goals
    rintro rfl
    cases noHex

theorem Literal.text_cases (a : Literal) (t : Text) :
    (∃ x, a.mark = some x ∧ a.text ++ t = '0' :: x :: (a.digits ++ (a.suffix ++ t))) ∨
      a.mark = none ∧ a.text ++ t = a.digits ++ (a.suffix ++ t) := by
  cases mark : a.mark with
  | some x => exact .inl ⟨x, rfl, Literal.text_hex mark t⟩
  | none => exact .inr ⟨rfl, Literal.text_decimal mark t⟩

theorem lexNumber_hex {a : Literal} {x : Char} (mark : a.mark = some x) {t : Text}
    (ends : NumberEnds t) (small : a.value < 2 ^ 63) (short : a.digits.length ≤ 60) {l : Lexer}
    (start : l.rest = '0' :: x :: (a.digits ++ (a.suffix ++ t))) :
    ∃ tok, lexNumber l = .ok (tok, l.after a.text t) ∧ IsToken tok (.atom a) := by
  have isX := a.mark_x x (by simp [mark])
  have prefixed : l.skip 2 = l.after ['0', x] (a.digits ++ (a.suffix ++ t)) :=
    skip_run ['0', x] start (by rcases isX with rfl | rfl <;> decide)
  have all := Literal.digits_hex mark
  have copied := copyWhile_run (l := l.skip 2) (by rw [prefixed]; rfl) all (after_digits a ends)
    short (no_newline all rfl)
  have same : a.value = digitsValue 16 a.digits := by simp [Literal.value, Literal.base, mark]
  have text : ['0', x] ++ (a.digits ++ a.suffix) = a.text := by simp [Literal.text, mark]
  obtain ⟨tok, finished, type, value⟩ := finishInteger_suffix a.suffix_ok a.suffix_le ends
    (l := (l.skip 2).after a.digits (a.suffix ++ t)) rfl (same ▸ small) ('0' :: x :: a.digits)
    false l.position
  refine ⟨tok, ?_, type, by rw [value, same]⟩
  rw [prefixed, after_after, after_after, List.append_assoc, text] at finished
  simp only [lexNumber, start, if_pos isX, copied, if_neg a.digits_ne]
  rw [prefixed, after_after]
  exact finished

theorem lexNumber_decimal {a : Literal} (mark : a.mark = none) {t : Text}
    (ends : NumberEnds t) (small : a.value < 2 ^ 63) {l : Lexer}
    (start : l.rest = a.digits ++ (a.suffix ++ t)) :
    ∃ tok, lexNumber l = .ok (tok, l.after a.text t) ∧ IsToken tok (.atom a) := by
  have all := Literal.digits_decimal mark
  have stop := not_digit_of_not_hex (after_digits a ends)
  have copied := copyWhile_run start all stop (Literal.decimal_short mark small)
    (no_newline all rfl)
  have same : a.value = digitsValue 10 a.digits := by simp [Literal.value, Literal.base, mark]
  have text : a.digits ++ a.suffix = a.text := by simp [Literal.text, mark]
  obtain ⟨tok, finished, type, value⟩ := finishInteger_suffix a.suffix_ok a.suffix_le ends
    (l := l.after a.digits (a.suffix ++ t)) rfl (same ▸ small) a.digits false l.position
  refine ⟨tok, ?_, type, by rw [value, same]⟩
  rw [after_after, text] at finished
  have noFloat := floatContinuation_none (l := l.after a.digits (a.suffix ++ t)) a.digits
    (after_integer a ends)
  unfold lexNumber
  rw [copied]
  dsimp only
  rw [noFloat]
  split
  · rename_i c rest zero
    rw [start, ← Literal.text_decimal mark] at zero
    rw [if_neg (not_hex_mark mark ends zero)]
    have noOctal := not_digit_of_not_hex (after_digits a ends) c (after_zero mark zero)
    rw [if_neg (by simp [noOctal])]
    exact finished
  · exact finished

theorem nextToken_literal {a : Literal} {t : Text} (ends : NumberEnds t)
    (lexable : a.Lexable) {l : Lexer} (start : l.rest = a.text ++ t) :
    ∃ tok, lexerNextToken l = .ok (tok, l.after a.text t) ∧ IsToken tok (.atom a) := by
  obtain ⟨c, rest, first, digit⟩ := literal_cons a
  rw [nextToken_number (by rw [start, first]; rfl) digit]
  rcases a.text_cases t with ⟨x, mark, text⟩ | ⟨mark, text⟩
  · exact lexNumber_hex mark ends lexable.1 (lexable.2 (by simp [mark])) (start.trans text)
  · exact lexNumber_decimal mark ends lexable.1 (start.trans text)

theorem punctuator_word {w : Word} (operator : ∀ a, w ≠ .atom a) {t : Text}
    (boundary : Boundary t) :
    punctuator (wordText w ++ t) = some (wordToken w, wordText w) := by
  cases w with
  | atom a => exact absurd rfl (operator a)
  | openParen | closeParen | question | colon => rfl
  | unary op | binary op =>
    rcases boundary.cases with rfl | ⟨c, rest, rfl, mem⟩
    · cases op <;> rfl
    · rcases mem with rfl | rfl | rfl | rfl | rfl | rfl | rfl <;> cases op <;> rfl

theorem digit_startsToken {c : Char} (digit : c.isDigit) : startsToken c := by
  rcases digit_cases digit with rfl | rfl | rfl | rfl | rfl | rfl | rfl | rfl | rfl | rfl <;> rfl

/-- The first character of a word starts a token and no floating literal. -/
theorem word_start (w : Word) : ∃ c rest, wordText w = c :: rest ∧ startsToken c ∧ c ≠ '.' := by
  cases w with
  | atom a =>
    obtain ⟨c, rest, eq, digit⟩ := literal_cons a
    refine ⟨c, rest, eq, digit_startsToken digit, ?_⟩
    rintro rfl
    cases digit
  | unary op => cases op <;> exact ⟨_, _, rfl, rfl, by decide⟩
  | binary op => cases op <;> exact ⟨_, _, rfl, rfl, by decide⟩
  | _ => exact ⟨_, _, rfl, rfl, by decide⟩

theorem word_line (w : Word) (operator : ∀ a, w ≠ .atom a) : '\n' ∉ wordText w := by
  cases w with
  | atom a => exact absurd rfl (operator a)
  | unary op => cases op <;> decide
  | binary op => cases op <;> decide
  | _ => decide

/-- Words whose literals the lexer reads as tokens of their values. -/
def Lexable : Word → Prop
  | .atom a => a.Lexable
  | _ => True

theorem nextToken_word {w : Word} (lexable : Lexable w) {t : Text} (boundary : Boundary t)
    {l : Lexer} (start : l.rest = wordText w ++ t) :
    ∃ tok, lexerNextToken l = .ok (tok, l.after (wordText w) t) ∧ IsToken tok w := by
  by_cases atom : ∃ a, w = .atom a
  · obtain ⟨a, rfl⟩ := atom
    exact nextToken_literal boundary.numberEnds lexable start
  · have operator : ∀ a, w ≠ .atom a := fun a eq => atom ⟨a, eq⟩
    have known := punctuator_word operator boundary
    have skipped := skip_run _ start (word_line w operator)
    obtain ⟨c, rest, first, token, noPoint⟩ := word_start w
    rw [first, List.cons_append] at start known
    have next := nextToken_punctuator start token (fun point => noPoint point.1) known
    rw [← first, skipped] at next
    refine ⟨_, next, ?_⟩
    cases w with
    | atom a => exact absurd rfl (operator a)
    | _ => rfl

/-- The same after a blank. -/
theorem nextToken_spaced {w : Word} (lexable : Lexable w) {t : Text} (boundary : Boundary t)
    {l : Lexer} (start : l.rest = ' ' :: (wordText w ++ t)) :
    ∃ tok, lexerNextToken l = .ok (tok, l.after (' ' :: wordText w) t) ∧ IsToken tok w := by
  obtain ⟨c, rest, first, token, -⟩ := word_start w
  have blank : l.rest = ' ' :: c :: (rest ++ t) := by rw [start, first, List.cons_append]
  have start' : (l.after [' '] (c :: (rest ++ t))).rest = wordText w ++ t := by
    rw [first]
    rfl
  obtain ⟨tok, next, is⟩ := nextToken_word lexable boundary start'
  rw [after_after] at next
  exact ⟨tok, (nextToken_blank blank token).trans next, is⟩

def closerToken : Char → TokenType
  | ')' => .rparen
  | ']' => .rbracket
  | '\x7d' => .rbrace
  | ',' => .comma
  | ';' => .semicolon
  | _ => .colon

/-- The token of what follows an expression: the end of the source, or a closing punctuator. -/
theorem nextToken_closes {rest : Text} (closes : Closes rest) {l : Lexer} (start : l.rest = rest) :
    ∃ tok l', lexerNextToken l = .ok (tok, l') ∧
      ((rest = [] ∧ tok.type = .eof ∧ l' = l) ∨
        ∃ c after, rest = c :: after ∧ c ∈ closers ∧ tok.type = closerToken c ∧ l'.rest = after) := by
  rcases closes.cases with rfl | ⟨c, after, rfl, mem⟩
  · exact ⟨_, _, nextToken_eof start, .inl ⟨rfl, rfl, rfl⟩⟩
  · rcases mem with rfl | rfl | rfl | rfl | rfl | rfl
    all_goals
      have next := nextToken_punctuator start rfl (by simp) rfl
      refine ⟨_, _, next, .inr ⟨_, _, rfl, by decide, rfl, ?_⟩⟩
      exact congrArg Lexer.rest (skip_run [_] start (by decide))

end ClaudeC99.Constant
