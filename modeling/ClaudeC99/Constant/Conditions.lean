import ClaudeC99.Constant.Trees
import ClaudeC99.Lib.StateExcept
import ClaudeC99.Preprocessor.Condition
import Mathlib.Data.List.DropRight

/-! The evaluator of conditions reads the text of a constant expression as its tree. -/

namespace ClaudeC99.Constant

open Numeral (isHexDigit digitsValue)
open Precedence
open Preprocessor

/-- The characters that may come right after an expression. -/
def closers : Text := [')', ']', '\x7d', ',', ';', ':']

def Closes (rest : Text) : Prop := ∀ c ∈ rest.head?, c ∈ closers

/-- What may come right after a word. -/
def Boundary (t : Text) : Prop := ∀ c ∈ t.head?, c = ' ' ∨ c ∈ closers

theorem Boundary.cases {t : Text} (boundary : Boundary t) :
    t = [] ∨ ∃ c rest, t = c :: rest ∧
      (c = ' ' ∨ c = ')' ∨ c = ']' ∨ c = '\x7d' ∨ c = ',' ∨ c = ';' ∨ c = ':') := by
  cases t with
  | nil => exact .inl rfl
  | cons c rest =>
    have := boundary c rfl
    exact .inr ⟨c, rest, rfl, by simpa [closers] using this⟩

theorem boundary_spaced (ws : List Word) {rest : Text} (closes : Closes rest) :
    Boundary (spaced ws rest) := by
  cases ws with
  | nil =>
    intro c head
    exact .inr (closes c head)
  | cons w ws =>
    intro c head
    cases head
    exact .inl rfl

theorem literal_cons (a : Literal) : ∃ c rest, a.text = c :: rest ∧ c.isDigit := by
  unfold Literal.text
  cases mark : a.mark with
  | some x => exact ⟨'0', _, rfl, rfl⟩
  | none =>
    cases digits : a.digits with
    | nil => exact absurd digits a.digits_ne
    | cons c rest =>
      have ok := a.digits_ok c (by simp [digits])
      exact ⟨c, _, rfl, by simpa [mark] using ok⟩

theorem not_blank_of_digit {c : Char} (digit : c.isDigit) : isBlank c = false := by
  cases blank : isBlank c with
  | false => rfl
  | true =>
    have cases : c = ' ' ∨ c = '\t' := by simpa [isBlank] using blank
    rcases cases with rfl | rfl <;> cases digit

theorem word_cons (w : Word) : ∃ c rest, wordText w = c :: rest ∧ isBlank c = false := by
  cases w with
  | atom a =>
    obtain ⟨c, rest, eq, digit⟩ := literal_cons a
    exact ⟨c, rest, eq, not_blank_of_digit digit⟩
  | unary op => cases op <;> exact ⟨_, _, rfl, rfl⟩
  | binary op => cases op <;> exact ⟨_, _, rfl, rfl⟩
  | _ => exact ⟨_, _, rfl, rfl⟩

theorem word_settled (w : Word) (t : Text) : (wordText w ++ t).dropWhile isBlank = wordText w ++ t := by
  obtain ⟨c, rest, eq, plain⟩ := word_cons w
  rw [eq, List.cons_append, List.dropWhile_cons_of_neg (by simp [plain])]

theorem dropWhile_settled (t : Text) :
    (t.dropWhile isBlank).dropWhile isBlank = t.dropWhile isBlank :=
  List.dropWhile_idempotent _ _

def condOperator : Nat → CondOperator
  | 1 => logicalOrOp
  | 2 => logicalAndOp
  | 3 => bitwiseOrOp
  | 4 => bitwiseXorOp
  | 5 => bitwiseAndOp
  | 6 => equalityOp
  | 7 => relationalOp
  | 8 => shiftOp
  | 9 => additiveOp
  | 10 => multiplicativeOp
  | _ => fun _ => none

def condRead (macros : MacroTable) (self : CondReader) : Nat → CondReader
  | 0 => evalCondTernary macros self
  | 1 => evalCondLogicalOr macros self
  | 2 => evalCondLogicalAnd macros self
  | 3 => evalCondBitwiseOr macros self
  | 4 => evalCondBitwiseXor macros self
  | 5 => evalCondBitwiseAnd macros self
  | 6 => evalCondEquality macros self
  | 7 => evalCondRelational macros self
  | 8 => evalCondShift macros self
  | 9 => evalCondAdditive macros self
  | 10 => evalCondMultiplicative macros self
  | _ => evalCondUnary macros self

def condLadder (macros : MacroTable) : Ladder Text String Int Literal UnaryOp BinaryOp where
  toGrammar := grammar
  meaning := meaning
  Step s w s' := ∃ t, s = wordText w ++ t ∧ Boundary t ∧ s' = t.dropWhile isBlank
  settle := List.dropWhile isBlank
  size := List.length
  next k := nextCondOp (condOperator k)
  asks s := s.head? = some '?'
  apply := applyCondOp
  read := condRead macros

/-- What may come right after a binary operator: anything that does not make another operator of
it. -/
def Joins (t : Text) : Prop := ∀ c ∈ t.head?, c ≠ '<' ∧ c ≠ '>' ∧ c ≠ '&' ∧ c ≠ '|' ∧ c ≠ '='

theorem Boundary.joins {t : Text} (boundary : Boundary t) : Joins t := by
  intro c head
  obtain blank | closer := boundary c head
  · simp [blank]
  · simp only [closers, List.mem_cons, List.not_mem_nil, or_false] at closer
    rcases closer with rfl | rfl | rfl | rfl | rfl | rfl <;> decide

theorem next_operator (op : BinaryOp) {t : Text} (joins : Joins t) :
    condOperator (precedence op) (binaryText op ++ t) = some (op, t) := by
  cases t with
  | nil => cases op <;> rfl
  | cons c rest =>
    obtain ⟨noLess, noGreater, noAnd, noOr, noEquals⟩ := joins c rfl
    cases op <;> first
      | rfl
      | simp [precedence, condOperator, binaryText, relationalOp, bitwiseAndOp, bitwiseOrOp,
          noLess, noGreater, noAnd, noOr, noEquals]

theorem next_looser {op : BinaryOp} {k : Nat} (other : precedence op ≠ k) {t : Text}
    (joins : Joins t) : condOperator k (binaryText op ++ t) = none := by
  match k with
  | 0 | _ + 11 => rfl
  | 1 | 2 | 3 | 4 | 5 | 6 | 7 | 8 | 9 | 10 =>
    cases t with
    | nil => cases op <;> first | rfl | exact absurd rfl other
    | cons c rest =>
      obtain ⟨noLess, noGreater, noAnd, noOr, noEquals⟩ := joins c rfl
      cases op <;> first
        | rfl
        | exact absurd rfl other
        | simp [condOperator, binaryText, logicalOrOp, logicalAndOp, shiftOp, noLess, noGreater,
            noAnd, noOr]

theorem next_other {w : Word} (follows : w.Follows) {k : Nat}
    (other : ∀ op, w = .binary op → precedence op ≠ k) {t : Text} (boundary : Boundary t) :
    condOperator k (wordText w ++ t) = none := by
  cases w with
  | atom | unary | openParen => cases follows
  | closeParen | question | colon =>
    match k with
    | 0 | 1 | 2 | 3 | 4 | 5 | 6 | 7 | 8 | 9 | 10 | _ + 11 => rfl
  | binary op => exact next_looser (other op rfl) boundary.joins

theorem takeWhile_append_of_head {p : Char → Bool} {s t : Text} (all : ∀ c ∈ s, p c)
    (stop : ∀ c ∈ t.head?, p c = false) :
    (s ++ t).takeWhile p = s ∧ (s ++ t).dropWhile p = t := by
  rw [List.takeWhile_append_of_pos all, List.dropWhile_append_of_pos all]
  cases t with
  | nil => simp
  | cons c rest =>
    have := stop c rfl
    simp [this]

/-- What comes right after a number does not go on with it. -/
def NumberEnds (t : Text) : Prop := ∀ c ∈ t.head?, isIdentChar c = false ∧ c ≠ '.'

theorem Boundary.numberEnds {t : Text} (boundary : Boundary t) : NumberEnds t := by
  intro c head
  rcases boundary.cases with rfl | ⟨c', rest, rfl, mem⟩
  · cases head
  · cases head
    rcases mem with rfl | rfl | rfl | rfl | rfl | rfl | rfl <;> decide

theorem identChar_of_hex {c : Char} (hex : isHexDigit c) : isIdentChar c := by
  simp only [isHexDigit, Bool.or_eq_true, Bool.and_eq_true, decide_eq_true_eq] at hex
  simp only [isIdentChar, Char.isAlphanum, Char.isAlpha, Char.isLower, Char.isUpper,
    Bool.or_eq_true, Bool.and_eq_true, decide_eq_true_eq]
  rcases hex with (digit | lower) | upper
  · exact .inl (.inr digit)
  · exact .inl (.inl (.inr ⟨lower.1, lower.2.trans (by decide)⟩))
  · exact .inl (.inl (.inl ⟨upper.1, upper.2.trans (by decide)⟩))

theorem identChar_of_suffix {c : Char} (suffix : isSuffix c) : isIdentChar c := by
  have cases : ((c = 'u' ∨ c = 'U') ∨ c = 'l') ∨ c = 'L' := by simpa [isSuffix] using suffix
  rcases cases with ((rfl | rfl) | rfl) | rfl <;> rfl

theorem NumberEnds.not_hex {t : Text} (ends : NumberEnds t) :
    ∀ c ∈ t.head?, isHexDigit c = false := by
  intro c head
  cases hex : isHexDigit c with
  | false => rfl
  | true => exact absurd (identChar_of_hex hex) (by simp [(ends c head).1])

theorem NumberEnds.not_suffix {t : Text} (ends : NumberEnds t) :
    ∀ c ∈ t.head?, isSuffix c = false := by
  intro c head
  cases suffix : isSuffix c with
  | false => rfl
  | true => exact absurd (identChar_of_suffix suffix) (by simp [(ends c head).1])

theorem hex_of_digit {c : Char} (digit : c.isDigit) : isHexDigit c := by
  simp [isHexDigit, digit]

theorem not_hex_of_suffix {c : Char} (suffix : isSuffix c) : isHexDigit c = false := by
  have cases : ((c = 'u' ∨ c = 'U') ∨ c = 'l') ∨ c = 'L' := by simpa [isSuffix] using suffix
  rcases cases with ((rfl | rfl) | rfl) | rfl <;> rfl

/-- Neither the suffix nor what follows a literal goes on with its digits. -/
theorem after_digits (a : Literal) {t : Text} (ends : NumberEnds t) :
    ∀ c ∈ (a.suffix ++ t).head?, isHexDigit c = false := by
  cases suffix : a.suffix with
  | nil => simpa using ends.not_hex
  | cons c rest =>
    intro c' head
    cases head
    exact not_hex_of_suffix (a.suffix_ok _ (by simp [suffix]))

theorem after_suffix (a : Literal) {t : Text} (ends : NumberEnds t) :
    (a.suffix ++ t).dropWhile isSuffixLetter = t :=
  (takeWhile_append_of_head a.suffix_ok ends.not_suffix).2

theorem not_digit_of_not_hex {s : Text} (stop : ∀ c ∈ s.head?, isHexDigit c = false) :
    ∀ c ∈ s.head?, c.isDigit = false := by
  intro c head
  cases digit : c.isDigit with
  | false => rfl
  | true => exact absurd (hex_of_digit digit) (by simp [stop c head])

theorem Literal.text_hex {a : Literal} {x : Char} (mark : a.mark = some x) (t : Text) :
    a.text ++ t = '0' :: x :: (a.digits ++ (a.suffix ++ t)) := by
  simp [Literal.text, mark]

theorem Literal.text_decimal {a : Literal} (mark : a.mark = none) (t : Text) :
    a.text ++ t = a.digits ++ (a.suffix ++ t) := by
  simp [Literal.text, mark]

theorem Literal.digits_hex {a : Literal} {x : Char} (mark : a.mark = some x) :
    ∀ c ∈ a.digits, isHexDigit c := by
  intro c mem
  simpa [mark] using a.digits_ok c mem

theorem Literal.digits_decimal {a : Literal} (mark : a.mark = none) : ∀ c ∈ a.digits, c.isDigit := by
  intro c mem
  simpa [mark] using a.digits_ok c mem

/-- The character after the 0 of a decimal literal comes after its digits. -/
theorem after_zero {a : Literal} (mark : a.mark = none) {t rest : Text} {c : Char}
    (start : a.text ++ t = '0' :: c :: rest) : c ∈ (a.suffix ++ t).head? := by
  rw [Literal.text_decimal mark] at start
  cases digits : a.digits with
  | nil => exact absurd digits a.digits_ne
  | cons d ds =>
    rw [digits, List.cons_append, List.cons.injEq] at start
    obtain ⟨rfl, start⟩ := start
    have single := a.not_octal mark (by simp [digits])
    obtain rfl : ds = [] := by simpa [digits] using single
    simpa using congrArg List.head? start

/-- A decimal literal does not start like a hexadecimal one. -/
theorem not_hex_mark {a : Literal} (mark : a.mark = none) {t rest : Text} {c : Char}
    (ends : NumberEnds t) (start : a.text ++ t = '0' :: c :: rest) : ¬ (c = 'x' ∨ c = 'X') := by
  have after := after_zero mark start
  intro isX
  cases suffix : a.suffix with
  | nil =>
    have other := (ends c (by simpa [suffix] using after)).1
    rcases isX with rfl | rfl <;> cases other
  | cons e es =>
    have ok := a.suffix_ok e (by simp [suffix])
    obtain rfl : e = c := by simpa [suffix] using after
    rcases isX with rfl | rfl <;> cases ok

theorem condNumber_literal (a : Literal) {t : Text} (ends : NumberEnds t) :
    condNumber (a.text ++ t) = (wrap64 a.value, t) := by
  cases mark : a.mark with
  | some x =>
    have run := takeWhile_append_of_head (Literal.digits_hex mark) (after_digits a ends)
    have isX := a.mark_x x (by simp [mark])
    rw [Literal.text_hex mark]
    simp only [condNumber, if_pos isX, run, after_suffix a ends, Literal.value, Literal.base,
      mark, Option.isSome_some, if_true]
  | none =>
    have run := takeWhile_append_of_head (Literal.digits_decimal mark)
      (not_digit_of_not_hex (after_digits a ends))
    have decimal : (wrap64 (digitsValue 10 ((a.text ++ t).takeWhile Char.isDigit)),
        ((a.text ++ t).dropWhile Char.isDigit).dropWhile isSuffixLetter) = (wrap64 a.value, t) := by
      rw [Literal.text_decimal mark, run.1, run.2, after_suffix a ends]
      simp [Literal.value, Literal.base, mark]
    unfold condNumber
    split
    · rename_i c rest start
      rw [if_neg (not_hex_mark mark ends start)]
      exact decimal
    · exact decimal

theorem dropKeyword_of_head {k c : Char} (ks rest : Text) (differs : k ≠ c) :
    dropKeyword (k :: ks) (c :: rest) = none := by
  simp [dropKeyword, List.isPrefixOf, differs]

section Operands

variable {macros : MacroTable} {self : CondReader}

theorem unaryOps_of_operand {c : Char} (rest : Text) (operand : condUnaryOp c = none) :
    condUnaryOps (c :: rest) = ([], c :: rest) := by
  rw [condUnaryOps, operand]

theorem evalCondUnary_operand {c : Char} (rest : Text) (operand : condUnaryOp c = none) :
    evalCondUnary macros self (c :: rest) = evalCondPrimary macros self (c :: rest) := by
  rw [evalCondUnary, unaryOps_of_operand rest operand]
  dsimp only
  cases evalCondPrimary macros self (c :: rest) <;> rfl

theorem evalCondUnary_op {c : Char} {op : UnaryOp} (rest : Text) (unary : condUnaryOp c = some op) :
    evalCondUnary macros self (c :: rest) = (do
      let (x, after) ← evalCondUnary macros self (rest.dropWhile isBlank)
      .ok (longUnary op x, after)) := by
  rw [evalCondUnary, condUnaryOps, unary]
  simp only [evalCondUnary]
  cases evalCondPrimary macros self (condUnaryOps (rest.dropWhile isBlank)).2 <;> rfl

theorem operand_of_digit {c : Char} (digit : c.isDigit) : condUnaryOp c = none := by
  unfold condUnaryOp
  split <;> first | rfl | cases digit

theorem evalCondUnary_literal (a : Literal) {t : Text} (ends : NumberEnds t) :
    evalCondUnary macros self (a.text ++ t) = .ok (wrap64 a.value, t) := by
  obtain ⟨c, rest, start, digit⟩ := literal_cons a
  have number := condNumber_literal a ends
  have plain := not_blank_of_digit digit
  rw [start, List.cons_append] at number ⊢
  rw [evalCondUnary_operand _ (operand_of_digit digit)]
  have notDefined : 'd' ≠ c := by
    rintro rfl
    cases digit
  simp only [evalCondPrimary, List.dropWhile_cons_of_neg (by simp [plain] : ¬ isBlank c = true),
    dropKeyword_of_head _ _ notDefined, digit, if_true, number]

theorem evalCondUnary_paren {rest after : Text} {v : Int}
    (inner : self (rest.dropWhile isBlank) = .ok (v, after)) {t : Text}
    (closed : after.dropWhile isBlank = ')' :: t) :
    evalCondUnary macros self ('(' :: rest) = .ok (v, t) := by
  rw [evalCondUnary_operand rest rfl]
  have start : ('(' :: rest).dropWhile isBlank = '(' :: rest := rfl
  simp only [evalCondPrimary, start, dropKeyword_of_head _ _ (by decide : 'd' ≠ '('), inner, bind,
    Except.bind, closed]
  rfl

theorem evalCondTernary_plain {s after : Text} {v : Int}
    (cond : evalCondLogicalOr macros self s = .ok (v, after))
    (stop : (after.dropWhile isBlank).head? ≠ some '?') :
    evalCondTernary macros self s = .ok (v, after.dropWhile isBlank) := by
  change (evalCondLogicalOr macros self s).bind _ = _
  rw [cond]
  simp only [Except.bind]
  split
  · rename_i rest asks
    simp [asks] at stop
  · rfl

theorem evalCondTernary_asks {s after rest : Text} {c : Int}
    (cond : evalCondLogicalOr macros self s = .ok (c, after))
    (asks : after.dropWhile isBlank = '?' :: rest) {t e : Int} {after₁ rest₁ after₂ : Text}
    (thenRead : self (rest.dropWhile isBlank) = .ok (t, after₁))
    (colon : after₁.dropWhile isBlank = ':' :: rest₁)
    (elseRead : self (rest₁.dropWhile isBlank) = .ok (e, after₂)) :
    evalCondTernary macros self s = .ok (if c ≠ 0 then t else e, after₂) := by
  change (evalCondLogicalOr macros self s).bind _ = _
  rw [cond]
  simp only [Except.bind, asks, thenRead, colon, elseRead, bind]

end Operands

theorem applyCondOp_of_value {op : BinaryOp} {a b w : Int} (s : Text)
    (value : binaryValue op a b = some w) : applyCondOp s op a b = .ok w := by
  obtain ⟨result, nonzero⟩ := longBinary_of_value value
  cases op with
  | div => simp [applyCondOp, nonzero (.inl rfl), result]
  | mod => simp [applyCondOp, nonzero (.inr rfl), result]
  | _ => exact congrArg Except.ok result

theorem read_operand (macros : MacroTable) (self : CondReader) :
    (condLadder macros).read self ((condLadder macros).levels + 1) = evalCondUnary macros self :=
  rfl

theorem condLadder_lawful (macros : MacroTable) : (condLadder macros).Lawful where
  settle_settle := dropWhile_settled
  size_settle := dropWhile_length_le isBlank
  step_settled := by
    rintro s w _ ⟨t, rfl, -, rfl⟩
    exact ⟨word_settled w t, dropWhile_settled t⟩
  step_size := by
    rintro s w _ ⟨t, rfl, -, rfl⟩
    obtain ⟨c, rest, eq, -⟩ := word_cons w
    have := dropWhile_length_le isBlank t
    simp only [condLadder, eq, List.cons_append, List.length_cons, List.length_append]
    omega
  step_binary := by
    rintro s op _ ⟨t, rfl, boundary, rfl⟩
    have found := next_operator op boundary.joins
    simp only [condLadder, nextCondOp, grammar, wordText, found, Option.map_some]
  step_other := by
    rintro s w _ k ⟨t, rfl, boundary, rfl⟩ follows other
    have none := next_other follows other boundary
    simp only [condLadder, nextCondOp, none, Option.map_none]
  step_asks := by
    rintro s w _ ⟨t, rfl, -, rfl⟩ follows notQuestion
    cases w with
    | atom | unary | openParen => cases follows
    | question => exact absurd rfl notQuestion
    | closeParen | colon => simp [condLadder, wordText]
    | binary op => cases op <;> simp [condLadder, wordText, binaryText]
  chain := by
    intro k self pos le
    match k, pos, le with
    | 1, _, _ | 2, _, _ | 3, _, _ | 4, _, _ | 5, _, _ | 6, _, _ | 7, _, _ | 8, _, _ | 9, _, _
    | 10, _, _ => rfl
  apply s := applyCondOp_of_value s
  atom := by
    rintro self s a v _ ⟨t, rfl, boundary, rfl⟩ value
    obtain ⟨fits, same⟩ := fits_of_literal value
    have read : evalCondUnary macros self (a.text ++ t) = .ok (wrap64 a.value, t) :=
      evalCondUnary_literal a boundary.numberEnds
    rw [wrap64_of_fits fits, same] at read
    exact ⟨t, read, rfl⟩
  unary := by
    rintro self s op _ x v s'' ⟨t, rfl, -, rfl⟩ ⟨after, read, settled⟩ value
    have unary : condUnaryOp (unaryChar op) = some op := by cases op <;> rfl
    refine ⟨after, ?_, settled⟩
    rw [read_operand] at read ⊢
    exact evalCondUnary_op t unary |>.trans (by rw [read, ← longUnary_of_value value]; rfl)
  paren := by
    rintro self s _ v s₂ _ ⟨t, rfl, -, rfl⟩ ⟨after, read, settled⟩ ⟨t', closed, -, rfl⟩
    exact ⟨t', evalCondUnary_paren read (settled.trans closed), rfl⟩
  conditional := by
    rintro self s c s₁ _ v s₃ _ e s₅ ⟨after, cond, settled⟩ ⟨t, asks, -, rfl⟩
      ⟨after₁, thenRead, settled₁⟩ ⟨t₁, colon, -, rfl⟩ ⟨after₂, elseRead, settled₂⟩
    exact ⟨after₂, evalCondTernary_asks cond (settled.trans asks) thenRead
      (settled₁.trans colon) elseRead, settled₂⟩
  plain := by
    rintro self s v s' ⟨after, cond, rfl⟩ stop
    exact ⟨_, evalCondTernary_plain cond stop, dropWhile_settled after⟩

theorem Closes.cases {rest : Text} (closes : Closes rest) :
    rest = [] ∨ ∃ c after, rest = c :: after ∧
      (c = ')' ∨ c = ']' ∨ c = '\x7d' ∨ c = ',' ∨ c = ';' ∨ c = ':') := by
  cases rest with
  | nil => exact .inl rfl
  | cons c after =>
    have := closes c rfl
    exact .inr ⟨c, after, rfl, by simpa [closers] using this⟩

theorem Closes.settled {rest : Text} (closes : Closes rest) : rest.dropWhile isBlank = rest := by
  rcases closes.cases with rfl | ⟨c, after, rfl, mem⟩
  · rfl
  · rcases mem with rfl | rfl | rfl | rfl | rfl | rfl <;> rfl

theorem spaced_settled (ws : List Word) {rest : Text} (closes : Closes rest) :
    (spaced ws rest).dropWhile isBlank = joined ws rest := by
  cases ws with
  | nil => exact closes.settled
  | cons w ws => exact word_settled w _

theorem cond_reads (macros : MacroTable) (ws : List Word) {rest : Text} (closes : Closes rest) :
    (condLadder macros).Reads (joined ws rest) ws rest := by
  induction ws with
  | nil => rfl
  | cons w ws ih =>
    exact ⟨joined ws rest, ⟨spaced ws rest, rfl, boundary_spaced ws closes,
      (spaced_settled ws closes).symm⟩, ih⟩

theorem Closes.stops (macros : MacroTable) {rest : Text} (closes : Closes rest) :
    (condLadder macros).Stops 0 rest := by
  rcases closes.cases with rfl | ⟨c, after, rfl, mem⟩
  · refine ⟨rfl, fun k _ => ?_, fun _ asks => by cases asks⟩
    match k with
    | 0 | 1 | 2 | 3 | 4 | 5 | 6 | 7 | 8 | 9 | 10 | _ + 11 => rfl
  · refine ⟨closes.settled, fun k _ => ?_, fun _ asks => ?_⟩
    · match k with
      | 0 | 1 | 2 | 3 | 4 | 5 | 6 | 7 | 8 | 9 | 10 | _ + 11 =>
        rcases mem with rfl | rfl | rfl | rfl | rfl | rfl <;> rfl
    · cases asks
      simp at mem

/-- An evaluation that calls itself ends after the blanks. -/
theorem evalCond_settled (macros : MacroTable) (rounds : Nat) {s t : Text} {v : Int}
    (read : knot notAnOperand (evalCondTernary macros) rounds s = .ok (v, t)) :
    t.dropWhile isBlank = t := by
  induction rounds generalizing s v t with
  | zero => cases read
  | succ n ih =>
    obtain ⟨⟨c, after⟩, -, read⟩ := StateExcept.bind_eq_ok.mp read
    dsimp only at read
    split at read
    · obtain ⟨⟨x, after₁⟩, -, read⟩ := StateExcept.bind_eq_ok.mp read
      dsimp only at read
      split at read
      · obtain ⟨⟨y, after₂⟩, last, read⟩ := StateExcept.bind_eq_ok.mp read
        cases read
        exact ih last
      · cases read
    · cases read
      exact dropWhile_settled after

theorem evalCondExpr_reads (macros : MacroTable) {e : Tree} {v : Int} (defined : value e = some v)
    {rest : Text} (closes : Closes rest) :
    evalCondExpr macros (joined (e.words grammar) rest) = .ok (v, rest) := by
  have reads := cond_reads macros (e.words grammar) closes
  obtain ⟨t, read, settled⟩ := Ladder.gives_words (condLadder_lawful macros) notAnOperand reads
    (closes.stops macros) defined (Nat.le_succ _)
  have ended := evalCond_settled macros _ read
  rw [show t = rest from ended.symm.trans settled] at read
  exact read

end ClaudeC99.Constant
