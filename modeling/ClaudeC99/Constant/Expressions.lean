import ClaudeC99.Constant.Tokens
import ClaudeC99.Front.ConstExpr
import ClaudeC99.Lib.StateExcept

/-! The parser's evaluator reads the tokens of a constant expression as its tree. -/

namespace ClaudeC99.Constant

open Front
open Precedence
open Preprocessor (Text)

def constOperator : Nat → ConstOperator
  | 1 => logicalOrToken
  | 2 => logicalAndToken
  | 3 => bitwiseOrToken
  | 4 => bitwiseXorToken
  | 5 => bitwiseAndToken
  | 6 => equalityToken
  | 7 => relationalToken
  | 8 => shiftToken
  | 9 => additiveToken
  | 10 => multiplicativeToken
  | _ => fun _ => none

section Ladder

variable (rules : TypeRules) (context : String)

def constRead (self : ConstReader) : Nat → ConstReader
  | 0 => evalConstConditional rules context self
  | 1 => evalConstLogicalOr rules context self
  | 2 => evalConstLogicalAnd rules context self
  | 3 => evalConstBitwiseOr rules context self
  | 4 => evalConstBitwiseXor rules context self
  | 5 => evalConstBitwiseAnd rules context self
  | 6 => evalConstEquality rules context self
  | 7 => evalConstRelational rules context self
  | 8 => evalConstShift rules context self
  | 9 => evalConstAdditive rules context self
  | 10 => evalConstMultiplicative rules context self
  | _ => evalConstUnary rules context self

/-- The current token is that of a word, and the next one does not start a type. -/
structure ConstStep (p : Parser) (w : Word) (p' : Parser) : Prop where
  token : IsToken p.current w
  next : p.next = .ok p'
  shorter : p'.size < p.size
  noType : startsCastType p' = false

def constLadder : Ladder Parser String Int Literal UnaryOp BinaryOp where
  toGrammar := grammar
  meaning := meaning
  Step := ConstStep
  settle := id
  size := Parser.size
  next k := nextConstOp (constOperator k)
  asks p := p.current.type = .question
  apply := applyConstOp
  read := constRead rules context

end Ladder

theorem constOperator_binary (op : BinaryOp) :
    constOperator (precedence op) (binaryToken op) = some op := by
  cases op <;> rfl

theorem constOperator_other {w : Word} (follows : w.Follows) {k : Nat}
    (other : ∀ op, w = .binary op → precedence op ≠ k) : constOperator k (wordToken w) = none := by
  match k with
  | 0 | _ + 11 => rfl
  | 1 | 2 | 3 | 4 | 5 | 6 | 7 | 8 | 9 | 10 =>
    cases w with
    | atom | unary | openParen => cases follows
    | closeParen | question | colon => rfl
    | binary op =>
      have differs := other op rfl
      cases op <;> first | rfl | exact absurd rfl differs

theorem applyConstOp_of_value {op : BinaryOp} {a b w : Int} (p : Parser)
    (value : binaryValue op a b = some w) : applyConstOp p op a b = .ok w := by
  obtain ⟨result, nonzero⟩ := longBinary_of_value value
  rw [applyConstOp, if_neg fun bad => nonzero bad.1 bad.2, result]

section Operands

variable {rules : TypeRules} {context : String} {self : ConstReader}

/-- What an operand gives with some rounds it gives with more. -/
theorem evalConstPrimary_mono {U U' : ConstReader}
    (more : ∀ {p r}, U p = .ok r → U' p = .ok r) {p : Parser} {r : Int × Parser}
    (read : evalConstPrimary rules context self U p = .ok r) :
    evalConstPrimary rules context self U' p = .ok r := by
  unfold evalConstPrimary at read ⊢
  split at read
  case h_4 =>
    obtain ⟨q, next, read⟩ := StateExcept.bind_eq_ok.mp read
    rw [next]
    change (if startsCastType q = true then _ else _) = _ at read
    change (if startsCastType q = true then _ else _) = _
    split at read
    · rename_i cast
      rw [if_pos cast]
      obtain ⟨⟨_, q₁⟩, typed, read⟩ := StateExcept.bind_eq_ok.mp read
      obtain ⟨q₂, closed, read⟩ := StateExcept.bind_eq_ok.mp read
      simp only [typed, bind, Except.bind, closed]
      exact more read
    · rename_i noCast
      rw [if_neg noCast]
      exact read
  all_goals simp_all

theorem evalConstUnaryRounds_succ {n : Nat} {p : Parser} {r : Int × Parser}
    (read : evalConstUnaryRounds rules context self n p = .ok r) :
    evalConstUnaryRounds rules context self (n + 1) p = .ok r := by
  induction n generalizing p r with
  | zero => cases read
  | succ n ih =>
    rw [evalConstUnaryRounds] at read ⊢
    split at read
    · obtain ⟨q, next, read⟩ := StateExcept.bind_eq_ok.mp read
      obtain ⟨⟨x, q₁⟩, operand, read⟩ := StateExcept.bind_eq_ok.mp read
      simp only [next, bind, Except.bind, ih operand]
      exact read
    · exact evalConstPrimary_mono ih read

theorem evalConstUnaryRounds_mono {n m : Nat} (le : n ≤ m) {p : Parser} {r : Int × Parser}
    (read : evalConstUnaryRounds rules context self n p = .ok r) :
    evalConstUnaryRounds rules context self m p = .ok r := by
  induction m, le using Nat.le_induction with
  | base => exact read
  | succ m _ ih => exact evalConstUnaryRounds_succ ih

theorem evalConstUnary_literal {a : Literal} {p p' : Parser} (token : IsToken p.current (.atom a))
    (next : p.next = .ok p') :
    evalConstUnary rules context self p = .ok (wrap64 a.value, p') := by
  obtain ⟨type, value⟩ := token
  simp only [evalConstUnary, evalConstUnaryRounds, type, constUnaryOp, evalConstPrimary, next, value]
  rfl

theorem evalConstUnary_op {op : UnaryOp} {p p' p'' : Parser} {x : Int}
    (token : p.current.type = unaryToken op) (next : p.next = .ok p') (shorter : p'.size < p.size)
    (operand : evalConstUnary rules context self p' = .ok (x, p'')) :
    evalConstUnary rules context self p = .ok (longUnary op x, p'') := by
  have unary : constUnaryOp p.current.type = some op := by
    rw [token]
    cases op <;> rfl
  have enough := evalConstUnaryRounds_mono (m := p.size) (by omega) operand
  simp only [evalConstUnary, evalConstUnaryRounds, unary, next, bind, Except.bind, enough]

theorem parserExpect_ok {p p' : Parser} {type : TokenType} (token : p.current.type = type)
    (next : p.next = .ok p') : parserExpect p type = .ok p' := by
  rw [parserExpect, if_pos token, next]

theorem evalConstUnary_paren {p p₁ p₂ p₃ : Parser} {v : Int} (token : p.current.type = .lparen)
    (next : p.next = .ok p₁) (noType : startsCastType p₁ = false) (inner : self p₁ = .ok (v, p₂))
    (closed : p₂.current.type = .rparen) (last : p₂.next = .ok p₃) :
    evalConstUnary rules context self p = .ok (v, p₃) := by
  simp only [evalConstUnary, evalConstUnaryRounds, token, constUnaryOp, evalConstPrimary, next,
    bind, Except.bind, noType, Bool.false_eq_true, if_false, inner, parserExpect_ok closed last]

theorem evalConstConditional_plain {p p' : Parser} {v : Int}
    (cond : evalConstLogicalOr rules context self p = .ok (v, p'))
    (stop : p'.current.type ≠ .question) :
    evalConstConditional rules context self p = .ok (v, p') := by
  simp only [evalConstConditional, cond, bind, Except.bind, stop, ne_eq, not_false_eq_true, if_true]

theorem evalConstConditional_asks {p p₁ p₂ p₃ p₄ p₅ : Parser} {c t e : Int}
    (cond : evalConstLogicalOr rules context self p = .ok (c, p₁))
    (asks : p₁.current.type = .question) (next : p₁.next = .ok p₂)
    (thenRead : self p₂ = .ok (t, p₃)) (colon : p₃.current.type = .colon)
    (next' : p₃.next = .ok p₄) (elseRead : self p₄ = .ok (e, p₅)) :
    evalConstConditional rules context self p = .ok (if c ≠ 0 then t else e, p₅) := by
  simp only [evalConstConditional, cond, bind, Except.bind, asks, ne_eq, not_true_eq_false,
    if_false, next, thenRead, parserExpect_ok colon next', elseRead]

end Operands

theorem constLadder_operand (rules : TypeRules) (context : String) (self : ConstReader) :
    (constLadder rules context).read self ((constLadder rules context).levels + 1) =
      evalConstUnary rules context self := rfl

theorem constLadder_gives {rules : TypeRules} {context : String} {P : ConstReader} {p q : Parser}
    {v : Int} : (constLadder rules context).Gives P p v q ↔ P p = .ok (v, q) := by
  constructor
  · rintro ⟨t, read, rfl⟩
    exact read
  · intro read
    exact ⟨q, read, rfl⟩

theorem constLadder_lawful (rules : TypeRules) (context : String) :
    (constLadder rules context).Lawful where
  settle_settle _ := rfl
  size_settle _ := Nat.le_refl _
  step_settled _ := ⟨rfl, rfl⟩
  step_size step := step.shorter
  step_binary := by
    intro p op p' step
    have operator : constOperator (precedence op) p.current.type = some op := by
      rw [step.token.type]
      exact constOperator_binary op
    simp only [constLadder, nextConstOp, grammar, operator, step.next]
    rfl
  step_other := by
    intro p w p' k step follows other
    have none : constOperator k p.current.type = none := by
      rw [step.token.type]
      exact constOperator_other follows other
    simp only [constLadder, nextConstOp, none]
  step_asks := by
    intro p w p' step follows notQuestion
    change ¬ p.current.type = .question
    rw [step.token.type]
    cases w with
    | atom | unary | openParen => cases follows
    | question => exact absurd rfl notQuestion
    | closeParen | colon => decide
    | binary op => cases op <;> decide
  chain := by
    intro k self pos le
    have levels : k ≤ 10 := le
    interval_cases k <;> rfl
  apply p := applyConstOp_of_value p
  atom := by
    intro self p a v p' step value
    obtain ⟨fits, same⟩ := fits_of_literal value
    rw [constLadder_gives, constLadder_operand, evalConstUnary_literal step.token step.next,
      wrap64_of_fits fits, same]
  unary := by
    intro self p op p' x v p'' step operand value
    rw [constLadder_gives, constLadder_operand] at operand ⊢
    rw [← longUnary_of_value value]
    exact evalConstUnary_op step.token step.next step.shorter operand
  paren := by
    intro self p p₁ v p₂ p₃ opened inner closed
    rw [constLadder_gives] at inner
    rw [constLadder_gives, constLadder_operand]
    exact evalConstUnary_paren opened.token opened.next opened.noType inner closed.token closed.next
  conditional := by
    intro self p c p₁ p₂ t p₃ p₄ e p₅ cond asks thenRead colon elseRead
    rw [constLadder_gives] at *
    exact evalConstConditional_asks cond asks.token asks.next thenRead colon.token colon.next
      elseRead
  plain := by
    intro self p v p' cond stop
    rw [constLadder_gives] at *
    exact evalConstConditional_plain cond stop

/-- The parser stands at what follows an expression. -/
def AtEnd (rest : Text) (p : Parser) : Prop :=
  (rest = [] ∧ p.current.type = .eof) ∨
    ∃ c after, rest = c :: after ∧ c ∈ closers ∧ p.current.type = closerToken c ∧
      p.lexer.rest = after

theorem closer_cases {c : Char} (mem : c ∈ closers) :
    closerToken c = .rparen ∨ closerToken c = .rbracket ∨ closerToken c = .rbrace ∨
      closerToken c = .comma ∨ closerToken c = .semicolon ∨ closerToken c = .colon := by
  have cases : c = ')' ∨ c = ']' ∨ c = '\x7d' ∨ c = ',' ∨ c = ';' ∨ c = ':' := by
    simpa [closers] using mem
  rcases cases with rfl | rfl | rfl | rfl | rfl | rfl <;> simp [closerToken]

theorem AtEnd.type {rest : Text} {p : Parser} (atEnd : AtEnd rest p) :
    p.current.type = .eof ∨ p.current.type = .rparen ∨ p.current.type = .rbracket ∨
      p.current.type = .rbrace ∨ p.current.type = .comma ∨ p.current.type = .semicolon ∨
      p.current.type = .colon := by
  rcases atEnd with ⟨-, type⟩ | ⟨c, _, -, mem, type, -⟩
  · exact .inl type
  · rw [type]
    exact .inr (closer_cases mem)

theorem AtEnd.noType {rest : Text} {p : Parser} (atEnd : AtEnd rest p) :
    startsCastType p = false := by
  rcases atEnd.type with type | type | type | type | type | type | type <;>
    simp [startsCastType, type]

theorem AtEnd.stops {rules : TypeRules} {context : String} {rest : Text} {p : Parser}
    (atEnd : AtEnd rest p) : (constLadder rules context).Stops 0 p := by
  refine ⟨rfl, fun k _ => ?_, fun _ asks => ?_⟩
  · have none : constOperator k p.current.type = none := by
      match k with
      | 0 | 1 | 2 | 3 | 4 | 5 | 6 | 7 | 8 | 9 | 10 | _ + 11 =>
        rcases atEnd.type with type | type | type | type | type | type | type <;>
          rw [type] <;> rfl
    simp only [constLadder, nextConstOp, none]
  · change p.current.type = .question at asks
    rcases atEnd.type with type | type | type | type | type | type | type <;>
      simp [type] at asks

theorem word_noType {p : Parser} {w : Word} (token : IsToken p.current w) :
    startsCastType p = false ∧ p.current.type ≠ .eof := by
  have type := token.type
  cases w with
  | unary op | binary op => cases op <;> simp [startsCastType, type, wordToken, unaryToken, binaryToken]
  | _ => simp [startsCastType, type, wordToken]

/-- The parser at the next word. -/
theorem next_spaced {w : Word} (lexable : Lexable w) {ws : List Word} {rest : Text}
    (closes : Closes rest) {p : Parser} (start : p.lexer.rest = spaced (w :: ws) rest) :
    ∃ p', p.next = .ok p' ∧ IsToken p'.current w ∧ p'.lexer.rest = spaced ws rest := by
  obtain ⟨tok, next, is⟩ := nextToken_spaced lexable (boundary_spaced ws closes) start
  refine ⟨{ p with lexer := p.lexer.after (' ' :: wordText w) (spaced ws rest), current := tok },
    ?_, is, rfl⟩
  simp only [Parser.next, next]
  rfl

theorem next_joined {w : Word} (lexable : Lexable w) {ws : List Word} {rest : Text}
    (closes : Closes rest) {p : Parser} (start : p.lexer.rest = joined (w :: ws) rest) :
    ∃ p', p.next = .ok p' ∧ IsToken p'.current w ∧ p'.lexer.rest = spaced ws rest := by
  obtain ⟨tok, next, is⟩ := nextToken_word lexable (boundary_spaced ws closes) start
  refine ⟨{ p with lexer := p.lexer.after (wordText w) (spaced ws rest), current := tok },
    ?_, is, rfl⟩
  simp only [Parser.next, next]
  rfl

theorem next_closes {rest : Text} (closes : Closes rest) {p : Parser}
    (start : p.lexer.rest = rest) :
    ∃ p', p.next = .ok p' ∧ AtEnd rest p' ∧ p'.size ≤ rest.length := by
  obtain ⟨tok, l', next, atEnd⟩ := nextToken_closes closes start
  refine ⟨{ p with lexer := l', current := tok }, ?_, ?_⟩
  · simp only [Parser.next, next]
    rfl
  · rcases atEnd with ⟨nil, type, rfl⟩ | ⟨c, after, cons, mem, type, left⟩
    · refine ⟨.inl ⟨nil, type⟩, ?_⟩
      simp [Parser.size, type, start]
    · refine ⟨.inr ⟨c, after, cons, mem, type, left⟩, ?_⟩
      simp only [Parser.size, left, cons, List.length_cons]
      split <;> omega

theorem spaced_length (w : Word) (ws : List Word) (rest : Text) :
    (spaced ws rest).length < (spaced (w :: ws) rest).length := by
  rw [spaced, spaced, List.foldr_cons, List.length_cons, List.length_append]
  omega

theorem const_reads (rules : TypeRules) (context : String) {ws : List Word} {rest : Text}
    (closes : Closes rest) {w : Word} (lexable : ∀ x ∈ ws, Lexable x) {p : Parser}
    (token : IsToken p.current w) (start : p.lexer.rest = spaced ws rest) :
    ∃ q, (constLadder rules context).Reads p (w :: ws) q ∧ AtEnd rest q := by
  have notEof := (word_noType token).2
  induction ws generalizing p w with
  | nil =>
    obtain ⟨q, next, atEnd, size⟩ := next_closes closes start
    refine ⟨q, ⟨q, ⟨token, next, ?_, atEnd.noType⟩, rfl⟩, atEnd⟩
    have left : p.lexer.rest = rest := start
    simp only [Parser.size, notEof, if_false, left] at size ⊢
    omega
  | cons w' ws ih =>
    obtain ⟨p', next, token', start'⟩ := next_spaced (lexable w' (by simp)) closes start
    have plain := word_noType token'
    obtain ⟨q, reads, atEnd⟩ := ih (fun x mem => lexable x (by simp [mem])) token' start' plain.2
    refine ⟨q, ⟨p', ⟨token, next, ?_, plain.1⟩, reads⟩, atEnd⟩
    have shorter := spaced_length w' ws rest
    simp only [Parser.size, notEof, plain.2, if_false, start, start']
    omega

/-- The literals of a tree with a value are in range. -/
theorem lexable_words {e : Tree} {v : Int} (defined : value e = some v)
    (short : ∀ a ∈ e.atoms, a.Short) : ∀ w ∈ e.words grammar, Lexable w := by
  intro w mem
  cases w with
  | atom a =>
    have atom := (Tree.atom_mem_words grammar).mp mem
    obtain ⟨x, inRange⟩ := Meaning.atom_of_eval defined atom
    exact ⟨by have := (fits_of_literal inRange).1.2; omega, short a atom⟩
  | _ => trivial

theorem evalConstExpr_reads (rules : TypeRules) (context : String) {e : Tree} {v : Int}
    (defined : value e = some v) (short : ∀ a ∈ e.atoms, a.Short) {rest : Text}
    (closes : Closes rest) {w : Word} {ws : List Word} (words : e.words grammar = w :: ws)
    {p : Parser} (token : IsToken p.current w) (start : p.lexer.rest = spaced ws rest) :
    ∃ q, evalConstExpr rules context p = .ok (v, q) ∧ AtEnd rest q := by
  have lexable := lexable_words defined short
  obtain ⟨q, reads, atEnd⟩ := const_reads rules context closes
    (fun x mem => lexable x (by simp [words, mem])) token start
  rw [← words] at reads
  obtain ⟨t, read, rfl⟩ := Ladder.gives_words (constLadder_lawful rules context)
    (notConstant context) reads atEnd.stops defined (Nat.le_succ _)
  exact ⟨t, read, atEnd⟩

end ClaudeC99.Constant
