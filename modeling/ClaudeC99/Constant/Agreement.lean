import ClaudeC99.Constant.Expressions

/-! The evaluator of conditions and that of constant expressions on one text. -/

namespace ClaudeC99.Constant

open Front
open Numeral (isHexDigit digitsValue)
open Precedence
open Preprocessor (Text MacroTable evalCondExpr isIdentStart)
open StateExcept (bind_eq_ok)

/-- A token that may come after an operand, or the end of the source. -/
def continues (t : TokenType) : Bool :=
  t = .eof || t = .rparen || t = .question || t = .colon ||
    (List.range 11).any fun k => (constOperator k t).isSome

theorem continues_of_operator {k : Nat} {t : TokenType} {op : BinaryOp}
    (operator : constOperator k t = some op) : continues t := by
  have small : k < 11 := by
    match k with
    | 0 | 1 | 2 | 3 | 4 | 5 | 6 | 7 | 8 | 9 | 10 => decide
    | _ + 11 => cases operator
  have found : ((List.range 11).any fun k => (constOperator k t).isSome) = true :=
    List.any_eq_true.mpr ⟨k, List.mem_range.mpr small, by simp [operator]⟩
  simp [continues, found]

theorem keywordType_continues (name : Text) : continues (keywordType name) = false := by
  unfold keywordType
  cases found : keywords.find? fun k => k.1.toList = name with
  | none => rfl
  | some k =>
    have plain : ∀ k ∈ keywords, continues k.2 = false := by decide
    exact plain k (List.mem_of_find?_eq_some found)

theorem hex_cases {c : Char} (hex : isHexDigit c) :
    c.isDigit ∨ c = 'a' ∨ c = 'b' ∨ c = 'c' ∨ c = 'd' ∨ c = 'e' ∨ c = 'f' ∨
      c = 'A' ∨ c = 'B' ∨ c = 'C' ∨ c = 'D' ∨ c = 'E' ∨ c = 'F' := by
  have range : c.isDigit = true ∨ (97 ≤ c.toNat ∧ c.toNat ≤ 102) ∨ (65 ≤ c.toNat ∧ c.toNat ≤ 70) := by
    simpa [isHexDigit, Char.le_def, UInt32.le_iff_toNat_le, or_assoc] using hex
  have same : c = Char.ofNat c.toNat := (Char.ofNat_toNat c).symm
  rcases range with digit | range | range
  · exact .inl digit
  · obtain h | h | h | h | h | h : c.toNat = 97 ∨ c.toNat = 98 ∨ c.toNat = 99 ∨ c.toNat = 100 ∨
        c.toNat = 101 ∨ c.toNat = 102 := by omega
    all_goals
      rw [h] at same
      subst same
      decide
  · obtain h | h | h | h | h | h : c.toNat = 65 ∨ c.toNat = 66 ∨ c.toNat = 67 ∨ c.toNat = 68 ∨
        c.toNat = 69 ∨ c.toNat = 70 := by omega
    all_goals
      rw [h] at same
      subst same
      decide

theorem finishInteger_type {buf : Text} {value : Nat} {octal : Bool} {l l' : Lexer}
    {position : Position} {tok : Token}
    (read : finishInteger buf value octal l position = .ok (tok, l')) :
    tok.type = .intLiteral ∧ l' = (l.copyWhile isSuffixChar l.rest.length).2 := by
  unfold finishInteger at read
  dsimp only at read
  split at read
  · cases read
  · split at read
    · cases read
    · cases read
      exact ⟨rfl, rfl⟩

theorem finishFloat_type (buf : Text) (l : Lexer) (position : Position) :
    continues (finishFloat buf l position).1.type = false := by
  unfold finishFloat
  split
  · split <;> rfl
  · rfl

theorem lexNumber_continues {l l' : Lexer} {tok : Token} (read : lexNumber l = .ok (tok, l')) :
    continues tok.type = false := by
  rcases lexNumber_cases read with ⟨buf, l₁, float⟩ | ⟨buf, value, octal, l₁, integer⟩
  · have type := finishFloat_type buf l₁ l.position
    rwa [float] at type
  · rw [(finishInteger_type integer).1]
    rfl

/-- A token that starts with a hexadecimal digit does not go on with an expression. -/
theorem nextToken_hex {l l' : Lexer} {c : Char} {t : Text} {tok : Token} (hex : isHexDigit c)
    (start : l.rest = c :: t) (read : lexerNextToken l = .ok (tok, l')) :
    continues tok.type = false := by
  rcases hex_cases hex with digit | letter
  · rw [nextToken_number start digit] at read
    exact lexNumber_continues read
  · have identifier : lexerNextToken l = .ok (lexIdentifier l) := by
      have noPunctuator : punctuator (c :: t) = none := by
        rcases letter with rfl | rfl | rfl | rfl | rfl | rfl | rfl | rfl | rfl | rfl | rfl | rfl
        all_goals rfl
      rcases letter with rfl | rfl | rfl | rfl | rfl | rfl | rfl | rfl | rfl | rfl | rfl | rfl
      all_goals
        unfold lexerNextToken
        rw [skipWhitespace_token start rfl]
        simp [start, noPunctuator, isIdentStart]
    rw [identifier] at read
    cases read
    exact keywordType_continues _

/-- Of a literal with too many digits the lexer reads the start, and stops at a digit. -/
theorem nextToken_cut {a : Literal} (long : ¬ a.Short) {t : Text} {l l' : Lexer} {tok : Token}
    (start : l.rest = a.text ++ t) (read : lexerNextToken l = .ok (tok, l')) :
    tok.type = .intLiteral ∧ ∃ c rest, isHexDigit c ∧ l'.rest = c :: rest := by
  obtain ⟨x, mark⟩ : ∃ x, a.mark = some x := by
    cases mark : a.mark with
    | none => exact absurd (fun isHex => by simp [mark] at isHex) long
    | some x => exact ⟨x, rfl⟩
  have many : 60 < a.digits.length := by simpa [Literal.Short, mark] using long
  have isX := a.mark_x x (by simp [mark])
  rw [Literal.text_hex mark] at start
  have prefixed : l.skip 2 = l.after ['0', x] (a.digits ++ (a.suffix ++ t)) :=
    skip_run ['0', x] start (by rcases isX with rfl | rfl <;> decide)
  have all := Literal.digits_hex mark
  have cut := copyWhile_cut (l := l.skip 2) (by rw [prefixed]; rfl) all (Nat.le_of_lt many)
    (no_newline all rfl)
  have some : a.digits.take 60 ≠ [] := by
    intro nil
    have := congrArg List.length nil
    rw [List.length_take, List.length_nil] at this
    omega
  obtain ⟨c, rest, left⟩ := List.exists_cons_of_length_pos
    (l := a.digits.drop 60) (by simp only [List.length_drop]; omega)
  have hex := all c (List.mem_of_mem_drop (left ▸ List.mem_cons_self))
  rw [nextToken_number start rfl] at read
  simp only [lexNumber, start, if_pos isX, cut, if_neg some, left] at read
  obtain ⟨type, rfl⟩ := finishInteger_type read
  -- a digit is no suffix, so that nothing more is read
  have noSuffix : isSuffixChar c = false := by
    cases suffix : isSuffixChar c with
    | false => rfl
    | true =>
      rw [suffixChar_of_suffix] at suffix
      rw [not_hex_of_suffix suffix] at hex
      cases hex
  refine ⟨type, c, rest ++ (a.suffix ++ t), hex, ?_⟩
  simp [Lexer.copyWhile, noSuffix, Lexer.skip]

/-- The current token is a literal, and the next one cannot come after it. -/
def Blocked (p : Parser) : Prop :=
  p.current.type = .intLiteral ∧ ∀ q, p.next = .ok q → continues q.current.type = false

/-- The tokens up to a blocked state are those of words. -/
inductive Trapped : Parser → Prop
  | here {p : Parser} : Blocked p → Trapped p
  | step {p : Parser} {w : Word} : IsToken p.current w →
      (∀ q, p.next = .ok q → startsCastType q = false) → (∀ q, p.next = .ok q → Trapped q) →
      Trapped p

/-- Where a reader that started in a trapped state can end. -/
def Ahead (p : Parser) : Prop := Trapped p ∨ continues p.current.type = false

theorem Trapped.next_ahead {p q : Parser} (trapped : Trapped p) (next : p.next = .ok q) : Ahead q := by
  cases trapped with
  | here blocked => exact .inr (blocked.2 q next)
  | step _ _ steps => exact .inl (steps q next)

theorem Trapped.next {p q : Parser} (trapped : Trapped p) (other : p.current.type ≠ .intLiteral)
    (next : p.next = .ok q) : startsCastType q = false ∧ Trapped q := by
  cases trapped with
  | here blocked => exact absurd blocked.1 other
  | step _ noType steps => exact ⟨noType q next, steps q next⟩

theorem Ahead.trapped {p : Parser} (ahead : Ahead p) (type : continues p.current.type) :
    Trapped p := by
  rcases ahead with trapped | stop
  · exact trapped
  · rw [stop] at type
    cases type

theorem Trapped.type {p : Parser} (trapped : Trapped p) :
    p.current.type ≠ .eof ∧ p.current.type ≠ .sizeof := by
  cases trapped with
  | here blocked => simp [blocked.1]
  | step token =>
    rename_i w _ _
    rw [token.type]
    cases w with
    | unary op | binary op => cases op <;> decide
    | _ => simp [wordToken]

theorem Ahead.not_eof {p : Parser} (ahead : Ahead p) : p.current.type ≠ .eof := by
  rcases ahead with trapped | stop
  · exact trapped.type.1
  · intro eof
    rw [eof] at stop
    cases stop

theorem Ahead.expect {p q : Parser} {type : TokenType} (ahead : Ahead p)
    (read : parserExpect p type = .ok q) (continuing : continues type)
    (other : type ≠ .intLiteral) : startsCastType q = false ∧ Trapped q := by
  unfold parserExpect at read
  split at read
  · rename_i same
    have trapped := ahead.trapped (same ▸ continuing)
    exact trapped.next (by rw [same]; exact other) read
  · cases read

/-- A reader that does not get past a blocked state. -/
def Keeps (P : ConstReader) : Prop := ∀ {p v q}, Trapped p → P p = .ok (v, q) → Ahead q

section Keeping

variable {rules : TypeRules} {context : String} {self : ConstReader}

theorem evalConstPrimary_keeps (keeps : Keeps self) (U : ConstReader) :
    Keeps (evalConstPrimary rules context self U) := by
  intro p v q trapped read
  unfold evalConstPrimary at read
  split at read
  case h_4 type =>
    obtain ⟨p₁, next, read⟩ := bind_eq_ok.mp read
    have inner := trapped.next (by simp [type]) next
    rw [if_neg (by simp [inner.1])] at read
    obtain ⟨⟨x, p₂⟩, inside, read⟩ := bind_eq_ok.mp read
    obtain ⟨p₃, closed, read⟩ := bind_eq_ok.mp read
    cases read
    exact .inl ((keeps inner.2 inside).expect closed rfl (by decide)).2
  case h_5 type => exact absurd type trapped.type.2
  case h_3 =>
    split at read
    · obtain ⟨p₁, next, read⟩ := bind_eq_ok.mp read
      cases read
      exact trapped.next_ahead next
    · cases read
  case h_6 => cases read
  all_goals
    obtain ⟨p₁, next, read⟩ := bind_eq_ok.mp read
    cases read
    exact trapped.next_ahead next

theorem evalConstUnaryRounds_keeps (keeps : Keeps self) (n : Nat) :
    Keeps (evalConstUnaryRounds rules context self n) := by
  induction n with
  | zero =>
    intro p v q _ read
    cases read
  | succ n ih =>
    intro p v q trapped read
    rw [evalConstUnaryRounds] at read
    split at read
    · rename_i op unary
      have other : p.current.type ≠ .intLiteral := by
        intro literal
        rw [literal] at unary
        cases unary
      obtain ⟨p₁, next, read⟩ := bind_eq_ok.mp read
      obtain ⟨⟨x, p₂⟩, operand, read⟩ := bind_eq_ok.mp read
      cases read
      exact ih (trapped.next other next).2 operand
    · exact evalConstPrimary_keeps keeps _ trapped read

theorem evalConstUnary_keeps (keeps : Keeps self) : Keeps (evalConstUnary rules context self) := by
  intro p v q trapped read
  exact evalConstUnaryRounds_keeps keeps _ trapped read

theorem constLevel_keeps {k : Nat} {operand : ConstReader} (keeps : Keeps operand) :
    Keeps (constLevel (constOperator k) operand) := by
  intro p v q trapped read
  have found {p₁ p₂ : Parser} {op : BinaryOp} (ahead : Ahead p₁)
      (next : nextConstOp (constOperator k) p₁ = .ok (some (op, p₂))) : Trapped p₂ := by
    unfold nextConstOp at next
    split at next
    · cases next
    · rename_i operator
      obtain ⟨p₃, step, next⟩ := bind_eq_ok.mp next
      cases next
      have other : p₁.current.type ≠ .intLiteral := by
        intro literal
        rw [literal] at operator
        match k with
        | 0 | 1 | 2 | 3 | 4 | 5 | 6 | 7 | 8 | 9 | 10 | _ + 11 => cases operator
      exact ((ahead.trapped (continues_of_operator operator)).next other step).2
  have level : chain id Parser.size (nextConstOp (constOperator k)) applyConstOp operand p =
    .ok (v, q) := read
  exact chain_invariant (fun before => keeps before) (fun same => same) found trapped level

theorem evalConstLogicalOr_keeps (keeps : Keeps self) :
    Keeps (evalConstLogicalOr rules context self) :=
  constLevel_keeps (k := 1) <| constLevel_keeps (k := 2) <| constLevel_keeps (k := 3) <|
  constLevel_keeps (k := 4) <| constLevel_keeps (k := 5) <| constLevel_keeps (k := 6) <|
  constLevel_keeps (k := 7) <| constLevel_keeps (k := 8) <| constLevel_keeps (k := 9) <|
  constLevel_keeps (k := 10) <| evalConstUnary_keeps keeps

theorem evalConstConditional_keeps (keeps : Keeps self) :
    Keeps (evalConstConditional rules context self) := by
  intro p v q trapped read
  obtain ⟨⟨c, p₁⟩, cond, read⟩ := bind_eq_ok.mp read
  have ahead := evalConstLogicalOr_keeps keeps trapped cond
  dsimp only at read
  split at read
  · cases read
    exact ahead
  · rename_i asks
    have type : p₁.current.type = .question := not_not.mp asks
    obtain ⟨p₂, next, read⟩ := bind_eq_ok.mp read
    obtain ⟨⟨t, p₃⟩, thenRead, read⟩ := bind_eq_ok.mp read
    obtain ⟨p₄, colon, read⟩ := bind_eq_ok.mp read
    obtain ⟨⟨e, p₅⟩, elseRead, read⟩ := bind_eq_ok.mp read
    cases read
    have inner := (ahead.trapped (by rw [type]; rfl)).next (by simp [type]) next
    have after := (keeps inner.2 thenRead).expect colon rfl (by decide)
    exact keeps after.2 elseRead

theorem evalConstExpr_keeps : Keeps (evalConstExpr rules context) := by
  intro p v q trapped read
  unfold evalConstExpr at read
  generalize p.size + 1 = rounds at read
  revert p v q
  induction rounds with
  | zero =>
    intro p v q _ read
    cases read
  | succ n ih =>
    intro p v q trapped read
    exact evalConstConditional_keeps ih trapped read

end Keeping

/-- A literal that is too long blocks the evaluator, whatever comes before it. -/
theorem trapped_of_words {a : Literal} (long : ¬ a.Short) {ws₂ : List Word} {rest : Text}
    {ws₁ : List Word} (lexable : ∀ x ∈ ws₁, Lexable x) (closes : Closes rest) {p q : Parser}
    (start : p.lexer.rest = joined (ws₁ ++ .atom a :: ws₂) rest ∨
      p.lexer.rest = spaced (ws₁ ++ .atom a :: ws₂) rest)
    (next : p.next = .ok q) : startsCastType q = false ∧ Trapped q := by
  induction ws₁ generalizing p q with
  | nil =>
    obtain ⟨⟨tok, l⟩, token, next⟩ := bind_eq_ok.mp next
    cases next
    have lexed : ∃ l₀ : Lexer, lexerNextToken l₀ = .ok (tok, l) ∧
        l₀.rest = a.text ++ spaced ws₂ rest := by
      rcases start with start | start
      · exact ⟨p.lexer, token, start⟩
      · obtain ⟨c, after, first, digit⟩ := literal_cons a
        have blank : p.lexer.rest = ' ' :: c :: (after ++ spaced ws₂ rest) := by
          rw [start]
          simp [spaced, wordText, first]
        rw [nextToken_blank blank (digit_startsToken digit)] at token
        exact ⟨_, token, by rw [first]; rfl⟩
    obtain ⟨l₀, token, text⟩ := lexed
    obtain ⟨type, c, after, hex, left⟩ := nextToken_cut long text token
    refine ⟨by simp [startsCastType, type], .here ⟨type, ?_⟩⟩
    intro r step
    obtain ⟨⟨tok', l'⟩, token', step⟩ := bind_eq_ok.mp step
    cases step
    exact nextToken_hex hex left token'
  | cons w ws₁ ih =>
    have boundary := boundary_spaced (ws₁ ++ .atom a :: ws₂) closes
    have first := lexable w (by simp)
    have lexed : IsToken q.current w ∧ q.lexer.rest = spaced (ws₁ ++ .atom a :: ws₂) rest := by
      obtain ⟨⟨tok, l⟩, token, next⟩ := bind_eq_ok.mp next
      cases next
      rcases start with start | start
      · obtain ⟨tok', read, is⟩ := nextToken_word first boundary start
        cases token.symm.trans read
        exact ⟨is, rfl⟩
      · obtain ⟨tok', read, is⟩ := nextToken_spaced first boundary start
        cases token.symm.trans read
        exact ⟨is, rfl⟩
    have later {r : Parser} (step : q.next = .ok r) : startsCastType r = false ∧ Trapped r :=
      ih (fun x mem => lexable x (by simp [mem])) (.inr lexed.2) step
    exact ⟨(word_noType lexed.1).1,
      .step lexed.1 (fun r step => (later step).1) fun r step => (later step).2⟩

/-- The words up to the first literal that is too long. -/
theorem split_words {e : Tree} {v : Int} (defined : value e = some v)
    (long : ¬ ∀ a ∈ e.atoms, a.Short) :
    ∃ ws₁ a ws₂, e.words grammar = ws₁ ++ .atom a :: ws₂ ∧ (∀ w ∈ ws₁, Lexable w) ∧ ¬ a.Short := by
  classical
  obtain ⟨b, atom, bad⟩ : ∃ b ∈ e.atoms, ¬ b.Short := by simpa using long
  have found : ((e.words grammar).find? fun w => decide (∃ a, w = .atom a ∧ ¬ a.Short)).isSome := by
    rw [List.find?_isSome]
    exact ⟨.atom b, (Tree.atom_mem_words grammar).mpr atom, decide_eq_true ⟨b, rfl, bad⟩⟩
  obtain ⟨w, found⟩ := Option.isSome_iff_exists.mp found
  obtain ⟨isLong, ws₁, ws₂, words, before⟩ := List.find?_eq_some_iff_append.mp found
  obtain ⟨a, rfl, tooLong⟩ := of_decide_eq_true isLong
  refine ⟨ws₁, a, ws₂, words, ?_, tooLong⟩
  intro x mem
  have short := before x mem
  cases x with
  | atom c =>
    have inTree : c ∈ e.atoms := (Tree.atom_mem_words grammar).mp (by simp [words, mem])
    obtain ⟨y, inRange⟩ := Meaning.atom_of_eval defined inTree
    exact ⟨by have := (fits_of_literal inRange).1.2; omega, by simpa using short⟩
  | _ => trivial

/-- Both evaluators on the text of one expression. -/
theorem evaluators_agree_iff {e : Tree} {v : Int} (defined : value e = some v)
    (macros : MacroTable) (rules : TypeRules) (context : String) {p : Parser}
    (start : p.lexer.rest = text e) :
    (evalCondExpr macros (text e) = .ok (v, []) ∧
      ∃ q, (p.next >>= evalConstExpr rules context) = .ok (v, q) ∧ q.current.type = .eof) ↔
    ∀ a ∈ e.atoms, a.Short := by
  constructor
  · rintro ⟨-, q, read, eof⟩
    by_contra long
    obtain ⟨ws₁, a, ws₂, words, lexable, tooLong⟩ := split_words defined long
    obtain ⟨p', next, read⟩ := bind_eq_ok.mp read
    have begins : p.lexer.rest = joined (ws₁ ++ .atom a :: ws₂) [] := by rw [start, text, words]
    have trapped := trapped_of_words tooLong lexable (by simp [Closes]) (.inl begins) next
    exact (evalConstExpr_keeps trapped.2 read).not_eof eof
  · intro short
    refine ⟨evalCondExpr_reads macros defined (by simp [Closes]), ?_⟩
    have lexable := lexable_words defined short
    obtain ⟨w, ws, words⟩ := List.exists_cons_of_ne_nil (e.words_ne_nil grammar)
    rw [text, words] at start
    obtain ⟨p', next, token, start'⟩ := next_joined (lexable w (by simp [words]))
      (by simp [Closes]) start
    obtain ⟨q, read, atEnd⟩ := evalConstExpr_reads rules context defined short (by simp [Closes])
      words token start'
    refine ⟨q, ?_, ?_⟩
    · rw [next]
      exact read
    · rcases atEnd with ⟨-, eof⟩ | ⟨c, after, nil, -⟩
      · exact eof
      · cases nil

/-- Rules for the rest of the parser that know no type name. -/
def noTypes : TypeRules where
  parseTypeName p := parserError p "error: expected a type name"
  sizeofExpression p := parserError p "error: expected an expression"

def startOf (source : Text) : Parser where
  lexer := lexerInit source none
  current := { type := .eof, position := ⟨1, 1, none⟩ }
  typedefs := []
  scopeDepth := 0
  enumConsts := []

def decimal (n : Fin 10) : Literal where
  mark := none
  digits := [Char.ofNat (48 + n)]
  suffix := []
  mark_x := by simp
  digits_ne := by simp
  digits_ok := List.all_eq_true.mp (by revert n; decide)
  not_octal := by revert n; decide
  suffix_ok := by simp
  suffix_le := by simp

/-- `( 1 + 2 ) * - 3 < 4 && 5 ? 6 << 7 : 8` -/
def sample : Tree :=
  .conditional
    (.binary .logicalAnd
      (.binary .lt
        (.binary .mul (.binary .add (.atom (decimal 1)) (.atom (decimal 2)))
          (.unary .minus (.atom (decimal 3))))
        (.atom (decimal 4)))
      (.atom (decimal 5)))
    (.binary .shiftLeft (.atom (decimal 6)) (.atom (decimal 7)))
    (.atom (decimal 8))

theorem sample_evaluators_agree :
    evalCondExpr [] (text sample) = .ok (768, []) ∧
      ∃ q, ((startOf (text sample)).next >>= evalConstExpr noTypes "array size") = .ok (768, q) ∧
        q.current.type = .eof :=
  (evaluators_agree_iff (by decide) [] noTypes "array size" rfl).mpr (by decide)

/-- `0x1` with sixty zeros before the 1. -/
def zeros : Literal where
  mark := some 'x'
  digits := List.replicate 60 '0' ++ ['1']
  suffix := []
  mark_x := by simp
  digits_ne := by simp
  digits_ok := List.all_eq_true.mp (by decide)
  not_octal := by simp
  suffix_ok := by simp
  suffix_le := by simp

/-- The parser's evaluator reads the zeros only. -/
theorem leading_zeros_split_literal :
    ¬ ∀ (e : Tree) (v : Int) (macros : MacroTable) (rules : TypeRules) (context : String)
      (p : Parser), value e = some v → p.lexer.rest = text e →
      evalCondExpr macros (text e) = .ok (v, []) ∧
        ∃ q, (p.next >>= evalConstExpr rules context) = .ok (v, q) ∧ q.current.type = .eof := by
  intro claim
  obtain ⟨-, q, read, -⟩ :=
    claim (.atom zeros) 1 [] noTypes "array size" (startOf (text (.atom zeros)))
      (by decide +kernel) rfl
  have zero : ((startOf (text (.atom zeros))).next >>= evalConstExpr noTypes "array size").map
      Prod.fst = .ok 0 := by decide +kernel
  rw [read] at zero
  cases zero

end ClaudeC99.Constant
