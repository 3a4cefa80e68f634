import ClaudeC99.Front.ConstExpr
import ClaudeC99.Front.Scan
import ClaudeC99.Lib.StateExcept

/-! Lookahead. The parser keeps `lexer->pos` and its current token, reads on, and puts these two
back; line, column and file stay where the lookahead left them. -/

namespace ClaudeC99.Front

open Preprocessor (Text isSpaceChar)

/-- `parser->lexer->pos = saved_pos; parser->current = saved_token` -/
def Parser.restore (p saved : Parser) : Parser :=
  { p with lexer := { p.lexer with rest := saved.lexer.rest }, current := saved.current }

/-! The places that look ahead. -/

/-- The label of a statement; the colon is consumed. -/
def labelAhead (p : Parser) : Except String (Bool × Parser) := do
  let ahead ← p.next
  if ahead.current.type = .colon then
    let ahead ← ahead.next
    .ok (true, ahead)
  else .ok (false, ahead.restore p)

def assignmentOperators : List TokenType :=
  [.assign, .plusAssign, .minusAssign, .starAssign, .slashAssign, .percentAssign,
    .leftShiftAssign, .rightShiftAssign, .ampAssign, .caretAssign, .pipeAssign]

/-- The operator of an assignment to an identifier; the operator is consumed. -/
def assignmentAhead (p : Parser) : Except String (Option TokenType × Parser) := do
  let ahead ← p.next
  if ahead.current.type ∈ assignmentOperators then
    let after ← ahead.next
    .ok (some ahead.current.type, after)
  else .ok (none, ahead.restore p)

def startsTypeName (p : Parser) : Bool :=
  match p.current.type with
  | .const | .volatile | .void | .float | .double | .bool | .char | .short | .int | .long
  | .signed | .unsigned | .struct | .union => true
  | .identifier => (parserFindTypedef p p.current.value).isSome
  | _ => false

/-- A cast or a compound literal; the parenthesis is consumed. -/
def castAhead (p : Parser) : Except String (Bool × Parser) := do
  let ahead ← p.next
  if startsTypeName ahead then .ok (true, ahead) else .ok (false, ahead.restore p)

/-- A compound literal below a unary operator, up to its brace. -/
def compoundLiteralAhead (rules : TypeRules) (p : Parser) :
    Except String (Option CType × Parser) := do
  let ahead ← p.next
  if startsTypeName ahead then
    let (t, ahead) ← rules.parseTypeName ahead
    if ahead.current.type = .rparen then
      let ahead ← ahead.next
      if ahead.current.type = .lbrace then .ok (some t, ahead)
      else .ok (none, ahead.restore p)
    else .ok (none, ahead.restore p)
  else .ok (none, ahead.restore p)

/-- A parameter list that is only `void`. -/
def voidAhead (p : Parser) : Except String (Bool × Parser) := do
  let ahead ← p.next
  if ahead.current.type = .rparen then .ok (true, ahead) else .ok (false, ahead.restore p)

/-! Runs of the parser as the lexer sees them. -/

/-- The parser gets from `p` to `q`, `n` tokens further on. It reads tokens, changes what the lexer
does not see, and looks ahead, possibly inside a lookahead; `may saved ahead` holds where it goes
back. -/
inductive Reads (may : Parser → Parser → Prop) : Parser → Nat → Parser → Prop
  | here {p : Parser} : Reads may p 0 p
  | next {p q r : Parser} {n : Nat} (run : Reads may p n q) (token : q.next = .ok r) :
      Reads may p (n + 1) r
  | quiet {p q r : Parser} {n : Nat} (run : Reads may p n q) (lexer : r.lexer = q.lexer)
      (current : r.current = q.current) : Reads may p n r
  | back {p q r : Parser} {n k : Nat} (run : Reads may p n q) (ahead : Reads may q k r)
      (allowed : may q r) : Reads may p n (r.restore q)

abbrev ReadsAnyhow : Parser → Nat → Parser → Prop := Reads fun _ _ => True

/-- `n` tokens in one pass. -/
def forward (p : Parser) : Nat → Except String Parser
  | 0 => .ok p
  | n + 1 => do
    let q ← forward p n
    q.next

/-- The `k`-th token the lexer delivers from here on. -/
def upcoming : Nat → Lexer → Except String Token
  | 0, l => do
    let (t, _) ← lexerNextToken l
    .ok t
  | k + 1, l => do
    let (_, l') ← lexerNextToken l
    upcoming k l'

/-- The tokens from here on are those of a single pass. -/
def InStep (p : Parser) (n : Nat) (q : Parser) : Prop :=
  ∃ f, forward p n = .ok f ∧ q.current = f.current ∧
    ∀ k, upcoming k q.lexer = upcoming k f.lexer

/-! White space sets the position anew. -/

/-- What the white space before the next token sets, whatever it was. -/
structure Anchors where
  line : Bool
  col : Bool
  file : Bool

/-- The path of a location marker. -/
def markerPath (s : Text) : Text :=
  let afterDigits := (s.drop 1).dropWhile Char.isDigit
  (match afterDigits with
    | ':' :: rest => rest
    | rest => rest).takeWhile (· ≠ '\n')

def anchorsLoop : Nat → Lexer → Anchors
  | 0, _ => ⟨false, false, false⟩
  | n + 1, l =>
    match l.rest with
    | [] => ⟨false, false, false⟩
    | c :: _ =>
      if c = '\x01' then
        let rest := anchorsLoop n (lexerParseLocationMarker l)
        ⟨true, true, rest.file || markerPath l.rest ≠ []⟩
      else if isSpaceChar c then
        let rest := anchorsLoop n (lexerAdvance l)
        ⟨rest.line, rest.col || c = '\n', rest.file⟩
      else ⟨false, false, false⟩

def anchors (l : Lexer) : Anchors := anchorsLoop l.rest.length l

/-- Line, column and file are each as they were, or set before the next token. -/
structure Resynced (saved ahead : Parser) : Prop where
  line : ahead.lexer.line = saved.lexer.line ∨ (anchors saved.lexer).line = true
  col : ahead.lexer.col = saved.lexer.col ∨ (anchors saved.lexer).col = true
  file : ahead.lexer.file = saved.lexer.file ∨ (anchors saved.lexer).file = true

/-- Two lexers at one place of the source, before and after the same white space. -/
structure Synced (l l' s s' : Lexer) (a : Anchors) : Prop where
  rest : s.rest = s'.rest
  line : s.line = s'.line ↔ l.line = l'.line ∨ a.line = true
  col : s.col = s'.col ↔ l.col = l'.col ∨ a.col = true
  file : s.file = s'.file ↔ l.file = l'.file ∨ a.file = true

theorem synced_refl {l l' : Lexer} (rest : l.rest = l'.rest) :
    Synced l l' l l' ⟨false, false, false⟩ :=
  ⟨rest, by simp, by simp, by simp⟩

theorem marker_file (l : Lexer) : (lexerParseLocationMarker l).file =
    if markerPath l.rest = [] then l.file else some ((markerPath l.rest).take 511) := rfl

theorem advance_cons {l : Lexer} {c : Char} {tail : Text} (chars : l.rest = c :: tail) :
    lexerAdvance l =
      { rest := tail
        line := if c = '\n' then l.line + 1 else l.line
        col := if c = '\n' then 1 else l.col + 1
        file := l.file } := by
  obtain ⟨rest, line, col, file⟩ := l
  subst chars
  by_cases newline : c = '\n'
  · subst newline
    rfl
  · simp [lexerAdvance, newline]

theorem skipLoop_synced (n : Nat) {l l' : Lexer} (rest : l.rest = l'.rest) :
    Synced l l' (lexerSkipWhitespaceLoop n l) (lexerSkipWhitespaceLoop n l') (anchorsLoop n l) := by
  induction n generalizing l l' with
  | zero => exact synced_refl rest
  | succ n ih =>
    unfold lexerSkipWhitespaceLoop anchorsLoop
    rw [← rest]
    cases chars : l.rest with
    | nil => exact synced_refl rest
    | cons c tail =>
      dsimp only
      split
      · -- the marker sets line and column, and the file unless its path is empty
        have markerRest : (lexerParseLocationMarker l).rest = (lexerParseLocationMarker l').rest := by
          simp only [lexerParseLocationMarker, rest]
        have markerLine : (lexerParseLocationMarker l).line = (lexerParseLocationMarker l').line := by
          simp only [lexerParseLocationMarker, rest]
        have after := ih markerRest
        refine ⟨after.rest, by simp [after.line, markerLine], ?_, ?_⟩
        · rw [after.col]
          simp [lexerParseLocationMarker]
        · rw [after.file, marker_file, marker_file, ← rest]
          by_cases empty : markerPath (c :: tail) = [] <;> simp [chars, empty, or_comm]
      split
      · have chars' : l'.rest = c :: tail := rest ▸ chars
        have moved := advance_cons chars
        have moved' := advance_cons chars'
        have after := @ih (lexerAdvance l) (lexerAdvance l') (by rw [moved, moved'])
        refine ⟨after.rest, ?_, ?_, ?_⟩
        · rw [after.line, moved, moved']
          by_cases newline : c = '\n' <;> simp [newline]
        · rw [after.col, moved, moved']
          by_cases newline : c = '\n' <;> simp [newline]
        · rw [after.file, moved, moved']
      · exact synced_refl rest

theorem skip_synced {l l' : Lexer} (rest : l.rest = l'.rest) :
    Synced l l' (lexerSkipWhitespace l) (lexerSkipWhitespace l') (anchors l) := by
  unfold lexerSkipWhitespace anchors
  rw [← rest]
  exact skipLoop_synced _ rest

/-- Two lexers that agree once the white space is skipped. -/
def Agree (l l' : Lexer) : Prop := lexerSkipWhitespace l = lexerSkipWhitespace l'

theorem agree_restore {p saved : Parser} :
    Agree (p.restore saved).lexer saved.lexer ↔ Resynced saved p := by
  have synced := @skip_synced saved.lexer (p.restore saved).lexer rfl
  constructor
  · intro agree
    rw [Agree] at agree
    rw [agree] at synced
    exact ⟨(synced.line.mp rfl).imp_left Eq.symm, (synced.col.mp rfl).imp_left Eq.symm,
      (synced.file.mp rfl).imp_left Eq.symm⟩
  · rintro ⟨line, col, file⟩
    have sameLine := synced.line.mpr (line.imp_left Eq.symm)
    have sameCol := synced.col.mpr (col.imp_left Eq.symm)
    have sameFile := synced.file.mpr (file.imp_left Eq.symm)
    have sameRest := synced.rest
    unfold Agree
    cases hs : lexerSkipWhitespace saved.lexer
    cases hr : lexerSkipWhitespace (p.restore saved).lexer
    rw [hs, hr] at sameLine sameCol sameFile sameRest
    simp only at sameLine sameCol sameFile sameRest
    rw [sameLine, sameCol, sameFile, sameRest]

theorem nextToken_agree {l l' : Lexer} (agree : Agree l l') :
    lexerNextToken l = lexerNextToken l' := by
  unfold lexerNextToken
  rw [agree]

theorem upcoming_agree {l l' : Lexer} (agree : Agree l l') (k : Nat) :
    upcoming k l = upcoming k l' := by
  cases k <;> simp only [upcoming, nextToken_agree agree]

/-! The position of a token is where the white space before it ends. -/

theorem finishFloat_position (buf : Text) (l : Lexer) (position : Position) :
    (finishFloat buf l position).1.position = position := by
  unfold finishFloat
  split
  · split <;> rfl
  · rfl

theorem finishInteger_position {buf : Text} {value : Nat} {isOctal : Bool} {l l' : Lexer}
    {position : Position} {t : Token}
    (token : finishInteger buf value isOctal l position = .ok (t, l')) : t.position = position := by
  unfold finishInteger at token
  dsimp only at token
  split at token
  · cases token
  split at token
  · cases token
  · cases token
    rfl

theorem lexNumber_position {l l' : Lexer} {t : Token} (token : lexNumber l = .ok (t, l')) :
    t.position = l.position := by
  rcases lexNumber_cases token with ⟨buf, l₁, float⟩ | ⟨buf, value, octal, l₁, integer⟩
  · rw [← finishFloat_position buf l₁ l.position, float]
  · exact finishInteger_position integer

theorem nextToken_position {l l' : Lexer} {t : Token} (token : lexerNextToken l = .ok (t, l')) :
    t.position = (lexerSkipWhitespace l).position := by
  unfold lexerNextToken at token
  dsimp only at token
  split at token
  · cases token
    rfl
  split at token
  · have whole := Except.ok.inj token
    rw [← finishFloat_position _ _ (lexerSkipWhitespace l).position]
    exact (congrArg (fun p => p.1.position) whole).symm
  split at token
  · cases token
    rfl
  split at token
  · obtain ⟨_, -, rest⟩ := StateExcept.bind_eq_ok.mp token
    cases rest
    rfl
  split at token
  · obtain ⟨_, -, rest⟩ := StateExcept.bind_eq_ok.mp token
    cases rest
    rfl
  split at token
  · cases token
  split at token
  · exact lexNumber_position token
  split at token
  · cases token
    rfl
  · cases token
    rfl

/-! Whole runs -/

theorem next_eq_ok {p q : Parser} : p.next = .ok q ↔
    ∃ t l, lexerNextToken p.lexer = .ok (t, l) ∧ q = { p with lexer := l, current := t } := by
  unfold Parser.next
  rw [StateExcept.bind_eq_ok]
  constructor
  · rintro ⟨⟨t, l⟩, token, rest⟩
    cases rest
    exact ⟨t, l, token, rfl⟩
  · rintro ⟨t, l, token, rfl⟩
    exact ⟨(t, l), token, rfl⟩

/-- The state of a run is that of a single pass, but for white space still to skip. -/
theorem reads_agree {p q : Parser} {n : Nat} (run : Reads Resynced p n q) :
    ∃ f, forward p n = .ok f ∧ q.current = f.current ∧ Agree q.lexer f.lexer := by
  induction run with
  | here => exact ⟨_, rfl, rfl, rfl⟩
  | @next p q r n run token ih =>
    obtain ⟨f, pass, -, agree⟩ := ih
    obtain ⟨t, l, read, rfl⟩ := next_eq_ok.mp token
    have step : f.next = .ok { f with lexer := l, current := t } :=
      next_eq_ok.mpr ⟨t, l, nextToken_agree agree ▸ read, rfl⟩
    refine ⟨{ f with lexer := l, current := t }, ?_, rfl, rfl⟩
    rw [forward, pass]
    exact step
  | @quiet p q r n run lexer current ih =>
    obtain ⟨f, pass, same, agree⟩ := ih
    exact ⟨f, pass, current.trans same, lexer ▸ agree⟩
  | @back p q r n k run ahead allowed ih _ =>
    obtain ⟨f, pass, same, agree⟩ := ih
    have restored : Agree (r.restore q).lexer q.lexer := agree_restore.mpr allowed
    exact ⟨f, pass, same, restored.trans agree⟩

theorem inStep_of_agree {p q f : Parser} {n : Nat} (pass : forward p n = .ok f)
    (current : q.current = f.current) (agree : Agree q.lexer f.lexer) : InStep p n q :=
  ⟨f, pass, current, upcoming_agree agree⟩

theorem resynced_of_upcoming {q r : Parser} {t : Token} {l : Lexer}
    (token : lexerNextToken q.lexer = .ok (t, l))
    (same : upcoming 0 (r.restore q).lexer = upcoming 0 q.lexer) : Resynced q r := by
  have delivers : upcoming 0 q.lexer = .ok t := by
    simp only [upcoming, token]
    rfl
  rw [delivers, upcoming] at same
  obtain ⟨⟨t', l'⟩, token', rest⟩ := StateExcept.bind_eq_ok.mp same
  cases rest
  have position := (nextToken_position token').symm.trans (nextToken_position token)
  have synced := @skip_synced q.lexer (r.restore q).lexer rfl
  have line := synced.line.mp (congrArg Position.line position).symm
  have col := synced.col.mp (congrArg Position.col position).symm
  have file := synced.file.mp (congrArg Position.file position).symm
  exact ⟨line.imp_left Eq.symm, col.imp_left Eq.symm, file.imp_left Eq.symm⟩

/-- Runs that go back only where the position is set anew deliver the tokens of a single pass, and
the next lookahead is invisible just where this holds again. -/
theorem backtracking_invisible_iff {p q : Parser} {n : Nat} (run : Reads Resynced p n q) :
    InStep p n q ∧ ∀ k r t l, Reads Resynced q k r → lexerNextToken q.lexer = .ok (t, l) →
      (InStep p n (r.restore q) ↔ Resynced q r) := by
  obtain ⟨f, pass, current, agree⟩ := reads_agree run
  refine ⟨inStep_of_agree pass current agree, ?_⟩
  intro k r t l ahead token
  constructor
  · rintro ⟨g, pass', -, upcoming⟩
    obtain rfl := Except.ok.inj (pass.symm.trans pass')
    exact resynced_of_upcoming token ((upcoming 0).trans (upcoming_agree agree 0).symm)
  · intro resynced
    have restored : Agree (r.restore q).lexer q.lexer := agree_restore.mpr resynced
    exact inStep_of_agree pass current (restored.trans agree)

/-- The name `f` at the start of a file, with `rest` behind it. -/
def afterName (rest : String) : Parser where
  lexer := { rest := rest.toList, line := 1, col := 2, file := some ['m'] }
  current := { type := .identifier, value := ['f'], position := ⟨1, 1, some ['m']⟩ }
  typedefs := []
  scopeDepth := 0
  enumConsts := []

/-- A location marker stands before the token that is looked at. -/
theorem sample_marker_inStep : ∃ r, (afterName "\x017:b.h\n(1);").next = .ok r ∧
    InStep (afterName "\x017:b.h\n(1);") 0 (r.restore (afterName "\x017:b.h\n(1);")) := by
  refine ⟨_, rfl, (backtracking_invisible_iff (.back .here (.next .here rfl) ?_)).1⟩
  exact ⟨.inr (by decide), .inr (by decide), .inr (by decide)⟩

/-! Every place that looks ahead makes such a run. -/

section Sites

variable {p q : Parser}

theorem reads_of_next (token : p.next = .ok q) : ReadsAnyhow p 1 q := .next .here token

theorem labelAhead_reads {found : Bool} (site : labelAhead p = .ok (found, q)) :
    ReadsAnyhow p (if found then 2 else 0) q := by
  obtain ⟨ahead, token, rest⟩ := StateExcept.bind_eq_ok.mp site
  split at rest
  · obtain ⟨after, colon, rest⟩ := StateExcept.bind_eq_ok.mp rest
    cases rest
    exact .next (reads_of_next token) colon
  · cases rest
    exact .back .here (reads_of_next token) trivial

theorem assignmentAhead_reads {op : Option TokenType} (site : assignmentAhead p = .ok (op, q)) :
    ReadsAnyhow p (if op.isSome then 2 else 0) q := by
  obtain ⟨ahead, token, rest⟩ := StateExcept.bind_eq_ok.mp site
  split at rest
  · obtain ⟨after, operator, rest⟩ := StateExcept.bind_eq_ok.mp rest
    cases rest
    exact .next (reads_of_next token) operator
  · cases rest
    exact .back .here (reads_of_next token) trivial

theorem castAhead_reads {found : Bool} (site : castAhead p = .ok (found, q)) :
    ReadsAnyhow p (if found then 1 else 0) q := by
  obtain ⟨ahead, token, rest⟩ := StateExcept.bind_eq_ok.mp site
  split at rest
  · cases rest
    exact reads_of_next token
  · cases rest
    exact .back .here (reads_of_next token) trivial

theorem voidAhead_reads {found : Bool} (site : voidAhead p = .ok (found, q)) :
    ReadsAnyhow p (if found then 1 else 0) q := by
  obtain ⟨ahead, token, rest⟩ := StateExcept.bind_eq_ok.mp site
  split at rest
  · cases rest
    exact reads_of_next token
  · cases rest
    exact .back .here (reads_of_next token) trivial

theorem Reads.trans {may : Parser → Parser → Prop} {r : Parser} {n k : Nat}
    (first : Reads may p n q) (second : Reads may q k r) : Reads may p (n + k) r := by
  induction second with
  | here => exact first
  | next _ token ih => exact .next (ih first) token
  | quiet _ lexer current ih => exact .quiet (ih first) lexer current
  | back _ ahead allowed ih _ => exact .back (ih first) ahead allowed

/-- The type name of a compound literal is read by a rule that itself looks ahead. -/
theorem compoundLiteralAhead_reads {rules : TypeRules} {found : Option CType}
    (typeName : ∀ p t q, rules.parseTypeName p = .ok (t, q) → ∃ k, ReadsAnyhow p k q)
    (site : compoundLiteralAhead rules p = .ok (found, q)) :
    ∃ n, ReadsAnyhow p n q ∧ (found = none → n = 0) := by
  obtain ⟨ahead, token, rest⟩ := StateExcept.bind_eq_ok.mp site
  have one := reads_of_next token
  split at rest
  · obtain ⟨⟨t, named⟩, name, rest⟩ := StateExcept.bind_eq_ok.mp rest
    obtain ⟨k, reads⟩ := typeName ahead t named name
    have upTo := one.trans reads
    dsimp only at rest
    split at rest
    · obtain ⟨closed, paren, rest⟩ := StateExcept.bind_eq_ok.mp rest
      split at rest
      · cases rest
        exact ⟨_, .next upTo paren, by simp⟩
      · cases rest
        exact ⟨0, .back .here (.next upTo paren) trivial, fun _ => rfl⟩
    · cases rest
      exact ⟨0, .back .here upTo trivial, fun _ => rfl⟩
  · cases rest
    exact ⟨0, .back .here one trivial, fun _ => rfl⟩

end Sites

/-- `f`, a newline, `(1);`: the lookahead for an assignment leaves the parenthesis a line too
far down. -/
theorem lookahead_moves_lines : ¬ ∀ p n q, ReadsAnyhow p n q → InStep p n q := by
  intro every
  have site : ∃ q, assignmentAhead (afterName "\n(1);") = .ok (none, q) ∧
      (upcoming 0 q.lexer).map (fun t => t.position.line) = .ok 3 := ⟨_, rfl, rfl⟩
  obtain ⟨q, site, late⟩ := site
  obtain ⟨f, pass, -, same⟩ := every _ 0 q (assignmentAhead_reads site)
  cases pass
  rw [same 0] at late
  have line : (upcoming 0 (afterName "\n(1);").lexer).map (fun t => t.position.line) = .ok 2 := rfl
  rw [line] at late
  exact absurd (Except.ok.inj late) (by decide)

end ClaudeC99.Front
