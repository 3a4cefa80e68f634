import ClaudeC99.Front.Statements

/-! What of a declaration stays in the parser when an error is caught in it. -/

namespace ClaudeC99.Statements

open Raising
open Front (Token TokenType TypedefEntry Lexer lexerNextToken lexerInit)
open Preprocessor (Text)

/-! ### Steps -/

/-- From `p` to `q` the parser has moved on in the source and has put rows into its tables. -/
def Recorded (p q : Parser) : Prop :=
  q = { p with current := q.current, tokens := q.tokens, entries := q.entries }

/-- From `p` to `q` the parser has only moved on in the source. -/
def Moved (p q : Parser) : Prop := q = { p with current := q.current, tokens := q.tokens }

section Moves

variable {p q r : Parser}

theorem Moved.refl (p : Parser) : Moved p p := rfl

theorem Moved.trans (first : Moved p q) (second : Moved q r) : Moved p r := by
  rw [Moved] at first second ⊢
  rw [second, first]

theorem Recorded.refl (p : Parser) : Recorded p p := rfl

theorem Recorded.trans (first : Recorded p q) (second : Recorded q r) : Recorded p r := by
  rw [Recorded] at first second ⊢
  rw [second, first]

theorem Moved.recorded (moved : Moved p q) : Recorded p q := by
  rw [Moved] at moved
  rw [Recorded, moved]

theorem moved_nextToken (p : Parser) : Ends nextToken p (fun _ => Moved p) fun _ => Moved p := by
  unfold Ends nextToken
  cases p.tokens with
  | nil => rfl
  | cons outcome tokens =>
    cases outcome with
    | error text => rfl
    | ok current => rfl

theorem moved_parserExpect (type : TokenType) (p : Parser) :
    Ends (parserExpect type) p (fun _ => Moved p) fun _ => Moved p := by
  simp only [parserExpect, ends_bind, ends_get]
  split
  · exact moved_nextToken p
  · exact Moved.refl p

theorem moved_nextTokens (n : Nat) (p : Parser) :
    Ends (nextTokens n) p (fun _ => Moved p) fun _ => Moved p := by
  induction n generalizing p with
  | zero => exact Moved.refl p
  | succ n ih =>
    simp only [nextTokens, ends_bind]
    refine (moved_nextToken p).mono (fun {_ q} moved => ?_) id
    exact (ih q).mono moved.trans moved.trans

/-- Only `record` leaves rows behind. -/
def Step.records : Step → Bool
  | .record _ => true
  | _ => false

theorem moved_step {step : Step} (silent : step.records = false) (p : Parser) :
    Ends step.run p (fun _ => Moved p) fun _ => Moved p := by
  cases step with
  | next => exact moved_nextToken p
  | expect type => exact moved_parserExpect type p
  | lookAhead count =>
    simp only [Step.run, ends_bind, ends_get, ends_modify]
    refine (moved_nextTokens count p).mono (fun {_ q} moved => ?_) id
    rw [Moved] at moved ⊢
    rw [moved]
  | fail text => exact Moved.refl p
  | typeName name =>
    simp only [Step.run, ends_bind, ends_get]
    split
    · exact moved_nextToken p
    · exact Moved.refl p
  | funcName =>
    simp only [Step.run, ends_bind, ends_get]
    split
    · exact moved_nextToken p
    · exact Moved.refl p
  | vaStart =>
    simp only [Step.run, ends_bind, ends_get]
    refine (moved_nextToken p).mono (fun {_ q} moved => ?_) id
    refine (moved_parserExpect .lparen q).mono (fun {_ r} opened => ?_) moved.trans
    split
    · exact moved.trans opened
    · exact moved.trans opened
  | record entry => cases silent

theorem recorded_step (step : Step) (p : Parser) :
    Ends step.run p (fun _ => Recorded p) fun _ => Recorded p := by
  cases silent : step.records with
  | false => exact (moved_step silent p).mono Moved.recorded Moved.recorded
  | true =>
    cases step with
    | record entry => rfl
    | _ => cases silent

theorem recorded_runSteps (steps : List Step) (p : Parser) :
    Ends (runSteps steps) p (fun _ => Recorded p) fun _ => Recorded p := by
  induction steps generalizing p with
  | nil => exact Recorded.refl p
  | cons step steps ih =>
    simp only [runSteps, ends_bind]
    refine (recorded_step step p).mono (fun {_ q} first => ?_) id
    exact (ih q).mono first.trans first.trans

end Moves

/-! ### Statements -/

/-- The parser is in the same function. -/
def SameFunction (p q : Parser) : Prop :=
  q.currentFuncName = p.currentFuncName ∧ q.currentFuncIsVariadic = p.currentFuncIsVariadic

/-- The parser is as deep as before, and has only declared typedef names of the scope it is in. -/
structure Balanced (p q : Parser) : Prop where
  function : SameFunction p q
  scopeDepth : q.scopeDepth = p.scopeDepth
  loopDepth : q.loopDepth = p.loopDepth
  switchDepth : q.switchDepth = p.switchDepth
  typedefs : ∃ new, q.typedefs = p.typedefs ++ new ∧ ∀ e ∈ new, e.scopeDepth = p.scopeDepth

/-- No typedef name is of a deeper scope. -/
def Parser.Bounded (p : Parser) : Prop := ∀ e ∈ p.typedefs, e.scopeDepth ≤ p.scopeDepth

/-- What a statement does to the parser, as far as it gets. -/
def Keeps (m : Parse Unit) : Prop :=
  ∀ p : Parser, p.Bounded → Ends m p (fun _ => Balanced p) fun _ => SameFunction p

section Balance

variable {p q r : Parser}

theorem SameFunction.trans (first : SameFunction p q) (second : SameFunction q r) :
    SameFunction p r :=
  ⟨second.1.trans first.1, second.2.trans first.2⟩

theorem Recorded.balanced (recorded : Recorded p q) : Balanced p q := by
  rw [Recorded] at recorded
  rw [recorded]
  exact ⟨⟨rfl, rfl⟩, rfl, rfl, rfl, [], by simp⟩

theorem Balanced.trans (first : Balanced p q) (second : Balanced q r) : Balanced p r := by
  obtain ⟨new, typedefs, depths⟩ := first.typedefs
  obtain ⟨new', typedefs', depths'⟩ := second.typedefs
  refine ⟨first.function.trans second.function, second.scopeDepth.trans first.scopeDepth,
    second.loopDepth.trans first.loopDepth, second.switchDepth.trans first.switchDepth,
    new ++ new', ?_, ?_⟩
  · rw [typedefs', typedefs, List.append_assoc]
  · rw [List.forall_mem_append]
    rw [first.scopeDepth] at depths'
    exact ⟨depths, depths'⟩

theorem Balanced.bounded (balanced : Balanced p q) (bounded : p.Bounded) : q.Bounded := by
  obtain ⟨new, typedefs, depths⟩ := balanced.typedefs
  rw [Parser.Bounded, typedefs, balanced.scopeDepth, List.forall_mem_append]
  exact ⟨bounded, fun e mem => Nat.le_of_eq (depths e mem)⟩

variable {m n : Parse Unit}

theorem Keeps.of_recorded (recorded : ∀ p, Ends m p (fun _ => Recorded p) fun _ => Recorded p) :
    Keeps m :=
  fun p _ => (recorded p).mono Recorded.balanced fun raised => raised.balanced.function

theorem keeps_pure : Keeps (pure ()) := .of_recorded Recorded.refl

theorem keeps_throw (text : String) : Keeps (throw text) := .of_recorded Recorded.refl

theorem keeps_nextToken : Keeps nextToken :=
  .of_recorded fun p => (moved_nextToken p).mono Moved.recorded Moved.recorded

theorem keeps_parserExpect (type : TokenType) : Keeps (parserExpect type) :=
  .of_recorded fun p => (moved_parserExpect type p).mono Moved.recorded Moved.recorded

theorem keeps_runSteps (steps : List Step) : Keeps (runSteps steps) :=
  .of_recorded (recorded_runSteps steps)

theorem Keeps.andThen (first : Keeps m) (second : Keeps n) : Keeps (m >>= fun _ => n) := by
  intro p bounded
  rw [ends_bind]
  refine (first p bounded).mono (fun {_ q} balanced => ?_) id
  refine (second q (balanced.bounded bounded)).mono balanced.trans ?_
  exact balanced.function.trans

/-- A choice that depends on the parser changes nothing in it. -/
theorem Keeps.choose {c : Parser → Prop} [DecidablePred c] (left : Keeps m) (right : Keeps n) :
    Keeps (do
      let p ← get
      if c p then m else n) := by
  intro p bounded
  simp only [ends_bind, ends_get]
  split
  · exact left p bounded
  · exact right p bounded

theorem keeps_registerTypedef (name : Text) (kind : TypeKind) (fullType : Option CType) :
    Keeps (parserRegisterTypedef name kind fullType) := by
  intro p bounded
  simp only [parserRegisterTypedef, ends_bind, ends_get]
  split
  · exact ⟨rfl, rfl⟩
  · exact ⟨⟨rfl, rfl⟩, rfl, rfl, rfl, [⟨name, kind, fullType, p.scopeDepth⟩], rfl, by simp⟩

theorem Keeps.inLoop (body : Keeps m) : Keeps (inLoop m) := by
  intro p bounded
  simp only [Statements.inLoop, ends_bind, ends_modify]
  have inside := body { p with loopDepth := p.loopDepth + 1 } bounded
  refine inside.mono (fun {_ q} balanced => ?_) id
  refine ⟨balanced.function, balanced.scopeDepth, ?_, balanced.switchDepth, balanced.typedefs⟩
  rw [balanced.loopDepth]
  rfl

theorem Keeps.inSwitch (body : Keeps m) : Keeps (inSwitch m) := by
  intro p bounded
  simp only [Statements.inSwitch, ends_bind, ends_modify]
  have inside := body { p with switchDepth := p.switchDepth + 1 } bounded
  refine inside.mono (fun {_ q} balanced => ?_) id
  refine ⟨balanced.function, balanced.scopeDepth, balanced.loopDepth, ?_, balanced.typedefs⟩
  rw [balanced.switchDepth]
  rfl

/-- Behind a scope the typedef names of the scope are gone. -/
theorem Keeps.inScope (body : Keeps m) : Keeps (inScope m) := by
  intro p bounded
  simp only [Statements.inScope, parserLeaveScope, ends_bind, ends_modify]
  have deeper : Parser.Bounded { p with scopeDepth := p.scopeDepth + 1 } :=
    fun e mem => Nat.le_succ_of_le (bounded e mem)
  refine (body _ deeper).mono (fun {_ q} balanced => ?_) id
  obtain ⟨new, typedefs, depths⟩ := balanced.typedefs
  have depth : q.scopeDepth = p.scopeDepth + 1 := balanced.scopeDepth
  refine ⟨balanced.function, ?_, balanced.loopDepth, balanced.switchDepth, [], ?_, by simp⟩
  · rw [depth]
    rfl
  · have kept : ∀ e ∈ p.typedefs, decide (e.scopeDepth < q.scopeDepth) = true := by
      intro e mem
      rw [depth, decide_eq_true_eq]
      exact Nat.lt_succ_of_le (bounded e mem)
    have gone : ∀ e ∈ new, ¬ decide (e.scopeDepth < q.scopeDepth) = true := by
      intro e mem
      rw [depth, decide_eq_true_eq, depths e mem]
      exact Nat.lt_irrefl _
    rw [typedefs, List.filter_append, List.filter_eq_self.mpr kept, List.filter_eq_nil_iff.mpr gone]

end Balance

section Parts

variable {condition body : Parse Unit} (condition_keeps : Keeps condition) (body_keeps : Keeps body)

include body_keeps in
theorem keeps_parseBlock : Keeps (parseBlock body) :=
  (keeps_parserExpect _).andThen (body_keeps.inScope.andThen (keeps_parserExpect _))

include condition_keeps body_keeps

theorem keeps_parseIfStatement {otherwise : Parse Unit} (otherwise_keeps : Keeps otherwise) :
    Keeps (parseIfStatement condition body otherwise) := by
  apply (keeps_parserExpect _).andThen
  apply (keeps_parserExpect _).andThen
  apply condition_keeps.andThen
  apply (keeps_parserExpect _).andThen
  exact body_keeps.andThen otherwise_keeps

theorem keeps_parseWhileStatement : Keeps (parseWhileStatement condition body) := by
  apply (keeps_parserExpect _).andThen
  apply (keeps_parserExpect _).andThen
  apply condition_keeps.andThen
  apply (keeps_parserExpect _).andThen
  exact body_keeps.inLoop

theorem keeps_parseDoWhileStatement : Keeps (parseDoWhileStatement condition body) := by
  apply (keeps_parserExpect _).andThen
  apply body_keeps.inLoop.andThen
  apply (keeps_parserExpect _).andThen
  apply (keeps_parserExpect _).andThen
  apply condition_keeps.andThen
  apply (keeps_parserExpect _).andThen
  exact keeps_parserExpect _

theorem keeps_parseForStatement {init update : Parse Unit} (init_keeps : Keeps init)
    (update_keeps : Keeps update) : Keeps (parseForStatement condition body init update) := by
  apply (keeps_parserExpect _).andThen
  apply (keeps_parserExpect _).andThen
  apply Keeps.inScope
  apply init_keeps.andThen
  apply condition_keeps.andThen
  apply (keeps_parserExpect _).andThen
  apply update_keeps.andThen
  apply (keeps_parserExpect _).andThen
  exact body_keeps.inLoop

theorem keeps_parseSwitchStatement : Keeps (parseSwitchStatement condition body) := by
  apply (keeps_parserExpect _).andThen
  apply (keeps_parserExpect _).andThen
  apply condition_keeps.andThen
  apply (keeps_parserExpect _).andThen
  exact body_keeps.inSwitch

theorem keeps_parseCaseSection : Keeps (parseCaseSection body condition) := by
  apply (keeps_throw _).choose
  apply keeps_nextToken.andThen
  apply condition_keeps.andThen
  exact (keeps_parserExpect _).andThen body_keeps

omit condition_keeps in
theorem keeps_parseDefaultSection : Keeps (parseDefaultSection body) := by
  apply (keeps_throw _).choose
  apply keeps_nextToken.andThen
  exact (keeps_parserExpect _).andThen body_keeps

end Parts

theorem keeps_parseBreak : Keeps parseBreak :=
  (keeps_throw _).choose (keeps_nextToken.andThen (keeps_parserExpect _))

theorem keeps_parseContinue : Keeps parseContinue :=
  (keeps_throw _).choose (keeps_nextToken.andThen (keeps_parserExpect _))

mutual

theorem keeps_parseStatement : ∀ s : Statement, Keeps (parseStatement s)
  | .plain steps => by
    rw [parseStatement]
    exact keeps_runSteps steps
  | .typedefName steps name kind fullType => by
    rw [parseStatement]
    exact (keeps_runSteps steps).andThen (keeps_registerTypedef name kind fullType)
  | .behind steps statement => by
    rw [parseStatement]
    exact (keeps_runSteps steps).andThen (keeps_parseStatement statement)
  | .block statements => by
    rw [parseStatement]
    exact keeps_parseBlock (keeps_parseStatements statements)
  | .ifThen condition thenPart => by
    rw [parseStatement]
    apply keeps_parseIfStatement (keeps_runSteps condition) (keeps_parseStatement thenPart)
    exact keeps_pure
  | .ifElse condition thenPart elsePart => by
    rw [parseStatement]
    apply keeps_parseIfStatement (keeps_runSteps condition) (keeps_parseStatement thenPart)
    exact keeps_nextToken.andThen (keeps_parseStatement elsePart)
  | .whileLoop condition body => by
    rw [parseStatement]
    exact keeps_parseWhileStatement (keeps_runSteps condition) (keeps_parseStatement body)
  | .doWhile body condition => by
    rw [parseStatement]
    exact keeps_parseDoWhileStatement (keeps_runSteps condition) (keeps_parseStatement body)
  | .forLoop init condition update body => by
    rw [parseStatement]
    exact keeps_parseForStatement (keeps_runSteps condition) (keeps_parseStatement body)
      (keeps_parseStatement init) (keeps_runSteps update)
  | .switch selector body => by
    rw [parseStatement]
    exact keeps_parseSwitchStatement (keeps_runSteps selector) (keeps_parseStatement body)
  | .caseSection value body => by
    rw [parseStatement]
    exact keeps_parseCaseSection (keeps_runSteps value) (keeps_parseStatement body)
  | .defaultSection body => by
    rw [parseStatement]
    exact keeps_parseDefaultSection (keeps_parseStatement body)
  | .breakJump => by
    rw [parseStatement]
    exact keeps_parseBreak
  | .continueJump => by
    rw [parseStatement]
    exact keeps_parseContinue

theorem keeps_parseStatements : ∀ l : List Statement, Keeps (parseStatements l)
  | [] => by
    rw [parseStatements]
    exact keeps_pure
  | statement :: statements => by
    rw [parseStatements]
    exact (keeps_parseStatement statement).andThen (keeps_parseStatements statements)

end

/-! ### External declarations -/

structure AtFileScope (p : Parser) : Prop where
  scopeDepth : p.scopeDepth = 0
  loopDepth : p.loopDepth = 0
  switchDepth : p.switchDepth = 0
  currentFuncName : p.currentFuncName = none
  currentFuncIsVariadic : p.currentFuncIsVariadic = false

/-- Between two external declarations, when nothing has stayed behind. -/
structure FileScope (p : Parser) : Prop extends AtFileScope p where
  typedefs : ∀ e ∈ p.typedefs, e.scopeDepth = 0

/-- The steps of the declaration outside a function body. -/
def ExternalDeclaration.steps : ExternalDeclaration → List Step
  | .declaration steps => steps
  | .typedefName steps _ _ _ => steps
  | .definition header _ _ _ => header

/-- The error is not in a function body. -/
def ExternalDeclaration.OutsideBody (p : Parser) : ExternalDeclaration → Prop
  | .definition header _ _ _ => Raises (runSteps header) p
  | _ => True

/-- No row is put into a table by the steps, as far as they get. -/
def RecordsNothing : List Step → Parser → Prop
  | [], _ => True
  | step :: steps, p => step.records = false ∧ ∀ q, step.run p = .ok () q → RecordsNothing steps q

section Declarations

variable {p q r : Parser}

theorem FileScope.bounded (scope : FileScope p) : p.Bounded := by
  intro e mem
  rw [scope.typedefs e mem]
  exact Nat.zero_le _

theorem Balanced.atFileScope (balanced : Balanced p q) (scope : AtFileScope p) : AtFileScope q where
  scopeDepth := balanced.scopeDepth.trans scope.scopeDepth
  loopDepth := balanced.loopDepth.trans scope.loopDepth
  switchDepth := balanced.switchDepth.trans scope.switchDepth
  currentFuncName := balanced.function.1.trans scope.currentFuncName
  currentFuncIsVariadic := balanced.function.2.trans scope.currentFuncIsVariadic

theorem Balanced.fileScope (balanced : Balanced p q) (scope : FileScope p) : FileScope q := by
  refine ⟨balanced.atFileScope scope.toAtFileScope, ?_⟩
  obtain ⟨new, typedefs, depths⟩ := balanced.typedefs
  rw [typedefs, List.forall_mem_append]
  rw [scope.scopeDepth] at depths
  exact ⟨scope.typedefs, depths⟩

/-- Behind its body the function is left; an error in the body leaves the parser in it. -/
theorem ends_parseFunctionBody (name : Text) (isVariadic : Bool) {body : Parse Unit}
    (body_keeps : Keeps body) (bounded : p.Bounded) :
    Ends (parseFunctionBody name isVariadic body) p (fun _ => Balanced p)
      fun _ q => q.currentFuncName = some name := by
  simp only [parseFunctionBody, ends_bind, ends_get, ends_modify]
  let entered : Parser :=
    { p with currentFuncIsVariadic := isVariadic, currentFuncName := some name }
  have inside := keeps_parseBlock body_keeps entered bounded
  refine inside.mono (fun {_ q} balanced => ?_) fun {_ q} same => same.1
  exact ⟨⟨rfl, rfl⟩, balanced.scopeDepth, balanced.loopDepth, balanced.switchDepth,
    balanced.typedefs⟩

/-- A declaration that is parsed to its end leaves the parser at file scope. -/
theorem balanced_parseExternalDeclaration (d : ExternalDeclaration) (bounded : p.Bounded) :
    Ends (parseExternalDeclaration d) p (fun _ => Balanced p) fun _ _ => True := by
  cases d with
  | declaration steps => exact (keeps_runSteps steps p bounded).mono id fun _ => trivial
  | typedefName steps name kind fullType =>
    have keeps := (keeps_runSteps steps).andThen (keeps_registerTypedef name kind fullType)
    exact (keeps p bounded).mono id fun _ => trivial
  | definition header name isVariadic body =>
    simp only [parseExternalDeclaration, ends_bind]
    refine (keeps_runSteps header p bounded).mono (fun {_ q} first => ?_) fun _ => trivial
    have second := ends_parseFunctionBody name isVariadic (keeps_parseStatements body)
      (first.bounded bounded)
    exact second.mono first.trans fun _ => trivial

theorem registerTypedef_raises (name : Text) (kind : TypeKind) (fullType : Option CType)
    (p : Parser) :
    Ends (parserRegisterTypedef name kind fullType) p (fun _ _ => True) fun _ q => q = p := by
  simp only [parserRegisterTypedef, ends_bind, ends_get]
  split
  · rfl
  · trivial

/-- At an error outside a function body the parser is where the steps have ended. -/
theorem failed_outside {d : ExternalDeclaration} {text : String} {P : Parser → Prop}
    (failed : parseExternalDeclaration d p = .error text q) (outside : d.OutsideBody p)
    (ends : Ends (runSteps d.steps) p (fun _ => P) fun _ => P) : P q := by
  cases d with
  | declaration steps => exact ends.of_error failed
  | typedefName steps name kind fullType =>
    have whole : Ends (parseExternalDeclaration (.typedefName steps name kind fullType)) p
        (fun _ _ => True) fun _ => P := by
      simp only [parseExternalDeclaration, ends_bind]
      refine Ends.mono ends (fun {_ q'} holds => ?_) id
      refine (registerTypedef_raises name kind fullType q').mono id fun same => ?_
      rw [same]
      exact holds
    exact whole.of_error failed
  | definition header name isVariadic body =>
    obtain ⟨e, q', raised⟩ := raises_iff.mp outside
    have same : parseExternalDeclaration (.definition header name isVariadic body) p =
        .error e q' := bind_of_error raised
    cases same.symm.trans failed
    exact ends.of_error raised

/-- At an error in a function body the parser is in the function. -/
theorem failed_inside {d : ExternalDeclaration} {text : String} (bounded : p.Bounded)
    (failed : parseExternalDeclaration d p = .error text q) (inside : ¬ d.OutsideBody p) :
    q.currentFuncName ≠ none := by
  cases d with
  | declaration steps => exact absurd trivial inside
  | typedefName steps name kind fullType => exact absurd trivial inside
  | definition header name isVariadic body =>
    cases run : runSteps header p with
    | error e q' => exact absurd (raises_iff.mpr ⟨e, q', run⟩) inside
    | ok _ q' =>
      have header_end : Balanced p q' := (keeps_runSteps header p bounded).of_ok run
      have body_end := ends_parseFunctionBody name isVariadic (keeps_parseStatements body)
        (header_end.bounded bounded)
      have same : parseFunctionBody name isVariadic (parseStatements body) q' = .error text q :=
        (bind_of_ok run).symm.trans failed
      rw [body_end.of_error same]
      simp

theorem entries_step (step : Step) (p : Parser) :
    Ends step.run p
      (fun _ q => p.entries <+: q.entries ∧ (q.entries = p.entries ↔ step.records = false))
      fun _ q => q.entries = p.entries ∧ step.records = false := by
  cases silent : step.records with
  | false =>
    refine (moved_step silent p).mono (fun {_ q} moved => ?_) fun {_ q} moved => ?_
    · rw [moved]
      simp
    · rw [moved]
      simp
  | true =>
    cases step with
    | record entry =>
      change p.entries <+: p.entries ++ [entry] ∧ (p.entries ++ [entry] = p.entries ↔ _)
      simp
    | _ => cases silent

/-- The tables are as before exactly when the steps record nothing. -/
theorem entries_runSteps (steps : List Step) (p : Parser) :
    Ends (runSteps steps) p
      (fun _ q => p.entries <+: q.entries ∧ (q.entries = p.entries ↔ RecordsNothing steps p))
      fun _ q => p.entries <+: q.entries ∧ (q.entries = p.entries ↔ RecordsNothing steps p) := by
  induction steps generalizing p with
  | nil => simp [runSteps, RecordsNothing]
  | cons step steps ih =>
    simp only [runSteps, ends_bind, RecordsNothing]
    have first := entries_step step p
    cases run : step.run p with
    | error e q =>
      obtain ⟨same, silent⟩ := first.of_error run
      rw [ends_of_error run, same]
      simp [silent]
    | ok _ q =>
      obtain ⟨grown, step_iff⟩ := first.of_ok run
      rw [ends_of_ok run, ← step_iff]
      simp only [EStateM.Result.ok.injEq, true_and, forall_eq']
      have whole : ∀ {r : Parser},
          q.entries <+: r.entries ∧ (r.entries = q.entries ↔ RecordsNothing steps q) →
          p.entries <+: r.entries ∧
            (r.entries = p.entries ↔ q.entries = p.entries ∧ RecordsNothing steps q) := by
        intro r later
        obtain ⟨grown', rest_iff⟩ := later
        refine ⟨grown.trans grown', ?_⟩
        constructor
        · intro same
          have between : q.entries = p.entries :=
            (same ▸ grown').eq_of_length_le grown.length_le
          exact ⟨between, rest_iff.mp (same.trans between.symm)⟩
        · intro both
          exact (rest_iff.mpr both.2).trans both.1
      exact (ih q).mono whole whole

/-! ### Recovery -/

theorem moved_parserSyncLoop (n depth : Nat) (p : Parser) :
    Ends (parserSyncLoop n depth) p (fun _ => Moved p) fun _ => Moved p := by
  induction n generalizing depth p with
  | zero => exact Moved.refl p
  | succ n ih =>
    simp only [parserSyncLoop, ends_bind, ends_get]
    split
    · exact Moved.refl p
    · rw [ends_bind]
      refine (moved_nextToken p).mono (fun {_ q} moved => ?_) id
      split
      · exact moved
      · exact (ih _ q).mono moved.trans moved.trans

/-- The tokens in front of the end of the source. -/
def Parser.tokensLeft (p : Parser) : Nat :=
  (if p.current.type = .eof then 0 else 1) + p.tokens.countP Except.isOk

theorem left_nextToken (inside : p.current.type ≠ .eof) :
    Ends nextToken p
      (fun _ q => q.tokensLeft < p.tokensLeft ∧ q.tokens.length ≤ p.tokens.length)
      fun _ q => q.current = p.current ∧ q.tokensLeft = p.tokensLeft ∧
        q.tokens.length < p.tokens.length := by
  unfold Ends nextToken
  cases tokens : p.tokens with
  | nil => simp [Parser.tokensLeft, tokens, inside]
  | cons outcome rest =>
    cases outcome with
    | error text => simp [Parser.tokensLeft, tokens, Except.isOk, Except.toBool]
    | ok current =>
      have counted : (Except.ok current :: rest).countP Except.isOk =
          rest.countP Except.isOk + 1 := List.countP_cons_of_pos rfl
      simp only [Parser.tokensLeft, tokens, counted, inside, if_false, List.length_cons]
      constructor
      · split <;> omega
      · omega

theorem left_round {n depth : Nat} (inside : p.current.type ≠ .eof)
    (rest : ∀ depth q, Ends (parserSyncLoop n depth) q (fun _ r => r.tokensLeft ≤ q.tokensLeft)
      fun _ r => r.current.type ≠ .eof ∧ r.tokensLeft ≤ q.tokensLeft ∧
        r.tokens.length < q.tokens.length) :
    Ends (parserSyncLoop (n + 1) depth) p (fun _ r => r.tokensLeft < p.tokensLeft)
      fun _ r => r.current.type ≠ .eof ∧ r.tokensLeft ≤ p.tokensLeft ∧
        r.tokens.length < p.tokens.length := by
  rw [parserSyncLoop]
  simp only [ends_bind, ends_get]
  rw [if_neg inside, ends_bind]
  refine (left_nextToken inside).mono (fun {_ q} taken => ?_) fun {_ q} raised => ?_
  · obtain ⟨fewer, shorter⟩ := taken
    split
    · exact fewer
    · refine (rest _ q).mono (fun {_ r} left => ?_) fun {_ r} later => ?_
      · exact Nat.lt_of_le_of_lt left fewer
      · obtain ⟨inside', left, shorter'⟩ := later
        exact ⟨inside', Nat.le_trans left (Nat.le_of_lt fewer), Nat.lt_of_lt_of_le shorter' shorter⟩
  · obtain ⟨same, left, shorter⟩ := raised
    rw [same]
    exact ⟨inside, Nat.le_of_eq left, shorter⟩

theorem left_parserSyncLoop (n depth : Nat) (p : Parser) :
    Ends (parserSyncLoop n depth) p (fun _ r => r.tokensLeft ≤ p.tokensLeft)
      fun _ r => r.current.type ≠ .eof ∧ r.tokensLeft ≤ p.tokensLeft ∧
        r.tokens.length < p.tokens.length := by
  induction n generalizing depth p with
  | zero => exact Nat.le_refl _
  | succ n ih =>
    by_cases inside : p.current.type = .eof
    · rw [parserSyncLoop]
      simp only [ends_bind, ends_get]
      rw [if_pos inside]
      exact Nat.le_refl _
    · exact (left_round inside ih).mono Nat.le_of_lt id

/-- `parser_sync` takes a token when there is one. -/
theorem left_parserSync (inside : p.current.type ≠ .eof) :
    Ends parserSync p (fun _ r => r.tokensLeft < p.tokensLeft)
      fun _ r => r.current.type ≠ .eof ∧ r.tokensLeft ≤ p.tokensLeft ∧
        r.tokens.length < p.tokens.length := by
  simp only [parserSync, ends_bind, ends_get]
  exact left_round inside (left_parserSyncLoop _)

theorem parserSyncLoop_end {n depth : Nat} (ended : p.current.type = .eof) :
    parserSyncLoop n depth p = .ok () p := by
  cases n with
  | zero => rfl
  | succ n =>
    rw [parserSyncLoop]
    have start : (get : Parse Parser) p = .ok p p := rfl
    rw [bind_of_ok start, if_pos ended]
    rfl

theorem parserSync_end (ended : p.current.type = .eof) : parserSync p = .ok () p := by
  have start : (get : Parse Parser) p = .ok p p := rfl
  rw [parserSync, bind_of_ok start, parserSyncLoop_end ended]

/-- The rounds of `parser_sync` do not run out. -/
theorem parserSyncLoop_enough {n depth : Nat} (enough : p.tokens.length + 2 ≤ n) :
    parserSyncLoop (n + 1) depth p = parserSyncLoop n depth p := by
  induction n generalizing depth p with
  | zero => omega
  | succ n ih =>
    by_cases ended : p.current.type = .eof
    · rw [parserSyncLoop_end ended, parserSyncLoop_end ended]
    have start : (get : Parse Parser) p = .ok p p := rfl
    rw [parserSyncLoop, bind_of_ok start, if_neg ended, parserSyncLoop, bind_of_ok start,
      if_neg ended]
    cases run : nextToken p with
    | error e q => rw [bind_of_error run, bind_of_error run]
    | ok _ q =>
      rw [bind_of_ok run, bind_of_ok run]
      cases syncDepth depth p.current.type with
      | none => rfl
      | some depth =>
        dsimp only
        unfold nextToken at run
        cases tokens : p.tokens with
        | nil =>
          rw [tokens] at run
          cases run
          rw [parserSyncLoop_end rfl, parserSyncLoop_end rfl]
        | cons outcome rest =>
          rw [tokens] at run enough
          cases outcome with
          | error text => cases run
          | ok current =>
            cases run
            exact ih (by simpa using enough)

theorem moved_parserSync (p : Parser) :
    Ends parserSync p (fun _ => Moved p) fun _ => Moved p := by
  simp only [parserSync, ends_bind, ends_get]
  exact moved_parserSyncLoop _ _ p

/-- What the handler puts back is the depth of scopes. -/
theorem moved_recover {maxErrors rounds count count' : Nat} {failed after : Parser}
    (caught : recover maxErrors rounds count failed = some (count', after)) :
    Moved { failed with scopeDepth := 0 } after := by
  induction rounds generalizing count failed with
  | zero => cases caught
  | succ n ih =>
    rw [recover] at caught
    split at caught
    · cases caught
    have sync := moved_parserSync { failed with scopeDepth := 0 }
    split at caught
    · rename_i run
      cases caught
      exact sync.of_ok run
    · rename_i run
      have moved := sync.of_error run
      have again := ih caught
      rw [Moved] at moved again ⊢
      rw [again, moved]

theorem left_recover {maxErrors rounds count count' : Nat} {failed after : Parser}
    (caught : recover maxErrors rounds count failed = some (count', after))
    (inside : failed.current.type ≠ .eof) : after.tokensLeft < failed.tokensLeft := by
  induction rounds generalizing count failed with
  | zero => cases caught
  | succ n ih =>
    rw [recover] at caught
    split at caught
    · cases caught
    have sync : Ends parserSync { failed with scopeDepth := 0 } _ _ := left_parserSync inside
    split at caught
    · rename_i run
      cases caught
      exact sync.of_ok run
    · rename_i run
      obtain ⟨inside', left, -⟩ := sync.of_error run
      exact Nat.lt_of_lt_of_le (ih caught inside') left

/-- Without a limit on the errors parsing always goes on. -/
theorem recover_unlimited {rounds count : Nat} {failed : Parser}
    (enough : failed.tokens.length < rounds) : (recover 0 rounds count failed).isSome := by
  induction rounds generalizing count failed with
  | zero => omega
  | succ n ih =>
    have more : doCompileError 0 count = some (count + 1) := by simp [doCompileError]
    rw [recover, more]
    dsimp only
    split
    · rfl
    · rename_i e failed' run
      by_cases inside : failed.current.type = .eof
      · cases (parserSync_end (p := { failed with scopeDepth := 0 }) inside).symm.trans run
      · have sync : Ends parserSync { failed with scopeDepth := 0 } _ _ := left_parserSync inside
        have shorter : failed'.tokens.length < failed.tokens.length := (sync.of_error run).2.2
        exact ih (by omega)

end Declarations

/-! ### Runs -/

namespace Recovery

variable (maxErrors : Nat) (r : Recovery)

/-- The error is raised in the declaration, and caught. -/
def Happens : Prop :=
  ∃ text count count',
    parseExternalDeclaration r.declaration r.before = .error text r.failed ∧
      recover maxErrors (r.failed.tokens.length + 1) count r.failed = some (count', r.after)

/-- Parsing goes on at file scope, with the typedef names from before the declaration. -/
def BackAtFileScope : Prop := AtFileScope r.after ∧ r.after.typedefs = r.before.typedefs

/-- All that follows is parsed as in a source without the declaration. -/
def Undone : Prop :=
  ∀ later count, parseTranslationUnit maxErrors later count r.after =
    parseTranslationUnit maxErrors later count
      { r.before with current := r.after.current, tokens := r.after.tokens }

/-- `parser_sync` takes a token, except at the end of the source. -/
def TakesToken : Prop :=
  r.failed.current.type = .eof ∨ r.after.tokensLeft < r.failed.tokensLeft

def OutsideBody : Prop := r.declaration.OutsideBody r.before

def RecordsNothing : Prop := Statements.RecordsNothing r.declaration.steps r.before

variable {maxErrors} {r}

theorem undone_iff : r.Undone maxErrors ↔ Moved r.before r.after := by
  constructor
  · intro undone
    have finish := congrArg UnitRun.finish (undone [] 0)
    simp only [parseTranslationUnit, Option.some.injEq] at finish
    exact finish
  · intro moved later count
    rw [← show r.after = _ from moved]

theorem Happens.takesToken (happens : r.Happens maxErrors) : r.TakesToken := by
  obtain ⟨_, _, _, -, caught⟩ := happens
  by_cases ended : r.failed.current.type = .eof
  · exact .inl ended
  · exact .inr (left_recover caught ended)

/-- An error outside a function body leaves the rows in the tables and nothing else. -/
theorem Happens.outside (happens : r.Happens maxErrors) (scope : FileScope r.before)
    (outside : r.OutsideBody) :
    Recorded r.before r.after ∧ (r.after.entries = r.before.entries ↔ r.RecordsNothing) := by
  obtain ⟨_, _, _, failed, caught⟩ := happens
  have recorded : Recorded r.before r.failed :=
    failed_outside failed outside (recorded_runSteps _ _)
  have entries := failed_outside failed outside (entries_runSteps _ _)
  have depth : r.failed.scopeDepth = 0 := by
    rw [recorded]
    exact scope.scopeDepth
  have moved : Moved r.failed r.after := by
    have reset := moved_recover caught
    rwa [← depth] at reset
  have same : r.after.entries = r.failed.entries := by rw [moved]
  rw [same]
  exact ⟨recorded.trans moved.recorded, entries.2⟩

theorem Happens.back_iff (happens : r.Happens maxErrors) (scope : FileScope r.before) :
    r.BackAtFileScope ↔ r.OutsideBody := by
  constructor
  · intro back
    by_contra inside
    obtain ⟨_, _, _, failed, caught⟩ := happens
    have kept : r.after.currentFuncName = r.failed.currentFuncName := by
      rw [moved_recover caught]
    exact failed_inside scope.bounded failed inside (kept.symm.trans back.1.currentFuncName)
  · intro outside
    have recorded := (happens.outside scope outside).1
    refine ⟨recorded.balanced.atFileScope scope.toAtFileScope, ?_⟩
    rw [recorded]

theorem Happens.undone_iff (happens : r.Happens maxErrors) (scope : FileScope r.before) :
    r.BackAtFileScope ∧ r.Undone maxErrors ↔ r.OutsideBody ∧ r.RecordsNothing := by
  rw [happens.back_iff scope, Recovery.undone_iff]
  refine and_congr_right fun outside => ?_
  obtain ⟨recorded, entries⟩ := happens.outside scope outside
  rw [← entries]
  constructor
  · intro moved
    rw [moved]
  · intro same
    rw [Recorded, same] at recorded
    exact recorded

theorem BackAtFileScope.fileScope (back : r.BackAtFileScope) (scope : FileScope r.before) :
    FileScope r.after := by
  refine ⟨back.1, ?_⟩
  rw [back.2]
  exact scope.typedefs

end Recovery

theorem fileScope_parserInit (current : Token) (tokens : List (Except String Token)) :
    FileScope (parserInit current tokens) := by
  refine ⟨⟨rfl, rfl, rfl, rfl, rfl⟩, ?_⟩
  simp [parserInit]

/-- What is equivalent for an error in a declaration at file scope, and leads back there, is
equivalent for all errors of a run. -/
theorem recoveries_iff {maxErrors : Nat} {P C : Recovery → Prop}
    (each : ∀ r : Recovery, r.Happens maxErrors → FileScope r.before → (P r ↔ C r))
    (back : ∀ r : Recovery, P r → r.BackAtFileScope) (declarations : List ExternalDeclaration)
    {count : Nat} {p : Parser} (scope : FileScope p) :
    (∀ r ∈ (parseTranslationUnit maxErrors declarations count p).recoveries, P r) ↔
      ∀ r ∈ (parseTranslationUnit maxErrors declarations count p).recoveries, C r := by
  induction declarations generalizing count p with
  | nil => simp [parseTranslationUnit]
  | cons d declarations ih =>
    rw [parseTranslationUnit]
    split
    · simp
    split
    · rename_i run
      exact ih (((balanced_parseExternalDeclaration d scope.bounded).of_ok run).fileScope scope)
    rename_i text failed run
    split
    · simp
    rename_i count' after caught
    have happens : Recovery.Happens maxErrors ⟨d, p, failed, after⟩ := ⟨_, _, _, run, caught⟩
    have first := each _ happens scope
    simp only [List.forall_mem_cons, ← first]
    exact and_congr_right fun holds => ih ((back _ holds).fileScope scope)

/-- The errors that are caught in a run of the parser over a source. -/
def caughtErrors (maxErrors : Nat) (declarations : List ExternalDeclaration) (current : Token)
    (tokens : List (Except String Token)) : List Recovery :=
  (parseTranslationUnit maxErrors declarations 0 (parserInit current tokens)).recoveries

/-- Errors are recovered from exactly when none of them is in a function body; and what follows is
parsed as without the faulty declarations exactly when these have put nothing into a table. -/
theorem caughtErrors_undone_iff (maxErrors : Nat) (declarations : List ExternalDeclaration)
    (current : Token) (tokens : List (Except String Token)) :
    ((∀ r ∈ caughtErrors maxErrors declarations current tokens, r.BackAtFileScope ∧ r.TakesToken) ↔
      ∀ r ∈ caughtErrors maxErrors declarations current tokens, r.OutsideBody) ∧
    ((∀ r ∈ caughtErrors maxErrors declarations current tokens,
        (r.BackAtFileScope ∧ r.Undone maxErrors) ∧ r.TakesToken) ↔
      ∀ r ∈ caughtErrors maxErrors declarations current tokens,
        r.OutsideBody ∧ r.RecordsNothing) := by
  have start := fileScope_parserInit current tokens
  constructor
  · refine recoveries_iff (fun r happens scope => ?_) (fun r holds => holds.1) declarations start
    rw [happens.back_iff scope]
    exact and_iff_left happens.takesToken
  · refine recoveries_iff (fun r happens scope => ?_) (fun r holds => holds.1.1) declarations start
    rw [happens.undone_iff scope]
    exact and_iff_left happens.takesToken

/-- The calls of the lexer up to the end of the source; an error ends them here. -/
def lexerCalls : Nat → Lexer → List (Except String Token)
  | 0, _ => []
  | n + 1, l =>
    match lexerNextToken l with
    | .error text => [.error text]
    | .ok (t, l) => if t.type = .eof then [] else .ok t :: lexerCalls n l

/-- `void f(void) { while (1) { ) } } void g(void) { break; }`, behind its first token -/
def brokenLoop : List (Except String Token) :=
  lexerCalls 30 (lexerInit (" f(void) \x7b while (1) \x7b ) \x7d \x7d " ++
    "void g(void) \x7b break; \x7d").toList none)

def voidFunction (name : String) (body : List Statement) : ExternalDeclaration :=
  .definition
    [.next, .next, .expect .lparen, .next, .expect .rparen, .record (.function name.toList)]
    name.toList false body

/-- The error in the loop is followed by one at the brace that closes `f`. -/
def brokenLoopRun : List ExternalDeclaration :=
  [voidFunction "f"
      [.whileLoop [.next] (.block [.plain [.fail "error: expected expression, got ')'"]])],
    .declaration [.fail "error: expected type specifier"],
    voidFunction "g" [.breakJump]]

/-- The loop stays open, and the `break` outside all loops is accepted. -/
theorem loop_stays_open :
    ¬ ∀ (maxErrors : Nat) (declarations : List ExternalDeclaration) (current : Token)
      (tokens : List (Except String Token)),
      ∀ r ∈ caughtErrors maxErrors declarations current tokens,
        (r.BackAtFileScope ∧ r.Undone maxErrors) ∧ r.TakesToken := by
  intro claim
  let start : Token := { type := .void, value := "void".toList, position := ⟨1, 1, none⟩ }
  have depths : ((caughtErrors 0 brokenLoopRun start brokenLoop).map
      fun r => r.after.loopDepth) = [1, 1] := by decide +kernel
  have open_loop : 1 ∈ (caughtErrors 0 brokenLoopRun start brokenLoop).map
      fun r => r.after.loopDepth := by simp [depths]
  obtain ⟨r, mem, depth⟩ := List.mem_map.mp open_loop
  have closed := (claim 0 brokenLoopRun start brokenLoop r mem).1.1.1.loopDepth
  omega

end ClaudeC99.Statements
