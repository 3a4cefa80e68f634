import ClaudeC99.Declarators.Written
import ClaudeC99.Lib.StateExcept

/-! What the parser reads from written declarators. -/

namespace ClaudeC99.Declarators

open Front (TokenType ParsedDeclarator pointers)

@[simp] theorem tok_type (type : TokenType) : (tok type).type = type := rfl

@[simp] theorem current_cons (t : DeclToken) (ts : Tokens) : current (t :: ts) = t.type := rfl

theorem current_append {ts us : Tokens} (nonempty : ts ≠ []) : current (ts ++ us) = current ts := by
  cases ts with
  | nil => exact absurd rfl nonempty
  | cons t ts => rfl

theorem skipQualifiers_append (q : Qualifiers) (ts : Tokens) :
    skipQualifiers (q.tokens ++ ts) = skipQualifiers ts := by
  rw [skipQualifiers, List.dropWhile_append_of_pos q.all]
  rfl

theorem skipQualifiers_of_not {ts : Tokens} (other : isQualifier (current ts) = false) :
    skipQualifiers ts = ts := by
  cases ts with
  | nil => rfl
  | cons t ts =>
    change isQualifier t.type = false at other
    rw [skipQualifiers, List.dropWhile_cons, other]
    rfl

theorem starLoop_of_not {ts : Tokens} (star : current ts ≠ .star)
    (other : isQualifier (current ts) = false) : starLoop ts = (0, false, ts) := by
  cases ts with
  | nil => rfl
  | cons t ts =>
    change t.type ≠ .star at star
    change isQualifier t.type = false at other
    rw [starLoop, if_neg star, other]
    rfl

theorem starLoop_qualifiers (ts : Tokens) : ∀ qs : Tokens, (∀ t ∈ qs, isQualifier t.type = true) →
    (starLoop (qs ++ ts)).1 = (starLoop ts).1 ∧ (starLoop (qs ++ ts)).2.2 = (starLoop ts).2.2
  | [], _ => ⟨rfl, rfl⟩
  | q :: qs, all => by
    have here : isQualifier q.type = true := all q List.mem_cons_self
    have noStar : q.type ≠ .star := by
      intro star
      rw [star] at here
      cases here
    have rest := starLoop_qualifiers ts qs fun t mem => all t (List.mem_cons_of_mem _ mem)
    rw [List.cons_append, starLoop, if_neg noStar, here]
    exact rest

theorem starLoop_spell {ts : Tokens} (star : current ts ≠ .star)
    (other : isQualifier (current ts) = false) : ∀ ss : List Qualifiers,
    (starLoop (spellStars ss ++ ts)).1 = ss.length ∧ (starLoop (spellStars ss ++ ts)).2.2 = ts
  | [] => by
    change (starLoop ts).1 = 0 ∧ (starLoop ts).2.2 = ts
    rw [starLoop_of_not star other]
    exact ⟨rfl, rfl⟩
  | q :: ss => by
    have rest := starLoop_spell star other ss
    have skipped := starLoop_qualifiers (spellStars ss ++ ts) q.tokens q.all
    have spelled : spellStars (q :: ss) ++ ts =
        tok .star :: (q.tokens ++ (spellStars ss ++ ts)) := by
      simp [spellStars]
    rw [spelled, starLoop, if_pos (tok_type .star)]
    exact ⟨congrArg (· + 1) (skipped.1.trans rest.1), skipped.2.trans rest.2⟩

/-- Stars in front of anything else are read as they are written. -/
theorem stars_spell (ss : List Qualifiers) {ts : Tokens} (star : current ts ≠ .star)
    (other : isQualifier (current ts) = false) :
    ∃ isConst, stars (spellStars ss ++ ts) = (ss.length, isConst, ts) := by
  cases ss with
  | nil => exact ⟨false, by rw [stars]; exact if_neg star⟩
  | cons q ss =>
    have loop := starLoop_spell star other (q :: ss)
    have front : current (spellStars (q :: ss) ++ ts) = .star := rfl
    rw [stars, if_pos front]
    exact ⟨_, Prod.ext loop.1 (Prod.ext rfl loop.2)⟩

theorem plainStars_spell {ts : Tokens} (star : current ts ≠ .star) :
    ∀ n : Nat, plainStars (spellPlainStars n ++ ts) = (n, ts)
  | 0 => by
    cases ts with
    | nil => rfl
    | cons t ts => exact if_neg star
  | n + 1 => by
    change plainStars (tok .star :: (spellPlainStars n ++ ts)) = _
    rw [plainStars, if_pos (tok_type .star), plainStars_spell star n]

theorem Specifier.current_ne (s : Specifier) {type : TokenType}
    (other : startsSpecifier type = false) : s.token.type ≠ type := by
  intro same
  have starts := s.starts
  rw [same, other] at starts
  cases starts

theorem Specifier.not_qualifier (s : Specifier) : isQualifier s.token.type = false := by
  have starts := s.starts
  cases known : s.token.type <;> rw [known] at starts <;> first | rfl | cases starts

theorem parseTypeSpecifier_cons (s : Specifier) (ts : Tokens) :
    parseTypeSpecifier (s.token :: ts) = .ok (s.type, ts) := by
  simp only [parseTypeSpecifier, s.reads]

/-! #### Parameters inside declarators -/

theorem arraySuffixes_text {ts : Tokens} : ∀ text : Tokens, (∀ t ∈ text, t.type ≠ .rbracket) →
    arraySuffixes true (text ++ tok .rbracket :: ts) = arraySuffixes false ts
  | [], _ => rfl
  | t :: text, unclosed => by
    have here : decide (t.type ≠ .rbracket) = true := decide_eq_true (unclosed t List.mem_cons_self)
    rw [List.cons_append, arraySuffixes, here]
    exact arraySuffixes_text text fun u mem => unclosed u (List.mem_cons_of_mem _ mem)

theorem arraySuffixes_spell {ts : Tokens} (bracket : current ts ≠ .lbracket) :
    ∀ dims : List InnerDimension,
      arraySuffixes false (dims.flatMap InnerDimension.spell ++ ts) = (dims.length, ts)
  | [] => by
    cases ts with
    | nil => rfl
    | cons t ts => exact if_neg bracket
  | dim :: dims => by
    have rest := arraySuffixes_spell bracket dims
    rw [List.flatMap_cons, InnerDimension.spell, List.append_assoc, List.cons_append,
      arraySuffixes, if_pos (tok_type .lbracket), List.append_assoc, List.singleton_append,
      arraySuffixes_text dim.text dim.unclosed, rest]
    rfl

namespace InnerParameter

/-- The type that `parse_declarator` stores: one star for each dimension. -/
def read (p : InnerParameter) : CType := pointers p.specifier.type (p.stars + p.dims.length)

theorem fpParameter_spell (p : InnerParameter) (ts : Tokens)
    (stop : current ts = .comma ∨ current ts = .rparen) :
    fpParameter (p.spell ++ ts) = .ok (p.read, ts) := by
  have bracket : current ts ≠ .lbracket := by rcases stop with c | c <;> rw [c] <;> decide
  have suffixes := arraySuffixes_spell bracket p.dims
  have identifier : current (p.dims.flatMap InnerDimension.spell ++ ts) ≠ .identifier ∧
      current (p.dims.flatMap InnerDimension.spell ++ ts) ≠ .star ∧
      isQualifier (current (p.dims.flatMap InnerDimension.spell ++ ts)) = false := by
    cases p.dims with
    | nil =>
      change current ts ≠ _ ∧ current ts ≠ _ ∧ isQualifier (current ts) = false
      rcases stop with c | c <;> rw [c] <;> decide
    | cons dim dims =>
      change TokenType.lbracket ≠ _ ∧ TokenType.lbracket ≠ _ ∧ isQualifier .lbracket = false
      decide
  have named : ∀ us : Tokens, us = (p.name.map nameToken).toList ++
      (p.dims.flatMap InnerDimension.spell ++ ts) →
      (current us ≠ .star ∧ isQualifier (current us) = false) ∧
        (if current us = .identifier then us.tail else us) =
          p.dims.flatMap InnerDimension.spell ++ ts := by
    intro us same
    rw [same]
    cases p.name with
    | none => exact ⟨identifier.2, if_neg identifier.1⟩
    | some x =>
      have notStar : TokenType.identifier ≠ .star := by decide
      exact ⟨⟨notStar, rfl⟩, rfl⟩
  obtain ⟨behind, dims⟩ := named _ rfl
  have starred := plainStars_spell behind.1 p.stars
  have free : isQualifier (current (spellPlainStars p.stars ++ ((p.name.map nameToken).toList ++
      (p.dims.flatMap InnerDimension.spell ++ ts)))) = false := by
    cases p.stars with
    | zero => exact behind.2
    | succ n => rfl
  have spelled : p.spell ++ ts = p.before.tokens ++ (p.specifier.token :: (p.after.tokens ++
      (spellPlainStars p.stars ++ ((p.name.map nameToken).toList ++
        (p.dims.flatMap InnerDimension.spell ++ ts))))) := by
    simp [spell, List.append_assoc]
  have start : skipQualifiers (p.spell ++ ts) = p.specifier.token :: (p.after.tokens ++
      (spellPlainStars p.stars ++ ((p.name.map nameToken).toList ++
        (p.dims.flatMap InnerDimension.spell ++ ts)))) := by
    rw [spelled, skipQualifiers_append]
    exact skipQualifiers_of_not p.specifier.not_qualifier
  simp only [fpParameter, start, parseTypeSpecifier_cons, skipQualifiers_append,
    skipQualifiers_of_not free, starred, dims, suffixes, bind, Except.bind]
  rfl

theorem spell_append (p : InnerParameter) (ts : Tokens) : p.spell ++ ts =
    p.before.tokens ++ (p.specifier.token :: (p.after.tokens ++ (spellPlainStars p.stars ++
      ((p.name.map nameToken).toList ++ (p.dims.flatMap InnerDimension.spell ++ ts))))) := by
  simp [spell, List.append_assoc]

theorem current_qualifiers (q : Qualifiers) (ts : Tokens) (nonempty : q.tokens ≠ []) :
    isQualifier (current (q.tokens ++ ts)) = true := by
  rw [current_append nonempty]
  cases known : q.tokens with
  | nil => exact absurd known nonempty
  | cons t rest => exact q.all t (known ▸ List.mem_cons_self)

/-- What the test for `(void)` sees. -/
theorem void_iff (p : InnerParameter) (ts : Tokens) :
    (current (p.spell ++ ts) = .void ∧ current (p.spell ++ ts).tail = .rparen) ↔
      (p.isVoid = true ∧ p.specifier.token.type = .void) ∧ current ts = .rparen := by
  rw [spell_append]
  by_cases before : p.before.tokens = []
  · rw [before, List.nil_append]
    change p.specifier.token.type = .void ∧ current (p.after.tokens ++ _) = .rparen ↔ _
    by_cases after : p.after.tokens = []
    · rw [after, List.nil_append]
      have shape : p.isVoid = (p.specifier.type.kind = .void && p.stars = 0 && p.name.isNone &&
          p.dims.isEmpty : Bool) := by
        simp [isVoid, before, after]
      have kind : p.specifier.token.type = .void → p.specifier.type.kind = .void := by
        intro void
        rw [p.specifier.void void]
        rfl
      rw [shape]
      cases stars : p.stars with
      | succ n => simp [spellPlainStars, List.replicate_succ, current]
      | zero =>
        cases named : p.name with
        | some x => simp [spellPlainStars, nameToken, current]
        | none =>
          cases dims : p.dims with
          | cons dim dims => simp [spellPlainStars, InnerDimension.spell, current]
          | nil =>
            simp only [spellPlainStars, List.replicate_zero, Option.map_none, Option.toList_none,
              List.flatMap_nil, List.nil_append]
            grind
    · have qualifier := current_qualifiers p.after (spellPlainStars p.stars ++
        ((p.name.map nameToken).toList ++ (p.dims.flatMap InnerDimension.spell ++ ts))) after
      have plain : p.isVoid = false := by simp [isVoid, after]
      rw [plain]
      constructor
      · rintro ⟨_, close⟩
        rw [close] at qualifier
        cases qualifier
      · rintro ⟨⟨void, _⟩, _⟩
        cases void
  · have qualifier := current_qualifiers p.before (p.specifier.token :: (p.after.tokens ++
      (spellPlainStars p.stars ++ ((p.name.map nameToken).toList ++
        (p.dims.flatMap InnerDimension.spell ++ ts))))) before
    have plain : p.isVoid = false := by simp [isVoid, before]
    rw [plain]
    constructor
    · rintro ⟨void, _⟩
      rw [void] at qualifier
      cases qualifier
    · rintro ⟨⟨void, _⟩, _⟩
      cases void

theorem current_spell (p : InnerParameter) (ts : Tokens) : current (p.spell ++ ts) ≠ .rparen := by
  intro close
  rw [spell_append] at close
  by_cases before : p.before.tokens = []
  · rw [before] at close
    exact p.specifier.current_ne rfl close
  · have qualifier := (current_qualifiers p.before _ before).symm.trans (congrArg isQualifier close)
    cases qualifier

end InnerParameter

/-- What a list in a declarator is read as. -/
def readTypes : List InnerParameter → List CType
  | [p] => if p.isVoid = true ∧ p.specifier.token.type = .void then [] else [p.read]
  | ps => ps.map InnerParameter.read

theorem fpParameters_spell {us ts : Tokens} :
    ∀ (p : InnerParameter) (ps : List InnerParameter) (room : Nat) {types : List CType},
      fpParameters tooManyFpParams room (spellInnerParameters (p :: ps) ++ tok .rparen :: ts) =
        .ok (types, us) → types = (p :: ps).map InnerParameter.read ∧ us = tok .rparen :: ts
  | p, ps, 0, _, accepted => by cases accepted
  | p, [], room + 1, types, accepted => by
    have here := p.fpParameter_spell (tok .rparen :: ts) (.inr rfl)
    change fpParameters _ _ (p.spell ++ _) = _ at accepted
    rw [fpParameters, here] at accepted
    cases accepted
    exact ⟨rfl, rfl⟩
  | p, q :: qs, room + 1, types, accepted => by
    have here := p.fpParameter_spell
      (tok .comma :: (spellInnerParameters (q :: qs) ++ tok .rparen :: ts)) (.inl rfl)
    change fpParameters _ _ ((p.spell ++ tok .comma :: spellInnerParameters (q :: qs)) ++ _) = _
      at accepted
    rw [List.append_assoc, List.cons_append, fpParameters, here] at accepted
    have step : (fpParameters tooManyFpParams room
        (spellInnerParameters (q :: qs) ++ tok .rparen :: ts) >>= fun rest =>
          Except.ok (p.read :: rest.1, rest.2)) = .ok (types, us) := accepted
    obtain ⟨⟨rest, after⟩, read, same⟩ := StateExcept.bind_eq_ok.mp step
    have later := fpParameters_spell q qs room read
    cases same
    exact ⟨congrArg _ later.1, later.2⟩

theorem fpParameterList_spell {ps : List InnerParameter} {types : List CType} {empty : Bool}
    {ts us : Tokens}
    (accepted : fpParameterList tooManyFpParams (spellInnerParameters ps ++ tok .rparen :: ts) =
      .ok (types, empty, us)) : types = readTypes ps ∧ us = ts := by
  cases ps with
  | nil =>
    cases accepted
    exact ⟨rfl, rfl⟩
  | cons p ps =>
    have notClose : current (spellInnerParameters (p :: ps) ++ tok .rparen :: ts) ≠ .rparen := by
      cases ps with
      | nil => exact p.current_spell _
      | cons q qs =>
        rw [spellInnerParameters, List.append_assoc]
        · exact p.current_spell _
        · rintro ⟨⟩
    have general (single : ¬(current (spellInnerParameters (p :: ps) ++ tok .rparen :: ts) = .void ∧
          current (spellInnerParameters (p :: ps) ++ tok .rparen :: ts).tail = .rparen)) :
        types = (p :: ps).map InnerParameter.read ∧ us = ts := by
      rw [fpParameterList, if_neg single, if_neg notClose] at accepted
      obtain ⟨⟨read, behind⟩, list, accepted⟩ := StateExcept.bind_eq_ok.mp accepted
      obtain ⟨types', behind'⟩ := fpParameters_spell p ps _ list
      subst types' behind'
      cases accepted
      exact ⟨rfl, rfl⟩
    cases ps with
    | nil =>
      have seen := p.void_iff (tok .rparen :: ts)
      by_cases void : p.isVoid = true ∧ p.specifier.token.type = .void
      · rw [fpParameterList, spellInnerParameters, if_pos (seen.mpr ⟨void, rfl⟩)] at accepted
        have shape : (p.spell ++ tok .rparen :: ts).tail = tok .rparen :: ts := by
          rw [p.spell_append]
          have := void.1
          simp only [InnerParameter.isVoid, Bool.and_eq_true, List.isEmpty_iff, decide_eq_true_eq,
            Option.isNone_iff_eq_none] at this
          obtain ⟨⟨⟨⟨⟨before, _⟩, after⟩, stars⟩, name⟩, dims⟩ := this
          rw [before, after, stars, name, dims]
          rfl
        rw [shape] at accepted
        cases accepted
        exact ⟨(if_pos void).symm, rfl⟩
      · rw [readTypes, if_neg void]
        exact general fun single => void (seen.mp single).1
    | cons q qs =>
      apply general
      rw [spellInnerParameters, List.append_assoc]
      · intro single
        have behind := ((p.void_iff _).mp single).2
        cases behind
      · rintro ⟨⟩

/-! #### Declarators -/

theorem innerArray_spell {d d' : ParsedDeclarator} {array : Option (Option Nat)} {us ts : Tokens}
    (accepted : innerArray d (spellInnerArray array ++ tok .rparen :: ts) = .ok (d', us)) :
    (∃ hasSize length, d' = { d with
      isArray := d.isArray || array.isSome, hasSize := hasSize, arrayLength := length }) ∧
      us = tok .rparen :: ts := by
  cases array with
  | none =>
    cases accepted
    exact ⟨⟨d.hasSize, d.arrayLength, by simp⟩, rfl⟩
  | some bound =>
    cases bound with
    | none =>
      cases accepted
      exact ⟨⟨d.hasSize, d.arrayLength, by simp⟩, rfl⟩
    | some n =>
      change (Front.arrayDimension n >>= fun n => _) = _ at accepted
      obtain ⟨m, _, accepted⟩ := StateExcept.bind_eq_ok.mp accepted
      cases accepted
      exact ⟨⟨true, m, by simp⟩, rfl⟩

section Declarators

variable {d : ParsedDeclarator} {x : String} {inner : Nat} {array : Option (Option Nat)}
  {ts us : Tokens}

/-- A declarator is followed by the end of its parameter. -/
def Stops (ts : Tokens) : Prop := current ts = .comma ∨ current ts = .rparen

theorem Stops.ne (stop : Stops ts) (type : TokenType) (comma : type ≠ .comma)
    (rparen : type ≠ .rparen) : current ts ≠ type := by
  rcases stop with same | same <;> rw [same]
  · exact comma.symm
  · exact rparen.symm

theorem parse_name (stop : Stops ts) :
    parseDeclarator (nameToken x :: ts) = .ok ({ name := x }, ts) := by
  have bracket := stop.ne .lbracket (by decide) (by decide)
  have paren := stop.ne .lparen (by decide) (by decide)
  change (if current ts = .lbracket then _ else if current ts = .lparen then _ else _) = _
  rw [if_neg bracket, if_neg paren]
  rfl

theorem parse_nameArray
    (accepted : parseDeclarator (nameToken x :: tok .lbracket :: ts) = .ok (d, us)) :
    ∃ hasSize length dims, d = { name := x, isArray := true, hasSize := hasSize
                                 arrayLength := length, arrayDims := dims } := by
  change arrayDeclarator { name := x } (tok .lbracket :: ts) = _ at accepted
  rw [arrayDeclarator] at accepted
  split at accepted
  · obtain ⟨_, _, accepted⟩ := StateExcept.bind_eq_ok.mp accepted
    obtain ⟨⟨dims, _⟩, _, accepted⟩ := StateExcept.bind_eq_ok.mp accepted
    cases accepted
    exact ⟨false, 0, dims, rfl⟩
  · obtain ⟨_, _, accepted⟩ := StateExcept.bind_eq_ok.mp accepted
    obtain ⟨n, _, accepted⟩ := StateExcept.bind_eq_ok.mp accepted
    obtain ⟨_, _, accepted⟩ := StateExcept.bind_eq_ok.mp accepted
    obtain ⟨⟨dims, _⟩, _, accepted⟩ := StateExcept.bind_eq_ok.mp accepted
    cases accepted
    exact ⟨true, n, dims, rfl⟩

theorem parse_nameFunction : parseDeclarator (nameToken x :: tok .lparen :: ts) =
    .ok ({ name := x, isFunction := true }, tok .lparen :: ts) := rfl

theorem parseDeclarator_paren (ts : Tokens) :
    parseDeclarator (tok .lparen :: ts) = parenDeclarator 0 false ts := rfl

theorem parenDeclarator_name (inner : Nat) (x : String) (ts : Tokens) :
    parenDeclarator 0 false (spellPlainStars inner ++ nameToken x :: ts) =
      if current ts = .lparen then functionReturningFp { name := x } 0 inner ts
      else innerArray { name := x } ts >>= fun r => expect .rparen r.2 >>= fun c =>
        outerSuffix r.1 0 inner c.2 := by
  have name : current (nameToken x :: ts) ≠ .star := fun same => by cases same
  have starred := plainStars_spell name inner
  simp only [parenDeclarator, starred]
  rfl

/-- Inside parentheses the declarator stops at the first token behind the name. -/
theorem parse_paren (accepted : parseDeclarator
      (spellParen inner x (spellInnerArray array) ++ ts) = .ok (d, us)) :
    ∃ hasSize length, outerSuffix { name := x, isArray := array.isSome, hasSize := hasSize
                                    arrayLength := length } 0 inner ts = .ok (d, us) := by
  have spelled : spellParen inner x (spellInnerArray array) ++ ts =
      tok .lparen :: (spellPlainStars inner ++
        (nameToken x :: (spellInnerArray array ++ tok .rparen :: ts))) := by
    simp [spellParen, inParens, List.append_assoc]
  have noList : current (spellInnerArray array ++ tok .rparen :: ts) ≠ .lparen := by
    cases array with
    | none => exact fun same => by cases same
    | some bound => exact fun same => by cases same
  rw [spelled, parseDeclarator_paren, parenDeclarator_name, if_neg noList] at accepted
  obtain ⟨⟨d', behind⟩, suffix, accepted⟩ := StateExcept.bind_eq_ok.mp accepted
  obtain ⟨⟨hasSize, length, parsed⟩, closing⟩ := innerArray_spell suffix
  subst parsed closing
  exact ⟨hasSize, length, accepted⟩

theorem outer_stops {outer : Nat} {d' : ParsedDeclarator} (stop : Stops ts)
    (accepted : outerSuffix d outer inner ts = .ok (d', us)) :
    d' = { d with pointerCount := outer + inner } := by
  have bracket := stop.ne .lbracket (by decide) (by decide)
  have paren := stop.ne .lparen (by decide) (by decide)
  rw [outerSuffix, if_neg bracket, if_neg paren] at accepted
  cases accepted
  rfl

theorem outer_bound {outer : Nat} {d' : ParsedDeclarator} {bound : Option Nat}
    (accepted : outerSuffix d outer inner (spellBound bound ++ ts) = .ok (d', us)) :
    ∃ hasSize, d' = { d with isPtrToArray := true, pointerCount := outer + inner
                             ptrToArrayLength := bound.getD d.ptrToArrayLength
                             ptrToArrayHasSize := hasSize } := by
  cases bound with
  | none =>
    cases accepted
    exact ⟨d.ptrToArrayHasSize, rfl⟩
  | some n =>
    have read : (pointerBound n >>= fun m => Except.ok ({ d with
        isPtrToArray := true, pointerCount := outer + inner, ptrToArrayLength := m
        ptrToArrayHasSize := true }, ts)) = .ok (d', us) := accepted
    obtain ⟨m, positive, same⟩ := StateExcept.bind_eq_ok.mp read
    cases same
    unfold pointerBound at positive
    split at positive
    · cases positive
    · cases positive
      exact ⟨true, rfl⟩

theorem outer_function {outer : Nat} {d' : ParsedDeclarator}
    (accepted : outerSuffix d outer 0 (tok .lparen :: ts) = .ok (d', us)) :
    d' = { d with isFunction := true, pointerCount := outer } := by
  cases accepted
  rfl

theorem outer_functionPointer {outer : Nat} {d' : ParsedDeclarator} {ps : List InnerParameter}
    (accepted : outerSuffix d outer (inner + 1)
      (inParens (spellInnerParameters ps) ++ ts) = .ok (d', us)) :
    d' = { d with isFuncPointer := true, fpOuterStars := outer, fpInnerStars := inner + 1
                  fpParamTypes := readTypes ps } := by
  have spelled : inParens (spellInnerParameters ps) ++ ts =
      tok .lparen :: (spellInnerParameters ps ++ tok .rparen :: ts) := by
    simp [inParens]
  rw [spelled] at accepted
  have read : (fpParameterList tooManyFpParams (spellInnerParameters ps ++ tok .rparen :: ts) >>=
      fun r => Except.ok ({ d with
        isFuncPointer := true, fpOuterStars := outer, fpInnerStars := inner + 1
        fpParamTypes := r.1 }, r.2.2)) = .ok (d', us) := accepted
  obtain ⟨⟨types, empty, behind⟩, list, same⟩ := StateExcept.bind_eq_ok.mp read
  rw [← (fpParameterList_spell list).1]
  cases same
  rfl

theorem parse_returnsFunctionPointer {suffix : Tokens} (accepted : parseDeclarator
      (spellParen (inner + 1) x (tok .lparen :: suffix) ++ ts) = .ok (d, us)) :
    d.isFuncPointer = false ∧ d.isFunction = false ∧ d.isPtrToArray = false ∧
      d.isArray = false ∧ d.pointerCount = 0 := by
  have spelled : spellParen (inner + 1) x (tok .lparen :: suffix) ++ ts =
      tok .lparen :: (spellPlainStars (inner + 1) ++
        (nameToken x :: tok .lparen :: (suffix ++ tok .rparen :: ts))) := by
    simp [spellParen, inParens, List.append_assoc]
  rw [spelled, parseDeclarator_paren, parenDeclarator_name, current_cons,
    if_pos (tok_type .lparen)] at accepted
  rw [functionReturningFp, if_neg (Nat.succ_ne_zero inner)] at accepted
  obtain ⟨⟨own, empty, _⟩, _, accepted⟩ := StateExcept.bind_eq_ok.mp accepted
  obtain ⟨_, _, accepted⟩ := StateExcept.bind_eq_ok.mp accepted
  obtain ⟨_, _, accepted⟩ := StateExcept.bind_eq_ok.mp accepted
  obtain ⟨⟨types, _, _⟩, _, accepted⟩ := StateExcept.bind_eq_ok.mp accepted
  cases accepted
  exact ⟨rfl, rfl, rfl, rfl, rfl⟩

end Declarators

end ClaudeC99.Declarators
