import ClaudeC99.Preprocessor.DirectiveLines
import ClaudeC99.Preprocessor.WholeText

/-! The line that `current_line` counts, and the line of the file. -/

namespace ClaudeC99.Preprocessor

/-! Directives -/

theorem skipDirectiveTail_idem (s : Text) :
    skipDirectiveTail (skipDirectiveTail s) = skipDirectiveTail s := by
  fun_induction skipDirectiveTail s with
  | case1 => simp [skipDirectiveTail]
  | case2 s q closed ih => exact ih
  | case3 => simp [skipDirectiveTail]
  | case4 s =>
    have plain : skipDirectiveTail ('\n' :: s) = '\n' :: s :=
      skipDirectiveTail_plain (by rintro s' h; cases h)
    rw [plain]
  | case5 c s _ _ ih => exact ih

/-- A directive keeps the line and goes on at the end of its own line. -/
structure Source.Keeps (st : Source) (s : Text) (st' : Source) : Prop where
  currentLine : st'.currentLine = st.currentLine
  rest : st'.rest = skipDirectiveTail s

theorem name_skips (s : Text) : Skips s ((s.dropWhile isBlank).dropWhile isIdentChar) :=
  (Skips.dropWhile blank_plain s).trans (Skips.dropWhile ident_plain _)

section Directive

variable {st st' : Source} {s : Text}

theorem ifdefDirective_keeps {wanted : Bool} (gives : ifdefDirective wanted st s = .ok st') :
    st.Keeps s st' := by
  unfold ifdefDirective at gives
  dsimp only at gives
  split at gives
  · cases gives
  · cases gives
    exact ⟨rfl, (name_skips s).tail.symm⟩

theorem evalCondition_keeps {fuel : Nat} {directive : String} {p : Bool × Text}
    (gives : (evalCondition fuel directive st s).Returns p) : p.2 = skipDirectiveTail s := by
  unfold evalCondition at gives
  obtain ⟨expanded, _, gives⟩ := Run.andThen_returns_iff.mp gives
  split at gives
  · exact absurd gives Run.not_exits_returns
  · split at gives
    · rw [← Run.returns_iff.mp gives, (Skips.dropWhile blank_plain s).tail]
      exact skipDirectiveTail_idem _
    · exact absurd gives Run.not_exits_returns

theorem ifDirective_keeps {fuel : Nat} (gives : (ifDirective fuel st s).Returns st') :
    st.Keeps s st' := by
  unfold ifDirective at gives
  split at gives
  · exact absurd gives Run.not_exits_returns
  split at gives
  · obtain ⟨p, evaluated, gives⟩ := Run.andThen_returns_iff.mp gives
    rw [← Run.returns_iff.mp gives]
    exact ⟨rfl, evalCondition_keeps evaluated⟩
  · rw [← Run.returns_iff.mp gives]
    exact ⟨rfl, rfl⟩

theorem elifdefDirective_keeps {wanted : Bool} (gives : elifdefDirective wanted st s = .ok st') :
    st.Keeps s st' := by
  unfold elifdefDirective at gives
  dsimp only at gives
  split at gives
  · cases gives
  split at gives
  · cases gives
  split at gives
  · cases gives
    exact ⟨rfl, (name_skips s).tail.symm⟩
  · cases gives
    exact ⟨rfl, rfl⟩

theorem elifDirective_keeps {fuel : Nat} (gives : (elifDirective fuel st s).Returns st') :
    st.Keeps s st' := by
  unfold elifDirective at gives
  split at gives
  · exact absurd gives Run.not_exits_returns
  split at gives
  · exact absurd gives Run.not_exits_returns
  split at gives
  · obtain ⟨p, evaluated, gives⟩ := Run.andThen_returns_iff.mp gives
    rw [← Run.returns_iff.mp gives]
    exact ⟨rfl, evalCondition_keeps evaluated⟩
  · rw [← Run.returns_iff.mp gives]
    exact ⟨rfl, rfl⟩

theorem elseDirective_keeps (gives : elseDirective st s = .ok st') : st.Keeps s st' := by
  unfold elseDirective at gives
  split at gives
  · cases gives
  split at gives
  · cases gives
  · cases gives
    exact ⟨rfl, rfl⟩

theorem endifDirective_keeps (gives : endifDirective st s = .ok st') : st.Keeps s st' := by
  unfold endifDirective at gives
  split at gives
  · cases gives
  · cases gives
    exact ⟨rfl, rfl⟩

theorem defineDirective_keeps (gives : defineDirective st s = .ok st') : st.Keeps s st' := by
  unfold defineDirective at gives
  dsimp only at gives
  split at gives
  · cases gives
  cases params : macroParams ((s.dropWhile isBlank).dropWhile isIdentChar) with
  | error message =>
    rw [params] at gives
    cases gives
  | ok q =>
    have skips := ((name_skips s).trans (macroParams_skips params)).trans
      (Skips.dropWhile blank_plain q.2.2)
    rw [params] at gives
    simp only [bind, Except.bind] at gives
    split at gives
    · cases gives
    split at gives
    · cases gives
    · cases gives
      exact ⟨rfl, skips.tail.symm⟩

theorem ofExcept_returns {α : Type} {e : Except String α} {a : α}
    (gives : (Run.ofExcept e).Returns a) : e = .ok a := by
  cases e with
  | error message => exact absurd gives Run.not_exits_returns
  | ok b => rw [Run.returns_iff.mp gives]

theorem conditionalDirective_keeps {fuel : Nat} {kind : ConditionalKind}
    (gives : (conditionalDirective fuel st s kind).Returns st') : st.Keeps s st' := by
  cases kind with
  | ifdef | ifndef => exact ifdefDirective_keeps (ofExcept_returns gives)
  | «if» => exact ifDirective_keeps gives
  | elifdef | elifndef => exact elifdefDirective_keeps (ofExcept_returns gives)
  | elif => exact elifDirective_keeps gives
  | «else» => exact elseDirective_keeps (ofExcept_returns gives)
  | endif => exact endifDirective_keeps (ofExcept_returns gives)

end Directive

/-! What a round passes without counting it -/

/-- Where an `#include` goes on: behind the comments that follow the name. -/
def includeRest (directive : String) (s : Text) : Text :=
  match includeName directive s with
  | .ok (_, _, rest) => skipDirectiveTail rest
  | .error _ => []

/-- Where the loop goes on after a directive; `s` starts after the `#`. -/
def directiveRest (st : Source) (s : Text) : Text :=
  let s := s.dropWhile isBlank
  let after := s.dropWhile isIdentChar
  match directiveKind (s.takeWhile isIdentChar) with
  | some (.inr .include) => if st.emitting then includeRest "#include" after else skipDirectiveTail s
  | some (.inr .includeNext) =>
    if st.emitting then includeRest "#include_next" after else skipDirectiveTail s
  | _ => skipDirectiveTail s

/-- Where a name in an active group ends: behind its list of arguments, if it has one. -/
def nameRest (macros : MacroTable) (name after : Text) : Text :=
  match lineName ⟨[], 0⟩ macros name after with
  | .ok (_, rest) => rest
  | .error _ => after

/-- The text behind a construct whose newlines `current_line` does not count. -/
def uncountedRest (st : Source) (c : Char) (s : Text) : Text :=
  if c = '\n' ∨ isSpaceChar c then s
  else if c = '/' ∧ s.head? = some '/' then skipDirectiveTail (c :: s)
  else if c = '/' ∧ s.head? = some '*' then s
  else if c = '#' ∧ st.lineHasContent = false then directiveRest st s
  else if isQuote c then (takeQuoted c s).2
  else if isIdentStart c ∧ st.emitting then
    nameRest st.macros (c :: s.takeWhile isIdentChar) (s.dropWhile isIdentChar)
  else s

/-- The newlines of that construct. -/
def uncounted (st : Source) (c : Char) (s : Text) : Nat :=
  s.count '\n' - (uncountedRest st c s).count '\n'

/-- A `#line` of an active group. -/
def atLineDirective (st : Source) (c : Char) (s : Text) : Prop :=
  c = '#' ∧ st.lineHasContent = false ∧ st.emitting = true ∧
    directiveKind ((s.dropWhile isBlank).takeWhile isIdentChar) = some (.inr .line)

section Steps

variable {files : Files} {preprocessFile : FileReader} {sourcePath : Text} {fuel : Nat}
  {st : Source} {c : Char} {s : Text} {p : Text × Source}

theorem includeFile_keeps {includePath rest : Text}
    (gives : (includeFile preprocessFile sourcePath st includePath rest).Returns p) :
    p.2.currentLine = st.currentLine ∧ p.2.rest = skipDirectiveTail rest := by
  obtain ⟨q, _, gives⟩ := Run.andThen_returns_iff.mp gives
  rw [← Run.returns_iff.mp gives]
  exact ⟨rfl, rfl⟩

theorem includeDirective_keeps
    (gives : (includeDirective files preprocessFile sourcePath st s).Returns p) :
    p.2.currentLine = st.currentLine ∧ p.2.rest = includeRest "#include" s := by
  unfold includeDirective at gives
  unfold includeRest
  cases name : includeName "#include" s with
  | error message =>
    rw [name] at gives
    exact absurd gives Run.not_exits_returns
  | ok q =>
    rw [name] at gives
    dsimp only at gives ⊢
    split at gives
    · exact includeFile_keeps gives
    · exact absurd gives Run.not_exits_returns

theorem includeNextDirective_keeps
    (gives : (includeNextDirective files preprocessFile sourcePath st s).Returns p) :
    p.2.currentLine = st.currentLine ∧ p.2.rest = includeRest "#include_next" s := by
  unfold includeNextDirective at gives
  unfold includeRest
  cases name : includeName "#include_next" s with
  | error message =>
    rw [name] at gives
    exact absurd gives Run.not_exits_returns
  | ok q =>
    rw [name] at gives
    dsimp only at gives ⊢
    split at gives
    · exact includeFile_keeps gives
    · exact absurd gives Run.not_exits_returns

theorem silent_returns {m : Run Source} (gives : m.silent.Returns p) : m.Returns p.2 := by
  obtain ⟨st', returned, gives⟩ := Run.andThen_returns_iff.mp gives
  rwa [← Run.returns_iff.mp gives]

theorem directive_keeps (gives : (directive files preprocessFile sourcePath fuel st s).Returns p)
    (noLine : ¬ (st.emitting = true ∧
      directiveKind ((s.dropWhile isBlank).takeWhile isIdentChar) = some (.inr .line))) :
    p.2.currentLine = st.currentLine ∧ p.2.rest = directiveRest st s := by
  have blanks := (Skips.dropWhile blank_plain s).tail
  have word := (Skips.dropWhile ident_plain (s.dropWhile isBlank)).tail
  unfold directive at gives
  unfold directiveRest
  dsimp only at gives ⊢
  cases known : directiveKind ((s.dropWhile isBlank).takeWhile isIdentChar) with
  | none =>
    rw [known] at gives
    dsimp only at gives
    split at gives
    · rw [← Run.returns_iff.mp gives]
      exact ⟨rfl, rfl⟩
    split at gives
    · rename_i _ ends
      rw [← Run.returns_iff.mp gives]
      refine ⟨rfl, ?_⟩
      dsimp only
      cases start : s.dropWhile isBlank with
      | nil => simp [skipDirectiveTail]
      | cons c rest =>
        have newline : c = '\n' := by simpa [start] using ends
        rw [newline, skipDirectiveTail_plain (by rintro s' h; cases h), if_pos rfl]
    · exact absurd gives Run.not_exits_returns
  | some kind =>
    rw [known] at gives noLine
    cases kind with
    | inl kind =>
      have keeps := conditionalDirective_keeps (silent_returns gives)
      exact ⟨keeps.currentLine, by rw [keeps.rest, word]⟩
    | inr kind =>
      dsimp only at gives
      cases active : st.emitting with
      | false =>
        rw [active, if_neg Bool.false_ne_true] at gives
        rw [← Run.returns_iff.mp gives]
        refine ⟨rfl, ?_⟩
        cases kind <;> rfl
      | true =>
        rw [active, if_pos rfl] at gives
        cases kind with
        | «include» => exact includeDirective_keeps gives
        | includeNext => exact includeNextDirective_keeps gives
        | define =>
          have keeps := defineDirective_keeps (ofExcept_returns (silent_returns gives))
          exact ⟨keeps.currentLine, by rw [keeps.rest, word]⟩
        | undef =>
          rw [← Run.returns_iff.mp (silent_returns gives)]
          exact ⟨rfl, (name_skips _).tail.symm.trans word.symm⟩
        | error => exact absurd gives Run.not_exits_returns
        | line => exact absurd ⟨active, rfl⟩ noLine
        | pragma =>
          rw [← Run.returns_iff.mp (silent_returns gives)]
          exact ⟨rfl, (Skips.dropWhile blank_plain _).tail.symm.trans word.symm⟩

theorem includeName_suffix {directive : String} {q : Bool × Text × Text}
    (reads : includeName directive s = .ok q) : q.2.2 <:+ s := by
  have blanks := List.dropWhile_suffix (l := s) isBlank
  unfold includeName at reads
  split at reads
  · cases reads
  · rename_i open_ name start
    rw [start] at blanks
    dsimp only at reads
    generalize (if open_ = '<' then '>' else '"') = close at reads
    have inName := List.dropWhile_suffix (l := name) fun c => c ≠ close && c ≠ '\n'
    split at reads
    · cases after : name.dropWhile fun c => c ≠ close && c ≠ '\n' with
      | nil =>
        rw [after] at reads
        cases reads
      | cons c rest =>
        rw [after] at reads inName
        dsimp only at reads
        split at reads
        · cases reads
          exact (((List.suffix_cons c rest).trans inName).trans
            (List.suffix_cons open_ name)).trans blanks
        · cases reads
    · cases reads

theorem includeRest_suffix (directive : String) (s : Text) : includeRest directive s <:+ s := by
  unfold includeRest
  split
  · rename_i isAngle fname rest name
    exact (skipDirectiveTail_suffix rest).trans (includeName_suffix name)
  · exact List.nil_suffix

theorem directiveRest_suffix (st : Source) (s : Text) : directiveRest st s <:+ s := by
  have blanks := List.dropWhile_suffix (l := s) isBlank
  have word := List.dropWhile_suffix (l := s.dropWhile isBlank) isIdentChar
  have plain := (skipDirectiveTail_suffix (s.dropWhile isBlank)).trans blanks
  unfold directiveRest
  dsimp only
  split
  · split
    · exact ((includeRest_suffix _ _).trans word).trans blanks
    · exact plain
  · split
    · exact ((includeRest_suffix _ _).trans word).trans blanks
    · exact plain
  · exact plain

theorem lineName_rest (ctx ctx' : ExpandContext) (macros : MacroTable) (name after : Text) :
    (lineName ctx macros name after).map Prod.snd = (lineName ctx' macros name after).map Prod.snd := by
  unfold lineName
  split
  · rfl
  split
  · rfl
  · rfl

theorem nameRest_eq {ctx : ExpandContext} {macros : MacroTable} {name after rest : Text}
    {piece : Piece} (reads : lineName ctx macros name after = .ok (piece, rest)) :
    nameRest macros name after = rest := by
  have same := lineName_rest ctx ⟨[], 0⟩ macros name after
  rw [reads] at same
  unfold nameRest
  split
  · rename_i other
    rw [other] at same
    exact (Except.ok.inj same).symm
  · rename_i other
    rw [other] at same
    cases same

theorem activeName_keeps {name after : Text}
    (gives : (activeName sourcePath fuel st name after).Returns p) :
    ∃ piece rest, lineName (st.site sourcePath) st.macros name after = .ok (piece, rest) ∧
      p.2.currentLine = st.currentLine ∧ p.2.rest = rest := by
  unfold activeName at gives
  dsimp only at gives
  cases reads : lineName (st.site sourcePath) st.macros name after with
  | error message =>
    rw [reads] at gives
    exact absurd gives Run.not_exits_returns
  | ok q =>
    rw [reads] at gives
    obtain ⟨out, _, gives⟩ := Run.andThen_returns_iff.mp gives
    rw [← Run.returns_iff.mp gives]
    exact ⟨q.1, q.2, rfl, rfl, rfl⟩

/-- A construct without its newlines counted. -/
theorem balance_of_rest (newline : c ≠ '\n') (line : p.2.currentLine = st.currentLine)
    (rest : p.2.rest = uncountedRest st c s) (suffix : uncountedRest st c s <:+ s) :
    p.2.currentLine + (p.2.rest.count '\n' : Nat) + (uncounted st c s : Nat) =
      st.currentLine + ((c :: s).count '\n' : Nat) := by
  have fewer := suffix.sublist.count_le '\n'
  rw [line, rest, uncounted, List.count_cons_of_ne newline]
  omega

theorem step_lines
    (gives : (preprocessStep files preprocessFile sourcePath fuel st c s).Returns p)
    (noLine : ¬ atLineDirective st c s) :
    p.2.currentLine + (p.2.rest.count '\n' : Nat) + (uncounted st c s : Nat) =
      st.currentLine + ((c :: s).count '\n' : Nat) := by
  unfold preprocessStep at gives
  by_cases newline : c = '\n'
  · subst newline
    rw [if_pos rfl] at gives
    rw [← Run.returns_iff.mp gives, List.count_cons_self]
    simp only [uncounted, uncountedRest, true_or, if_true, Nat.sub_self]
    omega
  rw [if_neg newline] at gives
  by_cases space : isSpaceChar c = true
  · rw [if_pos space] at gives
    rw [← Run.returns_iff.mp gives, List.count_cons_of_ne newline]
    simp only [uncounted, uncountedRest, space, or_true, if_true, Nat.sub_self]
    omega
  rw [if_neg space] at gives
  by_cases lineComment : c = '/' ∧ s.head? = some '/'
  · rw [if_pos lineComment] at gives
    obtain ⟨rfl, ahead⟩ := lineComment
    have rest : uncountedRest st '/' s = skipDirectiveTail ('/' :: s) := by
      rw [uncountedRest, if_neg (by simp [space]), if_pos ⟨rfl, ahead⟩]
    have plain : skipDirectiveTail ('/' :: s) = skipDirectiveTail s := by
      rw [skipDirectiveTail_plain, if_neg newline]
      rintro s' _ rfl
      cases ahead
    refine balance_of_rest newline ?_ ?_ ?_
    · rw [← Run.returns_iff.mp gives]
    · rw [← Run.returns_iff.mp gives, rest]
    · rw [rest, plain]
      exact skipDirectiveTail_suffix s
  rw [if_neg lineComment] at gives
  by_cases comment : c = '/' ∧ s.head? = some '*'
  · rw [if_pos comment] at gives
    have none : uncounted st c s = 0 := by
      rw [uncounted, uncountedRest, if_neg (by simp [newline, space]), if_neg lineComment,
        if_pos comment, Nat.sub_self]
    split at gives
    · exact absurd gives Run.not_exits_returns
    · rename_i lines rest closed
      obtain ⟨rfl, ahead⟩ := comment
      have counts := blockComment_count closed
      obtain ⟨s', rfl⟩ : ∃ s', s = '*' :: s' := by
        cases s with
        | nil => cases ahead
        | cons d s' =>
          cases ahead
          exact ⟨s', rfl⟩
      rw [← Run.returns_iff.mp gives, none, List.count_cons_of_ne newline,
        List.count_cons_of_ne (by decide)]
      rw [List.tail_cons] at counts
      dsimp only
      omega
  rw [if_neg comment] at gives
  by_cases hash : c = '#' ∧ st.lineHasContent = false
  · rw [if_pos hash] at gives
    have rest : uncountedRest st c s = directiveRest st s := by
      rw [uncountedRest, if_neg (by simp [newline, space]), if_neg lineComment, if_neg comment,
        if_pos hash]
    obtain ⟨line, behind⟩ := directive_keeps gives fun h => noLine ⟨hash.1, hash.2, h⟩
    exact balance_of_rest newline line (by rw [behind, rest])
      (by rw [rest]; exact directiveRest_suffix st s)
  rw [if_neg hash] at gives
  by_cases quote : isQuote c = true
  · rw [if_pos quote] at gives
    have rest : uncountedRest st c s = (takeQuoted c s).2 := by
      rw [uncountedRest, if_neg (by simp [newline, space]), if_neg lineComment, if_neg comment,
        if_neg hash, if_pos quote]
    refine balance_of_rest newline ?_ ?_ ?_
    · rw [← Run.returns_iff.mp gives]
    · rw [← Run.returns_iff.mp gives, rest]
    · rw [rest]
      exact takeQuoted_suffix c s
  rw [if_neg quote] at gives
  by_cases start : isIdentStart c = true
  · rw [if_pos start] at gives
    dsimp only at gives
    cases active : st.emitting with
    | false =>
      have none : uncounted st c s = 0 := by
        rw [uncounted, uncountedRest, if_neg (by simp [newline, space]), if_neg lineComment,
          if_neg comment, if_neg hash, if_neg quote, if_neg (by simp [active]), Nat.sub_self]
      rw [active, if_neg Bool.false_ne_true] at gives
      rw [← Run.returns_iff.mp gives, none, List.count_cons_of_ne newline,
        dropWhile_count (p := isIdentChar) (by decide) s]
      dsimp only
      omega
    | true =>
      rw [active, if_pos rfl] at gives
      obtain ⟨piece, rest', reads, line, behind⟩ := activeName_keeps gives
      have rest : uncountedRest st c s = rest' := by
        rw [uncountedRest, if_neg (by simp [newline, space]), if_neg lineComment,
          if_neg comment, if_neg hash, if_neg quote, if_pos ⟨start, active⟩, nameRest_eq reads]
      refine balance_of_rest newline line (by rw [behind, rest]) ?_
      rw [rest]
      exact (lineName_suffix reads).trans (List.dropWhile_suffix isIdentChar)
  rw [if_neg start] at gives
  have none : uncounted st c s = 0 := by
    rw [uncounted, uncountedRest, if_neg (by simp [newline, space]), if_neg lineComment,
      if_neg comment, if_neg hash, if_neg quote, if_neg (by simp [start]), Nat.sub_self]
  rw [← Run.returns_iff.mp gives, none, List.count_cons_of_ne newline]
  dsimp only
  omega

end Steps

/-! Runs -/

section Run

variable {files : Files} {preprocessFile : FileReader} {sourcePath : Text} {fuel : Nat}

/-- The loop comes from `start` to a state without a `#line`; `n` newlines went by uncounted. -/
inductive Reaches (files : Files) (preprocessFile : FileReader) (sourcePath : Text) (fuel : Nat)
    (start : Source) : Source → Nat → Prop
  | start : Reaches files preprocessFile sourcePath fuel start start 0
  | step {st : Source} {n : Nat} {c : Char} {s : Text} {p : Text × Source}
    (reaches : Reaches files preprocessFile sourcePath fuel start st n) (rest : st.rest = c :: s)
    (noLine : ¬ atLineDirective st c s)
    (gives : (preprocessStep files preprocessFile sourcePath fuel st c s).Returns p) :
    Reaches files preprocessFile sourcePath fuel start p.2 (n + uncounted st c s)

/-- The run goes through every state that is reached. -/
theorem Reaches.through {start st : Source} {n : Nat}
    (reaches : Reaches files preprocessFile sourcePath fuel start st n) :
    ∃ k log out, ∀ m, preprocessLoop files preprocessFile sourcePath fuel (m + k) start =
      .logged log (.after out (preprocessLoop files preprocessFile sourcePath fuel m st)) := by
  induction reaches with
  | start => exact ⟨0, [], [], fun m => by rw [Run.after_nil, Run.logged_nil, Nat.add_zero]⟩
  | @step st n c s p _ rest _ gives ih =>
    obtain ⟨k, log, out, ih⟩ := ih
    obtain ⟨log', gives⟩ := gives
    refine ⟨k + 1, log ++ log', out ++ p.1, fun m => ?_⟩
    rw [Nat.add_comm k 1, ← Nat.add_assoc, ih, preprocessLoop_succ, rest]
    dsimp only
    rw [gives, Run.ok_andThen, Run.after, Run.logged_andThen, Run.logged_logged, ← Run.after,
      Run.after_after]

theorem Reaches.lines {start st : Source} {n : Nat}
    (reaches : Reaches files preprocessFile sourcePath fuel start st n) :
    st.currentLine + (st.rest.count '\n' : Nat) + (n : Nat) =
      start.currentLine + (start.rest.count '\n' : Nat) := by
  induction reaches with
  | start => omega
  | step _ rest noLine gives ih =>
    have lines := step_lines gives noLine
    rw [rest] at ih
    omega

/-! Continued lines -/

theorem spliceLines_append {c : Char} (other : c ≠ '\n') (pre post : Text) :
    spliceLines (pre ++ c :: post) = spliceLines pre ++ spliceLines (c :: post) := by
  fun_induction spliceLines pre with
  | case1 => rfl
  | case2 s ih => exact ih
  | case3 d s plain ih =>
    rw [List.cons_append, spliceLines, ih, List.cons_append]
    rintro s' rfl same
    cases s with
    | nil =>
      cases same
      exact other rfl
    | cons e s =>
      cases same
      exact plain s rfl rfl

theorem spliceLines_count_le (s : Text) : (spliceLines s).count '\n' ≤ s.count '\n' := by
  fun_induction spliceLines s with
  | case1 => exact le_rfl
  | case2 s ih =>
    rw [List.count_cons_of_ne (by decide), List.count_cons_self]
    omega
  | case3 c s _ ih =>
    rw [List.count_cons, List.count_cons]
    omega

/-- A newline is missing where a line was continued. -/
theorem spliceLines_eq_iff (s : Text) :
    spliceLines s = s ↔ (spliceLines s).count '\n' = s.count '\n' := by
  constructor
  · intro same
    rw [same]
  · intro same
    fun_induction spliceLines s with
    | case1 => rfl
    | case2 s ih =>
      have fewer := spliceLines_count_le s
      rw [List.count_cons_of_ne (by decide), List.count_cons_self] at same
      omega
    | case3 c s _ ih =>
      rw [List.count_cons, List.count_cons] at same
      rw [ih (by omega)]

/-- At a `__LINE__` the output is the line of the file if and only if no newline before it continued
a line or went by uncounted. -/
theorem line_number_iff {shared : Shared} {pre occurrence after : Text} {st : Source} {n : Nat}
    (spelled : spliceLines ('_' :: occurrence) = "__LINE__".toList ++ after)
    (ends : EndsWord after)
    (reaches : Reaches files preprocessFile sourcePath fuel
      ((fileStart shared).before (spliceLines (pre ++ '_' :: occurrence))) st n)
    (here : st.rest = "__LINE__".toList ++ after) (active : st.emitting = true) :
    (∃ st', preprocessStep files preprocessFile sourcePath fuel st '_' ("_LINE__".toList ++ after) =
      .returns ((toString st.currentLine).toList, st')) ∧
    (st.currentLine = 1 + (pre.count '\n' : Nat) ↔ spliceLines pre = pre ∧ n = 0) := by
  refine ⟨?_, ?_⟩
  · obtain ⟨taken, dropped⟩ :=
      splitWord (c := '_') (w := "_LINE__".toList) (s := after) (by decide) ends
    have word : '_' :: "_LINE__".toList = "__LINE__".toList := by decide
    have reads : lineName (st.site sourcePath) st.macros "__LINE__".toList after =
        .ok (.verbatim (toString st.currentLine).toList, after) := by
      simp [lineName, Source.site]
    refine ⟨st.afterName sourcePath "__LINE__".toList after
      (.verbatim (toString st.currentLine).toList) after, ?_⟩
    rw [step_name _ (by decide), if_pos active, taken, dropped, word,
      activeName_reads st reads, expandPiece, Run.returns_andThen]
  · have lines := reaches.lines
    have fewer := spliceLines_count_le pre
    rw [here, ← spelled] at lines
    simp only [Source.before, fileStart, spliceLines_append (by decide : ('_' : Char) ≠ '\n') pre,
      List.count_append, Nat.cast_add] at lines
    rw [spliceLines_eq_iff]
    omega

/-- The state behind an empty line. -/
def secondLine : Source :=
  { (fileStart noMacros).before "__LINE__\n".toList with currentLine := 2 }

theorem sample_line_number_iff :
    (∃ st', preprocessStep noFiles noReader [] 9 secondLine '_' ("_LINE__".toList ++ ['\n']) =
      .returns ((toString secondLine.currentLine).toList, st')) ∧
    (secondLine.currentLine = 1 + (['\n'].count '\n' : Nat) ↔
      spliceLines ['\n'] = ['\n'] ∧ 0 + uncounted
        ((fileStart noMacros).before "\n__LINE__\n".toList) '\n' "__LINE__\n".toList = 0) := by
  have reaches : Reaches noFiles noReader [] 9
      ((fileStart noMacros).before "\n__LINE__\n".toList) secondLine (0 + uncounted
        ((fileStart noMacros).before "\n__LINE__\n".toList) '\n' "__LINE__\n".toList) :=
    .step (c := '\n') (s := "__LINE__\n".toList) (p := (['\n'], secondLine)) .start
      (by decide) (by rintro ⟨h, _⟩; cases h) ⟨[], rfl⟩
  have spliced : spliceLines (['\n'] ++ '_' :: "_LINE__\n".toList) = "\n__LINE__\n".toList := by
    decide
  rw [← spliced] at reaches
  exact line_number_iff (by decide) (by rintro _ ⟨⟩; decide) reaches (by decide) rfl

/-- The line before is empty but for the backslash that continues it. -/
theorem continued_line_not_counted :
    (preprocessSource noFiles noReader [] 9 noMacros "\\\n__LINE__\n".toList).output =
        some "1\n".toList ∧
      1 + "\\\n".toList.count '\n' = 2 := by
  decide +kernel

end Run

end ClaudeC99.Preprocessor
