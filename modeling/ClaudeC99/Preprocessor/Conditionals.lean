import ClaudeC99.Preprocessor.DirectiveLines
import ClaudeC99.Preprocessor.WholeText

/-! Conditional inclusion selects the groups that the conditions of their sections select. -/

namespace ClaudeC99.Preprocessor

/-! Sources as trees of groups -/

/-- What stands around the word of a directive, up to the newline. -/
structure DirectiveLine where
  between : Text
  tail : Text
  blank : ∀ c ∈ between, isBlank c = true
  word : ∀ c ∈ tail.head?, isIdentChar c = false

inductive Line
  | text (t : Text)
  | define (d : DirectiveLine)
  | undef (d : DirectiveLine)

/-- The condition of a group; `#ifndef` and `#elifndef` want a name that is not defined. -/
inductive Test
  | defined (wanted : Bool) (d : DirectiveLine)
  | expression (d : DirectiveLine)

mutual

inductive Group
  | done
  | line (l : Line) (rest : Group)
  | conditional (test : Test) (body : Group) (others : Others) (rest : Group)

/-- The further groups of a section, and its end. -/
inductive Others
  | endif (d : DirectiveLine)
  | elif (test : Test) (body : Group) (others : Others)
  | else (d : DirectiveLine) (body : Group) (endif : DirectiveLine)

end

def DirectiveLine.spelling (d : DirectiveLine) (word : String) : Text :=
  '#' :: d.between ++ word.toList ++ d.tail ++ ['\n']

def Line.spelling : Line → Text
  | .text t => t
  | .define d => d.spelling "define"
  | .undef d => d.spelling "undef"

def Test.line : Test → DirectiveLine
  | .defined _ d => d
  | .expression d => d

/-- The directive of a condition, which `first` says to open its section. -/
def Test.kind (first : Bool) : Test → ConditionalKind
  | .defined wanted _ =>
    if first then if wanted then .ifdef else .ifndef else if wanted then .elifdef else .elifndef
  | .expression _ => if first then .if else .elif

def ConditionalKind.word : ConditionalKind → String
  | .ifdef => "ifdef"
  | .ifndef => "ifndef"
  | .if => "if"
  | .elifdef => "elifdef"
  | .elifndef => "elifndef"
  | .elif => "elif"
  | .else => "else"
  | .endif => "endif"

def Test.spelling (first : Bool) (test : Test) : Text :=
  test.line.spelling (test.kind first).word

mutual

def Group.spelling : Group → Text
  | .done => []
  | .line l rest => l.spelling ++ rest.spelling
  | .conditional test body others rest =>
    test.spelling true ++ (body.spelling ++ (others.spelling ++ rest.spelling))

def Others.spelling : Others → Text
  | .endif d => d.spelling "endif"
  | .elif test body others => test.spelling false ++ (body.spelling ++ others.spelling)
  | .else d body endif => d.spelling "else" ++ (body.spelling ++ endif.spelling "endif")

end

mutual

/-- How many sections are open at most. -/
def Group.depth : Group → Nat
  | .done => 0
  | .line _ rest => rest.depth
  | .conditional _ body others rest => max (1 + max body.depth others.depth) rest.depth

def Others.depth : Others → Nat
  | .endif _ => 0
  | .elif _ body others => max body.depth others.depth
  | .else _ body _ => body.depth

end

/-! What a source means -/

section Select

variable (files : Files) (preprocessFile : FileReader) (sourcePath : Text) (fuel : Nat)

def Source.nextLine (st : Source) : Source :=
  { st with currentLine := st.currentLine + 1, lineHasContent := false }

/-- The state at the start of a line, without any conditional. -/
def Source.atLine (st : Source) : Source :=
  { st with rest := [], lineHasContent := false, emitting := true, condStack := [] }

/-- The name that `#ifdef` asks for is defined or not, as `wanted` says; the expression of `#if` is
not zero. -/
def Test.holds (first : Bool) (st : Source) : Test → Run Bool
  | .defined wanted d =>
    .returns ((macroFind st.macros
      ((d.tail.dropWhile isBlank).takeWhile isIdentChar)).isSome == wanted)
  | .expression d =>
    (evalCondition fuel (if first then "#if" else "#elif") st d.tail).andThen fun p => .returns p.1

/-- The condition of a group that cannot be selected is not evaluated. -/
def Test.value (first : Bool) (candidate : Bool) (st : Source) (test : Test) : Run Bool :=
  if candidate then test.holds fuel first st else .returns false

/-- Text and macro definitions count in an active group; elsewhere only the lines are counted. -/
def Line.output (active : Bool) (st : Source) : Line → Run (Text × Source)
  | .text t =>
    if active then
      preprocessLoop files preprocessFile sourcePath fuel (t.length + 1) { st.atLine with rest := t }
    else .returns (newlines t, st.skipped t)
  | .define d =>
    if active then
      (Run.ofExcept (defineDirective st d.tail)).andThen fun st' =>
        .returns (['\n'], Source.nextLine { st with macros := st'.macros })
    else .returns (['\n'], st.nextLine)
  | .undef d =>
    if active then
      .returns (['\n'], Source.nextLine { st with macros := (undefDirective st d.tail).macros })
    else .returns (['\n'], st.nextLine)

mutual

/-- The output for a group. -/
def Group.select (active : Bool) (st : Source) : Group → Run (Text × Source)
  | .done => .returns ([], st)
  | .line l rest =>
    (l.output files preprocessFile sourcePath fuel active st).andThen fun p =>
      .after p.1 (rest.select active p.2)
  | .conditional test body others rest =>
    (test.value fuel true active st).andThen fun cond =>
      .after ['\n'] ((body.select (active && cond) st.nextLine).andThen fun p =>
        .after p.1 ((others.select (active && !cond) p.2).andThen fun q =>
          .after q.1 (rest.select active q.2)))

/-- The output for the further groups of a section; one of them can be selected where `candidate`
says that the section is active and no condition before was true. -/
def Others.select (candidate : Bool) (st : Source) : Others → Run (Text × Source)
  | .endif _ => .returns (['\n'], st.nextLine)
  | .elif test body others =>
    (test.value fuel false candidate st).andThen fun cond =>
      .after ['\n'] ((body.select (candidate && cond) st.nextLine).andThen fun p =>
        .after p.1 (others.select (candidate && !cond) p.2))
  | .else _ body _ =>
    .after ['\n'] ((body.select candidate st.nextLine).andThen fun p =>
      .after p.1 (.returns (['\n'], p.2.nextLine)))

end

/-! The sources that the loop reads line by line -/

/-- The text of an active group is read with the macros that are defined there. -/
def Line.Ends (active : Bool) (st : Source) : Line → Prop
  | .text t => WholeText st.macros active false t
  | .define d => EndsLine d.tail
  | .undef d => EndsLine d.tail

mutual

/-- Every directive and every text line ends where `skip_directive_tail` and the loop stop. -/
def Group.Ends (active : Bool) (st : Source) : Group → Prop
  | .done => True
  | .line l rest =>
    l.Ends active st ∧
      ∀ p, (l.output files preprocessFile sourcePath fuel active st).Returns p →
        rest.Ends active p.2
  | .conditional test body others rest =>
    EndsLine test.line.tail ∧
      ∀ cond, (test.value fuel true active st).Returns cond →
        body.Ends (active && cond) st.nextLine ∧
          ∀ p, (body.select files preprocessFile sourcePath fuel (active && cond)
            st.nextLine).Returns p →
              others.Ends (active && !cond) p.2 ∧
                ∀ q, (others.select files preprocessFile sourcePath fuel (active && !cond)
                  p.2).Returns q → rest.Ends active q.2

def Others.Ends (candidate : Bool) (st : Source) : Others → Prop
  | .endif d => EndsLine d.tail
  | .elif test body others =>
    EndsLine test.line.tail ∧
      ∀ cond, (test.value fuel false candidate st).Returns cond →
        body.Ends (candidate && cond) st.nextLine ∧
          ∀ p, (body.select files preprocessFile sourcePath fuel (candidate && cond)
            st.nextLine).Returns p → others.Ends (candidate && !cond) p.2
  | .else d body endif =>
    EndsLine d.tail ∧ EndsLine endif.tail ∧ body.Ends candidate st.nextLine

end

end Select

/-! A directive takes two rounds: one for itself and one for its newline -/

section Rounds

variable {files : Files} {preprocessFile : FileReader} {sourcePath : Text} {fuel : Nat}

theorem ofExcept_map {α β : Type} (e : Except String α) (f : α → β) :
    Run.ofExcept (e.map f) = (Run.ofExcept e).andThen fun a => .returns (f a) := by
  cases e with
  | error message => rfl
  | ok a => exact (Run.returns_andThen _ _).symm

theorem DirectiveLine.split (d : DirectiveLine) {w : Text} (word : isWord w = true) (r : Text) :
    (d.between ++ w ++ d.tail ++ '\n' :: r).dropWhile isBlank = w ++ (d.tail ++ '\n' :: r) ∧
      (w ++ (d.tail ++ '\n' :: r)).takeWhile isIdentChar = w ∧
      (w ++ (d.tail ++ '\n' :: r)).dropWhile isIdentChar = d.tail ++ '\n' :: r := by
  cases w with
  | nil => cases word
  | cons c w =>
    have ident := isWord_chars word
    have noBlank : isBlank c = false := by
      have arg := (identChar_facts (ident c List.mem_cons_self)).2.1
      simp only [isArgBlank, Bool.or_eq_false_iff] at arg
      exact arg.1
    have ends : EndsWord (d.tail ++ '\n' :: r) := by
      cases tail : d.tail with
      | nil =>
        rintro _ ⟨⟩
        decide
      | cons e tail' =>
        rintro _ ⟨⟩
        exact d.word e (by rw [tail]; rfl)
    obtain ⟨taken, dropped⟩ := splitWord word ends
    have first : isIdentChar c = true := ident c List.mem_cons_self
    refine ⟨?_, ?_, ?_⟩
    · rw [List.append_assoc, List.append_assoc, List.dropWhile_append_of_pos d.blank,
        List.cons_append, List.dropWhile_cons, noBlank]
      rfl
    · rw [List.cons_append, List.takeWhile_cons, first, taken]
      rfl
    · rw [List.cons_append, List.dropWhile_cons, first, dropped]
      rfl

theorem step_directive {st : Source} (start : st.lineHasContent = false) (s : Text) :
    preprocessStep files preprocessFile sourcePath fuel st '#' s =
      directive files preprocessFile sourcePath fuel st s := by
  simp [preprocessStep, start, show isSpaceChar '#' = false by decide]

theorem conditionalDirective_line {t : Text} (ends : EndsLine t) (st : Source) (r : Text)
    (kind : ConditionalKind) : conditionalDirective fuel st (t ++ '\n' :: r) kind =
      (conditionalDirective fuel st t kind).andThen fun st' => .returns (st'.before ('\n' :: r)) := by
  have exits {e : Except String Source} := ofExcept_map e fun st' => st'.before ('\n' :: r)
  cases kind with
  | ifdef | ifndef => exact (congrArg Run.ofExcept (ifdefDirective_line ends st r _)).trans exits
  | «if» => exact ifDirective_line ends st r fuel
  | elifdef | elifndef =>
    exact (congrArg Run.ofExcept (elifdefDirective_line ends st r _)).trans exits
  | elif => exact elifDirective_line ends st r fuel
  | «else» => exact (congrArg Run.ofExcept (elseDirective_line ends st r)).trans exits
  | endif => exact (congrArg Run.ofExcept (endifDirective_line ends st r)).trans exits

theorem conditionalDirective_before (st : Source) (x s : Text) (kind : ConditionalKind) :
    conditionalDirective fuel (st.before x) s kind = conditionalDirective fuel st s kind := by
  cases kind <;> rfl

theorem directiveKind_word (kind : ConditionalKind) :
    directiveKind kind.word.toList = some (.inl kind) := by
  cases kind <;> decide

theorem isWord_word (kind : ConditionalKind) : isWord kind.word.toList = true := by
  cases kind <;> decide

theorem DirectiveLine.consumes {st : Source} {d : DirectiveLine} {word : String} {m : Run Source}
    (step : ∀ x r, preprocessStep files preprocessFile sourcePath fuel (st.before x) '#'
      (d.between ++ word.toList ++ d.tail ++ '\n' :: r) =
        m.andThen fun st' => .returns ([], st'.before ('\n' :: r))) :
    Consumes files preprocessFile sourcePath fuel st (d.spelling word)
      (m.andThen fun st' => .returns (['\n'], st'.nextLine)) := by
  refine ⟨2, ?_, fun n r => ?_⟩
  · simp only [DirectiveLine.spelling, List.cons_append, List.length_cons, List.length_append,
      List.length_nil]
    omega
  · have here := step (d.spelling word ++ r) r
    rw [preprocessLoop_succ]
    simp only [DirectiveLine.spelling, List.cons_append, List.append_assoc, List.nil_append,
      Source.before] at here ⊢
    rw [here, Run.andThen_assoc, Run.andThen_assoc]
    refine Run.andThen_congr fun st' _ => ?_
    rw [Run.returns_andThen, Run.returns_andThen, preprocessLoop_succ]
    dsimp only
    rw [step_newline]
    simp only [Run.returns_andThen, Run.after_after, List.nil_append]
    rfl

theorem consumes_conditional {st : Source} {d : DirectiveLine} (ends : EndsLine d.tail)
    (start : st.lineHasContent = false) (kind : ConditionalKind) :
    Consumes files preprocessFile sourcePath fuel st (d.spelling kind.word)
      ((conditionalDirective fuel st d.tail kind).andThen fun st' =>
        .returns (['\n'], st'.nextLine)) := by
  refine DirectiveLine.consumes fun x r => ?_
  obtain ⟨blanks, taken, dropped⟩ := d.split (isWord_word kind) r
  have start' : (st.before x).lineHasContent = false := start
  rw [step_directive start', directive, blanks, taken, dropped, directiveKind_word]
  dsimp only
  rw [conditionalDirective_line ends, conditionalDirective_before, Run.silent, Run.andThen_assoc]
  simp only [Run.returns_andThen]

end Rounds

/-! The frames of the sections that are open -/

section Frames

variable {fuel : Nat}

def Source.inGroup (st : Source) (frames : List CondFrame) (active : Bool) : Source :=
  st.atLine.under frames active

/-- The frame of a section that stands in an active group or not, as `parent` says. A further group
of it can be selected where `candidate` says so. -/
structure CondFrame.Fits (top : CondFrame) (parent candidate : Bool) : Prop where
  parentEmitting : top.parentEmitting = parent
  seenElse : top.seenElse = false
  candidate : candidate = (parent && !top.branchTaken)
  emitting : parent = false → top.emitting = false

/-- The frame of a section whose first condition has been looked at. -/
def openFrame (active cond : Bool) : CondFrame :=
  { emitting := active && cond
    parentEmitting := active
    seenElse := false
    branchTaken := active && cond }

theorem openFrame_fits (active cond : Bool) :
    (openFrame active cond).Fits active (active && !cond) where
  parentEmitting := rfl
  seenElse := rfl
  candidate := by cases active <;> cases cond <;> rfl
  emitting := by
    rintro rfl
    rfl

theorem CondFrame.Fits.elif_emitting {top : CondFrame} {parent candidate : Bool}
    (fits : top.Fits parent candidate) (cond : Bool) :
    (top.elif (candidate && cond)).emitting = (candidate && cond) := by
  obtain ⟨rfl, _, rfl, dark⟩ := fits
  unfold CondFrame.elif
  cases above : top.parentEmitting with
  | false => simpa [above] using dark above
  | true => cases top.branchTaken <;> cases cond <;> simp

theorem CondFrame.Fits.elif {top : CondFrame} {parent candidate : Bool}
    (fits : top.Fits parent candidate) (cond : Bool) :
    (top.elif (candidate && cond)).Fits parent (candidate && !cond) := by
  obtain ⟨rfl, noElse, rfl, dark⟩ := fits
  unfold CondFrame.elif
  cases above : top.parentEmitting with
  | false =>
    simp only [Bool.false_and, Bool.false_eq_true, if_false]
    exact ⟨above, noElse, rfl, fun _ => dark above⟩
  | true =>
    cases taken : top.branchTaken <;> cases cond <;>
      exact ⟨by simp, by simp [noElse], by simp, nofun⟩

theorem evalCondition_alone {t : Text} (ends : EndsLine t) {directive : String} {st : Source}
    {p : Bool × Text} (gives : (evalCondition fuel directive st t).Returns p) : p.2 = [] := by
  unfold evalCondition at gives
  rw [ends.ofBlanks.directiveTail_alone] at gives
  obtain ⟨expanded, _, gives⟩ := Run.andThen_returns_iff.mp gives
  split at gives
  · exact absurd gives Run.not_exits_returns
  · split at gives
    · rw [← Run.returns_iff.mp gives, skipDirectiveTail]
    · exact absurd gives Run.not_exits_returns

theorem Test.value_false (first : Bool) (st : Source) (test : Test) :
    test.value fuel first false st = .returns false := rfl

theorem Test.value_true (first : Bool) (st : Source) (test : Test) :
    test.value fuel first true st = test.holds fuel first st := rfl

theorem conditionalDirective_first {test : Test} (ends : EndsLine test.line.tail) (st : Source)
    {frames : List CondFrame} (room : frames.length < maxCondDepth) (active : Bool) :
    conditionalDirective fuel (st.inGroup frames active) test.line.tail (test.kind true) =
      (test.value fuel true active st).andThen fun cond =>
        .returns (st.inGroup (openFrame active cond :: frames) (active && cond)) := by
  have shallow : ¬ maxCondDepth ≤ (st.inGroup frames active).condStack.length := Nat.not_le.mpr room
  cases test with
  | defined wanted d =>
    have kind : conditionalDirective fuel (st.inGroup frames active) d.tail
        ((Test.defined wanted d).kind true) =
          .ofExcept (ifdefDirective wanted (st.inGroup frames active) d.tail) := by
      cases wanted <;> rfl
    replace ends : EndsLine d.tail := ends
    rw [Test.line, kind, ifdefDirective, if_neg shallow, ends.ofName.alone]
    cases active with
    | false =>
      rw [Test.value_false, Run.returns_andThen]
      rfl
    | true =>
      rw [Test.value_true, Test.holds, Run.returns_andThen]
      rfl
  | expression d =>
    have kind : conditionalDirective fuel (st.inGroup frames active) d.tail
        ((Test.expression d).kind true) = ifDirective fuel (st.inGroup frames active) d.tail := rfl
    replace ends : EndsLine d.tail := ends
    rw [Test.line, kind, ifDirective, if_neg shallow]
    cases active with
    | false =>
      rw [Test.value_false, Run.returns_andThen, ends.alone]
      rfl
    | true =>
      rw [Test.value_true, Test.holds, Run.andThen_assoc]
      refine Run.andThen_congr fun p gives => ?_
      have none : p.2 = [] := evalCondition_alone ends gives
      obtain ⟨value, rest⟩ := p
      cases none
      rw [Run.returns_andThen]
      rfl

theorem conditionalDirective_further {test : Test} (ends : EndsLine test.line.tail) (st : Source)
    {top : CondFrame} {parent candidate : Bool} (fits : top.Fits parent candidate)
    (below : List CondFrame) (active : Bool) :
    conditionalDirective fuel (st.inGroup (top :: below) active) test.line.tail (test.kind false) =
      (test.value fuel false candidate st).andThen fun cond =>
        .returns (st.inGroup (top.elif (candidate && cond) :: below) (candidate && cond)) := by
  have replaced (cond : Bool) :
      (st.inGroup (top :: below) active).replaceTop (top.elif (candidate && cond)) below [] =
        st.inGroup (top.elif (candidate && cond) :: below) (candidate && cond) := by
    unfold Source.replaceTop
    rw [fits.elif_emitting cond]
    rfl
  have open_ : (top.parentEmitting && !top.branchTaken) = candidate := by
    rw [fits.parentEmitting, fits.candidate]
  have noElse : ¬ top.seenElse = true := by simp [fits.seenElse]
  cases test with
  | defined wanted d =>
    have kind : conditionalDirective fuel (st.inGroup (top :: below) active) d.tail
        ((Test.defined wanted d).kind false) =
          .ofExcept (elifdefDirective wanted (st.inGroup (top :: below) active) d.tail) := by
      cases wanted <;> rfl
    replace ends : EndsLine d.tail := ends
    rw [Test.line, kind, elifdefDirective]
    change Run.ofExcept (if top.seenElse = true then _ else if _ then _ else _) = _
    rw [if_neg noElse, open_]
    cases candidate with
    | false =>
      rw [Test.value_false, if_neg (by decide), Run.returns_andThen, ends.alone]
      exact congrArg Run.returns (replaced false)
    | true =>
      rw [Test.value_true, if_pos rfl, Test.holds, Run.returns_andThen]
      dsimp only
      rw [ends.ofName.alone]
      exact congrArg Run.returns (replaced _)
  | expression d =>
    have kind : conditionalDirective fuel (st.inGroup (top :: below) active) d.tail
        ((Test.expression d).kind false) =
          elifDirective fuel (st.inGroup (top :: below) active) d.tail := rfl
    replace ends : EndsLine d.tail := ends
    rw [Test.line, kind, elifDirective]
    change (if top.seenElse = true then _ else if _ then _ else _) = _
    rw [if_neg noElse, open_]
    cases candidate with
    | false =>
      rw [Test.value_false, if_neg (by decide), Run.returns_andThen, ends.alone]
      exact congrArg Run.returns (replaced false)
    | true =>
      rw [Test.value_true, if_pos rfl, Test.holds, Run.andThen_assoc]
      refine Run.andThen_congr fun p gives => ?_
      have none : p.2 = [] := evalCondition_alone ends gives
      obtain ⟨value, rest⟩ := p
      cases none
      rw [Run.returns_andThen]
      exact congrArg Run.returns (replaced value)

theorem conditionalDirective_else {t : Text} (ends : EndsLine t) (st : Source) {top : CondFrame}
    {parent candidate : Bool} (fits : top.Fits parent candidate) (below : List CondFrame)
    (active : Bool) : ∃ top' : CondFrame, top'.emitting = candidate ∧
      conditionalDirective fuel (st.inGroup (top :: below) active) t .else =
        .returns (st.inGroup (top' :: below) candidate) := by
  refine ⟨{ top with seenElse := true, emitting := candidate }, rfl, ?_⟩
  have noElse : ¬ top.seenElse = true := by simp [fits.seenElse]
  have emitting : (if top.parentEmitting then !top.branchTaken else top.emitting) = candidate := by
    cases parent with
    | false => rw [fits.parentEmitting, fits.candidate, fits.emitting rfl]; rfl
    | true => rw [fits.parentEmitting, fits.candidate]; rfl
  change Run.ofExcept (if top.seenElse = true then _ else _) = _
  rw [if_neg noElse, ends.alone, emitting]
  rfl

theorem conditionalDirective_endif {t : Text} (ends : EndsLine t) (st : Source) (top : CondFrame)
    (below : List CondFrame) (active : Bool) :
    conditionalDirective fuel (st.inGroup (top :: below) active) t .endif =
      .returns (st.inGroup below ((below.head?.map CondFrame.emitting).getD true)) := by
  change Run.ofExcept (.ok _) = _
  rw [ends.alone]
  rfl

end Frames

/-! Lines -/

section Lines

variable {files : Files} {preprocessFile : FileReader} {sourcePath : Text} {fuel : Nat}

theorem step_active {st : Source} {d : DirectiveLine} {word : String} {kind : ActiveKind}
    (isW : isWord word.toList = true) (known : directiveKind word.toList = some (.inr kind))
    (start : st.lineHasContent = false) (r : Text) :
    preprocessStep files preprocessFile sourcePath fuel st '#'
        (d.between ++ word.toList ++ d.tail ++ '\n' :: r) =
      if st.emitting then
        activeDirective files preprocessFile sourcePath st (d.tail ++ '\n' :: r) kind
      else
        .returns ([], st.before (skipDirectiveTail (d.tail ++ '\n' :: r))) := by
  obtain ⟨blanks, taken, dropped⟩ := d.split isW r
  have skips := Skips.dropWhile ident_plain (word.toList ++ (d.tail ++ '\n' :: r))
  rw [dropped] at skips
  rw [step_directive start, directive, blanks, taken, dropped, known, skips.tail]
  rfl

theorem defineDirective_inGroup {t : Text} (ends : EndsLine t) (st : Source)
    (frames : List CondFrame) (active : Bool) :
    defineDirective (st.inGroup frames active) t =
      (defineDirective st t).map fun st' =>
        Source.inGroup { st with macros := st'.macros } frames active := by
  unfold defineDirective
  dsimp only
  split
  · rfl
  cases params : macroParams ((t.dropWhile isBlank).dropWhile isIdentChar) with
  | error message => rfl
  | ok q =>
    have after := (ends.ofName.skips (macroParams_skips params)).ofBlanks
    simp only [bind, Except.bind, after.directiveTail_alone]
    cases checkHashes q.1 q.2.1 true (trimBlanks (q.2.2.dropWhile isBlank)) with
    | error message => rfl
    | ok _ =>
      have table : (st.inGroup frames active).macros = st.macros := rfl
      dsimp only
      rw [table]
      split
      · simp only [Except.map]
      · simp only [Except.map]
        rfl

theorem placed_congr {f g : Source → Source} {m : Run (Text × Source)}
    (same : ∀ p, m.Returns p → f p.2 = g p.2) : m.placed f = m.placed g :=
  Run.andThen_congr fun p gives => by rw [same p gives]

/-- A directive of a group that is not active leaves its newline. -/
theorem Line.consumes_skipped {d : DirectiveLine} {word : String} {kind : ActiveKind}
    (ends : EndsLine d.tail) (isW : isWord word.toList = true)
    (known : directiveKind word.toList = some (.inr kind)) (st : Source)
    (frames : List CondFrame) :
    Consumes files preprocessFile sourcePath fuel (st.inGroup frames false) (d.spelling word)
      (.returns (['\n'], st.nextLine.inGroup frames false)) := by
  have round : Consumes files preprocessFile sourcePath fuel (st.inGroup frames false)
      (d.spelling word) ((Run.returns (st.inGroup frames false)).andThen fun st' =>
        .returns (['\n'], st'.nextLine)) :=
    DirectiveLine.consumes fun x r => by
      have start : ((st.inGroup frames false).before x).lineHasContent = false := rfl
      rw [step_active isW known start, ends.reads, Run.returns_andThen]
      rfl
  rwa [Run.returns_andThen] at round

theorem Line.consumes {l : Line} {active : Bool} {st : Source} (ends : l.Ends active st)
    (frames : List CondFrame) :
    Consumes files preprocessFile sourcePath fuel (st.inGroup frames active) l.spelling
      ((l.output files preprocessFile sourcePath fuel active st).placed fun st' =>
        st'.inGroup frames active) := by
  cases l with
  | text t =>
    cases active with
    | false => exact WholeText.skipped ends st.atLine frames rfl
    | true =>
      obtain ⟨m, whole, reads⟩ : st.atLine.Reads files preprocessFile sourcePath fuel t :=
        WholeText.reads ends st.atLine rfl rfl
      have alone : preprocessLoop files preprocessFile sourcePath fuel (t.length + 1)
          { st.atLine with rest := t } = m.placed fun st' => st'.under [] true := by
        refine (reads []).runs (fun p gives => ?_) (Nat.lt_succ_self _)
        obtain ⟨q, returned, same⟩ := Run.andThen_returns_iff.mp gives
        rw [← Run.returns_iff.mp same]
        exact (whole q returned).1
      change Consumes files preprocessFile sourcePath fuel _ t ((preprocessLoop files
        preprocessFile sourcePath fuel (t.length + 1) { st.atLine with rest := t }).placed _)
      rw [alone, Run.placed_placed, placed_congr (g := fun st' => st'.under frames true)]
      · exact reads frames
      · intro p gives
        obtain ⟨rest, start⟩ := whole p gives
        unfold Source.inGroup Source.atLine Source.under
        rw [← rest, ← start]
  | define d =>
    have isW : isWord "define".toList = true := by decide
    have known : directiveKind "define".toList = some (.inr .define) := by decide
    cases active with
    | false => exact Line.consumes_skipped ends isW known st frames
    | true =>
      have round : Consumes files preprocessFile sourcePath fuel (st.inGroup frames true)
          (d.spelling "define")
          ((Run.ofExcept (defineDirective (st.inGroup frames true) d.tail)).andThen fun st' =>
            .returns (['\n'], st'.nextLine)) :=
        DirectiveLine.consumes fun x r => by
          have start : ((st.inGroup frames true).before x).lineHasContent = false := rfl
          have line := defineDirective_line ends (st.inGroup frames true) r
          rw [step_active isW known start]
          change (Run.ofExcept (defineDirective (st.inGroup frames true) _)).silent = _
          rw [line, ofExcept_map, Run.silent, Run.andThen_assoc]
          simp only [Run.returns_andThen]
      rw [defineDirective_inGroup ends, ofExcept_map, Run.andThen_assoc] at round
      simp only [Run.returns_andThen] at round
      change Consumes files preprocessFile sourcePath fuel _ _
        (((Run.ofExcept (defineDirective st d.tail)).andThen _).placed _)
      rw [Run.andThen_placed]
      simp only [Run.returns_placed]
      exact round
  | undef d =>
    have isW : isWord "undef".toList = true := by decide
    have known : directiveKind "undef".toList = some (.inr .undef) := by decide
    cases active with
    | false => exact Line.consumes_skipped ends isW known st frames
    | true =>
      have round : Consumes files preprocessFile sourcePath fuel (st.inGroup frames true)
          (d.spelling "undef")
          ((Run.returns (undefDirective (st.inGroup frames true) d.tail)).andThen fun st' =>
            .returns (['\n'], st'.nextLine)) :=
        DirectiveLine.consumes fun x r => by
          have start : ((st.inGroup frames true).before x).lineHasContent = false := rfl
          have line := undefDirective_line ends (st.inGroup frames true) r
          rw [step_active isW known start]
          change Run.silent (.returns (undefDirective (st.inGroup frames true) _)) = _
          rw [line, Run.silent, Run.returns_andThen, Run.returns_andThen]
      have alone : undefDirective (st.inGroup frames true) d.tail =
          Source.inGroup { st with macros := (undefDirective st d.tail).macros } frames true := by
        replace ends : EndsLine d.tail := ends
        unfold undefDirective
        dsimp only
        rw [ends.ofName.alone]
        rfl
      rw [Run.returns_andThen, alone] at round
      exact round

end Lines

/-! Groups -/

section Groups

variable {files : Files} {preprocessFile : FileReader} {sourcePath : Text} {fuel : Nat}

/-- The group that the frames leave active. -/
def activeUnder (frames : List CondFrame) : Bool :=
  (frames.head?.map CondFrame.emitting).getD true

theorem consumes_test {test : Test} {st st' : Source} {first candidate : Bool}
    (place : Bool → Source → Source) (ends : EndsLine test.line.tail)
    (start : st'.lineHasContent = false)
    (looks : conditionalDirective fuel st' test.line.tail (test.kind first) =
      (test.value fuel first candidate st).andThen fun cond => .returns (place cond st))
    (next : ∀ cond, (place cond st).nextLine = place cond st.nextLine) :
    Consumes files preprocessFile sourcePath fuel st' (test.spelling first)
      ((test.value fuel first candidate st).andThen fun cond =>
        .returns (['\n'], place cond st.nextLine)) := by
  have round : Consumes files preprocessFile sourcePath fuel st' (test.spelling first)
      ((conditionalDirective fuel st' test.line.tail (test.kind first)).andThen fun st' =>
        .returns (['\n'], st'.nextLine)) := consumes_conditional ends start _
  rw [looks, Run.andThen_assoc] at round
  simp only [Run.returns_andThen, next] at round
  exact round

theorem consumes_endif {d : DirectiveLine} (ends : EndsLine d.tail) (st : Source) (top : CondFrame)
    (below : List CondFrame) (active : Bool) :
    Consumes files preprocessFile sourcePath fuel (st.inGroup (top :: below) active)
      (d.spelling "endif")
      (.returns (['\n'], st.nextLine.inGroup below (activeUnder below))) := by
  have round : Consumes files preprocessFile sourcePath fuel (st.inGroup (top :: below) active)
      (d.spelling "endif") _ := consumes_conditional ends rfl .endif
  rw [conditionalDirective_endif ends, Run.returns_andThen] at round
  exact round

mutual

theorem Group.consumes (active : Bool) (st : Source) (frames : List CondFrame)
    (inside : activeUnder frames = active) : ∀ g : Group,
    frames.length + g.depth ≤ maxCondDepth →
    g.Ends files preprocessFile sourcePath fuel active st →
    Consumes files preprocessFile sourcePath fuel (st.inGroup frames active) g.spelling
      ((g.select files preprocessFile sourcePath fuel active st).placed fun st' =>
        st'.inGroup frames active)
  | .done => by
    intro _ _
    exact (Run.returns_placed (fun st' : Source => st'.inGroup frames active) ([], st)) ▸
      consumes_nil (st.inGroup frames active)
  | .line l rest => by
    rintro room ⟨ends, later⟩
    have whole := (Line.consumes ends frames).append fun p gives =>
      Group.consumes active p.2 frames inside rest room (later p gives)
    rw [Group.select, Run.andThen_placed]
    simp only [Run.after_placed]
    exact whole
  | .conditional test body others rest => by
    rintro room ⟨ends, later⟩
    rw [Group.depth] at room
    have shallow : frames.length < maxCondDepth := by omega
    have first : Consumes files preprocessFile sourcePath fuel (st.inGroup frames active) _ _ :=
      consumes_test (fun cond st => st.inGroup (openFrame active cond :: frames) (active && cond))
        ends rfl (conditionalDirective_first ends st shallow active) fun _ => rfl
    have whole := first.append fun cond gives =>
      (Group.consumes (active && cond) st.nextLine (openFrame active cond :: frames) rfl body
        (by rw [List.length_cons]; omega) (later cond gives).1).append fun p gives' =>
          (Others.consumes active (active && !cond) p.2 (openFrame active cond) frames
            (active && cond) inside (openFrame_fits active cond) others (by omega)
            ((later cond gives).2 p gives').1).append fun q gives'' =>
              Group.consumes active q.2 frames inside rest (by omega)
                (((later cond gives).2 p gives').2 q gives'')
    rw [Group.select, Run.andThen_placed]
    simp only [Run.after_placed, Run.andThen_placed]
    exact whole

theorem Others.consumes (parent candidate : Bool) (st : Source) (top : CondFrame)
    (below : List CondFrame) (active : Bool) (inside : activeUnder below = parent)
    (fits : top.Fits parent candidate) : ∀ others : Others,
    below.length + 1 + others.depth ≤ maxCondDepth →
    others.Ends files preprocessFile sourcePath fuel candidate st →
    Consumes files preprocessFile sourcePath fuel (st.inGroup (top :: below) active)
      others.spelling
      ((others.select files preprocessFile sourcePath fuel candidate st).placed fun st' =>
        st'.inGroup below parent)
  | .endif d => by
    intro _ ends
    rw [Others.select, Run.returns_placed, ← inside]
    exact consumes_endif ends st top below active
  | .elif test body others => by
    rintro room ⟨ends, later⟩
    rw [Others.depth] at room
    have first : Consumes files preprocessFile sourcePath fuel
        (st.inGroup (top :: below) active) _ _ :=
      consumes_test (fun cond st =>
        st.inGroup (top.elif (candidate && cond) :: below) (candidate && cond))
        ends rfl (conditionalDirective_further ends st fits below active) fun _ => rfl
    have whole := first.append fun cond gives =>
      (Group.consumes (candidate && cond) st.nextLine (top.elif (candidate && cond) :: below)
        (fits.elif_emitting cond) body (by rw [List.length_cons]; omega)
        (later cond gives).1).append fun p gives' =>
          Others.consumes parent (candidate && !cond) p.2 (top.elif (candidate && cond)) below
            (candidate && cond) inside (fits.elif cond) others (by omega)
            ((later cond gives).2 p gives')
    rw [Others.select, Run.andThen_placed]
    simp only [Run.after_placed, Run.andThen_placed]
    exact whole
  | .else d body endif => by
    rintro room ⟨ends, ends', later⟩
    rw [Others.depth] at room
    obtain ⟨top', lit, looks⟩ : ∃ top' : CondFrame, top'.emitting = candidate ∧
        conditionalDirective fuel (st.inGroup (top :: below) active) d.tail .else =
          .returns (st.inGroup (top' :: below) candidate) :=
      conditionalDirective_else ends st fits below active
    have first : Consumes files preprocessFile sourcePath fuel (st.inGroup (top :: below) active)
        (d.spelling "else") _ := consumes_conditional ends rfl .else
    have alone : (Run.returns ()).andThen (fun _ : Unit => Run.returns
        (['\n'], st.nextLine.inGroup (top' :: below) candidate)) =
          (conditionalDirective fuel (st.inGroup (top :: below) active) d.tail .else).andThen
            fun st' => .returns (['\n'], st'.nextLine) := by
      rw [looks, Run.returns_andThen, Run.returns_andThen]
      rfl
    rw [← alone] at first
    have whole := first.append fun _ _ =>
      (Group.consumes candidate st.nextLine (top' :: below) lit body
        (by rw [List.length_cons]; omega) later).append fun p _ =>
          consumes_endif ends' p.2 top' below candidate
    rw [Run.returns_andThen] at whole
    rw [Others.select]
    simp only [Run.after_placed, Run.andThen_placed, Run.returns_placed, ← inside]
    exact whole

end

end Groups

section Samples

def plainLine (tail : Text) (word : tail.head?.all (fun c => !isIdentChar c) = true) :
    DirectiveLine :=
  ⟨[], tail, by simp, fun c member => by simpa using (Option.all_eq_true _ _).mp word c member⟩

/-- `#ifndef A` around one text line, with an `#else` group. -/
def sampleGroup : Group :=
  .conditional (.defined false (plainLine " A".toList (by decide)))
    (.line (.text "x;\n".toList) .done)
    (.else (plainLine [] (by decide)) (.line (.text "y;\n".toList) .done)
      (plainLine [] (by decide))) .done

/-- A name and a semicolon. -/
theorem sampleLine {macros : MacroTable} {active : Bool} {c : Char} (start : isIdentStart c = true)
    (table : active = true → macros = []) :
    WholeText macros active false [c, ';', '\n'] := by
  have rest : WholeText macros active true [';', '\n'] :=
    .other (by decide) (by decide) (by decide) (by decide) (by decide) (.newline .nil)
  cases active with
  | false => exact .skippedName rfl start rest
  | true =>
    obtain rfl := table rfl
    refine .name rfl start (fun ctx => ⟨.verbatim [c], ?_⟩) rest
    simp [lineName, macroFind, show isIdentChar ';' = false by decide]

/-- The replacement of a macro is a string that holds `/*`; a text line follows. -/
def stringGroup : Group :=
  .line (.define (plainLine " G \"/*\"".toList (by decide)))
    (.line (.text "x;\n".toList) .done)

end Samples

end ClaudeC99.Preprocessor
