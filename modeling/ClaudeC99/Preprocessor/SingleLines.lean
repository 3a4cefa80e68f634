import ClaudeC99.Preprocessor.Termination
import ClaudeC99.Preprocessor.WholeText

/-! A single line of text is expanded as a rescan expands it. -/

namespace ClaudeC99.Preprocessor

open Filter

namespace Run

variable {α β : Type}

/-- `m` has not finished, or `m'` ends as it does. -/
def Refines (m m' : Run α) : Prop := m = none ∨ m = m'

namespace Refines

variable {m m' : Run α}

theorem logged (refines : Refines m m') (log : List Expansion) :
    Refines (Run.logged log m) (Run.logged log m') := by
  rcases refines with rfl | rfl
  · exact .inl rfl
  · exact .inr rfl

theorem andThen {k l : α → Run β} (first : Refines m m') (next : ∀ a, Refines (k a) (l a)) :
    Refines (m.andThen k) (m'.andThen l) := by
  rcases first with rfl | rfl
  · exact .inl rfl
  · cases m with
    | none => exact .inl rfl
    | some r =>
      obtain ⟨log, r⟩ := r
      cases r with
      | error message => exact .inr rfl
      | ok a => exact (next a).logged log

theorem forEach {f g : α → Run β} (each : ∀ a, Refines (f a) (g a)) (as : List α) :
    Refines (Run.forEach f as) (Run.forEach g as) := by
  induction as with
  | nil => exact .inr rfl
  | cons a as ih =>
    apply (each a).andThen
    intro b
    apply ih.andThen
    intro bs
    exact .inr rfl

theorem eq_of_ne {m m' : Run α} (refines : Refines m m') (finished : m ≠ none) : m' = m := by
  rcases refines with rfl | rfl
  · exact absurd rfl finished
  · rfl

end Refines

/-- The output of a run. -/
def text {σ : Type} (m : Run (Text × σ)) : Run Text := m.andThen fun p => returns p.1

theorem andThen_text {σ : Type} (m : Run α) (k : α → Run (Text × σ)) :
    (m.andThen k).text = m.andThen fun a => (k a).text := andThen_assoc m k _

theorem after_text {σ : Type} (out : Text) (m : Run (Text × σ)) :
    (after out m).text = m.text.andThen fun tail => returns (out ++ tail) := by
  simp only [after, text, andThen_assoc, returns_andThen]

end Run

section Fuel

variable {ctx : ExpandContext} {macros : MacroTable}

theorem expandPiece_refines {f g : List Text → List Text → Text → Run Text}
    (each : ∀ disabled rescanning s, (f disabled rescanning s).Refines (g disabled rescanning s))
    (disabled rescanning : List Text) (piece : Piece) :
    (expandPiece f disabled rescanning piece).Refines (expandPiece g disabled rescanning piece) := by
  cases piece with
  | verbatim text => exact .inr rfl
  | objectLike m => exact (each _ _ _).logged _
  | invocation m params args =>
    simp only [expandPiece]
    split
    · apply Run.Refines.andThen (Run.Refines.forEach (each _ _) args)
      intro expanded
      split
      · exact .inr rfl
      · exact (each _ _ _).logged _
    · exact .inr rfl

theorem expandMacrosText_succ (n : Nat) (disabled rescanning : List Text) (c : Char) (s : Text) :
    expandMacrosText ctx macros (n + 1) disabled rescanning (c :: s) =
      (expandPiece (expandMacrosText ctx macros n) disabled rescanning
        (nextPiece ctx macros disabled c s).1).andThen fun out =>
          (expandMacrosText ctx macros n disabled rescanning
            (nextPiece ctx macros disabled c s).2).andThen fun tail => .returns (out ++ tail) := rfl

/-- More fuel changes no result. -/
theorem expandMacrosText_refines {n k : Nat} (le : n ≤ k) (disabled rescanning : List Text)
    (s : Text) :
    (expandMacrosText ctx macros n disabled rescanning s).Refines
      (expandMacrosText ctx macros k disabled rescanning s) := by
  induction n generalizing k disabled rescanning s with
  | zero => exact .inl rfl
  | succ n ih =>
    cases k with
    | zero => cases le
    | succ k =>
      have le := Nat.le_of_succ_le_succ le
      cases s with
      | nil => exact .inr rfl
      | cons c s =>
        rw [expandMacrosText_succ, expandMacrosText_succ]
        apply Run.Refines.andThen (expandPiece_refines (fun d r t => ih le d r t) _ _ _)
        intro out
        apply (ih le _ _ _).andThen
        intro tail
        exact .inr rfl

end Fuel

/-- A text as literals, words and single characters. -/
def lexemes : Text → List Text
  | [] => []
  | c :: s =>
    if isQuote c then (c :: (takeQuoted c s).1) :: lexemes (takeQuoted c s).2
    else if isIdentStart c then (c :: s.takeWhile isIdentChar) :: lexemes (s.dropWhile isIdentChar)
    else [c] :: lexemes s
  termination_by s => s.length
  decreasing_by
    · have := takeQuoted_length c s
      simp only [List.length_cons]
      omega
    · have := dropWhile_length_le isIdentChar s
      simp only [List.length_cons]
      omega
    · simp

theorem space_facts {c : Char} (space : isSpaceChar c = true) :
    isQuote c = false ∧ isIdentStart c = false := by
  have cases : ((((c = ' ' ∨ c = '\t') ∨ c = '\n') ∨ c = '\x0b') ∨ c = '\x0c') ∨ c = '\r' := by
    simpa [isSpaceChar, isArgBlank, isBlank] using space
  rcases cases with ((((rfl | rfl) | rfl) | rfl) | rfl) | rfl <;> exact ⟨rfl, rfl⟩

section Lexemes

variable {c : Char} {s : Text}

theorem lexemes_quoted (quote : isQuote c = true) :
    lexemes (c :: s) = (c :: (takeQuoted c s).1) :: lexemes (takeQuoted c s).2 := by
  rw [lexemes, if_pos quote]

theorem lexemes_word (start : isIdentStart c = true) :
    lexemes (c :: s) =
      (c :: s.takeWhile isIdentChar) :: lexemes (s.dropWhile isIdentChar) := by
  have noQuote := (start_facts start).2.2.2.2
  rw [lexemes, if_neg (by simp [noQuote]), if_pos start]

theorem lexemes_char (noQuote : isQuote c = false) (noStart : isIdentStart c = false) :
    lexemes (c :: s) = [c] :: lexemes s := by
  rw [lexemes, if_neg (by simp [noQuote]), if_neg (by simp [noStart])]

/-- The end of a word starts a lexeme. -/
theorem lexemes_dropWhile (s : Text) : lexemes (s.dropWhile isIdentChar) <:+ lexemes s := by
  induction s with
  | nil => exact List.suffix_refl _
  | cons c s ih =>
    by_cases ident : isIdentChar c = true
    · rw [List.dropWhile_cons_of_pos ident]
      cases start : isIdentStart c with
      | true =>
        rw [lexemes_word start]
        exact List.suffix_cons _ _
      | false =>
        rw [lexemes_char (identChar_facts ident).1 start]
        exact ih.trans (List.suffix_cons _ _)
    · rw [List.dropWhile_cons_of_neg ident]

theorem lexemes_cons_suffix (noIdent : isIdentChar c = false) (noQuote : isQuote c = false)
    {t : Text} (later : lexemes t <:+ lexemes (s.dropWhile isIdentChar)) :
    lexemes t <:+ lexemes ((c :: s).dropWhile isIdentChar) := by
  have noStart : isIdentStart c = false := by
    cases start : isIdentStart c with
    | false => rfl
    | true =>
      rw [identChar_of_start start] at noIdent
      cases noIdent
  rw [List.dropWhile_cons_of_neg (by simp [noIdent]), lexemes_char noQuote noStart]
  exact (later.trans (lexemes_dropWhile s)).trans (List.suffix_cons _ _)

theorem quote_facts (quote : isQuote c = true) : isIdentChar c = false := by
  rcases quote_cases quote with rfl | rfl <;> rfl

theorem lexemes_skip {p : Char → Bool}
    (single : ∀ c, p c = true → isQuote c = false ∧ isIdentStart c = false) (s : Text) :
    lexemes (s.dropWhile p) <:+ lexemes s := by
  induction s with
  | nil => exact List.suffix_refl _
  | cons c s ih =>
    by_cases skipped : p c = true
    · obtain ⟨noQuote, noStart⟩ := single c skipped
      rw [List.dropWhile_cons_of_pos skipped, lexemes_char noQuote noStart]
      exact ih.trans (List.suffix_cons _ _)
    · rw [List.dropWhile_cons_of_neg skipped]

theorem argBlank_facts (blank : isArgBlank c = true) :
    isQuote c = false ∧ isIdentStart c = false :=
  space_facts (by simp [isSpaceChar, blank])

/-- Invocations end between lexemes. -/
theorem collectArgsLoop_lexemes (depth : Nat) (arg s : Text) :
    lexemes (collectArgsLoop depth arg s).2 <:+ lexemes (s.dropWhile isIdentChar) := by
  fun_induction collectArgsLoop depth arg s with
  | case1 => exact List.suffix_refl _
  | case2 depth arg c rest quote ih =>
    rw [List.dropWhile_cons_of_neg (by simp [quote_facts quote]), lexemes_quoted quote]
    exact (ih.trans (lexemes_dropWhile _)).trans (List.suffix_cons _ _)
  | case3 depth arg rest noQuote ih => exact lexemes_cons_suffix rfl rfl ih
  | case4 depth arg c rest noQuote noOpen inner ih =>
    obtain ⟨rfl, -⟩ := inner
    exact lexemes_cons_suffix rfl rfl ih
  | case5 depth arg rest noQuote noOpen outer =>
    rw [List.dropWhile_cons_of_neg (by decide), lexemes_char rfl rfl]
    exact List.suffix_cons _ _
  | case6 depth arg c rest noQuote noOpen noInner noClose comma args after tail ih =>
    obtain ⟨rfl, -⟩ := comma
    rw [tail] at ih
    have skipped := lexemes_skip (fun c blank => argBlank_facts blank) rest
    rw [List.dropWhile_cons_of_neg (by decide), lexemes_char rfl rfl]
    exact ((ih.trans (lexemes_dropWhile _)).trans skipped).trans (List.suffix_cons _ _)
  | case7 depth arg c rest noQuote noOpen noInner noClose noComma ih =>
    cases ident : isIdentChar c with
    | true =>
      rw [List.dropWhile_cons_of_pos ident]
      exact ih
    | false => exact lexemes_cons_suffix ident (by simpa using noQuote) ih

theorem collectArgs_lexemes (s : Text) : lexemes (collectArgs s).2 <:+ lexemes s := by
  have skipped := lexemes_skip (fun c blank => argBlank_facts blank) s
  cases start : s.dropWhile isArgBlank with
  | nil =>
    have nothing : collectArgs s = ([], []) := by simp [collectArgs, start, collectArgsLoop]
    rw [nothing, lexemes]
    exact List.nil_suffix
  | cons c rest =>
    rw [start] at skipped
    apply List.IsSuffix.trans _ skipped
    by_cases closed : c = ')'
    · subst closed
      have empty : collectArgs s = ([], rest) := by simp only [collectArgs, start]
      rw [empty, lexemes_char rfl rfl]
      exact List.suffix_cons _ _
    · rw [collectArgs_start start closed]
      exact (collectArgsLoop_lexemes 0 [] _).trans (lexemes_dropWhile _)

end Lexemes

/-- Text between directives and comments, without the words that only one of the loops knows. -/
structure Ordinary (s : Text) : Prop where
  single : '\n' ∉ s.dropLast
  noComment : ∀ c, c = '/' ∨ c = '*' → ¬ [['/'], [c]] <:+: lexemes s
  noPragma : "_Pragma".toList ∉ lexemes s
  noDefined : "defined".toList ∉ lexemes s

/-- A line that is no directive; its newline may be at the end. -/
structure SingleLine (t : Text) : Prop extends Ordinary t where
  unspliced : ¬ ['\\', '\n'] <:+ t
  noDirective : (t.dropWhile isSpaceChar).head? ≠ some '#'

theorem Ordinary.suffix {s t : Text} (ordinary : Ordinary s) (text : t <:+ s)
    (parts : lexemes t <:+ lexemes s) : Ordinary t := by
  refine ⟨?_, ?_, ?_, ?_⟩
  · intro newline
    apply ordinary.single
    obtain ⟨front, rfl⟩ := text
    have some : t ≠ [] := by
      rintro rfl
      cases newline
    rw [List.dropLast_append_of_ne_nil some]
    exact List.mem_append_right _ newline
  · intro c which comment
    exact ordinary.noComment c which (comment.trans parts.isInfix)
  · intro word
    exact ordinary.noPragma (parts.mem word)
  · intro word
    exact ordinary.noDefined (parts.mem word)

section Names

variable (ctx : ExpandContext) (macros : MacroTable) {name : Text} (after : Text)

/-- Apart from their own words, both loops look at a name in the same way. -/
theorem lineName_eq (noPragma : name ≠ "_Pragma".toList) (noDefined : name ≠ "defined".toList) :
    lineName ctx macros name after = .ok (namePiece ctx macros [] name after) := by
  have plain : plainName name after = (.verbatim name, after) := if_neg noDefined
  unfold lineName namePiece
  split
  · rfl
  split
  · rfl
  cases macroFind macros name with
  | none => simp only [plain]
  | some m =>
    cases params : m.params with
    | none => simp [params]
    | some params' =>
      simp only [params]
      split <;> simp_all

theorem namePiece_rest (disabled : List Text) (noDefined : name ≠ "defined".toList) :
    (namePiece ctx macros disabled name after).2 <:+ after ∧
      lexemes (namePiece ctx macros disabled name after).2 <:+ lexemes after := by
  have plain : plainName name after = (.verbatim name, after) := if_neg noDefined
  have same : after <:+ after ∧ lexemes after <:+ lexemes after :=
    ⟨List.suffix_refl _, List.suffix_refl _⟩
  unfold namePiece
  split
  · exact same
  split
  · exact same
  split
  · rw [plain]
    exact same
  split
  · split
    · rw [plain]
      exact same
    · exact same
  split
  · next tail start =>
    have blanks := List.dropWhile_suffix (l := after) isBlank
    have skipped := lexemes_skip (p := isBlank)
      (fun c blank => argBlank_facts (by simp [isArgBlank, blank])) after
    rw [start] at blanks skipped
    rw [lexemes_char rfl rfl] at skipped
    constructor
    · exact ((collectArgs_suffix tail).trans (List.suffix_cons _ _)).trans blanks
    · exact ((collectArgs_lexemes tail).trans (List.suffix_cons _ _)).trans skipped
  · exact same

theorem nextPiece_rest {c : Char} {s : Text} (disabled : List Text)
    (noDefined : "defined".toList ∉ lexemes (c :: s)) :
    (nextPiece ctx macros disabled c s).2 <:+ s ∧
      lexemes (nextPiece ctx macros disabled c s).2 <:+ lexemes (c :: s) := by
  unfold nextPiece
  split
  · next quote =>
    rw [lexemes_quoted quote]
    refine ⟨⟨(takeQuoted c s).1, takeQuoted_append c s⟩, List.suffix_cons _ _⟩
  split
  · next start =>
    rw [lexemes_word start] at noDefined ⊢
    have other : c :: s.takeWhile isIdentChar ≠ "defined".toList := by
      intro same
      rw [same] at noDefined
      exact noDefined List.mem_cons_self
    obtain ⟨text, parts⟩ := namePiece_rest ctx macros (s.dropWhile isIdentChar) disabled other
    constructor
    · exact text.trans (List.dropWhile_suffix _)
    · exact parts.trans (List.suffix_cons _ _)
  · next noQuote noStart =>
    rw [lexemes_char (by simpa using noQuote) (by simpa using noStart)]
    exact ⟨List.suffix_refl _, List.suffix_cons _ _⟩

end Names

section Loop

variable {files : Files} {preprocessFile : FileReader} {sourcePath : Text} {fuel : Nat}
  {macros : MacroTable} {site : ExpandContext} {frames : List CondFrame}

/-- The loop is on a line that it expands with `macros` at `site`. -/
structure OnLine (sourcePath : Text) (macros : MacroTable) (site : ExpandContext)
    (frames : List CondFrame) (st : Source) : Prop where
  table : st.macros = macros
  active : st.emitting = true
  stack : st.condStack = frames
  line : st.rest = [] ∨ Ordinary st.rest ∧ st.site sourcePath = site ∧
    (st.lineHasContent = false → (st.rest.dropWhile isSpaceChar).head? ≠ some '#')

variable (files preprocessFile fuel) in
/-- One round of the loop reads what the loop of a rescan reads. -/
theorem OnLine.step {st : Source} {c : Char} {s : Text}
    (on : OnLine sourcePath macros site frames st) (rest : st.rest = c :: s) :
    ∃ st', OnLine sourcePath macros site frames st' ∧
      st'.rest = (nextPiece site macros [] c s).2 ∧
      preprocessStep files preprocessFile sourcePath fuel st c s =
        (expandPiece (expandMacrosText site macros fuel) [] []
          (nextPiece site macros [] c s).1).andThen fun out => .returns (out, st') := by
  obtain ⟨rfl, active, stack, line⟩ := on
  rw [rest] at line
  obtain ⟨ordinary, rfl, directive⟩ := line.resolve_left (List.cons_ne_nil c s)
  obtain ⟨text, parts⟩ := nextPiece_rest (st.site sourcePath) st.macros [] ordinary.noDefined
  have next := ordinary.suffix (text.trans (List.suffix_cons c s)) parts
  have copied : isQuote c = false → isIdentStart c = false →
      nextPiece (st.site sourcePath) st.macros [] c s = (.verbatim [c], s) := by
    intro noQuote noStart
    rw [nextPiece, if_neg (by simp [noQuote]), if_neg (by simp [noStart])]
  by_cases newline : c = '\n'
  · subst newline
    have last : s = [] := by
      cases s with
      | nil => rfl
      | cons d s => exact absurd List.mem_cons_self ordinary.single
    rw [copied rfl rfl, step_newline]
    refine ⟨{ st with rest := s, currentLine := st.currentLine + 1, lineHasContent := false },
      ⟨rfl, active, stack, .inl last⟩, rfl, ?_⟩
    simp [expandPiece]
  cases space : isSpaceChar c with
  | true =>
    obtain ⟨noQuote, noStart⟩ := space_facts space
    rw [copied noQuote noStart] at next ⊢
    rw [step_space st newline space]
    refine ⟨st.before s, ⟨rfl, active, stack, .inr ⟨next, rfl, ?_⟩⟩, rfl, ?_⟩
    · intro empty
      have here := directive empty
      rwa [List.dropWhile_cons_of_pos space] at here
    · simp [expandPiece, Source.emit, active]
  | false =>
    cases quote : isQuote c with
    | true =>
      have piece : nextPiece (st.site sourcePath) st.macros [] c s =
          (.verbatim (c :: (takeQuoted c s).1), (takeQuoted c s).2) := if_pos quote
      rw [piece] at next ⊢
      rw [step_literal st quote]
      refine ⟨{ st with rest := (takeQuoted c s).2, lineHasContent := true },
        ⟨rfl, active, stack, .inr ⟨next, rfl, by simp⟩⟩, rfl, ?_⟩
      simp [expandPiece, Source.emit, active]
    | false =>
      cases start : isIdentStart c with
      | true =>
        have piece : nextPiece (st.site sourcePath) st.macros [] c s =
            namePiece (st.site sourcePath) st.macros [] (c :: s.takeWhile isIdentChar)
              (s.dropWhile isIdentChar) := by
          rw [nextPiece, if_neg (by simp [quote]), if_pos start]
        have word : ∀ w, w ∉ lexemes (c :: s) → c :: s.takeWhile isIdentChar ≠ w := by
          rintro w absent rfl
          rw [lexemes_word start] at absent
          exact absent List.mem_cons_self
        have reads := lineName_eq (st.site sourcePath) st.macros (s.dropWhile isIdentChar)
          (word _ ordinary.noPragma) (word _ ordinary.noDefined)
        cases named : namePiece (st.site sourcePath) st.macros [] (c :: s.takeWhile isIdentChar)
          (s.dropWhile isIdentChar) with
        | mk found after =>
          rw [named] at piece reads
          rw [piece] at next ⊢
          rw [step_name st start, if_pos active, activeName_reads st reads]
          refine ⟨st.afterName sourcePath (c :: s.takeWhile isIdentChar)
            (s.dropWhile isIdentChar) found after, ⟨rfl, active, stack, .inr ⟨next, rfl, ?_⟩⟩,
            rfl, rfl⟩
          intro empty
          cases empty
      | false =>
        have noComment : c = '/' → s.head? ≠ some '/' ∧ s.head? ≠ some '*' := by
          rintro rfl
          have comment : ∀ d, d = '/' ∨ d = '*' → s.head? ≠ some d := by
            intro d which head
            apply ordinary.noComment d which
            obtain ⟨s, rfl⟩ : ∃ s', s = d :: s' := List.head?_eq_some_iff.mp head
            have plain : isQuote d = false ∧ isIdentStart d = false := by
              rcases which with rfl | rfl <;> exact ⟨rfl, rfl⟩
            rw [lexemes_char rfl rfl, lexemes_char plain.1 plain.2]
            exact ⟨[], lexemes s, rfl⟩
          exact ⟨comment _ (.inl rfl), comment _ (.inr rfl)⟩
        have noHash : c = '#' → st.lineHasContent = true := by
          rintro rfl
          cases content : st.lineHasContent with
          | true => rfl
          | false => exact absurd rfl (directive content)
        rw [copied quote start] at next ⊢
        rw [step_other st space noComment noHash quote start]
        refine ⟨{ st with rest := s, lineHasContent := true },
          ⟨rfl, active, stack, .inr ⟨next, rfl, by simp⟩⟩, rfl, ?_⟩
        simp [expandPiece, Source.emit, active]

/-- Any number of rounds give nothing else than the rescan of the line. -/
theorem loop_refines (n : Nat) {st : Source} (on : OnLine sourcePath macros site frames st) :
    (preprocessLoop files preprocessFile sourcePath fuel n st).text.Refines
      (expandMacrosText site macros (fuel + n) [] [] st.rest) := by
  induction n generalizing st with
  | zero => exact .inl rfl
  | succ n ih =>
    cases rest : st.rest with
    | nil =>
      rw [preprocessLoop_succ, rest]
      exact .inr rfl
    | cons c s =>
      obtain ⟨st', on', rest', step⟩ := on.step files preprocessFile fuel rest
      rw [preprocessLoop_succ, rest, ← Nat.add_assoc, expandMacrosText_succ, ← rest']
      simp only [step, Run.andThen_text, Run.andThen_assoc, Run.returns_andThen, Run.after_text]
      apply Run.Refines.andThen
      · apply expandPiece_refines
        intro disabled rescanning t
        exact expandMacrosText_refines (Nat.le_add_right fuel n) disabled rescanning t
      · intro out
        apply (ih on').andThen
        intro tail
        exact .inr rfl

/-- With a round for each character the loop gives what the rescan gives. -/
theorem refines_loop {k n : Nat} (le : k ≤ fuel) {st : Source} (rounds : st.rest.length < n)
    (on : OnLine sourcePath macros site frames st) :
    (expandMacrosText site macros k [] [] st.rest).Refines
      (preprocessLoop files preprocessFile sourcePath fuel n st).text := by
  induction k generalizing n st with
  | zero => exact .inl rfl
  | succ k ih =>
    cases n with
    | zero => cases rounds
    | succ n =>
      cases rest : st.rest with
      | nil =>
        rw [preprocessLoop_succ, rest]
        exact .inr rfl
      | cons c s =>
        obtain ⟨st', on', rest', step⟩ := on.step files preprocessFile fuel rest
        have shorter : (nextPiece site macros [] c s).2.length ≤ s.length :=
          nextPiece_rest_le site macros [] c s
        have rounds : st'.rest.length < n := by
          rw [rest, List.length_cons] at rounds
          rw [rest']
          omega
        rw [preprocessLoop_succ, rest, expandMacrosText_succ, ← rest']
        simp only [step, Run.andThen_text, Run.andThen_assoc, Run.returns_andThen, Run.after_text]
        apply Run.Refines.andThen
        · apply expandPiece_refines
          intro disabled rescanning t
          exact expandMacrosText_refines (Nat.le_of_succ_le le) disabled rescanning t
        · intro out
          apply (ih (Nat.le_of_succ_le le) rounds on').andThen
          intro tail
          exact .inr rfl

/-- A line opens and closes no group. -/
theorem loop_stack (n : Nat) {st : Source} (on : OnLine sourcePath macros site frames st)
    {p : Text × Source}
    (gives : (preprocessLoop files preprocessFile sourcePath fuel n st).Returns p) :
    p.2.condStack = frames := by
  induction n generalizing st p with
  | zero =>
    obtain ⟨log, gives⟩ := gives
    cases gives
  | succ n ih =>
    cases rest : st.rest with
    | nil =>
      rw [preprocessLoop_succ, rest] at gives
      rw [← Run.returns_iff.mp gives]
      exact on.stack
    | cons c s =>
      obtain ⟨st', on', -, step⟩ := on.step files preprocessFile fuel rest
      rw [preprocessLoop_succ, rest] at gives
      simp only [step, Run.andThen_assoc, Run.returns_andThen] at gives
      obtain ⟨out, -, gives⟩ := Run.andThen_returns_iff.mp gives
      obtain ⟨q, later, last⟩ := Run.andThen_returns_iff.mp gives
      have same : (out ++ q.1, q.2) = p := Run.returns_iff.mp last
      rw [← same]
      change q.2.condStack = frames
      exact ih on' later

end Loop

/-- Two runs that give the same with enough fuel. -/
theorem eventually_eq {α : Type} {f g : Nat → Run α}
    (grows : ∀ n k, n ≤ k → (f n).Refines (f k)) (below : ∀ n, ∃ k, (g n).Refines (f k))
    (above : ∀ n, ∀ᶠ k in atTop, (f n).Refines (g k)) : ∀ᶠ n in atTop, g n = f n := by
  by_cases finished : ∃ n, f n ≠ none
  · obtain ⟨n, finished⟩ := finished
    filter_upwards [above n, eventually_ge_atTop n] with k reached le
    rw [reached.eq_of_ne finished, (grows n k le).eq_of_ne finished]
  · have never : ∀ n, f n = none := fun n => by
      by_contra some
      exact finished ⟨n, some⟩
    apply Eventually.of_forall
    intro n
    obtain ⟨k, refines⟩ := below n
    rw [never n]
    rcases refines with none | same
    · exact none
    · rw [same, never k]

theorem spliceLines_eq {t : Text} (single : '\n' ∉ t.dropLast) (unspliced : ¬ ['\\', '\n'] <:+ t) :
    spliceLines t = t := by
  induction t with
  | nil => rfl
  | cons c s ih =>
    have kept : spliceLines (c :: s) = c :: spliceLines s := by
      rw [spliceLines]
      rintro rest rfl rfl
      cases rest with
      | nil => exact unspliced (List.suffix_refl _)
      | cons d rest => simp at single
    rw [kept, ih]
    · intro newline
      apply single
      cases s with
      | nil => cases newline
      | cons d s => exact List.mem_cons_of_mem c newline
    · intro spliced
      exact unspliced (spliced.trans (List.suffix_cons c s))

theorem SingleLine.onLine {t : Text} (line : SingleLine t) (sourcePath : Text) (st : Source)
    (active : st.emitting = true) (rest : st.rest = t) :
    OnLine sourcePath st.macros (st.site sourcePath) st.condStack st := by
  refine ⟨rfl, active, rfl, .inr ⟨?_, rfl, fun _ => ?_⟩⟩
  · rw [rest]
    exact line.toOrdinary
  · rw [rest]
    exact line.noDirective

/-- The loop over a line and its rescan give the same with enough fuel. -/
theorem loop_eventually {files : Files} {preprocessFile : FileReader} {path t : Text} {st : Source}
    (line : SingleLine t) (active : st.emitting = true) (rest : st.rest = t) :
    ∀ᶠ n in atTop, (preprocessLoop files preprocessFile path n (t.length + 1) st).text =
      expandMacrosText (st.site path) st.macros n [] [] t := by
  subst rest
  have on := line.onLine path st active rfl
  apply eventually_eq
  · intro n k le
    exact expandMacrosText_refines le [] [] st.rest
  · intro n
    exact ⟨n + (st.rest.length + 1), loop_refines _ on⟩
  · intro n
    filter_upwards [eventually_ge_atTop n] with k le
    exact refines_loop le (Nat.lt_succ_self _) on

/-- A file with one line is what the loop makes of the line. -/
theorem preprocessSource_text {files : Files} {preprocessFile : FileReader} {path t : Text}
    {fuel : Nat} {shared : Shared} (line : SingleLine t) :
    (preprocessSource files preprocessFile path fuel shared t).text =
      (preprocessLoop files preprocessFile path fuel (t.length + 1)
        ((fileStart shared).before t)).text := by
  have spliced : spliceLines t = t := spliceLines_eq line.single line.unspliced
  have on := line.onLine path ((fileStart shared).before t) rfl rfl
  simp only [preprocessSource, spliced]
  rw [Run.text, Run.andThen_assoc]
  apply Run.andThen_congr
  intro p gives
  have closed : p.2.condStack = [] := loop_stack _ on gives
  rw [if_pos closed, Run.returns_andThen]

/-- The loop over text lines and `expand_macros_text` turn a line into the same text: in a file of
its own, and in any state of the loop. -/
theorem single_line_expanded (files : Files) {depth : Nat} (nested : depth ≤ maxIncludeDepth)
    (path : Text) (shared : Shared) {t : Text} (line : SingleLine t) :
    (∀ᶠ n in atTop, (preprocessInternal files n depth path t shared).text =
        expandMacrosText ⟨path, 1⟩ shared.macros n [] [] t) ∧
      ∀ (preprocessFile : FileReader) (st : Source), st.emitting = true → st.rest = t →
        ∀ᶠ n in atTop, (preprocessLoop files preprocessFile path n (t.length + 1) st).text =
          expandMacrosText (st.site path) st.macros n [] [] t := by
  constructor
  · apply eventually_eq
    · intro n k le
      exact expandMacrosText_refines le [] [] t
    · intro n
      cases n with
      | zero => exact ⟨0, .inl rfl⟩
      | succ n =>
        refine ⟨n + (t.length + 1), ?_⟩
        have on := line.onLine path ((fileStart shared).before t) rfl rfl
        rw [preprocessInternal, if_neg (Nat.not_lt.mpr nested), preprocessSource_text line]
        exact loop_refines _ on
    · intro n
      filter_upwards [eventually_ge_atTop (n + 1)] with k le
      cases k with
      | zero => cases le
      | succ k =>
        have on := line.onLine path ((fileStart shared).before t) rfl rfl
        rw [preprocessInternal, if_neg (Nat.not_lt.mpr nested), preprocessSource_text line]
        exact refines_loop (Nat.le_of_succ_le_succ le) (Nat.lt_succ_self _) on
  · intro preprocessFile st active rest
    exact loop_eventually line active rest

/-- A call of a macro whose replacement names another one. -/
theorem sample_line_expanded :
    (∀ᶠ n in atTop, (preprocessInternal noFiles n 0 "a.c".toList "F(x) / 2\n".toList
        ⟨[⟨['F'], some [['p']], false, ['p', '+', 'N']⟩, ⟨['N'], none, false, ['1']⟩], [],
          ⟨[], 0⟩⟩).text =
        expandMacrosText ⟨"a.c".toList, 1⟩
          [⟨['F'], some [['p']], false, ['p', '+', 'N']⟩, ⟨['N'], none, false, ['1']⟩] n [] []
          "F(x) / 2\n".toList) ∧
      ∀ (preprocessFile : FileReader) (st : Source), st.emitting = true →
        st.rest = "F(x) / 2\n".toList →
        ∀ᶠ n in atTop, (preprocessLoop noFiles preprocessFile "a.c".toList n
            ("F(x) / 2\n".toList.length + 1) st).text =
          expandMacrosText (st.site "a.c".toList) st.macros n [] [] "F(x) / 2\n".toList := by
  have parts : lexemes "F(x) / 2\n".toList =
      [['F'], ['('], ['x'], [')'], [' '], ['/'], [' '], ['2'], ['\n']] := by
    simp [lexemes, isQuote, isIdentStart, isIdentChar]
  have line : SingleLine "F(x) / 2\n".toList := by
    refine ⟨⟨by decide, ?_, ?_, ?_⟩, by decide, by decide⟩
    · rw [parts]
      rintro c (rfl | rfl) <;> decide
    · rw [parts]
      decide
    · rw [parts]
      decide
  exact single_line_expanded noFiles (Nat.zero_le _) "a.c".toList
    ⟨[⟨['F'], some [['p']], false, ['p', '+', 'N']⟩, ⟨['N'], none, false, ['1']⟩], [], ⟨[], 0⟩⟩ line

end ClaudeC99.Preprocessor
