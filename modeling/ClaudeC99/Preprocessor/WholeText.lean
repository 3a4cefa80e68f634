import ClaudeC99.Preprocessor.LineEnds
import ClaudeC99.Preprocessor.Scanner

/-! Text lines without a directive, whose constructs all end inside the text. -/

namespace ClaudeC99.Preprocessor

/-- Text that ends at the start of a line, or after the blanks and comments there. No construct of
it reaches past its end, a `//` comment ends with its own line, and a literal does not span lines.
`content` says that the line has had a token; invocations only count where the group is active. -/
inductive WholeText (macros : MacroTable) (active : Bool) : Bool → Text → Prop
  | nil : WholeText macros active false []
  | newline {content : Bool} {s : Text} :
    WholeText macros active false s → WholeText macros active content ('\n' :: s)
  | space {content : Bool} {c : Char} {s : Text} (other : c ≠ '\n') (space : isSpaceChar c = true) :
    WholeText macros active content s → WholeText macros active content (c :: s)
  | lineComment {content : Bool} {s : Text}
    (line : skipDirectiveTail ('/' :: '/' :: s) = s.dropWhile (· ≠ '\n'))
    (ends : s.dropWhile (· ≠ '\n') ≠ []) :
    WholeText macros active content (s.dropWhile (· ≠ '\n')) →
      WholeText macros active content ('/' :: '/' :: s)
  | blockComment {content : Bool} {s rest : Text} {lines : Nat}
    (closed : blockComment 0 s = some (lines, rest)) :
    WholeText macros active content rest → WholeText macros active content ('/' :: '*' :: s)
  | literal {content : Bool} {c : Char} {s : Text} (quote : isQuote c = true)
    (line : '\n' ∉ (takeQuoted c s).1) :
    WholeText macros active true (takeQuoted c s).2 → WholeText macros active content (c :: s)
  | skippedName {content : Bool} {c : Char} {s : Text} (inactive : active = false)
    (start : isIdentStart c = true) :
    WholeText macros active true (s.dropWhile isIdentChar) →
      WholeText macros active content (c :: s)
  | name {content : Bool} {c : Char} {s rest : Text} (isActive : active = true)
    (start : isIdentStart c = true)
    (reads : ∀ ctx, ∃ piece, lineName ctx macros (c :: s.takeWhile isIdentChar)
      (s.dropWhile isIdentChar) = .ok (piece, rest)) :
    WholeText macros active true rest → WholeText macros active content (c :: s)
  | other {content : Bool} {c : Char} {s : Text} (noSpace : isSpaceChar c = false)
    (noComment : c = '/' → s.head? ≠ some '/' ∧ s.head? ≠ some '*')
    (noHash : c = '#' → content = true) (noQuote : isQuote c = false)
    (noStart : isIdentStart c = false) :
    WholeText macros active true s → WholeText macros active content (c :: s)

theorem WholeText.dropWhile_ne {macros : MacroTable} {active : Bool} {t : Text}
    (whole : WholeText macros active true t) : t.dropWhile isBlank ≠ [] := by
  generalize inside : true = content at whole
  induction whole with
  | nil => cases inside
  | newline => simp [show isBlank '\n' = false by decide]
  | @space content c s other space whole ih =>
    cases blank : isBlank c with
    | true => simpa [blank] using ih inside
    | false => simp [blank]
  | lineComment => simp [show isBlank '/' = false by decide]
  | blockComment => simp [show isBlank '/' = false by decide]
  | literal quote =>
    rcases quote_cases quote with rfl | rfl
    · simp [show isBlank '"' = false by decide]
    · simp [show isBlank '\'' = false by decide]
  | @skippedName content c s inactive start =>
    have noBlank := (identChar_facts (identChar_of_start start)).2.1
    simp only [isArgBlank, Bool.or_eq_false_iff] at noBlank
    simp [noBlank.1]
  | @name content c s rest isActive start =>
    have noBlank := (identChar_facts (identChar_of_start start)).2.1
    simp only [isArgBlank, Bool.or_eq_false_iff] at noBlank
    simp [noBlank.1]
  | @other content c s noSpace =>
    have noBlank := argBlank_of_not_space noSpace
    simp only [isArgBlank, Bool.or_eq_false_iff] at noBlank
    simp [noBlank.1]

theorem WholeText.ne {macros : MacroTable} {active : Bool} {t : Text}
    (whole : WholeText macros active true t) : t ≠ [] := by
  rintro rfl
  exact whole.dropWhile_ne rfl

/-! One round for each construct -/

section Step

variable {files : Files} {preprocessFile : FileReader} {sourcePath : Text} {fuel : Nat}
  (st : Source)

theorem step_newline (s : Text) : preprocessStep files preprocessFile sourcePath fuel st '\n' s =
    .returns (['\n'],
      { st with rest := s, currentLine := st.currentLine + 1, lineHasContent := false }) := rfl

theorem step_space {c : Char} (other : c ≠ '\n') (space : isSpaceChar c = true) (s : Text) :
    preprocessStep files preprocessFile sourcePath fuel st c s =
      .returns (st.emit [c], st.before s) := by
  rw [preprocessStep, if_neg other, if_pos space]
  rfl

theorem step_lineComment (s : Text) :
    preprocessStep files preprocessFile sourcePath fuel st '/' ('/' :: s) =
      .returns ([], st.before (skipDirectiveTail ('/' :: '/' :: s))) := rfl

theorem step_blockComment {s rest : Text} {lines : Nat}
    (closed : blockComment 0 s = some (lines, rest)) :
    preprocessStep files preprocessFile sourcePath fuel st '/' ('*' :: s) =
      .returns (List.replicate lines '\n' ++ st.emit [' '],
        { st with rest, currentLine := st.currentLine + lines }) := by
  simp [preprocessStep, closed, show isSpaceChar '/' = false by decide]

theorem step_literal {c : Char} (quote : isQuote c = true) (s : Text) :
    preprocessStep files preprocessFile sourcePath fuel st c s =
      .returns (st.emit (c :: (takeQuoted c s).1),
        { st with rest := (takeQuoted c s).2, lineHasContent := true }) := by
  rcases quote_cases quote with rfl | rfl
  · simp [preprocessStep, show isSpaceChar '"' = false by decide, quote]
  · simp [preprocessStep, show isSpaceChar '\'' = false by decide, quote]

theorem start_facts {c : Char} (start : isIdentStart c = true) :
    c ≠ '\n' ∧ isSpaceChar c = false ∧ c ≠ '/' ∧ c ≠ '#' ∧ isQuote c = false := by
  have head := isWord_head (c := c) (w := []) (by simp [isWord, start])
  refine ⟨?_, head.2.2.1, head.2.2.2.1, head.2.2.2.2, head.2.1⟩
  rintro rfl
  exact absurd start (by decide)

theorem step_name {c : Char} (start : isIdentStart c = true) (s : Text) :
    preprocessStep files preprocessFile sourcePath fuel st c s =
      if st.emitting then
        activeName sourcePath fuel st (c :: s.takeWhile isIdentChar) (s.dropWhile isIdentChar)
      else
        .returns ([], { st with rest := s.dropWhile isIdentChar, lineHasContent := true }) := by
  obtain ⟨line, space, slash, hash, quote⟩ := start_facts start
  simp [preprocessStep, line, space, slash, hash, quote, start]

/-- The state after a name whose piece is known. -/
def Source.afterName (st : Source) (sourcePath name after : Text) (piece : Piece) (rest : Text) :
    Source :=
  { st with
    rest
    context := match piece with
      | .verbatim _ => st.context
      | _ => st.site sourcePath
    oncePaths :=
      if name = "_Pragma".toList ∧ pragmaOnce after then st.oncePaths ++ [sourcePath]
      else st.oncePaths
    lineHasContent := true }

theorem activeName_reads {name after rest : Text} {piece : Piece}
    (reads : lineName (st.site sourcePath) st.macros name after = .ok (piece, rest)) :
    activeName sourcePath fuel st name after =
      (expandPiece (expandMacrosText (st.site sourcePath) st.macros fuel) [] [] piece).andThen
        fun out => .returns (out, st.afterName sourcePath name after piece rest) := by
  unfold activeName
  simp only [reads]
  rfl

theorem step_other {c : Char} {s : Text} (noSpace : isSpaceChar c = false)
    (noComment : c = '/' → s.head? ≠ some '/' ∧ s.head? ≠ some '*')
    (noHash : c = '#' → st.lineHasContent = true) (noQuote : isQuote c = false)
    (noStart : isIdentStart c = false) :
    preprocessStep files preprocessFile sourcePath fuel st c s =
      .returns (st.emit [c], { st with rest := s, lineHasContent := true }) := by
  have line : c ≠ '\n' := by
    rintro rfl
    exact absurd noSpace (by decide)
  have lineComment : ¬ (c = '/' ∧ s.head? = some '/') := fun h => (noComment h.1).1 h.2
  have blockComment : ¬ (c = '/' ∧ s.head? = some '*') := fun h => (noComment h.1).2 h.2
  have hash : ¬ (c = '#' ∧ st.lineHasContent = false) := fun h => by
    rw [noHash h.1] at h
    cases h.2
  rw [preprocessStep, if_neg line, if_neg (by simp [noSpace]), if_neg lineComment,
    if_neg blockComment, if_neg hash, if_neg (by simp [noQuote]), if_neg (by simp [noStart])]

end Step

theorem lineName_pragma {ctx : ExpandContext} {macros : MacroTable} {t rest : Text} {piece : Piece}
    (reads : lineName ctx macros "_Pragma".toList t = .ok (piece, rest)) :
    skipPragma t = .ok rest := by
  have pragma : lineName ctx macros "_Pragma".toList t =
      (skipPragma t).map fun rest => (.verbatim [], rest) := by
    simp [lineName]
  rw [pragma] at reads
  cases skips : skipPragma t with
  | error message =>
    rw [skips] at reads
    cases reads
  | ok rest' =>
    rw [skips] at reads
    cases reads
    rfl

theorem afterName_append {ctx : ExpandContext} {macros : MacroTable} {sourcePath name t rest : Text}
    {piece : Piece} (reads : lineName ctx macros name t = .ok (piece, rest)) (st : Source)
    (u : Text) : st.afterName sourcePath name (t ++ u) piece (rest ++ u) =
      (st.afterName sourcePath name t piece rest).before (rest ++ u) := by
  unfold Source.afterName Source.before
  by_cases pragma : name = "_Pragma".toList
  · subst pragma
    rw [pragmaOnce_append (lineName_pragma reads)]
  · simp only [pragma, false_and, if_false]

/-! Whole texts -/

section Reads

variable (files : Files) (preprocessFile : FileReader) (sourcePath : Text) (fuel : Nat)

/-- The state inside conditionals. -/
def Source.under (st : Source) (frames : List CondFrame) (active : Bool) : Source :=
  { st with emitting := active, condStack := frames }

/-- In an active group the loop reads `t` to its end in the same way under all conditionals. -/
def Source.Reads (st : Source) (t : Text) : Prop :=
  ∃ m : Run (Text × Source),
    (∀ p, m.Returns p → p.2.rest = [] ∧ p.2.lineHasContent = false) ∧
      ∀ frames, Consumes files preprocessFile sourcePath fuel (st.under frames true) t
        (m.placed fun st' => st'.under frames true)

variable {files preprocessFile sourcePath fuel}

theorem reads_round {st : Source} {c : Char} {s : Text} (rest : Text) (m : Run (Text × Source))
    (step : ∀ frames x u, preprocessStep files preprocessFile sourcePath fuel
      ((st.under frames true).before x) c (s ++ u) =
        m.andThen fun p => .returns (p.1, (p.2.under frames true).before (rest ++ u)))
    (shorter : rest.length ≤ s.length)
    (next : ∀ p, m.Returns p → p.2.Reads files preprocessFile sourcePath fuel rest) :
    st.Reads files preprocessFile sourcePath fuel (c :: s) := by
  have round (frames : List CondFrame) (n : Nat) (u : Text) :
      preprocessLoop files preprocessFile sourcePath fuel (n + 1)
        { st.under frames true with rest := c :: s ++ u } =
      m.andThen fun p => .after p.1 (preprocessLoop files preprocessFile sourcePath fuel n
        ((p.2.under frames true).before (rest ++ u))) := by
    have here := step frames (c :: s ++ u) u
    rw [preprocessLoop_succ]
    dsimp only [List.cons_append, Source.before] at here ⊢
    rw [here, Run.andThen_assoc]
    simp only [Run.returns_andThen]
  by_cases returned : ∃ p, m.Returns p
  · obtain ⟨p, log, rfl⟩ := returned
    obtain ⟨m', whole, consumes⟩ := next p ⟨log, rfl⟩
    refine ⟨.logged log (.after p.1 m'), fun q gives => ?_, fun frames => ?_⟩
    · rw [← Run.ok_andThen log p fun p => .after p.1 m', Run.andThen_returns_iff] at gives
      obtain ⟨_, _, gives⟩ := gives
      rw [Run.after, Run.andThen_returns_iff] at gives
      obtain ⟨q', gives', same⟩ := gives
      rw [Run.returns_iff] at same
      subst same
      exact whole q' gives'
    · obtain ⟨k, le, reads⟩ := consumes frames
      refine ⟨k + 1, Nat.succ_le_succ (le.trans shorter), fun n r => ?_⟩
      have more := reads n r
      rw [← Nat.add_assoc, round, Run.ok_andThen]
      dsimp only [Source.before] at more ⊢
      rw [more]
      simp only [Run.placed, Run.after, Run.logged_andThen, Run.andThen_assoc,
        Run.returns_andThen, List.append_assoc]
  · refine ⟨m, fun p gives => absurd ⟨p, gives⟩ returned, fun frames => ?_⟩
    refine ⟨1, by simp, fun n r => ?_⟩
    have never : ∀ f g : Text × Source → Run (Text × Source), m.andThen f = m.andThen g :=
      fun f g => Run.andThen_congr fun p gives => absurd ⟨p, gives⟩ returned
    rw [round, Run.placed, Run.andThen_assoc]
    exact never _ _

theorem lineComment_append {s : Text}
    (line : skipDirectiveTail ('/' :: '/' :: s) = s.dropWhile (· ≠ '\n'))
    (ends : s.dropWhile (· ≠ '\n') ≠ []) (u : Text) :
    skipDirectiveTail ('/' :: '/' :: (s ++ u)) = s.dropWhile (· ≠ '\n') ++ u := by
  have more := skipDirectiveTail_append_of_ne (by rwa [line]) u
  rwa [line] at more

theorem WholeText.reads {macros : MacroTable} {content : Bool} {t : Text}
    (whole : WholeText macros true content t) (st : Source) (table : st.macros = macros)
    (inLine : st.lineHasContent = content) :
    st.Reads files preprocessFile sourcePath fuel t := by
  induction whole generalizing st with
  | nil =>
    refine ⟨.returns ([], st.before []), fun p gives => ?_, fun frames => ?_⟩
    · rw [Run.returns_iff] at gives
      subst gives
      exact ⟨rfl, inLine⟩
    · exact ⟨0, le_rfl, fun n r => by simp [Source.before, Source.under]⟩
  | @newline _ s _ ih =>
    refine reads_round s (.returns (['\n'],
      { st with currentLine := st.currentLine + 1, lineHasContent := false }))
      (fun frames x u => ?_) le_rfl fun p gives => ?_
    · rw [step_newline, Run.returns_andThen]
      rfl
    · rw [Run.returns_iff] at gives
      subst gives
      exact ih _ table rfl
  | @space _ c s other space _ ih =>
    refine reads_round s (.returns ([c], st)) (fun frames x u => ?_) le_rfl
      fun p gives => ?_
    · rw [step_space _ other space, Run.returns_andThen]
      rfl
    · rw [Run.returns_iff] at gives
      subst gives
      exact ih _ table inLine
  | @lineComment _ s line ends _ ih =>
    refine reads_round (s.dropWhile (· ≠ '\n')) (.returns ([], st))
      (fun frames x u => ?_)
      ((dropWhile_length_le _ s).trans (Nat.le_succ _)) fun p gives => ?_
    · rw [List.cons_append, step_lineComment, lineComment_append line ends, Run.returns_andThen]
      rfl
    · rw [Run.returns_iff] at gives
      subst gives
      exact ih _ table inLine
  | @blockComment _ s rest lines closed _ ih =>
    refine reads_round rest (.returns (List.replicate lines '\n' ++ [' '],
      { st with currentLine := st.currentLine + lines })) (fun frames x u => ?_)
      ((blockComment_length closed).trans (Nat.le_succ _)) fun p gives => ?_
    · rw [List.cons_append, step_blockComment _ (blockComment_append closed u),
        Run.returns_andThen]
      rfl
    · rw [Run.returns_iff] at gives
      subst gives
      exact ih _ table inLine
  | @literal _ c s quote line whole ih =>
    refine reads_round ((takeQuoted c s).2) (.returns (c :: (takeQuoted c s).1,
      { st with lineHasContent := true })) (fun frames x u => ?_)
      (Nat.le.intro ((Nat.add_comm _ _).trans (takeQuoted_length c s))) fun p gives => ?_
    · rw [step_literal _ quote, takeQuoted_append_of_ne quote whole.ne, Run.returns_andThen]
      rfl
    · rw [Run.returns_iff] at gives
      subst gives
      exact ih _ table rfl
  | skippedName inactive => cases inactive
  | @name _ c s rest _ start reads whole ih =>
    obtain ⟨piece, here⟩ := reads (st.site sourcePath)
    subst table
    have after : s.dropWhile isIdentChar ≠ [] := by
      intro none
      have shorter := (lineName_suffix here).length_le
      rw [none, List.length_nil, Nat.le_zero, List.length_eq_zero_iff] at shorter
      exact whole.ne shorter
    refine reads_round rest
      ((expandPiece (expandMacrosText (st.site sourcePath) st.macros fuel) [] [] piece).andThen
        fun out => .returns (out, st.afterName sourcePath (c :: s.takeWhile isIdentChar)
          (s.dropWhile isIdentChar) piece rest))
      (fun frames x u => ?_) ?_ fun p gives => ?_
    · have reads' := lineName_append here whole.dropWhile_ne u
      rw [step_name _ start, takeWhile_append_of_ne after, dropWhile_append_of_ne after]
      change activeName sourcePath fuel _ _ _ = _
      rw [activeName_reads ((st.under frames true).before x) reads', Run.andThen_assoc]
      refine Run.andThen_congr fun out _ => ?_
      rw [Run.returns_andThen, afterName_append here]
      rfl
    · exact (lineName_suffix here).length_le.trans (dropWhile_length_le isIdentChar s)
    · rw [Run.andThen_returns_iff] at gives
      obtain ⟨out, _, gives⟩ := gives
      rw [Run.returns_iff] at gives
      subst gives
      exact ih _ rfl rfl
  | @other _ c s noSpace noComment noHash noQuote noStart whole ih =>
    have head (u : Text) : (s ++ u).head? = s.head? := List.head?_append_of_ne_nil s whole.ne
    refine reads_round s (.returns ([c], { st with lineHasContent := true }))
      (fun frames x u => ?_) le_rfl fun p gives => ?_
    · rw [step_other ((st.under frames true).before x) noSpace (by rwa [head]) (fun hash => inLine.trans (noHash hash)) noQuote
        noStart, Run.returns_andThen]
      rfl
    · rw [Run.returns_iff] at gives
      subst gives
      exact ih _ table rfl

/-- The state behind text that is skipped: its lines are counted. -/
def Source.skipped (st : Source) (t : Text) : Source :=
  { st with
    rest := []
    lineHasContent := false
    currentLine := st.currentLine + (t.count '\n' : Nat) }

/-- The newlines of a text. -/
def newlines (t : Text) : Text := List.replicate (t.count '\n') '\n'

theorem skipped_round {st : Source} {c : Char} {s : Text} {frames : List CondFrame} (rest : Text)
    (lines : Nat) (content : Bool) (counts : (c :: s).count '\n' = lines + rest.count '\n')
    (step : ∀ x u, preprocessStep files preprocessFile sourcePath fuel
      ((st.under frames false).before x) c (s ++ u) = .returns (List.replicate lines '\n',
        (Source.under { st with
          currentLine := st.currentLine + lines, lineHasContent := content }
            frames false).before (rest ++ u)))
    (shorter : rest.length ≤ s.length)
    (next : ∀ st : Source, st.lineHasContent = content →
      Consumes files preprocessFile sourcePath fuel (st.under frames false) rest
        (.returns (newlines rest, (st.skipped rest).under frames false))) :
    Consumes files preprocessFile sourcePath fuel (st.under frames false) (c :: s)
      (.returns (newlines (c :: s), (st.skipped (c :: s)).under frames false)) := by
  obtain ⟨k, le, reads⟩ := next
    { st with currentLine := st.currentLine + lines, lineHasContent := content } rfl
  refine ⟨k + 1, Nat.succ_le_succ (le.trans shorter), fun n r => ?_⟩
  have here := step (c :: s ++ r) r
  have more := reads n r
  rw [← Nat.add_assoc, preprocessLoop_succ]
  dsimp only [List.cons_append, Source.before] at here more ⊢
  rw [here, Run.returns_andThen, more, Run.returns_andThen, Run.returns_andThen, Run.after_after]
  simp only [newlines, counts, List.replicate_add, Source.skipped, Source.under, Nat.cast_add,
    Int.add_assoc]

theorem WholeText.skipped {macros : MacroTable} {content : Bool} {t : Text}
    (whole : WholeText macros false content t) (st : Source) (frames : List CondFrame)
    (inLine : st.lineHasContent = content) :
    Consumes files preprocessFile sourcePath fuel (st.under frames false) t
      (.returns (newlines t, (st.skipped t).under frames false)) := by
  have one {c : Char} {s rest : Text} (line : c ≠ '\n')
      (same : s.count '\n' = rest.count '\n') : (c :: s).count '\n' = 0 + rest.count '\n' := by
    rw [List.count_cons_of_ne line, Nat.zero_add, same]
  induction whole generalizing st with
  | nil =>
    refine ⟨0, le_rfl, fun n r => ?_⟩
    rw [Run.returns_andThen]
    simp [newlines, Source.skipped, Source.under, inLine]
  | @newline _ s _ ih =>
    refine skipped_round s 1 false ?_ (fun x u => ?_) le_rfl
      fun st' inLine => ih st' inLine
    · rw [List.count_cons_self, Nat.add_comm]
    · rw [step_newline]
      rfl
  | @space content c s other space _ ih =>
    refine skipped_round s 0 content (one other rfl)
      (fun x u => ?_) le_rfl fun st' inLine => ih st' inLine
    rw [step_space _ other space, ← inLine]
    simp [Source.emit, Source.under, Source.before]
  | @lineComment content s line ends _ ih =>
    have same := dropWhile_count (p := (· ≠ '\n')) (by decide) s
    refine skipped_round (s.dropWhile (· ≠ '\n')) 0 content
      (one (by decide) (by rw [List.count_cons_of_ne (by decide), same]))
      (fun x u => ?_) ((dropWhile_length_le _ s).trans (Nat.le_succ _))
      fun st' inLine => ih st' inLine
    rw [List.cons_append, step_lineComment, lineComment_append line ends, ← inLine]
    simp [Source.under, Source.before]
  | @blockComment content s rest lines closed _ ih =>
    have counts := blockComment_count closed
    refine skipped_round rest lines content ?_
      (fun x u => ?_) ((blockComment_length closed).trans (Nat.le_succ _))
      fun st' inLine => ih st' inLine
    · rw [List.count_cons_of_ne (by decide), List.count_cons_of_ne (by decide)]
      omega
    · rw [List.cons_append, step_blockComment _ (blockComment_append closed u), ← inLine]
      simp [Source.emit, Source.under, Source.before]
  | @literal content c s quote line whole ih =>
    have noNewline : c ≠ '\n' := by
      rcases quote_cases quote with rfl | rfl <;> decide
    have same : s.count '\n' = (takeQuoted c s).2.count '\n' := by
      conv_lhs => rw [← takeQuoted_append c s, List.count_append, List.count_eq_zero.mpr line,
        Nat.zero_add]
    refine skipped_round ((takeQuoted c s).2) 0 true
      (one noNewline same) (fun x u => ?_)
      (Nat.le.intro ((Nat.add_comm _ _).trans (takeQuoted_length c s)))
      fun st' inLine => ih st' inLine
    rw [step_literal _ quote, takeQuoted_append_of_ne quote whole.ne]
    simp [Source.emit, Source.under, Source.before]
  | @skippedName content c s _ start whole ih =>
    refine skipped_round (s.dropWhile isIdentChar) 0 true
      (one (start_facts start).1 (dropWhile_count (by decide) s)) (fun x u => ?_)
      (dropWhile_length_le _ s) fun st' inLine => ih st' inLine
    rw [step_name _ start, dropWhile_append_of_ne whole.ne]
    simp [Source.under, Source.before]
  | name isActive => cases isActive
  | @other content c s noSpace noComment noHash noQuote noStart whole ih =>
    have line : c ≠ '\n' := by
      rintro rfl
      exact absurd noSpace (by decide)
    have head (u : Text) : (s ++ u).head? = s.head? := List.head?_append_of_ne_nil s whole.ne
    refine skipped_round s 0 true (one line rfl)
      (fun x u => ?_) le_rfl fun st' inLine => ih st' inLine
    rw [step_other ((st.under frames false).before x) noSpace (by rwa [head])
      (fun hash => inLine.trans (noHash hash)) noQuote noStart]
    simp [Source.emit, Source.under, Source.before]

end Reads

end ClaudeC99.Preprocessor
