import ClaudeC99.Preprocessor.Rounds
import ClaudeC99.Preprocessor.Tokens
import Mathlib.Data.List.Infix

/-! Scanning functions that stop inside a text read nothing of what follows it. -/

namespace ClaudeC99.Preprocessor

/-! What a construct leaves is the end of what it began in. -/

theorem blockComment_suffix {lines : Nat} {s : Text} {q : Nat × Text}
    (closed : blockComment lines s = some q) : q.2 <:+ s := by
  fun_induction blockComment lines s with
  | case1 => cases closed
  | case2 lines s =>
    cases closed
    exact ⟨['*', '/'], rfl⟩
  | case3 lines c s _ ih => exact (ih closed).trans (List.suffix_cons c s)

theorem skipDirectiveTail_suffix (s : Text) : skipDirectiveTail s <:+ s := by
  fun_induction skipDirectiveTail s with
  | case1 => exact List.suffix_refl []
  | case2 s q closed ih =>
    exact ih.trans ((blockComment_suffix closed).trans ⟨['/', '*'], rfl⟩)
  | case3 s => exact List.nil_suffix
  | case4 s => exact List.suffix_refl _
  | case5 c s _ _ ih => exact ih.trans (List.suffix_cons c s)

theorem takeQuoted_suffix (quote : Char) (s : Text) : (takeQuoted quote s).2 <:+ s :=
  ⟨(takeQuoted quote s).1, takeQuoted_append quote s⟩

theorem collectArgsLoop_suffix (depth : Nat) (arg s : Text) :
    (collectArgsLoop depth arg s).2 <:+ s := by
  fun_induction collectArgsLoop depth arg s with
  | case1 => exact List.suffix_refl []
  | case2 depth arg c rest _ ih =>
    exact (ih.trans (takeQuoted_suffix c rest)).trans (List.suffix_cons c rest)
  | case3 depth arg rest _ ih => exact ih.trans (List.suffix_cons _ rest)
  | case4 depth arg c rest _ _ _ ih => exact ih.trans (List.suffix_cons _ rest)
  | case5 depth arg rest => exact List.suffix_cons _ rest
  | case6 depth arg c rest _ _ _ _ _ args after split ih =>
    rw [split] at ih
    exact (ih.trans (List.dropWhile_suffix isArgBlank)).trans (List.suffix_cons c rest)
  | case7 depth arg c rest _ _ _ _ _ ih => exact ih.trans (List.suffix_cons c rest)

theorem collectArgs_suffix (s : Text) : (collectArgs s).2 <:+ s := by
  have blanks := List.dropWhile_suffix (l := s) isArgBlank
  unfold collectArgs
  split
  · next rest start =>
    rw [start] at blanks
    exact (List.suffix_cons _ rest).trans blanks
  · exact (collectArgsLoop_suffix 0 [] _).trans blanks

theorem afterPragmaString_suffix (t : Text) : afterPragmaString t <:+ t := by
  fun_induction afterPragmaString t with
  | case1 => exact List.suffix_refl []
  | case2 s ih => exact ih.trans ⟨['\\', '"'], rfl⟩
  | case3 s ih => exact ih.trans ⟨['\\', '\\'], rfl⟩
  | case4 s => exact List.suffix_cons _ s
  | case5 s => exact List.suffix_refl _
  | case6 c s _ _ _ _ ih => exact ih.trans (List.suffix_cons c s)

/-! Newlines -/

theorem blockComment_count {lines total : Nat} {s rest : Text}
    (closed : blockComment lines s = some (total, rest)) :
    lines + s.count '\n' = total + rest.count '\n' := by
  fun_induction blockComment lines s with
  | case1 => cases closed
  | case2 lines s =>
    cases closed
    simp
  | case3 lines c s _ ih =>
    have more := ih closed
    rw [List.count_cons]
    split at more <;> simp_all
    omega

theorem dropWhile_count {p : Char → Bool} (inside : p '\n' = false) (s : Text) :
    s.count '\n' = (s.dropWhile p).count '\n' := by
  have none : (s.takeWhile p).count '\n' = 0 := by
    rw [List.count_eq_zero]
    intro member
    have holds := List.all_eq_true.mp List.all_takeWhile '\n' member
    rw [inside] at holds
    cases holds
  calc s.count '\n' = (s.takeWhile p ++ s.dropWhile p).count '\n' := by
        rw [List.takeWhile_append_dropWhile]
    _ = (s.dropWhile p).count '\n' := by rw [List.count_append, none, Nat.zero_add]

/-! Runs of characters -/

section Line

variable {p : Char → Bool} (newline : p '\n' = false)

include newline

theorem takeWhile_line (t r : Text) : (t ++ '\n' :: r).takeWhile p = t.takeWhile p := by
  induction t with
  | nil => simp [newline]
  | cons c t ih => cases h : p c <;> simp [h, ih]

theorem dropWhile_line (t r : Text) : (t ++ '\n' :: r).dropWhile p = t.dropWhile p ++ '\n' :: r := by
  induction t with
  | nil => simp [newline]
  | cons c t ih => cases h : p c <;> simp [h, ih]

end Line

theorem dropWhile_append_of_ne {p : Char → Bool} {t : Text} (ne : t.dropWhile p ≠ []) (u : Text) :
    (t ++ u).dropWhile p = t.dropWhile p ++ u := by
  induction t with
  | nil => exact absurd rfl ne
  | cons c t ih =>
    cases h : p c with
    | false => simp [h]
    | true =>
      simp only [List.dropWhile_cons, h, if_true] at ne
      simp [h, ih ne]

theorem takeWhile_append_of_ne {p : Char → Bool} {t : Text} (ne : t.dropWhile p ≠ []) (u : Text) :
    (t ++ u).takeWhile p = t.takeWhile p := by
  have whole : (t ++ u).takeWhile p ++ (t ++ u).dropWhile p = t.takeWhile p ++ t.dropWhile p ++ u := by
    rw [List.takeWhile_append_dropWhile, List.takeWhile_append_dropWhile]
  rw [dropWhile_append_of_ne ne, ← List.append_assoc] at whole
  exact List.append_cancel_right (List.append_cancel_right whole)

/-! Comments -/

theorem blockComment_append {lines : Nat} {t : Text} {q : Nat × Text}
    (closed : blockComment lines t = some q) (u : Text) :
    blockComment lines (t ++ u) = some (q.1, q.2 ++ u) := by
  fun_induction blockComment lines t with
  | case1 => cases closed
  | case2 lines s =>
    cases closed
    rfl
  | case3 lines c s other ih =>
    rw [List.cons_append, blockComment, ih closed]
    rintro s' rfl same
    cases s with
    | nil => simp [blockComment] at closed
    | cons d s =>
      cases same
      exact other s rfl rfl

theorem skipDirectiveTail_comment {s : Text} {q : Nat × Text} (closed : blockComment 0 s = some q) :
    skipDirectiveTail ('/' :: '*' :: s) = skipDirectiveTail q.2 := by
  rw [skipDirectiveTail]
  split <;> simp_all

theorem skipDirectiveTail_plain {c : Char} {s : Text} (plain : ∀ s', c = '/' → s = '*' :: s' → False) :
    skipDirectiveTail (c :: s) = if c = '\n' then c :: s else skipDirectiveTail s := by
  rw [skipDirectiveTail]
  exact plain

theorem skipDirectiveTail_append_of_ne {t : Text} (ne : skipDirectiveTail t ≠ []) (u : Text) :
    skipDirectiveTail (t ++ u) = skipDirectiveTail t ++ u := by
  fun_induction skipDirectiveTail t with
  | case1 => exact absurd rfl ne
  | case2 s q closed ih =>
    rw [List.cons_append, List.cons_append,
      skipDirectiveTail_comment (blockComment_append closed _)]
    exact ih ne
  | case3 => exact absurd rfl ne
  | case4 s other =>
    have plain : skipDirectiveTail ('\n' :: (s ++ u)) = '\n' :: (s ++ u) :=
      skipDirectiveTail_plain (by rintro s' h; cases h)
    rw [List.cons_append, plain]
  | case5 c s other newline ih =>
    have other' : ∀ s', c = '/' → s ++ u = '*' :: s' → False := by
      intro s' slash star
      cases s with
      | nil => exact ne (by rw [skipDirectiveTail])
      | cons d s =>
        cases star
        exact other s slash rfl
    rw [List.cons_append, skipDirectiveTail_plain other', if_neg newline]
    exact ih ne

/-- Neither a comment nor the end of the line begins in `p`. -/
theorem skipDirectiveTail_skip {p : Text} (plain : ∀ c ∈ p, c ≠ '/' ∧ c ≠ '\n') (s : Text) :
    skipDirectiveTail (p ++ s) = skipDirectiveTail s := by
  induction p with
  | nil => rfl
  | cons c p ih =>
    have here := plain c List.mem_cons_self
    rw [List.cons_append, skipDirectiveTail_plain fun s' slash _ => here.1 slash,
      if_neg here.2]
    exact ih fun d member => plain d (List.mem_cons_of_mem _ member)

/-! Literals and arguments -/

theorem takeQuoted_escape (quote c : Char) (t : Text) : takeQuoted quote ('\\' :: c :: t) =
    ('\\' :: c :: (takeQuoted quote t).1, (takeQuoted quote t).2) := by
  rw [takeQuoted]

theorem takeQuoted_append_of_ne {quote : Char} {t : Text} (isQ : isQuote quote = true)
    (ne : (takeQuoted quote t).2 ≠ []) (u : Text) :
    takeQuoted quote (t ++ u) = ((takeQuoted quote t).1, (takeQuoted quote t).2 ++ u) := by
  fun_induction takeQuoted quote t with
  | case1 => exact absurd rfl ne
  | case2 c t literal after split ih =>
    have rest := ih (by rwa [split])
    rw [split] at rest
    rw [List.cons_append, List.cons_append, takeQuoted_escape, rest]
  | case3 t =>
    have unescaped : quote ≠ '\\' := by
      rcases quote_cases isQ with rfl | rfl <;> decide
    rw [List.cons_append, takeQuoted_cons unescaped, if_pos rfl]
  | case4 t plain other =>
    rw [List.cons_append, takeQuoted_cons (by decide), if_neg other, if_pos rfl]
  | case5 c t plain other line literal after split ih =>
    have rest := ih (by rwa [split])
    have unescaped : c ≠ '\\' := by
      rintro rfl
      cases t with
      | nil =>
        rw [takeQuoted] at split
        cases split
        exact ne rfl
      | cons d t => exact plain d t rfl rfl
    rw [split] at rest
    rw [List.cons_append, takeQuoted_cons unescaped, if_neg other, if_neg line, rest]

theorem collectArgsLoop_append_of_ne {depth : Nat} {arg t : Text}
    (ne : (collectArgsLoop depth arg t).2 ≠ []) (u : Text) :
    collectArgsLoop depth arg (t ++ u) =
      ((collectArgsLoop depth arg t).1, (collectArgsLoop depth arg t).2 ++ u) := by
  fun_induction collectArgsLoop depth arg t with
  | case1 => exact absurd rfl ne
  | case2 depth arg c rest quote ih =>
    have literal : (takeQuoted c rest).2 ≠ [] := by
      intro none
      rw [none, collectArgsLoop] at ne
      exact ne rfl
    rw [List.cons_append, collectArgsLoop, if_pos quote,
      takeQuoted_append_of_ne quote literal]
    exact ih ne
  | case3 depth arg rest noQuote ih =>
    rw [List.cons_append, collectArgsLoop]
    simp only [noQuote, ↓reduceIte]
    exact ih ne
  | case4 depth arg c rest noQuote noOpen inner ih =>
    rw [List.cons_append, collectArgsLoop, if_neg noQuote, if_neg noOpen, if_pos inner]
    exact ih ne
  | case5 depth arg rest noQuote noOpen outer =>
    rw [List.cons_append, collectArgsLoop, if_neg noQuote, if_neg noOpen, if_neg outer, if_pos rfl]
  | case6 depth arg c rest noQuote noOpen noInner noClose comma args after split ih =>
    have more : (collectArgsLoop 0 [] (rest.dropWhile isArgBlank)).2 ≠ [] := by
      rwa [split]
    have blanks : rest.dropWhile isArgBlank ≠ [] := by
      intro none
      rw [none, collectArgsLoop] at more
      exact more rfl
    have following := ih more
    rw [split] at following
    rw [List.cons_append, collectArgsLoop, if_neg noQuote, if_neg noOpen, if_neg noInner,
      if_neg noClose, if_pos comma, dropWhile_append_of_ne blanks, following]
  | case7 depth arg c rest noQuote noOpen noInner noClose noComma ih =>
    rw [List.cons_append, collectArgsLoop, if_neg noQuote, if_neg noOpen, if_neg noInner,
      if_neg noClose, if_neg noComma]
    exact ih ne

theorem collectArgs_start {t rest : Text} {c : Char} (start : t.dropWhile isArgBlank = c :: rest)
    (other : c ≠ ')') : collectArgs t = collectArgsLoop 0 [] (c :: rest) := by
  unfold collectArgs
  rw [start]
  split
  · rename_i same
    cases same
    exact absurd rfl other
  · rfl

theorem collectArgs_append_of_ne {t : Text} (ne : (collectArgs t).2 ≠ []) (u : Text) :
    collectArgs (t ++ u) = ((collectArgs t).1, (collectArgs t).2 ++ u) := by
  cases start : t.dropWhile isArgBlank with
  | nil =>
    have empty : (collectArgs t).2 = [] := by simp [collectArgs, start, collectArgsLoop]
    exact absurd empty ne
  | cons c rest =>
    have skipped := dropWhile_append_of_ne (by rw [start]; exact List.cons_ne_nil c rest) u
    rw [start, List.cons_append] at skipped
    by_cases closed : c = ')'
    · subst closed
      simp only [collectArgs, skipped, start]
    · rw [collectArgs_start skipped closed]
      rw [collectArgs_start start closed] at ne ⊢
      exact collectArgsLoop_append_of_ne ne u

/-! Names -/

theorem afterPragmaString_plain {c : Char} {s : Text} (quote : ∀ s', c = '\\' → s = '"' :: s' → False)
    (slash : ∀ s', c = '\\' → s = '\\' :: s' → False) : afterPragmaString (c :: s) =
      if c = '"' then s else if c = '\n' then c :: s else afterPragmaString s := by
  rw [afterPragmaString]
  · exact quote
  · exact slash

theorem afterPragmaString_append_of_ne {t : Text} (ne : afterPragmaString t ≠ []) (u : Text) :
    afterPragmaString (t ++ u) = afterPragmaString t ++ u := by
  fun_induction afterPragmaString t with
  | case1 => exact absurd rfl ne
  | case2 s ih | case3 s ih => exact ih ne
  | case4 s => rfl
  | case5 s => rfl
  | case6 c s noQuote noSlash other line ih =>
    have plain (d : Char) (other : ∀ s', c = '\\' → s = d :: s' → False) :
        ∀ s', c = '\\' → s ++ u = d :: s' → False := by
      intro s' slash same
      cases s with
      | nil => exact ne (by rw [afterPragmaString])
      | cons e s =>
        cases same
        exact other s slash rfl
    rw [List.cons_append, afterPragmaString_plain (plain '"' noQuote) (plain '\\' noSlash),
      if_neg other, if_neg line]
    exact ih ne

theorem skipPragma_parts {t rest : Text} (skips : skipPragma t = .ok rest) :
    ∃ s s' , t.dropWhile isBlank = '(' :: s ∧ s.dropWhile isBlank = '"' :: s' ∧
      (afterPragmaString s').dropWhile isBlank = ')' :: rest := by
  unfold skipPragma at skips
  split at skips
  case h_2 => cases skips
  case h_1 _ s start =>
    split at skips
    case h_2 => cases skips
    case h_1 _ s' inner =>
      split at skips
      case h_2 => cases skips
      case h_1 _ rest' close =>
        cases skips
        exact ⟨s, s', start, inner, close⟩

theorem skipPragma_append {t rest : Text} (skips : skipPragma t = .ok rest) (u : Text) :
    skipPragma (t ++ u) = .ok (rest ++ u) := by
  obtain ⟨s, s', start, inner, close⟩ := skipPragma_parts skips
  have string : afterPragmaString s' ≠ [] := by
    intro none
    rw [none] at close
    cases close
  have opened := dropWhile_append_of_ne (by rw [start]; exact List.cons_ne_nil _ _) u
  have quoted := dropWhile_append_of_ne (by rw [inner]; exact List.cons_ne_nil _ _) u
  have closed := dropWhile_append_of_ne (by rw [close]; exact List.cons_ne_nil _ _) u
  unfold skipPragma
  simp only [opened, start, List.cons_append, quoted, inner,
    afterPragmaString_append_of_ne string, closed, close]

/-- The string of the operand ends inside `t`. -/
theorem pragmaOnce_append {t rest : Text} (skips : skipPragma t = .ok rest) (u : Text) :
    pragmaOnce (t ++ u) = pragmaOnce t := by
  obtain ⟨s, s', start, inner, close⟩ := skipPragma_parts skips
  have opened := dropWhile_append_of_ne (by rw [start]; exact List.cons_ne_nil _ _) u
  have quoted := dropWhile_append_of_ne (by rw [inner]; exact List.cons_ne_nil _ _) u
  simp only [pragmaOnce, opened, start, List.cons_append, List.drop_succ_cons, List.drop_zero,
    quoted, inner]
  rw [Bool.eq_iff_iff, List.isPrefixOf_iff_prefix, List.isPrefixOf_iff_prefix]
  refine ⟨fun once => ?_, fun once => once.trans (List.prefix_append ('"' :: s') u)⟩
  rcases List.prefix_or_prefix_of_prefix once (List.prefix_append ('"' :: s') u) with here | short
  · exact here
  · have within : s' ∈ ("once\"".toList).inits :=
      (List.mem_inits s' _).mpr (List.prefix_cons_inj _ |>.mp short)
    have unclosed : ∀ v ∈ ("once\"".toList).inits, afterPragmaString v = [] := by decide
    rw [unclosed s' within] at close
    cases close

theorem skipPragma_suffix {t rest : Text} (skips : skipPragma t = .ok rest) : rest <:+ t := by
  obtain ⟨s, s', start, inner, close⟩ := skipPragma_parts skips
  have opening := List.dropWhile_suffix (l := t) isBlank
  have blanks := List.dropWhile_suffix (l := s) isBlank
  have closing := List.dropWhile_suffix (l := afterPragmaString s') isBlank
  rw [start] at opening
  rw [inner] at blanks
  rw [close] at closing
  calc rest <:+ ')' :: rest := List.suffix_cons _ rest
    _ <:+ afterPragmaString s' := closing
    _ <:+ s' := afterPragmaString_suffix s'
    _ <:+ '"' :: s' := List.suffix_cons _ s'
    _ <:+ s := blanks
    _ <:+ '(' :: s := List.suffix_cons _ s
    _ <:+ t := opening

theorem lineName_append {ctx : ExpandContext} {macros : MacroTable} {name t rest : Text}
    {piece : Piece} (reads : lineName ctx macros name t = .ok (piece, rest))
    (ne : rest.dropWhile isBlank ≠ []) (u : Text) :
    lineName ctx macros name (t ++ u) = .ok (piece, rest ++ u) := by
  have more : rest ≠ [] := by
    rintro rfl
    exact ne rfl
  unfold lineName at reads ⊢
  by_cases file : name = "__FILE__".toList
  · rw [if_pos file] at reads ⊢
    cases reads
    rfl
  by_cases line : name = "__LINE__".toList
  · rw [if_neg file, if_pos line] at reads ⊢
    cases reads
    rfl
  by_cases pragma : name = "_Pragma".toList
  · rw [if_neg file, if_neg line, if_pos pragma] at reads ⊢
    cases skips : skipPragma t with
    | error message =>
      rw [skips] at reads
      cases reads
    | ok rest' =>
      rw [skips] at reads
      cases reads
      rw [skipPragma_append skips]
      rfl
  rw [if_neg file, if_neg line, if_neg pragma] at reads ⊢
  cases found : macroFind macros name with
  | none =>
    rw [found] at reads
    cases reads
    rfl
  | some m =>
    rw [found] at reads
    cases kind : m.params with
    | none =>
      simp only [kind] at reads ⊢
      cases reads
      rfl
    | some params =>
      simp only [kind] at reads ⊢
      cases ahead : t.dropWhile isBlank with
      | nil =>
        rw [ahead] at reads
        cases reads
        exact absurd ahead ne
      | cons c tail =>
        have after := dropWhile_append_of_ne (by rw [ahead]; exact List.cons_ne_nil _ _) u
        rw [ahead, List.cons_append] at after
        rw [ahead] at reads
        rw [after]
        by_cases opens : c = '('
        · subst opens
          cases reads
          simp only [collectArgs_append_of_ne more]
        · simp [opens] at reads ⊢
          rw [reads.1, reads.2]
          exact ⟨rfl, rfl⟩

theorem lineName_suffix {ctx : ExpandContext} {macros : MacroTable} {name t rest : Text}
    {piece : Piece} (reads : lineName ctx macros name t = .ok (piece, rest)) : rest <:+ t := by
  unfold lineName at reads
  split at reads
  · cases reads
    exact List.suffix_refl t
  split at reads
  · cases reads
    exact List.suffix_refl t
  split at reads
  · cases skips : skipPragma t with
    | error message =>
      rw [skips] at reads
      cases reads
    | ok rest' =>
      rw [skips] at reads
      cases reads
      exact skipPragma_suffix skips
  split at reads
  · cases reads
    exact List.suffix_refl t
  split at reads
  · cases reads
    exact List.suffix_refl t
  split at reads
  · rename_i tail start
    simp only [Except.ok.injEq, Prod.mk.injEq] at reads
    obtain ⟨_, rfl⟩ := reads
    have blanks := List.dropWhile_suffix (l := t) isBlank
    rw [start] at blanks
    exact ((collectArgs_suffix tail).trans (List.suffix_cons _ tail)).trans blanks
  · cases reads
    exact List.suffix_refl t

end ClaudeC99.Preprocessor
