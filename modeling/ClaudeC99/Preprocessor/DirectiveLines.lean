import ClaudeC99.Preprocessor.LineEnds

/-! A directive reads its own line and leaves what follows it. -/

namespace ClaudeC99.Preprocessor

/-! Parameter lists -/

theorem threeDots_line (t r : Text) :
    threeDots (t ++ '\n' :: r) = (threeDots t).map fun rest => rest ++ '\n' :: r := by
  rcases t with _ | ⟨a, _ | ⟨b, _ | ⟨c, t⟩⟩⟩
  · simp [threeDots]
  · simp [threeDots]
  · simp [threeDots]
  · by_cases dots : a = '.' ∧ b = '.' ∧ c = '.'
    · obtain ⟨rfl, rfl, rfl⟩ := dots
      rfl
    · simp only [threeDots, List.cons_append]
      split
      · simp_all
      · split <;> simp_all

theorem closeVariadic_line (t r : Text) :
    closeVariadic (t ++ '\n' :: r) = (closeVariadic t).map fun rest => rest ++ '\n' :: r := by
  unfold closeVariadic
  rw [dropWhile_line (by decide)]
  cases t.dropWhile isBlank with
  | nil => simp [Except.map]
  | cons c s =>
    simp only [List.cons_append]
    split <;> simp_all [Except.map]

theorem head_line (t r : Text) : (t ++ '\n' :: r).head?.any isIdentStart = t.head?.any isIdentStart := by
  cases t with
  | nil => simp [show isIdentStart '\n' = false by decide]
  | cons c t => rfl

theorem readParamsLoop_name {s : Text} (noDots : threeDots s = none)
    (start : s.head?.any isIdentStart = true) (params : List Text) : readParamsLoop params s =
      match (s.dropWhile isIdentChar).dropWhile isBlank with
      | ')' :: rest => .ok (params ++ [s.takeWhile isIdentChar], false, rest)
      | ',' :: rest =>
        readParamsLoop (params ++ [s.takeWhile isIdentChar]) (rest.dropWhile isBlank)
      | _ => .error "error: expected ',' or ')' in macro parameter list" := by
  rw [readParamsLoop, noDots, start]
  simp only [Bool.not_true, Bool.false_eq_true, if_false]
  split <;> simp_all

theorem readParamsLoop_line (params : List Text) (t r : Text) :
    readParamsLoop params (t ++ '\n' :: r) =
      (readParamsLoop params t).map fun p => (p.1, p.2.1, p.2.2 ++ '\n' :: r) := by
  have names {params : List Text} {s : Text} (noDots : threeDots s = none)
      (start : ¬(!s.head?.any isIdentStart) = true) :=
    readParamsLoop_name (s := s ++ '\n' :: r) (by rw [threeDots_line, noDots]; rfl)
      (by rw [head_line]; simpa using start) params
  fun_induction readParamsLoop params t with
  | case1 params s rest dots =>
    rw [readParamsLoop, threeDots_line, dots]
    dsimp only [Option.map_some]
    rw [closeVariadic_line]
    cases closeVariadic rest <;> rfl
  | case2 params s noDots other =>
    rw [readParamsLoop, threeDots_line, noDots, head_line]
    dsimp only [Option.map_none]
    rw [if_pos other]
    rfl
  | case3 params s noDots start _ rest after =>
    rw [names noDots start, takeWhile_line (by decide), dropWhile_line (by decide),
      dropWhile_line (by decide), after]
    rfl
  | case4 params s noDots start _ rest after ih =>
    rw [names noDots start, takeWhile_line (by decide), dropWhile_line (by decide),
      dropWhile_line (by decide), after, ← ih, ← dropWhile_line (p := isBlank) (by decide)]
    rfl
  | case5 params s noDots start noClose noComma =>
    rw [names noDots start, takeWhile_line (by decide), dropWhile_line (by decide),
      dropWhile_line (by decide)]
    cases next : (s.dropWhile isIdentChar).dropWhile isBlank with
    | nil => simp [Except.map]
    | cons c u =>
      rw [List.cons_append]
      split
      · simp_all
      · simp_all
      · rfl

theorem readParams_line (t r : Text) : readParams (t ++ '\n' :: r) =
    (readParams t).map fun p => (p.1, p.2.1, p.2.2 ++ '\n' :: r) := by
  have loop := readParamsLoop_line [] (t.dropWhile isBlank) r
  unfold readParams
  rw [dropWhile_line (by decide)]
  cases start : t.dropWhile isBlank with
  | nil =>
    rw [start] at loop
    exact loop
  | cons c u =>
    rw [start, List.cons_append] at loop
    rw [List.cons_append]
    split
    · simp_all [Except.map]
    · split
      · simp_all
      · exact loop

/-- `rest` is `s` without characters at its front that begin no comment and end no line. -/
def Skips (s rest : Text) : Prop := ∃ p, s = p ++ rest ∧ ∀ c ∈ p, c ≠ '/' ∧ c ≠ '\n'

namespace Skips

variable {s t rest : Text}

theorem refl (s : Text) : Skips s s := ⟨[], rfl, by simp⟩

theorem trans (first : Skips s t) (second : Skips t rest) : Skips s rest := by
  obtain ⟨p, rfl, plain⟩ := first
  obtain ⟨q, rfl, plain'⟩ := second
  refine ⟨p ++ q, (List.append_assoc p q rest).symm, fun c member => ?_⟩
  rcases List.mem_append.mp member with here | here
  · exact plain c here
  · exact plain' c here

theorem cons {c : Char} (plain : c ≠ '/' ∧ c ≠ '\n') (skips : Skips s rest) :
    Skips (c :: s) rest := by
  obtain ⟨p, rfl, plain'⟩ := skips
  exact ⟨c :: p, rfl, List.forall_mem_cons.mpr ⟨plain, plain'⟩⟩

theorem dropWhile {p : Char → Bool} (plain : ∀ c, p c = true → c ≠ '/' ∧ c ≠ '\n') (s : Text) :
    Skips s (s.dropWhile p) :=
  ⟨s.takeWhile p, List.takeWhile_append_dropWhile.symm,
    fun c member => plain c (List.all_eq_true.mp List.all_takeWhile c member)⟩

theorem tail (skips : Skips s rest) : skipDirectiveTail s = skipDirectiveTail rest := by
  obtain ⟨p, rfl, plain⟩ := skips
  exact skipDirectiveTail_skip plain rest

theorem append (skips : Skips s rest) (u : Text) : Skips (s ++ u) (rest ++ u) := by
  obtain ⟨p, rfl, plain⟩ := skips
  exact ⟨p, List.append_assoc p rest u, plain⟩

end Skips

theorem threeDots_skips {s rest : Text} (dots : threeDots s = some rest) : Skips s rest := by
  unfold threeDots at dots
  split at dots
  · cases dots
    exact (((Skips.refl rest).cons (by decide)).cons (by decide)).cons (by decide)
  · cases dots

theorem blank_plain (c : Char) (blank : isBlank c = true) : c ≠ '/' ∧ c ≠ '\n' := by
  constructor <;> rintro rfl <;> exact absurd blank (by decide)

theorem ident_plain (c : Char) (ident : isIdentChar c = true) : c ≠ '/' ∧ c ≠ '\n' := by
  constructor <;> rintro rfl <;> exact absurd ident (by decide)

theorem closeVariadic_skips {s rest : Text} (closes : closeVariadic s = .ok rest) :
    Skips s rest := by
  unfold closeVariadic at closes
  split at closes
  · rename_i after
    cases closes
    have blanks := Skips.dropWhile blank_plain s
    rw [after] at blanks
    exact blanks.trans ((Skips.refl rest).cons (by decide))
  · cases closes

theorem readParamsLoop_skips {params : List Text} {s : Text} {q : List Text × Bool × Text}
    (reads : readParamsLoop params s = .ok q) : Skips s q.2.2 := by
  have toNext (s : Text) : Skips s ((s.dropWhile isIdentChar).dropWhile isBlank) :=
    (Skips.dropWhile ident_plain s).trans (Skips.dropWhile blank_plain _)
  fun_induction readParamsLoop params s with
  | case1 params s rest dots =>
    cases closes : closeVariadic rest with
    | error message =>
      rw [closes] at reads
      cases reads
    | ok after =>
      rw [closes] at reads
      cases reads
      exact (threeDots_skips dots).trans (closeVariadic_skips closes)
  | case2 => cases reads
  | case3 params s noDots start _ rest after =>
    cases reads
    have next := toNext s
    rw [after] at next
    exact next.trans ((Skips.refl rest).cons (by decide))
  | case4 params s noDots start _ rest after ih =>
    have next := toNext s
    rw [after] at next
    exact (next.trans ((Skips.dropWhile blank_plain rest).cons (by decide))).trans (ih reads)
  | case5 => cases reads

theorem readParams_skips {s : Text} {q : List Text × Bool × Text}
    (reads : readParams s = .ok q) : Skips s q.2.2 := by
  have blanks := Skips.dropWhile blank_plain s
  unfold readParams at reads
  split at reads
  · rename_i rest after
    cases reads
    rw [after] at blanks
    exact blanks.trans ((Skips.refl rest).cons (by decide))
  · exact blanks.trans (readParamsLoop_skips reads)

theorem macroParams_line (t r : Text) : macroParams (t ++ '\n' :: r) =
    (macroParams t).map fun p => (p.1, p.2.1, p.2.2 ++ '\n' :: r) := by
  cases t with
  | nil => simp [macroParams, Except.map]
  | cons c t =>
    by_cases list : c = '('
    · subst list
      simp only [List.cons_append, macroParams, readParams_line]
      cases readParams t <;> rfl
    · simp [macroParams, list, Except.map]

theorem macroParams_skips {s : Text} {q : Option (List Text) × Bool × Text}
    (reads : macroParams s = .ok q) : Skips s q.2.2 := by
  unfold macroParams at reads
  split at reads
  · rename_i list
    cases params : readParams list with
    | error message =>
      rw [params] at reads
      cases reads
    | ok p =>
      rw [params] at reads
      cases reads
      exact (readParams_skips params).cons (by decide)
  · cases reads
    exact Skips.refl _

/-- `skip_directive_tail` finds the newline of the directive's own line. -/
def EndsLine (tail : Text) : Prop := skipDirectiveTail (tail ++ ['\n']) = ['\n']

namespace EndsLine

variable {t rest : Text}

theorem reads (ends : EndsLine t) (r : Text) : skipDirectiveTail (t ++ '\n' :: r) = '\n' :: r := by
  have ne : skipDirectiveTail (t ++ ['\n']) ≠ [] := by
    rw [ends]
    exact List.cons_ne_nil _ _
  have more := skipDirectiveTail_append_of_ne ne r
  rwa [ends, List.append_assoc] at more

theorem alone (ends : EndsLine t) : skipDirectiveTail t = [] := by
  by_contra ne
  have more := skipDirectiveTail_append_of_ne ne ['\n']
  rw [ends] at more
  exact ne (List.append_eq_singleton_iff.mp more.symm |>.elim (fun h => h.1) fun h => nomatch h.2)

theorem skips (ends : EndsLine t) (skips : Skips t rest) : EndsLine rest := by
  rw [EndsLine, ← (skips.append ['\n']).tail]
  exact ends

theorem directiveTail (ends : EndsLine t) (r : Text) :
    directiveTail (t ++ '\n' :: r) = (t, '\n' :: r) := by
  have length : (t ++ '\n' :: r).length - ('\n' :: r).length = t.length := by
    rw [List.length_append]
    omega
  rw [Preprocessor.directiveTail, ends.reads, length, List.take_left']
  rfl

theorem directiveTail_alone (ends : EndsLine t) : Preprocessor.directiveTail t = (t, []) := by
  rw [Preprocessor.directiveTail, ends.alone, List.length_nil, Nat.sub_zero, List.take_length]

theorem ofName (ends : EndsLine t) : EndsLine ((t.dropWhile isBlank).dropWhile isIdentChar) :=
  ends.skips ((Skips.dropWhile blank_plain t).trans (Skips.dropWhile ident_plain _))

theorem ofBlanks (ends : EndsLine t) : EndsLine (t.dropWhile isBlank) :=
  ends.skips (Skips.dropWhile blank_plain t)

end EndsLine

section Directive

variable {t : Text} (ends : EndsLine t) (st : Source) (r : Text)

include ends

theorem ifdefDirective_line (wanted : Bool) : ifdefDirective wanted st (t ++ '\n' :: r) =
    (ifdefDirective wanted st t).map fun st' => st'.before ('\n' :: r) := by
  unfold ifdefDirective
  dsimp only
  rw [dropWhile_line (by decide), takeWhile_line (by decide), dropWhile_line (by decide),
    ends.ofName.reads]
  split <;> rfl

theorem evalCondition_line (fuel : Nat) (directive : String) :
    evalCondition fuel directive st (t ++ '\n' :: r) =
      (evalCondition fuel directive st t).andThen fun p => .returns (p.1, '\n' :: r) := by
  have newline : skipDirectiveTail ('\n' :: r) = '\n' :: r :=
    skipDirectiveTail_plain (by rintro s' h; cases h)
  unfold evalCondition
  rw [dropWhile_line (by decide), ends.ofBlanks.directiveTail, ends.ofBlanks.directiveTail_alone]
  dsimp only
  rw [Run.andThen_assoc, newline]
  refine Run.andThen_congr fun expanded _ => ?_
  cases evalCondExpr st.macros (expanded.dropWhile isBlank) with
  | error message => rfl
  | ok value =>
    dsimp only
    split
    · exact (Run.returns_andThen _ _).symm
    · rfl

theorem ifDirective_line (fuel : Nat) : ifDirective fuel st (t ++ '\n' :: r) =
    (ifDirective fuel st t).andThen fun st' => .returns (st'.before ('\n' :: r)) := by
  unfold ifDirective
  split
  · rfl
  split
  · rw [evalCondition_line ends, Run.andThen_assoc, Run.andThen_assoc]
    refine Run.andThen_congr fun p _ => ?_
    rw [Run.returns_andThen, Run.returns_andThen]
    rfl
  · rw [ends.reads, Run.returns_andThen]
    rfl

theorem elifdefDirective_line (wanted : Bool) : elifdefDirective wanted st (t ++ '\n' :: r) =
    (elifdefDirective wanted st t).map fun st' => st'.before ('\n' :: r) := by
  unfold elifdefDirective
  dsimp only
  rw [dropWhile_line (by decide), takeWhile_line (by decide), dropWhile_line (by decide),
    ends.ofName.reads, ends.reads]
  split
  · rfl
  split
  · rfl
  split <;> rfl

theorem elifDirective_line (fuel : Nat) : elifDirective fuel st (t ++ '\n' :: r) =
    (elifDirective fuel st t).andThen fun st' => .returns (st'.before ('\n' :: r)) := by
  unfold elifDirective
  split
  · rfl
  split
  · rfl
  split
  · rw [evalCondition_line ends, Run.andThen_assoc, Run.andThen_assoc]
    refine Run.andThen_congr fun p _ => ?_
    rw [Run.returns_andThen, Run.returns_andThen]
    rfl
  · rw [ends.reads, Run.returns_andThen]
    rfl

theorem elseDirective_line : elseDirective st (t ++ '\n' :: r) =
    (elseDirective st t).map fun st' => st'.before ('\n' :: r) := by
  unfold elseDirective
  rw [ends.reads]
  split
  · rfl
  split <;> rfl

theorem endifDirective_line : endifDirective st (t ++ '\n' :: r) =
    (endifDirective st t).map fun st' => st'.before ('\n' :: r) := by
  unfold endifDirective
  rw [ends.reads]
  split <;> rfl

theorem defineDirective_line : defineDirective st (t ++ '\n' :: r) =
    (defineDirective st t).map fun st' => st'.before ('\n' :: r) := by
  unfold defineDirective
  dsimp only
  rw [dropWhile_line (by decide), takeWhile_line (by decide), dropWhile_line (by decide),
    head_line, macroParams_line]
  split
  · rfl
  cases params : macroParams ((t.dropWhile isBlank).dropWhile isIdentChar) with
  | error message => rfl
  | ok q =>
    have after := (ends.ofName.skips (macroParams_skips params)).ofBlanks
    simp only [Except.map, bind, Except.bind]
    rw [dropWhile_line (by decide), after.directiveTail, after.directiveTail_alone]
    dsimp only
    cases checkHashes q.1 q.2.1 true (trimBlanks (q.2.2.dropWhile isBlank)) with
    | error message => rfl
    | ok _ =>
      dsimp only
      split
      · rename_i defined
        simp only [defined]
      · rename_i defined
        simp only [defined, Source.before]

theorem undefDirective_line : undefDirective st (t ++ '\n' :: r) =
    (undefDirective st t).before ('\n' :: r) := by
  unfold undefDirective
  dsimp only
  rw [dropWhile_line (by decide), takeWhile_line (by decide), dropWhile_line (by decide),
    ends.ofName.reads]
  rfl

end Directive

end ClaudeC99.Preprocessor
