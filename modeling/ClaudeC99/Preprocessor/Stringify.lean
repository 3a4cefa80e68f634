import ClaudeC99.Front.Scan
import ClaudeC99.Preprocessor.Arguments

/-! What the lexer reads from the literal that `#` makes of an argument. -/

namespace ClaudeC99.Preprocessor

open Front (Lexer Token lexerNextToken lexerAdvance lexString lexStringLoop lexEscape)

/-- What stands in front of the next token. -/
inductive Gap
  | start
  | token
  | space
  deriving DecidableEq

def Gap.text : Gap → Text
  | .space => [' ']
  | _ => []

def Gap.widen : Gap → Gap
  | .start => .start
  | _ => .space

theorem Gap.widen_start : Gap.start.widen = .start := rfl

theorem Gap.widen_inside {gap : Gap} (inside : gap ≠ .start) : gap.widen = .space := by
  cases gap with
  | start => exact absurd rfl inside
  | token | space => rfl

/-- One blank for every run of spaces, and none at the ends. -/
def respace (space : Text → Bool) : Gap → List Text → Text
  | _, [] => []
  | gap, u :: us =>
    if space u then respace space gap.widen us else gap.text ++ u ++ respace space .token us

def isBlankUnit (u : Text) : Bool := u.head?.any isBlank

def isSpaceUnit (u : Text) : Bool := u.head?.any isSpaceChar

def isLiteral (u : Text) : Bool := u.head?.any isQuote

/-- The argument with white space between its tokens replaced by one blank. A literal that is not
closed goes on to the end of its line. -/
def stringSpelling (arg : Text) : Text := respace isSpaceUnit .start (units arg)

/-- No tab, and every blank stands before a character that is no blank. -/
def singleBlanks : Text → Bool
  | [] => true
  | c :: s => c != '\t' && (c != ' ' || s.head?.any (· != ' ')) && singleBlanks s

/-- The argument has blanks and tabs only between its tokens, and single blanks in its literals. -/
structure SpacedByBlanks (arg : Text) : Prop where
  between : ∀ u ∈ units arg, isSpaceUnit u = true → isBlankUnit u = true
  literals : ∀ u ∈ units arg, isLiteral u = true → '\n' ∉ u ∧ singleBlanks u = true

def escape (s : Text) : Text := s.flatMap fun c => if c = '"' ∨ c = '\\' then ['\\', c] else [c]

/-- A text with its runs of blanks squeezed, also in literals. -/
def squeezed (gap : Gap) (s : Text) : Text := respace isBlankUnit gap (s.map fun c => [c])

section Squeezed

variable {gap : Gap} {c : Char} {s : Text}

theorem squeezed_blank (blank : isBlank c = true) :
    squeezed gap (c :: s) = squeezed gap.widen s := by
  simp [squeezed, respace, isBlankUnit, blank]

theorem squeezed_char (other : isBlank c = false) :
    squeezed gap (c :: s) = gap.text ++ c :: squeezed .token s := by
  simp [squeezed, respace, isBlankUnit, other]

theorem mem_squeezed (other : isBlank c = false) (gap : Gap) (s : Text) :
    c ∈ squeezed gap s ↔ c ∈ s := by
  induction s generalizing gap with
  | nil => simp [squeezed, respace]
  | cons d s ih =>
    have noGap : c ∉ gap.text := by
      intro member
      cases gap with
      | start | token => cases member
      | space =>
        rw [List.mem_singleton.mp member] at other
        cases other
    cases blank : isBlank d with
    | true =>
      have differs : c ≠ d := by
        rintro rfl
        rw [blank] at other
        cases other
      rw [squeezed_blank blank, ih]
      simp [differs]
    | false =>
      rw [squeezed_char blank, List.mem_append, List.mem_cons, ih, List.mem_cons]
      simp [noGap]

end Squeezed

def trimSpaces (s : Text) : Text := (s.reverse.dropWhile (· == ' ')).reverse

theorem trimSpaces_append {c : Char} (other : c ≠ ' ') (front s : Text) :
    trimSpaces (front ++ c :: s) = front ++ c :: trimSpaces s := by
  have stopped : (c :: front.reverse).dropWhile (· == ' ') = c :: front.reverse :=
    List.dropWhile_cons_of_neg (by simpa using other)
  rw [trimSpaces, trimSpaces, List.reverse_append, List.reverse_cons, List.append_assoc,
    List.singleton_append, List.dropWhile_append]
  split
  · next empty =>
    rw [stopped, List.isEmpty_iff.mp empty]
    simp
  · simp

/-- The blanks that the loop keeps stand between characters. -/
theorem trimSpaces_stringifyInner (gap : Gap) (s : Text) :
    trimSpaces (gap.text ++ stringifyInner (gap != .token) s) = escape (squeezed gap s) := by
  induction s generalizing gap with
  | nil => cases gap <;> rfl
  | cons c s ih =>
    cases blank : isBlank c with
    | true =>
      rw [squeezed_blank blank, ← ih]
      cases gap <;> simp [stringifyInner, blank, Gap.widen, Gap.text] <;> rfl
    | false =>
      have later : trimSpaces (stringifyInner false s) = escape (squeezed .token s) := ih .token
      have other : c ≠ ' ' := by
        rintro rfl
        cases blank
      have gapKept : escape gap.text = gap.text := by cases gap <;> rfl
      have split : escape (gap.text ++ c :: squeezed .token s) =
          gap.text ++ (if c = '"' ∨ c = '\\' then ['\\', c] else [c]) ++
            escape (squeezed .token s) := by
        rw [← List.singleton_append, ← List.append_assoc]
        simp only [escape, List.flatMap_append] at gapKept ⊢
        rw [gapKept, List.flatMap_singleton]
      rw [squeezed_char blank, split, ← later]
      by_cases special : c = '"' ∨ c = '\\'
      · have inner : stringifyInner (gap != .token) (c :: s) =
            '\\' :: c :: stringifyInner false s := by
          simp [stringifyInner, blank, special]
        rw [inner, if_pos special]
        have cut := trimSpaces_append other (gap.text ++ ['\\']) (stringifyInner false s)
        simpa using cut
      · have inner : stringifyInner (gap != .token) (c :: s) = c :: stringifyInner false s := by
          simp [stringifyInner, blank, special]
        rw [inner, if_neg special, trimSpaces_append other]
        simp

theorem stringifyArg_eq (arg : Text) :
    stringifyArg arg = '"' :: escape (squeezed .start arg) ++ ['"'] := by
  have inner := trimSpaces_stringifyInner .start arg
  rw [← inner]
  rfl

section Lexing

variable {l : Lexer}

theorem lexEscape_special {c : Char} (special : c = '"' ∨ c = '\\') {t : Text}
    (start : l.rest = '\\' :: c :: t) (literal : String) :
    lexEscape Front.stringEscape literal l = .ok (c, l.after ['\\', c] t) := by
  have skipped : l.skip 2 = l.after ['\\', c] t := by
    apply Front.skip_run ['\\', c] start
    rcases special with rfl | rfl <;> decide
  simp only [lexEscape, start]
  rcases special with rfl | rfl
  · rw [if_neg (by decide), if_neg (by decide), ← skipped]
    rfl
  · rw [if_neg (by decide), if_neg (by decide), ← skipped]
    rfl

/-- The lexer undoes the escapes, unless it meets a newline. -/
theorem lexStringLoop_escape {n : Nat} (decoded s : Text) {t : Text}
    (start : l.rest = escape s ++ '"' :: t) (rounds : s.length < n) :
    lexStringLoop n decoded l =
      if '\n' ∈ s then .error "error: newline in string literal"
      else .ok (decoded ++ s, l.after (escape s ++ ['"']) t) := by
  induction s generalizing n decoded l with
  | nil =>
    cases n with
    | zero => cases rounds
    | succ n =>
      have start : l.rest = '"' :: t := start
      rw [lexStringLoop]
      simp [start, Front.lexerAdvance_cons start, escape]
  | cons c s ih =>
    cases n with
    | zero => cases rounds
    | succ n =>
      have rounds : s.length < n := Nat.lt_of_succ_lt_succ rounds
      by_cases special : c = '"' ∨ c = '\\'
      · have coded : escape (c :: s) = '\\' :: c :: escape s := by
          simp [escape, special]
        have noNewline : '\n' ≠ c := by
          rintro rfl
          simp at special
        have start : l.rest = '\\' :: c :: (escape s ++ '"' :: t) := by
          rw [start, coded]
          rfl
        have read := lexEscape_special special start "string literal"
        have later := ih (l := l.after ['\\', c] (escape s ++ '"' :: t)) (decoded ++ [c]) rfl rounds
        rw [lexStringLoop]
        simp only [start, read, coded]
        simp only [bind, Except.bind, later, Front.after_after, List.mem_cons, noNewline, false_or]
        simp
      · have coded : escape (c :: s) = c :: escape s := by
          simp [escape, special]
        obtain ⟨noQuote, noBackslash⟩ := not_or.mp special
        have start : l.rest = c :: (escape s ++ '"' :: t) := by
          rw [start, coded]
          rfl
        rw [lexStringLoop]
        simp only [start, coded, noQuote, if_false]
        by_cases newline : c = '\n'
        · simp [newline]
        · have advanced := Front.lexerAdvance_cons start newline
          have later := ih (l := l.after [c] (escape s ++ '"' :: t)) (decoded ++ [c]) rfl rounds
          have noNewline : '\n' ≠ c := fun same => newline same.symm
          simp only [newline, noBackslash, if_false, advanced, later, Front.after_after,
            List.mem_cons, noNewline, false_or]
          simp

theorem escape_length_le (s : Text) : s.length ≤ (escape s).length := by
  induction s with
  | nil => exact Nat.le_refl _
  | cons c s ih =>
    rw [escape, List.flatMap_cons, List.length_append]
    change s.length + 1 ≤ _ + (escape s).length
    split
    · rw [List.length_cons]
      omega
    · rw [List.length_singleton]
      omega

/-- The token that the lexer makes of a stringified argument. -/
theorem nextToken_stringify (arg : Text) {t : Text} (start : l.rest = stringifyArg arg ++ t) :
    lexerNextToken l =
      if '\n' ∈ arg then .error "error: newline in string literal"
      else .ok ({ type := .stringLiteral, value := squeezed .start arg, position := l.position },
        l.after (stringifyArg arg) t) := by
  have start : l.rest = '"' :: (escape (squeezed .start arg) ++ '"' :: t) := by
    rw [start, stringifyArg_eq]
    simp
  have advanced := Front.lexerAdvance_cons start (by decide)
  have rounds : (squeezed .start arg).length < l.rest.length := by
    have longer := escape_length_le (squeezed .start arg)
    rw [start, List.length_cons, List.length_append]
    omega
  have inner := lexStringLoop_escape (l := l.after ['"'] (escape (squeezed .start arg) ++ '"' :: t))
    [] (squeezed .start arg) rfl rounds
  have newlines : '\n' ∈ squeezed .start arg ↔ '\n' ∈ arg := mem_squeezed (by decide) .start arg
  simp only [newlines, List.nil_append, Front.after_after] at inner
  have notFloat : ¬ ('"' = '.' ∧ (escape (squeezed .start arg) ++ '"' :: t).head?.any Char.isDigit) :=
    fun h => absurd h.1 (by decide)
  have noPunctuator : Front.punctuator ('"' :: (escape (squeezed .start arg) ++ '"' :: t)) = none :=
    rfl
  rw [lexerNextToken, Front.skipWhitespace_token start (by decide)]
  simp only [start]
  rw [if_neg notFloat]
  simp only [noPunctuator, if_true, lexString, advanced, inner, stringifyArg_eq]
  by_cases newline : '\n' ∈ arg
  · simp [newline, bind, Except.bind]
  · simp [newline, bind, Except.bind]

end Lexing

section Spelling

/-- The gap behind a literal that squeezing leaves as it is. -/
def gapAfter : Gap → Text → Option Gap
  | gap, [] => some gap
  | gap, c :: v =>
    if isBlank c then (if gap = .token ∧ c = ' ' then gapAfter .space v else none)
    else gapAfter .token v

theorem blank_cases {c : Char} (blank : isBlank c = true) : c = ' ' ∨ c = '\t' := by
  simpa [isBlank] using blank

theorem squeezed_space (s : Text) :
    squeezed .space s = [] ∨ ∃ c t, squeezed .space s = ' ' :: c :: t ∧ isBlank c = false := by
  induction s with
  | nil => exact .inl rfl
  | cons c s ih =>
    cases blank : isBlank c with
    | true =>
      rw [squeezed_blank blank]
      exact ih
    | false => exact .inr ⟨c, squeezed .token s, squeezed_char blank, blank⟩

/-- Squeezing leaves a literal as it is when it finds the gaps of single blanks. -/
theorem squeezed_literal {gap : Gap} (inside : gap ≠ .start) (v s y : Text) :
    squeezed gap (v ++ s) = gap.text ++ (v ++ y) ↔
      ∃ g, gapAfter gap v = some g ∧ squeezed g s = g.text ++ y := by
  induction v generalizing gap with
  | nil => simp [gapAfter]
  | cons c v ih =>
    cases blank : isBlank c with
    | false =>
      rw [List.cons_append, squeezed_char blank, List.append_cancel_left_eq, List.cons_append,
        List.cons.injEq, gapAfter, if_neg (by simp [blank])]
      exact (and_iff_right rfl).trans (ih (by decide))
    | true =>
      rw [List.cons_append, squeezed_blank blank, Gap.widen_inside inside, gapAfter, if_pos blank]
      by_cases single : gap = .token ∧ c = ' '
      · obtain ⟨rfl, rfl⟩ := single
        rw [if_pos ⟨rfl, rfl⟩]
        exact ih (by decide)
      · rw [if_neg single]
        have differs : squeezed .space (v ++ s) ≠ gap.text ++ c :: (v ++ y) := by
          intro same
          cases gap with
          | start => exact absurd rfl inside
          | token =>
            rcases squeezed_space (v ++ s) with none | ⟨d, w, found, -⟩
            · rw [none] at same
              cases same
            · rw [found] at same
              exact single ⟨rfl, (List.cons.inj same).1.symm⟩
          | space =>
            rcases squeezed_space (v ++ s) with none | ⟨d, w, found, other⟩
            · rw [none] at same
              cases same
            · rw [found] at same
              have inner : d = c := (List.cons.inj (List.cons.inj same).2).1
              rw [inner, blank] at other
              cases other
        simp [differs]

theorem gapAfter_eq_token {gap : Gap} (inside : gap ≠ .start) (v : Text) :
    gapAfter gap v = some .token ↔
      singleBlanks v = true ∧ (gap = .space → v.head?.any (· != ' ') = true) := by
  induction v generalizing gap with
  | nil =>
    cases gap with
    | start => exact absurd rfl inside
    | token | space => simp [gapAfter, singleBlanks]
  | cons c v ih =>
    cases blank : isBlank c with
    | false =>
      have others : c ≠ ' ' ∧ c ≠ '\t' := by
        constructor <;> rintro rfl <;> cases blank
      rw [gapAfter, if_neg (by simp [blank]), ih (by decide)]
      simp [singleBlanks, others]
    | true =>
      rw [gapAfter, if_pos blank]
      rcases blank_cases blank with rfl | rfl
      · cases gap with
        | start => exact absurd rfl inside
        | token =>
          rw [if_pos ⟨rfl, rfl⟩, ih (by decide)]
          simp [singleBlanks, and_comm]
        | space => simp
      · simp [singleBlanks]

theorem gapAfter_ne_start {gap g : Gap} {v : Text} (inside : gap ≠ .start)
    (found : gapAfter gap v = some g) : g ≠ .start := by
  induction v generalizing gap with
  | nil =>
    rw [gapAfter, Option.some.injEq] at found
    rw [← found]
    exact inside
  | cons c v ih =>
    rw [gapAfter] at found
    split at found
    · split at found
      · exact ih (by decide) found
      · cases found
    · exact ih (by decide) found

theorem gapAfter_concat {gap g : Gap} {v : Text} {c : Char} (other : isBlank c = false)
    (found : gapAfter gap (v ++ [c]) = some g) : g = .token := by
  induction v generalizing gap with
  | nil =>
    rw [List.nil_append, gapAfter, if_neg (by simp [other])] at found
    exact (Option.some.inj found).symm
  | cons d v ih =>
    rw [List.cons_append, gapAfter] at found
    split at found
    · split at found
      · exact ih found
      · cases found
    · exact ih found

theorem takeQuoted_end (quote : Char) (s : Text) :
    (∃ body, (takeQuoted quote s).1 = body ++ [quote]) ∨ (takeQuoted quote s).2 = [] ∨
      ∃ t, (takeQuoted quote s).2 = '\n' :: t := by
  fun_induction takeQuoted quote s with
  | case1 => exact .inr (.inl rfl)
  | case2 c rest literal after split ih =>
    rw [split] at ih
    rcases ih with ⟨body, rfl⟩ | ended
    · exact .inl ⟨'\\' :: c :: body, rfl⟩
    · exact .inr ended
  | case3 rest => exact .inl ⟨[], rfl⟩
  | case4 rest => exact .inr (.inr ⟨rest, rfl⟩)
  | case5 c rest plain other line literal after split ih =>
    rw [split] at ih
    rcases ih with ⟨body, rfl⟩ | ended
    · exact .inl ⟨c :: body, rfl⟩
    · exact .inr ended

theorem isSpaceUnit_single (c : Char) : isSpaceUnit [c] = isSpaceChar c := rfl

theorem quote_no_space {c : Char} (quote : isQuote c = true) :
    isSpaceChar c = false ∧ isBlank c = false := by
  rcases quote_cases quote with rfl | rfl <;> exact ⟨rfl, rfl⟩

/-- The spelling starts with no white space. -/
theorem respace_start (s : Text) :
    ∀ c ∈ (respace isSpaceUnit .start (units s)).head?, isSpaceChar c = false := by
  fun_induction units s with
  | case1 => simp [respace]
  | case2 c s quote ih =>
    have noSpace := (quote_no_space quote).1
    have other : isSpaceUnit (c :: (takeQuoted c s).1) = false := noSpace
    rw [respace, if_neg (by simp [other])]
    rintro d head
    obtain rfl : c = d := by simpa [Gap.text] using head
    exact noSpace
  | case3 c s noQuote ih =>
    rw [respace]
    split
    · exact ih
    · next other =>
      rintro d head
      obtain rfl : c = d := by simpa [Gap.text] using head
      simpa [isSpaceUnit] using other

theorem respace_space (s : Text) :
    respace isSpaceUnit .space (units s) = [] ∨
      ∃ c t, respace isSpaceUnit .space (units s) = ' ' :: c :: t ∧ isSpaceChar c = false := by
  fun_induction units s with
  | case1 => exact .inl rfl
  | case2 c s quote ih =>
    have noSpace := (quote_no_space quote).1
    have other : isSpaceUnit (c :: (takeQuoted c s).1) = false := noSpace
    rw [respace, if_neg (by simp [other])]
    exact .inr ⟨c, _, rfl, noSpace⟩
  | case3 c s noQuote ih =>
    rw [respace]
    split
    · exact ih
    · next other => exact .inr ⟨c, _, rfl, by simpa [isSpaceUnit] using other⟩

/-- White space is blanks, and the blanks of a literal are single. -/
def Fine (u : Text) : Prop :=
  (isSpaceUnit u = true → isBlankUnit u = true) ∧ (isLiteral u = true → singleBlanks u = true)

/-- White space that is not blank is copied where the spelling has none. -/
theorem squeezed_ne {gap : Gap} {c : Char} (space : isSpaceChar c = true)
    (other : isBlank c = false) (s t : Text) :
    squeezed gap (c :: s) ≠ respace isSpaceUnit gap ([c] :: units t) := by
  have noBlank : c ≠ ' ' := by
    rintro rfl
    cases other
  have spaceUnit : isSpaceUnit [c] = true := by rwa [isSpaceUnit_single]
  intro same
  rw [squeezed_char other, respace, if_pos spaceUnit] at same
  cases gap with
  | start =>
    rw [Gap.widen_start] at same
    have head := respace_start t c (by rw [← same]; rfl)
    rw [space] at head
    cases head
  | token =>
    rcases respace_space t with none | ⟨d, w, found, -⟩
    · rw [Gap.widen_inside (by decide), none] at same
      cases same
    · rw [Gap.widen_inside (by decide), found] at same
      exact noBlank (List.cons.inj same).1
  | space =>
    rcases respace_space t with none | ⟨d, w, found, noSpace⟩
    · rw [Gap.widen_inside (by decide), none] at same
      cases same
    · rw [Gap.widen_inside (by decide), found] at same
      have inner : c = d := (List.cons.inj (List.cons.inj same).2).1
      rw [← inner, space] at noSpace
      cases noSpace

/-- The squeezed text is the spelling where all units are fine. -/
theorem squeezed_eq_iff (gap : Gap) (s : Text) :
    squeezed gap s = respace isSpaceUnit gap (units s) ↔ ∀ u ∈ units s, Fine u := by
  fun_induction units s generalizing gap with
  | case1 => simp [squeezed, respace]
  | case2 c s quote ih =>
    obtain ⟨noSpace, noBlank⟩ := quote_no_space quote
    have other : isSpaceUnit (c :: (takeQuoted c s).1) = false := noSpace
    have fine : Fine (c :: (takeQuoted c s).1) ↔ gapAfter .token (takeQuoted c s).1 = some .token := by
      have differs : c ≠ ' ' ∧ c ≠ '\t' := by
        constructor <;> rintro rfl <;> cases noBlank
      rw [gapAfter_eq_token (by decide)]
      simp [Fine, other, isLiteral, quote, singleBlanks, differs]
    rw [respace, if_neg (by simp [other]), squeezed_char noBlank, List.append_assoc,
      List.append_cancel_left_eq, List.cons_append, List.cons.injEq, List.forall_mem_cons, fine,
      ← ih .token]
    have inside : Gap.token ≠ .start := by decide
    have inner := squeezed_literal inside (takeQuoted c s).1 (takeQuoted c s).2
      (respace isSpaceUnit .token (units (takeQuoted c s).2))
    rw [takeQuoted_append] at inner
    refine (and_iff_right rfl).trans (inner.trans ?_)
    constructor
    · rintro ⟨g, found, later⟩
      cases g with
      | start => exact absurd rfl (gapAfter_ne_start inside found)
      | token => exact ⟨found, later⟩
      | space =>
        rcases takeQuoted_end c s with ⟨body, closed⟩ | ended | ⟨t, line⟩
        · rw [closed] at found
          cases gapAfter_concat noBlank found
        · rw [ended] at later
          cases later
        · rw [line, units_char rfl] at later
          have copied : squeezed .space ('\n' :: t) = ' ' :: squeezed .token ('\n' :: t) := by
            rw [squeezed_char rfl, squeezed_char rfl]
            rfl
          rw [copied] at later
          exact absurd (List.cons.inj later).2 (squeezed_ne rfl rfl t t)
    · rintro ⟨found, later⟩
      exact ⟨.token, found, later⟩
  | case3 c s noQuote ih =>
    have plain : isLiteral [c] = false := by simpa [isLiteral] using noQuote
    cases space : isSpaceChar c with
    | false =>
      have noBlank : isBlank c = false := by
        cases blank : isBlank c with
        | false => rfl
        | true => simp [isSpaceChar, isArgBlank, blank] at space
      have other : isSpaceUnit [c] = false := space
      have fine : Fine [c] := by simp [Fine, other, plain]
      rw [respace, if_neg (by simp [other]), squeezed_char noBlank, List.append_assoc,
        List.append_cancel_left_eq, List.singleton_append, List.cons.injEq, List.forall_mem_cons,
        ← ih .token]
      simp [fine]
    | true =>
      have spaceUnit : isSpaceUnit [c] = true := space
      cases blank : isBlank c with
      | true =>
        have fine : Fine [c] := by simp [Fine, isBlankUnit, blank, plain]
        rw [respace, if_pos spaceUnit, squeezed_blank blank, List.forall_mem_cons, ← ih gap.widen]
        simp [fine]
      | false =>
        have coarse : ¬ Fine [c] := by simp [Fine, spaceUnit, isBlankUnit, blank]
        rw [List.forall_mem_cons]
        simp [squeezed_ne space blank, coarse]

end Spelling

theorem mem_text (s : Text) (c : Char) : c ∈ s ↔ ∃ u ∈ units s, c ∈ u := by
  rw [← List.mem_flatten, units_flatten]

/-- A unit is a literal or a single character. -/
theorem units_shape (s : Text) : ∀ u ∈ units s, isLiteral u = true ∨ ∃ c, u = [c] := by
  fun_induction units s with
  | case1 => simp
  | case2 c s quote ih => exact List.forall_mem_cons.mpr ⟨.inl quote, ih⟩
  | case3 c s noQuote ih => exact List.forall_mem_cons.mpr ⟨.inr ⟨c, rfl⟩, ih⟩

theorem spacedByBlanks_iff (arg : Text) :
    SpacedByBlanks arg ↔ '\n' ∉ arg ∧ ∀ u ∈ units arg, Fine u := by
  constructor
  · intro spaced
    constructor
    · rw [mem_text]
      rintro ⟨u, member, newline⟩
      rcases units_shape arg u member with literal | ⟨c, rfl⟩
      · exact (spaced.literals u member literal).1 newline
      · obtain rfl := List.mem_singleton.mp newline
        exact absurd (spaced.between _ member rfl) (by decide)
    · intro u member
      exact ⟨spaced.between u member, fun literal => (spaced.literals u member literal).2⟩
  · rintro ⟨line, fine⟩
    refine ⟨fun u member => (fine u member).1, fun u member literal => ⟨?_, (fine u member).2 literal⟩⟩
    intro newline
    exact line ((mem_text arg '\n').mpr ⟨u, member, newline⟩)

/-- The literal that `#` makes is read as the spelling of the argument exactly when there is no
white space but blanks between its tokens, and single blanks and no newline in its literals. -/
theorem stringified_argument_iff (l : Lexer) (arg t : Text) (start : l.rest = stringifyArg arg ++ t) :
    (∃ l', lexerNextToken l =
        .ok ({ type := .stringLiteral, value := stringSpelling arg, position := l.position }, l') ∧
      l'.rest = t) ↔ SpacedByBlanks arg := by
  rw [nextToken_stringify arg start, spacedByBlanks_iff, ← squeezed_eq_iff .start arg]
  by_cases newline : '\n' ∈ arg
  · simp [newline]
  · rw [if_neg newline]
    constructor
    · rintro ⟨l', read, -⟩
      have same := congrArg Token.value (Prod.mk.inj (Except.ok.inj read)).1
      exact ⟨newline, same⟩
    · rintro ⟨-, same⟩
      refine ⟨l.after (stringifyArg arg) t, ?_, rfl⟩
      rw [same]
      rfl

theorem string_argument_read :
    (∃ l', lexerNextToken (Front.lexerInit (stringifyArg "say( \"a b\\n\" )".toList ++ [';']) none) =
        .ok ({ type := .stringLiteral, value := stringSpelling "say( \"a b\\n\" )".toList,
               position := ⟨1, 1, none⟩ }, l') ∧ l'.rest = [';']) ↔
      SpacedByBlanks "say( \"a b\\n\" )".toList :=
  stringified_argument_iff (Front.lexerInit _ none) _ _ rfl

/-- Blanks in a literal are squeezed, and a newline between tokens stays in the string. -/
theorem blanks_and_newlines_lost :
    (¬ ∃ l', lexerNextToken (Front.lexerInit (stringifyArg "\"a  b\"".toList ++ [';']) none) =
        .ok ({ type := .stringLiteral, value := stringSpelling "\"a  b\"".toList,
               position := ⟨1, 1, none⟩ }, l') ∧ l'.rest = [';']) ∧
      lexerNextToken (Front.lexerInit (stringifyArg "a\nb".toList ++ [';']) none) =
        .error "error: newline in string literal" := by
  constructor
  · rintro ⟨l', read, -⟩
    rw [nextToken_stringify _ rfl, if_neg (by decide)] at read
    have same := congrArg Token.value (Prod.mk.inj (Except.ok.inj read)).1
    have quoted : units "\"a  b\"".toList = ["\"a  b\"".toList] := by
      simp [units, isQuote, takeQuoted]
    have fine := (squeezed_eq_iff .start "\"a  b\"".toList).mp same "\"a  b\"".toList
      (by rw [quoted]; exact List.mem_singleton_self _)
    exact absurd (fine.2 rfl) (by decide)
  · rw [nextToken_stringify _ rfl, if_pos (by decide)]

end ClaudeC99.Preprocessor
