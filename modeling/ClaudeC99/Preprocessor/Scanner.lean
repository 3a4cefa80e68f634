import Mathlib.Order.Filter.AtTopBot.Basic
import ClaudeC99.Preprocessor.Tokens
import ClaudeC99.Preprocessor.TextLines

/-! What one turn of the two expansion loops does, stated once for both. -/

namespace ClaudeC99.Preprocessor

open Filter

/-- The run ended with `a`. -/
def Run.Gives {α : Type} (m : Run α) (a : α) : Prop := ∃ log, m = some (log, .ok a)

namespace Run

variable {α β : Type}

theorem gives_returns (a : α) : (returns a).Gives a := ⟨[], rfl⟩

theorem Gives.logged {m : Run α} {a : α} (gives : m.Gives a) (log : List Expansion) :
    (Run.logged log m).Gives a := by
  obtain ⟨log', rfl⟩ := gives
  exact ⟨log ++ log', rfl⟩

theorem Gives.andThen {m : Run α} {a : α} {k : α → Run β} {b : β} (first : m.Gives a)
    (second : (k a).Gives b) : (m.andThen k).Gives b := by
  obtain ⟨log, rfl⟩ := first
  exact second.logged log

theorem gives_forEach {f : α → Run β} {as : List α} {bs : List β}
    (each : List.Forall₂ (fun a b => (f a).Gives b) as bs) : (forEach f as).Gives bs := by
  induction each with
  | nil => exact gives_returns []
  | cons first _ ih => exact first.andThen (ih.andThen (gives_returns _))

end Run

/-- `expand_macros_text` turns `s` into `out`, given enough fuel. The text has no predefined word,
so that the invocation site does not matter. -/
def Yields (macros : MacroTable) (disabled : List Text) (s out : Text) : Prop :=
  ∀ ctx, ∀ᶠ n in atTop, ∀ rescanning,
    (expandMacrosText ctx macros n disabled rescanning s).Gives out

/-- `preprocess_internal` turns the text lines `s` into `out`. -/
def LineYields (path : Text) (macros : MacroTable) (content : Bool) (s out : Text) : Prop :=
  ∀ line, ∀ᶠ n in atTop, (preprocessText path macros n line content s).Gives (out, [])

theorem eventually_succ {p : Nat → Prop} (later : ∀ᶠ n in atTop, p (n + 1)) :
    ∀ᶠ n in atTop, p n := by
  rw [← map_add_atTop_eq_nat 1]
  exact later

/-- What follows does not continue a word. -/
def EndsWord (s : Text) : Prop := ∀ c ∈ s.head?, isIdentChar c = false

def callsAhead (s : Text) : Bool := (s.dropWhile isBlank).head? == some '('

/-- `defined` before `s` protects an operand. -/
def protectsOperand (s : Text) : Bool :=
  (s.dropWhile isBlank).head?.any fun c => c == '(' || isIdentStart c

def predefinedWords : List Text := ["__FILE__".toList, "__LINE__".toList, "_Pragma".toList]

/-- The word names no macro, or one that is not replaced here. -/
def CopiedWord (macros : MacroTable) (disabled : List Text) (w after : Text) : Prop :=
  ∀ m, macroFind macros w = some m →
    (m.params = none → w ∈ disabled) ∧ (m.params ≠ none → callsAhead after = false)

/-- What both loops do with the head of a text. `P content s out` says that the loop turns `s` into
`out` when the line has had a token (`content`). Only the loop over text lines (`top`) knows
directives, and only the other one protects the operand of `defined`. -/
structure Scanner (macros : MacroTable) (disabled : List Text) (top : Bool)
    (P : Bool → Text → Text → Prop) : Prop where
  nil : ∀ content, P content [] []
  blank : ∀ {content c s out}, isArgBlank c = true → P (c != '\n' && content) s out →
    P content (c :: s) (c :: out)
  char : ∀ {content c s out}, isQuote c = false → isIdentStart c = false → isSpaceChar c = false →
    (top = true → c = '#' → content = true) →
    (c = '/' → s.head? ≠ some '/' ∧ s.head? ≠ some '*') →
    P true s out → P content (c :: s) (c :: out)
  quoted : ∀ {content quote body s out}, isQuote quote = true → closesWith quote body = true →
    P true s out → P content (quote :: (body ++ quote :: s)) (quote :: (body ++ quote :: out))
  plain : ∀ {content w s out}, isWord w = true → EndsWord s → w ∉ predefinedWords →
    CopiedWord macros disabled w s →
    (top = false → w = "defined".toList → protectsOperand s = false) →
    P true s out → P content (w ++ s) (w ++ out)
  rescan : ∀ {content w s out m o}, isWord w = true → EndsWord s → w ∉ predefinedWords →
    macroFind macros w = some m → m.params = none → w ∉ disabled →
    Yields macros (m.name :: disabled) m.replacement o → P true s out →
    P content (w ++ s) (o ++ out)
  call : ∀ {content w s out m params tail args rest expanded subst o}, isWord w = true →
    EndsWord s → w ∉ predefinedWords → macroFind macros w = some m → m.params = some params →
    s.dropWhile isBlank = '(' :: tail → collectArgs tail = (args, rest) →
    argCountMatches m.isVariadic params args = true →
    List.Forall₂ (Yields macros disabled) args expanded →
    substituteArgs m.replacement (bindArgs m.isVariadic params args expanded) = .ok subst →
    Yields macros disabled subst o → P true rest out → P content (w ++ s) (o ++ out)

variable {macros : MacroTable} {disabled : List Text}

theorem splitWord {c : Char} {w s : Text} (word : isWord (c :: w) = true) (ends : EndsWord s) :
    (w ++ s).takeWhile isIdentChar = w ∧ (w ++ s).dropWhile isIdentChar = s := by
  have inside : ∀ d ∈ w, isIdentChar d = true := fun d member =>
    isWord_chars word d (List.mem_cons_of_mem c member)
  rw [List.takeWhile_append_of_pos inside, List.dropWhile_append_of_pos inside]
  cases s with
  | nil => simp
  | cons d s =>
    have other : isIdentChar d = false := ends d rfl
    simp [other]

theorem isWord_head {c : Char} {w : Text} (word : isWord (c :: w) = true) :
    isIdentStart c = true ∧ isQuote c = false ∧ isSpaceChar c = false ∧ c ≠ '/' ∧ c ≠ '#' := by
  have ident := isWord_chars word c List.mem_cons_self
  simp only [isWord, Bool.and_eq_true] at word
  have differs : ∀ d : Char, isIdentChar d = false → c ≠ d := by
    rintro d other rfl
    rw [ident] at other
    cases other
  refine ⟨word.1, (identChar_facts ident).1, ?_, differs _ rfl, differs _ rfl⟩
  simp [isSpaceChar, (identChar_facts ident).2.1, differs '\x0b' rfl, differs '\x0c' rfl,
    differs '\r' rfl]

theorem nextPiece_word {ctx : ExpandContext} {c : Char} {w s : Text}
    (word : isWord (c :: w) = true) (ends : EndsWord s) :
    nextPiece ctx macros disabled c (w ++ s) = namePiece ctx macros disabled (c :: w) s := by
  obtain ⟨start, noQuote, -⟩ := isWord_head word
  obtain ⟨front, back⟩ := splitWord word ends
  rw [nextPiece, if_neg (by simp [noQuote]), if_pos start, front, back]

theorem ne_of_not_predefined {w : Text} (ordinary : w ∉ predefinedWords) :
    w ≠ "__FILE__".toList ∧ w ≠ "__LINE__".toList ∧ w ≠ "_Pragma".toList := by
  simpa [predefinedWords] using ordinary

theorem plainName_free {w s : Text} (free : w = "defined".toList → protectsOperand s = false) :
    plainName w s = (.verbatim w, s) := by
  unfold plainName
  split
  · next h =>
    have free := free h
    simp only [protectsOperand] at free
    cases rest : s.dropWhile isBlank with
    | nil => simp
    | cons c t =>
      rw [rest] at free
      simp only [List.head?_cons, Option.any_some, Bool.or_eq_false_iff, beq_eq_false_iff_ne] at free
      split
      · next heq => simp_all
      · simp [free.2]
  · rfl

theorem namePiece_plain {ctx : ExpandContext} {w s : Text} (ordinary : w ∉ predefinedWords)
    (copied : CopiedWord macros disabled w s)
    (free : w = "defined".toList → protectsOperand s = false) :
    namePiece ctx macros disabled w s = (.verbatim w, s) := by
  obtain ⟨noFile, noLine, -⟩ := ne_of_not_predefined ordinary
  rw [namePiece, if_neg noFile, if_neg noLine]
  cases found : macroFind macros w with
  | none => exact plainName_free free
  | some m =>
    obtain ⟨blocked, uncalled⟩ := copied m found
    have named := (macroFind_mem found).2
    cases params : m.params with
    | none =>
      simp only [params]
      rw [if_pos (by rw [named]; exact blocked params), plainName_free free]
    | some ps =>
      have uncalled := uncalled (by simp [params])
      simp only [params]
      split
      · next tail start => simp [callsAhead, start] at uncalled
      · rfl

theorem namePiece_rescan {ctx : ExpandContext} {w s : Text} {m : MacroDef}
    (ordinary : w ∉ predefinedWords) (found : macroFind macros w = some m)
    (objectLike : m.params = none) (enabled : w ∉ disabled) :
    namePiece ctx macros disabled w s = (.objectLike m, s) := by
  obtain ⟨noFile, noLine, -⟩ := ne_of_not_predefined ordinary
  have named := (macroFind_mem found).2
  rw [namePiece, if_neg noFile, if_neg noLine]
  simp [found, objectLike, named, enabled]

theorem namePiece_call {ctx : ExpandContext} {w s tail rest : Text} {m : MacroDef}
    {params args : List Text} (ordinary : w ∉ predefinedWords)
    (found : macroFind macros w = some m) (functionLike : m.params = some params)
    (opens : s.dropWhile isBlank = '(' :: tail) (read : collectArgs tail = (args, rest)) :
    namePiece ctx macros disabled w s = (.invocation m params args, rest) := by
  obtain ⟨noFile, noLine, -⟩ := ne_of_not_predefined ordinary
  rw [namePiece, if_neg noFile, if_neg noLine]
  simp [found, functionLike, opens, read]

theorem gives_call {ctx : ExpandContext} {m : MacroDef} {params args expanded : List Text}
    {subst o : Text} {n : Nat} {rescanning : List Text}
    (fits : argCountMatches m.isVariadic params args = true)
    (each : List.Forall₂ (fun a b =>
      ∀ names, (expandMacrosText ctx macros n disabled names a).Gives b) args expanded)
    (substituted : substituteArgs m.replacement
      (bindArgs m.isVariadic params args expanded) = .ok subst)
    (rescanned : ∀ names, (expandMacrosText ctx macros n disabled names subst).Gives o) :
    (expandPiece (expandMacrosText ctx macros n) disabled rescanning
      (.invocation m params args)).Gives o := by
  rw [expandPiece, if_pos fits]
  refine (Run.gives_forEach (each.imp fun a b gives => gives rescanning)).andThen ?_
  simp only [substituted]
  exact (rescanned _).logged _

theorem eventually_each {ctx : ExpandContext} {args expanded : List Text}
    (each : List.Forall₂ (Yields macros disabled) args expanded) :
    ∀ᶠ n in atTop, List.Forall₂ (fun a b =>
      ∀ names, (expandMacrosText ctx macros n disabled names a).Gives b) args expanded := by
  induction each with
  | nil => exact Eventually.of_forall fun n => .nil
  | cons first _ ih =>
    filter_upwards [first ctx, ih] with n head tail
    exact .cons head tail

/-- One turn of `expand_macros_text`. -/
theorem Yields.turn {c : Char} {s rest o out : Text} {piece : Piece}
    (next : ∀ ctx, nextPiece ctx macros disabled c s = (piece, rest))
    (gives : ∀ ctx, ∀ᶠ n in atTop, ∀ rescanning,
      (expandPiece (expandMacrosText ctx macros n) disabled rescanning piece).Gives o)
    (after : Yields macros disabled rest out) : Yields macros disabled (c :: s) (o ++ out) := by
  intro ctx
  apply eventually_succ
  filter_upwards [gives ctx, after ctx] with n here tail
  intro rescanning
  rw [expandMacrosText, next]
  exact (here rescanning).andThen ((tail rescanning).andThen (Run.gives_returns _))

theorem gives_verbatim (text : Text) (ctx : ExpandContext) :
    ∀ᶠ n in atTop, ∀ rescanning,
      (expandPiece (expandMacrosText ctx macros n) disabled rescanning (.verbatim text)).Gives text :=
  Eventually.of_forall fun _ _ => Run.gives_returns text

theorem Yields.word {w s rest o out : Text} {piece : Piece} (word : isWord w = true)
    (ends : EndsWord s) (next : ∀ ctx, namePiece ctx macros disabled w s = (piece, rest))
    (gives : ∀ ctx, ∀ᶠ n in atTop, ∀ rescanning,
      (expandPiece (expandMacrosText ctx macros n) disabled rescanning piece).Gives o)
    (after : Yields macros disabled rest out) : Yields macros disabled (w ++ s) (o ++ out) := by
  cases w with
  | nil => cases word
  | cons c w => exact Yields.turn (fun ctx => (nextPiece_word word ends).trans (next ctx)) gives after

theorem Yields.nil : Yields macros disabled [] [] := fun _ =>
  eventually_succ (Eventually.of_forall fun _ _ => Run.gives_returns _)

theorem Yields.copyChar {c : Char} {s out : Text} (noQuote : isQuote c = false)
    (noStart : isIdentStart c = false) (after : Yields macros disabled s out) :
    Yields macros disabled (c :: s) (c :: out) := by
  have next (ctx) : nextPiece ctx macros disabled c s = (.verbatim [c], s) := by
    rw [nextPiece, if_neg (by simp [noQuote]), if_neg (by simp [noStart])]
  exact Yields.turn next (gives_verbatim [c]) after

theorem blank_facts {c : Char} (blank : isArgBlank c = true) :
    isQuote c = false ∧ isIdentStart c = false ∧ isSpaceChar c = true := by
  have cases : c = ' ' ∨ c = '\t' ∨ c = '\n' := by
    simpa [isArgBlank, isBlank, or_assoc] using blank
  rcases cases with rfl | rfl | rfl <;> decide

theorem nestedScanner (macros : MacroTable) (disabled : List Text) :
    Scanner macros disabled false fun _ => Yields macros disabled where
  nil _ := Yields.nil
  blank is after := Yields.copyChar (blank_facts is).1 (blank_facts is).2.1 after
  char noQuote noStart _ _ _ after := Yields.copyChar noQuote noStart after
  quoted {_ quote body s out} isQ closed after := by
    have next (ctx) : nextPiece ctx macros disabled quote (body ++ quote :: s) =
        (.verbatim (quote :: (body ++ [quote])), s) := by
      rw [nextPiece, if_pos isQ, takeQuoted_closed isQ closed]
    simpa using Yields.turn next (gives_verbatim _) after
  plain word ends ordinary copied free after :=
    Yields.word word ends (fun _ => namePiece_plain ordinary copied (free rfl)) (gives_verbatim _)
      after
  rescan word ends ordinary found objectLike enabled rescanned after := by
    refine Yields.word word ends (fun _ => namePiece_rescan ordinary found objectLike enabled)
      (fun ctx => ?_) after
    filter_upwards [rescanned ctx] with n gives rescanning
    exact (gives _).logged _
  call word ends ordinary found functionLike opens read fits each substituted rescanned after := by
    refine Yields.word word ends (fun _ => namePiece_call ordinary found functionLike opens read)
      (fun ctx => ?_) after
    filter_upwards [eventually_each each, rescanned ctx] with n all gives rescanning
    exact gives_call fits all substituted gives

/-! ### The loop over text lines -/

theorem Run.Gives.prepend {m : Run (Text × Text)} {out rest : Text} (gives : m.Gives (out, rest))
    (text : Text) : (Run.prepend text m).Gives (text ++ out, rest) :=
  gives.andThen (Run.gives_returns _)

variable {path : Text}

theorem LineYields.copyChar {content : Bool} {c : Char} {s out : Text}
    (noQuote : isQuote c = false) (noStart : isIdentStart c = false)
    (noSpace : isSpaceChar c = false) (noDirective : c = '#' → content = true)
    (noComment : c = '/' → s.head? ≠ some '/' ∧ s.head? ≠ some '*')
    (after : LineYields path macros true s out) :
    LineYields path macros content (c :: s) (c :: out) := by
  intro line
  apply eventually_succ
  filter_upwards [after line] with n tail
  have noNewline : c ≠ '\n' := by
    rintro rfl
    cases noSpace
  rw [preprocessText, if_neg noNewline, if_neg (by simp [noSpace]),
    if_neg fun h => (noComment h.1).1 h.2, if_neg fun h => (noComment h.1).2 h.2,
    if_neg (by rintro ⟨h, none⟩; simp [noDirective h] at none), if_neg (by simp [noQuote]),
    if_neg (by simp [noStart])]
  exact tail.prepend [c]

theorem LineYields.copyBlank {content : Bool} {c : Char} {s out : Text}
    (blank : isArgBlank c = true) (after : LineYields path macros (c != '\n' && content) s out) :
    LineYields path macros content (c :: s) (c :: out) := by
  intro line
  apply eventually_succ
  by_cases newline : c = '\n'
  · subst newline
    filter_upwards [after (line + 1)] with n tail
    rw [preprocessText, if_pos rfl]
    exact tail.prepend _
  · have same : (c != '\n' && content) = content := by simp [newline]
    rw [same] at after
    filter_upwards [after line] with n tail
    rw [preprocessText, if_neg newline, if_pos (blank_facts blank).2.2]
    exact tail.prepend _

/-- A word of the text lines. -/
theorem LineYields.word {content : Bool} {w s rest o out : Text} {piece : Piece}
    (word : isWord w = true) (ends : EndsWord s)
    (next : ∀ ctx, lineName ctx macros w s = .ok (piece, rest))
    (gives : ∀ ctx, ∀ᶠ n in atTop, ∀ rescanning,
      (expandPiece (expandMacrosText ctx macros n) [] rescanning piece).Gives o)
    (after : LineYields path macros true rest out) :
    LineYields path macros content (w ++ s) (o ++ out) := by
  cases w with
  | nil => cases word
  | cons c w =>
    intro line
    apply eventually_succ
    filter_upwards [gives ⟨path, line⟩, after line] with n here tail
    obtain ⟨start, noQuote, noSpace, noSlash, noHash⟩ := isWord_head word
    obtain ⟨front, back⟩ := splitWord word ends
    have noNewline : c ≠ '\n' := by
      rintro rfl
      cases noSpace
    rw [List.cons_append, preprocessText, if_neg noNewline, if_neg (by simp [noSpace]),
      if_neg fun h => noSlash h.1, if_neg fun h => noSlash h.1, if_neg fun h => noHash h.1,
      if_neg (by simp [noQuote]), if_pos start, front, back]
    simp only [next]
    exact (here []).andThen (tail.prepend o)

theorem lineName_ordinary {ctx : ExpandContext} {w s : Text} (ordinary : w ∉ predefinedWords) :
    lineName ctx macros w s =
      match macroFind macros w with
      | none => .ok (.verbatim w, s)
      | some m =>
        match m.params with
        | none => .ok (.objectLike m, s)
        | some params =>
          match s.dropWhile isBlank with
          | '(' :: tail => .ok (.invocation m params (collectArgs tail).1, (collectArgs tail).2)
          | _ => .ok (.verbatim w, s) := by
  obtain ⟨noFile, noLine, noPragma⟩ := ne_of_not_predefined ordinary
  exact (if_neg noFile).trans ((if_neg noLine).trans (if_neg noPragma))

theorem lineName_plain {ctx : ExpandContext} {w s : Text} (ordinary : w ∉ predefinedWords)
    (copied : CopiedWord macros [] w s) : lineName ctx macros w s = .ok (.verbatim w, s) := by
  rw [lineName_ordinary ordinary]
  cases found : macroFind macros w with
  | none => rfl
  | some m =>
    obtain ⟨blocked, uncalled⟩ := copied m found
    cases params : m.params with
    | none => exact absurd (blocked params) List.not_mem_nil
    | some ps =>
      have uncalled := uncalled (by simp [params])
      simp only [params]
      split
      · next tail start => simp [callsAhead, start] at uncalled
      · rfl

theorem lineScanner (path : Text) (macros : MacroTable) :
    Scanner macros [] true (LineYields path macros) where
  nil _ := fun _ => eventually_succ (Eventually.of_forall fun _ => Run.gives_returns _)
  blank is after := LineYields.copyBlank is after
  char noQuote noStart noSpace noDirective noComment after :=
    LineYields.copyChar noQuote noStart noSpace (noDirective rfl) noComment after
  quoted {_ quote body s out} isQ closed after := by
    intro line
    apply eventually_succ
    filter_upwards [after line] with n tail
    have facts : quote ≠ '\n' ∧ isSpaceChar quote = false ∧ quote ≠ '/' ∧ quote ≠ '#' := by
      rcases quote_cases isQ with rfl | rfl <;> decide
    obtain ⟨noNewline, noSpace, noSlash, noHash⟩ := facts
    rw [preprocessText, if_neg noNewline, if_neg (by simp [noSpace]), if_neg fun h => noSlash h.1,
      if_neg fun h => noSlash h.1, if_neg fun h => noHash h.1, if_pos isQ,
      takeQuoted_closed isQ closed]
    simpa using tail.prepend (quote :: (body ++ [quote]))
  plain word ends ordinary copied _ after :=
    LineYields.word word ends (fun _ => lineName_plain ordinary copied) (gives_verbatim _) after
  rescan {_ w s out m o} word ends ordinary found objectLike _ rescanned after := by
    have next (ctx) : lineName ctx macros w s = .ok (.objectLike m, s) := by
      simp [lineName_ordinary ordinary, found, objectLike]
    refine LineYields.word word ends next (fun ctx => ?_) after
    filter_upwards [rescanned ctx] with n gives rescanning
    exact (gives _).logged _
  call {_ w s out m params tail args rest expanded subst o} word ends ordinary found functionLike
      opens read fits each substituted rescanned after := by
    have next (ctx) : lineName ctx macros w s = .ok (.invocation m params args, rest) := by
      simp [lineName_ordinary ordinary, found, functionLike, opens, read]
    refine LineYields.word word ends next (fun ctx => ?_) after
    filter_upwards [eventually_each each, rescanned ctx] with n all gives rescanning
    exact gives_call fits all substituted gives

end ClaudeC99.Preprocessor
