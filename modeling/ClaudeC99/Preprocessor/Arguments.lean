import ClaudeC99.Lib.Brackets
import ClaudeC99.Preprocessor.LineEnds
import ClaudeC99.Preprocessor.Scanner

/-! Which invocations of function-like macros are accepted, and with which arguments. -/

namespace ClaudeC99.Preprocessor

open Brackets (Kind Fields split separators)

/-- A text as literals, which are passed over whole, and single characters. -/
def units : Text → List Text
  | [] => []
  | c :: s =>
    if isQuote c then (c :: (takeQuoted c s).1) :: units (takeQuoted c s).2 else [c] :: units s
  termination_by s => s.length
  decreasing_by
    · have := takeQuoted_length c s
      simp only [List.length_cons]
      omega
    · simp

def unitKind (u : Text) : Kind :=
  if u = ['('] then .opening
  else if u = [')'] then .closing
  else if u = [','] then .separator
  else .plain

/-- An argument as it is spelled, without the blanks and newlines around it. -/
def spelling (argument : List Text) : Text := trimArg (argument.flatten.dropWhile isArgBlank)

/-- There is nothing but blanks and newlines before the parenthesis. -/
def emptyList (s : Text) : Prop := (s.dropWhile isArgBlank).head? = some ')'

instance (s : Text) : Decidable (emptyList s) := inferInstanceAs (Decidable (_ = _))

/-- The arguments up to the matching parenthesis for a macro with `n` parameters, and the text
after it. An empty list is one empty argument for a single parameter. -/
def Arguments (n : Nat) (s : Text) (args : List Text) (rest : Text) : Prop :=
  ∃ fields tail, Fields unitKind (units s) fields tail ∧ rest = tail.flatten ∧
    args = if emptyList s then (if n = 1 then [[]] else []) else fields.map spelling

def Fits (isVariadic : Bool) (n count : Nat) : Prop := if isVariadic then n ≤ count else count = n

instance (isVariadic : Bool) (n count : Nat) : Decidable (Fits isVariadic n count) :=
  match isVariadic with
  | true => inferInstanceAs (Decidable (n ≤ count))
  | false => inferInstanceAs (Decidable (count = n))

/-- The invocation is well-formed. -/
def WellFormed (isVariadic : Bool) (n : Nat) (s : Text) : Prop :=
  ∃ args rest, Arguments n s args rest ∧ Fits isVariadic n args.length

theorem fits_iff (m : MacroDef) (params args : List Text) :
    argCountMatches m.isVariadic params args = true ↔ Fits m.isVariadic params.length args.length := by
  unfold argCountMatches Fits
  cases m.isVariadic <;> simp

section Units

variable {c : Char} {s : Text}

theorem units_quoted (quote : isQuote c = true) :
    units (c :: s) = (c :: (takeQuoted c s).1) :: units (takeQuoted c s).2 := by
  rw [units, if_pos quote]

theorem units_char (noQuote : isQuote c = false) : units (c :: s) = [c] :: units s := by
  rw [units, if_neg (by simp [noQuote])]

theorem units_flatten (s : Text) : (units s).flatten = s := by
  fun_induction units s with
  | case1 => rfl
  | case2 c s quote ih => simp [ih, takeQuoted_append]
  | case3 c s noQuote ih => simp [ih]

theorem unitKind_quoted (quote : isQuote c = true) (literal : Text) :
    unitKind (c :: literal) = .plain := by
  have other : c ≠ '(' ∧ c ≠ ')' ∧ c ≠ ',' := by
    rcases quote_cases quote with rfl | rfl <;> decide
  simp [unitKind, other]

theorem unitKind_plain (noOpening : c ≠ '(') (noClosing : c ≠ ')') (noComma : c ≠ ',') :
    unitKind [c] = .plain := by
  simp [unitKind, noOpening, noClosing, noComma]

end Units

theorem blank_unit {c : Char} (blank : isArgBlank c = true) :
    isQuote c = false ∧ unitKind [c] = .plain := by
  have cases : (c = ' ' ∨ c = '\t') ∨ c = '\n' := by simpa [isArgBlank, isBlank] using blank
  rcases cases with (rfl | rfl) | rfl <;> exact ⟨rfl, rfl⟩

/-- Blanks at the start of a text make units of their own. -/
theorem units_blanks (s : Text) :
    ∃ blanks, units s = blanks ++ units (s.dropWhile isArgBlank) ∧
      Brackets.Field unitKind blanks ∧ ∀ c ∈ blanks.flatten, isArgBlank c = true := by
  induction s with
  | nil => exact ⟨[], rfl, .nil, by simp⟩
  | cons c s ih =>
    by_cases blank : isArgBlank c = true
    · obtain ⟨blanks, parts, field, all⟩ := ih
      obtain ⟨noQuote, plain⟩ := blank_unit blank
      refine ⟨[c] :: blanks, ?_, .single plain field, ?_⟩
      · rw [units_char noQuote, List.dropWhile_cons_of_pos blank, parts, List.cons_append]
      · intro d member
        rw [List.flatten_cons, List.singleton_append] at member
        rcases List.mem_cons.mp member with rfl | later
        · exact blank
        · exact all d later
    · refine ⟨[], ?_, .nil, by simp⟩
      rw [List.dropWhile_cons_of_neg blank, List.nil_append]

theorem spelling_append {blanks : List Text} (all : ∀ c ∈ blanks.flatten, isArgBlank c = true)
    (argument : List Text) : spelling (blanks ++ argument) = spelling argument := by
  rw [spelling, spelling, List.flatten_append, List.dropWhile_append_of_pos all]

theorem map_spelling_prepend {blanks : List Text}
    (all : ∀ c ∈ blanks.flatten, isArgBlank c = true) (fields : List (List Text)) :
    (Brackets.prepend blanks fields).map spelling = fields.map spelling := by
  cases fields with
  | nil => rfl
  | cons v fields => simp [Brackets.prepend, spelling_append all]

/-- The blanks before an argument change nothing but its first units. -/
theorem split_skip (s : Text) :
    (split unitKind 0 [] (units s)).1.map spelling =
        (split unitKind 0 [] (units (s.dropWhile isArgBlank))).1.map spelling ∧
      (split unitKind 0 [] (units s)).2 =
        (split unitKind 0 [] (units (s.dropWhile isArgBlank))).2 := by
  obtain ⟨blanks, parts, field, all⟩ := units_blanks s
  have skipped := Brackets.split_field field [] (units (s.dropWhile isArgBlank))
  have prepended := Brackets.split_prepend unitKind 0 blanks []
    (units (s.dropWhile isArgBlank))
  rw [List.append_nil] at prepended
  rw [parts, skipped, List.nil_append, prepended]
  exact ⟨map_spelling_prepend all _, rfl⟩

/-- What has been read of an argument does not start with a blank. -/
def StartsTrimmed (arg s : Text) : Prop := ∀ c ∈ (arg ++ s).head?, isArgBlank c = false

theorem StartsTrimmed.push {arg u s : Text} (trimmed : StartsTrimmed arg (u ++ s)) :
    StartsTrimmed (arg ++ u) s := by
  intro c head
  apply trimmed
  rw [← List.append_assoc]
  exact head

theorem startsTrimmed_dropWhile (s : Text) : StartsTrimmed [] (s.dropWhile isArgBlank) := by
  intro c head
  have stopped := List.head?_dropWhile_not isArgBlank s
  rw [List.nil_append] at head
  rw [Option.mem_def.mp head] at stopped
  simpa using stopped

theorem spelling_trimmed {v : List Text} {c : Char} {s : Text}
    (trimmed : StartsTrimmed v.flatten (c :: s)) : spelling v = trimArg v.flatten := by
  rw [spelling]
  cases read : v.flatten with
  | nil => rfl
  | cons d arg =>
    rw [read] at trimmed
    have noBlank : isArgBlank d = false := trimmed d rfl
    rw [List.dropWhile_cons_of_neg (by simp [noBlank])]

theorem collectArgsLoop_split (depth : Nat) (v : List Text) (s : Text)
    (trimmed : StartsTrimmed v.flatten s) :
    collectArgsLoop depth v.flatten s =
      ((split unitKind depth v (units s)).1.map spelling,
        ((split unitKind depth v (units s)).2.getD []).flatten) := by
  generalize read : v.flatten = arg at trimmed ⊢
  fun_induction collectArgsLoop depth arg s generalizing v with
  | case1 => simp [units, split]
  | case2 depth arg c rest quote ih =>
    rw [units_quoted quote, Brackets.split_plain (unitKind_quoted quote _)]
    apply ih
    · simp [read]
    · apply StartsTrimmed.push
      rw [List.cons_append, takeQuoted_append]
      exact trimmed
  | case3 depth arg rest noQuote ih =>
    rw [units_char rfl, Brackets.split_opening rfl]
    exact ih _ (by simp [read]) trimmed.push
  | case4 depth arg c rest noQuote noOpen inner ih =>
    obtain ⟨rfl, inside⟩ := inner
    cases depth with
    | zero => cases inside
    | succ depth =>
      rw [units_char rfl, Brackets.split_closing rfl]
      exact ih _ (by simp [read]) trimmed.push
  | case5 depth arg rest noQuote noOpen outer =>
    cases depth with
    | succ depth => exact absurd ⟨rfl, Nat.succ_pos depth⟩ outer
    | zero =>
      rw [← read] at trimmed
      rw [units_char rfl, Brackets.split_closed rfl, ← read, ← spelling_trimmed trimmed]
      simp [units_flatten]
  | case6 depth arg c rest noQuote noOpen noInner noClose comma args after tail ih =>
    obtain ⟨rfl, rfl⟩ := comma
    rw [← read] at trimmed
    have skipped := split_skip rest
    have later := ih [] rfl (startsTrimmed_dropWhile rest)
    rw [tail, ← skipped.1, ← skipped.2] at later
    obtain ⟨rfl, rfl⟩ := Prod.mk.inj later
    rw [units_char rfl, Brackets.split_separator rfl, ← read, ← spelling_trimmed trimmed]
    rfl
  | case7 depth arg c rest noQuote noOpen noInner noClose noComma ih =>
    rw [units_char (by simpa using noQuote)]
    by_cases inner : c = ','
    · subst inner
      cases depth with
      | zero => exact absurd ⟨rfl, rfl⟩ noComma
      | succ depth =>
        rw [Brackets.split_inside (by decide) (by decide)]
        exact ih _ (by simp [read]) trimmed.push
    · rw [Brackets.split_plain (unitKind_plain noOpen noClose inner)]
      exact ih _ (by simp [read]) trimmed.push

/-- There is a matching parenthesis. -/
def Closed (s : Text) : Prop := ∃ fields tail, Fields unitKind (units s) fields tail

theorem collectArgs_split {s : Text} (listed : ¬ emptyList s) :
    collectArgs s =
      ((split unitKind 0 [] (units s)).1.map spelling,
        ((split unitKind 0 [] (units s)).2.getD []).flatten) := by
  have read := collectArgsLoop_split 0 [] (s.dropWhile isArgBlank) (startsTrimmed_dropWhile s)
  have skipped := split_skip s
  rw [← skipped.1, ← skipped.2] at read
  rw [← read]
  cases start : s.dropWhile isArgBlank with
  | nil => simp [collectArgs, start]
  | cons c rest =>
    apply collectArgs_start start
    rintro rfl
    exact listed (by simp [emptyList, start])

theorem collectArgs_empty {s : Text} (empty : emptyList s) :
    ∃ blanks tail, Fields unitKind (units s) [blanks] tail ∧ collectArgs s = ([], tail.flatten) := by
  cases start : s.dropWhile isArgBlank with
  | nil => simp [emptyList, start] at empty
  | cons c rest =>
    have paren : c = ')' := by simpa [emptyList, start] using empty
    obtain ⟨blanks, parts, field, -⟩ := units_blanks s
    rw [start, paren, units_char rfl] at parts
    refine ⟨blanks, units rest, ?_, ?_⟩
    · rw [parts]
      exact .last field rfl
    · rw [units_flatten]
      simp [collectArgs, start, paren]

/-- With its parenthesis an invocation is read as it is written, an empty list as no argument. -/
theorem collectArgs_closed {s : Text} {fields : List (List Text)} {tail : List Text}
    (closed : Fields unitKind (units s) fields tail) :
    collectArgs s = (if emptyList s then [] else fields.map spelling, tail.flatten) := by
  have found := Brackets.fields_iff.mp closed
  by_cases empty : emptyList s
  · obtain ⟨blanks, tail', closed', read⟩ := collectArgs_empty empty
    rw [Brackets.fields_iff.mp closed'] at found
    cases found
    rw [read, if_pos empty]
  · rw [collectArgs_split empty, found, if_neg empty]
    rfl

/-- Without its parenthesis an invocation has an argument for each comma; the last one is lost. -/
theorem collectArgs_unclosed {s : Text} (unclosed : ¬ Closed s) :
    (collectArgs s).1.length = separators unitKind 0 (units s) := by
  have listed : ¬ emptyList s := by
    intro empty
    obtain ⟨blanks, tail, closed, -⟩ := collectArgs_empty empty
    exact unclosed ⟨[blanks], tail, closed⟩
  rw [collectArgs_split listed, List.length_map]
  apply Brackets.split_open
  cases rest : (split unitKind 0 [] (units s)).2 with
  | none => rfl
  | some tail =>
    have closed : Fields unitKind (units s) (split unitKind 0 [] (units s)).1 tail :=
      Brackets.fields_iff.mpr (Prod.ext rfl rest)
    exact absurd ⟨_, _, closed⟩ unclosed

/-- The word `w` before `after` calls `m`, with `s` behind the parenthesis. -/
structure Calls (macros : MacroTable) (w after : Text) (m : MacroDef) (params : List Text)
    (s : Text) : Prop where
  ordinary : w ∉ predefinedWords
  found : macroFind macros w = some m
  functionLike : m.params = some params
  opens : after.dropWhile isBlank = '(' :: s

/-- Both loops accept an invocation exactly when it is well-formed, and read it as it is written. -/
structure ReadAsWritten (m : MacroDef) (params : List Text) (s : Text) : Prop where
  nested : ∀ ctx macros disabled w after, Calls macros w after m params s →
    namePiece ctx macros disabled w after =
      (.invocation m params (collectArgs s).1, (collectArgs s).2)
  line : ∀ ctx macros w after, Calls macros w after m params s →
    lineName ctx macros w after =
      .ok (.invocation m params (collectArgs s).1, (collectArgs s).2)
  accepted : argCountMatches m.isVariadic params (collectArgs s).1 = true ↔
    WellFormed m.isVariadic params.length s
  stops : ¬ WellFormed m.isVariadic params.length s → ∀ expand disabled rescanning,
    expandPiece expand disabled rescanning (.invocation m params (collectArgs s).1) =
      .exits (argCountError m params (collectArgs s).1)
  read : ∀ args rest, Arguments params.length s args rest →
    Fits m.isVariadic params.length args.length → collectArgs s = (args, rest)

/-- An open invocation has as many commas as the macro takes arguments, or an empty list stands
for the only one. -/
def Misread (isVariadic : Bool) (n : Nat) (s : Text) : Prop :=
  ¬ Closed s ∧ Fits isVariadic n (separators unitKind 0 (units s)) ∨
    Closed s ∧ emptyList s ∧ n = 1

section Invocation

variable {macros : MacroTable} {w after s : Text} {m : MacroDef} {params : List Text}

theorem Calls.namePiece (calls : Calls macros w after m params s) (ctx : ExpandContext)
    (disabled : List Text) :
    Preprocessor.namePiece ctx macros disabled w after =
      (.invocation m params (collectArgs s).1, (collectArgs s).2) :=
  namePiece_call calls.ordinary calls.found calls.functionLike calls.opens rfl

theorem Calls.lineName (calls : Calls macros w after m params s) (ctx : ExpandContext) :
    Preprocessor.lineName ctx macros w after =
      .ok (.invocation m params (collectArgs s).1, (collectArgs s).2) := by
  rw [lineName_ordinary calls.ordinary, calls.found]
  simp only [calls.functionLike, calls.opens]

theorem expandPiece_mismatch {args : List Text} {expand : List Text → List Text → Text → Run Text}
    {disabled rescanning : List Text}
    (misfit : argCountMatches m.isVariadic params args ≠ true) :
    expandPiece expand disabled rescanning (.invocation m params args) =
      .exits (argCountError m params args) :=
  if_neg misfit

/-- A closed invocation is well-formed when its arguments fit. -/
theorem wellFormed_closed {isVariadic : Bool} {n : Nat} {fields : List (List Text)}
    {tail : List Text} (closed : Fields unitKind (units s) fields tail) :
    WellFormed isVariadic n s ↔
      Fits isVariadic n
        (if emptyList s then (if n = 1 then [[]] else []) else fields.map spelling).length := by
  constructor
  · rintro ⟨args, rest, ⟨fields', tail', closed', -, rfl⟩, fits⟩
    have same := (Brackets.fields_iff.mp closed).symm.trans (Brackets.fields_iff.mp closed')
    cases same
    exact fits
  · intro fits
    exact ⟨_, _, ⟨fields, tail, closed, rfl, rfl⟩, fits⟩

theorem WellFormed.closed {isVariadic : Bool} {n : Nat} (formed : WellFormed isVariadic n s) :
    Closed s := by
  obtain ⟨args, rest, ⟨fields, tail, closed, -⟩, -⟩ := formed
  exact ⟨fields, tail, closed⟩

theorem accepted_closed (closed : Closed s) :
    (argCountMatches m.isVariadic params (collectArgs s).1 = true ↔
      WellFormed m.isVariadic params.length s) ↔ ¬ (emptyList s ∧ params.length = 1) := by
  obtain ⟨fields, tail, closed⟩ := closed
  rw [fits_iff, wellFormed_closed closed, collectArgs_closed closed]
  by_cases empty : emptyList s
  · by_cases single : params.length = 1
    · simp [empty, single, Fits]
    · simp [empty, single]
  · simp [empty]

theorem accepted_unclosed (unclosed : ¬ Closed s) :
    (argCountMatches m.isVariadic params (collectArgs s).1 = true ↔
      WellFormed m.isVariadic params.length s) ↔
      ¬ Fits m.isVariadic params.length (separators unitKind 0 (units s)) := by
  have malformed : ¬ WellFormed m.isVariadic params.length s := fun formed =>
    unclosed formed.closed
  rw [fits_iff, collectArgs_unclosed unclosed, iff_false_right malformed]

theorem accepted_iff :
    (argCountMatches m.isVariadic params (collectArgs s).1 = true ↔
      WellFormed m.isVariadic params.length s) ↔ ¬ Misread m.isVariadic params.length s := by
  by_cases closed : Closed s
  · rw [accepted_closed closed]
    simp [Misread, closed]
  · rw [accepted_unclosed closed]
    simp [Misread, closed]

/-- What fits is read as it is written. -/
theorem collectArgs_arguments {isVariadic : Bool} {n : Nat} {args : List Text} {rest : Text}
    (read : Arguments n s args rest) (regular : ¬ Misread isVariadic n s) :
    collectArgs s = (args, rest) := by
  obtain ⟨fields, tail, closed, rfl, rfl⟩ := read
  rw [collectArgs_closed closed]
  by_cases empty : emptyList s
  · have several : n ≠ 1 := fun single => regular (.inr ⟨⟨_, _, closed⟩, empty, single⟩)
    rw [if_pos empty, if_pos empty, if_neg several]
  · rw [if_neg empty, if_neg empty]

end Invocation

theorem invocation_read_iff (m : MacroDef) (params : List Text) (s : Text) :
    ReadAsWritten m params s ↔ ¬ Misread m.isVariadic params.length s := by
  constructor
  · intro written
    exact accepted_iff.mp written.accepted
  · intro regular
    have accepted := accepted_iff.mpr regular
    exact {
      nested := fun ctx macros disabled w after calls => calls.namePiece ctx disabled
      line := fun ctx macros w after calls => calls.lineName ctx
      accepted := accepted
      stops := fun malformed expand disabled rescanning =>
        expandPiece_mismatch fun fits => malformed (accepted.mp fits)
      read := fun args rest read _ => collectArgs_arguments read regular }

/-- For one parameter, the end of the text closes `F(a, b`, and `F()` has no argument. -/
theorem open_and_empty_invocations :
    ¬ ReadAsWritten ⟨['F'], some [['x']], false, ['x']⟩ [['x']] "a, b".toList ∧
      ¬ ReadAsWritten ⟨['F'], some [['x']], false, ['x']⟩ [['x']] ")".toList := by
  constructor
  · intro written
    have accepted : argCountMatches false [['x']] (collectArgs "a, b".toList).1 = true := by
      simp [argCountMatches, collectArgs, collectArgsLoop, isArgBlank, isBlank, isQuote]
    obtain ⟨args, rest, ⟨fields, tail, closed, -⟩, -⟩ := written.accepted.mp accepted
    have found := Brackets.fields_iff.mp closed
    simp [units, isQuote, split, unitKind] at found
  · intro written
    have closed : Fields unitKind (units [')']) [[]] [] := by
      rw [units_char rfl, units]
      exact .last .nil rfl
    have formed : WellFormed false 1 [')'] := (wellFormed_closed closed).mpr (by decide)
    have accepted := written.accepted.mpr formed
    simp [argCountMatches, collectArgs, isArgBlank, isBlank] at accepted

end ClaudeC99.Preprocessor
