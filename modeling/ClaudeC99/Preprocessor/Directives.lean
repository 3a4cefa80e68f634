import ClaudeC99.Preprocessor.Condition
import ClaudeC99.Preprocessor.TextLines

/-! The directives of `preprocess_internal`, except the inclusion of files. -/

namespace ClaudeC99.Preprocessor

open Numeral (digitsValue)

structure CondFrame where
  emitting : Bool
  parentEmitting : Bool
  seenElse : Bool
  branchTaken : Bool
  deriving DecidableEq, Repr

/-- What the files of one run share: the macro table, its `#pragma once` paths, and the invocation
site that was set last. -/
structure Shared where
  macros : MacroTable
  oncePaths : List Text
  context : ExpandContext

/-- The state of the loop; `rest` is the spliced source from `in` on, and the top of the stack of
conditionals comes first. -/
structure Source extends Shared where
  rest : Text
  lineHasContent : Bool
  currentLine : Int
  currentFileOverride : Option Text
  emitting : Bool
  condStack : List CondFrame

def maxCondDepth : Nat := 64

def spliceLines : Text → Text
  | [] => []
  | '\\' :: '\n' :: s => spliceLines s
  | c :: s => c :: spliceLines s

/-- What `skip_directive_tail` passes, and the text after it. -/
def directiveTail (s : Text) : Text × Text :=
  let rest := skipDirectiveTail s
  (s.take (s.length - rest.length), rest)

/-- The text after a block comment, or nothing if it is not closed. -/
def afterComment (s : Text) : Text := ((blockComment 0 s).map Prod.snd).getD []

theorem afterComment_length_le (s : Text) : (afterComment s).length ≤ s.length := by
  unfold afterComment
  cases closed : blockComment 0 s with
  | none => simp
  | some r => exact blockComment_length closed

/-- `out` is the text so far. -/
def stripBlockCommentsLoop (out : Text) : Text → Text
  | [] => out
  | '/' :: '*' :: s =>
    let spaced := out = [] ∨ out.getLast? = some ' '
    stripBlockCommentsLoop (if spaced then out else out ++ [' ']) (afterComment s)
  | c :: s => stripBlockCommentsLoop (out ++ [c]) s
  termination_by s => s.length
  decreasing_by
    · have := afterComment_length_le s
      simp only [List.length_cons]
      omega
    · simp

def stripBlockComments (s : Text) : Text := trimBlanks (stripBlockCommentsLoop [] s)

def stripCondComments : Text → Text
  | [] => []
  | '/' :: '*' :: s => ' ' :: stripCondComments (afterComment s)
  | '/' :: '/' :: s => ' ' :: stripCondComments (s.dropWhile (· ≠ '\n'))
  | c :: s => c :: stripCondComments s
  termination_by s => s.length
  decreasing_by
    · have := afterComment_length_le s
      simp only [List.length_cons]
      omega
    · have := dropWhile_length_le (· ≠ '\n') s
      simp only [List.length_cons]
      omega
    · simp

/-! Conditional inclusion -/

/-- The frame of a section whose first group has the condition `cond`. -/
def pushFrame (st : Source) (cond : Bool) : Source :=
  let active := st.emitting && cond
  let frame : CondFrame :=
    { emitting := active, parentEmitting := st.emitting, seenElse := false, branchTaken := active }
  { st with condStack := frame :: st.condStack, emitting := active }

/-- `#ifdef`, and `#ifndef` with `wanted = false`. -/
def ifdefDirective (wanted : Bool) (st : Source) (s : Text) : Except String Source :=
  let s := s.dropWhile isBlank
  let isDefined := (macroFind st.macros (s.takeWhile isIdentChar)).isSome
  if maxCondDepth ≤ st.condStack.length then .error "error: conditional nesting too deep"
  else
    .ok (pushFrame { st with rest := skipDirectiveTail (s.dropWhile isIdentChar) }
      (isDefined == wanted))

/-- The value of a condition, and the text after its line. -/
def evalCondition (fuel : Nat) (directive : String) (st : Source) (s : Text) :
    Run (Bool × Text) :=
  let (condText, rest) := directiveTail (s.dropWhile isBlank)
  let stripped := stripCondComments condText
  (expandMacrosText st.context st.macros fuel [] [] stripped).andThen fun expanded =>
    match evalCondExpr st.macros (expanded.dropWhile isBlank) with
    | .error message => .exits message
    | .ok (value, after) =>
      if after.dropWhile isBlank = [] then .returns (value ≠ 0, skipDirectiveTail rest)
      else .exits ("error: extra tokens after " ++ directive ++ " expression")

def ifDirective (fuel : Nat) (st : Source) (s : Text) : Run Source :=
  if maxCondDepth ≤ st.condStack.length then .exits "error: conditional nesting too deep"
  else if st.emitting then
    (evalCondition fuel "#if" st s).andThen fun (cond, rest) =>
      .returns (pushFrame { st with rest } cond)
  else .returns (pushFrame { st with rest := skipDirectiveTail s } false)

/-- The top frame in a further group with the condition `cond`. -/
def CondFrame.elif (top : CondFrame) (cond : Bool) : CondFrame :=
  if top.parentEmitting then
    if !top.branchTaken && cond then { top with emitting := true, branchTaken := true }
    else { top with emitting := false }
  else top

def Source.replaceTop (st : Source) (top : CondFrame) (below : List CondFrame) (rest : Text) :
    Source :=
  { st with rest, condStack := top :: below, emitting := top.emitting }

/-- `#elifdef`, and `#elifndef` with `wanted = false`. -/
def elifdefDirective (wanted : Bool) (st : Source) (s : Text) : Except String Source :=
  let name := if wanted then "#elifdef" else "#elifndef"
  match st.condStack with
  | [] => .error ("error: " ++ name ++ " without conditional")
  | top :: below =>
    if top.seenElse then .error ("error: " ++ name ++ " after #else")
    else if top.parentEmitting && !top.branchTaken then
      let s := s.dropWhile isBlank
      let isDefined := (macroFind st.macros (s.takeWhile isIdentChar)).isSome
      .ok (st.replaceTop (top.elif (isDefined == wanted)) below
        (skipDirectiveTail (s.dropWhile isIdentChar)))
    else .ok (st.replaceTop (top.elif false) below (skipDirectiveTail s))

def elifDirective (fuel : Nat) (st : Source) (s : Text) : Run Source :=
  match st.condStack with
  | [] => .exits "error: #elif without conditional"
  | top :: below =>
    if top.seenElse then .exits "error: #elif after else"
    else if top.parentEmitting && !top.branchTaken then
      (evalCondition fuel "#elif" st s).andThen fun (cond, rest) =>
        .returns (st.replaceTop (top.elif cond) below rest)
    else .returns (st.replaceTop (top.elif false) below (skipDirectiveTail s))

def elseDirective (st : Source) (s : Text) : Except String Source :=
  match st.condStack with
  | [] => .error "error: #else without conditional"
  | top :: below =>
    if top.seenElse then .error "error: duplicate else in conditional"
    else
      let emitting := if top.parentEmitting then !top.branchTaken else top.emitting
      .ok (st.replaceTop { top with seenElse := true, emitting } below (skipDirectiveTail s))

def endifDirective (st : Source) (s : Text) : Except String Source :=
  match st.condStack with
  | [] => .error "error: #endif without conditional"
  | _ :: below =>
    .ok { st with
      rest := skipDirectiveTail s
      condStack := below
      emitting := (below.head?.map CondFrame.emitting).getD true }

/-! Macro definitions -/

def threeDots (s : Text) : Option Text :=
  match s with
  | '.' :: '.' :: '.' :: rest => some rest
  | _ => none

/-- The text after the `)` that has to follow `...`. -/
def closeVariadic (s : Text) : Except String Text :=
  match s.dropWhile isBlank with
  | ')' :: rest => .ok rest
  | _ => .error "error: expected ')' after '...' in macro parameter list"

/-- The rest of a parameter list, from a parameter name or `...` on. -/
def readParamsLoop (params : List Text) (s : Text) : Except String (List Text × Bool × Text) :=
  match threeDots s with
  | some rest => (closeVariadic rest).map fun rest => (params, true, rest)
  | none =>
    if !s.head?.any isIdentStart then .error "error: expected parameter name in macro definition"
    else
      let params := params ++ [s.takeWhile isIdentChar]
      match _after : (s.dropWhile isIdentChar).dropWhile isBlank with
      | ')' :: rest => .ok (params, false, rest)
      | ',' :: rest => readParamsLoop params (rest.dropWhile isBlank)
      | _ => .error "error: expected ',' or ')' in macro parameter list"
  termination_by s.length
  decreasing_by
    have word := dropWhile_length_le isIdentChar s
    have blanks := dropWhile_length_le isBlank (s.dropWhile isIdentChar)
    have next := dropWhile_length_le isBlank rest
    rw [_after, List.length_cons] at blanks
    omega

/-- `s` starts after the opening parenthesis. -/
def readParams (s : Text) : Except String (List Text × Bool × Text) :=
  match s.dropWhile isBlank with
  | ')' :: rest => .ok ([], false, rest)
  | start => readParamsLoop [] start

/-- The text after a literal, whose closing quote or newline goes with it. -/
def skipLiteral (quote : Char) : Text → Text
  | [] => []
  | '\\' :: _ :: s => skipLiteral quote s
  | c :: s => if c = quote ∨ c = '\n' then s else skipLiteral quote s

theorem skipLiteral_length_le (quote : Char) (s : Text) :
    (skipLiteral quote s).length ≤ s.length := by
  fun_induction skipLiteral quote s with
  | case1 => exact le_rfl
  | case2 _ s ih =>
    simp only [List.length_cons]
    omega
  | case3 => simp
  | case4 c s _ _ ih =>
    simp only [List.length_cons]
    omega

/-- The check of `#` and `##` in a replacement; `params` is none for an object-like macro. -/
def checkHashes (params : Option (List Text)) (isVariadic atStart : Bool) :
    Text → Except String Unit
  | [] => .ok ()
  | c :: s =>
    if isQuote c then checkHashes params isVariadic false (skipLiteral c s)
    else if c = '/' ∧ s.head? = some '*' then
      checkHashes params isVariadic false (afterComment s.tail)
    else if c = '#' ∧ s.head? = some '#' then
      if params.isNone then .error "error: '##' in object-like macro is not permitted"
      else if atStart then
        .error "error: hash hash at start of replacement list is not permitted"
      else if s.tail.dropWhile isBlank = [] then
        .error "error: hash hash at end of replacement list is not permitted"
      else checkHashes params isVariadic false s.tail
    else if c = '#' then
      match params with
      | none => .error "error: hash in object like macro is not permitted"
      | some names =>
        let operand := s.dropWhile isBlank
        if !operand.head?.any isIdentStart then .error "error: bare hash in replacement list"
        else
          let name := operand.takeWhile isIdentChar
          if name ∈ names ∨ (isVariadic ∧ name = "__VA_ARGS__".toList) then
            checkHashes params isVariadic false s
          else
            .error ("error: hash not followed by param '" ++ String.ofList name ++ "'")
    else checkHashes params isVariadic false s
  termination_by s => s.length
  decreasing_by
    · have := skipLiteral_length_le c s
      simp only [List.length_cons]
      omega
    · have := afterComment_length_le s.tail
      simp only [List.length_tail, List.length_cons] at this ⊢
      omega
    all_goals
      simp only [List.length_tail, List.length_cons]
      omega

/-- The parameter list that may follow the name of a macro, at once. -/
def macroParams : Text → Except String (Option (List Text) × Bool × Text)
  | '(' :: list =>
    (readParams list).map fun (params, isVariadic, rest) => (some params, isVariadic, rest)
  | rest => .ok (none, false, rest)

def defineDirective (st : Source) (s : Text) : Except String Source :=
  let s := s.dropWhile isBlank
  if !s.head?.any isIdentStart then .error "error: expected macro name after #define"
  else do
    let name := s.takeWhile isIdentChar
    let (params, isVariadic, afterName) ← macroParams (s.dropWhile isIdentChar)
    let (replText, rest) := directiveTail (afterName.dropWhile isBlank)
    let repl := trimBlanks replText
    checkHashes params isVariadic true repl
    let macros ← macroDefine st.macros
      { name, params, isVariadic, replacement := stripBlockComments repl }
    .ok { st with rest, macros }

/-- The last entry of the table takes the place of the one that goes. -/
def macroUndef (macros : MacroTable) (name : Text) : MacroTable :=
  match macros.findIdx? (fun m => m.name = name), macros.getLast? with
  | some i, some last => (macros.set i last).dropLast
  | _, _ => macros

def undefDirective (st : Source) (s : Text) : Source :=
  let s := s.dropWhile isBlank
  let name := s.takeWhile isIdentChar
  { st with
    rest := skipDirectiveTail (s.dropWhile isIdentChar)
    macros := if name = [] then st.macros else macroUndef st.macros name }

/-! The other directives -/

def errorDirective (s : Text) : String :=
  let (message, _) := directiveTail (s.dropWhile isBlank)
  "error: #error " ++ String.ofList (trimBlanks message)

/-- The file name of a `#line`, after its opening quote, and the text after its closing one. -/
def lineFileName : Text → Text × Text
  | [] => ([], [])
  | '\\' :: c :: s => ((c :: (lineFileName s).1), (lineFileName s).2)
  | c :: s =>
    if c = '"' then ([], s)
    else if c = '\n' then ([], c :: s)
    else ((c :: (lineFileName s).1), (lineFileName s).2)

/-- The newline of the directive's own line counts too. -/
def lineDirective (st : Source) (s : Text) : Except String Source :=
  let s := s.dropWhile isBlank
  if !s.head?.any Char.isDigit then .error "error: #line requires a positive integer"
  else
    let currentLine := wrap32 (wrap64 (digitsValue 10 (s.takeWhile Char.isDigit) : Nat) - 1)
    match (s.dropWhile Char.isDigit).dropWhile isBlank with
    | '"' :: name =>
      let (file, rest) := lineFileName name
      .ok { st with currentLine, currentFileOverride := some file, rest := skipDirectiveTail rest }
    | rest => .ok { st with currentLine, rest := skipDirectiveTail rest }

/-- `once` ends its word. -/
def isOnce (s : Text) : Bool :=
  match s with
  | 'o' :: 'n' :: 'c' :: 'e' :: rest => rest.head?.all fun c => c = '\n' || isBlank c
  | _ => false

def pragmaDirective (sourcePath : Text) (st : Source) (s : Text) : Source :=
  let s := s.dropWhile isBlank
  { st with
    rest := skipDirectiveTail s
    oncePaths := if isOnce s then st.oncePaths ++ [sourcePath] else st.oncePaths }

end ClaudeC99.Preprocessor
