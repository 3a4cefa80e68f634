import ClaudeC99.Preprocessor.Macros

/-! The expansion of macro invocations in a text. -/

namespace ClaudeC99.Preprocessor

/-- The invocation site that `__FILE__` and `__LINE__` stand for. -/
structure ExpandContext where
  sourcePath : Text
  currentLine : Int

def fileLiteral (path : Text) : Text :=
  '"' :: (path.flatMap fun c => if c = '"' ∨ c = '\\' then ['\\', c] else [c]) ++ ['"']

/-- What the expansion loop finds at the head of a text. -/
inductive Piece
  | verbatim (text : Text)
  | objectLike (m : MacroDef)
  | invocation (m : MacroDef) (params args : List Text)
  deriving DecidableEq

/-- A name that is not expanded; the operand of `defined` is protected with it. -/
def plainName (name after : Text) : Piece × Text :=
  if name = "defined".toList then
    let blanks := after.takeWhile isBlank
    match after.dropWhile isBlank with
    | '(' :: tail =>
      let inner := tail.takeWhile fun c => c != ')' && c != '\n'
      match tail.dropWhile fun c => c != ')' && c != '\n' with
      | ')' :: rest => (.verbatim (name ++ blanks ++ '(' :: inner ++ [')']), rest)
      | rest => (.verbatim (name ++ blanks ++ '(' :: inner), rest)
    | operand =>
      if (operand.head?.map isIdentStart).getD false then
        (.verbatim (name ++ blanks ++ operand.takeWhile isIdentChar),
          operand.dropWhile isIdentChar)
      else (.verbatim name, after)
  else (.verbatim name, after)

/-- `disabled` lists the macros whose flag is set. Only the object-like path looks at it. -/
def namePiece (ctx : ExpandContext) (macros : MacroTable) (disabled : List Text)
    (name after : Text) : Piece × Text :=
  if name = "__FILE__".toList then (.verbatim (fileLiteral ctx.sourcePath), after)
  else if name = "__LINE__".toList then (.verbatim (toString ctx.currentLine).toList, after)
  else match macroFind macros name with
    | none => plainName name after
    | some m =>
      match m.params with
      | none => if m.name ∈ disabled then plainName name after else (.objectLike m, after)
      | some params =>
        match after.dropWhile isBlank with
        | '(' :: tail =>
          let (args, rest) := collectArgs tail
          (.invocation m params args, rest)
        | _ => (.verbatim name, after)

def nextPiece (ctx : ExpandContext) (macros : MacroTable) (disabled : List Text)
    (c : Char) (s : Text) : Piece × Text :=
  if isQuote c then (.verbatim (c :: (takeQuoted c s).1), (takeQuoted c s).2)
  else if isIdentStart c then
    namePiece ctx macros disabled (c :: s.takeWhile isIdentChar) (s.dropWhile isIdentChar)
  else (.verbatim [c], s)

/-- A replacement that is about to be rescanned, inside the rescans of the macros listed. -/
structure Expansion where
  name : Text
  rescanning : List Text
  deriving DecidableEq

/-- A computation that may not have finished (`none`), that has expanded the macros logged, and
that either returns or exits with a message. -/
abbrev Run (α : Type) := Option (List Expansion × Except String α)

namespace Run

variable {α β : Type}

def returns (a : α) : Run α := some ([], .ok a)

def exits (message : String) : Run α := some ([], .error message)

def logged (log : List Expansion) : Run α → Run α
  | none => none
  | some (log', r) => some (log ++ log', r)

def andThen (m : Run α) (k : α → Run β) : Run β :=
  match m with
  | none => none
  | some (log, .error message) => some (log, .error message)
  | some (log, .ok a) => logged log (k a)

def forEach (f : α → Run β) : List α → Run (List β)
  | [] => returns []
  | a :: as => (f a).andThen fun b => (forEach f as).andThen fun bs => returns (b :: bs)

end Run

/-- The output for one piece. `expand` is the nested call; `rescanning` only serves the log. -/
def expandPiece (expand : List Text → List Text → Text → Run Text)
    (disabled rescanning : List Text) : Piece → Run Text
  | .verbatim text => .returns text
  | .objectLike m =>
    .logged [⟨m.name, rescanning⟩] (expand (m.name :: disabled) (m.name :: rescanning) m.replacement)
  | .invocation m params args =>
    if argCountMatches m.isVariadic params args then
      (Run.forEach (expand disabled rescanning) args).andThen fun expandedArgs =>
        match substituteArgs m.replacement (bindArgs m.isVariadic params args expandedArgs) with
        | .error message => .exits message
        | .ok subst =>
          .logged [⟨m.name, rescanning⟩] (expand disabled (m.name :: rescanning) subst)
    else .exits (argCountError m params args)

/-- `expand_macros_text`, up to `fuel` nested calls and loop steps. -/
def expandMacrosText (ctx : ExpandContext) (macros : MacroTable) :
    Nat → List Text → List Text → Text → Run Text
  | 0, _, _, _ => none
  | _ + 1, _, _, [] => .returns []
  | fuel + 1, disabled, rescanning, c :: s =>
    let next := nextPiece ctx macros disabled c s
    (expandPiece (expandMacrosText ctx macros fuel) disabled rescanning next.1).andThen fun out =>
      (expandMacrosText ctx macros fuel disabled rescanning next.2).andThen fun tail =>
        .returns (out ++ tail)

end ClaudeC99.Preprocessor
