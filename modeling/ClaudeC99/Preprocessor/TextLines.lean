import ClaudeC99.Preprocessor.Expand

/-! The loop of `preprocess_internal` over the text lines of a group that is emitted, up to the
next directive. -/

namespace ClaudeC99.Preprocessor

/-- The newlines inside a block comment and the text after it, or `none` if it is not closed. -/
def blockComment (lines : Nat) : Text → Option (Nat × Text)
  | [] => none
  | '*' :: '/' :: s => some (lines, s)
  | c :: s => blockComment (if c = '\n' then lines + 1 else lines) s

theorem blockComment_length {lines : Nat} {s : Text} {r : Nat × Text}
    (closed : blockComment lines s = some r) : r.2.length ≤ s.length := by
  fun_induction blockComment lines s with
  | case1 => cases closed
  | case2 lines s =>
    cases closed
    simp only [List.length_cons]
    omega
  | case3 lines c s _ ih =>
    have := ih closed
    simp only [List.length_cons]
    omega

def skipDirectiveTail : Text → Text
  | [] => []
  | '/' :: '*' :: s =>
    match _closed : blockComment 0 s with
    | some r => skipDirectiveTail r.2
    | none => []
  | c :: s => if c = '\n' then c :: s else skipDirectiveTail s
  termination_by s => s.length
  decreasing_by
    · have := blockComment_length _closed
      simp only [List.length_cons]
      omega
    · simp

/-- The text after the string of a `_Pragma`, which the quote or the line ends. -/
def afterPragmaString : Text → Text
  | [] => []
  | '\\' :: '"' :: s => afterPragmaString s
  | '\\' :: '\\' :: s => afterPragmaString s
  | c :: s => if c = '"' then s else if c = '\n' then c :: s else afterPragmaString s

/-- `_Pragma ( "..." )` leaves nothing in the output. -/
def skipPragma (after : Text) : Except String Text :=
  match after.dropWhile isBlank with
  | '(' :: s =>
    match s.dropWhile isBlank with
    | '"' :: s =>
      match (afterPragmaString s).dropWhile isBlank with
      | ')' :: rest => .ok rest
      | _ => .error "error: expected ')' after _Pragma string"
    | _ => .error "error: _Pragma argument must be a string literal"
  | _ => .error "error: expected '(' after _Pragma"

/-- Unlike in a rescan, the operand of `defined` is not protected. -/
def lineName (ctx : ExpandContext) (macros : MacroTable) (name after : Text) :
    Except String (Piece × Text) :=
  if name = "__FILE__".toList then .ok (.verbatim (fileLiteral ctx.sourcePath), after)
  else if name = "__LINE__".toList then .ok (.verbatim (toString ctx.currentLine).toList, after)
  else if name = "_Pragma".toList then (skipPragma after).map fun rest => (.verbatim [], rest)
  else match macroFind macros name with
    | none => .ok (.verbatim name, after)
    | some m =>
      match m.params with
      | none => .ok (.objectLike m, after)
      | some params =>
        match after.dropWhile isBlank with
        | '(' :: tail =>
          let (args, rest) := collectArgs tail
          .ok (.invocation m params args, rest)
        | _ => .ok (.verbatim name, after)

/-- The output after which a run goes on. -/
def Run.prepend (text : Text) (m : Run (Text × Text)) : Run (Text × Text) :=
  m.andThen fun r => .returns (text ++ r.1, r.2)

/-- The output for the text lines, and the text from the next directive on. `content` says that the
line has had a token. -/
def preprocessText (path : Text) (macros : MacroTable) :
    Nat → Nat → Bool → Text → Run (Text × Text)
  | 0, _, _, _ => none
  | _ + 1, _, _, [] => .returns ([], [])
  | fuel + 1, line, content, c :: s =>
    if c = '\n' then .prepend [c] (preprocessText path macros fuel (line + 1) false s)
    else if isSpaceChar c then .prepend [c] (preprocessText path macros fuel line content s)
    else if c = '/' ∧ s.head? = some '/' then
      preprocessText path macros fuel line content (skipDirectiveTail (c :: s))
    else if c = '/' ∧ s.head? = some '*' then
      match blockComment 0 s.tail with
      | none => .exits "error: unterminated block comment"
      | some (lines, rest) =>
        .prepend (List.replicate lines '\n' ++ [' '])
          (preprocessText path macros fuel (line + lines) content rest)
    else if c = '#' ∧ content = false then .returns ([], c :: s)
    else if isQuote c then
      .prepend (c :: (takeQuoted c s).1)
        (preprocessText path macros fuel line true (takeQuoted c s).2)
    else if isIdentStart c then
      let ctx := ⟨path, line⟩
      match lineName ctx macros (c :: s.takeWhile isIdentChar) (s.dropWhile isIdentChar) with
      | .error message => .exits message
      | .ok (piece, rest) =>
        (expandPiece (expandMacrosText ctx macros fuel) [] [] piece).andThen fun out =>
          .prepend out (preprocessText path macros fuel line true rest)
    else .prepend [c] (preprocessText path macros fuel line true s)

end ClaudeC99.Preprocessor
