import ClaudeC99.Preprocessor.Directives

/-! The loop of `preprocess_internal` over one file, and the files it includes. -/

namespace ClaudeC99.Preprocessor

def maxIncludeDepth : Nat := 64

/-- The files that can be opened, and the directories of `-I`. -/
structure Files where
  read : Text → Option Text
  includeDirs : List Text

namespace Files

def firstIn (files : Files) (fname : Text) (dirs : List Text) : Option Text :=
  (dirs.map fun dir => dir ++ '/' :: fname).find? fun path => (files.read path).isSome

/-- The path up to its last slash. -/
def getDir (path : Text) : Text :=
  if '/' ∈ path then ((path.reverse.dropWhile (· ≠ '/')).drop 1).reverse else ['.']

def resolveAngleIncludePath (files : Files) (fname : Text) : Option Text :=
  files.firstIn fname files.includeDirs

def resolveIncludePath (files : Files) (fname sourcePath : Text) : Option Text :=
  files.firstIn fname (getDir sourcePath :: files.includeDirs)

/-- The search starts after the directory of the including file. -/
def resolveIncludeNextPath (files : Files) (fname sourcePath : Text) : Option Text :=
  let holds (dir : Text) : Bool := (dir ++ ['/']).isPrefixOf sourcePath
  let later :=
    match files.includeDirs.findIdx? holds with
    | some i => files.includeDirs.drop (i + 1)
    | none => files.includeDirs
  files.firstIn fname later

end Files

/-- A location marker, or nothing where it does not fit its buffer. -/
def locMarker (line : Int) (path : Text) : Text :=
  let marker := '\x01' :: (toString line).toList ++ ':' :: path ++ ['\n']
  if marker.length < 512 then marker else []

/-- The file name of an `#include` and the text after its closing delimiter. -/
def includeName (directive : String) (s : Text) : Except String (Bool × Text × Text) :=
  match s.dropWhile isBlank with
  | [] => .error ("error: expected '\"' or '<' after " ++ directive)
  | open_ :: s =>
    if open_ = '"' ∨ open_ = '<' then
      let close := if open_ = '<' then '>' else '"'
      let inName (c : Char) : Bool := c ≠ close && c ≠ '\n'
      match s.dropWhile inName with
      | c :: rest =>
        if c = close then .ok (open_ = '<', s.takeWhile inName, rest)
        else .error ("error: unterminated filename in " ++ directive)
      | [] => .error ("error: unterminated filename in " ++ directive)
    else .error ("error: expected '\"' or '<' after " ++ directive)

inductive ConditionalKind
  | ifdef | ifndef | if | elifdef | elifndef | elif | else | endif
  deriving DecidableEq, Repr

inductive ActiveKind
  | include | includeNext | define | undef | error | line | pragma
  deriving DecidableEq, Repr

/-- A directive is known by its whole word. -/
def directiveKind (word : Text) : Option (ConditionalKind ⊕ ActiveKind) :=
  ([("ifdef", .inl .ifdef), ("ifndef", .inl .ifndef), ("if", .inl .if),
    ("elifdef", .inl .elifdef), ("elifndef", .inl .elifndef), ("elif", .inl .elif),
    ("else", .inl .else), ("endif", .inl .endif), ("include", .inr .include),
    ("include_next", .inr .includeNext), ("define", .inr .define), ("undef", .inr .undef),
    ("error", .inr .error), ("line", .inr .line), ("pragma", .inr .pragma)].find?
      fun k : String × (ConditionalKind ⊕ ActiveKind) => k.1.toList = word).map Prod.snd

/-- The preprocessed text of a file, one level further down. -/
abbrev FileReader := Text → Shared → Run (Text × Shared)

section Loop

variable (files : Files) (preprocessFile : FileReader) (sourcePath : Text) (fuel : Nat)

/-- What follows a resolved `#include`. -/
def includeFile (st : Source) (includePath rest : Text) : Run (Text × Source) :=
  (preprocessFile includePath st.toShared).andThen fun (included, shared) =>
    .returns (locMarker 1 includePath ++ included ++ locMarker st.currentLine sourcePath,
      { st with toShared := shared, rest := skipDirectiveTail rest })

def includeDirective (st : Source) (s : Text) : Run (Text × Source) :=
  match includeName "#include" s with
  | .error message => .exits message
  | .ok (isAngle, fname, rest) =>
    let resolved :=
      if isAngle then files.resolveAngleIncludePath fname
      else files.resolveIncludePath fname sourcePath
    match resolved with
    | some includePath => includeFile preprocessFile sourcePath st includePath rest
    | none =>
      let shown := String.ofList (fname.take 255)
      .exits ("error: include file not found: " ++
        (if isAngle then "<" ++ shown ++ ">" else "\"" ++ shown ++ "\""))

def includeNextDirective (st : Source) (s : Text) : Run (Text × Source) :=
  match includeName "#include_next" s with
  | .error message => .exits message
  | .ok (_, fname, rest) =>
    match files.resolveIncludeNextPath fname sourcePath with
    | some includePath => includeFile preprocessFile sourcePath st includePath rest
    | none =>
      .exits ("error: include_next file not found: <" ++ String.ofList (fname.take 255) ++ ">")

def Run.ofExcept {α : Type} : Except String α → Run α
  | .ok a => .returns a
  | .error message => .exits message

/-- A directive that leaves nothing in the output. -/
def Run.silent (m : Run Source) : Run (Text × Source) :=
  m.andThen fun st => .returns ([], st)

/-- The directives of conditional inclusion, which are looked at in every group. -/
def conditionalDirective (st : Source) (s : Text) : ConditionalKind → Run Source
  | .ifdef => .ofExcept (ifdefDirective true st s)
  | .ifndef => .ofExcept (ifdefDirective false st s)
  | .if => ifDirective fuel st s
  | .elifdef => .ofExcept (elifdefDirective true st s)
  | .elifndef => .ofExcept (elifdefDirective false st s)
  | .elif => elifDirective fuel st s
  | .else => .ofExcept (elseDirective st s)
  | .endif => .ofExcept (endifDirective st s)

/-- The directives of an active group. -/
def activeDirective (st : Source) (s : Text) : ActiveKind → Run (Text × Source)
  | .include => includeDirective files preprocessFile sourcePath st s
  | .includeNext => includeNextDirective files preprocessFile sourcePath st s
  | .define => .silent (.ofExcept (defineDirective st s))
  | .undef => .silent (.returns (undefDirective st s))
  | .error => .exits (errorDirective s)
  | .line => .silent (.ofExcept (lineDirective st s))
  | .pragma => .silent (.returns (pragmaDirective sourcePath st s))

/-- `s` starts after the `#`. -/
def directive (st : Source) (s : Text) : Run (Text × Source) :=
  let s := s.dropWhile isBlank
  let after := s.dropWhile isIdentChar
  match directiveKind (s.takeWhile isIdentChar) with
  | some (.inl kind) => .silent (conditionalDirective fuel st after kind)
  | some (.inr kind) =>
    if st.emitting then activeDirective files preprocessFile sourcePath st after kind
    else .returns ([], { st with rest := skipDirectiveTail s })
  | none =>
    if ¬ st.emitting then .returns ([], { st with rest := skipDirectiveTail s })
    else if s = [] ∨ s.head? = some '\n' then .returns ([], { st with rest := s })
    else .exits "error: unsupported preprocessor directive"

/-- Where `__FILE__` and `__LINE__` are. -/
def Source.site (st : Source) (sourcePath : Text) : ExpandContext :=
  ⟨st.currentFileOverride.getD sourcePath, st.currentLine⟩

/-- Text that is copied where the group is active. -/
def Source.emit (st : Source) (text : Text) : Text := if st.emitting then text else []

/-- The string of a `_Pragma` is `once`. -/
def pragmaOnce (after : Text) : Bool :=
  "\"once\"".toList.isPrefixOf (((after.dropWhile isBlank).drop 1).dropWhile isBlank)

/-- A name in an active group. -/
def activeName (st : Source) (name after : Text) : Run (Text × Source) :=
  let site := st.site sourcePath
  match lineName site st.macros name after with
  | .error message => .exits message
  | .ok (piece, rest) =>
    (expandPiece (expandMacrosText site st.macros fuel) [] [] piece).andThen fun out =>
      let context := match piece with
        | .verbatim _ => st.context
        | _ => site
      let oncePaths :=
        if name = "_Pragma".toList ∧ pragmaOnce after then st.oncePaths ++ [sourcePath]
        else st.oncePaths
      .returns (out, { st with rest, context, oncePaths, lineHasContent := true })

/-- One round of the loop: its output and the state after it. -/
def preprocessStep (st : Source) (c : Char) (s : Text) : Run (Text × Source) :=
  if c = '\n' then
    .returns ([c],
      { st with rest := s, currentLine := st.currentLine + 1, lineHasContent := false })
  else if isSpaceChar c then .returns (st.emit [c], { st with rest := s })
  else if c = '/' ∧ s.head? = some '/' then
    .returns ([], { st with rest := skipDirectiveTail (c :: s) })
  else if c = '/' ∧ s.head? = some '*' then
    match blockComment 0 s.tail with
    | none => .exits "error: unterminated block comment"
    | some (lines, rest) =>
      .returns (List.replicate lines '\n' ++ st.emit [' '],
        { st with rest, currentLine := st.currentLine + lines })
  else if c = '#' ∧ st.lineHasContent = false then
    directive files preprocessFile sourcePath fuel st s
  else if isQuote c then
    .returns (st.emit (c :: (takeQuoted c s).1),
      { st with rest := (takeQuoted c s).2, lineHasContent := true })
  else if isIdentStart c then
    let name := c :: s.takeWhile isIdentChar
    let after := s.dropWhile isIdentChar
    if st.emitting then activeName sourcePath fuel st name after
    else .returns ([], { st with rest := after, lineHasContent := true })
  else .returns (st.emit [c], { st with rest := s, lineHasContent := true })

/-- At most `n` rounds. -/
def preprocessLoop : Nat → Source → Run (Text × Source)
  | 0, _ => none
  | n + 1, st =>
    match st.rest with
    | [] => .returns ([], st)
    | c :: s =>
      (preprocessStep files preprocessFile sourcePath fuel st c s).andThen fun (out, st) =>
        (preprocessLoop n st).andThen fun (tail, st) => .returns (out ++ tail, st)

/-- One file. Every round takes a character, so that the length bounds the rounds. -/
def preprocessSource (shared : Shared) (source : Text) : Run (Text × Shared) :=
  let spliced := spliceLines source
  let start : Source :=
    { toShared := shared
      rest := spliced
      lineHasContent := false
      currentLine := 1
      currentFileOverride := none
      emitting := true
      condStack := [] }
  (preprocessLoop files preprocessFile sourcePath fuel (spliced.length + 1) start).andThen
    fun (out, st) =>
      if st.condStack = [] then .returns (out, st.toShared) else .exits "error: missing endif"

end Loop

/-- `preprocess_internal` at an include depth; `fuel` bounds the nested files and the expansion of
macros. -/
def preprocessInternal (files : Files) : Nat → Nat → Text → Text → Shared → Run (Text × Shared)
  | 0, _, _, _, _ => none
  | fuel + 1, depth, sourcePath, source, shared =>
    if maxIncludeDepth < depth then
      .exits "error: maximum include depth exceeded (possible recursive include)"
    else
      let preprocessFile : FileReader := fun path shared =>
        if path ∈ shared.oncePaths then .returns ([], shared)
        else
          match files.read path with
          | none =>
            .exits ("error: cannot open include file '" ++ String.ofList path ++ "'")
          | some text => preprocessInternal files fuel (depth + 1) path text shared
      preprocessSource files preprocessFile sourcePath fuel shared source

end ClaudeC99.Preprocessor
