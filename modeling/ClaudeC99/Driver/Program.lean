import Mathlib.Data.List.Forall2

/-! The compiler as a process: the error globals, the files it reads and writes, and the loop over
the source files of one invocation. -/

namespace ClaudeC99.Driver

structure Position where
  file : String
  line : Nat
  col : Nat

/-- `g_expand_source_path` and `g_expand_current_line`: where `__FILE__` and `__LINE__` are
expanded. -/
structure ExpandSite where
  sourcePath : Option String
  currentLine : Int

structure Options where
  printAst : Bool
  printTokens : Bool
  warningsAreErrors : Bool
  maxErrors : Int
  optLevel : Nat
  emitDebug : Bool
  verbose : Bool
  defines : List String
  includeDirs : List String

/-- The position printed before an error: the one that `cg_mark` recorded, or the caller's. -/
inductive ErrorPlace
  | marked
  | given (position : Option Position)

/-- A part of the compiler as the actions it takes on the process. Where an error may `longjmp`,
`recovered` is what follows the jump; the parser's loop around `setjmp` is unrolled in it. -/
inductive Program (α : Type)
  | done (result : α)
  | message (text : String) (rest : Program α)
  | print (text : String) (rest : Program α)
  | mark (position : Position) (rest : Program α)
  | error (place : ErrorPlace) (text : String) (recovered : Program α)
  | warning (position : Option Position) (text : String) (recovered rest : Program α)
  | quit
  | setJump (valid : Bool) (rest : Program α)
  | errorCount (rest : Nat → Program α)
  | read (path : String) (rest : Option String → Program α)
  | create (path : String) (rest : Bool → Program α)
  | emit (text : String) (rest : Program α)
  | setSite (site : ExpandSite) (rest : Program α)
  | getSite (rest : ExpandSite → Program α)

namespace Program

variable {α β : Type}

def bind : Program α → (α → Program β) → Program β
  | done a, f => f a
  | message text rest, f => message text (rest.bind f)
  | print text rest, f => print text (rest.bind f)
  | mark position rest, f => mark position (rest.bind f)
  | error place text recovered, f => error place text (recovered.bind f)
  | warning position text recovered rest, f =>
    warning position text (recovered.bind f) (rest.bind f)
  | quit, _ => quit
  | setJump valid rest, f => setJump valid (rest.bind f)
  | errorCount rest, f => errorCount fun n => (rest n).bind f
  | read path rest, f => read path fun text => (rest text).bind f
  | create path rest, f => create path fun ok => (rest ok).bind f
  | emit text rest, f => emit text (rest.bind f)
  | setSite site rest, f => setSite site (rest.bind f)
  | getSite rest, f => getSite fun site => (rest site).bind f

instance : Monad Program where
  pure := done
  bind := bind

end Program

/-- The process, with its files by their location. `siteSet` is not in the source: it records
that the current source file has set the expansion site. -/
structure Process (Loc : Type) where
  files : Loc → Option String
  output : Option Loc
  errorCount : Nat
  jumpValid : Bool
  position : Option Position
  site : ExpandSite
  siteSet : Bool

/-- What can be seen of a run, and what it read of the state that other runs may have left. -/
inductive Event (Loc : Type)
  | message (text : String)
  | print (text : String)
  | opened (file : Loc)
  | created (file : Loc)
  | asked (siteSet : Bool)

inductive Outcome (α : Type)
  | returned (result : α)
  | exited

structure Result (Loc α : Type) where
  outcome : Outcome α
  events : List (Event Loc)
  process : Process Loc

def Result.after {Loc α : Type} (e : Event Loc) (r : Result Loc α) : Result Loc α :=
  { r with events := e :: r.events }

def Position.text (p : Position) : String := s!"{p.file}:{p.line}:{p.col}: "

def positionText : Option Position → String
  | some p => if p.line > 0 then p.text else ""
  | none => ""

/-- The phases of one compilation. They reach the process only through the actions of their
programs; lexer errors and preprocessing errors end it by `quit`. -/
structure Phases where
  Parser : Type
  Ast : Type
  preprocess : Options → String → String → Program String
  printTokensMode : String → String → Program Unit
  parserInit : String → String → Program Parser
  parseDeclarations : Parser → Program Ast
  optimizeTranslationUnit : Nat → Ast → Ast
  astPrettyPrint : Ast → String
  codegenTranslationUnit : Options → Ast → Program Unit
  peepholeApply : String → String

/-- The options and phases of one invocation, and what the system does with a path. -/
structure Invocation (Loc : Type) where
  opts : Options
  phases : Phases
  locate : String → Loc
  creatable : String → Bool

section Run

variable {Loc α : Type} [DecidableEq Loc] (inv : Invocation Loc)

def ErrorPlace.position (s : Process Loc) : ErrorPlace → Option Position
  | marked => s.position
  | given p => p

def countError (s : Process Loc) : Process Loc := { s with errorCount := s.errorCount + 1 }

/-- `do_compile_error` after its message: the process ends unless `longjmp` goes on. -/
def doCompileError (recovered : Process Loc → Result Loc α) (s : Process Loc) : Result Loc α :=
  if inv.opts.maxErrors > 0 ∧ (countError s).errorCount ≥ inv.opts.maxErrors then
    ⟨.exited, [], countError s⟩
  else if s.jumpValid = true then recovered (countError s)
  else ⟨.exited, [], countError s⟩

def setFile (files : Loc → Option String) (l : Loc) (text : String) : Loc → Option String :=
  fun l' => if l' = l then some text else files l'

/-- `fprintf(cg->output, ...)` -/
def appendOutput (s : Process Loc) (text : String) : Process Loc :=
  match s.output with
  | some l => { s with files := setFile s.files l ((s.files l).getD "" ++ text) }
  | none => s

def run : Program α → Process Loc → Result Loc α
  | .done a, s => ⟨.returned a, [], s⟩
  | .message text rest, s => (run rest s).after (.message text)
  | .print text rest, s => (run rest s).after (.print text)
  | .mark position rest, s =>
    run rest (if position.line > 0 then { s with position := some position } else s)
  | .error place text recovered, s =>
    (doCompileError inv (run recovered) s).after
      (.message (positionText (place.position s) ++ text))
  | .warning position text recovered rest, s =>
    (if inv.opts.warningsAreErrors = true then doCompileError inv (run recovered) s
      else run rest s).after (.message (positionText position ++ text))
  | .quit, s => ⟨.exited, [], s⟩
  | .setJump valid rest, s => run rest { s with jumpValid := valid }
  | .errorCount rest, s => run (rest s.errorCount) s
  | .read path rest, s => (run (rest (s.files (inv.locate path))) s).after (.opened (inv.locate path))
  | .create path rest, s =>
    if inv.creatable path = true then
      (run (rest true) { s with
        files := setFile s.files (inv.locate path) ""
        output := some (inv.locate path) }).after (.created (inv.locate path))
    else run (rest false) s
  | .emit text rest, s => run rest (appendOutput s text)
  | .setSite site rest, s => run rest { s with site, siteSet := true }
  | .getSite rest, s => (run (rest s.site) s).after (.asked s.siteSet)

end Run

/-- The characters after the last `/`. -/
def baseName (path : List Char) : List Char := (path.reverse.takeWhile (· ≠ '/')).reverse

/-- The characters before the last `.`, or all of them. -/
def stem (name : List Char) : List Char :=
  if '.' ∈ name then ((name.reverse.dropWhile (· ≠ '.')).drop 1).reverse else name

def outputPathSize : Nat := 512

def makeOutputPath (inputPath : String) : String :=
  let out := stem ((baseName inputPath.toList).take (outputPathSize - 1))
  String.ofList (out ++ ".asm".toList.take (outputPathSize - out.length - 1))

namespace Program

def say (text : String) : Program Unit := .message text (.done ())

def printf (text : String) : Program Unit := .print text (.done ())

def readFile (path : String) : Program String :=
  .read path fun
    | some text => .done text
    | none => .message s!"error: could not open '{path}'" .quit

def parseTranslationUnit (phases : Phases) (parser : phases.Parser) : Program phases.Ast := do
  .setJump true (.done ())
  let unit ← phases.parseDeclarations parser
  .setJump false (.done ())
  pure unit

/-- The file is read and written back; the result is 0 unless it cannot be. -/
def peepholeRunFile (apply : String → String) (path : String) : Program Nat :=
  .read path fun
    | some text => .create path fun
      | true => .emit (apply text) (.done 0)
      | false => .done 1
    | none => .done 1

def compileOneFile (opts : Options) (phases : Phases) (sourceFile : String) : Program Nat := do
  let source ← readFile sourceFile
  let preprocessed ← phases.preprocess opts source sourceFile
  if opts.printTokens then do
    phases.printTokensMode preprocessed sourceFile
    return 0
  let parser ← phases.parserInit preprocessed sourceFile
  let ast ← parseTranslationUnit phases parser
  let errorCount ← Program.errorCount .done
  if errorCount > 0 then return 1
  let ast := phases.optimizeTranslationUnit opts.optLevel ast
  if opts.printAst then do
    printf (phases.astPrettyPrint ast)
    return 0
  let outputPath := makeOutputPath sourceFile
  let created ← Program.create outputPath .done
  if !created then do
    say s!"error: could not create '{outputPath}'"
    return 1
  phases.codegenTranslationUnit opts ast
  if opts.optLevel ≥ 2 then do
    let failed ← peepholeRunFile phases.peepholeApply outputPath
    if failed ≠ 0 then return 1
  if opts.verbose then printf s!"compiled: {sourceFile} -> {outputPath}"
  return 0

end Program

section Main

variable {Loc : Type} [DecidableEq Loc] (inv : Invocation Loc)

/-- The error globals of `reset_error_state`; a file's output stream is a local variable. -/
def resetErrorState (s : Process Loc) : Process Loc :=
  { s with errorCount := 0, position := none, jumpValid := false, output := none, siteSet := false }

def compileFile (sourceFile : String) (s : Process Loc) : Result Loc Nat :=
  run inv (Program.compileOneFile inv.opts inv.phases sourceFile) (resetErrorState s)

/-- The loop of `main`: one result for each file that is started, and the process at the end. -/
def compileFiles : List String → Process Loc → List (Result Loc Nat) × Process Loc
  | [], s => ([], s)
  | sourceFile :: rest, s =>
    let r := compileFile inv sourceFile s
    match r.outcome with
    | .exited => ([r], r.process)
    | .returned _ =>
      let (results, last) := compileFiles rest r.process
      (r :: results, last)

end Main

end ClaudeC99.Driver
