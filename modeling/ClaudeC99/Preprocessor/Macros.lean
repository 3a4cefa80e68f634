import Mathlib

/-! The macro table of the preprocessor and the text functions that macro expansion is made of. -/

namespace ClaudeC99.Preprocessor

abbrev Text := List Char

instance : LawfulBEq Text := inferInstanceAs (LawfulBEq (List Char))

/-- `params` is `none` for an object-like macro, whose `param_count` is -1 in the source. -/
structure MacroDef where
  name : Text
  params : Option (List Text)
  isVariadic : Bool
  replacement : Text
  deriving DecidableEq, Repr

abbrev MacroTable := List MacroDef

def macroFind (macros : MacroTable) (name : Text) : Option MacroDef :=
  macros.find? fun m => m.name = name

/-- A redefinition is accepted when the replacements are the same text; parameters are not
compared. The name in the message is cut off at 255 characters. -/
def macroDefine (macros : MacroTable) (m : MacroDef) : Except String MacroTable :=
  match macroFind macros m.name with
  | some existing =>
    if existing.replacement = m.replacement ∧ existing.isVariadic = m.isVariadic then .ok macros
    else .error ("error: macro '" ++ String.ofList (m.name.take 255) ++
      "' redefined with incompatible replacement")
  | none => .ok (macros ++ [m])

theorem macroFind_mem {macros : MacroTable} {name : Text} {m : MacroDef}
    (found : macroFind macros name = some m) : m ∈ macros ∧ m.name = name := by
  have named := List.find?_some found
  exact ⟨List.mem_of_find?_eq_some found, by simpa using named⟩

def isIdentStart (c : Char) : Bool := c.isAlpha || c == '_'

def isIdentChar (c : Char) : Bool := c.isAlphanum || c == '_'

def isBlank (c : Char) : Bool := c == ' ' || c == '\t'

def isQuote (c : Char) : Bool := c == '"' || c == '\''

/-- The rest of a string or character literal after its opening quote, and the text after it.
A literal that is not closed ends before the newline. -/
def takeQuoted (quote : Char) : Text → Text × Text
  | [] => ([], [])
  | '\\' :: c :: rest =>
    let (literal, after) := takeQuoted quote rest
    ('\\' :: c :: literal, after)
  | c :: rest =>
    if c = quote then ([c], rest)
    else if c = '\n' then ([], c :: rest)
    else
      let (literal, after) := takeQuoted quote rest
      (c :: literal, after)

theorem takeQuoted_append (quote : Char) (s : Text) :
    (takeQuoted quote s).1 ++ (takeQuoted quote s).2 = s := by
  fun_induction takeQuoted quote s with
  | case1 => rfl
  | case2 c rest literal after split ih => simpa [split] using ih
  | case3 => rfl
  | case4 => rfl
  | case5 c rest plain other line literal after split ih => simpa [split] using ih

theorem takeQuoted_length (quote : Char) (s : Text) :
    (takeQuoted quote s).1.length + (takeQuoted quote s).2.length = s.length := by
  rw [← List.length_append, takeQuoted_append]

theorem dropWhile_length_le (p : Char → Bool) (s : Text) :
    (s.dropWhile p).length ≤ s.length :=
  (List.dropWhile_suffix p).length_le

def isArgBlank (c : Char) : Bool := isBlank c || c == '\n'

def isSpaceChar (c : Char) : Bool :=
  isArgBlank c || c == '\x0b' || c == '\x0c' || c == '\r'

def trimArg (s : Text) : Text := (s.reverse.dropWhile isArgBlank).reverse

theorem trimArg_length_le (s : Text) : (trimArg s).length ≤ s.length := by
  simpa [trimArg] using dropWhile_length_le isArgBlank s.reverse

/-- The loop of `collect_args`, inside `depth` parentheses and with `arg` read so far. An argument
that the text does not close is dropped. -/
def collectArgsLoop (depth : Nat) (arg : Text) : Text → List Text × Text
  | [] => ([], [])
  | c :: rest =>
    if isQuote c then
      collectArgsLoop depth (arg ++ c :: (takeQuoted c rest).1) (takeQuoted c rest).2
    else if c = '(' then collectArgsLoop (depth + 1) (arg ++ [c]) rest
    else if c = ')' ∧ 0 < depth then collectArgsLoop (depth - 1) (arg ++ [c]) rest
    else if c = ')' then ([trimArg arg], rest)
    else if c = ',' ∧ depth = 0 then
      let (args, after) := collectArgsLoop 0 [] (rest.dropWhile isArgBlank)
      (trimArg arg :: args, after)
    else collectArgsLoop depth (arg ++ [c]) rest
  termination_by s => s.length
  decreasing_by
    all_goals simp only [List.length_cons]
    · have := takeQuoted_length c rest
      omega
    all_goals
      have := dropWhile_length_le isArgBlank rest
      omega

/-- `s` starts after the opening parenthesis. -/
def collectArgs (s : Text) : List Text × Text :=
  match s.dropWhile isArgBlank with
  | ')' :: rest => ([], rest)
  | start => collectArgsLoop 0 [] start

theorem collectArgsLoop_after_le (depth : Nat) (arg s : Text) :
    (collectArgsLoop depth arg s).2.length ≤ s.length := by
  fun_induction collectArgsLoop depth arg s with
  | case1 => simp
  | case2 depth arg c rest quote ih =>
      have literal := takeQuoted_length c rest
      simp only [List.length_cons]
      omega
  | case3 | case4 =>
      simp only [List.length_cons]
      omega
  | case5 => simp
  | case6 depth arg c rest _ _ _ _ _ args after split ih =>
      have skipped := dropWhile_length_le isArgBlank rest
      simp only [split, List.length_cons] at ih ⊢
      omega
  | case7 =>
      simp only [List.length_cons]
      omega

theorem collectArgsLoop_arg_le (depth : Nat) (arg s : Text) :
    ∀ a ∈ (collectArgsLoop depth arg s).1, a.length ≤ arg.length + s.length := by
  fun_induction collectArgsLoop depth arg s with
  | case1 => simp
  | case2 depth arg c rest quote ih =>
      intro a member
      have bound := ih a member
      have literal := takeQuoted_length c rest
      simp only [List.length_append, List.length_cons] at bound ⊢
      omega
  | case3 | case4 =>
      rename_i ih
      intro a member
      have bound := ih a member
      simp only [List.length_append, List.length_cons, List.length_nil] at bound ⊢
      omega
  | case5 depth arg =>
      intro a member
      have trimmed := trimArg_length_le arg
      simp only [List.mem_singleton] at member
      subst member
      omega
  | case6 depth arg c rest _ _ _ _ _ args after split ih =>
      intro a member
      rcases List.mem_cons.mp member with rfl | member
      · have trimmed := trimArg_length_le arg
        omega
      · have bound := ih a (by simpa [split] using member)
        have skipped := dropWhile_length_le isArgBlank rest
        simp only [List.length_nil, List.length_cons] at bound ⊢
        omega
  | case7 =>
      rename_i ih
      intro a member
      have bound := ih a member
      simp only [List.length_append, List.length_cons, List.length_nil] at bound ⊢
      omega

theorem collectArgs_after_le (s : Text) : (collectArgs s).2.length ≤ s.length := by
  have skipped := dropWhile_length_le isArgBlank s
  unfold collectArgs
  split
  · next rest start =>
      rw [start, List.length_cons] at skipped
      exact Nat.le_trans (Nat.le_succ _) skipped
  · exact Nat.le_trans (collectArgsLoop_after_le 0 [] _) skipped

theorem collectArgs_arg_le (s : Text) : ∀ a ∈ (collectArgs s).1, a.length ≤ s.length := by
  have skipped := dropWhile_length_le isArgBlank s
  unfold collectArgs
  split
  · simp
  · intro a member
    have bound := collectArgsLoop_arg_le 0 [] _ a member
    simp only [List.length_nil] at bound
    omega

/-- The inside of the string literal made of an argument: blanks are squeezed, quotes and
backslashes escaped. -/
def stringifyInner (inSpace : Bool) : Text → Text
  | [] => []
  | c :: rest =>
    if isBlank c then
      if inSpace then stringifyInner true rest else ' ' :: stringifyInner true rest
    else if c = '"' ∨ c = '\\' then '\\' :: c :: stringifyInner false rest
    else c :: stringifyInner false rest

def stringifyArg (arg : Text) : Text :=
  let inner := (stringifyInner true arg).reverse.dropWhile (· == ' ')
  '"' :: inner.reverse ++ ['"']

/-- A parameter with its argument as written (`raw`) and fully expanded. -/
structure Binding where
  param : Text
  raw : Text
  expanded : Text

def trimBlanks (s : Text) : Text := (s.reverse.dropWhile isBlank).reverse

/-- `out` is the text produced so far; `pasteNext` is set after a `##`. -/
def substituteArgsLoop (bindings : List Binding) (out : Text) (pasteNext : Bool) :
    Text → Except String Text
  | [] => .ok out
  | c :: rest =>
    if isQuote c then
      substituteArgsLoop bindings (out ++ c :: (takeQuoted c rest).1) false (takeQuoted c rest).2
    else if c = '#' ∧ rest.head? = some '#' then
      substituteArgsLoop bindings (trimBlanks out) true (rest.tail.dropWhile isBlank)
    else if c = '#' then
      let operand := rest.dropWhile isBlank
      match bindings.find? fun b => b.param = operand.takeWhile isIdentChar with
      | some b =>
        substituteArgsLoop bindings (out ++ stringifyArg b.raw) false
          (operand.dropWhile isIdentChar)
      | none => .error "error: '#' operand is not a macro parameter"
    else if isIdentStart c then
      let name := c :: rest.takeWhile isIdentChar
      let text := match bindings.find? fun b => b.param = name with
        | some b => if pasteNext then b.raw else b.expanded
        | none => name
      substituteArgsLoop bindings (out ++ text) false (rest.dropWhile isIdentChar)
    else substituteArgsLoop bindings (out ++ [c]) false rest
  termination_by s => s.length
  decreasing_by
    · have := takeQuoted_length c rest
      simp only [List.length_cons]
      omega
    · have := dropWhile_length_le isBlank rest.tail
      simp only [List.length_tail, List.length_cons] at this ⊢
      omega
    · have := dropWhile_length_le isBlank rest
      have := dropWhile_length_le isIdentChar (rest.dropWhile isBlank)
      simp only [List.length_cons]
      omega
    · have := dropWhile_length_le isIdentChar rest
      simp only [List.length_cons]
      omega
    · simp

def substituteArgs (replacement : Text) (bindings : List Binding) : Except String Text :=
  substituteArgsLoop bindings [] false replacement

/-- The argument for `__VA_ARGS__`. -/
def joinArgs (args : List Text) : Text := (args.intersperse [',', ' ']).flatten

def bindArgs (isVariadic : Bool) (params raw expanded : List Text) : List Binding :=
  let fixed := (params.zip (raw.zip expanded)).map fun p => ⟨p.1, p.2.1, p.2.2⟩
  if isVariadic then
    fixed ++ [⟨"__VA_ARGS__".toList, joinArgs (raw.drop params.length),
      joinArgs (expanded.drop params.length)⟩]
  else fixed

def argCountMatches (isVariadic : Bool) (params args : List Text) : Bool :=
  if isVariadic then params.length ≤ args.length else args.length = params.length

def argCountError (m : MacroDef) (params args : List Text) : String :=
  "error: argument count mismatch for macro '" ++ String.ofList m.name ++ "': expected " ++
    (if m.isVariadic then "at least " else "") ++ toString params.length ++ ", got " ++
    toString args.length

end ClaudeC99.Preprocessor
