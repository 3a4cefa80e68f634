import ClaudeC99.Lib.Tables
import ClaudeC99.Preprocessor.Rounds

/-! The macro table over a sequence of `#define` and `#undef` directives. -/

namespace ClaudeC99.Preprocessor

open Tables (Distinct findKey removeKey)

/-- A directive by the text that follows its name. -/
inductive MacroDirective
  | define (s : Text)
  | undef (s : Text)

def MacroDirective.apply (st : Source) : MacroDirective → Except String Source
  | define s => defineDirective st s
  | undef s => .ok (undefDirective st s)

def applyAll (st : Source) (directives : List MacroDirective) : Except String Source :=
  directives.foldlM MacroDirective.apply st

/-- The macro that a `#define` describes, and the text after it. -/
def describedMacro (s : Text) : Except String (MacroDef × Text) :=
  let s := s.dropWhile isBlank
  if !s.head?.any isIdentStart then .error "error: expected macro name after #define"
  else do
    let (params, isVariadic, afterName) ← macroParams (s.dropWhile isIdentChar)
    let (replText, rest) := directiveTail (afterName.dropWhile isBlank)
    let repl := trimBlanks replText
    checkHashes params isVariadic true repl
    .ok (⟨s.takeWhile isIdentChar, params, isVariadic, stripBlockComments repl⟩, rest)

def undefinedName (s : Text) : Text := (s.dropWhile isBlank).takeWhile isIdentChar

/-- The definitions in force after a directive that is taken at its word. -/
def inForceAfter (inForce : Text → Option MacroDef) (directive : MacroDirective) (name : Text) :
    Option MacroDef :=
  match directive with
  | .define s =>
    match describedMacro s with
    | .ok (m, _) => if m.name = name then some m else inForce name
    | .error _ => inForce name
  | .undef s => if undefinedName s = name ∧ name ≠ [] then none else inForce name

/-- The definitions most recently made and not undefined. -/
def latest (start : Text → Option MacroDef) (directives : List MacroDirective) :
    Text → Option MacroDef :=
  directives.foldl inForceAfter start

theorem defineDirective_eq (st : Source) (s : Text) :
    defineDirective st s = (describedMacro s).bind fun described =>
      (macroDefine st.macros described.1).map fun macros => { st with rest := described.2, macros } := by
  unfold defineDirective describedMacro
  dsimp only
  split
  · rfl
  · cases macroParams ((s.dropWhile isBlank).dropWhile isIdentChar) with
    | error message => rfl
    | ok read =>
      obtain ⟨params, isVariadic, afterName⟩ := read
      simp only [bind, Except.bind]
      cases checkHashes params isVariadic true
        (trimBlanks (directiveTail (afterName.dropWhile isBlank)).1) with
      | error message => rfl
      | ok _ =>
        dsimp only
        cases macroDefine st.macros _ <;> rfl

theorem macroDefine_new {macros : MacroTable} {m : MacroDef}
    (fresh : macroFind macros m.name = none) : macroDefine macros m = .ok (macros ++ [m]) := by
  rw [macroDefine, fresh]

/-- The parameters are not looked at. -/
theorem macroDefine_again {macros : MacroTable} {m existing : MacroDef}
    (found : macroFind macros m.name = some existing) :
    (∃ macros', macroDefine macros m = .ok macros') ↔
      m.replacement = existing.replacement ∧ m.isVariadic = existing.isVariadic := by
  rw [macroDefine, found]
  dsimp only
  split
  · next same => exact ⟨fun _ => ⟨same.1.symm, same.2.symm⟩, fun _ => ⟨_, rfl⟩⟩
  · next differs =>
    constructor
    · rintro ⟨_, accepted⟩
      cases accepted
    · intro same
      exact absurd ⟨same.1.symm, same.2.symm⟩ differs

theorem macroDefine_kept {macros macros' : MacroTable} {m existing : MacroDef}
    (found : macroFind macros m.name = some existing)
    (accepted : macroDefine macros m = .ok macros') : macros' = macros := by
  rw [macroDefine, found] at accepted
  dsimp only at accepted
  split at accepted
  · cases accepted
    rfl
  · cases accepted

/-- A definition is accepted as its table is. -/
theorem defineDirective_accepts {st : Source} {s rest : Text} {m : MacroDef}
    (described : describedMacro s = .ok (m, rest)) :
    (∃ st', defineDirective st s = .ok st') ↔ ∃ macros', macroDefine st.macros m = .ok macros' := by
  rw [defineDirective_eq, described]
  dsimp only [Except.bind]
  cases macroDefine st.macros m with
  | error message =>
    constructor <;> rintro ⟨_, accepted⟩ <;> cases accepted
  | ok macros => exact ⟨fun _ => ⟨macros, rfl⟩, fun _ => ⟨_, rfl⟩⟩

theorem same_definition_iff {m existing : MacroDef} (named : existing.name = m.name) :
    m = existing ↔ (m.replacement = existing.replacement ∧ m.isVariadic = existing.isVariadic) ∧
      m.params = existing.params := by
  cases m
  cases existing
  simp only [MacroDef.mk.injEq] at *
  constructor
  · rintro ⟨-, same, variadic, text⟩
    exact ⟨⟨text, variadic⟩, same⟩
  · rintro ⟨⟨text, variadic⟩, same⟩
    exact ⟨named.symm, same, variadic, text⟩

section Run

variable {st st' : Source}

/-- A redefinition that the code takes for the same one has the same parameters. -/
def SameParams (inForce : Text → Option MacroDef) (s : Text) : Prop :=
  ∀ m rest existing, describedMacro s = .ok (m, rest) → inForce m.name = some existing →
    m.replacement = existing.replacement → m.isVariadic = existing.isVariadic →
    m.params = existing.params

theorem macroUndef_eq (macros : MacroTable) (name : Text) :
    macroUndef macros name = removeKey MacroDef.name macros name := by
  unfold macroUndef removeKey
  cases macros.findIdx? fun m => m.name = name <;> cases macros.getLast? <;> rfl

theorem undef_table (st : Source) (s : Text) :
    (undefDirective st s).macros =
      if undefinedName s = [] then st.macros
      else removeKey MacroDef.name st.macros (undefinedName s) := by
  rw [← macroUndef_eq]
  rfl

theorem undef_step (distinct : Distinct MacroDef.name st.macros) (s name : Text) :
    Distinct MacroDef.name (undefDirective st s).macros ∧
      macroFind (undefDirective st s).macros name =
        inForceAfter (macroFind st.macros) (.undef s) name := by
  rw [undef_table]
  by_cases empty : undefinedName s = []
  · have kept : ¬ (undefinedName s = name ∧ name ≠ []) := fun both => both.2 (both.1 ▸ empty)
    rw [if_pos empty, inForceAfter, if_neg kept]
    exact ⟨distinct, rfl⟩
  · have removed := Tables.findKey_removeKey distinct (undefinedName s) name
    rw [if_neg empty]
    refine ⟨distinct.removeKey _, removed.trans ?_⟩
    have same : undefinedName s = name ∧ name ≠ [] ↔ undefinedName s = name :=
      ⟨And.left, fun named => ⟨named, named ▸ empty⟩⟩
    simp only [inForceAfter, same]
    rfl

theorem define_step (distinct : Distinct MacroDef.name st.macros) {s : Text}
    (params : SameParams (macroFind st.macros) s) (gives : defineDirective st s = .ok st')
    (name : Text) :
    Distinct MacroDef.name st'.macros ∧
      macroFind st'.macros name = inForceAfter (macroFind st.macros) (.define s) name := by
  rw [defineDirective_eq] at gives
  cases described : describedMacro s with
  | error message =>
    rw [described] at gives
    cases gives
  | ok read =>
    obtain ⟨m, rest⟩ := read
    rw [described] at gives
    dsimp only [Except.bind] at gives
    simp only [inForceAfter, described]
    cases found : macroFind st.macros m.name with
    | none =>
      rw [macroDefine_new found] at gives
      cases gives
      exact ⟨distinct.concat found, Tables.findKey_concat found name⟩
    | some existing =>
      cases accepted : macroDefine st.macros m with
      | error message =>
        rw [accepted] at gives
        cases gives
      | ok macros =>
        rw [accepted] at gives
        cases gives
        have same := (macroDefine_again found).mp ⟨macros, accepted⟩
        obtain rfl := macroDefine_kept found accepted
        refine ⟨distinct, ?_⟩
        dsimp only
        split
        · next named =>
          have whole : m = existing := (same_definition_iff (macroFind_mem found).2).mpr
            ⟨same, params m rest existing described found same.1 same.2⟩
          rw [← named, found, whole]
        · rfl

theorem apply_step (distinct : Distinct MacroDef.name st.macros) {directive : MacroDirective}
    (params : ∀ s, directive = .define s → SameParams (macroFind st.macros) s)
    (gives : directive.apply st = .ok st') :
    Distinct MacroDef.name st'.macros ∧
      macroFind st'.macros = inForceAfter (macroFind st.macros) directive := by
  cases directive with
  | define s =>
    have step := define_step distinct (params s rfl) gives
    exact ⟨(step []).1, funext fun name => (step name).2⟩
  | undef s =>
    cases gives
    exact ⟨(undef_step distinct s []).1, funext fun name => (undef_step distinct s name).2⟩

theorem applyAll_concat (st : Source) (front : List MacroDirective) (directive : MacroDirective) :
    applyAll st (front ++ [directive]) = (applyAll st front).bind directive.apply := by
  simp only [applyAll, List.foldlM_append, List.foldlM_cons, List.foldlM_nil]
  cases front.foldlM MacroDirective.apply st with
  | error message => rfl
  | ok st₁ =>
    change (directive.apply st₁).bind _ = directive.apply st₁
    cases directive.apply st₁ <;> rfl

theorem latest_concat (start : Text → Option MacroDef) (front : List MacroDirective)
    (directive : MacroDirective) :
    latest start (front ++ [directive]) = inForceAfter (latest start front) directive := by
  simp [latest]

/-- The table is the map of the definitions in force. -/
theorem applyAll_map (distinct : Distinct MacroDef.name st.macros) (directives : List MacroDirective)
    (params : ∀ front s later, directives = front ++ .define s :: later →
      (∃ st', applyAll st front = .ok st') → SameParams (latest (macroFind st.macros) front) s)
    (gives : applyAll st directives = .ok st') :
    Distinct MacroDef.name st'.macros ∧
      macroFind st'.macros = latest (macroFind st.macros) directives := by
  induction directives using List.reverseRecOn generalizing st' with
  | nil =>
    cases gives
    exact ⟨distinct, rfl⟩
  | append_singleton front directive ih =>
    rw [applyAll_concat] at gives
    cases before : applyAll st front with
    | error message =>
      rw [before] at gives
      cases gives
    | ok st₁ =>
      rw [before] at gives
      have earlier := ih (fun front' s later split ran => by
        apply params front' s (later ++ [directive]) _ ran
        rw [split]
        simp) before
      have last : ∀ s, directive = .define s → SameParams (macroFind st₁.macros) s := by
        rintro s rfl
        rw [earlier.2]
        exact params front s [] rfl ⟨st₁, before⟩
      have step := apply_step earlier.1 last gives
      rw [latest_concat, ← earlier.2]
      exact step

/-- Over a run of directives the table is a map with checked redefinition exactly when no accepted
redefinition changes the parameters. -/
theorem macro_table_iff (distinct : Distinct MacroDef.name st.macros)
    (directives : List MacroDirective) :
    (∀ front back, directives = front ++ back → ∀ st', applyAll st front = .ok st' →
        Distinct MacroDef.name st'.macros ∧
        macroFind st'.macros = latest (macroFind st.macros) front ∧
        ∀ s later, back = .define s :: later → ∀ m rest existing,
          describedMacro s = .ok (m, rest) → macroFind st'.macros m.name = some existing →
          ((∃ st'', defineDirective st' s = .ok st'') ↔ m = existing)) ↔
      ∀ front s later, directives = front ++ .define s :: later →
        (∃ st', applyAll st front = .ok st') → SameParams (latest (macroFind st.macros) front) s := by
  constructor
  · rintro holds front s later split ⟨st', ran⟩ m rest existing described found text variadic
    obtain ⟨-, map, checked⟩ := holds front _ split st' ran
    rw [← map] at found
    have accepted : ∃ st'', defineDirective st' s = .ok st'' :=
      (defineDirective_accepts described).mpr ((macroDefine_again found).mpr ⟨text, variadic⟩)
    rw [(checked s later rfl m rest existing described found).mp accepted]
  · intro params front back split st' ran
    have map := applyAll_map distinct front (fun front' s later inner earlier =>
      params front' s (later ++ back) (by rw [split, inner]; simp) earlier) ran
    refine ⟨map.1, map.2, ?_⟩
    rintro s later rfl m rest existing described found
    have same := params front s later split ⟨st', ran⟩ m rest existing described
    rw [← map.2] at same
    rw [defineDirective_accepts described, macroDefine_again found,
      same_definition_iff (macroFind_mem found).2]
    exact ⟨fun agree => ⟨agree, same found agree.1 agree.2⟩, And.left⟩

/-- A macro is defined twice, in a table that starts empty. -/
theorem empty_table_iff :
    (∀ front back, [MacroDirective.define [' ', 'E'], .define [' ', 'E']] = front ++ back →
        ∀ st', applyAll (fileStart noMacros) front = .ok st' →
        Distinct MacroDef.name st'.macros ∧
        macroFind st'.macros = latest (macroFind []) front ∧
        ∀ s later, back = .define s :: later → ∀ m rest existing,
          describedMacro s = .ok (m, rest) → macroFind st'.macros m.name = some existing →
          ((∃ st'', defineDirective st' s = .ok st'') ↔ m = existing)) ↔
      ∀ front s later,
        [MacroDirective.define [' ', 'E'], .define [' ', 'E']] = front ++ .define s :: later →
        (∃ st', applyAll (fileStart noMacros) front = .ok st') →
        SameParams (latest (macroFind []) front) s := by
  have empty : Distinct MacroDef.name (fileStart noMacros).macros := List.nodup_nil
  exact macro_table_iff empty _

end Run

theorem describedMacro_empty (list : Text) (params : Option (List Text))
    (word : ('E' :: list).takeWhile isIdentChar = ['E'])
    (after : ('E' :: list).dropWhile isIdentChar = list)
    (read : macroParams list = .ok (params, false, [])) :
    describedMacro (' ' :: 'E' :: list) = .ok (⟨['E'], params, false, []⟩, []) := by
  have start : (' ' :: 'E' :: list).dropWhile isBlank = 'E' :: list := rfl
  have tail : directiveTail [] = ([], []) := by simp [directiveTail, skipDirectiveTail]
  have plain : checkHashes params false true [] = .ok () := by rw [checkHashes]
  have none : stripBlockComments [] = [] := by
    simp [stripBlockComments, stripBlockCommentsLoop, trimBlanks]
  have blank : ([] : Text).dropWhile isBlank = [] := rfl
  have trimmed : trimBlanks [] = [] := rfl
  simp only [describedMacro, start, word, after, read, bind, Except.bind, blank, tail, trimmed,
    plain, none]
  exact if_neg (by rw [List.head?_cons]; decide)

/-- `#define E` and then `#define E()` are accepted, and the macro stays object-like. -/
theorem redefined_with_parameters :
    ∃ st, applyAll (fileStart noMacros) [.define [' ', 'E'], .define [' ', 'E', '(', ')']] = .ok st ∧
      macroFind st.macros ['E'] = some ⟨['E'], none, false, []⟩ ∧
      latest (macroFind []) [.define [' ', 'E'], .define [' ', 'E', '(', ')']] ['E'] =
        some ⟨['E'], some [], false, []⟩ := by
  have object := describedMacro_empty [] none rfl rfl rfl
  have function := describedMacro_empty ['(', ')'] (some []) rfl rfl rfl
  refine ⟨{ fileStart noMacros with macros := [⟨['E'], none, false, []⟩] }, ?_, rfl, ?_⟩
  · have first : applyAll (fileStart noMacros) [.define [' ', 'E']] =
        .ok { fileStart noMacros with macros := [⟨['E'], none, false, []⟩] } := by
      change applyAll _ ([] ++ [_]) = _
      rw [applyAll_concat]
      change defineDirective (fileStart noMacros) [' ', 'E'] = _
      rw [defineDirective_eq, object]
      rfl
    change applyAll _ ([_] ++ [_]) = _
    rw [applyAll_concat, first]
    change defineDirective { fileStart noMacros with macros := _ } [' ', 'E', '(', ')'] = _
    rw [defineDirective_eq, function]
    rfl
  · simp only [latest, List.foldl_cons, List.foldl_nil, inForceAfter, object, function, if_true]

end ClaudeC99.Preprocessor
