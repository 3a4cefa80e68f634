import ClaudeC99.Preprocessor.Numbers

/-! The operands of `##` in a replacement list. -/

namespace ClaudeC99.Preprocessor

/-- What a replacement list is made of. -/
inductive Part
  | copied (text : Text)
  | number (text : Text)
  | parameter (name : Text)
  | stringified (name : Text)
  | paste
  deriving DecidableEq

/-- The text goes on with `##`, perhaps behind blanks. -/
def pastesNext (s : Text) : Bool :=
  let operator := s.dropWhile isBlank
  operator.head? == some '#' && operator.tail.head? == some '#'

/-- The text behind the `##` and the blanks around it. -/
def afterPaste (s : Text) : Text := ((s.dropWhile isBlank).drop 2).dropWhile isBlank

theorem afterPaste_length (c : Char) (s : Text) : (afterPaste (c :: s)).length ≤ s.length := by
  have outer := dropWhile_length_le isBlank (((c :: s).dropWhile isBlank).drop 2)
  have inner := dropWhile_length_le isBlank (c :: s)
  rw [List.length_drop] at outer
  rw [List.length_cons] at inner
  rw [afterPaste]
  omega

theorem takeNumber_length {c : Char} (s : Text) : (takeNumber (c :: s)).2.length ≤ s.length := by
  have whole := congrArg List.length (numberTail_ends c s).2
  rw [List.length_append] at whole
  change (numberTail c s).2.length ≤ s.length
  omega

/-- The parts of a replacement list, if every `#` stands before a parameter. -/
def parts (names : List Text) : Text → Option (List Part)
  | [] => some []
  | c :: s =>
    if pastesNext (c :: s) then (parts names (afterPaste (c :: s))).map (.paste :: ·)
    else if isQuote c then
      (parts names (takeQuoted c s).2).map (.copied (c :: (takeQuoted c s).1) :: ·)
    else if c = '#' then
      let operand := s.dropWhile isBlank
      if operand.takeWhile isIdentChar ∈ names then
        (parts names (operand.dropWhile isIdentChar)).map
          (.stringified (operand.takeWhile isIdentChar) :: ·)
      else none
    else if startsNumber (c :: s) then
      (parts names (takeNumber (c :: s)).2).map (.number (takeNumber (c :: s)).1 :: ·)
    else if isIdentStart c then
      let word := c :: s.takeWhile isIdentChar
      (parts names (s.dropWhile isIdentChar)).map
        ((if word ∈ names then .parameter word else .copied word) :: ·)
    else (parts names s).map (.copied [c] :: ·)
  termination_by s => s.length
  decreasing_by
    · exact Nat.lt_succ_of_le (afterPaste_length c s)
    · have := takeQuoted_length c s
      simp only [List.length_cons]
      omega
    · have := dropWhile_length_le isBlank s
      have := dropWhile_length_le isIdentChar (s.dropWhile isBlank)
      simp only [List.length_cons]
      omega
    · exact Nat.lt_succ_of_le (takeNumber_length s)
    · exact Nat.lt_succ_of_le (dropWhile_length_le isIdentChar s)
    · exact Nat.lt_succ_self _

def Part.text (asWritten : Bool) (raw expanded : Text → Text) : Part → Text
  | .copied text => text
  | .number text => text
  | .parameter name => if asWritten then raw name else expanded name
  | .stringified name => stringifyArg (raw name)
  | .paste => []

/-- The text of the parts. Whether a parameter stands for its argument as written depends on the
`##` directly behind and directly before it. -/
def assembled (asWritten : Bool → Bool → Bool) (raw expanded : Text → Text) :
    Bool → List Part → Text
  | _, [] => []
  | pasteNext, p :: ps =>
    p.text (asWritten pasteNext (ps.head? = some .paste)) raw expanded ++
      assembled asWritten raw expanded (p = .paste) ps

/-- Only what is behind a `##` is taken as written. -/
def rightOperand (pasteNext _ : Bool) : Bool := pasteNext

/-- What is on either side of a `##` is taken as written. -/
def anyOperand (pasteNext pasteBehind : Bool) : Bool := pasteNext || pasteBehind

/-- The argument for a parameter, or for `__VA_ARGS__`. -/
def argumentFor (isVariadic : Bool) (params args : List Text) (name : Text) : Text :=
  if name ∈ params then args.getD (params.idxOf name) []
  else if isVariadic ∧ name = "__VA_ARGS__".toList then joinArgs (args.drop params.length)
  else []

def parameterNames (isVariadic : Bool) (params : List Text) : List Text :=
  if isVariadic then params ++ ["__VA_ARGS__".toList] else params

/-- No `##` follows a blank that came with an argument. -/
def Solid (raw expanded : Text → Text) (ps : List Part) : Prop :=
  ∀ front back, ps = front ++ .paste :: back →
    ∀ c ∈ (assembled rightOperand raw expanded false front).getLast?, isBlank c = false

/-- No parameter is a word inside of a number. -/
def NumbersFree (names : List Text) (ps : List Part) : Prop :=
  ∀ number, Part.number number ∈ ps → ∀ p ∈ scannedWords number, p.1 ∉ names

section Bindings

variable {bindings : List Binding} {name : Text}

def rawText (bindings : List Binding) (name : Text) : Text :=
  ((bindings.find? fun b => b.param = name).map Binding.raw).getD []

def expandedText (bindings : List Binding) (name : Text) : Text :=
  ((bindings.find? fun b => b.param = name).map Binding.expanded).getD []

theorem found_param (member : name ∈ bindings.map Binding.param) :
    ∃ b, bindings.find? (fun b => b.param = name) = some b ∧ b.raw = rawText bindings name ∧
      b.expanded = expandedText bindings name := by
  cases found : bindings.find? (fun b => b.param = name) with
  | none =>
    obtain ⟨b, inside, same⟩ := List.mem_map.mp member
    exact absurd (decide_eq_true same) (List.find?_eq_none.mp found b inside)
  | some b => exact ⟨b, rfl, by rw [rawText, found]; rfl, by rw [expandedText, found]; rfl⟩

theorem not_found (other : name ∉ bindings.map Binding.param) :
    bindings.find? (fun b => b.param = name) = none := by
  apply List.find?_eq_none.mpr
  intro b inside same
  exact other (of_decide_eq_true same ▸ List.mem_map_of_mem inside)

/-- The arguments of the fixed parameters, by position. -/
theorem find_zip (params raw expanded : List Text) (long : params.length ≤ raw.length)
    (same : expanded.length = raw.length) :
    ((params.zip (raw.zip expanded)).map fun p => (⟨p.1, p.2.1, p.2.2⟩ : Binding)).find?
        (fun b => b.param = name) =
      if name ∈ params then
        some ⟨name, raw.getD (params.idxOf name) [], expanded.getD (params.idxOf name) []⟩
      else none := by
  induction params generalizing raw expanded with
  | nil => rfl
  | cons param params ih =>
    cases raw with
    | nil => exact absurd long (Nat.not_succ_le_zero _)
    | cons r raw =>
      cases expanded with
      | nil => cases same
      | cons e expanded =>
        rw [List.zip_cons_cons, List.zip_cons_cons, List.map_cons]
        by_cases here : param = name
        · subst here
          rw [List.find?_cons_of_pos (by simp), if_pos List.mem_cons_self, List.idxOf_cons_self]
          rfl
        · have later := ih raw expanded (Nat.le_of_succ_le_succ long) (Nat.succ.inj same)
          rw [List.find?_cons_of_neg (by simp [here]), later, List.idxOf_cons_ne _ here]
          have there : name ≠ param := fun back => here back.symm
          simp [there]

/-- A macro binds its parameters to the arguments. -/
theorem texts_bindArgs {isVariadic : Bool} {params raw expanded : List Text}
    (counted : argCountMatches isVariadic params raw = true) (same : expanded.length = raw.length) :
    rawText (bindArgs isVariadic params raw expanded) = argumentFor isVariadic params raw ∧
      expandedText (bindArgs isVariadic params raw expanded) =
        argumentFor isVariadic params expanded := by
  have long : params.length ≤ raw.length := by
    cases isVariadic <;> simp [argCountMatches] at counted <;> omega
  have found : ∀ name, (bindArgs isVariadic params raw expanded).find? (fun b => b.param = name) =
      if name ∈ params then
        some ⟨name, raw.getD (params.idxOf name) [], expanded.getD (params.idxOf name) []⟩
      else if isVariadic ∧ name = "__VA_ARGS__".toList then
        some ⟨name, joinArgs (raw.drop params.length), joinArgs (expanded.drop params.length)⟩
      else none := by
    intro name
    have fixed := @find_zip name params raw expanded long same
    cases isVariadic with
    | false =>
      rw [bindArgs, if_neg (by decide), fixed]
      simp
    | true =>
      rw [bindArgs, if_pos rfl, List.find?_append, fixed]
      by_cases named : name ∈ params
      · rw [if_pos named, if_pos named]
        rfl
      · rw [if_neg named, if_neg named, Option.none_or]
        generalize "__VA_ARGS__".toList = variadic
        by_cases rest : name = variadic
        · rw [if_pos ⟨rfl, rest⟩, List.find?_cons_of_pos (by simp [rest]), rest]
        · have other : ¬ variadic = name := fun back => rest back.symm
          rw [if_neg fun h => rest h.2, List.find?_cons_of_neg (by simp [other])]
          rfl
  constructor
  · funext name
    rw [rawText, found, argumentFor]
    split
    · rfl
    · split <;> rfl
  · funext name
    rw [expandedText, found, argumentFor]
    split
    · rfl
    · split <;> rfl

theorem params_bindArgs {isVariadic : Bool} {params raw expanded : List Text}
    (counted : argCountMatches isVariadic params raw = true) (same : expanded.length = raw.length) :
    (bindArgs isVariadic params raw expanded).map Binding.param = parameterNames isVariadic params := by
  have long : params.length ≤ raw.length := by
    cases isVariadic <;> simp [argCountMatches] at counted <;> omega
  have fixed : ((params.zip (raw.zip expanded)).map fun p => (⟨p.1, p.2.1, p.2.2⟩ : Binding)).map
      Binding.param = params := by
    rw [List.map_map]
    apply List.map_fst_zip
    rw [List.length_zip, same, Nat.min_self]
    exact long
  cases isVariadic with
  | false => exact fixed
  | true =>
    rw [bindArgs, if_pos rfl, List.map_append, fixed]
    rfl

end Bindings

section Loop

variable {bindings : List Binding} {out s rest : Text} {pasteNext : Bool}

theorem pastesNext_blank {c : Char} (blank : isBlank c = true) :
    pastesNext (c :: s) = pastesNext s ∧ afterPaste (c :: s) = afterPaste s := by
  rw [pastesNext, pastesNext, afterPaste, afterPaste, List.dropWhile_cons_of_pos blank]
  exact ⟨rfl, rfl⟩

theorem trimBlanks_blank {c : Char} (blank : isBlank c = true) :
    trimBlanks (out ++ [c]) = trimBlanks out := by
  rw [trimBlanks, List.reverse_append, List.reverse_singleton, List.singleton_append,
    List.dropWhile_cons_of_pos blank, trimBlanks]

theorem trimBlanks_solid (solid : ∀ c ∈ out.getLast?, isBlank c = false) : trimBlanks out = out := by
  rw [trimBlanks]
  cases back : out.reverse with
  | nil => rw [List.dropWhile_nil, ← back, List.reverse_reverse]
  | cons c front =>
    have last : c ∈ out.getLast? := by
      rw [List.getLast?_eq_head?_reverse, back]
      rfl
    rw [List.dropWhile_cons_of_neg (by simp [solid c last]), ← back, List.reverse_reverse]

/-- The loop takes the blanks before a `##` back from the output. -/
theorem substitute_paste (paste : pastesNext s = true) :
    substituteArgsLoop bindings out pasteNext s =
      substituteArgsLoop bindings (trimBlanks out) true (afterPaste s) := by
  induction s generalizing out pasteNext with
  | nil => cases paste
  | cons c s ih =>
    cases blank : isBlank c with
    | true =>
      obtain ⟨goesOn, behind⟩ := pastesNext_blank (s := s) blank
      have facts : isQuote c = false ∧ c ≠ '#' ∧ isIdentStart c = false := by
        have kinds : c = ' ' ∨ c = '\t' := by simpa [isBlank] using blank
        rcases kinds with rfl | rfl <;> decide
      obtain ⟨noQuote, noHash, noStart⟩ := facts
      rw [substituteArgsLoop, if_neg (by simp [noQuote]), if_neg fun h => noHash h.1, if_neg noHash,
        if_neg (by simp [noStart]), ih (goesOn ▸ paste), trimBlanks_blank blank, behind]
    | false =>
      have stays : (c :: s).dropWhile isBlank = c :: s :=
        List.dropWhile_cons_of_neg (by simp [blank])
      have operator : c = '#' ∧ s.head? = some '#' := by
        simpa [pastesNext, stays] using paste
      obtain ⟨rfl, next⟩ := operator
      rw [substituteArgsLoop, if_neg (by decide), if_pos ⟨rfl, next⟩, afterPaste, stays,
        List.drop_succ_cons, List.drop_one]

theorem assembled_cons (asWritten : Bool → Bool → Bool) (raw expanded : Text → Text) (p : Part)
    (ps : List Part) : assembled asWritten raw expanded pasteNext (p :: ps) =
      p.text (asWritten pasteNext (ps.head? = some .paste)) raw expanded ++
        assembled asWritten raw expanded (p = .paste) ps := rfl

/-- The text of the parts, where substitution is defined. -/
def outcome (bindings : List Binding) (out : Text) (pasteNext : Bool) (read : Option (List Part)) :
    Except String Text :=
  read.elim (.error "error: '#' operand is not a macro parameter") fun ps =>
    .ok (out ++ assembled rightOperand (rawText bindings) (expandedText bindings) pasteNext ps)

/-- No `##` follows a blank, behind an output. -/
def SolidFrom (bindings : List Binding) (out : Text) (pasteNext : Bool) (ps : List Part) : Prop :=
  ∀ front back, ps = front ++ .paste :: back → ∀ c ∈ (out ++ assembled rightOperand
    (rawText bindings) (expandedText bindings) pasteNext front).getLast?, isBlank c = false

/-- The loop puts the parts of the text together. -/
def Assembles (bindings : List Binding) (s : Text) : Prop :=
  ∀ out pasteNext, (∀ ps ∈ parts (bindings.map Binding.param) s,
      NumbersFree (bindings.map Binding.param) ps ∧ SolidFrom bindings out pasteNext ps) →
    substituteArgsLoop bindings out pasteNext s =
      outcome bindings out pasteNext (parts (bindings.map Binding.param) s)

theorem Assembles.paste (later : Assembles bindings (afterPaste s)) (paste : pastesNext s = true)
    (read : parts (bindings.map Binding.param) s =
      (parts (bindings.map Binding.param) (afterPaste s)).map (.paste :: ·)) :
    Assembles bindings s := by
  intro out pasteNext fine
  rw [substitute_paste paste, read]
  rw [read] at fine
  cases tail : parts (bindings.map Binding.param) (afterPaste s) with
  | none =>
    rw [later _ _ (by simp [tail]), tail]
    rfl
  | some ps =>
    rw [tail] at fine
    obtain ⟨free, solid⟩ := fine (.paste :: ps) rfl
    have stays : trimBlanks out = out := by
      have here := solid [] ps rfl
      rw [assembled, List.append_nil] at here
      exact trimBlanks_solid here
    have next := later out true (by
      intro ps' same
      obtain rfl : ps = ps' := Option.some.inj (tail.symm.trans same)
      refine ⟨fun number member => free number (List.mem_cons_of_mem _ member), ?_⟩
      rintro front back rfl
      exact solid (.paste :: front) back rfl)
    rw [stays, next, tail]
    rfl

theorem Assembles.step {p : Part} (later : Assembles bindings rest) (noPaste : p ≠ .paste)
    (read : parts (bindings.map Binding.param) s =
      (parts (bindings.map Binding.param) rest).map (p :: ·))
    (loop : ∀ out pasteNext, ∃ t,
      substituteArgsLoop bindings out pasteNext s =
        substituteArgsLoop bindings (out ++ t) false rest ∧
      (NumbersFree (bindings.map Binding.param) [p] →
        t = p.text pasteNext (rawText bindings) (expandedText bindings))) :
    Assembles bindings s := by
  intro out pasteNext fine
  obtain ⟨t, runs, made⟩ := loop out pasteNext
  rw [runs, read]
  rw [read] at fine
  cases tail : parts (bindings.map Binding.param) rest with
  | none =>
    rw [later _ _ (by simp [tail]), tail]
    rfl
  | some ps =>
    rw [tail] at fine
    obtain ⟨free, solid⟩ := fine (p :: ps) rfl
    have flag : decide (p = .paste) = false := decide_eq_false noPaste
    obtain rfl := made fun number member =>
      free number (List.mem_singleton.mp member ▸ List.mem_cons_self)
    have next := later (out ++ p.text pasteNext (rawText bindings) (expandedText bindings)) false (by
      intro ps' same
      obtain rfl : ps = ps' := Option.some.inj (tail.symm.trans same)
      refine ⟨fun number member => free number (List.mem_cons_of_mem _ member), ?_⟩
      rintro front back rfl
      have here := solid (p :: front) back rfl
      rw [assembled_cons, flag, ← List.append_assoc] at here
      exact here)
    rw [next, tail]
    simp only [outcome, Option.map_some, Option.elim_some]
    rw [assembled_cons, flag, List.append_assoc]
    rfl

theorem assembles (bindings : List Binding) (s : Text) : Assembles bindings s := by
  induction length : s.length using Nat.strongRecOn generalizing s with
  | ind n ih =>
  subst length
  cases s with
  | nil =>
    intro out pasteNext fine
    rw [substituteArgsLoop, parts]
    simp [outcome, assembled]
  | cons c s =>
    by_cases paste : pastesNext (c :: s) = true
    · have later := ih _ (Nat.lt_succ_of_le (afterPaste_length c s)) _ rfl
      apply later.paste paste
      rw [parts, if_pos paste]
    · cases quote : isQuote c with
      | true =>
        have shorter : (takeQuoted c s).2.length < (c :: s).length := by
          have := takeQuoted_length c s
          rw [List.length_cons]
          omega
        apply (ih _ shorter _ rfl).step (p := .copied (c :: (takeQuoted c s).1)) (by simp)
        · rw [parts, if_neg paste, if_pos quote]
        · intro out pasteNext
          refine ⟨_, ?_, fun _ => rfl⟩
          rw [substituteArgsLoop, if_pos quote]
          rfl
      | false =>
        by_cases hash : c = '#'
        · subst hash
          have single : ¬ ('#' = '#' ∧ s.head? = some '#') := by
            rintro ⟨-, next⟩
            apply paste
            have stays : ('#' :: s).dropWhile isBlank = '#' :: s := rfl
            rw [pastesNext, stays]
            simp [next]
          by_cases member : (s.dropWhile isBlank).takeWhile isIdentChar ∈ bindings.map Binding.param
          · obtain ⟨b, found, raw, -⟩ := found_param member
            have shorter : ((s.dropWhile isBlank).dropWhile isIdentChar).length <
                ('#' :: s).length := by
              have outer := dropWhile_length_le isIdentChar (s.dropWhile isBlank)
              have inner := dropWhile_length_le isBlank s
              rw [List.length_cons]
              omega
            apply (ih _ shorter _ rfl).step
              (p := .stringified ((s.dropWhile isBlank).takeWhile isIdentChar)) (by simp)
            · rw [parts, if_neg paste, if_neg (by simp [quote]), if_pos rfl, if_pos member]
            · intro out pasteNext
              refine ⟨stringifyArg b.raw, ?_, fun _ => by rw [raw]; rfl⟩
              rw [substituteArgsLoop, if_neg (by simp [quote]), if_neg single, if_pos rfl]
              simp only [found]
          · intro out pasteNext fine
            rw [parts, if_neg paste, if_neg (by simp [quote]), if_pos rfl, if_neg member,
              substituteArgsLoop, if_neg (by simp [quote]), if_neg single, if_pos rfl]
            simp only [not_found member]
            rfl
        · by_cases number : startsNumber (c :: s) = true
          · apply (ih _ (Nat.lt_succ_of_le (takeNumber_length s)) _ rfl).step
              (p := .number (takeNumber (c :: s)).1) (by simp)
            · rw [parts, if_neg paste, if_neg (by simp [quote]), if_neg hash, if_pos number]
            · intro out pasteNext
              refine ⟨_, substitute_number number, fun free => ?_⟩
              exact numberText_plain (free _ (List.mem_singleton_self _))
          · have read : parts (bindings.map Binding.param) (c :: s) = if isIdentStart c then
                (parts (bindings.map Binding.param) (s.dropWhile isIdentChar)).map
                  ((if c :: s.takeWhile isIdentChar ∈ bindings.map Binding.param then
                    .parameter (c :: s.takeWhile isIdentChar)
                  else .copied (c :: s.takeWhile isIdentChar)) :: ·)
                else (parts (bindings.map Binding.param) s).map (.copied [c] :: ·) := by
              rw [parts, if_neg paste, if_neg (by simp [quote]), if_neg hash, if_neg number]
            cases start : isIdentStart c with
            | true =>
              rw [if_pos start] at read
              have shorter := dropWhile_length_le isIdentChar s
              have later := ih _ (Nat.lt_succ_of_le shorter) _ rfl
              by_cases member : c :: s.takeWhile isIdentChar ∈ bindings.map Binding.param
              · obtain ⟨b, found, raw, expanded⟩ := found_param member
                rw [if_pos member] at read
                apply later.step (by simp) read
                intro out pasteNext
                refine ⟨_, substitute_param start found, fun _ => ?_⟩
                rw [raw, expanded]
                rfl
              · rw [if_neg member] at read
                apply later.step (by simp) read
                intro out pasteNext
                exact ⟨_, substitute_word start (not_found member), fun _ => rfl⟩
            | false =>
              rw [if_neg (by simp [start])] at read
              apply (ih _ (Nat.lt_succ_self _) _ rfl).step (by simp) read
              intro out pasteNext
              refine ⟨[c], ?_, fun _ => rfl⟩
              rw [substituteArgsLoop, if_neg (by simp [quote]), if_neg fun h => hash h.1,
                if_neg hash, if_neg (by simp [start])]

end Loop

theorem forEach_length {α β : Type} {f : α → Run β} {as : List α} {bs : List β}
    (each : (Run.forEach f as).Returns bs) : bs.length = as.length := by
  induction as generalizing bs with
  | nil =>
    obtain ⟨log, same⟩ := each
    cases same
    rfl
  | cons a as ih =>
    obtain ⟨b, -, rest⟩ := Run.andThen_returns_iff.mp each
    obtain ⟨tail, later, log, same⟩ := Run.andThen_returns_iff.mp rest
    cases same
    rw [List.length_cons, List.length_cons, ih later]

/-- Substitution puts the parts of the replacement list together, with the right operands of `##` as
written and all other parameters expanded. -/
theorem pasted_arguments {ctx : ExpandContext} {macros : MacroTable} {fuel : Nat}
    {disabled rescanning : List Text} {m : MacroDef} {params args expanded : List Text}
    {log : List Expansion} (counted : argCountMatches m.isVariadic params args = true)
    (each : Run.forEach (expandMacrosText ctx macros fuel disabled rescanning) args =
      some (log, .ok expanded))
    (free : ∀ ps ∈ parts (parameterNames m.isVariadic params) m.replacement,
      NumbersFree (parameterNames m.isVariadic params) ps)
    (solid : ∀ ps ∈ parts (parameterNames m.isVariadic params) m.replacement,
      Solid (argumentFor m.isVariadic params args) (argumentFor m.isVariadic params expanded) ps) :
    substituteArgs m.replacement (bindArgs m.isVariadic params args expanded) =
        (parts (parameterNames m.isVariadic params) m.replacement).elim
          (.error "error: '#' operand is not a macro parameter")
          (fun ps => .ok (assembled rightOperand (argumentFor m.isVariadic params args)
            (argumentFor m.isVariadic params expanded) false ps)) ∧
      expandPiece (expandMacrosText ctx macros fuel) disabled rescanning (.invocation m params args) =
        (parts (parameterNames m.isVariadic params) m.replacement).elim
          (some (log, .error "error: '#' operand is not a macro parameter"))
          (fun ps => Run.logged (log ++ [⟨m.name, rescanning⟩])
            (expandMacrosText ctx macros fuel disabled (m.name :: rescanning)
              (assembled rightOperand (argumentFor m.isVariadic params args)
                (argumentFor m.isVariadic params expanded) false ps))) := by
  have same := forEach_length ⟨log, each⟩
  obtain ⟨raw, texts⟩ := texts_bindArgs counted same
  have names := params_bindArgs counted same
  have read := assembles (bindArgs m.isVariadic params args expanded) m.replacement [] false
  simp only [SolidFrom, outcome, names, raw, texts, List.nil_append] at read
  have substituted := read fun ps member => ⟨free ps member, solid ps member⟩
  refine ⟨substituted, ?_⟩
  have substituted : substituteArgs m.replacement (bindArgs m.isVariadic params args expanded) = _ :=
    substituted
  simp only [expandPiece, counted, if_true, each, Run.andThen, substituted]
  cases parts (parameterNames m.isVariadic params) m.replacement with
  | none => simp [Run.logged, Run.exits]
  | some ps =>
    exact Run.logged_logged log [⟨m.name, rescanning⟩] _

/-- `v##n+n` with the argument `N`, which expands to `1`. -/
theorem right_operand_pasted :
    substituteArgs "v##n+n".toList (bindArgs false [['n']] [['N']] [['1']]) =
        (parts (parameterNames false [['n']]) "v##n+n".toList).elim
          (.error "error: '#' operand is not a macro parameter")
          (fun ps => .ok (assembled rightOperand (argumentFor false [['n']] [['N']])
            (argumentFor false [['n']] [['1']]) false ps)) ∧
      expandPiece (expandMacrosText ⟨[], 1⟩ [⟨['N'], none, false, ['1']⟩] 3) [] []
          (.invocation ⟨['V'], some [['n']], false, "v##n+n".toList⟩ [['n']] [['N']]) =
        (parts (parameterNames false [['n']]) "v##n+n".toList).elim
          (some ([⟨['N'], []⟩], .error "error: '#' operand is not a macro parameter"))
          (fun ps => Run.logged ([⟨['N'], []⟩] ++ [⟨['V'], []⟩])
            (expandMacrosText ⟨[], 1⟩ [⟨['N'], none, false, ['1']⟩] 3 [] [['V']]
              (assembled rightOperand (argumentFor false [['n']] [['N']])
                (argumentFor false [['n']] [['1']]) false ps))) := by
  have read : parts (parameterNames false [['n']]) "v##n+n".toList =
      some [.copied ['v'], .paste, .parameter ['n'], .copied ['+'], .parameter ['n']] := by
    simp [parts, parameterNames, pastesNext, afterPaste, isBlank, isQuote, startsNumber,
      isIdentStart, isIdentChar]
  have each : Run.forEach (expandMacrosText ⟨[], 1⟩ [⟨['N'], none, false, ['1']⟩] 3 [] []) [['N']] =
      some ([⟨['N'], []⟩], .ok [['1']]) := rfl
  apply pasted_arguments (m := ⟨['V'], some [['n']], false, "v##n+n".toList⟩) rfl each
  · intro ps same number member
    rw [read] at same
    cases same
    simp at member
  · intro ps same front back split c last
    rw [read] at same
    cases same
    have here : front = [.copied ['v']] ∧
        back = [.parameter ['n'], .copied ['+'], .parameter ['n']] := by
      simpa [List.cons_eq_append_iff] using split
    rw [here.1] at last
    have last : some 'v' = some c := last
    cases last
    rfl

/-- The left operand of `##` is expanded. The blank before an empty left operand is lost, and a
parameter is found inside of a number. -/
theorem left_operand_expanded :
    Run.forEach (expandMacrosText ⟨[], 1⟩ [⟨['N'], none, false, ['1']⟩] 3 [] []) [['N'], ['N']] =
        some ([⟨['N'], []⟩, ⟨['N'], []⟩], .ok [['1'], ['1']]) ∧
      parts [['a'], ['b']] "a##b".toList = some [.parameter ['a'], .paste, .parameter ['b']] ∧
      substituteArgs "a##b".toList
          (bindArgs false [['a'], ['b']] [['N'], ['N']] [['1'], ['1']]) = .ok "1N".toList ∧
      assembled anyOperand (argumentFor false [['a'], ['b']] [['N'], ['N']])
          (argumentFor false [['a'], ['b']] [['1'], ['1']]) false
          [.parameter ['a'], .paste, .parameter ['b']] = "NN".toList ∧
      parts [['a'], ['b']] "x a##b".toList =
        some [.copied ['x'], .copied [' '], .parameter ['a'], .paste, .parameter ['b']] ∧
      substituteArgs "x a##b".toList
          (bindArgs false [['a'], ['b']] [[], ['1']] [[], ['1']]) = .ok "x1".toList ∧
      assembled anyOperand (argumentFor false [['a'], ['b']] [[], ['1']])
          (argumentFor false [['a'], ['b']] [[], ['1']]) false
          [.copied ['x'], .copied [' '], .parameter ['a'], .paste, .parameter ['b']] =
        "x 1".toList ∧
      parts [['a']] "1a".toList = some [.number "1a".toList] ∧
      substituteArgs "1a".toList (bindArgs false [['a']] [['7']] [['7']]) = .ok "17".toList := by
  refine ⟨rfl, ?_, ?_, rfl, ?_, ?_, rfl, ?_, ?_⟩
  · simp [parts, pastesNext, afterPaste, isBlank, isQuote, startsNumber, isIdentStart, isIdentChar]
  · simp [substituteArgs, substituteArgsLoop, bindArgs, trimBlanks, isBlank, isQuote, isIdentStart,
      isIdentChar]
  · simp [parts, pastesNext, afterPaste, isBlank, isQuote, startsNumber, isIdentStart, isIdentChar]
  · simp [substituteArgs, substituteArgsLoop, bindArgs, trimBlanks, isBlank, isQuote, isIdentStart,
      isIdentChar]
  · simp [parts, pastesNext, isBlank, isQuote, startsNumber, takeNumber, numberTail, continues,
      isIdentChar]
  · simp [substituteArgs, substituteArgsLoop, bindArgs, isQuote, isIdentStart]

end ClaudeC99.Preprocessor
