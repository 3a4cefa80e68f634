import ClaudeC99.Lib.Numeral
import ClaudeC99.Preprocessor.SingleLines

/-! What macro expansion does with preprocessing numbers. -/

namespace ClaudeC99.Preprocessor

def isSign (c : Char) : Bool := c == '+' || c == '-'

def isExponent (c : Char) : Bool := c == 'e' || c == 'E' || c == 'p' || c == 'P'

/-- A preprocessing number goes on with `c` after `prev`. -/
def continues (prev c : Char) : Bool :=
  isIdentChar c || c == '.' || isSign c && isExponent prev

/-- The rest of a preprocessing number, and the text after it. -/
def numberTail (prev : Char) : Text → Text × Text
  | [] => ([], [])
  | c :: s =>
    if continues prev c then (c :: (numberTail c s).1, (numberTail c s).2) else ([], c :: s)

def startsNumber : Text → Bool
  | [] => false
  | c :: s => c.isDigit || c == '.' && s.head?.any Char.isDigit

/-- The longest preprocessing number that the text starts with, and the text after it. -/
def takeNumber : Text → Text × Text
  | [] => ([], [])
  | c :: s => (c :: (numberTail c s).1, (numberTail c s).2)

/-- The words that the scanners find in a text, each with the text behind it. -/
def scannedWords : Text → List (Text × Text)
  | [] => []
  | c :: s =>
    if isIdentStart c then
      (c :: s.takeWhile isIdentChar, s.dropWhile isIdentChar) ::
        scannedWords (s.dropWhile isIdentChar)
    else scannedWords s
  termination_by s => s.length
  decreasing_by
    · have := dropWhile_length_le isIdentChar s
      simp only [List.length_cons]
      omega
    · simp

/-- What a loop makes of a name and the text behind it. -/
abbrev NameReader := Text → Text → Except String (Piece × Text)

def isMark (c : Char) : Bool := c.isDigit || c == '.' || isSign c

/-- The loop copies the text until no more than `stop` characters are left. -/
inductive Copied (read : NameReader) (stop : Nat) : Text → Prop
  | reached {s : Text} (short : s.length ≤ stop) : Copied read stop s
  | mark {c : Char} {s : Text} (mark : isMark c = true) (rest : Copied read stop s) :
      Copied read stop (c :: s)
  | word {c : Char} {s u rest : Text} (start : isIdentStart c = true)
      (reads : read (c :: s.takeWhile isIdentChar) (s.dropWhile isIdentChar) =
        .ok (.verbatim u, rest))
      (same : u ++ rest = c :: s) (later : Copied read stop rest) : Copied read stop (c :: s)

/-- When a loop copies a word, and how much it copies. -/
structure Copies (read : NameReader) (Plain : Text → Text → Prop) : Prop where
  iff : ∀ w after, w ≠ [] →
    ((∃ u rest, read w after = .ok (.verbatim u, rest) ∧ u ++ rest = w ++ after) ↔ Plain w after)
  rest : ∀ w after u rest, read w after = .ok (.verbatim u, rest) → u ++ rest = w ++ after →
    rest = after ∨ protectsOperand after = true ∧ rest.length ≤ after.length

/-- `t` is the rest of a number that `rest` does not continue. -/
def EndsNumber (prev : Char) (t rest : Text) : Prop := numberTail prev (t ++ rest) = (t, rest)

section Tails

variable {prev c : Char} {t rest : Text}

theorem endsNumber_nil : EndsNumber prev [] rest ↔ ∀ c ∈ rest.head?, continues prev c = false := by
  cases rest with
  | nil => simp [EndsNumber, numberTail]
  | cons c rest =>
    rw [EndsNumber, List.nil_append, numberTail]
    cases more : continues prev c <;> simp [more]

theorem endsNumber_cons :
    EndsNumber prev (c :: t) rest ↔ continues prev c = true ∧ EndsNumber c t rest := by
  rw [EndsNumber, List.cons_append, numberTail]
  cases more : continues prev c with
  | false => simp
  | true => simp [EndsNumber, Prod.ext_iff]

theorem numberTail_ends (prev : Char) (s : Text) :
    EndsNumber prev (numberTail prev s).1 (numberTail prev s).2 ∧
      (numberTail prev s).1 ++ (numberTail prev s).2 = s := by
  induction s generalizing prev with
  | nil => exact ⟨rfl, rfl⟩
  | cons c s ih =>
    rw [numberTail]
    cases more : continues prev c with
    | false =>
      rw [if_neg (by simp)]
      refine ⟨endsNumber_nil.mpr ?_, rfl⟩
      rintro d head
      obtain rfl : c = d := by simpa using head
      exact more
    | true =>
      rw [if_pos rfl]
      exact ⟨endsNumber_cons.mpr ⟨more, (ih c).1⟩, congrArg (c :: ·) (ih c).2⟩

theorem not_ident_of_stop (stop : continues prev c = false) : isIdentChar c = false := by
  simp only [continues, Bool.or_eq_false_iff] at stop
  exact stop.1.1

/-- After the word characters at its start a number goes on, or is at its end. -/
theorem EndsNumber.word (ends : EndsNumber prev t rest) :
    (∃ last, EndsNumber last (t.dropWhile isIdentChar) rest) ∧
      EndsWord (t.dropWhile isIdentChar ++ rest) := by
  induction t generalizing prev with
  | nil =>
    refine ⟨⟨prev, ends⟩, ?_⟩
    intro c head
    exact not_ident_of_stop (endsNumber_nil.mp ends c head)
  | cons c t ih =>
    cases ident : isIdentChar c with
    | true =>
      rw [List.dropWhile_cons_of_pos ident]
      exact ih (endsNumber_cons.mp ends).2
    | false =>
      rw [List.dropWhile_cons_of_neg (by simp [ident])]
      refine ⟨⟨prev, ends⟩, ?_⟩
      intro d head
      obtain rfl : c = d := by simpa using head
      exact ident

theorem mark_of_continues (more : continues prev c = true) (noStart : isIdentStart c = false) :
    isMark c = true := by
  simp only [isIdentStart, Bool.or_eq_false_iff] at noStart
  simp only [continues, isIdentChar, Char.isAlphanum, noStart.1, noStart.2, Bool.false_or,
    Bool.or_false, Bool.or_eq_true, Bool.and_eq_true] at more
  simp only [isMark, Bool.or_eq_true]
  rcases more with (digit | dot) | sign
  · exact .inl (.inl digit)
  · exact .inl (.inr dot)
  · exact .inr sign.1

theorem not_start_of_digit (digit : c.isDigit = true) : isIdentStart c = false := by
  have range : 48 ≤ c.toNat ∧ c.toNat ≤ 57 := by
    simpa [Char.isDigit, UInt32.le_iff_toNat_le] using digit
  cases start : isIdentStart c with
  | false => rfl
  | true =>
    have other : (65 ≤ c.toNat ∧ c.toNat ≤ 90 ∨ 97 ≤ c.toNat ∧ c.toNat ≤ 122) ∨ c = '_' := by
      simpa [isIdentStart, Char.isAlpha, Char.isUpper, Char.isLower, UInt32.le_iff_toNat_le]
        using start
    rcases other with (upper | lower) | rfl
    · omega
    · omega
    · cases digit

theorem mark_facts (mark : isMark c = true) :
    isIdentStart c = false ∧ isQuote c = false ∧ isSpaceChar c = false ∧ c ≠ '(' ∧ c ≠ '/' ∧
      c ≠ '#' := by
  have differs : ∀ d : Char, isMark d = false → c ≠ d := by
    rintro d other rfl
    rw [mark] at other
    cases other
  refine ⟨?_, ?_, ?_, differs _ rfl, differs _ rfl, differs _ rfl⟩
  · simp only [isMark, isSign, Bool.or_eq_true, beq_iff_eq] at mark
    rcases mark with (digit | rfl) | (rfl | rfl)
    · exact not_start_of_digit digit
    · rfl
    · rfl
    · rfl
  · simp [isQuote, differs '"' rfl, differs '\'' rfl]
  · simp [isSpaceChar, isArgBlank, isBlank, differs ' ' rfl, differs '\t' rfl, differs '\n' rfl,
      differs '\x0b' rfl, differs '\x0c' rfl, differs '\r' rfl]

end Tails

section Reading

variable {read : NameReader} {Plain : Text → Text → Prop}

theorem scannedWords_start {c : Char} {s : Text} (start : isIdentStart c = true) :
    scannedWords (c :: s) =
      (c :: s.takeWhile isIdentChar, s.dropWhile isIdentChar) ::
        scannedWords (s.dropWhile isIdentChar) := by
  rw [scannedWords, if_pos start]

theorem scannedWords_mark {c : Char} {s : Text} (noStart : isIdentStart c = false) :
    scannedWords (c :: s) = scannedWords s := by
  rw [scannedWords, if_neg (by simp [noStart])]

/-- Behind a word a number is at its end, or goes on with a character that no operand starts with. -/
theorem EndsNumber.no_operand {prev : Char} {t rest : Text} (ends : EndsNumber prev t rest)
    (inside : t ≠ []) (word : EndsWord (t ++ rest)) : protectsOperand (t ++ rest) = false := by
  cases t with
  | nil => exact absurd rfl inside
  | cons c t =>
    have more := (endsNumber_cons.mp ends).1
    have noIdent : isIdentChar c = false := word c rfl
    have noStart : isIdentStart c = false := by
      cases start : isIdentStart c with
      | false => rfl
      | true =>
        rw [identChar_of_start start] at noIdent
        cases noIdent
    obtain ⟨-, -, noSpace, noParen, -, -⟩ := mark_facts (mark_of_continues more noStart)
    have noBlank : isBlank c = false := by
      cases blank : isBlank c with
      | false => rfl
      | true => simp [isSpaceChar, isArgBlank, blank] at noSpace
    rw [protectsOperand, List.cons_append, List.dropWhile_cons_of_neg (by simp [noBlank])]
    simp [noParen, noStart]

/-- A number is copied exactly when each of its words is. -/
theorem copied_iff (copies : Copies read Plain) {prev : Char} {t rest : Text}
    (ends : EndsNumber prev t rest) :
    Copied read rest.length (t ++ rest) ↔
      ∀ p ∈ scannedWords t, Plain p.1 (p.2 ++ rest) := by
  induction length : t.length using Nat.strongRecOn generalizing prev t with
  | ind n ih =>
  subst length
  cases t with
  | nil =>
    rw [scannedWords]
    simp [Copied.reached]
  | cons c t =>
    obtain ⟨more, tail⟩ := endsNumber_cons.mp ends
    have long : ¬ (c :: t ++ rest).length ≤ rest.length := by
      rw [List.length_append, List.length_cons]
      omega
    cases start : isIdentStart c with
    | false =>
      have inner := ih t.length (Nat.lt_succ_self _) tail rfl
      rw [scannedWords_mark start, ← inner]
      constructor
      · intro copied
        cases copied with
        | reached short => exact absurd short long
        | mark _ later => exact later
        | word start' => rw [start] at start'; cases start'
      · intro copied
        exact .mark (mark_of_continues more start) copied
    | true =>
      obtain ⟨⟨last, tail⟩, word⟩ := tail.word
      have isWord : isWord (c :: t.takeWhile isIdentChar) = true := by
        rw [Preprocessor.isWord, start, Bool.true_and]
        exact List.all_takeWhile
      have split : t ++ rest =
          t.takeWhile isIdentChar ++ (t.dropWhile isIdentChar ++ rest) := by
        rw [← List.append_assoc, List.takeWhile_append_dropWhile]
      obtain ⟨front, back⟩ := splitWord isWord word
      have shorter := dropWhile_length_le isIdentChar t
      have inner := ih (t.dropWhile isIdentChar).length (Nat.lt_succ_of_le shorter) tail rfl
      have reader := copies.iff (c :: t.takeWhile isIdentChar) (t.dropWhile isIdentChar ++ rest)
        (List.cons_ne_nil _ _)
      -- Only the operand of `defined` is copied with its word, and it stands behind the number.
      have goesOn : ∀ u r, read (c :: t.takeWhile isIdentChar) (t.dropWhile isIdentChar ++ rest) =
          .ok (.verbatim u, r) → u ++ r = c :: t.takeWhile isIdentChar ++
            (t.dropWhile isIdentChar ++ rest) →
          (Copied read rest.length r ↔
            Copied read rest.length (t.dropWhile isIdentChar ++ rest)) := by
        intro u r reads same
        rcases copies.rest _ _ u r reads same with rfl | ⟨operand, le⟩
        · exact Iff.rfl
        · have ended : t.dropWhile isIdentChar = [] := by
            by_contra inside
            rw [tail.no_operand inside word] at operand
            cases operand
          rw [ended, List.nil_append] at le ⊢
          exact ⟨fun _ => .reached (Nat.le_refl _), fun _ => .reached le⟩
      rw [scannedWords_start start, List.forall_mem_cons, ← inner, ← reader, List.cons_append, split]
      constructor
      · intro copied
        cases copied with
        | reached short =>
          rw [← split] at short
          exact absurd short long
        | mark mark => rw [(mark_facts mark).1] at start; cases start
        | word _ reads same later =>
          rw [front, back] at reads
          exact ⟨⟨_, _, reads, same⟩, (goesOn _ _ reads same).mp later⟩
      · rintro ⟨⟨u, r, reads, same⟩, later⟩
        have scanned : read
            (c :: (t.takeWhile isIdentChar ++ (t.dropWhile isIdentChar ++ rest)).takeWhile isIdentChar)
            ((t.takeWhile isIdentChar ++ (t.dropWhile isIdentChar ++ rest)).dropWhile isIdentChar) =
            .ok (.verbatim u, r) := by
          rw [front, back]
          exact reads
        exact .word start scanned same ((goesOn u r reads same).mpr later)

end Reading

section Names

variable {ctx : ExpandContext} {macros : MacroTable} {disabled : List Text}

/-- A rescan copies the word. -/
def NestedPlain (macros : MacroTable) (disabled : List Text) (w after : Text) : Prop :=
  w ≠ "__FILE__".toList ∧ w ≠ "__LINE__".toList ∧ CopiedWord macros disabled w after

/-- The loop over text lines copies the word. -/
def LinePlain (macros : MacroTable) (w after : Text) : Prop :=
  w ∉ predefinedWords ∧ CopiedWord macros [] w after

theorem plainName_copies (w after : Text) :
    ∃ u rest, plainName w after = (.verbatim u, rest) ∧ u ++ rest = w ++ after ∧
      (rest = after ∨ protectsOperand after = true ∧ rest.length ≤ after.length) := by
  by_cases free : w = "defined".toList → protectsOperand after = false
  · exact ⟨w, after, plainName_free free, rfl, .inl rfl⟩
  · obtain ⟨rfl, operand⟩ := Classical.not_imp.mp free
    have operand : protectsOperand after = true := by simpa using operand
    have whole : after.takeWhile isBlank ++ after.dropWhile isBlank = after :=
      List.takeWhile_append_dropWhile
    rw [plainName, if_pos rfl]
    split
    · next tail start =>
      have inner : tail.takeWhile (fun c => c != ')' && c != '\n') ++
          tail.dropWhile (fun c => c != ')' && c != '\n') = tail := List.takeWhile_append_dropWhile
      rw [start] at whole
      split
      · next rest close =>
        rw [close] at inner
        refine ⟨_, _, rfl, ?_, .inr ⟨operand, ?_⟩⟩
        · conv_rhs => rw [← whole, ← inner]
          simp
        · have length := congrArg List.length whole
          have length' := congrArg List.length inner
          simp only [List.length_append, List.length_cons] at length length'
          omega
      · refine ⟨_, _, rfl, ?_, .inr ⟨operand, ?_⟩⟩
        · conv_rhs => rw [← whole, ← inner]
          simp
        · have length := congrArg List.length whole
          have shorter := dropWhile_length_le (fun c => c != ')' && c != '\n') tail
          simp only [List.length_append, List.length_cons] at length
          omega
    · have name : (after.dropWhile isBlank).takeWhile isIdentChar ++
          (after.dropWhile isBlank).dropWhile isIdentChar = after.dropWhile isBlank :=
        List.takeWhile_append_dropWhile
      split
      · refine ⟨_, _, rfl, ?_, .inr ⟨operand, ?_⟩⟩
        · rw [List.append_assoc, name, List.append_assoc, whole]
        · have shorter := dropWhile_length_le isIdentChar (after.dropWhile isBlank)
          exact shorter.trans (dropWhile_length_le isBlank after)
      · exact ⟨_, _, rfl, rfl, .inl rfl⟩

theorem file_differs {path w after : Text} (named : w = "__FILE__".toList) :
    fileLiteral path ++ after ≠ w ++ after := by
  intro same
  rw [List.append_cancel_right_eq, named] at same
  cases same

theorem line_differs {line : Int} {w after : Text} (named : w = "__LINE__".toList) :
    (toString line).toList ++ after ≠ w ++ after := by
  intro same
  rw [List.append_cancel_right_eq, named] at same
  apply Numeral.underscore_notMem_int line
  rw [same]
  decide

theorem opens_of_callsAhead {after : Text} (calls : callsAhead after = true) :
    ∃ tail, after.dropWhile isBlank = '(' :: tail := by
  rw [callsAhead] at calls
  cases start : after.dropWhile isBlank with
  | nil => simp [start] at calls
  | cons c tail =>
    obtain rfl : c = '(' := by simpa [start] using calls
    exact ⟨tail, rfl⟩

/-- What a rescan makes of a word that is no predefined one. -/
theorem namePiece_cases {w : Text} (after : Text) (file : w ≠ "__FILE__".toList)
    (line : w ≠ "__LINE__".toList) :
    (CopiedWord macros disabled w after ∧ (namePiece ctx macros disabled w after = plainName w after ∨
        namePiece ctx macros disabled w after = (.verbatim w, after))) ∨
      (¬ CopiedWord macros disabled w after ∧
        ∀ u, (namePiece ctx macros disabled w after).1 ≠ .verbatim u) := by
  cases found : macroFind macros w with
  | none =>
    have read : namePiece ctx macros disabled w after = plainName w after := by
      rw [namePiece, if_neg file, if_neg line, found]
    refine .inl ⟨?_, .inl read⟩
    intro m other
    rw [found] at other
    cases other
  | some m =>
    have named := (macroFind_mem found).2
    cases params : m.params with
    | none =>
      by_cases blocked : m.name ∈ disabled
      · have read : namePiece ctx macros disabled w after = plainName w after := by
          rw [namePiece, if_neg file, if_neg line, found]
          simp only [params, if_pos blocked]
        refine .inl ⟨?_, .inl read⟩
        intro m' same
        obtain rfl : m = m' := Option.some.inj (found.symm.trans same)
        exact ⟨fun _ => named ▸ blocked, fun other => absurd params other⟩
      · have read : namePiece ctx macros disabled w after = (.objectLike m, after) := by
          rw [namePiece, if_neg file, if_neg line, found]
          simp only [params, if_neg blocked]
        refine .inr ⟨fun plain => blocked (named ▸ (plain m found).1 params), fun u same => ?_⟩
        rw [read] at same
        cases same
    | some ps =>
      by_cases calls : callsAhead after = true
      · obtain ⟨tail, start⟩ := opens_of_callsAhead calls
        have read : (namePiece ctx macros disabled w after).1 =
            .invocation m ps (collectArgs tail).1 := by
          rw [namePiece, if_neg file, if_neg line, found]
          simp only [params, start]
        refine .inr ⟨fun plain => ?_, fun u same => ?_⟩
        · have uncalled := (plain m found).2 (by simp [params])
          rw [calls] at uncalled
          cases uncalled
        · rw [read] at same
          cases same
      · have read : namePiece ctx macros disabled w after = (.verbatim w, after) := by
          rw [namePiece, if_neg file, if_neg line, found]
          simp only [params]
          split
          · next tail start => simp [callsAhead, start] at calls
          · rfl
        refine .inl ⟨?_, .inr read⟩
        intro m' same
        obtain rfl : m = m' := Option.some.inj (found.symm.trans same)
        exact ⟨fun none => absurd (params.symm.trans none) (by simp), fun _ => by simpa using calls⟩

theorem nested_copies (ctx : ExpandContext) (macros : MacroTable) (disabled : List Text) :
    Copies (fun w after => .ok (namePiece ctx macros disabled w after))
      (NestedPlain macros disabled) := by
  constructor
  · intro w after nonempty
    by_cases file : w = "__FILE__".toList
    · have read : namePiece ctx macros disabled w after =
          (.verbatim (fileLiteral ctx.sourcePath), after) := if_pos file
      constructor
      · rintro ⟨u, rest, reads, same⟩
        rw [read] at reads
        cases reads
        exact absurd same (file_differs file)
      · exact fun plain => absurd file plain.1
    by_cases line : w = "__LINE__".toList
    · have read : namePiece ctx macros disabled w after =
          (.verbatim (toString ctx.currentLine).toList, after) := by
        rw [namePiece, if_neg file, if_pos line]
      constructor
      · rintro ⟨u, rest, reads, same⟩
        rw [read] at reads
        cases reads
        exact absurd same (line_differs line)
      · exact fun plain => absurd line plain.2.1
    obtain ⟨u, rest, plain, copied, -⟩ := plainName_copies w after
    rcases namePiece_cases after file line with ⟨free, read | read⟩ | ⟨replaced, other⟩
    · exact iff_of_true ⟨u, rest, by rw [read, plain], copied⟩ ⟨file, line, free⟩
    · exact iff_of_true ⟨w, after, by rw [read], rfl⟩ ⟨file, line, free⟩
    · apply iff_of_false
      · rintro ⟨u, rest, reads, -⟩
        apply other u
        rw [Except.ok.inj reads]
      · exact fun plain => replaced plain.2.2
  · intro w after u rest reads same
    have reads := Except.ok.inj reads
    by_cases file : w = "__FILE__".toList
    · have read : namePiece ctx macros disabled w after =
          (.verbatim (fileLiteral ctx.sourcePath), after) := if_pos file
      rw [read] at reads
      exact .inl (Prod.mk.inj reads).2.symm
    by_cases line : w = "__LINE__".toList
    · have read : namePiece ctx macros disabled w after =
          (.verbatim (toString ctx.currentLine).toList, after) := by
        rw [namePiece, if_neg file, if_pos line]
      rw [read] at reads
      exact .inl (Prod.mk.inj reads).2.symm
    obtain ⟨u', rest', plain, -, goesOn⟩ := plainName_copies w after
    rcases namePiece_cases after file line with ⟨-, read | read⟩ | ⟨-, other⟩
    · rw [read, plain] at reads
      rw [← (Prod.mk.inj reads).2]
      exact goesOn
    · rw [read] at reads
      exact .inl (Prod.mk.inj reads).2.symm
    · exact absurd (congrArg Prod.fst reads) (other u)

/-- A word that the loop over text lines does not copy is an expansion. -/
theorem lineName_replaced {w : Text} {after u rest : Text} (ordinary : w ∉ predefinedWords)
    (replaced : ¬ CopiedWord macros [] w after) :
    lineName ctx macros w after ≠ .ok (.verbatim u, rest) := by
  intro reads
  apply replaced
  intro m found
  rw [lineName_ordinary ordinary, found] at reads
  cases params : m.params with
  | none =>
    simp only [params] at reads
    cases reads
  | some ps =>
    refine ⟨fun none => absurd none (by simp), fun _ => ?_⟩
    cases calls : callsAhead after with
    | false => rfl
    | true =>
      obtain ⟨tail, start⟩ := opens_of_callsAhead calls
      simp only [params, start] at reads
      cases reads

/-- What the loop over text lines makes of a predefined word is not the word. -/
theorem lineName_predefined {w after u rest : Text} (predefined : w ∈ predefinedWords)
    (reads : lineName ctx macros w after = .ok (.verbatim u, rest)) : u ++ rest ≠ w ++ after := by
  by_cases file : w = "__FILE__".toList
  · have read : lineName ctx macros w after = .ok (.verbatim (fileLiteral ctx.sourcePath), after) :=
      if_pos file
    rw [read] at reads
    cases reads
    exact file_differs file
  by_cases line : w = "__LINE__".toList
  · have read : lineName ctx macros w after =
        .ok (.verbatim (toString ctx.currentLine).toList, after) := by
      rw [lineName, if_neg file, if_pos line]
    rw [read] at reads
    cases reads
    exact line_differs line
  have pragma : w = "_Pragma".toList := by
    simp only [predefinedWords, List.mem_cons, List.not_mem_nil, or_false, file, line,
      false_or] at predefined
    exact predefined
  have read : lineName ctx macros w after =
      (skipPragma after).map fun rest => (.verbatim [], rest) := by
    rw [lineName, if_neg file, if_neg line, if_pos pragma]
  rw [read] at reads
  cases skips : skipPragma after with
  | error message =>
    rw [skips] at reads
    cases reads
  | ok rest' =>
    rw [skips] at reads
    cases reads
    intro same
    have shorter := (skipPragma_suffix skips).length_le
    have length := congrArg List.length same
    rw [pragma, List.nil_append, List.length_append] at length
    have word : "_Pragma".toList.length = 7 := rfl
    omega

theorem line_copies (ctx : ExpandContext) (macros : MacroTable) :
    Copies (lineName ctx macros) (LinePlain macros) := by
  constructor
  · intro w after nonempty
    by_cases predefined : w ∈ predefinedWords
    · apply iff_of_false
      · rintro ⟨u, rest, reads, same⟩
        exact lineName_predefined predefined reads same
      · exact fun plain => plain.1 predefined
    by_cases copied : CopiedWord macros [] w after
    · exact iff_of_true ⟨w, after, lineName_plain predefined copied, rfl⟩ ⟨predefined, copied⟩
    · apply iff_of_false
      · rintro ⟨u, rest, reads, -⟩
        exact lineName_replaced predefined copied reads
      · exact fun plain => copied plain.2
  · intro w after u rest reads same
    have ordinary : w ∉ predefinedWords := fun predefined =>
      lineName_predefined predefined reads same
    have copied : CopiedWord macros [] w after := by
      by_contra replaced
      exact lineName_replaced ordinary replaced reads
    rw [lineName_plain ordinary copied] at reads
    cases reads
    exact .inl rfl

end Names

section Output

variable {macros : MacroTable} {stop : Nat} {s : Text}

/-- What a rescan copies is at the start of its output. -/
theorem Copied.nested {ctx : ExpandContext} {disabled : List Text}
    (copied : Copied (fun w after => .ok (namePiece ctx macros disabled w after)) stop s) :
    ∃ u t k, u ++ t = s ∧ t.length ≤ stop ∧ ∀ n rescanning,
      expandMacrosText ctx macros (n + k) disabled rescanning s =
        (expandMacrosText ctx macros n disabled rescanning t).andThen fun out =>
          .returns (u ++ out) := by
  induction copied with
  | reached short => exact ⟨[], _, 0, rfl, short, fun n rescanning => by simp⟩
  | @mark c s mark _ ih =>
    obtain ⟨u, t, k, rfl, short, runs⟩ := ih
    obtain ⟨noStart, noQuote, -⟩ := mark_facts mark
    refine ⟨c :: u, t, k + 1, rfl, short, fun n rescanning => ?_⟩
    have piece : nextPiece ctx macros disabled c (u ++ t) = (.verbatim [c], u ++ t) := by
      rw [nextPiece, if_neg (by simp [noQuote]), if_neg (by simp [noStart])]
    rw [← Nat.add_assoc, expandMacrosText_succ, piece, runs]
    simp [expandPiece, Run.andThen_assoc]
  | @word c s v rest start reads same _ ih =>
    obtain ⟨u, t, k, rfl, short, runs⟩ := ih
    obtain ⟨-, -, -, -, noQuote⟩ := start_facts start
    refine ⟨v ++ u, t, k + 1, by rw [List.append_assoc, same], short, fun n rescanning => ?_⟩
    have piece : nextPiece ctx macros disabled c s = (.verbatim v, u ++ t) := by
      rw [nextPiece, if_neg (by simp [noQuote]), if_pos start]
      exact Except.ok.inj reads
    rw [← Nat.add_assoc, expandMacrosText_succ, piece, runs]
    simp [expandPiece, Run.andThen_assoc]

/-- What the loop over text lines copies is at the start of its output. -/
theorem Copied.line {files : Files} {preprocessFile : FileReader} {path : Text} {fuel : Nat}
    {site : ExpandContext} (copied : Copied (lineName site macros) stop s) {st : Source}
    (rest : st.rest = s) (active : st.emitting = true) (table : st.macros = macros)
    (place : st.site path = site) :
    ∃ u st' k, u ++ st'.rest = s ∧ st'.rest.length ≤ stop ∧ ∀ n,
      preprocessLoop files preprocessFile path fuel (n + k) st =
        .after u (preprocessLoop files preprocessFile path fuel n st') := by
  induction copied generalizing st with
  | reached short => exact ⟨[], st, 0, rest, rest ▸ short, fun n => by simp⟩
  | @mark c s mark _ ih =>
    obtain ⟨noStart, noQuote, noSpace, -, noSlash, noHash⟩ := mark_facts mark
    obtain ⟨u, st', k, same, short, runs⟩ := @ih { st with rest := s, lineHasContent := true }
      rfl active table place
    refine ⟨c :: u, st', k + 1, congrArg (c :: ·) same, short, fun n => ?_⟩
    have step : preprocessStep files preprocessFile path fuel st c s =
        .returns (st.emit [c], { st with rest := s, lineHasContent := true }) :=
      step_other st noSpace (fun slash => absurd slash noSlash) (fun hash => absurd hash noHash)
        noQuote noStart
    rw [← Nat.add_assoc, preprocessLoop_succ, rest]
    simp only [step, Run.returns_andThen]
    rw [runs, Run.after_after, Source.emit, if_pos active]
    rfl
  | @word c s v rest' start reads same _ ih =>
    rw [← place, ← table] at reads
    have step : preprocessStep files preprocessFile path fuel st c s =
        (expandPiece (expandMacrosText (st.site path) st.macros fuel) [] [] (.verbatim v)).andThen
          fun out => .returns (out, st.afterName path (c :: s.takeWhile isIdentChar)
            (s.dropWhile isIdentChar) (.verbatim v) rest') := by
      rw [step_name st start, if_pos active, activeName_reads st reads]
    obtain ⟨u, st', k, same', short, runs⟩ := @ih (st.afterName path
      (c :: s.takeWhile isIdentChar) (s.dropWhile isIdentChar) (.verbatim v) rest')
      rfl active table place
    refine ⟨v ++ u, st', k + 1, by rw [List.append_assoc, same', same], short, fun n => ?_⟩
    rw [← Nat.add_assoc, preprocessLoop_succ, rest]
    simp only [step, expandPiece, Run.returns_andThen]
    rw [runs, Run.after_after]

end Output

theorem mark_of_startsNumber {c : Char} {s : Text} (number : startsNumber (c :: s) = true) :
    isMark c = true := by
  simp only [startsNumber, Bool.or_eq_true, Bool.and_eq_true] at number
  simp only [isMark, Bool.or_eq_true]
  rcases number with digit | ⟨dot, -⟩
  · exact .inl (.inl digit)
  · exact .inl (.inr dot)

section Substitution

variable {bindings : List Binding} {out : Text} {pasteNext : Bool} {c : Char} {s : Text}

theorem substitute_mark (mark : isMark c = true) :
    substituteArgsLoop bindings out pasteNext (c :: s) =
      substituteArgsLoop bindings (out ++ [c]) false s := by
  obtain ⟨noStart, noQuote, -, -, -, noHash⟩ := mark_facts mark
  rw [substituteArgsLoop, if_neg (by simp [noQuote]), if_neg fun h => noHash h.1, if_neg noHash,
    if_neg (by simp [noStart])]

theorem substitute_word (start : isIdentStart c = true)
    (none : bindings.find? (fun b => b.param = c :: s.takeWhile isIdentChar) = none) :
    substituteArgsLoop bindings out pasteNext (c :: s) =
      substituteArgsLoop bindings (out ++ c :: s.takeWhile isIdentChar) false
        (s.dropWhile isIdentChar) := by
  obtain ⟨-, -, -, noHash, noQuote⟩ := start_facts start
  rw [substituteArgsLoop, if_neg (by simp [noQuote]), if_neg fun h => noHash h.1, if_neg noHash,
    if_pos start]
  simp only [none]

theorem substitute_param {b : Binding} (start : isIdentStart c = true)
    (found : bindings.find? (fun b => b.param = c :: s.takeWhile isIdentChar) = some b) :
    substituteArgsLoop bindings out pasteNext (c :: s) =
      substituteArgsLoop bindings (out ++ if pasteNext then b.raw else b.expanded) false
        (s.dropWhile isIdentChar) := by
  obtain ⟨-, -, -, noHash, noQuote⟩ := start_facts start
  rw [substituteArgsLoop, if_neg (by simp [noQuote]), if_neg fun h => noHash h.1, if_neg noHash,
    if_pos start]
  simp only [found]

/-- The expanded argument for a parameter; any other name stands for itself. -/
def expandedName (bindings : List Binding) (name : Text) : Text :=
  ((bindings.find? fun b => b.param = name).map Binding.expanded).getD name

/-- What substitution makes of a number: the parameters among its words are replaced. -/
def numberText (bindings : List Binding) : Text → Text
  | [] => []
  | c :: s =>
    if isIdentStart c then
      expandedName bindings (c :: s.takeWhile isIdentChar) ++
        numberText bindings (s.dropWhile isIdentChar)
    else c :: numberText bindings s
  termination_by s => s.length
  decreasing_by
    · have := dropWhile_length_le isIdentChar s
      simp only [List.length_cons]
      omega
    · simp

theorem numberText_mark (noStart : isIdentStart c = false) :
    numberText bindings (c :: s) = c :: numberText bindings s := by
  rw [numberText, if_neg (by simp [noStart])]

theorem numberText_word (start : isIdentStart c = true) :
    numberText bindings (c :: s) =
      expandedName bindings (c :: s.takeWhile isIdentChar) ++
        numberText bindings (s.dropWhile isIdentChar) := by
  rw [numberText, if_pos start]

theorem substitute_name (start : isIdentStart c = true) :
    substituteArgsLoop bindings out false (c :: s) =
      substituteArgsLoop bindings (out ++ expandedName bindings (c :: s.takeWhile isIdentChar)) false
        (s.dropWhile isIdentChar) := by
  cases found : bindings.find? (fun b => b.param = c :: s.takeWhile isIdentChar) with
  | none => rw [substitute_word start found, expandedName, found, Option.map_none, Option.getD_none]
  | some b =>
    rw [substitute_param start found, expandedName, found, Option.map_some, Option.getD_some]
    rfl

/-- Substitution reads a number whole. -/
theorem substitute_tail {prev : Char} {t rest : Text} (ends : EndsNumber prev t rest) (out : Text) :
    substituteArgsLoop bindings out false (t ++ rest) =
      substituteArgsLoop bindings (out ++ numberText bindings t) false rest := by
  induction length : t.length using Nat.strongRecOn generalizing prev t out with
  | ind n ih =>
  subst length
  cases t with
  | nil =>
    rw [numberText]
    simp
  | cons c t =>
    obtain ⟨more, tail⟩ := endsNumber_cons.mp ends
    cases start : isIdentStart c with
    | false =>
      rw [List.cons_append, substitute_mark (mark_of_continues more start),
        ih t.length (Nat.lt_succ_self _) tail _ rfl, numberText_mark start]
      simp
    | true =>
      obtain ⟨⟨last, tail⟩, word⟩ := tail.word
      have isWord : isWord (c :: t.takeWhile isIdentChar) = true := by
        rw [Preprocessor.isWord, start, Bool.true_and]
        exact List.all_takeWhile
      have split : t ++ rest =
          t.takeWhile isIdentChar ++ (t.dropWhile isIdentChar ++ rest) := by
        rw [← List.append_assoc, List.takeWhile_append_dropWhile]
      obtain ⟨front, back⟩ := splitWord isWord word
      have shorter := dropWhile_length_le isIdentChar t
      rw [List.cons_append, substitute_name start, split, front, back,
        ih _ (Nat.lt_succ_of_le shorter) tail _ rfl, numberText_word start, List.append_assoc]

theorem numberText_plain {t : Text}
    (plain : ∀ p ∈ scannedWords t, p.1 ∉ bindings.map Binding.param) : numberText bindings t = t := by
  fun_induction numberText bindings t with
  | case1 => rfl
  | case2 c s start ih =>
    rw [scannedWords_start start, List.forall_mem_cons] at plain
    have none : bindings.find? (fun b => b.param = c :: s.takeWhile isIdentChar) = none := by
      apply List.find?_eq_none.mpr
      intro b member same
      apply plain.1
      rw [← of_decide_eq_true same]
      exact List.mem_map_of_mem member
    rw [ih plain.2, expandedName, none, Option.map_none, Option.getD_none, List.cons_append,
      List.takeWhile_append_dropWhile]
  | case3 c s noStart ih =>
    rw [scannedWords_mark (by simpa using noStart)] at plain
    rw [ih plain]

/-- With empty arguments the parameters among the words are lost. -/
theorem numberText_empty {t : Text} (empty : ∀ b ∈ bindings, b.expanded = []) :
    (numberText bindings t).length ≤ t.length ∧
      ∀ p ∈ scannedWords t, p.1 ∈ bindings.map Binding.param →
        (numberText bindings t).length < t.length := by
  fun_induction numberText bindings t with
  | case1 =>
    rw [scannedWords]
    simp
  | case2 c s start ih =>
    have whole : (s.takeWhile isIdentChar).length + (s.dropWhile isIdentChar).length = s.length := by
      rw [← List.length_append, List.takeWhile_append_dropWhile]
    rw [scannedWords_start start, List.length_append, List.length_cons]
    cases found : bindings.find? (fun b => b.param = c :: s.takeWhile isIdentChar) with
    | none =>
      rw [expandedName, found, Option.map_none, Option.getD_none, List.length_cons]
      refine ⟨by omega, fun p member param => ?_⟩
      rcases List.mem_cons.mp member with rfl | member
      · obtain ⟨b, inside, same⟩ := List.mem_map.mp param
        exact absurd (decide_eq_true same) (List.find?_eq_none.mp found b inside)
      · have smaller := ih.2 p member param
        omega
    | some b =>
      rw [expandedName, found, Option.map_some, Option.getD_some,
        empty b (List.mem_of_find?_eq_some found), List.length_nil]
      exact ⟨by omega, fun p member param => by omega⟩
  | case3 c s noStart ih =>
    rw [scannedWords_mark (by simpa using noStart)]
    exact ⟨Nat.succ_le_succ ih.1, fun p member param => Nat.succ_lt_succ (ih.2 p member param)⟩

/-- Behind its first character a number is read as any text. -/
theorem substitute_number {s : Text} (number : startsNumber s = true) :
    substituteArgsLoop bindings out pasteNext s =
      substituteArgsLoop bindings (out ++ numberText bindings (takeNumber s).1) false
        (takeNumber s).2 := by
  cases s with
  | nil => cases number
  | cons c s =>
    have mark := mark_of_startsNumber number
    obtain ⟨ends, whole⟩ := numberTail_ends c s
    have inner : substituteArgsLoop bindings (out ++ [c]) false
        ((numberTail c s).1 ++ (numberTail c s).2) = _ := substitute_tail ends (out ++ [c])
    rw [whole] at inner
    rw [substitute_mark mark, inner, takeNumber, numberText_mark (mark_facts mark).1]
    simp

end Substitution

/-- A rescan copies the number at the start of the text. -/
structure RescanKeeps (ctx : ExpandContext) (macros : MacroTable) (disabled : List Text) (s : Text) :
    Prop where
  copied : Copied (fun w after => .ok (namePiece ctx macros disabled w after))
    (takeNumber s).2.length s
  output : ∃ u t k, (takeNumber s).1 <+: u ∧ u ++ t = s ∧ ∀ n rescanning,
    expandMacrosText ctx macros (n + k) disabled rescanning s =
      (expandMacrosText ctx macros n disabled rescanning t).andThen fun out => .returns (u ++ out)

/-- The loop over text lines copies the number at the start of the text. -/
structure LineKeeps (ctx : ExpandContext) (macros : MacroTable) (s : Text) : Prop where
  copied : Copied (lineName ctx macros) (takeNumber s).2.length s
  output : ∀ files preprocessFile path fuel (st : Source), st.rest = s → st.emitting = true →
    st.macros = macros → st.site path = ctx →
    ∃ u st' k, (takeNumber s).1 <+: u ∧ u ++ st'.rest = s ∧ ∀ n,
      preprocessLoop files preprocessFile path fuel (n + k) st =
        .after u (preprocessLoop files preprocessFile path fuel n st')

/-- Whatever the arguments, the number is copied from a replacement list. -/
def SubstitutionKeeps (params : List Text) (number : Text) : Prop :=
  ∀ bindings : List Binding, bindings.map Binding.param = params → ∀ out pasteNext rest,
    takeNumber (number ++ rest) = (number, rest) →
    substituteArgsLoop bindings out pasteNext (number ++ rest) =
      substituteArgsLoop bindings (out ++ number) false rest

theorem takeNumber_ends {s : Text} (number : startsNumber s = true) :
    EndsNumber '0' (takeNumber s).1 (takeNumber s).2 ∧
      (takeNumber s).1 ++ (takeNumber s).2 = s := by
  cases s with
  | nil => cases number
  | cons c s =>
    obtain ⟨ends, whole⟩ := numberTail_ends c s
    have more : continues '0' c = true := by
      simp only [startsNumber, Bool.or_eq_true, Bool.and_eq_true] at number
      simp only [continues, isIdentChar, Char.isAlphanum, Bool.or_eq_true]
      rcases number with digit | ⟨dot, -⟩
      · exact .inl (.inl (.inl (.inr digit)))
      · exact .inl (.inr dot)
    exact ⟨endsNumber_cons.mpr ⟨more, ends⟩, congrArg (c :: ·) whole⟩

theorem prefix_of_copied {number rest u t : Text} (same : u ++ t = number ++ rest)
    (short : t.length ≤ rest.length) : number <+: u := by
  have total := congrArg List.length same
  rw [List.length_append, List.length_append] at total
  exact List.prefix_of_prefix_length_le ⟨rest, rfl⟩ ⟨t, same⟩ (by omega)

theorem EndsNumber.alone {prev : Char} {t rest : Text} (ends : EndsNumber prev t rest) :
    EndsNumber prev t [] := by
  induction t generalizing prev with
  | nil => rfl
  | cons c t ih =>
    obtain ⟨more, tail⟩ := endsNumber_cons.mp ends
    exact endsNumber_cons.mpr ⟨more, ih tail⟩

theorem substitutionKeeps_iff {s : Text} (number : startsNumber s = true) (params : List Text) :
    SubstitutionKeeps params (takeNumber s).1 ↔
      ∀ p ∈ scannedWords (takeNumber s).1, p.1 ∉ params := by
  cases s with
  | nil => cases number
  | cons c s =>
    have mark := mark_of_startsNumber number
    obtain ⟨ends, -⟩ := numberTail_ends c s
    -- The first character is no word, so that the rest is read with no `##` in front of it.
    have reads : ∀ {bindings : List Binding} {rest : Text}, EndsNumber c (numberTail c s).1 rest →
        ∀ out pasteNext, substituteArgsLoop bindings out pasteNext (c :: (numberTail c s).1 ++ rest) =
          substituteArgsLoop bindings (out ++ numberText bindings (c :: (numberTail c s).1)) false
            rest := by
      intro bindings rest ends out pasteNext
      rw [List.cons_append, substitute_mark mark, substitute_tail ends,
        numberText_mark (mark_facts mark).1]
      simp
    constructor
    · intro keeps p member param
      have alone : takeNumber (c :: (numberTail c s).1 ++ []) = (c :: (numberTail c s).1, []) := by
        have tail : numberTail c ((numberTail c s).1 ++ []) = ((numberTail c s).1, []) := ends.alone
        rw [List.cons_append, takeNumber, tail]
      have names : (params.map fun w => (⟨w, [], []⟩ : Binding)).map Binding.param = params := by
        rw [List.map_map]
        exact List.map_id params
      have empty : ∀ b ∈ params.map fun w => (⟨w, [], []⟩ : Binding), b.expanded = [] := by
        intro b inside
        obtain ⟨w, -, rfl⟩ := List.mem_map.mp inside
        rfl
      have same := keeps _ names [] false [] alone
      rw [takeNumber, reads ends.alone, substituteArgsLoop, substituteArgsLoop] at same
      have shorter := (numberText_empty empty).2 p member (by rw [names]; exact param)
      have equal : numberText (params.map fun w => ⟨w, [], []⟩) (c :: (numberTail c s).1) =
          c :: (numberTail c s).1 := by simpa using same
      rw [takeNumber, equal] at shorter
      exact absurd shorter (Nat.lt_irrefl _)
    · rintro plain bindings rfl out pasteNext rest alone
      rw [takeNumber, List.cons_append, takeNumber] at alone
      obtain ⟨front, back⟩ := Prod.mk.inj alone
      have whole : EndsNumber c (numberTail c s).1 rest := Prod.ext (List.cons.inj front).2 back
      rw [takeNumber] at plain ⊢
      rw [reads whole, numberText_plain plain]

/-- A preprocessing number goes through a rescan, a text line or a substitution unchanged exactly
when no word inside of it is expanded there, or names a parameter. -/
theorem number_kept_iff (s : Text) (number : startsNumber s = true) :
    (∀ ctx macros disabled, RescanKeeps ctx macros disabled s ↔
        ∀ p ∈ scannedWords (takeNumber s).1,
          NestedPlain macros disabled p.1 (p.2 ++ (takeNumber s).2)) ∧
      (∀ ctx macros, LineKeeps ctx macros s ↔
        ∀ p ∈ scannedWords (takeNumber s).1, LinePlain macros p.1 (p.2 ++ (takeNumber s).2)) ∧
      ∀ params, SubstitutionKeeps params (takeNumber s).1 ↔
        ∀ p ∈ scannedWords (takeNumber s).1, p.1 ∉ params := by
  obtain ⟨ends, whole⟩ := takeNumber_ends number
  refine ⟨fun ctx macros disabled => ?_, fun ctx macros => ?_, substitutionKeeps_iff number⟩
  · have copied := copied_iff (nested_copies ctx macros disabled) ends
    rw [whole] at copied
    rw [← copied]
    constructor
    · exact RescanKeeps.copied
    · intro copied
      obtain ⟨u, t, k, same, short, runs⟩ := copied.nested
      exact ⟨copied, u, t, k, prefix_of_copied (same.trans whole.symm) short, same, runs⟩
  · have copied := copied_iff (line_copies ctx macros) ends
    rw [whole] at copied
    rw [← copied]
    constructor
    · exact LineKeeps.copied
    · intro copied
      refine ⟨copied, fun files preprocessFile path fuel st rest active table place => ?_⟩
      obtain ⟨u, st', k, same, short, runs⟩ := copied.line rest active table place
      exact ⟨u, st', k, prefix_of_copied (same.trans whole.symm) short, same, runs⟩

theorem suffixed_number_kept :
    (∀ ctx macros disabled, RescanKeeps ctx macros disabled "10L;".toList ↔
        ∀ p ∈ scannedWords (takeNumber "10L;".toList).1,
          NestedPlain macros disabled p.1 (p.2 ++ (takeNumber "10L;".toList).2)) ∧
      (∀ ctx macros, LineKeeps ctx macros "10L;".toList ↔
        ∀ p ∈ scannedWords (takeNumber "10L;".toList).1,
          LinePlain macros p.1 (p.2 ++ (takeNumber "10L;".toList).2)) ∧
      ∀ params, SubstitutionKeeps params (takeNumber "10L;".toList).1 ↔
        ∀ p ∈ scannedWords (takeNumber "10L;".toList).1, p.1 ∉ params :=
  number_kept_iff "10L;".toList rfl

/-- With a macro `L` the number `10L` becomes `105`, and with a parameter `x` the number `1x`
becomes `17`. -/
theorem number_letters_replaced :
    takeNumber "10L".toList = ("10L".toList, []) ∧
      (expandMacrosText ⟨[], 1⟩ [⟨['L'], none, false, ['5']⟩] 6 [] [] "10L".toList).Returns
        "105".toList ∧
      takeNumber "1x".toList = ("1x".toList, []) ∧
      substituteArgs "1x".toList [⟨['x'], ['7'], ['7']⟩] = .ok "17".toList := by
  refine ⟨rfl, ⟨_, rfl⟩, rfl, ?_⟩
  have mark : isMark '1' = true := rfl
  have start : isIdentStart 'x' = true := rfl
  have found : [(⟨['x'], ['7'], ['7']⟩ : Binding)].find?
      (fun b => b.param = 'x' :: ([] : Text).takeWhile isIdentChar) = some ⟨['x'], ['7'], ['7']⟩ := rfl
  change substituteArgsLoop _ [] false ['1', 'x'] = _
  rw [substitute_mark mark, substitute_param start found]
  rw [List.dropWhile_nil, substituteArgsLoop]
  rfl

end ClaudeC99.Preprocessor
