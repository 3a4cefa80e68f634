import ClaudeC99.Constant.Typed
import ClaudeC99.Literals.Integers

/-! Conditions as they stand in the text, and the evaluator of conditions on them. -/

namespace ClaudeC99.Constant

open Front (digit_cases)
open IntArith (IntType)
open Literals (Digits IntConstant)
open Numeral (isHexDigit digitsValue)
open Precedence
open Preprocessor

def intmax (signed : Bool) : IntType := ⟨.long, signed, by simp⟩

/-- What the evaluator of conditions takes the digits for: it has no octal constants. -/
def condDigits : Digits → Nat
  | .decimal first rest _ _ => digitsValue 10 (first :: rest)
  | .octal rest _ => digitsValue 10 ('0' :: rest)
  | .hex _ digits _ _ => digitsValue 16 digits

/-- The type of a constant where all integer types act as `intmax_t` and `uintmax_t`. -/
def condType (c : IntConstant) : Option IntType :=
  (c.spelling.candidates.map fun t => intmax t.signed).find? fun t => t.Holds c.digits.value

def condConstant (c : IntConstant) : Operand where
  type := (condType c).getD (intmax true)
  value := (condType c).map fun _ => (c.digits.value : Int)
  read := .ok (wrap64 (condDigits c.digits))

def condDefined (macros : MacroTable) (name : Text) : Operand where
  type := intmax true
  value := some (definedValue macros name)
  read := .ok (definedValue macros name)

/-- C99 replaces a name that is left by 0. -/
def condLeft (macros : MacroTable) (name : Text) : Operand where
  type := intmax true
  value := some 0
  read := (condName macros name).mapError fun _ => .unread

/-- C99 allows character constants in conditions. -/
def condCharacter (v : Int) : Operand where
  type := intmax true
  value := some v
  read := .error .unread

def definedKeyword : Text := ['d', 'e', 'f', 'i', 'n', 'e', 'd']

structure IsName (name : Text) : Prop where
  start : ∃ c rest, name = c :: rest ∧ isIdentStart c = true
  all : ∀ c ∈ name, isIdentChar c = true

def Blanks (s : Text) : Prop := ∀ c ∈ s, isBlank c = true

/-- What comes right after a name does not go on with it. -/
def NameEnds (t : Text) : Prop := ∀ c ∈ t.head?, isIdentChar c = false

/-- A text starts with an operand, and what comes after it. -/
inductive CondOperand (macros : MacroTable) : Text → Operand → Text → Prop
  | integer (c : IntConstant) {t : Text} (ends : NumberEnds t) :
      CondOperand macros (c.text ++ t) (condConstant c) t
  | name {name t : Text} (isName : IsName name) (other : name ≠ definedKeyword)
      (ends : NameEnds t) : CondOperand macros (name ++ t) (condLeft macros name) t
  | defined {name blanks t : Text} (isName : IsName name) (some : blanks ≠ [])
      (blank : Blanks blanks) (ends : NameEnds t) :
      CondOperand macros (definedKeyword ++ (blanks ++ (name ++ t))) (condDefined macros name) t
  | definedParen {name before inside after t : Text} (isName : IsName name)
      (blankBefore : Blanks before) (blankInside : Blanks inside) (blankAfter : Blanks after) :
      CondOperand macros
        (definedKeyword ++ (before ++ '(' :: (inside ++ (name ++ (after ++ ')' :: t)))))
        (condDefined macros name) t
  | character (v : Int) (body : Text) {t : Text} :
      CondOperand macros ('\'' :: (body ++ '\'' :: t)) (condCharacter v) t

/-- A word of a condition and the blanks after it. -/
inductive CondStep (macros : MacroTable) : Text → Precedence.Word Operand Prefix BinaryOp → Text → Prop
  | atom {s t : Text} {a : Operand} (operand : CondOperand macros s a t) :
      CondStep macros s (.atom a) (t.dropWhile isBlank)
  | unary (op : UnaryOp) (t : Text) :
      CondStep macros (unaryChar op :: t) (.unary (.op op)) (t.dropWhile isBlank)
  | binary (op : BinaryOp) {t : Text} (joins : Joins t) :
      CondStep macros (binaryText op ++ t) (.binary op) (t.dropWhile isBlank)
  | openParen (t : Text) : CondStep macros ('(' :: t) .openParen (t.dropWhile isBlank)
  | closeParen (t : Text) : CondStep macros (')' :: t) .closeParen (t.dropWhile isBlank)
  | question (t : Text) : CondStep macros ('?' :: t) .question (t.dropWhile isBlank)
  | colon (t : Text) : CondStep macros (':' :: t) .colon (t.dropWhile isBlank)

/-- The values that both arithmetics give. -/
def longMeaning : Meaning Int Operand Prefix BinaryOp where
  atom a := a.read.toOption
  unary p v := some (prefixLong p v)
  binary op v w := (divideLong op v w).toOption
  conditional c t e := if c ≠ 0 then t else e

/-- Conditions over any operands and with any blanks. -/
def condExprs (macros : MacroTable) : Ladder Text String Int Operand Prefix BinaryOp where
  toGrammar := grammar
  meaning := longMeaning
  Step := CondStep macros
  settle := List.dropWhile isBlank
  size := List.length
  next k := nextCondOp (condOperator k)
  asks s := s.head? = some '?'
  apply := applyCondOp
  read := condRead macros

def divisionByZero : String := "error: division by zero in preprocessor expression"

def moduloByZero : String := "error: modulo by zero in preprocessor expression"

/-- The messages for a fault. -/
def CondReport : Fault → String → Prop
  | .division, m => m = divisionByZero ∨ m = moduloByZero
  | .unread, m => ¬ (m = divisionByZero ∨ m = moduloByZero)

/-! ### Operands -/

theorem condNumber_constant (c : IntConstant) {t : Text} (ends : NumberEnds t) :
    condNumber (c.text ++ t) = (wrap64 (condDigits c.digits), t) := by
  have stop := Literals.after_digits (c := c) ends
  have noDigit := Literals.not_digit_after (c := c) ends
  have suffix : (c.suffix ++ t).dropWhile isSuffixLetter = t := by
    apply (takeWhile_append_of_head _ ends.not_suffix).2
    intro d member
    rw [← suffixChar_of_suffix]
    exact Literals.suffix_chars c.valid d member
  have decimal (digits : Text) (all : ∀ d ∈ digits, d.isDigit) :
      (wrap64 (digitsValue 10 ((digits ++ (c.suffix ++ t)).takeWhile Char.isDigit)),
        ((digits ++ (c.suffix ++ t)).dropWhile Char.isDigit).dropWhile isSuffixLetter) =
      (wrap64 (digitsValue 10 digits), t) := by
    have run := takeWhile_append_of_head all noDigit
    rw [run.1, run.2, suffix]
  rw [IntConstant.text, List.append_assoc]
  cases digits : c.digits with
  | hex upper hexDigits some all =>
    have run := takeWhile_append_of_head all fun d head => (stop d head).1
    have isX : (if upper then 'X' else 'x') = 'x' ∨ (if upper then 'X' else 'x') = 'X' := by
      cases upper <;> simp
    simp only [Digits.text, List.cons_append, condNumber, if_pos isX, run, suffix, condDigits]
  | decimal first rest nonzero all =>
    have allDigits : ∀ d ∈ first :: rest, d.isDigit := by
      intro d member
      rcases List.mem_cons.mp member with rfl | later
      · exact nonzero.1
      · exact all d later
    have value := decimal (first :: rest) allDigits
    rw [Digits.text, condDigits, condNumber]
    · exact value
    · intro d after same
      exact nonzero.2 (List.cons.inj same).1
  | octal rest all =>
    have allDigits : ∀ d ∈ '0' :: rest, d.isDigit := by
      intro d member
      rcases List.mem_cons.mp member with rfl | later
      · rfl
      · exact digit_of_octal (all d later)
    have value := decimal ('0' :: rest) allDigits
    rw [Digits.text, condDigits]
    unfold condNumber
    split
    · rename_i d after same
      have noMark : ¬ (d = 'x' ∨ d = 'X') := by
        cases rest with
        | nil =>
          have head : d ∈ (c.suffix ++ t).head? := by
            rw [List.cons_append, List.nil_append, List.cons.injEq] at same
            rw [same.2]
            rfl
          exact fun mark => mark.elim (stop d head).2.2.1 (stop d head).2.2.2
        | cons e es =>
          cases same
          have octal := octal_cases (all d List.mem_cons_self)
          rcases octal with rfl | rfl | rfl | rfl | rfl | rfl | rfl | rfl <;> decide
      rw [if_neg noMark]
      exact value
    · exact value

section Names

variable {name t : Text}

theorem identChar_of_start {c : Char} (start : isIdentStart c = true) : isIdentChar c = true := by
  simp only [isIdentStart, isIdentChar, Char.isAlphanum, Bool.or_eq_true] at start ⊢
  exact start.imp .inl id

theorem not_blank_of_ident {c : Char} (ident : isIdentChar c = true) : isBlank c = false := by
  cases blank : isBlank c with
  | false => rfl
  | true =>
    have cases : c = ' ' ∨ c = '\t' := by simpa [isBlank] using blank
    rcases cases with rfl | rfl <;> cases ident

theorem start_not_digit {c : Char} (start : isIdentStart c = true) : c.isDigit = false := by
  cases digit : c.isDigit with
  | false => rfl
  | true =>
    rcases digit_cases digit with rfl | rfl | rfl | rfl | rfl | rfl | rfl | rfl | rfl | rfl
    all_goals cases start

theorem start_operand {c : Char} (start : isIdentStart c = true) :
    condUnaryOp c = none ∧ c ≠ '(' := by
  constructor
  · unfold condUnaryOp
    split <;> first | rfl | cases start
  · rintro rfl
    cases start

theorem name_run (isName : IsName name) (ends : NameEnds t) :
    (name ++ t).takeWhile isIdentChar = name ∧ (name ++ t).dropWhile isIdentChar = t :=
  takeWhile_append_of_head isName.all ends

theorem blanks_run {blanks : Text} (blank : Blanks blanks)
    (stop : ∀ c ∈ t.head?, isBlank c = false) : (blanks ++ t).dropWhile isBlank = t :=
  (takeWhile_append_of_head blank stop).2

theorem name_head (isName : IsName name) (rest : Text) :
    ∀ c ∈ (name ++ rest).head?, isBlank c = false := by
  obtain ⟨c, after, rfl, start⟩ := isName.start
  intro d head
  cases head
  exact not_blank_of_ident (identChar_of_start start)

theorem nameEnds_of_blanks {blanks : Text} (blank : Blanks blanks) (ends : NameEnds t) :
    NameEnds (blanks ++ t) := by
  cases blanks with
  | nil => exact ends
  | cons b rest =>
    intro c head
    cases head
    cases ident : isIdentChar b with
    | false => rfl
    | true => exact absurd (blank b List.mem_cons_self) (by simp [not_blank_of_ident ident])

theorem nameEnds_cons {c : Char} (plain : isIdentChar c = false) : NameEnds (c :: t) := by
  intro d head
  cases head
  exact plain

theorem dropKeyword_defined (ends : NameEnds t) :
    dropKeyword definedKeyword (definedKeyword ++ t) = some t := by
  have plain : t.head?.any isIdentChar = false := by
    cases t with
    | nil => rfl
    | cons c rest => exact ends c rfl
  have isPrefix : definedKeyword.isPrefixOf (definedKeyword ++ t) = true :=
    List.isPrefixOf_iff_prefix.mpr (List.prefix_append _ _)
  rw [dropKeyword, List.drop_left, plain, isPrefix]
  rfl

theorem dropKeyword_name (isName : IsName name) (other : name ≠ definedKeyword)
    (ends : NameEnds t) : dropKeyword definedKeyword (name ++ t) = none := by
  unfold dropKeyword
  dsimp only
  split
  · rename_i found
    rw [Bool.and_eq_true, Bool.not_eq_true'] at found
    obtain ⟨isPrefix, plain⟩ := found
    obtain ⟨after, same⟩ := List.isPrefixOf_iff_prefix.mp isPrefix
    rw [← same, List.drop_left] at plain
    have stop : NameEnds after := by
      intro c head
      simpa [Option.mem_def.mp head] using plain
    have keyword : ∀ c ∈ definedKeyword, isIdentChar c = true := List.all_eq_true.mp rfl
    have longest := (takeWhile_append_of_head keyword stop).1
    rw [same, (name_run isName ends).1] at longest
    exact absurd longest other
  · rfl

theorem evalDefined_name (macros : MacroTable) {blanks : Text} (isName : IsName name)
    (blank : Blanks blanks) (ends : NameEnds t) :
    evalDefined macros (blanks ++ (name ++ t)) = .ok (definedValue macros name, t) := by
  have run := name_run isName ends
  have skipped := blanks_run blank (name_head isName t)
  obtain ⟨c, rest, same, start⟩ := isName.start
  have cons : name ++ t = c :: (rest ++ t) := by rw [same, List.cons_append]
  rw [cons] at run skipped
  unfold evalDefined
  rw [cons, skipped]
  dsimp only
  rw [if_neg (start_operand start).2, if_pos start, run.1, run.2]

theorem evalDefined_paren (macros : MacroTable) {before inside after : Text} (isName : IsName name)
    (blankBefore : Blanks before) (blankInside : Blanks inside) (blankAfter : Blanks after) :
    evalDefined macros (before ++ '(' :: (inside ++ (name ++ (after ++ ')' :: t)))) =
      .ok (definedValue macros name, t) := by
  have opened := blanks_run blankBefore (t := '(' :: (inside ++ (name ++ (after ++ ')' :: t))))
    (by simp [isBlank])
  have entered := blanks_run blankInside (name_head isName (after ++ ')' :: t))
  have run := name_run isName (nameEnds_of_blanks blankAfter (nameEnds_cons (c := ')') (t := t) rfl))
  have left := blanks_run blankAfter (t := ')' :: t) (by simp [isBlank])
  unfold evalDefined
  rw [opened]
  simp only [if_true, entered, run, left]

end Names

/-- The first character of an operand. -/
theorem condOperand_head {macros : MacroTable} {s t : Text} {a : Operand}
    (operand : CondOperand macros s a t) :
    ∃ c rest, s = c :: rest ∧ isBlank c = false ∧ condUnaryOp c = none := by
  cases operand with
  | integer c ends =>
    have digit : ∃ d rest, c.digits.text = d :: rest ∧ d.isDigit := by
      cases c.digits with
      | decimal first rest nonzero all => exact ⟨first, rest, rfl, nonzero.1⟩
      | octal rest all => exact ⟨'0', rest, rfl, rfl⟩
      | hex upper digits some all => exact ⟨'0', _, rfl, rfl⟩
    obtain ⟨d, rest, same, digit⟩ := digit
    refine ⟨d, rest ++ (c.suffix ++ t), ?_, not_blank_of_digit digit, operand_of_digit digit⟩
    rw [IntConstant.text, same, List.append_assoc, List.cons_append]
  | name isName other ends =>
    obtain ⟨c, rest, rfl, start⟩ := isName.start
    exact ⟨c, rest ++ t, rfl, not_blank_of_ident (identChar_of_start start),
      (start_operand start).1⟩
  | defined => exact ⟨_, _, rfl, rfl, rfl⟩
  | definedParen => exact ⟨_, _, rfl, rfl, rfl⟩
  | character => exact ⟨_, _, rfl, rfl, rfl⟩

theorem notAnOperand_unread : CondReport .unread notAnOperand := by
  intro division
  simp [notAnOperand, divisionByZero, moduloByZero] at division

theorem condName_unread {macros : MacroTable} {name : Text} {m : String}
    (failed : condName macros name = .error m) : CondReport .unread m := by
  unfold condName at failed
  split at failed
  · cases failed
  · split at failed
    · cases failed
    · simp only at failed
      split at failed <;>
        (dsimp only at failed
         split at failed
         · cases failed
         · cases failed
           intro division
           simp [divisionByZero, moduloByZero] at division)

section Reading

variable {macros : MacroTable} {self : CondReader}

theorem evalCondPrimary_of_keyword {s : Text} {c : Char} (rest : Text) (start : s = c :: rest)
    (plain : isBlank c = false) {after : Text}
    (keyword : dropKeyword definedKeyword s = some after) :
    evalCondPrimary macros self s = evalDefined macros after := by
  subst start
  unfold evalCondPrimary
  rw [List.dropWhile_cons_of_neg (by simp [plain])]
  dsimp only
  rw [show ['d', 'e', 'f', 'i', 'n', 'e', 'd'] = definedKeyword from rfl, keyword]

variable (self) in
/-- An operand is read as what it is taken for. -/
theorem evalCondPrimary_operand {s t : Text} {a : Operand} (operand : CondOperand macros s a t) :
    (condExprs macros).Ends CondReport (evalCondPrimary macros self) s a.read
      (t.dropWhile isBlank) := by
  obtain ⟨first, behind, start, plain, -⟩ := condOperand_head operand
  cases operand with
  | integer c ends =>
    have number := condNumber_constant c ends
    have digit : first.isDigit := by
      rw [IntConstant.text, List.append_assoc] at start
      cases digits : c.digits with
      | decimal d rest nonzero all =>
        rw [digits] at start
        cases start
        exact nonzero.1
      | octal rest all =>
        rw [digits] at start
        cases start
        rfl
      | hex upper digits' some all =>
        rw [digits] at start
        cases start
        rfl
    refine ⟨t, ?_, rfl⟩
    rw [start] at number ⊢
    rw [evalCondPrimary_digit macros self _ digit, number]
  | name isName other ends =>
    rename_i name
    have keyword := dropKeyword_name isName other ends
    have run := name_run isName ends
    obtain ⟨c, rest, rfl, isStart⟩ := isName.start
    have read : evalCondPrimary macros self (c :: rest ++ t) =
        (condName macros (c :: rest)).bind fun v => .ok (v, t) := by
      rw [List.cons_append] at keyword run ⊢
      have head := not_blank_of_ident (identChar_of_start isStart)
      unfold evalCondPrimary
      rw [List.dropWhile_cons_of_neg (by simp [head])]
      dsimp only
      rw [show ['d', 'e', 'f', 'i', 'n', 'e', 'd'] = definedKeyword from rfl, keyword]
      simp only [start_not_digit isStart, isStart, if_true, Bool.false_eq_true, if_false, run]
      rfl
    unfold Ladder.Ends condLeft
    cases value : condName macros (c :: rest) with
    | ok v => exact ⟨t, by rw [read, value]; rfl, rfl⟩
    | error m => exact ⟨m, by rw [read, value]; rfl, condName_unread value⟩
  | @defined name blanks _ isName some blank ends =>
    have noIdent : NameEnds (blanks ++ (name ++ t)) := by
      obtain ⟨b, rest, rfl⟩ := List.exists_cons_of_ne_nil some
      exact nameEnds_of_blanks (t := []) blank (by simp [NameEnds])
    refine ⟨t, ?_, rfl⟩
    rw [evalCondPrimary_of_keyword behind start plain (dropKeyword_defined noIdent),
      evalDefined_name macros isName blank ends]
  | @definedParen name before inside after _ isName blankBefore blankInside blankAfter =>
    have noIdent : NameEnds (before ++ '(' :: (inside ++ (name ++ (after ++ ')' :: t)))) :=
      nameEnds_of_blanks blankBefore (nameEnds_cons (c := '(') rfl)
    refine ⟨t, ?_, rfl⟩
    rw [evalCondPrimary_of_keyword behind start plain (dropKeyword_defined noIdent),
      evalDefined_paren macros isName blankBefore blankInside blankAfter]
  | character v body =>
    refine ⟨notAnOperand, ?_, notAnOperand_unread⟩
    have quote : ('\'' :: (body ++ '\'' :: t)).dropWhile isBlank = '\'' :: (body ++ '\'' :: t) := rfl
    simp only [evalCondPrimary, quote, dropKeyword_of_head _ _ (by decide : 'd' ≠ '\'')]
    rfl

theorem evalCondUnary_atom {s t : Text} {a : Operand} (operand : CondOperand macros s a t) :
    (condExprs macros).Ends CondReport (evalCondUnary macros self) s a.read
      (t.dropWhile isBlank) := by
  obtain ⟨c, rest, start, -, other⟩ := condOperand_head operand
  have same : evalCondUnary macros self s = evalCondPrimary macros self s := by
    rw [start]
    exact evalCondUnary_operand rest other
  have read := evalCondPrimary_operand self operand
  unfold Ladder.Ends Ladder.Gives at read ⊢
  rw [same]
  exact read

theorem evalCondUnary_prefix {op : UnaryOp} {t s : Text} {o : Except Fault Int}
    (read : (condExprs macros).Ends CondReport (evalCondUnary macros self) (t.dropWhile isBlank)
      o s) :
    (condExprs macros).Ends CondReport (evalCondUnary macros self) (unaryChar op :: t)
      (o.map (longUnary op)) s := by
  have unary : condUnaryOp (unaryChar op) = some op := by cases op <;> rfl
  cases o with
  | ok v =>
    obtain ⟨after, read, settled⟩ := read
    refine ⟨after, ?_, settled⟩
    rw [evalCondUnary_op t unary, read]
    rfl
  | error f =>
    obtain ⟨m, failed, report⟩ := read
    refine ⟨m, ?_, report⟩
    rw [evalCondUnary_op t unary, failed]
    rfl

theorem evalCondUnary_inside {t s : Text} {o : Except Fault Int}
    (read : (condExprs macros).Ends CondReport self (t.dropWhile isBlank) o (')' :: s)) :
    (condExprs macros).Ends CondReport (evalCondUnary macros self) ('(' :: t) o
      (s.dropWhile isBlank) := by
  cases o with
  | ok v =>
    obtain ⟨after, read, settled⟩ := read
    exact ⟨s, evalCondUnary_paren read settled, rfl⟩
  | error f =>
    obtain ⟨m, failed, report⟩ := read
    refine ⟨m, ?_, report⟩
    have start : ('(' :: t).dropWhile isBlank = '(' :: t := rfl
    rw [evalCondUnary_operand t rfl]
    simp only [evalCondPrimary, start, dropKeyword_of_head _ _ (by decide : 'd' ≠ '('), failed, bind,
      Except.bind]
    rfl

end Reading

/-! ### Operators -/

theorem divideLong_ok {op : BinaryOp} {a b w : Int} (s : Text) (value : divideLong op a b = .ok w) :
    applyCondOp s op a b = .ok w := by
  unfold divideLong at value
  split at value
  · cases value
  · rename_i other
    cases value
    cases op with
    | div => exact if_neg fun zero => other ⟨rfl, zero⟩
    | mod => exact if_neg fun zero => other ⟨rfl, zero⟩
    | _ => rfl

theorem divideLong_error {op : BinaryOp} {a b : Int} {f : Fault} (s : Text)
    (value : divideLong op a b = .error f) :
    ∃ m, applyCondOp s op a b = .error m ∧ CondReport f m := by
  unfold divideLong at value
  split at value
  · rename_i zero
    obtain ⟨division, rfl⟩ := zero
    cases value
    cases op with
    | div => exact ⟨_, rfl, .inl rfl⟩
    | mod => exact ⟨_, rfl, .inr rfl⟩
    | _ => cases division
  · cases value

theorem condStep_start {macros : MacroTable} {s s' : Text}
    {w : Precedence.Word Operand Prefix BinaryOp} (step : CondStep macros s w s') :
    (∃ c rest, s = c :: rest ∧ isBlank c = false) ∧ ∃ t : Text,
      s' = t.dropWhile isBlank ∧ t.length < s.length := by
  cases step with
  | @atom _ t _ operand =>
    obtain ⟨c, rest, start, plain, -⟩ := condOperand_head operand
    refine ⟨⟨c, rest, start, plain⟩, t, rfl, ?_⟩
    cases operand with
    | integer c =>
      have some : c.digits.text ≠ [] := by cases c.digits <;> simp [Digits.text]
      have pos := List.length_pos_of_ne_nil some
      simp only [IntConstant.text, List.length_append]
      omega
    | name isName =>
      obtain ⟨c, rest, rfl, -⟩ := isName.start
      simp
    | defined =>
      simp [definedKeyword]
      omega
    | definedParen =>
      simp [definedKeyword]
      omega
    | character =>
      simp
      omega
  | unary op t =>
    refine ⟨⟨_, _, rfl, ?_⟩, t, rfl, by simp⟩
    cases op <;> rfl
  | @binary op t joins =>
    refine ⟨?_, t, rfl, ?_⟩
    · cases op <;> exact ⟨_, _, rfl, rfl⟩
    · cases op <;> simp [binaryText]
  | openParen t => exact ⟨⟨_, _, rfl, rfl⟩, t, rfl, by simp⟩
  | closeParen t => exact ⟨⟨_, _, rfl, rfl⟩, t, rfl, by simp⟩
  | question t => exact ⟨⟨_, _, rfl, rfl⟩, t, rfl, by simp⟩
  | colon t => exact ⟨⟨_, _, rfl, rfl⟩, t, rfl, by simp⟩

theorem condOperator_closing {k : Nat} {c : Char} {t : Text} (closing : c = ')' ∨ c = '?' ∨ c = ':') :
    condOperator k (c :: t) = none := by
  unfold condOperator
  rcases closing with rfl | rfl | rfl <;> split <;> rfl

theorem condExprs_judged (macros : MacroTable) :
    (condExprs macros).Judged longTrial (fun self _ => evalCondUnary macros self) notAnOperand
      CondReport where
  settle_settle := dropWhile_settled
  size_settle := dropWhile_length_le isBlank
  step_settled := by
    intro s w s' step
    obtain ⟨⟨c, rest, rfl, plain⟩, t, rfl, -⟩ := condStep_start step
    exact ⟨List.dropWhile_cons_of_neg (by simp [plain]), dropWhile_settled t⟩
  step_size := by
    intro s w s' step
    obtain ⟨-, t, rfl, shorter⟩ := condStep_start step
    exact Nat.lt_of_le_of_lt (dropWhile_length_le isBlank t) shorter
  step_binary := by
    intro s op s' step
    cases step with
    | binary _ joins =>
      have found := next_operator op joins
      simp only [condExprs, nextCondOp, grammar, found, Option.map_some]
  step_other := by
    intro s w s' k step follows other
    have none : condOperator k s = none := by
      cases step with
      | atom | unary | openParen => cases follows
      | binary op joins => exact next_looser (other op rfl) joins
      | closeParen t | question t | colon t => exact condOperator_closing (by simp)
    simp only [condExprs, nextCondOp, none, Option.map_none]
  step_asks := by
    intro s w s' step follows notQuestion
    cases step with
    | atom | unary | openParen => cases follows
    | question => exact absurd rfl notQuestion
    | closeParen | colon => simp [condExprs]
    | binary op => cases op <;> simp [condExprs, binaryText]
  chain := by
    intro k self pos le
    change k ≤ 10 at le
    interval_cases k <;> rfl
  apply_ok := divideLong_ok
  apply_error := divideLong_error
  operand _ _ := rfl
  atom := by
    intro self n s a s' step
    cases step with
    | atom operand => exact evalCondUnary_atom operand
  refused := by
    intro rounds n s op s' f step refused
    cases step with
    | unary => cases refused
  unary := by
    intro self n s op s' o s'' step _ read
    cases step with
    | unary op t => exact evalCondUnary_prefix read
  paren := by
    intro self n s s₁ o s₂ s₃ opened inside closed
    cases opened with
    | openParen t =>
      cases closed with
      | closeParen t' => exact evalCondUnary_inside inside
  cond_error := by
    intro self s m failed
    change (evalCondLogicalOr macros self s).bind _ = _
    rw [show evalCondLogicalOr macros self s = .error m from failed]
    rfl
  plain := by
    intro self s v s' cond stop
    obtain ⟨after, cond, rfl⟩ := cond
    exact ⟨_, evalCondTernary_plain cond stop, dropWhile_settled after⟩
  then_error := by
    intro self s c s₁ s₂ m cond asked failed
    obtain ⟨after, cond, settled⟩ := cond
    cases asked with
    | question t =>
      change (evalCondLogicalOr macros self s).bind _ = _
      rw [show evalCondLogicalOr macros self s = .ok (c, after) from cond]
      change List.dropWhile isBlank after = '?' :: t at settled
      simp only [Except.bind, settled, failed, bind]
  else_error := by
    intro self s c s₁ s₂ v s₃ s₄ m cond asked thenRead colon failed
    obtain ⟨after, cond, settled⟩ := cond
    obtain ⟨after₁, thenRead, settled₁⟩ := thenRead
    cases asked with
    | question t =>
      cases colon with
      | colon t₁ =>
        change (evalCondLogicalOr macros self s).bind _ = _
        rw [show evalCondLogicalOr macros self s = .ok (c, after) from cond]
        change List.dropWhile isBlank after = '?' :: t at settled
        change List.dropWhile isBlank after₁ = ':' :: t₁ at settled₁
        simp only [Except.bind, settled, thenRead, settled₁, failed, bind]
  conditional := by
    intro self s c s₁ s₂ v s₃ s₄ e s₅ cond asked thenRead colon elseRead
    obtain ⟨after, cond, settled⟩ := cond
    obtain ⟨after₁, thenRead, settled₁⟩ := thenRead
    obtain ⟨after₂, elseRead, settled₂⟩ := elseRead
    cases asked with
    | question t =>
      cases colon with
      | colon t₁ =>
        exact ⟨after₂, evalCondTernary_asks cond settled thenRead settled₁ elseRead, settled₂⟩

/-- The evaluator of conditions gives the signed 64-bit value of a condition, or a message for the
first fault. -/
theorem evalCondExpr_ends (macros : MacroTable) {s s' : Text} {e : CExpr}
    (derives : (condExprs macros).Derives 0 s e s') (stops : (condExprs macros).Stops 0 s') :
    (condExprs macros).Ends CondReport (evalCondExpr macros) s (reading e) s' :=
  Ladder.ends_of_derives (condExprs_judged macros) derives stops (Nat.lt_succ_self _)

end ClaudeC99.Constant
