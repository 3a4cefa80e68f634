import ClaudeC99.Constant.Agreement

/-! The value of an integer constant in a condition and in the program text. -/

namespace ClaudeC99.Constant

open Front
open Numeral (isHexDigit digitsValue)
open Preprocessor (Text MacroTable CondReader isBlank isIdentChar isSuffixLetter condNumber
  dropKeyword evalCondPrimary)

/-- An octal constant of more than the digit 0: its digits behind the first one. -/
structure OctalLiteral where
  digits : Text
  suffix : Text
  digits_ne : digits ≠ []
  digits_ok : ∀ c ∈ digits, isOctalDigit c
  suffix_ok : ∀ c ∈ suffix, isSuffix c
  suffix_le : (suffix.countP fun c => c == 'L' || c == 'l') ≤ 2

def OctalLiteral.text (a : OctalLiteral) : Text := '0' :: (a.digits ++ a.suffix)

def OctalLiteral.value (a : OctalLiteral) : Nat := digitsValue 8 a.digits

/-- A constant with a suffix of up to two `l`: decimal (and the constant 0) or hexadecimal, or
octal. -/
inductive IntegerConstant
  | simple (a : Literal)
  | octal (a : OctalLiteral)

def IntegerConstant.text : IntegerConstant → Text
  | simple a => a.text
  | octal a => a.text

/-- The value that C99 gives it. -/
def IntegerConstant.value : IntegerConstant → Nat
  | simple a => a.value
  | octal a => a.value

/-- The lexer's buffer holds the constant, and an octal one is a single digit behind its zeros. -/
def IntegerConstant.ReadAlike : IntegerConstant → Prop
  | simple a => a.Short
  | octal a => a.value < 8 ∧ a.digits.length ≤ 61

instance (c : IntegerConstant) : Decidable c.ReadAlike :=
  match c with
  | .simple a => inferInstanceAs (Decidable a.Short)
  | .octal _ => inferInstanceAs (Decidable (_ ∧ _))

theorem octal_cases {c : Char} (octal : isOctalDigit c) :
    c = '0' ∨ c = '1' ∨ c = '2' ∨ c = '3' ∨ c = '4' ∨ c = '5' ∨ c = '6' ∨ c = '7' := by
  have range : 48 ≤ c.toNat ∧ c.toNat ≤ 55 := by
    simpa [isOctalDigit, Char.le_def, UInt32.le_iff_toNat_le] using octal
  have same : c = Char.ofNat c.toNat := (Char.ofNat_toNat c).symm
  obtain h | h | h | h | h | h | h | h : c.toNat = 48 ∨ c.toNat = 49 ∨ c.toNat = 50 ∨
      c.toNat = 51 ∨ c.toNat = 52 ∨ c.toNat = 53 ∨ c.toNat = 54 ∨ c.toNat = 55 := by omega
  all_goals
    rw [h] at same
    subst same
    decide

theorem digit_of_octal {c : Char} (octal : isOctalDigit c) : c.isDigit := by
  rcases octal_cases octal with rfl | rfl | rfl | rfl | rfl | rfl | rfl | rfl <;> rfl

namespace OctalLiteral

variable (a : OctalLiteral)

theorem octalDigits : Numeral.OctalDigits a.digits := by
  intro c member
  rcases octal_cases (a.digits_ok c member) with rfl | rfl | rfl | rfl | rfl | rfl | rfl | rfl <;>
    decide

theorem digits_decimal : ∀ c ∈ '0' :: a.digits, c.isDigit := by
  intro c member
  rcases List.mem_cons.mp member with rfl | member
  · rfl
  · exact digit_of_octal (a.digits_ok c member)

theorem text_append (t : Text) : a.text ++ t = '0' :: a.digits ++ (a.suffix ++ t) := by
  simp [text]

/-- The text starts with two digits. -/
theorem text_cons (t : Text) : ∃ c rest, a.text ++ t = '0' :: c :: rest ∧ c.isDigit ∧
    ¬ (c = 'x' ∨ c = 'X') := by
  obtain ⟨c, digits, split⟩ := List.exists_cons_of_ne_nil a.digits_ne
  refine ⟨c, digits ++ (a.suffix ++ t), by simp [text, split], ?_⟩
  have octal := octal_cases (a.digits_ok c (split ▸ List.mem_cons_self))
  rcases octal with rfl | rfl | rfl | rfl | rfl | rfl | rfl | rfl <;> decide

theorem after_digits {t : Text} (ends : NumberEnds t) :
    ∀ c ∈ (a.suffix ++ t).head?, c.isDigit = false := by
  apply not_digit_of_not_hex
  intro c head
  cases suffix : a.suffix with
  | nil =>
    rw [suffix, List.nil_append] at head
    exact ends.not_hex c head
  | cons d rest =>
    rw [suffix, List.cons_append, List.head?_cons] at head
    cases head
    exact not_hex_of_suffix (a.suffix_ok c (suffix ▸ List.mem_cons_self))

end OctalLiteral

/-- The evaluator of conditions has no octal constants. -/
theorem condNumber_octal (a : OctalLiteral) {t : Text} (ends : NumberEnds t) :
    condNumber (a.text ++ t) = (wrap64 (digitsValue 10 a.digits), t) := by
  have run := takeWhile_append_of_head a.digits_decimal (a.after_digits ends)
  have suffix := (takeWhile_append_of_head a.suffix_ok ends.not_suffix).2
  have zero : digitsValue 10 ('0' :: a.digits) = digitsValue 10 a.digits := by
    rw [Numeral.digitsValue_cons]
    simp [Numeral.hexDigitValue, Numeral.digitValue]
  have decimal : (wrap64 (digitsValue 10 ((a.text ++ t).takeWhile Char.isDigit)),
      ((a.text ++ t).dropWhile Char.isDigit).dropWhile isSuffixLetter) =
        (wrap64 (digitsValue 10 a.digits), t) := by
    rw [a.text_append, run.1, run.2, zero]
    exact congrArg _ suffix
  obtain ⟨c, rest, start, -, noMark⟩ := a.text_cons t
  unfold condNumber
  rw [decimal, start]
  exact if_neg noMark

theorem evalCondPrimary_digit (macros : MacroTable) (self : CondReader) {c : Char} (rest : Text)
    (digit : c.isDigit) :
    evalCondPrimary macros self (c :: rest) = .ok (condNumber (c :: rest)) := by
  have plain := not_blank_of_digit digit
  have notDefined : 'd' ≠ c := by
    rintro rfl
    cases digit
  simp only [evalCondPrimary, List.dropWhile_cons_of_neg (by simp [plain] : ¬ isBlank c = true),
    dropKeyword_of_head _ _ notDefined, digit, if_true]

section Lexer

variable (a : OctalLiteral) {l : Lexer} {t : Text}

theorem nextToken_digits {c : Char} {rest : Text} (start : l.rest = '0' :: c :: rest)
    (digit : c.isDigit) (noMark : ¬ (c = 'x' ∨ c = 'X')) {digits : Text} {l' : Lexer}
    (copied : l.copyWhile Char.isDigit 62 = (digits, l')) (octal : ∀ d ∈ digits, isOctalDigit d) :
    lexerNextToken l = finishInteger digits (digitsValue 8 digits) true l' l.position := by
  have found : digits.find? (fun d => ¬ isOctalDigit d) = none := by
    apply List.find?_eq_none.mpr
    intro d member
    simp [octal d member]
  rw [nextToken_number start rfl]
  simp only [lexNumber, start, if_neg noMark, if_pos digit, copied, found]

theorem octal_zero_cons : ∀ d ∈ '0' :: a.digits, isOctalDigit d := by
  intro d member
  rcases List.mem_cons.mp member with rfl | member
  · rfl
  · exact a.digits_ok d member

theorem nextToken_octal (ends : NumberEnds t) (small : a.value < 2 ^ 63)
    (short : a.digits.length ≤ 61) (start : l.rest = a.text ++ t) :
    ∃ tok, lexerNextToken l = .ok (tok, l.after a.text t) ∧ tok.type = .intLiteral ∧
      tok.longValue = wrap64 a.value := by
  obtain ⟨c, rest, first, digit, noMark⟩ := a.text_cons t
  have spelled := start
  rw [a.text_append] at spelled
  have fits : ('0' :: a.digits).length ≤ 62 := Nat.succ_le_succ short
  have copied := copyWhile_run spelled a.digits_decimal (a.after_digits ends) fits
    (no_newline a.digits_decimal rfl)
  have same : digitsValue 8 ('0' :: a.digits) = a.value := by
    rw [Numeral.digitsValue_cons, OctalLiteral.value]
    simp [Numeral.hexDigitValue, Numeral.digitValue]
  obtain ⟨tok, finished, type, value⟩ := finishInteger_suffix a.suffix_ok a.suffix_le ends
    (l := l.after ('0' :: a.digits) (a.suffix ++ t)) rfl small ('0' :: a.digits) true l.position
  refine ⟨tok, ?_, type, value⟩
  rw [after_after] at finished
  rw [nextToken_digits (start.trans first) digit noMark copied (octal_zero_cons a), same]
  exact finished

/-- Of an octal constant that is too long for its buffer the lexer leaves a digit. -/
theorem nextToken_octal_cut (long : 61 < a.digits.length) (start : l.rest = a.text ++ t)
    {l' : Lexer} {tok : Token} (read : lexerNextToken l = .ok (tok, l')) :
    ∃ c rest, c.isDigit ∧ l'.rest = c :: rest := by
  obtain ⟨c, rest, first, digit, noMark⟩ := a.text_cons t
  have spelled := start
  rw [a.text_append] at spelled
  have many : 62 < ('0' :: a.digits).length := Nat.succ_lt_succ long
  have cut := copyWhile_cut spelled a.digits_decimal (Nat.le_of_lt many)
    (no_newline a.digits_decimal rfl)
  obtain ⟨d, left, split⟩ := List.exists_cons_of_length_pos (l := ('0' :: a.digits).drop 62)
    (by rw [List.length_drop]; omega)
  have decimal := a.digits_decimal d (List.mem_of_mem_drop (split ▸ List.mem_cons_self))
  rw [nextToken_digits (start.trans first) digit noMark cut
    fun d member => octal_zero_cons a d (List.mem_of_mem_take member)] at read
  have noSuffix : isSuffixChar d = false := by
    rcases digit_cases decimal with rfl | rfl | rfl | rfl | rfl | rfl | rfl | rfl | rfl | rfl <;> rfl
  rw [(finishInteger_type read).2, split]
  refine ⟨d, left ++ (a.suffix ++ t), decimal, ?_⟩
  simp [Lexer.copyWhile, noSuffix, Lexer.skip]

end Lexer

theorem wrap64_eq_iff {m n : Nat} : wrap64 m = wrap64 n ↔ m % 2 ^ 64 = n % 2 ^ 64 := by
  simp only [wrap64, BitVec.toInt_ofInt, Int.bmod_def]
  omega

/-- The lexer and the evaluator of conditions give an integer constant one value exactly when the
lexer's buffer holds it and it does not have two significant octal digits. -/
theorem integer_constant_agrees_iff (macros : MacroTable) (self : CondReader) {c : IntegerConstant}
    (fits : c.value < 2 ^ 63) {t u : Text} (endsCondition : NumberEnds t) (endsToken : NumberEnds u)
    {l : Lexer} (start : l.rest = c.text ++ u) :
    (∃ tok, lexerNextToken l = .ok (tok, l.after c.text u) ∧ tok.type = .intLiteral ∧
        evalCondPrimary macros self (c.text ++ t) = .ok (tok.longValue, t)) ↔ c.ReadAlike := by
  cases c with
  | simple a =>
    obtain ⟨c, rest, first, digit⟩ := literal_cons a
    have value := condNumber_literal a endsCondition
    have condition : evalCondPrimary macros self (a.text ++ t) = .ok (wrap64 a.value, t) := by
      rw [← value, first, List.cons_append, evalCondPrimary_digit macros self _ digit]
    constructor
    · rintro ⟨tok, read, -⟩
      by_contra long
      obtain ⟨-, d, left, hex, rest⟩ := nextToken_cut long start read
      have other := endsToken.not_hex d (by rw [show u = d :: left from rest]; rfl)
      rw [hex] at other
      cases other
    · intro short
      obtain ⟨tok, read, type, same⟩ := nextToken_literal endsToken ⟨fits, short⟩ start
      exact ⟨tok, read, type, by rw [same]; exact condition⟩
  | octal a =>
    have read_in_ten := Numeral.octal_read_in_ten a.octalDigits fits
    obtain ⟨c, rest, first, digit, -⟩ := a.text_cons t
    have value := condNumber_octal a endsCondition
    have condition : evalCondPrimary macros self (a.text ++ t) =
        .ok (wrap64 (digitsValue 10 a.digits), t) := by
      rw [← value, first, evalCondPrimary_digit macros self _ rfl]
    constructor
    · rintro ⟨tok, read, -, agrees⟩
      have short : a.digits.length ≤ 61 := by
        by_contra long
        obtain ⟨d, left, decimal, rest⟩ := nextToken_octal_cut a (by omega) start read
        have other := endsToken.not_hex d (by rw [show u = d :: left from rest]; rfl)
        rw [hex_of_digit decimal] at other
        cases other
      obtain ⟨tok', read', -, same⟩ := nextToken_octal a endsToken fits short start
      obtain rfl : tok' = tok := (Prod.mk.inj (Except.ok.inj (read'.symm.trans read))).1
      have one : wrap64 (digitsValue 10 a.digits) = wrap64 a.value := by
        rw [← same]
        exact (Prod.mk.inj (Except.ok.inj (condition.symm.trans agrees))).1
      have reduced := wrap64_eq_iff.mp one
      rw [Nat.mod_eq_of_lt (Nat.lt_trans fits (by decide) : a.value < 2 ^ 64)] at reduced
      exact ⟨read_in_ten.mp reduced, short⟩
    · intro alike
      obtain ⟨tok, read, type, same⟩ := nextToken_octal a endsToken fits alike.2 start
      have reduced := read_in_ten.mpr alike.1
      have one : wrap64 (digitsValue 10 a.digits) = wrap64 a.value := by
        apply wrap64_eq_iff.mpr
        rw [Nat.mod_eq_of_lt (Nat.lt_trans fits (by decide) : a.value < 2 ^ 64)]
        exact reduced
      refine ⟨tok, read, type, ?_⟩
      rw [same, ← one]
      exact condition

theorem sample_digits : ∀ c ∈ ['1', 'F'], isHexDigit c = true := List.all_eq_true.mp (by decide)

theorem sample_suffix : ∀ c ∈ ['u', 'L', 'L'], isSuffix c = true := List.all_eq_true.mp (by decide)

theorem sample_longs : (['u', 'L', 'L'].countP fun c => c == 'L' || c == 'l') ≤ 2 := by decide

theorem sample_mark : ∀ c ∈ some 'x', c = 'x' ∨ c = 'X' := by
  intro c same
  exact .inl (Option.some.inj same).symm

theorem sample_nonempty : ['1', 'F'] ≠ [] := List.cons_ne_nil _ _

theorem sample_marked : some 'x' = none → ['1', 'F'].head? = some '0' → ['1', 'F'] = ['0'] := by
  intro unmarked
  cases unmarked

def hexLiteral : Literal where
  mark := some 'x'
  digits := ['1', 'F']
  suffix := ['u', 'L', 'L']
  mark_x := sample_mark
  digits_ne := sample_nonempty
  digits_ok := sample_digits
  not_octal := sample_marked
  suffix_ok := sample_suffix
  suffix_le := sample_longs

theorem numberEnds_paren : NumberEnds [')'] := by
  intro c head
  cases head
  decide

/-- `0x1FuLL` before a parenthesis. -/
theorem hex_literal_agrees :
    (∃ tok, lexerNextToken (lexerInit (hexLiteral.text ++ [')']) none) =
          .ok (tok, (lexerInit (hexLiteral.text ++ [')']) none).after hexLiteral.text [')']) ∧
        tok.type = .intLiteral ∧
        evalCondPrimary [] (fun _ => .error "") (hexLiteral.text ++ [')']) =
          .ok (tok.longValue, [')'])) ↔
      hexLiteral.Short :=
  integer_constant_agrees_iff [] (fun _ => .error "") (c := .simple hexLiteral) (by decide)
    numberEnds_paren numberEnds_paren rfl

/-- `010` is 10 in a condition and 8 in the program. -/
theorem octal_constant_disagrees :
    evalCondPrimary [] (fun _ => .error "") "010".toList = .ok (10, []) ∧
      ∃ tok l, lexerNextToken (lexerInit "010".toList none) = .ok (tok, l) ∧ l.rest = [] ∧
        tok.type = .intLiteral ∧ tok.longValue = 8 :=
  ⟨rfl, _, _, rfl, rfl, rfl, rfl⟩

end ClaudeC99.Constant
