import ClaudeC99.Constant.Integers
import ClaudeC99.Optimize.Folding

/-! The integer constants of C99, their types, and the token that the lexer makes of each. -/

namespace ClaudeC99.Literals

open Constant (NumberEnds digit_of_octal hex_of_digit nextToken_digits no_newline
  suffixChar_of_suffix)
open Front
open IntArith (IntType)
open Numeral (isHexDigit digitsValue)
open Preprocessor (Text)

/-- The part of an integer constant before its suffix. -/
inductive Digits
  | decimal (first : Char) (rest : Text) (nonzero : first.isDigit ∧ first ≠ '0')
    (all : ∀ c ∈ rest, c.isDigit)
  | octal (rest : Text) (all : ∀ c ∈ rest, isOctalDigit c)
  | hex (upper : Bool) (digits : Text) (some : digits ≠ []) (all : ∀ c ∈ digits, isHexDigit c)

namespace Digits

def text : Digits → Text
  | decimal first rest _ _ => first :: rest
  | octal rest _ => '0' :: rest
  | hex upper digits _ _ => '0' :: (if upper then 'X' else 'x') :: digits

def base : Digits → Base
  | decimal _ _ _ _ => .decimal
  | octal _ _ => .octal
  | hex _ _ _ _ => .hex

def value : Digits → Nat
  | decimal first rest _ _ => digitsValue 10 (first :: rest)
  | octal rest _ => digitsValue 8 ('0' :: rest)
  | hex _ digits _ _ => digitsValue 16 digits

/-- The value of the first 62 characters. -/
def readValue : Digits → Nat
  | decimal first rest _ _ => digitsValue 10 ((first :: rest).take 62)
  | octal rest _ => digitsValue 8 (('0' :: rest).take 62)
  | hex _ digits _ _ => digitsValue 16 (digits.take 60)

end Digits

/-- The suffixes: `u`, `l` and `ll`, each in either case, and a `u` before or behind the others. -/
def suffixes : List Text :=
  let us : List Text := [['u'], ['U']]
  let ls : List Text := [['l'], ['L'], ['l', 'l'], ['L', 'L']]
  [[]] ++ us ++ ls ++ us.flatMap (fun u => ls.map (u ++ ·)) ++ ls.flatMap fun l => us.map (l ++ ·)

/-- An integer constant of C99. -/
structure IntConstant where
  digits : Digits
  suffix : Text
  valid : suffix ∈ suffixes

namespace IntConstant

variable (c : IntConstant)

def text : Text := c.digits.text ++ c.suffix

def isUnsigned : Bool := c.suffix.any fun d => d == 'U' || d == 'u'

def longs : Nat := c.suffix.countP fun d => d == 'L' || d == 'l'

def spelling : IntSpelling := ⟨c.digits.base, c.digits.value, c.isUnsigned, c.longs⟩

/-- The first type of the list for its base and suffix in which the value fits. -/
def c99Type : Option IntType := c.spelling.candidates.find? fun t => t.Holds c.digits.value

/-- The lexer reads the constant, which stands before `t`, with its value and its type, or reports
an error when no type fits. -/
def ReadAsInC99 (l : Lexer) (t : Text) : Prop :=
  match c.c99Type with
  | some type => ∃ tok, lexerNextToken l = .ok (tok, l.after c.text t) ∧ tok.type = .intLiteral ∧
      tok.longValue = wrap64 c.digits.value ∧
      intTypeOf tok.literalType tok.isUnsigned = some type
  | none => ∃ message, lexerNextToken l = .error message

/-- The digits fill the buffer at most. -/
def Short : Prop := c.digits.text.length ≤ 62

instance : Decidable c.Short := inferInstanceAs (Decidable (_ ≤ _))

/-- What the lexer takes for too large. -/
def TooLarge (isUnsigned : Bool) (longs value : Nat) : Prop :=
  2 ^ 64 ≤ value ∨ (¬ isUnsigned ∧ longs ≠ 2 ∧ 2 ^ 63 ≤ value)

/-- The constants of which the lexer makes what C99 says. -/
def TypedRight : Prop :=
  if c.Short then
    c.isUnsigned = true ∨ 2 ^ 64 ≤ c.digits.value ∨
      (c.digits.base = .decimal ∧ c.longs ≠ 2) ∨ c.digits.value < 2 ^ 31 ∨
      (c.digits.value < 2 ^ 63 ∧
        (c.digits.base = .decimal ∨ c.longs ≠ 0 ∨ 2 ^ 32 ≤ c.digits.value))
  else 2 ^ 63 ≤ c.digits.readValue

end IntConstant

/-! ### The suffix -/

section Suffix

variable {suffix t : Text} {l : Lexer}

theorem suffix_chars (valid : suffix ∈ suffixes) : ∀ c ∈ suffix, isSuffixChar c = true := by
  have all : (suffixes.all fun s => s.all isSuffixChar) = true := rfl
  exact List.all_eq_true.mp (List.all_eq_true.mp all suffix valid)

theorem suffix_longs (valid : suffix ∈ suffixes) :
    (suffix.countP fun d => d == 'L' || d == 'l') ≤ 2 := by
  have all : ∀ s ∈ suffixes, (s.countP fun d => d == 'L' || d == 'l') ≤ 2 := by decide +kernel
  exact all suffix valid

/-- The kind of an integer token. -/
def literalKind (isUnsigned : Bool) (longs value : Nat) : TypeKind :=
  if longs = 2 then if isUnsigned then .unsignedLongLong else .longLong
  else if longs = 1 then .long
  else if isUnsigned then if value < 2 ^ 32 then .int else .long
  else if value < 2 ^ 31 then .int
  else .long

/-- The end of an integer token, with what the suffix says. -/
theorem finishInteger_eq (value : Nat) (chars : ∀ c ∈ suffix, isSuffixChar c = true)
    (few : (suffix.countP fun d => d == 'L' || d == 'l') ≤ 2)
    (stop : ∀ c ∈ t.head?, isSuffixChar c = false) (start : l.rest = suffix ++ t) (buf : Text)
    (isOctal : Bool) (position : Position) :
    let isUnsigned := suffix.any fun d => d == 'U' || d == 'u'
    let longs := suffix.countP fun d => d == 'L' || d == 'l'
    (IntConstant.TooLarge isUnsigned longs value →
      ∃ message, finishInteger buf value isOctal l position = .error message) ∧
    (¬ IntConstant.TooLarge isUnsigned longs value →
      ∃ tok, finishInteger buf value isOctal l position = .ok (tok, l.after suffix t) ∧
        tok.type = .intLiteral ∧ tok.longValue = wrap64 value ∧
        tok.literalType = literalKind isUnsigned longs value ∧ tok.isUnsigned = isUnsigned ∧
        tok.value = if isOctal then Nat.toDigits 10 value else buf) := by
  intro isUnsigned longs
  have fits : suffix.length ≤ l.rest.length := by simp [start]
  have copied := copyWhile_run start chars stop fits (no_newline chars rfl)
  unfold finishInteger
  rw [copied]
  dsimp only
  rw [if_neg (by omega)]
  split
  next tooLarge => exact ⟨fun _ => ⟨_, rfl⟩, fun fitting => absurd tooLarge fitting⟩
  next fitting =>
    exact ⟨fun tooLarge => absurd tooLarge fitting, fun _ => ⟨_, rfl, rfl, rfl, rfl, rfl, rfl⟩⟩

end Suffix

/-! ### The digits -/

/-- A run in a buffer with some room, whatever its length. -/
theorem copyWhile_take {l : Lexer} {p : Char → Bool} {run t : Text} (room : Nat)
    (start : l.rest = run ++ t) (all : ∀ c ∈ run, p c) (stop : ∀ c ∈ t.head?, p c = false)
    (line : '\n' ∉ run) :
    l.copyWhile p room = (run.take room, l.after (run.take room) (run.drop room ++ t)) := by
  by_cases fits : run.length ≤ room
  · rw [copyWhile_run start all stop fits line, List.take_of_length_le fits,
      List.drop_of_length_le fits, List.nil_append]
  · exact copyWhile_cut start all (Nat.le_of_not_le fits) line

/-- The head of what is left of a run. -/
theorem head_drop {p : Char → Prop} {run t : Text} {n : Nat} (all : ∀ c ∈ run, p c)
    (stop : ∀ c ∈ t.head?, p c) : ∀ c ∈ (run.drop n ++ t).head?, p c := by
  intro c head
  cases left : run.drop n with
  | nil =>
    rw [left] at head
    exact stop c head
  | cons d rest =>
    rw [left] at head
    cases head
    exact all c (List.mem_of_mem_drop (left ▸ List.mem_cons_self))

/-- A number that starts with two digits is octal, one with a mark hexadecimal; any other is
decimal. -/
theorem lexNumber_decimal {l : Lexer} {digits t : Text} (start : l.rest = digits ++ t)
    (all : ∀ c ∈ digits, c.isDigit) (stop : ∀ c ∈ t.head?, c.isDigit = false)
    (noMark : ∀ c rest, l.rest = '0' :: c :: rest → ¬ (c = 'x' ∨ c = 'X') ∧ c.isDigit = false)
    (integer : ∀ c ∈ t.head?, c ≠ '.' ∧ c ≠ 'e' ∧ c ≠ 'E') :
    lexNumber l = finishInteger (digits.take 62) (digitsValue 10 (digits.take 62)) false
      (l.after (digits.take 62) (digits.drop 62 ++ t)) l.position := by
  have copied : l.copyWhile Char.isDigit 62 = _ :=
    copyWhile_take 62 start all stop (no_newline all rfl)
  have plain : ∀ c ∈ (digits.drop 62 ++ t).head?, c ≠ '.' ∧ c ≠ 'e' ∧ c ≠ 'E' := by
    apply head_drop _ integer
    intro c member
    rcases digit_cases (all c member) with rfl | rfl | rfl | rfl | rfl | rfl | rfl | rfl | rfl | rfl
    all_goals decide
  have noFloat := floatContinuation_none
    (l := l.after (digits.take 62) (digits.drop 62 ++ t)) (digits.take 62) plain
  unfold lexNumber
  rw [copied]
  dsimp only
  rw [noFloat]
  split
  next c rest zero =>
    obtain ⟨mark, digit⟩ := noMark c rest zero
    rw [if_neg mark, if_neg (by simp [digit])]
  · rfl

section Read

variable {c : IntConstant} {l : Lexer} {t : Text}

/-- What comes behind the digits does not go on with them. -/
theorem after_digits (ends : NumberEnds t) : ∀ d ∈ (c.suffix ++ t).head?,
    isHexDigit d = false ∧ d ≠ '.' ∧ d ≠ 'x' ∧ d ≠ 'X' := by
  intro d head
  cases suffix : c.suffix with
  | nil =>
    rw [suffix, List.nil_append] at head
    refine ⟨ends.not_hex d head, (ends d head).2, ?_, ?_⟩
    all_goals
      rintro rfl
      cases (ends _ head).1
  | cons e rest =>
    rw [suffix] at head
    cases head
    have letter := suffix_chars c.valid d (suffix ▸ List.mem_cons_self)
    rw [suffixChar_of_suffix] at letter
    have cases : ((d = 'u' ∨ d = 'U') ∨ d = 'l') ∨ d = 'L' := by
      simpa [Constant.isSuffix] using letter
    rcases cases with ((rfl | rfl) | rfl) | rfl <;> decide

theorem not_digit_after (ends : NumberEnds t) :
    ∀ d ∈ (c.suffix ++ t).head?, d.isDigit = false :=
  Constant.not_digit_of_not_hex fun d head => (after_digits ends d head).1

theorem no_float_after (ends : NumberEnds t) :
    ∀ d ∈ (c.suffix ++ t).head?, d ≠ '.' ∧ d ≠ 'e' ∧ d ≠ 'E' := by
  intro d head
  obtain ⟨noHex, noPoint, -⟩ := after_digits ends d head
  refine ⟨noPoint, ?_, ?_⟩
  all_goals
    rintro rfl
    cases noHex

/-- The lexer copies the first 62 characters of the digits and goes on behind these. -/
theorem nextToken_copied (ends : NumberEnds t) (start : l.rest = c.text ++ t) :
    ∃ isOctal, lexerNextToken l =
      finishInteger (c.digits.text.take 62) c.digits.readValue isOctal
        (l.after (c.digits.text.take 62) (c.digits.text.drop 62 ++ (c.suffix ++ t)))
        l.position := by
  have stop := not_digit_after (c := c) ends
  have integer := no_float_after (c := c) ends
  rw [IntConstant.text, List.append_assoc] at start
  cases digits : c.digits with
  | decimal first rest nonzero all =>
    rw [digits] at start
    refine ⟨false, ?_⟩
    rw [nextToken_number start nonzero.1]
    apply lexNumber_decimal start _ stop _ integer
    · intro d member
      rcases List.mem_cons.mp member with rfl | later
      · exact nonzero.1
      · exact all d later
    · intro d others zero
      exact absurd (List.cons.inj (start.symm.trans zero)).1 nonzero.2
  | octal rest all =>
    rw [digits] at start
    have octal : ∀ d ∈ '0' :: rest, isOctalDigit d := by
      intro d member
      rcases List.mem_cons.mp member with rfl | later
      · rfl
      · exact all d later
    have decimal : ∀ d ∈ '0' :: rest, d.isDigit := fun d member => digit_of_octal (octal d member)
    cases rest with
    | nil =>
      refine ⟨false, ?_⟩
      rw [nextToken_number start rfl]
      apply lexNumber_decimal start decimal stop _ integer
      intro d others zero
      have head : d ∈ (c.suffix ++ t).head? := by
        have tail := congrArg List.tail (start.symm.trans zero)
        rw [show c.suffix ++ t = d :: others from tail]
        rfl
      obtain ⟨-, -, noX, noX'⟩ := after_digits ends d head
      exact ⟨not_or.mpr ⟨noX, noX'⟩, stop d head⟩
    | cons d rest =>
      have digit := decimal d (List.mem_cons_of_mem _ List.mem_cons_self)
      have noMark : ¬ (d = 'x' ∨ d = 'X') := by
        rintro (rfl | rfl) <;> cases digit
      have copied := copyWhile_take 62 start decimal stop (no_newline decimal rfl)
      exact ⟨true, nextToken_digits start digit noMark copied fun e member =>
        octal e (List.mem_of_mem_take member)⟩
  | hex upper hexDigits some all =>
    rw [digits] at start
    have isX : (if upper then 'X' else 'x') = 'x' ∨ (if upper then 'X' else 'x') = 'X' := by
      cases upper <;> simp
    have plain : '\n' ∉ ['0', if upper then 'X' else 'x'] := by
      cases upper <;> decide
    have spelled : l.rest = ['0', if upper then 'X' else 'x'] ++
        (hexDigits ++ (c.suffix ++ t)) := start
    have prefixed : l.skip 2 = l.after ['0', if upper then 'X' else 'x']
        (hexDigits ++ (c.suffix ++ t)) := skip_run _ spelled plain
    have noHex := fun d head => (after_digits (c := c) ends d head).1
    have copied := copyWhile_take 60 (l := l.skip 2) (by rw [prefixed]; rfl) all noHex
      (no_newline all rfl)
    rw [prefixed, after_after] at copied
    have first : hexDigits.take 60 ≠ [] := by
      simpa using some
    refine ⟨false, ?_⟩
    rw [nextToken_number start rfl]
    unfold lexNumber
    rw [start]
    simp only [Digits.text, List.cons_append, if_pos isX, prefixed, copied, if_neg first]
    rfl

end Read

/-! ### The types -/

/-- One more than the largest value. -/
def bound (t : IntType) : Nat := if t.signed then 2 ^ (t.width - 1) else 2 ^ t.width

theorem holds_iff (t : IntType) (v : Nat) : t.Holds v ↔ v < bound t := by
  have natural : t.min ≤ v := by
    unfold IntType.min
    split
    · have power : (0 : Int) < 2 ^ (t.width - 1) := by positivity
      omega
    · omega
  unfold IntType.Holds IntType.max bound
  split
  · have same : ((2 ^ (t.width - 1) : Nat) : Int) = 2 ^ (t.width - 1) := by norm_cast
    omega
  · have same : ((2 ^ t.width : Nat) : Int) = 2 ^ t.width := by norm_cast
    omega

/-- The values at which another type is the first that fits. -/
def steps : List Nat := [0, 2 ^ 31, 2 ^ 32, 2 ^ 63, 2 ^ 64]

/-- The last of these values that the value reaches. -/
def level (value : Nat) : Nat :=
  if value < 2 ^ 31 then 0 else if value < 2 ^ 32 then 2 ^ 31 else if value < 2 ^ 63 then 2 ^ 32
  else if value < 2 ^ 64 then 2 ^ 63 else 2 ^ 64

theorem level_mem (value : Nat) : level value ∈ steps := by
  unfold level
  split_ifs <;> decide

theorem lt_iff_level {value m : Nat} (known : m ∈ steps) : value < m ↔ level value < m := by
  unfold level
  simp only [steps, List.mem_cons, List.not_mem_nil, or_false] at known
  split_ifs <;> omega

/-- The type that the lexer chooses is that of C99 under the condition, and where it finds the
value too large no type fits under the condition. -/
def Typed (base : Base) (isUnsigned : Bool) (longs value : Nat) : Prop :=
  if value < 2 ^ 64 ∧ (isUnsigned = true ∨ longs = 2 ∨ value < 2 ^ 63) then
    ((IntSpelling.candidates ⟨base, 0, isUnsigned, longs⟩).find? fun t => value < bound t) =
        intTypeOf (literalKind isUnsigned longs value) isUnsigned ↔
      isUnsigned = true ∨ (base = .decimal ∧ longs ≠ 2) ∨ value < 2 ^ 31 ∨
        (value < 2 ^ 63 ∧ (base = .decimal ∨ longs ≠ 0 ∨ ¬ value < 2 ^ 32))
  else
    ((IntSpelling.candidates ⟨base, 0, isUnsigned, longs⟩).find? fun t => value < bound t) = none ↔
      ¬ value < 2 ^ 64 ∨ base = .decimal ∧ longs ≠ 2

instance (base : Base) (isUnsigned : Bool) (longs value : Nat) :
    Decidable (Typed base isUnsigned longs value) :=
  inferInstanceAs (Decidable (ite _ _ _))

theorem typed_steps (base : Base) (isUnsigned : Bool) :
    ∀ longs < 3, ∀ value ∈ steps, Typed base isUnsigned longs value := by
  cases base <;> cases isUnsigned <;> decide +kernel

theorem bound_steps (base : Base) (isUnsigned : Bool) : ∀ longs < 3,
    ∀ t ∈ IntSpelling.candidates ⟨base, 0, isUnsigned, longs⟩, bound t ∈ steps := by
  cases base <;> cases isUnsigned <;> decide +kernel

theorem typed {base : Base} {isUnsigned : Bool} {longs : Nat} (few : longs ≤ 2) (value : Nat) :
    Typed base isUnsigned longs value := by
  have at_level := typed_steps base isUnsigned longs (by omega) _ (level_mem value)
  have below (m : Nat) (known : m ∈ steps) : (value < m) = (level value < m) :=
    propext (lt_iff_level known)
  have found : ((IntSpelling.candidates ⟨base, 0, isUnsigned, longs⟩).find? fun t =>
      value < bound t) = (IntSpelling.candidates ⟨base, 0, isUnsigned, longs⟩).find? fun t =>
        level value < bound t := by
    apply List.find?_congr
    intro t member
    simp only [below _ (bound_steps base isUnsigned longs (by omega) t member)]
  unfold Typed literalKind at at_level ⊢
  simp only [found, below (2 ^ 31) (by decide), below (2 ^ 32) (by decide),
    below (2 ^ 63) (by decide), below (2 ^ 64) (by decide)]
  exact at_level

/-! ### The constant as a whole -/

section Whole

variable {c : IntConstant} {l : Lexer} {t : Text}

theorem readValue_short (short : c.Short) : c.digits.readValue = c.digits.value := by
  unfold IntConstant.Short at short
  cases digits : c.digits with
  | decimal | octal =>
    rw [digits] at short
    exact congrArg (digitsValue _) (List.take_of_length_le short)
  | hex =>
    rw [digits] at short
    exact congrArg (digitsValue 16)
      (List.take_of_length_le (Nat.le_of_succ_le_succ (Nat.le_of_succ_le_succ short)))

theorem digitsValue_append (base : Nat) (a b : Text) :
    digitsValue base (a ++ b) = digitsValue base a * base ^ b.length + digitsValue base b := by
  rw [digitsValue, List.foldl_append, Numeral.foldl_digits]
  rfl

/-- Digits that are left make the value at least eight times as large. -/
theorem digitsValue_cut {base room : Nat} {digits : Text} (large : 8 ≤ base)
    (long : room < digits.length) :
    8 * digitsValue base (digits.take room) ≤ digitsValue base digits := by
  have power : 8 ≤ base ^ (digits.drop room).length := by
    calc 8 ≤ base := large
      _ = base ^ 1 := (pow_one base).symm
      _ ≤ base ^ (digits.drop room).length := by
          apply Nat.pow_le_pow_right (by omega)
          rw [List.length_drop]
          omega
  calc 8 * digitsValue base (digits.take room)
      ≤ base ^ (digits.drop room).length * digitsValue base (digits.take room) :=
        Nat.mul_le_mul_right _ power
    _ ≤ digitsValue base (digits.take room ++ digits.drop room) := by
        rw [digitsValue_append, Nat.mul_comm]
        exact Nat.le_add_right _ _
    _ = digitsValue base digits := by rw [List.take_append_drop]

theorem readValue_long (long : ¬ c.Short) : 8 * c.digits.readValue ≤ c.digits.value := by
  unfold IntConstant.Short at long
  cases digits : c.digits with
  | decimal | octal =>
    rw [digits] at long
    exact digitsValue_cut (by decide) (Nat.lt_of_not_le long)
  | hex =>
    rw [digits] at long
    have many := Nat.lt_of_not_le long
    exact digitsValue_cut (by decide) (Nat.lt_of_succ_lt_succ (Nat.lt_of_succ_lt_succ many))

theorem nextToken_short (ends : NumberEnds t) (short : c.Short) (start : l.rest = c.text ++ t) :
    (IntConstant.TooLarge c.isUnsigned c.longs c.digits.value →
      ∃ message, lexerNextToken l = .error message) ∧
    (¬ IntConstant.TooLarge c.isUnsigned c.longs c.digits.value →
      ∃ tok, lexerNextToken l = .ok (tok, l.after c.text t) ∧ tok.type = .intLiteral ∧
        tok.longValue = wrap64 c.digits.value ∧
        tok.literalType = literalKind c.isUnsigned c.longs c.digits.value ∧
        tok.isUnsigned = c.isUnsigned ∧ tok.value.length ≤ 62) := by
  obtain ⟨isOctal, copied⟩ := nextToken_copied ends start
  rw [readValue_short short, List.take_of_length_le short, List.drop_of_length_le short,
    List.nil_append] at copied
  have stop : ∀ d ∈ t.head?, isSuffixChar d = false := by
    intro d head
    rw [suffixChar_of_suffix]
    exact ends.not_suffix d head
  obtain ⟨large, small⟩ := finishInteger_eq c.digits.value (suffix_chars c.valid)
    (suffix_longs c.valid) stop (l := l.after c.digits.text (c.suffix ++ t)) rfl c.digits.text
    isOctal l.position
  rw [copied]
  refine ⟨large, fun fits => ?_⟩
  obtain ⟨tok, read, type, value, kind, unsigned, text⟩ := small fits
  rw [after_after] at read
  refine ⟨tok, read, type, value, kind, unsigned, ?_⟩
  rw [text]
  split
  · have below : c.digits.value < 10 ^ 62 := by
      have bound := Nat.lt_of_not_le fun huge => fits (.inl huge)
      omega
    exact (Nat.length_toDigits_le_iff (by decide) (by decide)).mpr below
  · exact short

/-- Of a constant that is too long the lexer leaves a digit, unless it finds what it has copied too
large. -/
theorem nextToken_long (ends : NumberEnds t) (long : ¬ c.Short) (start : l.rest = c.text ++ t) :
    (2 ^ 63 ≤ c.digits.readValue → ∃ message, lexerNextToken l = .error message) ∧
    (c.digits.readValue < 2 ^ 63 → ∃ tok l' d rest, lexerNextToken l = .ok (tok, l') ∧
      l'.rest = d :: rest ∧ isHexDigit d = true) := by
  obtain ⟨isOctal, copied⟩ := nextToken_copied ends start
  have all : ∀ d ∈ c.digits.text.drop 62, isHexDigit d = true := by
    intro d member
    cases digits : c.digits with
    | decimal first rest nonzero all =>
      rw [digits] at member
      exact hex_of_digit (all d (List.mem_of_mem_drop member))
    | octal rest all =>
      rw [digits] at member
      exact hex_of_digit (digit_of_octal (all d (List.mem_of_mem_drop member)))
    | hex upper hexDigits some all =>
      rw [digits] at member
      exact all d (List.mem_of_mem_drop member)
  obtain ⟨d, rest, left⟩ := List.exists_cons_of_length_pos (l := c.digits.text.drop 62)
    (by rw [List.length_drop]; unfold IntConstant.Short at long; omega)
  have hex := all d (left ▸ List.mem_cons_self)
  have noSuffix : isSuffixChar d = false := by
    cases suffix : isSuffixChar d with
    | false => rfl
    | true =>
      rw [suffixChar_of_suffix] at suffix
      rw [Constant.not_hex_of_suffix suffix] at hex
      cases hex
  rw [left] at copied
  obtain ⟨large, small⟩ := finishInteger_eq c.digits.readValue
    (by simp : ∀ e ∈ [], isSuffixChar e = true) (by simp)
    (t := d :: (rest ++ (c.suffix ++ t))) (by simp [noSuffix])
    (l := l.after (c.digits.text.take 62) (d :: rest ++ (c.suffix ++ t))) rfl
    (c.digits.text.take 62) isOctal l.position
  rw [copied]
  constructor
  · intro overflow
    exact large (.inr ⟨by simp, by simp, overflow⟩)
  · intro fits
    obtain ⟨tok, read, -⟩ := small (by
      rintro (huge | ⟨-, -, overflow⟩)
      · omega
      · omega)
    exact ⟨tok, _, d, _, read, rfl, hex⟩

/-- The types that C99 tries do not depend on the value. -/
theorem c99Type_eq (c : IntConstant) : c.c99Type =
    (IntSpelling.candidates ⟨c.digits.base, 0, c.isUnsigned, c.longs⟩).find? fun t =>
      c.digits.value < bound t := by
  rw [IntConstant.c99Type]
  apply List.find?_congr
  intro t _
  simp only [holds_iff]

theorem not_tooLarge {isUnsigned : Bool} {longs value : Nat} :
    ¬ IntConstant.TooLarge isUnsigned longs value ↔
      value < 2 ^ 64 ∧ (isUnsigned = true ∨ longs = 2 ∨ value < 2 ^ 63) := by
  unfold IntConstant.TooLarge
  cases isUnsigned
  · simp
    omega
  · simp

theorem readAs_error {message : String} (failed : lexerNextToken l = .error message) :
    c.ReadAsInC99 l t ↔ c.c99Type = none := by
  unfold IntConstant.ReadAsInC99
  cases c.c99Type with
  | none => exact iff_of_true ⟨message, failed⟩ rfl
  | some type =>
    refine iff_of_false ?_ (Option.some_ne_none type)
    rintro ⟨tok, read, -⟩
    cases failed.symm.trans read

theorem readAs_ok {tok : Token} {type : IntType}
    (read : lexerNextToken l = .ok (tok, l.after c.text t)) (literal : tok.type = .intLiteral)
    (value : tok.longValue = wrap64 c.digits.value)
    (typed : intTypeOf tok.literalType tok.isUnsigned = some type) :
    c.ReadAsInC99 l t ↔ c.c99Type = some type := by
  unfold IntConstant.ReadAsInC99
  cases c.c99Type with
  | none =>
    refine iff_of_false ?_ (Option.some_ne_none type).symm
    rintro ⟨message, failed⟩
    cases failed.symm.trans read
  | some type' =>
    constructor
    · rintro ⟨tok', read', -, -, typed'⟩
      cases read.symm.trans read'
      exact typed'.symm.trans typed
    · intro same
      exact ⟨tok, read, literal, value, typed.trans same.symm⟩

theorem literalKind_type (isUnsigned : Bool) (longs value : Nat) :
    ∃ type, intTypeOf (literalKind isUnsigned longs value) isUnsigned = some type := by
  unfold literalKind
  cases isUnsigned <;> (repeat' split) <;> exact ⟨_, rfl⟩

theorem typed_short (ends : NumberEnds t) (short : c.Short) (start : l.rest = c.text ++ t) :
    c.ReadAsInC99 l t ↔
      c.isUnsigned = true ∨ 2 ^ 64 ≤ c.digits.value ∨
        (c.digits.base = .decimal ∧ c.longs ≠ 2) ∨ c.digits.value < 2 ^ 31 ∨
        (c.digits.value < 2 ^ 63 ∧
          (c.digits.base = .decimal ∨ c.longs ≠ 0 ∨ 2 ^ 32 ≤ c.digits.value)) := by
  have types : Typed c.digits.base c.isUnsigned c.longs c.digits.value :=
    typed (suffix_longs c.valid) _
  obtain ⟨large, small⟩ := nextToken_short ends short start
  unfold Typed at types
  rw [← c99Type_eq] at types
  by_cases tooLarge : IntConstant.TooLarge c.isUnsigned c.longs c.digits.value
  · obtain ⟨message, failed⟩ := large tooLarge
    rw [if_neg fun fits => not_tooLarge.mpr fits tooLarge] at types
    rw [readAs_error failed, types]
    rcases tooLarge with huge | ⟨signed, one, large⟩
    · exact iff_of_true (.inl (Nat.not_lt_of_le huge)) (.inr (.inl huge))
    · constructor
      · rintro (huge | decimal)
        · exact .inr (.inl (Nat.le_of_not_lt huge))
        · exact .inr (.inr (.inl decimal))
      · rintro (unsigned | huge | decimal | less | ⟨less, -⟩)
        · exact absurd unsigned signed
        · exact .inl (Nat.not_lt_of_le huge)
        · exact .inr decimal
        · omega
        · omega
  · obtain ⟨tok, read, type, value, kind, unsigned, -⟩ := small tooLarge
    rw [if_pos (not_tooLarge.mp tooLarge)] at types
    obtain ⟨found, same⟩ := literalKind_type c.isUnsigned c.longs c.digits.value
    have fits := (not_tooLarge.mp tooLarge).1
    rw [readAs_ok read type value (by rw [kind, unsigned, same]), ← same, types]
    apply or_congr_right
    rw [or_iff_right (Nat.not_le_of_lt fits), Nat.not_lt]

theorem typed_long (ends : NumberEnds t) (long : ¬ c.Short) (start : l.rest = c.text ++ t) :
    c.ReadAsInC99 l t ↔ 2 ^ 63 ≤ c.digits.readValue := by
  obtain ⟨large, small⟩ := nextToken_long ends long start
  constructor
  · intro asInC99
    by_contra fits
    obtain ⟨tok, l', d, rest, read, left, hex⟩ := small (Nat.lt_of_not_le fits)
    unfold IntConstant.ReadAsInC99 at asInC99
    cases found : c.c99Type with
    | none =>
      rw [found] at asInC99
      obtain ⟨message, failed⟩ := asInC99
      cases failed.symm.trans read
    | some type =>
      rw [found] at asInC99
      obtain ⟨tok', read', -⟩ := asInC99
      cases read.symm.trans read'
      have other := ends.not_hex d (by rw [show t = d :: rest from left]; rfl)
      cases hex.symm.trans other
  · intro overflow
    obtain ⟨message, failed⟩ := large overflow
    have value := readValue_long long
    rw [readAs_error failed, c99Type_eq, List.find?_eq_none]
    intro t' member
    have known := bound_steps c.digits.base c.isUnsigned c.longs
      (Nat.lt_succ_of_le (suffix_longs c.valid)) t' member
    simp only [steps, List.mem_cons, List.not_mem_nil, or_false] at known
    rw [decide_eq_true_eq]
    omega

end Whole

/-- For every integer constant, whatever follows it, the lexer does what C99 says exactly under the
condition. -/
theorem integer_constant_typed_iff {c : IntConstant} {l : Lexer} {t : Text} (ends : NumberEnds t)
    (start : l.rest = c.text ++ t) : c.ReadAsInC99 l t ↔ c.TypedRight := by
  unfold IntConstant.TypedRight
  by_cases short : c.Short
  · rw [if_pos short]
    exact typed_short ends short start
  · rw [if_neg short]
    exact typed_long ends short start

theorem capitals_ne : ['F', 'F', 'F', 'F', 'F', 'F', 'F', 'F'] ≠ [] := List.cons_ne_nil _ _

theorem capitals_hex : ∀ c ∈ ['F', 'F', 'F', 'F', 'F', 'F', 'F', 'F'], isHexDigit c = true :=
  List.all_eq_true.mp rfl

theorem capital_suffix : ['U'] ∈ suffixes := by
  simp [suffixes]

def unsignedHex : IntConstant where
  digits := .hex false ['F', 'F', 'F', 'F', 'F', 'F', 'F', 'F'] capitals_ne capitals_hex
  suffix := ['U']
  valid := capital_suffix

theorem numberEnds_semicolon : NumberEnds [';'] := by
  intro c head
  cases head
  decide

/-- `0xFFFFFFFFU` before a semicolon is an `unsigned int`. -/
theorem unsigned_hex_typed :
    unsignedHex.ReadAsInC99 (lexerInit (unsignedHex.text ++ [';']) none) [';'] :=
  (integer_constant_typed_iff numberEnds_semicolon rfl).mpr (.inl rfl)

theorem no_suffix : [] ∈ suffixes := by
  simp [suffixes]

def plainHex : IntConstant := { unsignedHex with suffix := [], valid := no_suffix }

/-- `0xFFFFFFFF` is an `unsigned int`, and the lexer makes it a `long`. -/
theorem plain_hex_is_long : ¬ ∀ (c : IntConstant) (l : Lexer) (t : Text), NumberEnds t →
    l.rest = c.text ++ t → c.ReadAsInC99 l t := by
  intro all
  have read := all plainHex (lexerInit (plainHex.text ++ [';']) none) [';'] numberEnds_semicolon rfl
  obtain ⟨tok, next, -, -, typed⟩ := read
  cases next
  cases typed

end ClaudeC99.Literals
