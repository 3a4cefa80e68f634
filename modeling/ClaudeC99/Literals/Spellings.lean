import ClaudeC99.Literals.Integers

/-! The numeric constants of C99 as spelled, and which of them the lexer reads as one token. -/

namespace ClaudeC99.Literals

open Constant (NumberEnds no_newline)
open Front
open Numeral (isHexDigit)
open Preprocessor (Text isIdentChar)

/-- An exponent part: `e` or `E`, a sign that may be missing, digits. -/
structure Exponent where
  upper : Bool
  minus : Option Bool
  digits : Text
  some : digits ≠ []
  all : ∀ c ∈ digits, c.isDigit

namespace Exponent

def head (e : Exponent) : Text :=
  (if e.upper then 'E' else 'e') :: (e.minus.map fun minus => if minus then '-' else '+').toList

def text (e : Exponent) : Text := e.head ++ e.digits

end Exponent

/-- A decimal floating constant of C99; `fraction` is what follows the point, if there is one. -/
structure FloatConstant where
  whole : Text
  fraction : Option Text
  exponent : Option Exponent
  suffix : Option Char
  whole_all : ∀ c ∈ whole, c.isDigit
  fraction_all : ∀ f ∈ fraction, ∀ c ∈ f, c.isDigit
  some : whole ≠ [] ∨ ∃ f ∈ fraction, f ≠ []
  floating : fraction.isSome ∨ exponent.isSome
  valid : ∀ c ∈ suffix, c = 'f' ∨ c = 'F' ∨ c = 'l' ∨ c = 'L'

namespace FloatConstant

variable (c : FloatConstant)

def mantissa : Text := c.whole ++ c.fraction.elim [] ('.' :: ·)

def exponentText : Text := c.exponent.elim [] Exponent.text

def text : Text := c.mantissa ++ (c.exponentText ++ c.suffix.toList)

/-- The constants that are one token: no `l`, no digit behind a leading 0 before the point, and
digits that the buffer takes. -/
structure Whole : Prop where
  suffix : ∀ d ∈ c.suffix, d = 'f' ∨ d = 'F'
  leading : ∀ d rest, c.whole ≠ '0' :: d :: rest
  whole : c.whole.length ≤ 62
  fraction : ∀ f ∈ c.fraction, f ≠ [] → c.whole.length + 1 + f.length ≤ 62
  exponent : c.exponent.isSome → c.mantissa.length + c.exponentText.length ≤ 62
  text : c.text.length ≤ 63

end FloatConstant

inductive NumericConstant
  | integer (c : IntConstant)
  | floating (c : FloatConstant)

namespace NumericConstant

def text : NumericConstant → Text
  | integer c => c.text
  | floating c => c.text

def Whole : NumericConstant → Prop
  | integer c => c.Short ∧ ¬ IntConstant.TooLarge c.isUnsigned c.longs c.digits.value
  | floating c => c.Whole

end NumericConstant

def IsNumeric (type : TokenType) : Prop :=
  type = .intLiteral ∨ type = .floatLiteral ∨ type = .doubleLiteral

/-- The lexer reads the text, which stands before `t`, as one numeric token, and the token's text
and its end mark fit in the buffer. -/
def OneToken (l : Lexer) (text t : Text) : Prop :=
  ∃ tok, lexerNextToken l = .ok (tok, l.after text t) ∧
    IsNumeric tok.type ∧ tok.value.length < 64

/-- Something that belongs to a number is left. -/
def Continues (rest : Text) : Prop :=
  ∃ d after, rest = d :: after ∧ (isIdentChar d = true ∨ d = '.')

theorem not_continues {t : Text} (ends : NumberEnds t) : ¬ Continues t := by
  rintro ⟨d, after, rfl, continues⟩
  obtain ⟨plain, noPoint⟩ := ends d rfl
  rcases continues with letter | point
  · cases plain.symm.trans letter
  · exact noPoint point

theorem not_oneToken {l l' : Lexer} {tok : Token} {text t : Text} (ends : NumberEnds t)
    (read : lexerNextToken l = .ok (tok, l')) (left : Continues l'.rest) :
    ¬ OneToken l text t := by
  rintro ⟨tok', read', -⟩
  cases read.symm.trans read'
  exact not_continues ends left

/-! ### The end of a floating literal -/

section Tail

variable {l : Lexer} {t buf : Text} {position : Position}

theorem after_nil {rest : Text} (start : l.rest = rest) : l.after [] rest = l := by
  cases l
  cases start
  simp [Lexer.after]

theorem nextToken_dot {d : Char} {after : Text} (start : l.rest = '.' :: d :: after)
    (digit : d.isDigit) : lexerNextToken l = .ok (lexDotFloat l) := by
  unfold lexerNextToken
  rw [skipWhitespace_token start rfl]
  simp only [start, List.head?_cons, Option.any_some, digit, and_self, if_true]

theorem digit_continues {d : Char} (digit : d.isDigit) : isIdentChar d = true := by
  simp [isIdentChar, Char.isAlphanum, digit]

/-- The exponent and the suffix behind a mantissa that has been copied into `buf`. -/
def finishTail (buf : Text) (l : Lexer) (position : Position) : Token × Lexer :=
  let (buf, l) := (copyExponent buf l).getD (buf, l)
  finishFloat buf l position

theorem copyExponent_run (buf : Text) (e : Exponent) (stop : ∀ d ∈ t.head?, d.isDigit = false)
    (start : l.rest = e.text ++ t) :
    copyExponent buf l = some (buf ++ e.head ++ e.digits.take (62 - (buf ++ e.head).length),
      l.after (e.head ++ e.digits.take (62 - (buf ++ e.head).length))
        (e.digits.drop (62 - (buf ++ e.head).length) ++ t)) := by
  have plain : '\n' ∉ e.head := by
    unfold Exponent.head
    cases e.upper <;> rcases e.minus with _ | _ | _ <;> decide
  have skipped := skip_run e.head (l := l) (t := e.digits ++ t)
    (by rw [start, Exponent.text, List.append_assoc]) plain
  have copied := copyWhile_take (62 - (buf ++ e.head).length) (l := l.after e.head (e.digits ++ t))
    rfl e.all stop (no_newline e.all rfl)
  rw [after_after] at copied
  obtain ⟨d, rest, digits⟩ := List.exists_cons_of_ne_nil e.some
  have digit := e.all d (digits ▸ List.mem_cons_self)
  have noSign : ¬ (d = '+' ∨ d = '-') := by
    rintro (rfl | rfl) <;> cases digit
  have letter : (if e.upper then 'E' else 'e') = 'e' ∨ (if e.upper then 'E' else 'e') = 'E' := by
    cases e.upper <;> simp
  rw [Exponent.text, List.append_assoc] at start
  unfold copyExponent
  cases minus : e.minus with
  | none =>
    have head : e.head = [if e.upper then 'E' else 'e'] := by
      rw [Exponent.head, minus]
      rfl
    rw [head] at start skipped copied ⊢
    rw [start, digits]
    simp only [List.cons_append, List.nil_append, if_pos letter, if_neg noSign]
    change l.skip 1 = _ at skipped
    rw [skipped, ← digits, copied]
    rfl
  | some negative =>
    have head : e.head = [if e.upper then 'E' else 'e', if negative then '-' else '+'] := by
      rw [Exponent.head, minus]
      rfl
    have sign : (if negative then '-' else '+') = '+' ∨ (if negative then '-' else '+') = '-' := by
      cases negative <;> simp
    rw [head] at start skipped copied ⊢
    rw [start]
    simp only [List.cons_append, List.nil_append, if_pos letter, if_pos sign]
    change l.skip 2 = _ at skipped
    rw [skipped, copied]
    rfl

/-- The suffix behind a floating literal. -/
theorem finishFloat_suffix (buf : Text) (position : Position) {suffix : Option Char}
    (short : ∀ d ∈ suffix, d = 'f' ∨ d = 'F') (ends : NumberEnds t)
    (start : l.rest = suffix.toList ++ t) :
    ∃ tok, finishFloat buf l position = (tok, l.after suffix.toList t) ∧
      IsNumeric tok.type ∧
      tok.value = buf ++ suffix.toList := by
  cases suffix with
  | none =>
    rw [Option.toList_none, List.nil_append] at start
    unfold finishFloat
    rw [Option.toList_none, after_nil start, start]
    cases t with
    | nil => exact ⟨_, rfl, .inr (.inr rfl), (List.append_nil buf).symm⟩
    | cons d after =>
      have noF : ¬ (d = 'f' ∨ d = 'F') := by
        rintro (rfl | rfl) <;> cases (ends _ rfl).1
      simp only [if_neg noF]
      exact ⟨_, rfl, .inr (.inr rfl), (List.append_nil buf).symm⟩
  | some d =>
    have isF := short d rfl
    have advanced := lexerAdvance_cons start (by rcases isF with rfl | rfl <;> decide)
    unfold finishFloat
    rw [start]
    simp only [Option.toList_some, List.cons_append, List.nil_append, if_pos isF]
    exact ⟨_, congrArg _ advanced, .inr (.inl rfl), rfl⟩

/-- Without an `f` the floating literal ends where it is. -/
theorem finishFloat_rest {d : Char} {after : Text} (other : d ≠ 'f' ∧ d ≠ 'F')
    (start : l.rest = d :: after) : (finishFloat buf l position).2 = l := by
  unfold finishFloat
  rw [start]
  simp only [if_neg (not_or.mpr other)]

variable {c : FloatConstant}

/-- What follows the digits of a floating constant, from its suffix on. -/
theorem suffix_head (ends : NumberEnds t) : ∀ d ∈ (c.suffix.toList ++ t).head?,
    d.isDigit = false ∧ d ≠ 'e' ∧ d ≠ 'E' ∧ d ≠ '.' := by
  intro d head
  cases suffix : c.suffix with
  | none =>
    rw [suffix, Option.toList_none, List.nil_append] at head
    obtain ⟨plain, noPoint⟩ := ends d head
    refine ⟨?_, ?_, ?_, noPoint⟩
    · cases digit : d.isDigit with
      | false => rfl
      | true => cases plain.symm.trans (digit_continues digit)
    all_goals
      rintro rfl
      cases plain
  | some e =>
    rw [suffix] at head
    cases head
    rcases c.valid d suffix with rfl | rfl | rfl | rfl <;> decide

theorem copyExponent_suffix (ends : NumberEnds t) (start : l.rest = c.suffix.toList ++ t) :
    copyExponent buf l = none := by
  apply copyExponent_none
  intro d head
  rw [start] at head
  obtain ⟨-, noE, noE', -⟩ := suffix_head ends d head
  exact ⟨noE, noE'⟩

theorem tail_whole (buf : Text) (position : Position)
    (short : ∀ d ∈ c.suffix, d = 'f' ∨ d = 'F')
    (fits : c.exponent.isSome → buf.length + c.exponentText.length ≤ 62) (ends : NumberEnds t)
    (start : l.rest = c.exponentText ++ (c.suffix.toList ++ t)) :
    ∃ tok, finishTail buf l position = (tok, l.after (c.exponentText ++ c.suffix.toList) t) ∧
      IsNumeric tok.type ∧ tok.value = buf ++ (c.exponentText ++ c.suffix.toList) := by
  unfold finishTail
  unfold FloatConstant.exponentText at fits start ⊢
  cases exponent : c.exponent with
  | none =>
    rw [exponent] at start
    rw [copyExponent_suffix ends start]
    exact finishFloat_suffix buf position short ends start
  | some e =>
    rw [exponent] at start fits
    have room := fits rfl
    simp only [Option.elim_some, Exponent.text, List.length_append] at room
    have stop := fun d head => (suffix_head (c := c) ends d head).1
    rw [copyExponent_run buf e stop start]
    have enough : e.digits.length ≤ 62 - (buf ++ e.head).length := by
      rw [List.length_append]
      omega
    rw [List.take_of_length_le enough, List.drop_of_length_le enough]
    obtain ⟨tok, read, numeric, value⟩ := finishFloat_suffix
      (buf ++ e.head ++ e.digits) position
      (l := l.after (e.head ++ e.digits) (c.suffix.toList ++ t)) short ends rfl
    rw [after_after] at read
    refine ⟨tok, read, numeric, ?_⟩
    rw [value]
    simp [Exponent.text]

/-- A digit of the exponent or the suffix is left. -/
theorem tail_cut (cut : ¬ ((∀ d ∈ c.suffix, d = 'f' ∨ d = 'F') ∧
      (c.exponent.isSome → buf.length + c.exponentText.length ≤ 62)))
    (ends : NumberEnds t) (start : l.rest = c.exponentText ++ (c.suffix.toList ++ t)) :
    Continues (finishTail buf l position).2.rest := by
  have long {l' : Lexer} {buf' : Text} (start' : l'.rest = c.suffix.toList ++ t)
      (bad : ¬ ∀ d ∈ c.suffix, d = 'f' ∨ d = 'F') :
      Continues (finishFloat buf' l' position).2.rest := by
    cases suffix : c.suffix with
    | none =>
      rw [suffix] at bad
      exact absurd (fun d none => by cases none) bad
    | some d =>
      rw [suffix] at bad start'
      have isL : d = 'l' ∨ d = 'L' := by
        rcases c.valid d suffix with isF | isF | isL | isL
        · exact absurd (fun d' same => Option.some.inj same ▸ .inl isF) bad
        · exact absurd (fun d' same => Option.some.inj same ▸ .inr isF) bad
        · exact .inl isL
        · exact .inr isL
      rw [finishFloat_rest (by rcases isL with rfl | rfl <;> decide) start', start']
      exact ⟨d, t, rfl, .inl (by rcases isL with rfl | rfl <;> rfl)⟩
  unfold finishTail
  unfold FloatConstant.exponentText at cut start
  cases exponent : c.exponent with
  | none =>
    rw [exponent] at start cut
    rw [copyExponent_suffix ends start]
    exact long start fun short => cut ⟨short, by simp⟩
  | some e =>
    rw [exponent] at start cut
    have stop := fun d head => (suffix_head (c := c) ends d head).1
    rw [copyExponent_run buf e stop start]
    cases left : e.digits.drop (62 - (buf ++ e.head).length) with
    | nil =>
      apply long rfl
      intro short
      apply cut ⟨short, fun _ => ?_⟩
      have few := List.drop_eq_nil_iff.mp left
      have some := List.length_pos_iff.mpr e.some
      simp only [Option.elim_some, Exponent.text, List.length_append] at few ⊢
      omega
    | cons d rest =>
      have digit := e.all d (List.mem_of_mem_drop (left ▸ List.mem_cons_self))
      have other : d ≠ 'f' ∧ d ≠ 'F' := by
        constructor <;> (rintro rfl; cases digit)
      rw [Option.getD_some, finishFloat_rest other rfl]
      exact ⟨d, _, rfl, .inl (digit_continues digit)⟩

theorem tail_digit {d : Char} {after : Text} (digit : d.isDigit) (start : l.rest = d :: after) :
    Continues (finishTail buf l position).2.rest := by
  have other : d ≠ 'f' ∧ d ≠ 'F' := by
    constructor <;> (rintro rfl; cases digit)
  have none : copyExponent buf l = none := by
    apply copyExponent_none
    intro e head
    rw [start] at head
    cases head
    constructor <;> (rintro rfl; cases digit)
  rw [finishTail, none, Option.getD_none, finishFloat_rest other start, start]
  exact ⟨d, after, rfl, .inl (digit_continues digit)⟩

theorem finishInteger_left {value : Nat} {isOctal : Bool} {tok : Token} {l' : Lexer} {d : Char}
    {after : Text} (start : l.rest = d :: after) (noSuffix : isSuffixChar d = false)
    (continues : isIdentChar d = true ∨ d = '.')
    (read : finishInteger buf value isOctal l position = .ok (tok, l')) : Continues l'.rest := by
  have last := (Constant.finishInteger_type read).2
  simp only [Lexer.copyWhile, start, List.takeWhile_cons, noSuffix] at last
  rw [last]
  exact ⟨d, after, start, continues⟩

/-- A point behind the digits, and no second one. -/
theorem floatContinuation_point {after : Text} (start : l.rest = '.' :: after)
    (noRange : ∀ rest, after ≠ '.' :: rest) {digits : Text} {l' : Lexer}
    (copied : (lexerAdvance l).copyWhile Char.isDigit (62 - (buf.length + 1)) = (digits, l')) :
    floatContinuation buf l = some ((copyExponent (buf ++ '.' :: digits) l').getD
      (buf ++ '.' :: digits, l')) := by
  unfold floatContinuation
  rw [start]
  cases after with
  | nil => simp only [copied]
  | cons d rest =>
    have noPoint : d ≠ '.' := by
      rintro rfl
      exact noRange rest rfl
    simp only [copied]

theorem floatContinuation_exponent {d : Char} {after : Text} (start : l.rest = d :: after)
    (noPoint : d ≠ '.') : floatContinuation buf l = copyExponent buf l := by
  unfold floatContinuation
  rw [start]
  split
  · rfl
  next point =>
    cases point
    exact absurd rfl noPoint
  · rfl

end Tail

/-! ### Before the exponent -/

section Mantissa

variable {c : FloatConstant} {l : Lexer} {t : Text}

theorem digit_not_suffix {d : Char} (digit : d.isDigit) : isSuffixChar d = false := by
  rcases digit_cases digit with rfl | rfl | rfl | rfl | rfl | rfl | rfl | rfl | rfl | rfl <;> rfl

/-- What follows the digits before the point. -/
def FloatConstant.afterWhole (c : FloatConstant) (t : Text) : Text :=
  c.fraction.elim [] ('.' :: ·) ++ (c.exponentText ++ (c.suffix.toList ++ t))

theorem FloatConstant.text_append (c : FloatConstant) (t : Text) :
    c.text ++ t = c.whole ++ c.afterWhole t := by
  simp [text, mantissa, afterWhole]

/-- A point or an exponent follows. -/
theorem afterWhole_head (c : FloatConstant) (t : Text) :
    ∃ d after, c.afterWhole t = d :: after ∧ (d = '.' ∨ d = 'e' ∨ d = 'E') := by
  unfold FloatConstant.afterWhole FloatConstant.exponentText
  cases fraction : c.fraction with
  | some f => exact ⟨_, _, rfl, .inl rfl⟩
  | none =>
    cases exponent : c.exponent with
    | none =>
      have floating := c.floating
      rw [fraction, exponent] at floating
      simp at floating
    | some e =>
      refine ⟨_, _, rfl, ?_⟩
      cases e.upper <;> simp

/-- What is left of the digits before the point, with what follows them. -/
theorem whole_head (room : Nat) : ∃ d after, c.whole.drop room ++ c.afterWhole t = d :: after ∧
    isSuffixChar d = false ∧ (isIdentChar d = true ∨ d = '.') := by
  cases left : c.whole.drop room with
  | nil =>
    obtain ⟨d, after, same, cases⟩ := afterWhole_head c t
    refine ⟨d, after, same, ?_⟩
    rcases cases with rfl | rfl | rfl <;> decide
  | cons d rest =>
    have digit := c.whole_all d (List.mem_of_mem_drop (left ▸ List.mem_cons_self))
    exact ⟨d, _, rfl, digit_not_suffix digit, .inl (digit_continues digit)⟩

theorem whole_stop : ∀ d ∈ (c.afterWhole t).head?, d.isDigit = false := by
  obtain ⟨d, after, same, cases⟩ := afterWhole_head c t
  rw [same]
  intro e head
  cases head
  rcases cases with rfl | rfl | rfl <;> rfl

/-- A digit behind a leading 0 makes an octal constant or an error. -/
theorem leading_zero {d : Char} {rest : Text} (leading : c.whole = '0' :: d :: rest)
    (start : l.rest = c.text ++ t) {tok : Token} {l' : Lexer}
    (read : lexerNextToken l = .ok (tok, l')) : Continues l'.rest := by
  have digit := c.whole_all d (by simp [leading])
  have noMark : ¬ (d = 'x' ∨ d = 'X') := by
    rintro (rfl | rfl) <;> cases digit
  rw [c.text_append] at start
  have copied := copyWhile_take 62 start c.whole_all whole_stop
    (no_newline c.whole_all rfl)
  rw [leading] at start
  obtain ⟨e, after, head, noSuffix, continues⟩ := whole_head 62 (c := c) (t := t)
  rw [nextToken_number start rfl] at read
  unfold lexNumber at read
  rw [start] at read
  simp only [List.cons_append, if_neg noMark, if_pos digit, copied] at read
  split at read
  · cases read
  · exact finishInteger_left head noSuffix continues read

/-- No mark and no digit follows a 0 that stands alone before the point or the exponent. -/
theorem zero_alone (unled : ∀ d rest, c.whole ≠ '0' :: d :: rest) (some : c.whole ≠ [])
    {d : Char} {rest : Text} (zero : c.whole ++ c.afterWhole t = '0' :: d :: rest) :
    ¬ (d = 'x' ∨ d = 'X') ∧ d.isDigit = false := by
  obtain ⟨e, after, same, cases⟩ := afterWhole_head c t
  cases whole : c.whole with
  | nil => exact absurd whole some
  | cons first others =>
    rw [whole, same] at zero
    cases others with
    | nil =>
      cases zero
      rcases cases with rfl | rfl | rfl <;> decide
    | cons d' others =>
      cases zero
      exact absurd whole (unled d others)

/-- The digits before the point are copied, as far as there is room. -/
theorem nextToken_whole (unled : ∀ d rest, c.whole ≠ '0' :: d :: rest) (some : c.whole ≠ [])
    (start : l.rest = c.text ++ t) {l₁ : Lexer}
    (behind : l.after (c.whole.take 62) (c.whole.drop 62 ++ c.afterWhole t) = l₁) :
    (∀ buf l', floatContinuation (c.whole.take 62) l₁ = .some (buf, l') →
      lexerNextToken l = .ok (finishFloat buf l' l.position)) ∧
    (floatContinuation (c.whole.take 62) l₁ = none → lexerNextToken l =
      finishInteger (c.whole.take 62) (Numeral.digitsValue 10 (c.whole.take 62)) false l₁
        l.position) := by
  rw [c.text_append] at start
  have copied := copyWhile_take 62 start c.whole_all whole_stop
    (no_newline c.whole_all rfl)
  rw [behind] at copied
  obtain ⟨first, others, whole⟩ := List.exists_cons_of_ne_nil some
  have digit := c.whole_all first (whole ▸ List.mem_cons_self)
  rw [nextToken_number (start.trans (by rw [whole]; rfl)) digit]
  unfold lexNumber
  rw [copied]
  dsimp only
  constructor
  · intro buf l' continuation
    rw [continuation]
    split
    next d rest zero =>
      rw [start] at zero
      obtain ⟨noMark, noDigit⟩ := zero_alone unled some zero
      rw [if_neg noMark, if_neg (by simp [noDigit])]
    · rfl
  · intro none
    rw [none]
    split
    next d rest zero =>
      rw [start] at zero
      obtain ⟨noMark, noDigit⟩ := zero_alone unled some zero
      rw [if_neg noMark, if_neg (by simp [noDigit])]
    · rfl

theorem nextToken_crowded (unled : ∀ d rest, c.whole ≠ '0' :: d :: rest)
    (many : 62 < c.whole.length) (start : l.rest = c.text ++ t) {tok : Token} {l' : Lexer}
    (read : lexerNextToken l = .ok (tok, l')) : Continues l'.rest := by
  have some : c.whole ≠ [] := by
    rintro nil
    simp [nil] at many
  obtain ⟨d, rest, left⟩ := List.exists_cons_of_length_pos (l := c.whole.drop 62)
    (by rw [List.length_drop]; omega)
  have digit := c.whole_all d (List.mem_of_mem_drop (left ▸ List.mem_cons_self))
  have none := floatContinuation_none
    (l := l.after (c.whole.take 62) (c.whole.drop 62 ++ c.afterWhole t)) (c.whole.take 62) (by
      rw [left]
      rintro e head
      cases head
      rcases digit_cases digit with rfl | rfl | rfl | rfl | rfl | rfl | rfl | rfl | rfl | rfl
      all_goals decide)
  rw [(nextToken_whole unled some start rfl).2 none] at read
  obtain ⟨e, after, head, noSuffix, continues⟩ := whole_head 62 (c := c) (t := t)
  exact finishInteger_left head noSuffix continues read

theorem fraction_stop (ends : NumberEnds t) :
    ∀ d ∈ (c.exponentText ++ (c.suffix.toList ++ t)).head?, d.isDigit = false ∧ d ≠ '.' := by
  intro d head
  unfold FloatConstant.exponentText at head
  cases exponent : c.exponent with
  | none =>
    rw [exponent] at head
    obtain ⟨noDigit, -, -, noPoint⟩ := suffix_head ends d head
    exact ⟨noDigit, noPoint⟩
  | some e =>
    rw [exponent] at head
    cases head
    cases e.upper <;> decide

/-- The point and the digits behind it are copied, as far as there is room. -/
theorem nextToken_point {f : Text} (ends : NumberEnds t)
    (unled : ∀ d rest, c.whole ≠ '0' :: d :: rest) (few : c.whole.length ≤ 62)
    (fraction : c.fraction = some f) (start : l.rest = c.text ++ t) :
    let buf := c.whole ++ '.' :: f.take (62 - (c.whole.length + 1))
    lexerNextToken l = .ok (finishTail buf (l.after buf
      (f.drop (62 - (c.whole.length + 1)) ++ (c.exponentText ++ (c.suffix.toList ++ t))))
      l.position) := by
  intro buf
  have all := c.fraction_all f fraction
  have behind : c.afterWhole t = '.' :: (f ++ (c.exponentText ++ (c.suffix.toList ++ t))) := by
    simp [FloatConstant.afterWhole, fraction]
  have stop := fun d head => (fraction_stop (c := c) ends d head).1
  -- the lexer behind the point copies the digits
  have copied (l₁ : Lexer) (run : Text) (at_point : l₁ = l.after run (c.afterWhole t)) :
      (lexerAdvance l₁).copyWhile Char.isDigit (62 - (c.whole.length + 1)) =
        (f.take (62 - (c.whole.length + 1)),
          l.after (run ++ '.' :: f.take (62 - (c.whole.length + 1)))
            (f.drop (62 - (c.whole.length + 1)) ++
              (c.exponentText ++ (c.suffix.toList ++ t)))) := by
    have advanced : lexerAdvance l₁ = l.after (run ++ ['.'])
        (f ++ (c.exponentText ++ (c.suffix.toList ++ t))) := by
      rw [← after_after l run (c.afterWhole t), ← at_point]
      apply lexerAdvance_cons _ (by decide)
      rw [at_point, behind]
      rfl
    have digits := copyWhile_take (62 - (c.whole.length + 1)) (l := lexerAdvance l₁)
      (by rw [advanced]; rfl) all stop (no_newline all rfl)
    rw [digits, advanced, after_after, List.append_assoc]
    rfl
  by_cases none : c.whole = []
  · obtain ⟨first, others, some⟩ : ∃ first others, f = first :: others := by
      rcases c.some with some | ⟨f', same, some⟩
      · exact absurd none some
      · cases fraction.symm.trans same
        exact List.exists_cons_of_ne_nil some
    have digit := all first (some ▸ List.mem_cons_self)
    rw [c.text_append, none, List.nil_append] at start
    have digits := copied l [] (after_nil start).symm
    rw [behind, some] at start
    rw [nextToken_dot start digit]
    simp only [buf, none, List.length_nil, List.nil_append] at digits ⊢
    unfold lexDotFloat
    rw [digits]
    rfl
  · have whole : c.whole.take 62 = c.whole := List.take_of_length_le few
    have continued := (nextToken_whole unled none start rfl).1
    rw [whole, List.drop_of_length_le few, List.nil_append] at continued
    apply continued
    have noRange : ∀ rest, f ++ (c.exponentText ++ (c.suffix.toList ++ t)) ≠ '.' :: rest := by
      intro rest same
      cases digits : f with
      | nil =>
        rw [digits, List.nil_append] at same
        exact (fraction_stop (c := c) ends '.' (by rw [same]; rfl)).2 rfl
      | cons d others =>
        rw [digits] at same
        cases (List.cons.inj same).1
        cases all '.' (digits ▸ List.mem_cons_self)
    exact floatContinuation_point behind noRange (copied _ c.whole rfl)

theorem nextToken_exponent (ends : NumberEnds t) (unled : ∀ d rest, c.whole ≠ '0' :: d :: rest)
    (few : c.whole.length ≤ 62) (fraction : c.fraction = none) (start : l.rest = c.text ++ t) :
    lexerNextToken l = .ok (finishTail c.whole
      (l.after c.whole (c.exponentText ++ (c.suffix.toList ++ t))) l.position) := by
  have some : c.whole ≠ [] := by
    rcases c.some with some | ⟨f, same, -⟩
    · exact some
    · cases fraction.symm.trans same
  have behind : c.afterWhole t = c.exponentText ++ (c.suffix.toList ++ t) := by
    simp [FloatConstant.afterWhole, fraction]
  have whole : c.whole.take 62 = c.whole := List.take_of_length_le few
  have continued := (nextToken_whole unled some start rfl).1
  rw [whole, List.drop_of_length_le few, List.nil_append, behind] at continued
  apply continued
  cases exponent : c.exponent with
  | none =>
    have floating := c.floating
    simp [fraction, exponent] at floating
  | some e =>
    have stop := fun d head => (suffix_head (c := c) ends d head).1
    have copied := copyExponent_run c.whole
      (l := l.after c.whole (e.text ++ (c.suffix.toList ++ t))) e stop rfl
    have text : c.exponentText = e.text := by
      rw [FloatConstant.exponentText, exponent]
      rfl
    have noPoint : (if e.upper then 'E' else 'e') ≠ '.' := by
      cases e.upper <;> decide
    rw [floatContinuation_exponent (by rw [text]; rfl) noPoint]
    simp only [text, copied]

end Mantissa

/-! ### Every constant -/

section Constants

variable {c : FloatConstant} {l : Lexer} {t : Text}

theorem FloatConstant.mantissa_point {c : FloatConstant} {f : Text}
    (fraction : c.fraction = .some f) : c.mantissa = c.whole ++ '.' :: f := by
  simp [mantissa, fraction]

theorem FloatConstant.mantissa_plain {c : FloatConstant} (fraction : c.fraction = none) :
    c.mantissa = c.whole := by
  simp [mantissa, fraction]

/-- Where the mantissa is copied as a whole, the lexer goes on with the exponent. -/
theorem nextToken_mantissa (ends : NumberEnds t) (unled : ∀ d rest, c.whole ≠ '0' :: d :: rest)
    (few : c.whole.length ≤ 62)
    (fits : ∀ f ∈ c.fraction, f ≠ [] → c.whole.length + 1 + f.length ≤ 62)
    (start : l.rest = c.text ++ t) :
    lexerNextToken l = .ok (finishTail c.mantissa
      (l.after c.mantissa (c.exponentText ++ (c.suffix.toList ++ t))) l.position) := by
  cases fraction : c.fraction with
  | none =>
    rw [c.mantissa_plain fraction]
    exact nextToken_exponent ends unled few fraction start
  | some f =>
    have enough : f.length ≤ 62 - (c.whole.length + 1) := by
      by_cases none : f = []
      · simp [none]
      · have room := fits f fraction none
        omega
    have read := nextToken_point ends unled few fraction start
    simp only [List.take_of_length_le enough, List.drop_of_length_le enough,
      List.nil_append] at read
    rw [c.mantissa_point fraction]
    exact read

theorem floating_whole (ends : NumberEnds t) (whole : c.Whole) (start : l.rest = c.text ++ t) :
    OneToken l c.text t := by
  have read := nextToken_mantissa ends whole.leading whole.whole whole.fraction start
  obtain ⟨tok, tail, numeric, value⟩ := tail_whole c.mantissa l.position (c := c)
    (l := l.after c.mantissa (c.exponentText ++ (c.suffix.toList ++ t)))
    whole.suffix whole.exponent ends rfl
  rw [tail, after_after] at read
  exact ⟨tok, read, numeric, value ▸ Nat.lt_succ_of_le whole.text⟩

theorem whole_of_floating (ends : NumberEnds t) (start : l.rest = c.text ++ t)
    (one : OneToken l c.text t) : c.Whole := by
  obtain ⟨tok, read, numeric, room⟩ := one
  have ended : ∀ {tok' l'}, lexerNextToken l = .ok (tok', l') → ¬ Continues l'.rest := by
    intro tok' l' read' left
    exact not_oneToken ends read' left ⟨tok, read, numeric, room⟩
  have unled : ∀ d rest, c.whole ≠ '0' :: d :: rest := fun d rest leading =>
    ended read (leading_zero leading start read)
  have few : c.whole.length ≤ 62 := by
    by_contra many
    exact ended read (nextToken_crowded unled (Nat.lt_of_not_le many) start read)
  have fits : ∀ f ∈ c.fraction, f ≠ [] → c.whole.length + 1 + f.length ≤ 62 := by
    intro f fraction some
    by_contra long
    have pointed := nextToken_point ends unled few fraction start
    obtain ⟨d, rest, left⟩ := List.exists_cons_of_length_pos
      (l := f.drop (62 - (c.whole.length + 1))) (by
        have pos := List.length_pos_iff.mpr some
        rw [List.length_drop]
        omega)
    have digit := c.fraction_all f fraction d
      (List.mem_of_mem_drop (left ▸ List.mem_cons_self))
    exact ended pointed (tail_digit digit (by rw [left]; rfl))
  have copied := nextToken_mantissa ends unled few fits start
  have tail : (∀ d ∈ c.suffix, d = 'f' ∨ d = 'F') ∧
      (c.exponent.isSome → c.mantissa.length + c.exponentText.length ≤ 62) := by
    by_contra cut
    exact ended copied (tail_cut cut ends rfl)
  obtain ⟨tok', finished, -, value⟩ := tail_whole c.mantissa l.position (c := c)
    (l := l.after c.mantissa (c.exponentText ++ (c.suffix.toList ++ t)))
    tail.1 tail.2 ends rfl
  rw [finished] at copied
  obtain ⟨rfl, -⟩ := Prod.mk.inj (Except.ok.inj (copied.symm.trans read))
  rw [value] at room
  exact ⟨tail.1, unled, few, fits, tail.2, Nat.le_of_lt_succ room⟩

theorem integer_oneToken {c : IntConstant} (ends : NumberEnds t) (start : l.rest = c.text ++ t) :
    OneToken l c.text t ↔
      c.Short ∧ ¬ IntConstant.TooLarge c.isUnsigned c.longs c.digits.value := by
  constructor
  · intro one
    have short : c.Short := by
      by_contra long
      obtain ⟨large, small⟩ := nextToken_long ends long start
      by_cases overflow : 2 ^ 63 ≤ c.digits.readValue
      · obtain ⟨message, failed⟩ := large overflow
        obtain ⟨tok, read, -⟩ := one
        cases failed.symm.trans read
      · obtain ⟨tok, l', d, rest, read, left, hex⟩ := small (Nat.lt_of_not_le overflow)
        exact not_oneToken ends read ⟨d, rest, left, .inl (Constant.identChar_of_hex hex)⟩ one
    refine ⟨short, fun tooLarge => ?_⟩
    obtain ⟨message, failed⟩ := (nextToken_short ends short start).1 tooLarge
    obtain ⟨tok, read, -⟩ := one
    cases failed.symm.trans read
  · rintro ⟨short, fits⟩
    obtain ⟨tok, read, type, -, -, -, length⟩ := (nextToken_short ends short start).2 fits
    exact ⟨tok, read, .inl type, Nat.lt_of_le_of_lt length (by decide)⟩

end Constants

/-- A numeric constant of C99, whatever follows it, is one token exactly under the condition. -/
theorem one_token_iff {c : NumericConstant} {l : Lexer} {t : Text} (ends : NumberEnds t)
    (start : l.rest = c.text ++ t) : OneToken l c.text t ↔ c.Whole := by
  cases c with
  | integer c => exact integer_oneToken ends start
  | floating c => exact ⟨whole_of_floating ends start, fun whole => floating_whole ends whole start⟩

theorem one_all : ∀ c ∈ ['1'], c.isDigit := List.all_eq_true.mp rfl

theorem five_all : ∀ f ∈ some ['5'], ∀ c ∈ f, c.isDigit := by
  intro f same
  cases same
  exact List.all_eq_true.mp rfl

theorem one_some : ['1'] ≠ [] ∨ ∃ f ∈ some ['5'], f ≠ [] := .inl (List.cons_ne_nil _ _)

theorem point_floating {e : Option Exponent} : (some ['5']).isSome ∨ e.isSome := .inl rfl

theorem float_suffix : ∀ c ∈ some 'f', c = 'f' ∨ c = 'F' ∨ c = 'l' ∨ c = 'L' := by
  intro c same
  exact .inl (Option.some.inj same).symm

theorem long_suffix : ∀ c ∈ some 'L', c = 'f' ∨ c = 'F' ∨ c = 'l' ∨ c = 'L' := by
  intro c same
  exact .inr (.inr (.inr (Option.some.inj same).symm))

def floatOneFive : FloatConstant where
  whole := ['1']
  fraction := some ['5']
  exponent := none
  suffix := some 'f'
  whole_all := one_all
  fraction_all := five_all
  some := one_some
  floating := point_floating
  valid := float_suffix

def longDoubleOneFive : FloatConstant :=
  { floatOneFive with suffix := some 'L', valid := long_suffix }

theorem numberEnds_blank : NumberEnds [' '] := by
  intro c head
  cases head
  decide

/-- `1.5f` before a blank. -/
theorem float_is_one_token : OneToken (lexerInit ("1.5f ".toList) none) "1.5f".toList [' '] := by
  refine (one_token_iff (c := .floating floatOneFive) numberEnds_blank rfl).mpr ?_
  constructor
  · intro d same
    exact .inl (Option.some.inj same).symm
  · intro d rest leading
    cases leading
  · decide
  · intro f same _
    cases same
    decide
  · intro exponent
    cases exponent
  · decide

/-- `1.5L` is a `double` and an identifier. -/
theorem long_double_split : ¬ ∀ (c : NumericConstant) (l : Lexer) (t : Text),
    l.rest = c.text ++ ' ' :: t → OneToken l c.text (' ' :: t) := by
  intro all
  obtain ⟨tok, read, -⟩ :=
    all (.floating longDoubleOneFive) (lexerInit ("1.5L ".toList) none) [] rfl
  have rest : ['L', ' '] = [' '] :=
    congrArg (fun r => (r.map fun p => p.2.rest).toOption.getD []) read
  cases rest

end ClaudeC99.Literals
