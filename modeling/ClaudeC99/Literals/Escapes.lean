import ClaudeC99.Front.Scan

/-! The escape sequences in string literals and in character constants. -/

namespace ClaudeC99.Literals

open Front
open Numeral (isHexDigit digitsValue)
open Preprocessor (Text)

/-- An escape sequence; `simple` is a backslash and any one character that starts no number. -/
inductive Escape
  | simple (c : Char) (letter : c ≠ 'x' ∧ isOctalDigit c = false)
  | octal (digits : Text) (some : digits ≠ []) (few : digits.length ≤ 3)
      (all : ∀ d ∈ digits, isOctalDigit d)
  | hex (digits : Text) (all : ∀ d ∈ digits, isHexDigit d)

namespace Escape

def text : Escape → Text
  | simple c _ => ['\\', c]
  | octal digits _ _ _ => '\\' :: digits
  | hex digits _ => '\\' :: 'x' :: digits

/-- `"\…"`, before `t`. -/
def inString (e : Escape) (t : Text) : Text := '"' :: (e.text ++ '"' :: t)

/-- `'\…'`, before `t`. -/
def inChar (e : Escape) (t : Text) : Text := '\'' :: (e.text ++ '\'' :: t)

/-- The escape of a quote that ends a literal. -/
def IsDelimiter (e : Escape) : Prop := e.text = ['\\', '\''] ∨ e.text = ['\\', '"']

end Escape

def Accepted (l : Lexer) : Prop := ∃ tok l', lexerNextToken l = .ok (tok, l')

def Decodes (l : Lexer) (byte : Char) : Prop :=
  ∃ tok l', lexerNextToken l = .ok (tok, l') ∧ tok.value = [byte]

/-- Both literals with this escape alone are accepted or both are not, and they decode it
equally. -/
structure SameLiterals (e : Escape) (l : Lexer) (t : Text) : Prop where
  accepted : ¬ e.IsDelimiter →
    (Accepted { l with rest := e.inChar t } ↔ Accepted { l with rest := e.inString t })
  decoded : ∀ a b, Decodes { l with rest := e.inChar t } a →
    Decodes { l with rest := e.inString t } b → a = b

/-- `\a`, `\b`, `\f`, `\v` and `\?` -/
def Escape.InCharOnly (e : Escape) : Prop :=
  e.text ∈ [['\\', 'a'], ['\\', 'b'], ['\\', 'f'], ['\\', 'v'], ['\\', '?']]

/-! ### One escape sequence -/

/-- The character that an escape sequence stands for, given the table of the simple ones. -/
def Escape.decode (table : Char → Option Char) : Escape → Option Char
  | .simple c _ => table c
  | .octal digits _ _ _ => some (lowByte (digitsValue 8 digits))
  | .hex digits _ => if digits = [] then none else some (lowByte (digitsValue 16 digits))

section Decode

variable {l : Lexer} {e : Escape} {quote : Char} {t : Text}

theorem copyWhile_quoted {p : Char → Bool} {run : Text} {room : Nat}
    (start : l.rest = run ++ quote :: t) (all : ∀ c ∈ run, p c) (closing : p quote = false)
    (fits : run.length ≤ room) : l.copyWhile p room = (run, l.skip run.length) := by
  have taken : l.rest.takeWhile p = run := by
    rw [start, List.takeWhile_append_of_pos all, List.takeWhile_cons_of_neg (by simp [closing]),
      List.append_nil]
  simp only [Lexer.copyWhile, taken, List.take_of_length_le fits]

theorem skip_skip (l : Lexer) (m n : Nat) : (l.skip m).skip n = l.skip (m + n) := by
  induction m generalizing l with
  | zero => rw [Lexer.skip, Nat.zero_add]
  | succ m ih => rw [Lexer.skip, ih, Nat.succ_add, Lexer.skip]

theorem lexEscape_eq (table : Char → Option Char) (start : l.rest = e.text ++ quote :: t)
    (noHex : isHexDigit quote = false) (noOctal : isOctalDigit quote = false)
    (literal : String) :
    (∀ c, e.decode table = some c →
      lexEscape table literal l = .ok (c, l.skip e.text.length)) ∧
    (e.decode table = none → ∃ message, lexEscape table literal l = .error message) := by
  cases e with
  | simple c letter =>
    obtain ⟨notHex, notOctal⟩ := letter
    have read : lexEscape table literal l = (table c).elim
        (.error ("error: invalid escape sequence in " ++ literal)) fun d => .ok (d, l.skip 2) := by
      unfold lexEscape
      rw [start]
      simp only [Escape.text, List.cons_append, notHex, notOctal, if_false, Bool.false_eq_true]
      cases table c <;> rfl
    rw [read]
    constructor
    · intro d known
      change table c = some d at known
      rw [known]
      rfl
    · intro unknown
      change table c = none at unknown
      rw [unknown]
      exact ⟨_, rfl⟩
  | octal digits some few all =>
    obtain ⟨d, rest, rfl⟩ := List.exists_cons_of_ne_nil some
    have octal := all d List.mem_cons_self
    have notHex : d ≠ 'x' := by
      rintro rfl
      cases octal
    have behind : (l.skip 1).rest = (d :: rest) ++ quote :: t := by
      rw [skip_rest, start]
      rfl
    have read : lexEscape table literal l =
        .ok (lowByte (digitsValue 8 (d :: rest)),
          l.skip (Escape.octal _ some few all).text.length) := by
      unfold lexEscape
      rw [start]
      simp only [Escape.text, List.cons_append, notHex, octal, if_false, if_true]
      rw [copyWhile_quoted behind all noOctal few, skip_skip, Nat.add_comm 1]
      rfl
    constructor
    · intro c known
      cases known
      exact read
    · intro unknown
      cases unknown
  | hex digits all =>
    have behind : (l.skip 2).rest = digits ++ quote :: t := by
      rw [skip_rest, start]
      rfl
    have room : digits.length ≤ l.rest.length := by
      rw [start]
      simp [Escape.text]
      omega
    have read : lexEscape table literal l = if digits = [] then
        .error ("error: invalid hex escape in " ++ literal) else
        .ok (lowByte (digitsValue 16 digits), l.skip (Escape.hex _ all).text.length) := by
      unfold lexEscape
      rw [copyWhile_quoted behind all noHex room, skip_skip, Nat.add_comm 2, start]
      rfl
    rw [read]
    constructor
    · intro c known
      simp only [Escape.decode] at known
      split at known
      · cases known
      · rename_i some
        cases known
        rw [if_neg some]
    · intro unknown
      simp only [Escape.decode] at unknown
      split at unknown
      · rename_i none
        rw [if_pos none]
        exact ⟨_, rfl⟩
      · cases unknown

/-! ### One literal -/

/-- The text of an escape sequence is a backslash and something else. -/
theorem text_cons (e : Escape) : ∃ d rest, e.text = '\\' :: d :: rest := by
  cases e with
  | simple c letter => exact ⟨c, [], rfl⟩
  | octal digits some few all =>
    obtain ⟨d, rest, rfl⟩ := List.exists_cons_of_ne_nil some
    exact ⟨d, rest, rfl⟩
  | hex digits all => exact ⟨'x', digits, rfl⟩

theorem lexString_eq (start : l.rest = e.inString t) :
    (∀ c, e.decode stringEscape = some c →
      ∃ l', lexString l = .ok ([c], l')) ∧
    (e.decode stringEscape = none → ∃ message, lexString l = .error message) := by
  obtain ⟨d, rest, text⟩ := text_cons e
  have behind : (lexerAdvance l).rest = e.text ++ '"' :: t := by
    rw [lexerAdvance_rest, start]
    rfl
  obtain ⟨known, unknown⟩ := lexEscape_eq stringEscape behind rfl rfl "string literal"
  have rounds : ∃ n, l.rest.length = n + 2 := by
    refine ⟨(e.text ++ t).length, ?_⟩
    rw [start]
    simp [Escape.inString]
    omega
  obtain ⟨n, rounds⟩ := rounds
  have first : lexString l = (lexEscape stringEscape "string literal" (lexerAdvance l)).bind
      fun read => lexStringLoop (n + 1) [read.1] read.2 := by
    rw [lexString, rounds, lexStringLoop, behind, text]
    rfl
  rw [first]
  constructor
  · intro c decoded
    have left : ((lexerAdvance l).skip e.text.length).rest = '"' :: t := by
      rw [skip_rest, behind, List.drop_left]
    refine ⟨lexerAdvance ((lexerAdvance l).skip e.text.length), ?_⟩
    rw [known c decoded]
    change lexStringLoop (n + 1) [c] _ = _
    rw [lexStringLoop, left]
    rfl
  · intro undecoded
    obtain ⟨message, failed⟩ := unknown undecoded
    rw [failed]
    exact ⟨message, rfl⟩

theorem lexChar_eq (start : l.rest = e.inChar t) :
    (∀ c, e.decode charEscape = some c → ∃ l', lexChar l = .ok (c, l')) ∧
    (e.decode charEscape = none → ∃ message, lexChar l = .error message) := by
  obtain ⟨d, rest, text⟩ := text_cons e
  have behind : (lexerAdvance l).rest = e.text ++ '\'' :: t := by
    rw [lexerAdvance_rest, start]
    rfl
  obtain ⟨known, unknown⟩ := lexEscape_eq charEscape behind rfl rfl "character literal"
  constructor
  · intro c decoded
    have left : ((lexerAdvance l).skip e.text.length).rest = '\'' :: t := by
      rw [skip_rest, behind, List.drop_left]
    refine ⟨lexerAdvance ((lexerAdvance l).skip e.text.length), ?_⟩
    have read := known c decoded
    rw [text] at behind
    unfold lexChar
    simp only [behind, List.cons_append]
    simp only [if_true, read, bind, Except.bind, left]
    rfl
  · intro undecoded
    obtain ⟨message, failed⟩ := unknown undecoded
    rw [text] at behind
    refine ⟨message, ?_⟩
    unfold lexChar
    simp only [behind, List.cons_append]
    simp only [if_true, failed, bind, Except.bind]
    rfl

def stringToken (l : Lexer) (text : Text) : Token :=
  { type := .stringLiteral, value := text, position := l.position }

def charToken (l : Lexer) (byte : Char) : Token :=
  { type := .charLiteral, value := [byte], longValue := byte.toNat, literalType := .int,
    position := l.position }

theorem string_token (start : l.rest = e.inString t) :
    lexerNextToken l = (lexString l).bind fun read => .ok (stringToken l read.1, read.2) := by
  have noFloat : ¬ ('"' = '.' ∧ (e.text ++ '"' :: t).head?.any Char.isDigit = true) := by
    rintro ⟨other, -⟩
    exact absurd other (by decide)
  rw [lexerNextToken, skipWhitespace_token start rfl]
  simp only [start, Escape.inString]
  rw [if_neg noFloat]
  rfl

theorem char_token (start : l.rest = e.inChar t) :
    lexerNextToken l = (lexChar l).bind fun read => .ok (charToken l read.1, read.2) := by
  have noFloat : ¬ ('\'' = '.' ∧ (e.text ++ '\'' :: t).head?.any Char.isDigit = true) := by
    rintro ⟨other, -⟩
    exact absurd other (by decide)
  rw [lexerNextToken, skipWhitespace_token start rfl]
  simp only [start, Escape.inChar]
  rw [if_neg noFloat]
  rfl

/-- A literal is accepted when its escape decodes, and stands for that character then. -/
theorem accepted_iff {α : Type} {read : Except String (α × Lexer)} (token : α → Token)
    (wrap : Char → α) {decoded : Option Char}
    (next : lexerNextToken l = read.bind fun r => .ok (token r.1, r.2))
    (value : ∀ c, (token (wrap c)).value = [c])
    (known : ∀ c, decoded = some c → ∃ l', read = .ok (wrap c, l'))
    (unknown : decoded = none → ∃ message, read = .error message) :
    (Accepted l ↔ decoded.isSome) ∧ ∀ byte, Decodes l byte ↔ decoded = some byte := by
  unfold Accepted Decodes
  rw [next]
  cases decoded with
  | none =>
    obtain ⟨message, failed⟩ := unknown rfl
    rw [failed]
    constructor
    · constructor
      · rintro ⟨tok, l', error⟩
        cases error
      · intro some
        cases some
    · intro byte
      constructor
      · rintro ⟨tok, l', error, -⟩
        cases error
      · intro some
        cases some
  | some c =>
    obtain ⟨l', lexed⟩ := known c rfl
    rw [lexed]
    constructor
    · exact ⟨fun _ => rfl, fun _ => ⟨_, _, rfl⟩⟩
    · intro byte
      constructor
      · rintro ⟨tok, l'', ok, same⟩
        cases ok
        exact congrArg List.head? ((value c).symm.trans same)
      · intro same
        cases same
        exact ⟨_, _, rfl, value c⟩

theorem string_literal (start : l.rest = e.inString t) :
    (Accepted l ↔ (e.decode stringEscape).isSome) ∧
      ∀ byte, Decodes l byte ↔ e.decode stringEscape = some byte := by
  obtain ⟨known, unknown⟩ := lexString_eq start
  exact accepted_iff (stringToken l) ([·]) (string_token start) (fun _ => rfl) known unknown

theorem char_literal (start : l.rest = e.inChar t) :
    (Accepted l ↔ (e.decode charEscape).isSome) ∧
      ∀ byte, Decodes l byte ↔ e.decode charEscape = some byte := by
  obtain ⟨known, unknown⟩ := lexChar_eq start
  exact accepted_iff (charToken l) id (char_token start) (fun _ => rfl) known unknown

end Decode

/-! ### The two tables -/

theorem charEscape_of_string {c d : Char} (known : stringEscape c = some d) :
    charEscape c = some d := by
  unfold stringEscape at known
  split at known
  all_goals first | exact known | cases known

/-- The characters that only the table of the character constants has. -/
def charOnly : List Char := ['a', 'b', 'f', 'v', '?', '\'']

theorem stringEscape_of_char {c d : Char} (known : charEscape c = some d) (both : c ∉ charOnly) :
    stringEscape c = some d := by
  unfold charEscape at known
  split at known
  all_goals first | exact known | exact absurd (by decide) both | cases known

theorem stringEscape_charOnly {c : Char} (only : c ∈ charOnly) : stringEscape c = none := by
  simp only [charOnly, List.mem_cons, List.not_mem_nil, or_false] at only
  rcases only with rfl | rfl | rfl | rfl | rfl | rfl <;> rfl

theorem charEscape_charOnly {c : Char} (only : c ∈ charOnly) : (charEscape c).isSome := by
  simp only [charOnly, List.mem_cons, List.not_mem_nil, or_false] at only
  rcases only with rfl | rfl | rfl | rfl | rfl | rfl <;> rfl

/-- An escape sequence of two characters that are not a number is a simple one. -/
theorem simple_of_text {e : Escape} {c : Char} (text : e.text = ['\\', c]) (only : c ∈ charOnly) :
    ∃ letter, e = .simple c letter := by
  have plain : c ≠ 'x' ∧ isOctalDigit c = false := by
    simp only [charOnly, List.mem_cons, List.not_mem_nil, or_false] at only
    rcases only with rfl | rfl | rfl | rfl | rfl | rfl <;> decide
  cases e with
  | simple d letter =>
    cases text
    exact ⟨letter, rfl⟩
  | octal digits some few all =>
    cases text
    cases plain.2.symm.trans (all c List.mem_cons_self)
  | hex digits all =>
    cases text
    exact absurd rfl plain.1

theorem decode_char {e : Escape} {c : Char} (known : e.decode stringEscape = some c) :
    e.decode charEscape = some c := by
  cases e with
  | simple d letter => exact charEscape_of_string known
  | octal digits some few all => exact known
  | hex digits all => exact known

theorem decode_string {e : Escape} {c : Char} (both : ¬ e.InCharOnly) (inner : ¬ e.IsDelimiter)
    (known : e.decode charEscape = some c) : e.decode stringEscape = some c := by
  cases e with
  | simple d letter =>
    apply stringEscape_of_char known
    intro only
    simp only [charOnly, List.mem_cons, List.not_mem_nil, or_false] at only
    rcases only with rfl | rfl | rfl | rfl | rfl | rfl
    · exact both (by simp [Escape.InCharOnly, Escape.text])
    · exact both (by simp [Escape.InCharOnly, Escape.text])
    · exact both (by simp [Escape.InCharOnly, Escape.text])
    · exact both (by simp [Escape.InCharOnly, Escape.text])
    · exact both (by simp [Escape.InCharOnly, Escape.text])
    · exact inner (.inl rfl)
  | octal digits some few all => exact known
  | hex digits all => exact known

/-- The two literals agree on every escape sequence but five, which character constants take and
strings do not. -/
theorem literals_agree (e : Escape) (l : Lexer) (t : Text) :
    (¬ e.InCharOnly → SameLiterals e l t) ∧
      (e.InCharOnly → Accepted { l with rest := e.inChar t } ∧
        ¬ Accepted { l with rest := e.inString t }) := by
  obtain ⟨stringAccepted, stringDecodes⟩ :=
    string_literal (l := { l with rest := e.inString t }) (e := e) rfl
  obtain ⟨charAccepted, charDecodes⟩ :=
    char_literal (l := { l with rest := e.inChar t }) (e := e) rfl
  constructor
  · intro both
    constructor
    · intro inner
      rw [stringAccepted, charAccepted]
      constructor
      · intro some
        obtain ⟨c, known⟩ := Option.isSome_iff_exists.mp some
        exact Option.isSome_iff_exists.mpr ⟨c, decode_string both inner known⟩
      · intro some
        obtain ⟨c, known⟩ := Option.isSome_iff_exists.mp some
        exact Option.isSome_iff_exists.mpr ⟨c, decode_char known⟩
    · intro a b inChar inString
      have char := (charDecodes a).mp inChar
      have string := decode_char ((stringDecodes b).mp inString)
      exact Option.some.inj (char.symm.trans string)
  · intro five
    obtain ⟨c, text, only⟩ : ∃ c, e.text = ['\\', c] ∧ c ∈ charOnly := by
      simp only [Escape.InCharOnly, List.mem_cons, List.not_mem_nil, or_false] at five
      rcases five with text | text | text | text | text
      all_goals exact ⟨_, text, by decide⟩
    obtain ⟨letter, rfl⟩ := simple_of_text text only
    constructor
    · exact charAccepted.mpr (charEscape_charOnly only)
    · intro accepted
      have decoded := stringAccepted.mp accepted
      rw [Escape.decode, stringEscape_charOnly only] at decoded
      cases decoded

theorem alert_letter : 'a' ≠ 'x' ∧ isOctalDigit 'a' = false := by decide

/-- `'\a'` is a character constant, and `"\a"` is rejected. -/
theorem alert_in_char_only : ¬ ∀ (e : Escape) (l : Lexer) (t : Text), SameLiterals e l t := by
  intro all
  have same := all (.simple 'a' alert_letter) (lexerInit [] none) []
  have inner : ¬ (Escape.simple 'a' alert_letter).IsDelimiter := by
    rintro (quote | quote)
    · cases quote
    · cases quote
  obtain ⟨tok, l', read⟩ := (same.accepted inner).mp ⟨_, _, rfl⟩
  cases read

end ClaudeC99.Literals
