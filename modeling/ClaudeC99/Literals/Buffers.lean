import ClaudeC99.Literals.Spellings

/-! The indices at which the lexer writes to `num_buf` and `fp_buf`, which have 64 places. -/

namespace ClaudeC99.Literals

open Front
open Numeral (isHexDigit digitsValue)
open Preprocessor (Text)

/-- A buffer with the characters stored so far and the indices written. -/
structure NumBuf where
  text : Text
  writes : List Nat
  inOrder : writes = List.range text.length

namespace NumBuf

theorem range_concat (text : Text) (c : Char) {writes : List Nat}
    (inOrder : writes = List.range text.length) :
    writes ++ [text.length] = List.range (text ++ [c]).length := by
  rw [inOrder, List.length_append, List.length_singleton, List.range_succ]

def empty : NumBuf := ⟨[], [], rfl⟩

/-- `buf[i++] = c` -/
def store (b : NumBuf) (c : Char) : NumBuf :=
  ⟨b.text ++ [c], b.writes ++ [b.text.length], range_concat b.text c b.inOrder⟩

def storeAll (b : NumBuf) (run : Text) : NumBuf := run.foldl store b

/-- The indices written with the end mark, `buf[i] = 0`. -/
def terminated (b : NumBuf) : List Nat := b.writes ++ [b.text.length]

theorem storeAll_text (b : NumBuf) (run : Text) : (b.storeAll run).text = b.text ++ run := by
  induction run generalizing b with
  | nil => exact (List.append_nil _).symm
  | cons c run ih =>
    calc (b.storeAll (c :: run)).text = (b.store c).text ++ run := ih (b.store c)
      _ = b.text ++ (c :: run) := by simp [store]

theorem writes_below (b : NumBuf) {n : Nat} : (∀ i ∈ b.writes, i < n) ↔ b.text.length ≤ n := by
  rw [b.inOrder]
  simp only [List.mem_range]
  constructor
  · intro all
    by_contra more
    exact Nat.lt_irrefl n (all n (Nat.lt_of_not_le more))
  · intro few i inside
    exact Nat.lt_of_lt_of_le inside few

theorem terminated_below (b : NumBuf) {n : Nat} :
    (∀ i ∈ b.terminated, i < n) ↔ b.text.length < n := by
  have last : b.terminated = List.range (b.text.length + 1) := by
    rw [terminated, b.inOrder, List.range_succ]
  rw [last]
  simp only [List.mem_range]
  constructor
  · intro all
    exact all _ (Nat.lt_succ_self _)
  · intro less i inside
    exact Nat.lt_of_le_of_lt (Nat.le_of_lt_succ inside) less

end NumBuf

/-! ### The scanning loops -/

/-- The buffer and the source from the current position on. -/
abbrev Scan := NumBuf × Text

namespace Scan

/-- `buf[i++] = source[pos]` and one step ahead. -/
def storeChar (s : Scan) : Scan :=
  match s.2 with
  | c :: rest => (s.1.store c, rest)
  | [] => s

/-- The loop over characters with `p` that stops at index 62. -/
def storeWhile (p : Char → Bool) (s : Scan) : Scan :=
  let run := (s.2.takeWhile p).take (62 - s.1.text.length)
  (s.1.storeAll run, s.2.drop run.length)

def nextIs (s : Scan) (a b : Char) : Bool := s.2.head? == some a || s.2.head? == some b

def storeExponent (s : Scan) : Scan :=
  if s.nextIs 'e' 'E' then
    let s := s.storeChar
    let s := if s.nextIs '+' '-' then s.storeChar else s
    s.storeWhile Char.isDigit
  else s

def storeSuffix (s : Scan) : Scan := if s.nextIs 'f' 'F' then s.storeChar else s

/-- `.` and something that is not another `.` -/
def atPoint (s : Scan) : Bool := s.2.head? == some '.' && s.2.tail.head? != some '.'

end Scan

def dotWrites (text : Text) : List Nat :=
  let s : Scan := (.empty, text)
  (s.storeChar.storeWhile Char.isDigit).storeExponent.storeSuffix.1.terminated

/-- The scan behind the digits before the point. -/
def wholeScan (text : Text) : Scan := Scan.storeWhile Char.isDigit (.empty, text)

def decimalWrites (text : Text) : List Nat :=
  let s := wholeScan text
  let s' := if s.atPoint then s.storeChar.storeWhile Char.isDigit else s
  if s.atPoint || s'.nextIs 'e' 'E' then s'.storeExponent.storeSuffix.1.terminated
  else s'.1.terminated

def hexWrites (text : Text) : List Nat :=
  let s := Scan.storeChar (Scan.storeChar (.empty, text))
  if s.2.head?.any isHexDigit then (s.storeWhile isHexDigit).1.terminated else s.1.writes

/-- The loop stops with an error at a digit 8 or 9. After it, `snprintf` writes the value, as many
characters as the buffer takes, when the constant is not too large. -/
def octalWrites (text : Text) : List Nat :=
  let digits := (text.takeWhile Char.isDigit).take 62
  let stored := NumBuf.empty.storeAll (digits.takeWhile isOctalDigit)
  if digits.all isOctalDigit then
    let suffix := (text.drop digits.length).takeWhile isSuffixChar
    let unsigned := suffix.any fun c => c == 'U' || c == 'u'
    let lCount := suffix.countP fun c => c == 'L' || c == 'l'
    let value := digitsValue 8 digits
    if 2 < lCount ∨ 2 ^ 64 ≤ value ∨ (¬ unsigned ∧ lCount ≠ 2 ∧ 2 ^ 63 ≤ value) then
      stored.terminated
    else stored.terminated ++ List.range (min (Nat.toDigits 10 value).length 63 + 1)
  else stored.writes

def numberWrites (text : Text) : List Nat :=
  match text with
  | '0' :: c :: _ =>
    if c = 'x' ∨ c = 'X' then hexWrites text
    else if c.isDigit then octalWrites text
    else decimalWrites text
  | _ => decimalWrites text

/-- The indices written to `fp_buf` or `num_buf` by `lexer_next_token`. -/
def bufferWrites (l : Lexer) : List Nat :=
  let text := (lexerSkipWhitespace l).rest
  match text with
  | [] => []
  | c :: after =>
    if c = '.' ∧ after.head?.any Char.isDigit then dotWrites text
    else if c.isDigit then numberWrites text
    else []

/-- An exponent letter and a sign, of which some may be missing. -/
def exponentHeads : List Text :=
  [[], ['e'], ['E'], ['e', '+'], ['e', '-'], ['E', '+'], ['E', '-']]

/-- The text starts with a mantissa that the buffer takes, an exponent letter, a sign and an `f`, of
which some may be missing, that are more than 63 characters together. -/
def Overlong (text : Text) : Prop :=
  ∃ whole fraction head suffix rest,
    text = whole ++ (Option.elim fraction [] ('.' :: ·) ++ (head ++ (suffix ++ rest))) ∧
    (∀ c ∈ whole, c.isDigit) ∧ (∀ f ∈ fraction, ∀ c ∈ f, c.isDigit) ∧
    (whole ≠ [] ∨ ∃ f ∈ fraction, f ≠ []) ∧ (fraction = none → head ≠ []) ∧
    (∀ d rest, whole ≠ '0' :: d :: rest) ∧
    head ∈ exponentHeads ∧ suffix ∈ [[], ['f'], ['F']] ∧
    whole.length ≤ 62 ∧ (∀ f ∈ fraction, f ≠ [] → whole.length + 1 + f.length ≤ 62) ∧
    63 < whole.length + (Option.elim fraction [] ('.' :: ·)).length + head.length + suffix.length

/-! ### What the loops store -/

namespace Scan

variable {s : Scan}

def len (s : Scan) : Nat := s.1.text.length

theorem storeChar_cons {c : Char} {rest : Text} (next : s.2 = c :: rest) :
    s.storeChar = (s.1.store c, rest) := by
  rw [storeChar, next]

theorem len_store {c : Char} {rest : Text} : len (s.1.store c, rest) = s.len + 1 := by
  simp [len, NumBuf.store]

theorem nextIs_iff {a b : Char} :
    s.nextIs a b = true ↔ ∃ c rest, s.2 = c :: rest ∧ (c = a ∨ c = b) := by
  unfold nextIs
  cases s.2 with
  | nil => simp
  | cons c rest => simp

theorem nextIs_cons {a b c : Char} {rest : Text} (next : s.2 = c :: rest) :
    s.nextIs a b = true ↔ c = a ∨ c = b := by
  rw [nextIs_iff, next]
  constructor
  · rintro ⟨d, after, same, which⟩
    cases same
    exact which
  · intro which
    exact ⟨c, rest, rfl, which⟩

/-- What the loop stores stands before what it leaves. -/
theorem storeWhile_split (p : Char → Bool) (s : Scan) : ∃ run, s.2 = run ++ (s.storeWhile p).2 ∧
    (∀ c ∈ run, p c = true) ∧ (s.storeWhile p).len = s.len + run.length ∧
    (run ≠ [] → s.len + run.length ≤ 62) ∧
    (s.len + run.length < 62 → ∀ c ∈ (s.storeWhile p).2.head?, p c = false) := by
  have before : (s.2.takeWhile p).take (62 - s.1.text.length) <+: s.2 :=
    (List.take_prefix _ _).trans (List.takeWhile_prefix p)
  have split := List.prefix_append_drop before
  refine ⟨_, split, ?_, ?_, ?_, ?_⟩
  · intro c member
    exact List.mem_takeWhile_imp (List.mem_of_mem_take member)
  · simp [storeWhile, len, NumBuf.storeAll_text]
  · intro some
    have positive := List.length_pos_iff.mpr some
    rw [List.length_take] at positive ⊢
    unfold len
    omega
  · intro room c next
    have all : (s.2.takeWhile p).take (62 - s.1.text.length) = s.2.takeWhile p := by
      rw [List.length_take] at room
      unfold len at room
      exact List.take_of_length_le (by omega)
    rw [storeWhile, all] at next
    have left : s.2.drop (s.2.takeWhile p).length = s.2.dropWhile p := by
      have same := List.prefix_append_drop (List.takeWhile_prefix p : s.2.takeWhile p <+: s.2)
      have whole := List.takeWhile_append_dropWhile (p := p) (l := s.2)
      exact List.append_cancel_left (same.symm.trans whole.symm)
    have stops := List.head?_dropWhile_not p s.2
    rw [left] at next
    rw [next] at stops
    simpa using stops

/-- A run that the buffer takes is stored. -/
theorem storeWhile_run {p : Char → Bool} {run t : Text} (next : s.2 = run ++ t)
    (all : ∀ c ∈ run, p c = true) (stop : ∀ c ∈ t.head?, p c = false)
    (fits : run ≠ [] → s.len + run.length ≤ 62) : s.storeWhile p = (s.1.storeAll run, t) := by
  have taken := (Constant.takeWhile_append_of_head all stop).1
  have room : run.length ≤ 62 - s.1.text.length := by
    by_cases none : run = []
    · simp [none]
    · have least := fits none
      unfold len at least
      omega
  rw [storeWhile, next, taken, List.take_of_length_le room, List.drop_left]

theorem len_storeWhile (p : Char → Bool) (s : Scan) : s.len ≤ (s.storeWhile p).len := by
  obtain ⟨run, -, -, same, -⟩ := storeWhile_split p s
  rw [same]
  exact Nat.le_add_right _ _

theorem storeChar_len_le (s : Scan) : s.storeChar.len ≤ s.len + 1 := by
  unfold storeChar
  split
  · exact Nat.le_of_eq len_store
  · exact Nat.le_succ _

theorem len_storeChar (s : Scan) : s.len ≤ s.storeChar.len := by
  unfold storeChar
  split
  · rw [len_store]
    exact Nat.le_succ _
  · exact Nat.le_refl _

theorem len_storeSuffix (s : Scan) : s.len ≤ s.storeSuffix.len := by
  unfold storeSuffix
  split
  · exact len_storeChar s
  · exact Nat.le_refl _

/-- A loop that starts below 62 ends at 62 at most. -/
theorem storeWhile_len_le {p : Char → Bool} (few : s.len ≤ 62) : (s.storeWhile p).len ≤ 62 := by
  obtain ⟨run, -, -, same, bound, -⟩ := storeWhile_split p s
  rw [same]
  by_cases none : run = []
  · simpa [none] using few
  · exact bound none

/-! ### The exponent and the suffix -/

theorem exponent_shape {head : Text} (valid : head ∈ exponentHeads) (some : head ≠ []) :
    ∃ e, (e = 'e' ∨ e = 'E') ∧ (head = [e] ∨ ∃ c, (c = '+' ∨ c = '-') ∧ head = [e, c]) := by
  simp only [exponentHeads, List.mem_cons, List.not_mem_nil, or_false] at valid
  rcases valid with rfl | rfl | rfl | rfl | rfl | rfl | rfl
  · exact absurd rfl some
  · exact ⟨'e', .inl rfl, .inl rfl⟩
  · exact ⟨'E', .inr rfl, .inl rfl⟩
  · exact ⟨'e', .inl rfl, .inr ⟨'+', .inl rfl, rfl⟩⟩
  · exact ⟨'e', .inl rfl, .inr ⟨'-', .inr rfl, rfl⟩⟩
  · exact ⟨'E', .inr rfl, .inr ⟨'+', .inl rfl, rfl⟩⟩
  · exact ⟨'E', .inr rfl, .inr ⟨'-', .inr rfl, rfl⟩⟩

theorem exponent_starts {head : Text} (rest : Text) (valid : head ∈ exponentHeads)
    (some : head ≠ []) : ∃ c after, head ++ rest = c :: after ∧ (c = 'e' ∨ c = 'E') := by
  obtain ⟨e, letter, rfl | ⟨c, -, rfl⟩⟩ := exponent_shape valid some
  · exact ⟨e, rest, rfl, letter⟩
  · exact ⟨e, c :: rest, rfl, letter⟩

/-- The letter and the sign are stored without a test of the index. -/
theorem storeExponent_head {head rest : Text} (next : s.2 = head ++ rest)
    (valid : head ∈ exponentHeads) (some : head ≠ [])
    (whole : head.length = 1 → ∀ c ∈ rest.head?, c ≠ '+' ∧ c ≠ '-') :
    s.storeExponent = storeWhile Char.isDigit (s.1.storeAll head, rest) := by
  obtain ⟨b, text⟩ := s
  change text = _ at next
  subst next
  obtain ⟨e, letter, rfl | ⟨c, sign, rfl⟩⟩ := exponent_shape valid some
  · have noSign : ¬ nextIs (b.store e, rest) '+' '-' = true := by
      rw [nextIs_iff]
      rintro ⟨c, after, rfl, sign⟩
      obtain ⟨plus, minus⟩ := whole rfl c rfl
      exact sign.elim plus minus
    calc storeExponent (b, e :: rest)
        = storeWhile Char.isDigit (if nextIs (b.store e, rest) '+' '-' then
            storeChar (b.store e, rest) else (b.store e, rest)) :=
          if_pos ((nextIs_cons rfl).mpr letter)
      _ = storeWhile Char.isDigit (b.store e, rest) := by rw [if_neg noSign]
  · calc storeExponent (b, e :: c :: rest)
        = storeWhile Char.isDigit (if nextIs (b.store e, c :: rest) '+' '-' then
            storeChar (b.store e, c :: rest) else (b.store e, c :: rest)) :=
          if_pos ((nextIs_cons rfl).mpr letter)
      _ = storeWhile Char.isDigit ((b.store e).store c, rest) := by
          rw [if_pos ((nextIs_cons rfl).mpr sign)]
          rfl

theorem exists_exponentHead (exponent : s.nextIs 'e' 'E' = true) :
    ∃ head rest, s.2 = head ++ rest ∧ head ∈ exponentHeads ∧ head ≠ [] ∧
      (head.length = 1 → ∀ c ∈ rest.head?, c ≠ '+' ∧ c ≠ '-') := by
  obtain ⟨e, rest, start, letter⟩ := nextIs_iff.mp exponent
  by_cases sign : ∃ c after, rest = c :: after ∧ (c = '+' ∨ c = '-')
  · obtain ⟨c, after, rfl, sign⟩ := sign
    refine ⟨[e, c], after, start, ?_, List.cons_ne_nil _ _, ?_⟩
    · rcases letter with rfl | rfl <;> rcases sign with rfl | rfl <;> decide
    · intro one
      cases one
  · refine ⟨[e], rest, start, ?_, List.cons_ne_nil _ _, ?_⟩
    · rcases letter with rfl | rfl <;> decide
    · intro _ c first
      obtain ⟨after, rfl⟩ : ∃ after, rest = c :: after := List.head?_eq_some_iff.mp first
      constructor
      · intro plus
        exact sign ⟨c, after, rfl, .inl plus⟩
      · intro minus
        exact sign ⟨c, after, rfl, .inr minus⟩

theorem storeExponent_none (noExponent : ¬ s.nextIs 'e' 'E' = true) : s.storeExponent = s := by
  rw [storeExponent, if_neg noExponent]

theorem storeSuffix_cases (s : Scan) : (∃ c rest, s.2 = c :: rest ∧ (c = 'f' ∨ c = 'F') ∧
    s.storeSuffix = (s.1.store c, rest)) ∨ (¬ s.nextIs 'f' 'F' = true ∧ s.storeSuffix = s) := by
  by_cases suffix : s.nextIs 'f' 'F' = true
  · obtain ⟨c, rest, start, which⟩ := nextIs_iff.mp suffix
    apply Or.inl
    refine ⟨c, rest, start, which, ?_⟩
    rw [storeSuffix, if_pos suffix, storeChar_cons start]
  · apply Or.inr
    refine ⟨suffix, ?_⟩
    rw [storeSuffix, if_neg suffix]

/-- What can stand behind a mantissa that fills the buffer: an exponent letter with its sign and an
`f` that take the text beyond 63 characters. -/
def Runs (s : Scan) : Prop :=
  ∃ head suffix rest, s.2 = head ++ (suffix ++ rest) ∧ head ∈ exponentHeads ∧
    suffix ∈ [[], ['f'], ['F']] ∧ 63 < s.len + head.length + suffix.length

theorem len_storeAll {run rest : Text} : len (s.1.storeAll run, rest) = s.len + run.length := by
  simp [len, NumBuf.storeAll_text]

theorem runs_of_stored (few : s.len ≤ 63) (long : 63 < s.storeExponent.storeSuffix.len) :
    s.Runs := by
  by_cases exponent : s.nextIs 'e' 'E' = true
  · obtain ⟨head, rest, next, valid, some, whole⟩ := exists_exponentHead exponent
    rw [storeExponent_head next valid some whole] at long
    obtain ⟨run, split, -, stored, bound, -⟩ :=
      storeWhile_split Char.isDigit (s.1.storeAll head, rest)
    rw [len_storeAll] at stored bound
    have noDigits : run = [] := by
      by_contra digits
      have room := bound digits
      have last := storeChar_len_le (storeWhile Char.isDigit (s.1.storeAll head, rest))
      rcases storeSuffix_cases (storeWhile Char.isDigit (s.1.storeAll head, rest)) with
        ⟨c, after, start, -, same⟩ | ⟨-, same⟩
      · rw [same, ← storeChar_cons start] at long
        omega
      · rw [same] at long
        omega
    subst noDigits
    rw [List.nil_append] at split
    rcases storeSuffix_cases (storeWhile Char.isDigit (s.1.storeAll head, rest)) with
      ⟨c, after, start, letter, same⟩ | ⟨-, same⟩
    · rw [same, len_store, stored] at long
      refine ⟨head, [c], after, ?_, valid, ?_, long⟩
      · rw [next]
        exact congrArg (head ++ ·) (split.trans start)
      · rcases letter with rfl | rfl <;> decide
    · rw [same, stored] at long
      exact ⟨head, [], rest, next, valid, List.mem_cons_self, long⟩
  · rw [storeExponent_none exponent] at long
    rcases storeSuffix_cases s with ⟨c, after, start, letter, same⟩ | ⟨-, same⟩
    · rw [same, len_store] at long
      refine ⟨[], [c], after, start, List.mem_cons_self, ?_, long⟩
      rcases letter with rfl | rfl <;> decide
    · rw [same] at long
      exact absurd long (Nat.not_lt_of_le few)

theorem len_storeExponent {head rest : Text} (next : s.2 = head ++ rest)
    (valid : head ∈ exponentHeads) (some : head ≠ []) :
    s.len + head.length ≤ s.storeExponent.len := by
  have exponent : s.nextIs 'e' 'E' = true := by
    obtain ⟨c, after, start, which⟩ := exponent_starts rest valid some
    exact (nextIs_cons (next.trans start)).mpr which
  obtain ⟨head', rest', next', valid', some', whole'⟩ := exists_exponentHead exponent
  have stored := len_storeWhile Char.isDigit (s.1.storeAll head', rest')
  rw [len_storeAll] at stored
  rw [storeExponent_head next' valid' some' whole']
  have shorter : head.length ≤ head'.length := by
    rw [next] at next'
    obtain ⟨e, -, rfl | ⟨c, sign, rfl⟩⟩ := exponent_shape valid some
    · exact List.length_pos_iff.mpr some'
    · obtain ⟨e', -, rfl | ⟨c', -, rfl⟩⟩ := exponent_shape valid' some'
      · obtain ⟨-, rfl⟩ := List.cons.inj next'
        obtain ⟨plus, minus⟩ := whole' rfl c rfl
        exact absurd sign (not_or.mpr ⟨plus, minus⟩)
      · exact Nat.le_refl _
  exact Nat.le_trans (Nat.add_le_add_left shorter _) stored

theorem stored_of_runs (few : s.len ≤ 63) (runs : s.Runs) :
    63 < s.storeExponent.storeSuffix.len := by
  obtain ⟨head, suffix, rest, next, valid, letter, long⟩ := runs
  simp only [List.mem_cons, List.not_mem_nil, or_false] at letter
  have noDigit : suffix ≠ [] → ∃ c, suffix = [c] ∧ (c = 'f' ∨ c = 'F') := by
    intro some
    rcases letter with rfl | rfl | rfl
    · exact absurd rfl some
    · exact ⟨_, rfl, .inl rfl⟩
    · exact ⟨_, rfl, .inr rfl⟩
  by_cases noHead : head = []
  · subst noHead
    by_cases noSuffix : suffix = []
    · subst noSuffix
      exact absurd long (Nat.not_lt_of_le few)
    · obtain ⟨c, rfl, which⟩ := noDigit noSuffix
      have start : s.2 = c :: rest := next
      have noExponent : ¬ s.nextIs 'e' 'E' = true := by
        rw [nextIs_cons start]
        rcases which with rfl | rfl <;> decide
      rw [storeExponent_none noExponent, storeSuffix, if_pos ((nextIs_cons start).mpr which),
        storeChar_cons start, len_store]
      exact long
  · by_cases noSuffix : suffix = []
    · subst noSuffix
      have least := len_storeExponent next valid noHead
      have last := len_storeSuffix s.storeExponent
      simp only [List.length_nil] at long
      omega
    · obtain ⟨c, rfl, which⟩ := noDigit noSuffix
      have noSign : head.length = 1 → ∀ d ∈ ([c] ++ rest).head?, d ≠ '+' ∧ d ≠ '-' := by
        rintro - d first
        cases first
        rcases which with rfl | rfl <;> decide
      have stop : ∀ d ∈ (c :: rest).head?, d.isDigit = false := by
        intro d first
        cases first
        rcases which with rfl | rfl <;> decide
      have exponent : s.storeExponent = (s.1.storeAll head, c :: rest) := by
        rw [storeExponent_head next valid noHead noSign]
        have nothing : (c :: rest : Text) = [] ++ c :: rest := rfl
        exact storeWhile_run nothing (fun _ none => absurd none List.not_mem_nil) stop
          (fun some => absurd rfl some)
      rw [storeSuffix, if_pos (by rw [exponent]; exact (nextIs_cons rfl).mpr which), exponent,
        storeChar_cons rfl, len_store, len_storeAll]
      exact long

theorem tail_starts {head suffix : Text} (rest : Text) (valid : head ∈ exponentHeads)
    (letter : suffix ∈ [[], ['f'], ['F']]) (some : head ≠ [] ∨ suffix ≠ []) :
    ∃ c after, head ++ (suffix ++ rest) = c :: after ∧ c.isDigit = false ∧ c ≠ '.' := by
  by_cases noHead : head = []
  · subst noHead
    simp only [List.mem_cons, List.not_mem_nil, or_false] at letter
    rcases letter with rfl | rfl | rfl
    · exact absurd rfl (some.resolve_left (fun no => no rfl))
    all_goals exact ⟨_, _, rfl, by decide, by decide⟩
  · obtain ⟨c, after, start, rfl | rfl⟩ := exponent_starts (suffix ++ rest) valid noHead
    all_goals exact ⟨_, _, start, by decide, by decide⟩

/-- A fraction after a point at index `n`, and a tail, beyond 63 characters. -/
def FractionRuns (n : Nat) (t : Text) : Prop :=
  ∃ f head suffix rest, t = f ++ (head ++ (suffix ++ rest)) ∧ (∀ c ∈ f, c.isDigit) ∧
    head ∈ exponentHeads ∧ suffix ∈ [[], ['f'], ['F']] ∧ (f ≠ [] → n + 1 + f.length ≤ 62) ∧
    63 < n + 1 + f.length + head.length + suffix.length

/-- Without a digit, a letter or a sign behind it, the point ends at 63 characters at most. -/
theorem fraction_tail {n : Nat} {f head suffix : Text} (few : n ≤ 62)
    (fits : f ≠ [] → n + 1 + f.length ≤ 62)
    (long : 63 < n + 1 + f.length + head.length + suffix.length) : head ≠ [] ∨ suffix ≠ [] := by
  by_contra none
  obtain ⟨noHead, noSuffix⟩ := not_or.mp none
  rw [not_not.mp noHead, not_not.mp noSuffix] at long
  by_cases noDigits : f = []
  · rw [noDigits] at long
    exact absurd long (by simp only [List.length_nil]; omega)
  · have room := fits noDigits
    exact absurd long (by simp only [List.length_nil]; omega)

theorem point_runs {t : Text} (few : s.len ≤ 62) (next : s.2 = '.' :: t) :
    63 < (s.storeChar.storeWhile Char.isDigit).storeExponent.storeSuffix.len ↔
      FractionRuns s.len t := by
  rw [storeChar_cons next]
  have start : len (s.1.store '.', t) = s.len + 1 := len_store
  constructor
  · intro long
    obtain ⟨f, split, digits, stored, fits, -⟩ :=
      storeWhile_split Char.isDigit (s.1.store '.', t)
    rw [start] at stored fits
    have below : (storeWhile Char.isDigit (s.1.store '.', t)).len ≤ 63 := by
      by_cases none : f = []
      · rw [stored, none]
        exact Nat.succ_le_succ few
      · rw [stored]
        exact Nat.le_trans (fits none) (by decide)
    obtain ⟨head, suffix, rest, left, valid, letter, more⟩ := runs_of_stored below long
    rw [stored] at more
    exact ⟨f, head, suffix, rest, by rw [← left]; exact split, digits, valid, letter, fits, more⟩
  · rintro ⟨f, head, suffix, rest, rfl, digits, valid, letter, fits, long⟩
    obtain ⟨c, after, tail, noDigit, -⟩ :=
      tail_starts rest valid letter (fraction_tail few fits long)
    have stop : ∀ d ∈ (head ++ (suffix ++ rest)).head?, d.isDigit = false := by
      intro d first
      rw [tail] at first
      cases first
      exact noDigit
    have fraction := storeWhile_run (s := (s.1.store '.', f ++ (head ++ (suffix ++ rest)))) rfl
      digits stop (by rw [start]; exact fits)
    rw [fraction]
    have stored : len ((s.1.store '.').storeAll f, head ++ (suffix ++ rest)) =
        s.len + 1 + f.length := by
      rw [← start]
      exact len_storeAll (s := (s.1.store '.', []))
    apply stored_of_runs
    · by_cases none : f = []
      · rw [stored, none]
        exact Nat.succ_le_succ few
      · rw [stored]
        exact Nat.le_trans (fits none) (by decide)
    · exact ⟨head, suffix, rest, rfl, valid, letter, by rw [stored]; exact long⟩

theorem terminated_iff (s : Scan) : (∀ i ∈ s.1.terminated, i < 64) ↔ ¬ 63 < s.len := by
  rw [NumBuf.terminated_below, len]
  omega

end Scan

/-! ### The paths of the scanner -/

open Scan

theorem overlong_fraction {whole t : Text} (digits : ∀ c ∈ whole, c.isDigit)
    (leading : ∀ d rest, whole ≠ '0' :: d :: rest) (few : whole.length ≤ 62)
    (some : whole ≠ [] ∨ ∃ d ∈ t.head?, d.isDigit) (runs : FractionRuns whole.length t) :
    Overlong (whole ++ '.' :: t) := by
  obtain ⟨f, head, suffix, rest, rfl, fractionDigits, valid, letter, fits, long⟩ := runs
  refine ⟨whole, .some f, head, suffix, rest, rfl, digits, ?_, ?_, ?_, leading, valid, letter, few,
    ?_, ?_⟩
  · intro f' same
    cases same
    exact fractionDigits
  · apply Or.imp_right _ some
    rintro ⟨d, first, digit⟩
    refine ⟨f, rfl, ?_⟩
    rintro rfl
    obtain ⟨c, tail, starts, noDigit, -⟩ :=
      tail_starts rest valid letter (fraction_tail few fits long)
    rw [List.nil_append, starts] at first
    cases first
    cases noDigit.symm.trans digit
  · intro none
    cases none
  · intro f' same
    cases same
    exact fits
  · calc 63 < whole.length + 1 + f.length + head.length + suffix.length := long
      _ = whole.length + ('.' :: f).length + head.length + suffix.length := by
        rw [List.length_cons, Nat.add_assoc whole.length, Nat.add_comm 1]

theorem dotWrites_iff {d : Char} {after : Text} (digit : d.isDigit) :
    (∀ i ∈ dotWrites ('.' :: d :: after), i < 64) ↔ ¬ Overlong ('.' :: d :: after) := by
  rw [dotWrites, terminated_iff, point_runs (s := (.empty, '.' :: d :: after)) (Nat.zero_le _) rfl]
  apply not_congr
  constructor
  · intro runs
    have noDigits : ∀ c ∈ ([] : Text), c.isDigit = true := by
      intro c none
      cases none
    have leading : ∀ (c : Char) (rest : Text), [] ≠ '0' :: c :: rest := by
      intro c rest none
      cases none
    exact overlong_fraction noDigits leading (Nat.zero_le _) (.inr ⟨d, rfl, digit⟩) runs
  · rintro ⟨whole, fraction, head, suffix, rest, start, digits, fractionDigits, -, exponent,
      -, valid, letter, -, fits, long⟩
    have noWhole : whole = [] := by
      cases whole with
      | nil => rfl
      | cons c whole =>
        obtain ⟨rfl, -⟩ := List.cons.inj start
        cases digits _ List.mem_cons_self
    subst noWhole
    cases fraction with
    | none =>
      obtain ⟨c, tail, starts, -, noPoint⟩ :=
        tail_starts rest valid letter (.inl (exponent rfl))
      change _ = head ++ (suffix ++ rest) at start
      rw [starts] at start
      exact absurd (List.cons.inj start).1.symm noPoint
    | some f =>
      refine ⟨f, head, suffix, rest, (List.cons.inj start).2, fractionDigits f rfl, valid, letter,
        ?_, ?_⟩
      · exact fits f rfl
      · simpa [len, NumBuf.empty, Nat.add_comm] using long

theorem atPoint_iff {s : Scan} :
    s.atPoint = true ↔ ∃ t, s.2 = '.' :: t ∧ t.head? ≠ some '.' := by
  unfold atPoint
  cases s.2 with
  | nil => simp
  | cons c t => simp

section Decimal

variable {d : Char} {after : Text}

theorem overlong_of_scan (digit : d.isDigit)
    (decimal : ∀ c rest, d :: after = '0' :: c :: rest → c.isDigit = false)
    (runs : ((wholeScan (d :: after)).atPoint = true ∧
        FractionRuns (wholeScan (d :: after)).len (wholeScan (d :: after)).2.tail) ∨
      ((wholeScan (d :: after)).nextIs 'e' 'E' = true ∧ (wholeScan (d :: after)).Runs)) :
    Overlong (d :: after) := by
  obtain ⟨whole, split, digits, stored, -, stops⟩ :=
    storeWhile_split Char.isDigit (.empty, d :: after)
  change d :: after = whole ++ (wholeScan (d :: after)).2 at split
  have few : (wholeScan (d :: after)).len ≤ 62 := storeWhile_len_le (Nat.zero_le _)
  have length : (wholeScan (d :: after)).len = whole.length := by
    simpa [wholeScan, len, NumBuf.empty] using stored
  have some : whole ≠ [] := by
    rintro rfl
    have first := stops (Nat.zero_lt_succ 61) d
    change d ∈ (wholeScan (d :: after)).2.head? → _ at first
    rw [List.nil_append] at split
    rw [← split] at first
    cases (first rfl).symm.trans digit
  have leading : ∀ c rest, whole ≠ '0' :: c :: rest := by
    rintro c rest rfl
    have notDigit := decimal c _ split
    cases notDigit.symm.trans (digits c (List.mem_cons_of_mem _ List.mem_cons_self))
  rw [length] at few runs
  rcases runs with ⟨point, runs⟩ | ⟨exponent, runs⟩
  · obtain ⟨t, next, -⟩ := atPoint_iff.mp point
    rw [next] at split runs
    rw [split]
    exact overlong_fraction digits leading few (.inl some) runs
  · obtain ⟨head, suffix, rest, next, valid, letter, long⟩ := runs
    refine ⟨whole, none, head, suffix, rest, ?_, digits, ?_, .inl some, ?_, leading, valid, letter,
      few, ?_, ?_⟩
    · rw [split, next]
      rfl
    · intro f none
      cases none
    · rintro - rfl
      obtain ⟨c, after, start, letterE⟩ := nextIs_iff.mp exponent
      rw [start] at next
      simp only [List.mem_cons, List.not_mem_nil, or_false] at letter
      rcases letter with rfl | rfl | rfl
      · rw [length] at long
        exact absurd long (by simp only [List.length_nil]; omega)
      all_goals
        obtain ⟨rfl, -⟩ := List.cons.inj next
        exact absurd letterE (by decide)
    · intro f none
      cases none
    · rw [length] at long
      exact long

theorem scan_of_overlong (overlong : Overlong (d :: after)) :
    ((wholeScan (d :: after)).atPoint = true ∧
        FractionRuns (wholeScan (d :: after)).len (wholeScan (d :: after)).2.tail) ∨
      ((wholeScan (d :: after)).nextIs 'e' 'E' = true ∧ (wholeScan (d :: after)).Runs) := by
  obtain ⟨whole, fraction, head, suffix, rest, start, digits, fractionDigits, some, exponent,
    -, valid, letter, few, fits, long⟩ := overlong
  have scan : ∀ t, d :: after = whole ++ t → (∀ c ∈ t.head?, c.isDigit = false) →
      wholeScan (d :: after) = (NumBuf.empty.storeAll whole, t) := by
    intro t same stop
    exact storeWhile_run (s := (.empty, d :: after)) same digits stop
      (fun _ => by simpa [len, NumBuf.empty] using few)
  have length : ∀ t, len (NumBuf.empty.storeAll whole, t) = whole.length := by
    intro t
    simp [len, NumBuf.storeAll_text, NumBuf.empty]
  cases fraction with
  | none =>
    apply Or.inr
    obtain ⟨c, tail, starts, letterE⟩ := exponent_starts (suffix ++ rest) valid (exponent rfl)
    have stop : ∀ d ∈ (head ++ (suffix ++ rest)).head?, d.isDigit = false := by
      intro d first
      rw [starts] at first
      cases first
      rcases letterE with rfl | rfl <;> decide
    rw [scan _ start stop]
    constructor
    · exact (nextIs_cons starts).mpr letterE
    · exact ⟨head, suffix, rest, rfl, valid, letter, by rw [length]; exact long⟩
  | some f =>
    apply Or.inl
    have stop : ∀ d ∈ ('.' :: (f ++ (head ++ (suffix ++ rest)))).head?, d.isDigit = false := by
      intro d first
      cases first
      decide
    have more : 63 < whole.length + 1 + f.length + head.length + suffix.length := by
      calc 63 < whole.length + ('.' :: f).length + head.length + suffix.length := long
        _ = whole.length + 1 + f.length + head.length + suffix.length := by
          rw [List.length_cons, Nat.add_assoc whole.length 1, Nat.add_comm 1]
    rw [scan _ start stop]
    constructor
    · rw [atPoint_iff]
      refine ⟨f ++ (head ++ (suffix ++ rest)), rfl, ?_⟩
      intro point
      cases f with
      | nil =>
        obtain ⟨c, tail, starts, -, noPoint⟩ :=
          tail_starts rest valid letter (fraction_tail few (fits [] rfl) more)
        rw [List.nil_append, starts] at point
        cases point
        exact noPoint rfl
      | cons c f =>
        cases point
        cases fractionDigits _ rfl _ List.mem_cons_self
    · refine ⟨f, head, suffix, rest, rfl, fractionDigits f rfl, valid, letter, ?_, ?_⟩
      · rw [length]
        exact fits f rfl
      · rw [length]
        exact more

theorem decimalWrites_iff (digit : d.isDigit)
    (decimal : ∀ c rest, d :: after = '0' :: c :: rest → c.isDigit = false) :
    (∀ i ∈ decimalWrites (d :: after), i < 64) ↔ ¬ Overlong (d :: after) := by
  have few : (wholeScan (d :: after)).len ≤ 62 := storeWhile_len_le (Nat.zero_le _)
  have overlong : Overlong (d :: after) ↔ _ :=
    ⟨scan_of_overlong, overlong_of_scan digit decimal⟩
  rw [overlong]
  unfold decimalWrites
  by_cases point : (wholeScan (d :: after)).atPoint = true
  · obtain ⟨t, next, -⟩ := atPoint_iff.mp point
    have noExponent : ¬ (wholeScan (d :: after)).nextIs 'e' 'E' = true := by
      rw [nextIs_cons next]
      decide
    simp only [point, Bool.true_or, if_true, true_and, noExponent, Bool.false_eq_true, false_and,
      or_false]
    rw [terminated_iff, point_runs few next, next, List.tail_cons]
  · simp only [point, Bool.false_or, false_and, false_or, if_false, Bool.false_eq_true]
    by_cases exponent : (wholeScan (d :: after)).nextIs 'e' 'E' = true
    · simp only [exponent, if_true, true_and]
      rw [terminated_iff]
      apply not_congr
      exact ⟨runs_of_stored (Nat.le_succ_of_le few), stored_of_runs (Nat.le_succ_of_le few)⟩
    · simp only [exponent, if_false, false_and, not_false_eq_true, iff_true, Bool.false_eq_true]
      rw [terminated_iff]
      exact Nat.not_lt_of_le (Nat.le_succ_of_le few)

end Decimal

/-- In a hexadecimal or octal constant the index grows in the loops only. -/
theorem hexWrites_inside (text : Text) : ∀ i ∈ hexWrites text, i < 64 := by
  have start : (storeChar (storeChar (.empty, text))).len ≤ 2 := by
    calc (storeChar (storeChar (.empty, text))).len
        ≤ (storeChar (.empty, text)).len + 1 := storeChar_len_le _
      _ ≤ 2 := Nat.succ_le_succ (storeChar_len_le _)
  unfold hexWrites
  simp only
  split
  · rw [terminated_iff]
    have few := storeWhile_len_le (p := isHexDigit) (Nat.le_trans start (by decide))
    exact Nat.not_lt_of_le (Nat.le_succ_of_le few)
  · rw [NumBuf.writes_below]
    exact Nat.le_trans start (by decide)

theorem octalWrites_inside (text : Text) : ∀ i ∈ octalWrites text, i < 64 := by
  have few : (NumBuf.empty.storeAll
      (((text.takeWhile Char.isDigit).take 62).takeWhile isOctalDigit)).text.length ≤ 62 := by
    rw [NumBuf.storeAll_text]
    calc _ ≤ ((text.takeWhile Char.isDigit).take 62).length :=
          (List.takeWhile_prefix isOctalDigit).length_le
      _ ≤ 62 := List.length_take_le _ _
  have stored := (NumBuf.terminated_below _).mpr (Nat.lt_of_le_of_lt few (by decide : 62 < 64))
  intro i inside
  simp only [octalWrites] at inside
  split at inside
  · split at inside
    · exact stored i inside
    · rcases List.mem_append.mp inside with inside | printed
      · exact stored i inside
      · have below := List.mem_range.mp printed
        omega
  · exact (NumBuf.writes_below _).mpr (Nat.le_trans few (by decide)) i inside

/-- A floating constant has a point or an exponent letter behind its first digits, and these are
one 0 or do not start with a 0; without them a digit follows the point. -/
theorem overlong_shape {text : Text} (overlong : Overlong text) :
    ∃ whole c rest, text = whole ++ c :: rest ∧ (∀ d ∈ whole, d.isDigit) ∧
      (∀ d rest, whole ≠ '0' :: d :: rest) ∧ (c = '.' ∨ c = 'e' ∨ c = 'E') ∧
      (whole = [] → c = '.' ∧ rest.head?.any Char.isDigit) := by
  obtain ⟨whole, fraction, head, suffix, after, start, digits, fractionDigits, some, exponent,
    leading, valid, -⟩ := overlong
  cases fraction with
  | none =>
    obtain ⟨c, tail, starts, letter⟩ := exponent_starts (suffix ++ after) valid (exponent rfl)
    refine ⟨whole, c, tail, ?_, digits, leading, .inr letter, ?_⟩
    · rw [start, ← starts]
      rfl
    · intro noWhole
      rcases some with some | ⟨f, none, -⟩
      · exact absurd noWhole some
      · cases none
  | some f =>
    refine ⟨whole, '.', _, start, digits, leading, .inl rfl, ?_⟩
    intro noWhole
    rcases some with some | ⟨f', same, some⟩
    · exact absurd noWhole some
    · cases same
      obtain ⟨d, f, rfl⟩ := List.exists_cons_of_ne_nil some
      exact ⟨rfl, fractionDigits _ rfl d List.mem_cons_self⟩

theorem not_overlong_prefixed {c : Char} {rest : Text}
    (prefixed : (c = 'x' ∨ c = 'X') ∨ c.isDigit) : ¬ Overlong ('0' :: c :: rest) := by
  intro overlong
  obtain ⟨whole, p, after, start, digits, leading, point, none⟩ := overlong_shape overlong
  cases whole with
  | nil =>
    obtain ⟨rfl, -⟩ := List.cons.inj start
    exact absurd point (by decide)
  | cons w whole =>
    obtain ⟨rfl, behind⟩ := List.cons.inj start
    cases whole with
    | nil =>
      obtain ⟨rfl, -⟩ := List.cons.inj behind
      rcases point with rfl | rfl | rfl <;> exact absurd prefixed (by decide)
    | cons d whole => exact leading d whole rfl

theorem numberWrites_iff {d : Char} {after : Text} (digit : d.isDigit) :
    (∀ i ∈ numberWrites (d :: after), i < 64) ↔ ¬ Overlong (d :: after) := by
  by_cases zero : ∃ c rest, d :: after = '0' :: c :: rest ∧ ((c = 'x' ∨ c = 'X') ∨ c.isDigit)
  · obtain ⟨c, rest, same, prefixed⟩ := zero
    rw [same, numberWrites]
    constructor
    · intro _
      exact not_overlong_prefixed prefixed
    · intro _
      split
      · exact hexWrites_inside _
      · rename_i plain
        rw [if_pos (prefixed.resolve_left plain)]
        exact octalWrites_inside _
  · have path : numberWrites (d :: after) = decimalWrites (d :: after) := by
      unfold numberWrites
      split
      · rename_i c rest same
        rw [if_neg, if_neg]
        · intro octal
          exact zero ⟨c, rest, same, .inr octal⟩
        · intro hex
          exact zero ⟨c, rest, same, .inl hex⟩
      · rfl
    rw [path]
    apply decimalWrites_iff digit
    intro c rest same
    by_contra octal
    exact zero ⟨c, rest, same, .inr (Bool.eq_true_of_not_eq_false octal)⟩

/-- The writes are inside the buffer unless the source goes on with an overlong floating
constant. -/
theorem buffers_kept_iff (l : Lexer) :
    (∀ i ∈ bufferWrites l, i < 64) ↔ ¬ Overlong (lexerSkipWhitespace l).rest := by
  unfold bufferWrites
  cases start : (lexerSkipWhitespace l).rest with
  | nil =>
    constructor
    · intro _ overlong
      obtain ⟨whole, c, rest, nothing, -⟩ := overlong_shape overlong
      cases whole <;> cases nothing
    · intro _ i none
      cases none
  | cons c after =>
    simp only
    by_cases dot : c = '.' ∧ after.head?.any Char.isDigit
    · obtain ⟨rfl, first⟩ := dot
      cases after with
      | nil => cases first
      | cons d after =>
        rw [if_pos ⟨rfl, first⟩]
        exact dotWrites_iff first
    · rw [if_neg dot]
      by_cases digit : c.isDigit
      · rw [if_pos digit]
        exact numberWrites_iff digit
      · rw [if_neg digit]
        constructor
        · intro _ overlong
          obtain ⟨whole, p, rest, same, digits, -, -, point⟩ := overlong_shape overlong
          cases whole with
          | nil =>
            obtain ⟨rfl, rfl⟩ := List.cons.inj same
            exact dot (point rfl)
          | cons w whole =>
            obtain ⟨rfl, -⟩ := List.cons.inj same
            exact digit (digits _ List.mem_cons_self)
        · intro _ i none
          cases none

/-! ### The buffer and the text of the token -/

theorem terminated_range (b : NumBuf) : b.terminated = List.range (b.text.length + 1) := by
  rw [NumBuf.terminated, b.inOrder, List.range_succ]

/-- The scan holds what the lexer has copied and what it has left. -/
structure Holds (s : Scan) (buf : Text) (l : Lexer) : Prop where
  text : s.1.text = buf
  rest : s.2 = l.rest

namespace Holds

variable {s : Scan} {buf : Text} {l : Lexer}

theorem storeChar {c : Char} {t : Text} (holds : Holds s buf l) (start : l.rest = c :: t) :
    Holds s.storeChar (buf ++ [c]) (lexerAdvance l) := by
  rw [storeChar_cons (holds.rest.trans start)]
  constructor
  · exact congrArg (· ++ [c]) holds.text
  · rw [lexerAdvance_rest, start]
    rfl

theorem storeWhile (holds : Holds s buf l) (p : Char → Bool) :
    Holds (s.storeWhile p) (buf ++ (l.copyWhile p (62 - buf.length)).1)
      (l.copyWhile p (62 - buf.length)).2 := by
  constructor
  · simp only [Scan.storeWhile, NumBuf.storeAll_text, Lexer.copyWhile, holds.text, holds.rest]
  · simp only [Scan.storeWhile, Lexer.copyWhile, skip_rest, holds.text, holds.rest]

theorem storeExponent (holds : Holds s buf l) :
    Holds s.storeExponent ((copyExponent buf l).getD (buf, l)).1
      ((copyExponent buf l).getD (buf, l)).2 := by
  unfold Scan.storeExponent copyExponent
  cases start : l.rest with
  | nil =>
    have none : ¬ s.nextIs 'e' 'E' = true := by
      rw [nextIs_iff]
      rintro ⟨c, t, next, -⟩
      rw [holds.rest, start] at next
      cases next
    rw [if_neg none]
    exact holds
  | cons e after =>
    have next : s.2 = e :: after := holds.rest.trans start
    by_cases letter : e = 'e' ∨ e = 'E'
    · have first := holds.storeChar start
      have rest : (lexerAdvance l).rest = after := by rw [lexerAdvance_rest, start, List.tail_cons]
      simp only [if_pos ((nextIs_cons next).mpr letter), if_pos letter, Option.getD_some]
      cases after with
      | nil =>
        have noSign : ¬ s.storeChar.nextIs '+' '-' = true := by
          rw [nextIs_iff]
          rintro ⟨c, t, next, -⟩
          rw [first.rest, rest] at next
          cases next
        rw [if_neg noSign]
        exact first.storeWhile Char.isDigit
      | cons c after =>
        by_cases sign : c = '+' ∨ c = '-'
        · simp only [if_pos ((nextIs_cons (first.rest.trans rest)).mpr sign), if_pos sign]
          have both := (first.storeChar rest).storeWhile Char.isDigit
          have pair : buf ++ [e] ++ [c] = buf ++ [e, c] := List.append_assoc buf [e] [c]
          rw [pair] at both
          exact both
        · simp only [if_neg (fun s => sign ((nextIs_cons (first.rest.trans rest)).mp s)),
            if_neg sign]
          exact first.storeWhile Char.isDigit
    · rw [if_neg (fun s => letter ((nextIs_cons next).mp s))]
      simp only [if_neg letter, Option.getD_none]
      exact holds

theorem storeSuffix (holds : Holds s buf l) (position : Position) :
    s.storeSuffix.1.text = (finishFloat buf l position).1.value := by
  unfold Scan.storeSuffix finishFloat
  cases start : l.rest with
  | nil =>
    have none : ¬ s.nextIs 'f' 'F' = true := by
      rw [nextIs_iff]
      rintro ⟨c, t, next, -⟩
      rw [holds.rest, start] at next
      cases next
    rw [if_neg none]
    exact holds.text
  | cons f after =>
    have next : s.2 = f :: after := holds.rest.trans start
    by_cases letter : f = 'f' ∨ f = 'F'
    · simp only [if_pos ((nextIs_cons next).mpr letter), if_pos letter]
      exact (holds.storeChar start).text
    · simp only [if_neg (fun s => letter ((nextIs_cons next).mp s)), if_neg letter]
      exact holds.text

end Holds

theorem empty_holds (l : Lexer) : Holds (.empty, l.rest) [] l := ⟨rfl, rfl⟩

/-- The indices are those of the token's text and of its end mark. -/
theorem dotWrites_token {l : Lexer} {t : Text} (start : l.rest = '.' :: t) :
    dotWrites l.rest = List.range ((lexDotFloat l).1.value.length + 1) := by
  have digits := (((empty_holds l).storeChar start).storeWhile Char.isDigit).storeExponent
  rw [dotWrites, terminated_range]
  exact congrArg (fun text : Text => List.range (text.length + 1)) (digits.storeSuffix l.position)

theorem continuation_point {s : Scan} {buf : Text} {l : Lexer} (holds : Holds s buf l)
    (point : s.atPoint = true) : ∃ read, floatContinuation buf l = some read ∧
      Holds (s.storeChar.storeWhile Char.isDigit).storeExponent read.1 read.2 := by
  obtain ⟨t, next, single⟩ := atPoint_iff.mp point
  have start : l.rest = '.' :: t := holds.rest.symm.trans next
  have digits := (holds.storeChar start).storeWhile Char.isDigit
  rw [List.append_assoc, List.length_append, List.length_singleton] at digits
  have noRange : ∀ rest, t ≠ '.' :: rest := by
    rintro rest rfl
    exact single rfl
  exact ⟨_, floatContinuation_point start noRange rfl, digits.storeExponent⟩

theorem continuation_plain {s : Scan} {buf : Text} {l : Lexer} (holds : Holds s buf l)
    (plain : ¬ s.atPoint = true) : floatContinuation buf l = copyExponent buf l := by
  rw [atPoint_iff, holds.rest] at plain
  cases start : l.rest with
  | nil =>
    unfold floatContinuation
    simp only [start]
  | cons d after =>
    by_cases noPoint : d = '.'
    · subst noPoint
      have twice : after.head? = some '.' := by
        by_contra single
        exact plain ⟨after, start, single⟩
      obtain ⟨rest, rfl⟩ := List.head?_eq_some_iff.mp twice
      unfold floatContinuation
      simp only [start]
    · exact floatContinuation_exponent start noPoint

theorem copyExponent_isSome {s : Scan} {buf : Text} {l : Lexer} (holds : Holds s buf l) :
    (copyExponent buf l).isSome = s.nextIs 'e' 'E' := by
  rw [Scan.nextIs, holds.rest]
  unfold copyExponent
  cases l.rest with
  | nil => rfl
  | cons e after =>
    by_cases letter : e = 'e' ∨ e = 'E'
    · simp only [if_pos letter]
      rcases letter with rfl | rfl <;> rfl
    · obtain ⟨small, capital⟩ := not_or.mp letter
      simp [small, capital]

/-- A number with digits only keeps them; one with a point or an exponent keeps all up to its
suffix. -/
theorem decimalWrites_token {l : Lexer} (position : Position) :
    decimalWrites l.rest = List.range
      (((floatContinuation (l.copyWhile Char.isDigit 62).1 (l.copyWhile Char.isDigit 62).2).elim
        (l.copyWhile Char.isDigit 62).1
        fun read => (finishFloat read.1 read.2 position).1.value).length + 1) := by
  have whole : Holds (wholeScan l.rest) (l.copyWhile Char.isDigit 62).1
      (l.copyWhile Char.isDigit 62).2 := (empty_holds l).storeWhile Char.isDigit
  unfold decimalWrites
  by_cases point : (wholeScan l.rest).atPoint = true
  · obtain ⟨read, same, holds⟩ := continuation_point whole point
    rw [same, Option.elim_some]
    simp only [point, Bool.true_or, if_true]
    rw [terminated_range, holds.storeSuffix position]
  · rw [continuation_plain whole point]
    have some := copyExponent_isSome whole
    by_cases exponent : (wholeScan l.rest).nextIs 'e' 'E' = true
    · have holds := whole.storeExponent
      rw [exponent] at some
      obtain ⟨read, same⟩ := Option.isSome_iff_exists.mp some
      rw [same, Option.getD_some] at holds
      rw [same, Option.elim_some]
      simp only [point, exponent, Bool.or_true, if_true, Bool.false_eq_true, if_false]
      rw [terminated_range, holds.storeSuffix position]
    · have none : copyExponent (l.copyWhile Char.isDigit 62).1 (l.copyWhile Char.isDigit 62).2 =
          none := by
        rw [← Option.not_isSome_iff_eq_none, some]
        exact exponent
      rw [none, Option.elim_none]
      simp only [point, exponent, Bool.or_false, if_false, Bool.false_eq_true]
      rw [terminated_range, whole.text]

theorem finishInteger_text {buf : Text} {value : Nat} {l l' : Lexer} {position : Position}
    {tok : Token} (read : finishInteger buf value false l position = .ok (tok, l')) :
    tok.value = buf := by
  simp only [finishInteger] at read
  split at read
  · cases read
  · split at read
    · cases read
    · cases read
      rfl

theorem decimal_token {l l' : Lexer} {tok : Token}
    (plain : ∀ c rest, l.rest = '0' :: c :: rest → ¬ (c = 'x' ∨ c = 'X') ∧ ¬ c.isDigit)
    (read : lexNumber l = .ok (tok, l')) :
    decimalWrites l.rest = List.range (tok.value.length + 1) := by
  rw [decimalWrites_token l.position]
  unfold lexNumber at read
  simp only at read
  split at read
  · rename_i c rest start
    obtain ⟨noHex, noOctal⟩ := plain c rest start
    rw [if_neg noHex, if_neg noOctal] at read
    split at read
    · rename_i continued float
      rw [float, Option.elim_some, Except.ok.inj read]
    · rename_i none
      rw [none, Option.elim_none, finishInteger_text read]
  · split at read
    · rename_i continued float
      rw [float, Option.elim_some, Except.ok.inj read]
    · rename_i none
      rw [none, Option.elim_none, finishInteger_text read]

theorem hex_token {l l' : Lexer} {tok : Token} {c : Char} {rest : Text}
    (start : l.rest = '0' :: c :: rest) (hex : c = 'x' ∨ c = 'X')
    (read : lexNumber l = .ok (tok, l')) :
    hexWrites l.rest = List.range (tok.value.length + 1) := by
  have second : (lexerAdvance l).rest = c :: rest := by
    rw [lexerAdvance_rest, start]
    rfl
  have head := ((empty_holds l).storeChar start).storeChar second
  have digits := head.storeWhile isHexDigit
  unfold lexNumber at read
  simp only [start] at read
  rw [if_pos hex] at read
  split at read
  · cases read
  · rename_i some
    have first : (storeChar (storeChar (.empty, l.rest))).2.head?.any isHexDigit = true := by
      rw [head.rest]
      change ¬ ((l.skip 2).rest.takeWhile isHexDigit).take 60 = [] at some
      change ((l.skip 2).rest.head?.any isHexDigit) = true
      cases behind : (l.skip 2).rest with
      | nil => simp [behind] at some
      | cons d after =>
        by_contra other
        simp only [List.head?_cons, Option.any_some] at other
        simp [behind, other] at some
    simp only [hexWrites, first, if_true]
    rw [terminated_range, digits.text, finishInteger_text read]
    rfl

/-- Octal constants apart, the lexer writes the token's text and its end mark and nothing else. -/
theorem numberWrites_token {l l' : Lexer} {tok : Token}
    (noOctal : ∀ c rest, l.rest = '0' :: c :: rest → ¬ c.isDigit)
    (read : lexNumber l = .ok (tok, l')) :
    numberWrites l.rest = List.range (tok.value.length + 1) := by
  by_cases zero : ∃ c rest, l.rest = '0' :: c :: rest ∧ (c = 'x' ∨ c = 'X')
  · obtain ⟨c, rest, start, hex⟩ := zero
    have path : numberWrites l.rest = hexWrites l.rest := by
      rw [start, numberWrites, if_pos hex]
    rw [path]
    exact hex_token start hex read
  · have path : numberWrites l.rest = decimalWrites l.rest := by
      unfold numberWrites
      split
      · rename_i c rest start
        rw [if_neg fun hex => zero ⟨c, rest, start, hex⟩, if_neg (noOctal c rest start)]
      · rfl
    rw [path]
    apply decimal_token _ read
    intro c rest start
    exact ⟨fun hex => zero ⟨c, rest, start, hex⟩, noOctal c rest start⟩

/-- 62 digits, a point, and an exponent letter with its sign. -/
def filledMantissa : Text := List.replicate 62 '1' ++ ['.', 'e', '+', '5']

/-- The sign is written behind the end of the buffer. -/
theorem sign_outside : ¬ ∀ (l : Lexer), ∀ i ∈ bufferWrites l, i < 64 := by
  intro all
  have outside : 64 ∈ bufferWrites (lexerInit filledMantissa none) := by decide +kernel
  exact absurd (all _ 64 outside) (Nat.lt_irrefl 64)

end ClaudeC99.Literals
