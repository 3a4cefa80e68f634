import ClaudeC99.Front.Positions
import ClaudeC99.Front.Scan
import ClaudeC99.Preprocessor.Tokens

/-! The lexer with its position does what the lexer over the rest of the source does, with no
fault, when the positions of the source are `int`s. -/

namespace ClaudeC99.Positions

open Cursors
open Front (Token Position isOctalDigit lowByte punctuator stringEscape charEscape)
open Numeral (isHexDigit digitsValue)
open Preprocessor (Text isSpaceChar isIdentStart isIdentChar)

abbrev Where := Cursor Position

variable {source : Source} {c c' : Where} {E : String → Prop}

/-- The lexer over the rest of the source. -/
def lexerAt (source : Source) (c : Where) : Front.Lexer :=
  ⟨source.text.drop c.pos, c.info.line, c.info.col, c.info.file⟩

def size (source : Source) : Nat := source.text.length

def value (source : Source) (i : Nat) : Char := source.tape.value i

def after (source : Source) (c : Where) (n : Nat) : Where := source.tape.after passed c n

@[simp] theorem after_pos (n : Nat) : (after source c n).pos = c.pos + n := Tape.after_pos c n

@[simp] theorem lexerAt_position : (lexerAt source c).position = c.info := rfl

theorem rest_inside (inside : c.pos < size source) :
    (lexerAt source c).rest = value source c.pos :: source.text.drop (c.pos + 1) :=
  Tape.drop_inside (T := source.tape) inside

theorem rest_end (last : c.pos = size source) : (lexerAt source c).rest = [] := by
  rw [lexerAt, last]
  exact List.drop_length

theorem value_nul_iff (within : c.pos ≤ size source) :
    value source c.pos = '\x00' ↔ c.pos = size source := by
  constructor
  · intro nul
    by_contra before
    exact Tape.value_of_inside (T := source.tape) (Nat.lt_of_le_of_ne within before) nul
  · intro last
    rw [last]
    exact Tape.value_size

theorem inside_of_ne (within : c.pos ≤ size source) (other : value source c.pos ≠ '\x00') :
    c.pos < size source :=
  Tape.inside_of_value (T := source.tape) within other

theorem head_rest {d : Char} (other : d ≠ '\x00') (within : c.pos ≤ size source) :
    (lexerAt source c).rest.head? = some d ↔ value source c.pos = d := by
  rcases Nat.lt_or_eq_of_le within with inside | last
  · simp [rest_inside inside]
  · simp [rest_end last, (value_nul_iff within).mpr last, Ne.symm other]

theorem value_of_head {d : Char} (within : c.pos ≤ size source)
    (head : d ∈ (lexerAt source c).rest.head?) : value source c.pos = d := by
  rcases Nat.lt_or_eq_of_le within with inside | last
  · simpa [rest_inside inside] using head
  · simp [rest_end last] at head

theorem lexerAt_step (inside : c.pos < size source) :
    lexerAt source (after source c 1) = Front.lexerAdvance (lexerAt source c) := by
  have next : after source c 1 = ⟨c.pos + 1, passed (value source c.pos) c.info⟩ := rfl
  have start := rest_inside inside
  rw [next]
  by_cases newline : value source c.pos = '\n'
  · rw [newline] at start ⊢
    simp only [Front.lexerAdvance, start]
    rfl
  · rw [Front.lexerAdvance_cons start newline]
    simp [lexerAt, passed, newline, Front.Lexer.after]

theorem lexerAt_after {n : Nat} (fits : c.pos + n ≤ size source) :
    lexerAt source (after source c n) = (lexerAt source c).skip n := by
  induction n generalizing c with
  | zero => rfl
  | succ n ih =>
    have step : after source c (n + 1) = after source (after source c 1) n := rfl
    rw [step, ih (by rw [after_pos]; omega), lexerAt_step (by omega)]
    rfl

theorem enough_rounds : size source < c.pos + source.tape.rounds := by
  change size source < c.pos + (size source + 1)
  omega

/-- The cursor has moved on to `c'`, and not behind the terminating NUL. -/
def Forward (source : Source) (c c' : Where) : Prop := c.pos ≤ c'.pos ∧ c'.pos ≤ size source

theorem forward_after {n : Nat} (fits : c.pos + n ≤ size source) :
    Forward source c (after source c n) := by
  constructor
  · rw [after_pos]
    omega
  · rw [after_pos]
    exact fits

theorem rest_length : (lexerAt source c).rest.length = size source - c.pos := List.length_drop

theorem copyWhile_ample {l : Front.Lexer} {p : Char → Bool} {room : Nat}
    (ample : l.rest.length ≤ room) :
    l.copyWhile p room = (l.rest.takeWhile p, l.skip (l.rest.takeWhile p).length) := by
  have short : (l.rest.takeWhile p).length ≤ room :=
    (List.takeWhile_prefix p).length_le.trans ample
  rw [Front.Lexer.copyWhile, List.take_of_length_le short]

theorem drop_takeWhile (p : Char → Bool) (t : Text) :
    t.drop (t.takeWhile p).length = t.dropWhile p := by
  calc t.drop (t.takeWhile p).length
      = (t.takeWhile p ++ t.dropWhile p).drop (t.takeWhile p).length := by
        rw [List.takeWhile_append_dropWhile]
    _ = t.dropWhile p := List.drop_left

theorem after_quiet (n : Nat) : (source.tape.after (fun _ info => info) c n).info = c.info := by
  induction n generalizing c with
  | zero => rfl
  | succ n ih => exact ih

/-- The cursor has moved, and not behind the terminating NUL. -/
def Moved (source : Source) (c c' : Where) : Prop := c.pos < c'.pos ∧ c'.pos ≤ size source

theorem moved_after {n : Nat} (some : 0 < n) (fits : c.pos + n ≤ size source) :
    Moved source c (after source c n) := by
  constructor
  · rw [after_pos]
    omega
  · rw [after_pos]
    exact fits

theorem Forward.trans {c₁ : Where} (first : Forward source c c₁) (last : Forward source c₁ c') :
    Forward source c c' :=
  ⟨Nat.le_trans first.1 last.1, last.2⟩

theorem Moved.forward {c₁ : Where} (moved : Moved source c c₁) (forward : Forward source c₁ c') :
    Moved source c c' :=
  ⟨Nat.lt_of_lt_of_le moved.1 forward.1, forward.2⟩

theorem Forward.moved {c₁ : Where} (forward : Forward source c c₁) (moved : Moved source c₁ c') :
    Moved source c c' :=
  ⟨Nat.lt_of_le_of_lt forward.1 moved.1, moved.2⟩

theorem Moved.weaken (moved : Moved source c c') : Forward source c c' :=
  ⟨Nat.le_of_lt moved.1, moved.2⟩

/-! ### The steps of the scanning programs -/

section Steps

variable (short : size source ≤ intMax)

include short

theorem ends_peek {k : Nat} {Q : Char → Where → Prop} (within : c.pos + k ≤ size source) :
    Ends (peek source k) c Q E ↔ Q (value source (c.pos + k)) c :=
  Tape.ends_peek (T := source.tape) short within

theorem ends_look {Q : Char → Where → Prop} (within : c.pos ≤ size source) :
    Ends (peek source 0) c Q E ↔ Q (value source c.pos) c :=
  Tape.ends_peek (T := source.tape) short within

theorem ends_peekIf {known : Bool} {k : Nat} {Q : Char → Where → Prop}
    (within : known = true → c.pos + k ≤ size source) :
    Ends (peekIf source known k) c Q E ↔
      Q (if known = true then value source (c.pos + k) else '\x00') c := by
  rw [peekIf]
  split
  next read => rw [ends_peek short (within read)]
  · exact ends_pure

theorem ends_advance {Q : Unit → Where → Prop} (inside : c.pos < size source) :
    Ends (lexerAdvance source) c Q E ↔ Q () (after source c 1) :=
  Tape.ends_advance (T := source.tape) short inside

theorem ends_skip {n : Nat} {Q : Unit → Where → Prop} (inside : c.pos + n ≤ size source) :
    Ends (skip source n) c Q E ↔ Q () (after source c n) :=
  Tape.ends_advanceBy (T := source.tape) short inside

/-- The loops of the lexer pass the run that it takes off the rest. -/
theorem copyWhile_ends {p : Char → Bool} (stops : p '\x00' = false) (room : Nat)
    {Q : Text → Where → Prop} (within : c.pos ≤ size source)
    (next : ∀ c' run, (lexerAt source c).copyWhile p room = (run, lexerAt source c') →
      Forward source c c' → c'.pos = c.pos + run.length → Q run c') :
    Ends (copyWhile source p room) c Q E := by
  rw [copyWhile, Tape.ends_passWhile (T := source.tape) short stops within
    enough_rounds]
  have fits := Tape.run_fits (T := source.tape) (c := c) p room within
  apply next
  · rw [Front.Lexer.copyWhile]
    exact congrArg _ (lexerAt_after fits).symm
  · exact forward_after fits
  · exact after_pos _

theorem copyAll_ends {p : Char → Bool} (stops : p '\x00' = false) {Q : Text → Where → Prop}
    (within : c.pos ≤ size source)
    (next : ∀ c' run, (∀ {room}, (lexerAt source c).rest.length ≤ room →
        (lexerAt source c).copyWhile p room = (run, lexerAt source c')) →
      Forward source c c' → c'.pos = c.pos + run.length → Q run c') :
    Ends (copyAll source p) c Q E := by
  refine copyWhile_ends short stops _ within fun c' run copied forward moved => ?_
  refine next c' run (fun {room} ample => ?_) forward moved
  rw [← copied, copyWhile_ample ample, copyWhile_ample]
  rw [rest_length, Tape.rounds]
  exact Nat.le_succ_of_le (Nat.sub_le _ _)

theorem passAll_ends {p : Char → Bool} (stops : p '\x00' = false) {Q : Text → Where → Prop}
    (within : c.pos ≤ size source)
    (next : ∀ c', (lexerAt source c').rest = (lexerAt source c).rest.dropWhile p →
      c'.info = c.info → Forward source c c' → Q ((lexerAt source c).rest.takeWhile p) c') :
    Ends (passAll source p) c Q E := by
  rw [passAll, Tape.ends_passWhile (T := source.tape) short stops within
    enough_rounds]
  have ample : (lexerAt source c).rest.length ≤ source.tape.rounds := by
    rw [rest_length, Tape.rounds]
    exact Nat.le_succ_of_le (Nat.sub_le _ _)
  have taken : source.tape.run p source.tape.rounds c = (lexerAt source c).rest.takeWhile p :=
    List.take_of_length_le ((List.takeWhile_prefix p).length_le.trans ample)
  have fits := Tape.run_fits (T := source.tape) (c := c) p source.tape.rounds within
  rw [taken] at fits ⊢
  apply next
  · change source.text.drop _ = _
    rw [Tape.after_pos, ← List.drop_drop]
    exact drop_takeWhile p _
  · exact after_quiet _
  · constructor
    · rw [Tape.after_pos]
      omega
    · rw [Tape.after_pos]
      exact fits

theorem passIf_ends {d : Char} (mark : d ≠ '\x00') {Q : Unit → Where → Prop}
    (within : c.pos ≤ size source)
    (next : ∀ c', (lexerAt source c').rest =
        (if (lexerAt source c).rest.head? = some d then (lexerAt source c).rest.tail
          else (lexerAt source c).rest) →
      c'.info = c.info → Forward source c c' → Q () c') :
    Ends (passIf source d) c Q E := by
  rw [passIf, ends_bind, ends_look short within]
  split
  next same =>
    have inside : c.pos < size source := inside_of_ne within (same ▸ mark)
    rw [Tape.ends_bump (T := source.tape) short inside]
    apply next
    · rw [rest_inside inside, same]
      simp [lexerAt]
    · rfl
    · exact ⟨Nat.le_succ _, inside⟩
  next other =>
    rw [ends_pure]
    apply next
    · rcases Nat.lt_or_eq_of_le within with inside | last
      · rw [rest_inside inside]
        simp [other]
      · simp [rest_end last]
    · rfl
    · exact ⟨Nat.le_refl _, within⟩

end Steps

/-! ### Blanks and location markers -/

theorem noNul_rest : '\x00' ∉ (lexerAt source c).rest :=
  fun member => source.noNul (List.mem_of_mem_drop member)

theorem takeWhile_noNul (p : Char → Bool) {t : Text} (noNul : '\x00' ∉ t) :
    t.takeWhile (fun c => c ≠ '\x00' && p c) = t.takeWhile p := by
  induction t with
  | nil => rfl
  | cons d t ih =>
    simp only [List.mem_cons, not_or] at noNul
    rw [List.takeWhile_cons, List.takeWhile_cons, ih noNul.2]
    simp [Ne.symm noNul.1]

theorem dropWhile_noNul (p : Char → Bool) {t : Text} (noNul : '\x00' ∉ t) :
    t.dropWhile (fun c => c ≠ '\x00' && p c) = t.dropWhile p := by
  rw [← drop_takeWhile, takeWhile_noNul p noNul, drop_takeWhile]

theorem locationMarker_eq {l : Front.Lexer} {afterColon : Text}
    (colon : afterColon =
      if ((l.rest.drop 1).dropWhile Char.isDigit).head? = some ':' then
        ((l.rest.drop 1).dropWhile Char.isDigit).tail
      else (l.rest.drop 1).dropWhile Char.isDigit) :
    Front.lexerParseLocationMarker l =
      { rest := (afterColon.dropWhile (· ≠ '\n')).drop 1
        line := digitsValue 10 ((l.rest.drop 1).takeWhile Char.isDigit)
        col := 1
        file := if afterColon.takeWhile (· ≠ '\n') = [] then l.file
          else some ((afterColon.takeWhile (· ≠ '\n')).take 511) } := by
  subst colon
  simp only [Front.lexerParseLocationMarker]
  generalize (l.rest.drop 1).dropWhile Char.isDigit = t
  cases t with
  | nil => rfl
  | cons d t =>
    by_cases colon : d = ':'
    · subst colon
      rfl
    · simp [colon]

theorem rest_newline (t : Text) :
    (if (t.dropWhile (· ≠ '\n')).head? = some '\n' then (t.dropWhile (· ≠ '\n')).tail
      else t.dropWhile (· ≠ '\n')) = (t.dropWhile (· ≠ '\n')).drop 1 := by
  cases left : t.dropWhile (· ≠ '\n') with
  | nil => rfl
  | cons d rest =>
    have stopped := List.head?_dropWhile_not (fun c => decide (c ≠ '\n')) t
    rw [left] at stopped
    have newline : d = '\n' := by simpa using stopped
    simp [newline]

section Blanks

variable (short : size source ≤ intMax)

include short

theorem locationMarker_ends {Q : Unit → Where → Prop} (inside : c.pos < size source)
    (next : ∀ c', lexerAt source c' = Front.lexerParseLocationMarker (lexerAt source c) →
      Forward source c c' → c.pos < c'.pos → Q () c') :
    Ends (lexerParseLocationMarker source) c Q E := by
  rw [lexerParseLocationMarker, ends_bind, Tape.ends_bump (T := source.tape) short inside,
    ends_bind]
  have within : (⟨c.pos + 1, c.info⟩ : Where).pos ≤ size source := inside
  have behind : (lexerAt source ⟨c.pos + 1, c.info⟩).rest = (lexerAt source c).rest.drop 1 := by
    rw [rest_inside inside]
    rfl
  refine passAll_ends short rfl within fun c₁ rest₁ info₁ forward₁ => ?_
  rw [ends_bind]
  refine passIf_ends short (by decide) forward₁.2 fun c₂ rest₂ info₂ forward₂ => ?_
  rw [ends_bind]
  refine passAll_ends short rfl forward₂.2 fun c₃ rest₃ info₃ forward₃ => ?_
  rw [ends_bind]
  refine passIf_ends short (by decide) forward₃.2 fun c₄ rest₄ info₄ forward₄ => ?_
  rw [ends_modify]
  have moved : c.pos + 1 ≤ c₄.pos :=
    (forward₁.1.trans forward₂.1).trans (forward₃.1.trans forward₄.1)
  apply next
  · rw [rest₁, behind] at rest₂
    have noNul : '\x00' ∉ (lexerAt source c₂).rest := noNul_rest
    have path := takeWhile_noNul (· ≠ '\n') noNul
    have left := dropWhile_noNul (· ≠ '\n') noNul
    rw [rest₃, left, rest_newline] at rest₄
    rw [locationMarker_eq rest₂, behind, info₄, info₃, info₂, info₁, path, ← rest₄]
    rfl
  · exact ⟨Nat.le_of_succ_le moved, forward₄.2⟩
  · exact moved

theorem skipWhitespaceLoop_ends {n m : Nat} (within : c.pos ≤ size source)
    (enough : size source < c.pos + n) (ample : (lexerAt source c).rest.length ≤ m) :
    Ends (lexerSkipWhitespaceLoop source n) c
      (fun _ c' => Front.lexerSkipWhitespaceLoop m (lexerAt source c) = lexerAt source c' ∧
        Forward source c c') E := by
  induction n generalizing c m with
  | zero => omega
  | succ n ih =>
    rw [lexerSkipWhitespaceLoop, ends_bind, ends_look short within]
    rcases Nat.lt_or_eq_of_le within with inside | last
    · have start := rest_inside inside
      have other : value source c.pos ≠ '\x00' := Tape.value_of_inside (T := source.tape) inside
      obtain ⟨m, rfl⟩ : ∃ k, m = k + 1 :=
        Nat.exists_eq_succ_of_ne_zero (by rw [start] at ample; simp at ample; omega)
      -- a marker or a blank is passed, and the rest of the loop starts behind it
      have later {c₁ : Where} (forward : Forward source c c₁) (moved : c.pos < c₁.pos)
          (same : Front.lexerSkipWhitespaceLoop (m + 1) (lexerAt source c) =
            Front.lexerSkipWhitespaceLoop m (lexerAt source c₁)) :
          Ends (lexerSkipWhitespaceLoop source n) c₁
            (fun _ c' => Front.lexerSkipWhitespaceLoop (m + 1) (lexerAt source c) =
              lexerAt source c' ∧ Forward source c c') E := by
        have left : (lexerAt source c₁).rest.length ≤ m := by
          rw [rest_length] at ample ⊢
          omega
        refine (ih forward.2 (by omega) left).mono (fun ended => ?_) id
        exact ⟨same.trans ended.1, forward.1.trans ended.2.1, ended.2.2⟩
      split
      next marker =>
        rw [ends_bind]
        refine locationMarker_ends short inside fun c₁ parsed forward moved => ?_
        apply later forward moved
        rw [Front.lexerSkipWhitespaceLoop, start]
        simp only [marker, if_true, parsed]
      next noMarker =>
        split
        next blank =>
          rw [ends_bind, ends_advance short inside]
          apply later (forward_after inside) (by rw [after_pos]; omega)
          rw [Front.lexerSkipWhitespaceLoop, start, lexerAt_step inside]
          simp only [noMarker, blank.2, if_true, if_false]
        next noBlank =>
          have token : isSpaceChar (value source c.pos) = false := by simpa [other] using noBlank
          rw [ends_pure, Front.lexerSkipWhitespaceLoop, start]
          simp [noMarker, token, Forward, within]
    · have nul : value source c.pos = '\x00' := (value_nul_iff within).mpr last
      have start := rest_end last
      rw [nul, if_neg (by decide), if_neg (by simp), ends_pure]
      refine ⟨?_, Nat.le_refl _, within⟩
      cases m with
      | zero => rfl
      | succ m => rw [Front.lexerSkipWhitespaceLoop, start]

theorem skipWhitespace_ends (within : c.pos ≤ size source) :
    Ends (lexerSkipWhitespace source) c
      (fun _ c' => Front.lexerSkipWhitespace (lexerAt source c) = lexerAt source c' ∧
        Forward source c c') E := by
  apply skipWhitespaceLoop_ends short within
  · exact enough_rounds
  · exact Nat.le_refl _

end Blanks

/-! ### String and character literals -/

/-- The end of `Front.lexChar`, behind the byte. -/
def closing (dc : Char) (l : Front.Lexer) : Except String (Char × Front.Lexer) :=
  match l.rest with
  | '\'' :: _ => .ok (dc, Front.lexerAdvance l)
  | rest =>
    match rest.dropWhile (fun p => p ≠ '\n' && p ≠ '\'') with
    | '\'' :: _ => .error "error: multi character constant"
    | _ => .error "error: unterminated character literal"

theorem closing_open {dc : Char} {l : Front.Lexer} (noQuote : l.rest.head? ≠ some '\'') :
    closing dc l = .error (
      if (l.rest.dropWhile (fun p => p ≠ '\n' && p ≠ '\'')).head? = some '\'' then
        "error: multi character constant"
      else "error: unterminated character literal") := by
  unfold closing
  split
  next start =>
    rw [start] at noQuote
    exact absurd rfl noQuote
  · split
    next left =>
      rw [left]
      rfl
    next left =>
      rw [if_neg]
      intro quote
      obtain ⟨t, same⟩ := List.head?_eq_some_iff.mp quote
      exact left t same

/-- The program at `c` ends as the lexer over the rest of the source does, behind `c`. -/
def Follows {α : Type} (source : Source) (m : Lexing α) (c : Where)
    (result : Except String (α × Front.Lexer)) : Prop :=
  Ends m c
    (fun a c' => result = .ok (a, lexerAt source c') ∧ Moved source c c')
    (fun message => result = .error message)

section Literals

variable (short : size source ≤ intMax)

theorem takeWhile_eq_nil {p : Char → Bool} (stops : p '\x00' = false)
    (within : c.pos ≤ size source) :
    (lexerAt source c).rest.takeWhile p = [] ↔ p (value source c.pos) = false := by
  rcases Nat.lt_or_eq_of_le within with inside | last
  · rw [rest_inside inside, List.takeWhile_cons]
    cases p (value source c.pos) <;> simp
  · rw [rest_end last, (value_nul_iff within).mpr last]
    simp [stops]

include short

theorem lexEscape_follows {simple : Char → Option Char} {literal : String}
    (noNul : simple '\x00' = none) (inside : c.pos < size source) :
    Follows source (lexEscape source simple literal) c
      (Front.lexEscape simple literal (lexerAt source c)) := by
  have start := rest_inside inside
  rw [Follows, lexEscape, ends_bind, ends_peek short inside]
  rcases Nat.lt_or_eq_of_le (Nat.succ_le_of_lt inside) with inside₁ | last
  · have next : source.text.drop (c.pos + 1) =
        value source (c.pos + 1) :: source.text.drop (c.pos + 1 + 1) :=
      Tape.drop_inside (T := source.tape) inside₁
    rw [next] at start
    have unfolded := Front.lexEscape.eq_def simple literal (lexerAt source c)
    rw [start] at unfolded
    dsimp only at unfolded
    rw [← start] at unfolded
    split
    next hex =>
      rw [if_pos hex] at unfolded
      have within₂ : (after source c 2).pos ≤ size source := by
        rw [after_pos]
        exact inside₁
      rw [ends_bind, ends_skip short inside₁, ends_bind, ends_look short within₂]
      have none := takeWhile_eq_nil (p := isHexDigit) rfl within₂
      rw [← lexerAt_after inside₁] at unfolded
      have ample : (lexerAt source (after source c 2)).rest.length ≤
          (lexerAt source c).rest.length := by
        rw [rest_length, rest_length, after_pos]
        omega
      split
      next digit =>
        rw [ends_bind]
        refine copyAll_ends short rfl within₂ fun c' run copied forward _ => ?_
        have some : run ≠ [] := by
          intro nil
          have taken := congrArg Prod.fst ((copyWhile_ample (Nat.le_refl _)).symm.trans
            (copied (Nat.le_refl _)))
          rw [nil, none, digit] at taken
          cases taken
        rw [copied ample] at unfolded
        simp only [if_neg some] at unfolded
        exact ⟨unfolded, (moved_after (by decide) inside₁).forward forward⟩
      next noDigit =>
        have nil := none.mpr (by simpa using noDigit)
        rw [copyWhile_ample ample, nil] at unfolded
        exact unfolded
    next noHex =>
      rw [if_neg noHex] at unfolded
      split
      next octal =>
        rw [if_pos octal] at unfolded
        have within₁ : (after source c 1).pos ≤ size source := by
          rw [after_pos]
          exact inside
        rw [ends_bind, ends_skip short inside, ends_bind]
        rw [← lexerAt_after inside] at unfolded
        refine copyWhile_ends short rfl 3 within₁ fun c' run copied forward _ => ?_
        rw [copied] at unfolded
        exact ⟨unfolded, (moved_after (by decide) inside).forward forward⟩
      next noOctal =>
        rw [if_neg noOctal] at unfolded
        split
        next d known =>
          rw [known, ← lexerAt_after inside₁] at unfolded
          rw [ends_bind, ends_skip short inside₁, ends_pure]
          exact ⟨unfolded, moved_after (by decide) inside₁⟩
        next unknown =>
          rw [unknown] at unfolded
          exact unfolded
  · have nul : value source (c.pos + 1) = '\x00' :=
      (value_nul_iff (c := ⟨c.pos + 1, c.info⟩) inside).mpr last
    have ended : source.text.drop (c.pos + 1) = [] := by
      rw [show c.pos + 1 = source.text.length from last]
      exact List.drop_length
    rw [ended] at start
    rw [nul, if_neg (by decide), if_neg (by decide), noNul, Front.lexEscape, start]
    exact ends_report.mpr rfl

theorem lexStringLoop_follows {n m : Nat} {decoded : Text} (within : c.pos ≤ size source)
    (enough : size source < c.pos + n) (ample : (lexerAt source c).rest.length ≤ m) :
    Ends (lexStringLoop source n decoded) c
      (fun t c' => Front.lexStringLoop m decoded (lexerAt source c) = .ok (t, lexerAt source c') ∧
        Forward source c c')
      (fun message => Front.lexStringLoop m decoded (lexerAt source c) = .error message) := by
  induction n generalizing c m decoded with
  | zero => omega
  | succ n ih =>
    rw [lexStringLoop, ends_bind, ends_look short within]
    rcases Nat.lt_or_eq_of_le within with inside | last
    · have start := rest_inside inside
      have other : value source c.pos ≠ '\x00' := Tape.value_of_inside (T := source.tape) inside
      obtain ⟨m, rfl⟩ : ∃ k, m = k + 1 :=
        Nat.exists_eq_succ_of_ne_zero (by rw [start] at ample; simp at ample; omega)
      have unfolded := Front.lexStringLoop.eq_def (m + 1) decoded (lexerAt source c)
      dsimp only at unfolded
      rw [start] at unfolded
      dsimp only at unfolded
      -- the loop goes on behind `c`
      have later {c₁ : Where} {decoded₁ : Text} (moved : Moved source c c₁)
          (same : Front.lexStringLoop (m + 1) decoded (lexerAt source c) =
            Front.lexStringLoop m decoded₁ (lexerAt source c₁)) :
          Ends (lexStringLoop source n decoded₁) c₁
            (fun t c' => Front.lexStringLoop (m + 1) decoded (lexerAt source c) =
              .ok (t, lexerAt source c') ∧ Forward source c c')
            (fun message => Front.lexStringLoop (m + 1) decoded (lexerAt source c) =
              .error message) := by
        have first := moved.1
        have left : (lexerAt source c₁).rest.length ≤ m := by
          rw [rest_length] at ample ⊢
          omega
        rw [same]
        refine (ih moved.2 (by omega) left).mono (fun ended => ?_) id
        exact ⟨ended.1, (moved.forward ended.2).weaken⟩
      split
      next quote =>
        rw [if_pos quote, ← lexerAt_step inside] at unfolded
        rw [ends_bind, ends_advance short inside, ends_pure]
        exact ⟨unfolded, forward_after inside⟩
      next noQuote =>
        rw [if_neg noQuote] at unfolded
        split
        next newline =>
          rw [if_pos newline] at unfolded
          exact unfolded
        next noNewline =>
          rw [if_neg noNewline] at unfolded
          split
          next backslash =>
            rw [if_pos backslash] at unfolded
            rw [ends_bind]
            refine (lexEscape_follows short rfl inside).mono (fun escaped => ?_) fun failed => ?_
            · apply later escaped.2
              rw [unfolded, escaped.1]
              rfl
            · rw [unfolded, failed]
              rfl
          next plain =>
            rw [if_neg plain, ← lexerAt_step inside] at unfolded
            rw [ends_bind, ends_advance short inside]
            exact later (moved_after Nat.one_pos inside) unfolded
    · have nul : value source c.pos = '\x00' := (value_nul_iff within).mpr last
      have start := rest_end last
      rw [nul, if_neg (by decide), if_pos rfl, ends_report]
      cases m with
      | zero => rfl
      | succ m => rw [Front.lexStringLoop, start]

theorem lexString_follows (inside : c.pos < size source) :
    Follows source (lexString source) c (Front.lexString (lexerAt source c)) := by
  have within : (after source c 1).pos ≤ size source := by
    rw [after_pos]
    exact inside
  rw [Follows, lexString, ends_bind, ends_advance short inside, Front.lexString,
    ← lexerAt_step inside]
  refine (lexStringLoop_follows short within ?_ ?_).mono (fun ended => ⟨ended.1, ?_⟩) id
  · exact enough_rounds
  · rw [rest_length, rest_length, after_pos]
    omega
  · exact (moved_after Nat.one_pos inside).forward ended.2

theorem closeChar_follows {dc : Char} (within : c.pos ≤ size source) :
    Follows source (closeChar source dc) c (closing dc (lexerAt source c)) := by
  rw [Follows, closeChar, ends_bind, ends_look short within]
  split
  next quote =>
    have inside : c.pos < size source := inside_of_ne within (by rw [quote]; decide)
    have start := rest_inside inside
    rw [quote] at start
    rw [ends_bind, ends_advance short inside, ends_pure, closing, start]
    rw [lexerAt_step inside]
    exact ⟨rfl, moved_after Nat.one_pos inside⟩
  next noQuote =>
    rw [ends_bind]
    refine passAll_ends short rfl within fun c' left _ forward => ?_
    rw [dropWhile_noNul _ noNul_rest] at left
    rw [ends_bind, ends_look short forward.2,
      closing_open ((head_rest (by decide) within).not.mpr noQuote), ← left]
    simp only [head_rest (show '\'' ≠ '\x00' by decide) forward.2]
    split
    · exact ends_report.mpr rfl
    · exact ends_report.mpr rfl

theorem lexCharByte_follows (inside : c.pos < size source) :
    Follows source (lexCharByte source (value source c.pos)) c
      (if value source c.pos = '\\' then
        Front.lexEscape charEscape "character literal" (lexerAt source c)
      else .ok (value source c.pos, Front.lexerAdvance (lexerAt source c))) := by
  rw [lexCharByte]
  split
  · exact lexEscape_follows short rfl inside
  · rw [Follows, ends_bind, ends_advance short inside, ends_pure, lexerAt_step inside]
    exact ⟨rfl, moved_after Nat.one_pos inside⟩

theorem lexChar_follows (inside : c.pos < size source) :
    Follows source (lexChar source) c (Front.lexChar (lexerAt source c)) := by
  have first : Moved source c (after source c 1) := moved_after Nat.one_pos inside
  have unfolded := Front.lexChar.eq_def (lexerAt source c)
  dsimp only at unfolded
  rw [← lexerAt_step inside] at unfolded
  rw [Follows, lexChar, ends_bind, ends_advance short inside, ends_bind, ends_look short first.2]
  rcases Nat.lt_or_eq_of_le first.2 with inside₁ | last
  · have other : value source (after source c 1).pos ≠ '\x00' :=
      Tape.value_of_inside (T := source.tape) inside₁
    rw [rest_inside inside₁] at unfolded
    dsimp only at unfolded
    rw [if_neg other]
    split
    next newline =>
      rw [if_pos newline] at unfolded
      exact unfolded
    next noNewline =>
      rw [if_neg noNewline] at unfolded
      split
      next quote =>
        rw [if_pos quote] at unfolded
        exact unfolded
      next noQuote =>
        rw [if_neg noQuote] at unfolded
        have whole : Front.lexChar (lexerAt source c) =
            (if value source (after source c 1).pos = '\\' then
              Front.lexEscape charEscape "character literal" (lexerAt source (after source c 1))
            else .ok (value source (after source c 1).pos,
              Front.lexerAdvance (lexerAt source (after source c 1)))) >>= fun read =>
                closing read.1 read.2 := by
          rw [unfolded]
          split
          · rfl
          · rfl
        rw [ends_bind]
        refine (lexCharByte_follows short inside₁).mono (fun read => ?_) fun failed => ?_
        · rw [whole, read.1]
          refine (closeChar_follows short read.2.2).mono (fun closed => ?_) id
          exact ⟨closed.1, first.forward (read.2.weaken.moved closed.2).weaken⟩
        · rw [whole, failed]
          rfl
  · have nul := (value_nul_iff first.2).mpr last
    rw [rest_end last] at unfolded
    rw [if_pos nul]
    exact unfolded

end Literals

/-! ### Numbers and identifiers -/

section Numbers

/-- The sign at the start of a text, if there is one. -/
def signOf (t : Text) : Text := (t.take 1).takeWhile fun s => s = '+' ∨ s = '-'

theorem copyExponent_eq {l : Front.Lexer} {buf t : Text} {e : Char} (start : l.rest = e :: t)
    (exponent : e = 'e' ∨ e = 'E') :
    Front.copyExponent buf l =
      let read := (l.skip (1 + (signOf t).length)).copyWhile Char.isDigit
        (62 - (buf ++ e :: signOf t).length)
      some (buf ++ e :: signOf t ++ read.1, read.2) := by
  rw [Front.copyExponent, start]
  dsimp only
  rw [if_pos exponent]
  cases t with
  | nil => rfl
  | cons s t =>
    by_cases signed : s = '+' ∨ s = '-'
    · simp [signOf, signed]
    · simp [signOf, signed]

/-- The exponent is there or the buffer is as before it. -/
theorem exponent_getD {buf : Text} {r : Option Text} {c₁ c₂ : Where}
    (read : Front.copyExponent buf (lexerAt source c₁) = r.map (·, lexerAt source c₂))
    (same : r = none → c₂ = c₁) :
    (Front.copyExponent buf (lexerAt source c₁)).getD (buf, lexerAt source c₁) =
      (r.getD buf, lexerAt source c₂) := by
  rw [read]
  cases r with
  | none =>
    rw [same rfl]
    rfl
  | some t => rfl

theorem floatContinuation_point {l : Front.Lexer} {buf t : Text} (start : l.rest = '.' :: t)
    (single : t.head? ≠ some '.') :
    Front.floatContinuation buf l =
      let read := (Front.lexerAdvance l).copyWhile Char.isDigit (62 - (buf.length + 1))
      some ((Front.copyExponent (buf ++ '.' :: read.1) read.2).getD
        (buf ++ '.' :: read.1, read.2)) := by
  rw [Front.floatContinuation, start]
  cases t with
  | nil => rfl
  | cons d t =>
    have other : d ≠ '.' := by simpa using single
    simp [other]

theorem floatContinuation_whole {l : Front.Lexer} {buf : Text}
    (noPoint : ∀ t, l.rest = '.' :: t → t.head? = some '.') :
    Front.floatContinuation buf l = Front.copyExponent buf l := by
  cases start : l.rest with
  | nil => rw [Front.floatContinuation, start]
  | cons d t =>
    by_cases point : d = '.'
    · subst point
      obtain ⟨t', rfl⟩ := List.head?_eq_some_iff.mp (noPoint t start)
      rw [Front.floatContinuation, start]
      rfl
    · rw [Front.floatContinuation, start]
      simp [point]

theorem copyWhile_more {l : Front.Lexer} {p : Char → Bool} {d : Char} {t : Text} {room : Nat}
    (start : l.rest = d :: t) (holds : p d = true) (some : 0 < room) :
    l.copyWhile p room =
      (d :: ((Front.lexerAdvance l).copyWhile p (room - 1)).1,
        ((Front.lexerAdvance l).copyWhile p (room - 1)).2) := by
  obtain ⟨room, rfl⟩ := Nat.exists_eq_add_of_lt some
  have behind : (Front.lexerAdvance l).rest = t := by
    rw [Front.lexerAdvance_rest, start]
    rfl
  simp [Front.Lexer.copyWhile, start, behind, holds, Front.Lexer.skip]

theorem copyWhile_stop {l : Front.Lexer} {p : Char → Bool} {d : Char} {t : Text} {room : Nat}
    (start : l.rest = d :: t) (stop : ¬ (p d = true ∧ 0 < room)) :
    l.copyWhile p room = ([], l) := by
  have nothing : (l.rest.takeWhile p).take room = [] := by
    rw [start, List.takeWhile_cons]
    by_cases holds : p d = true
    · have full : room = 0 := by
        by_contra some
        exact stop ⟨holds, Nat.pos_of_ne_zero some⟩
      simp [full]
    · simp [holds]
  simp only [Front.Lexer.copyWhile, nothing]
  rfl

theorem copyWhile_nothing {p : Char → Bool} {room : Nat} (within : c.pos ≤ size source)
    (stop : ¬ (p (value source c.pos) = true ∧ 0 < room)) :
    (lexerAt source c).copyWhile p room = ([], lexerAt source c) := by
  rcases Nat.lt_or_eq_of_le within with inside | last
  · exact copyWhile_stop (rest_inside inside) stop
  · simp [Front.Lexer.copyWhile, rest_end last, Front.Lexer.skip]

theorem octal_digit {d : Char} (digit : d.isDigit = true) :
    d = '8' ∨ d = '9' ↔ ¬ isOctalDigit d = true := by
  rcases Front.digit_cases digit with rfl | rfl | rfl | rfl | rfl | rfl | rfl | rfl | rfl | rfl
  all_goals decide

/-- The last branches of `Front.lexNumber`. -/
def decimalNumber (l : Front.Lexer) : Except String (Token × Front.Lexer) :=
  let (digits, l') := l.copyWhile Char.isDigit 62
  match Front.floatContinuation digits l' with
  | some (buf, l'') => .ok (Front.finishFloat buf l'' l.position)
  | none => Front.finishInteger digits (digitsValue 10 digits) false l' l.position

theorem lexNumber_hex {l : Front.Lexer} {n : Char} {t : Text} (start : l.rest = '0' :: n :: t)
    (hex : n = 'x' ∨ n = 'X') :
    Front.lexNumber l =
      let read := (l.skip 2).copyWhile isHexDigit 60
      if read.1 = [] then .error "error: invalid hexadecimal integer literal"
      else Front.finishInteger ('0' :: n :: read.1) (digitsValue 16 read.1) false read.2
        l.position := by
  rw [Front.lexNumber]
  simp only [start]
  rw [if_pos hex]

theorem lexNumber_octal {l : Front.Lexer} {n : Char} {t : Text} (start : l.rest = '0' :: n :: t)
    (noHex : ¬ (n = 'x' ∨ n = 'X')) (digit : n.isDigit = true) :
    Front.lexNumber l =
      let read := l.copyWhile Char.isDigit 62
      (read.1.find? fun d => ¬ isOctalDigit d).elim
        (Front.finishInteger read.1 (digitsValue 8 read.1) true read.2 l.position)
        fun d => .error ("error: invalid digit '" ++ d.toString ++ "' in octal constant") := by
  rw [Front.lexNumber]
  simp only [start]
  rw [if_neg noHex, if_pos digit]
  split
  next found => rw [found, Option.elim_some]
  next found => rw [found, Option.elim_none]

theorem lexNumber_decimal {l : Front.Lexer}
    (decimal : ∀ n t, l.rest = '0' :: n :: t → ¬ (n = 'x' ∨ n = 'X') ∧ ¬ n.isDigit = true) :
    Front.lexNumber l = decimalNumber l := by
  rw [Front.lexNumber]
  split
  next n t start =>
    obtain ⟨noHex, noDigit⟩ := decimal n t start
    rw [if_neg noHex, if_neg noDigit]
    rfl
  · rfl

theorem moved_of_copied {p : Char → Bool} {room : Nat} {d : Char} {run : Text}
    (copied : (lexerAt source c).copyWhile p room = (d :: run, lexerAt source c'))
    (inside : c.pos < size source) (forward : Forward source c c') : Moved source c c' := by
  refine ⟨?_, forward.2⟩
  have left := congrArg (fun read => read.2.rest.length) copied
  have taken := congrArg (fun read => read.1.length) copied
  simp only [Front.Lexer.copyWhile] at left taken
  rw [Front.skip_rest, taken, List.length_drop, rest_length, rest_length, List.length_cons] at left
  have within := forward.2
  omega

theorem finishFloat_eq {l : Front.Lexer} {buf : Text} {position : Position} {f : Char}
    (suffix : l.rest.head? = some f) (float : f = 'f' ∨ f = 'F') :
    Front.finishFloat buf l position =
      ({ type := .floatLiteral, value := buf ++ [f], position }, Front.lexerAdvance l) := by
  obtain ⟨t, start⟩ := List.head?_eq_some_iff.mp suffix
  rw [Front.finishFloat, start]
  simp only [if_pos float]

theorem finishFloat_plain {l : Front.Lexer} {buf : Text} {position : Position}
    (noSuffix : l.rest.head? ≠ some 'f' ∧ l.rest.head? ≠ some 'F') :
    Front.finishFloat buf l position = ({ type := .doubleLiteral, value := buf, position }, l) := by
  rw [Front.finishFloat]
  split
  next f _ start =>
    rw [start] at noSuffix
    rw [if_neg (by simpa using noSuffix)]
  · rfl

theorem finishInteger_eq {l l' : Front.Lexer} {buf suffix : Text} {n : Nat} {isOctal : Bool}
    {position : Position}
    (copied : l.copyWhile Front.isSuffixChar l.rest.length = (suffix, l')) :
    Front.finishInteger buf n isOctal l position =
      (integerToken buf n isOctal position suffix).map (·, l') := by
  rw [Front.finishInteger, copied]
  simp only [integerToken]
  split
  · rfl
  · split
    · rfl
    · rfl

variable (short : size source ≤ intMax)

include short

theorem copySign_ends {Q : Text → Where → Prop} (within : c.pos ≤ size source)
    (next : ∀ c',
      lexerAt source c' = (lexerAt source c).skip (signOf (lexerAt source c).rest).length →
      Forward source c c' → Q (signOf (lexerAt source c).rest) c') :
    Ends (copySign source) c Q E := by
  rw [copySign, ends_bind, ends_look short within]
  split
  next signed =>
    have inside : c.pos < size source := by
      apply inside_of_ne within
      rcases signed with same | same
      all_goals
        rw [same]
        decide
    have sign : signOf (lexerAt source c).rest = [value source c.pos] := by
      simp [signOf, rest_inside inside, signed]
    rw [ends_bind, ends_advance short inside, ends_pure, ← sign]
    apply next
    · rw [sign]
      exact lexerAt_step inside
    · exact forward_after inside
  next unsigned =>
    have sign : signOf (lexerAt source c).rest = [] := by
      rcases Nat.lt_or_eq_of_le within with inside | last
      · simp [signOf, rest_inside inside, unsigned]
      · simp [signOf, rest_end last]
    rw [ends_pure, ← sign]
    apply next
    · rw [sign]
      rfl
    · exact ⟨Nat.le_refl _, within⟩

theorem copyExponent_ends {buf : Text} (within : c.pos ≤ size source) :
    Ends (copyExponent source buf) c
      (fun r c' => Front.copyExponent buf (lexerAt source c) = r.map (·, lexerAt source c') ∧
        (r = none → c' = c) ∧ Forward source c c') E := by
  rw [copyExponent, ends_bind, ends_look short within]
  split
  next exponent =>
    have inside : c.pos < size source := by
      apply inside_of_ne within
      rcases exponent with same | same
      all_goals
        rw [same]
        decide
    have first : Moved source c (after source c 1) := moved_after Nat.one_pos inside
    have second : source.text.drop (c.pos + 1) = (lexerAt source (after source c 1)).rest := rfl
    have start := rest_inside inside
    rw [second] at start
    rw [ends_bind, ends_advance short inside, ends_bind]
    refine copySign_ends short first.2 fun c₁ signed forward₁ => ?_
    rw [ends_bind]
    refine copyWhile_ends short rfl _ forward₁.2 fun c₂ digits copied forward₂ _ => ?_
    rw [ends_pure, copyExponent_eq start exponent]
    have skipped : (lexerAt source c).skip
        (1 + (signOf (lexerAt source (after source c 1)).rest).length) = lexerAt source c₁ := by
      rw [signed, lexerAt_step inside, Nat.add_comm]
      rfl
    refine ⟨?_, by simp, ((first.forward forward₁).forward forward₂).weaken⟩
    rw [skipped, copied]
    rfl
  next noExponent =>
    rw [ends_pure]
    refine ⟨Front.copyExponent_none buf fun d head => ?_, fun _ => rfl, Nat.le_refl _, within⟩
    rw [← value_of_head within head]
    exact not_or.mp noExponent

theorem finishFloat_ends {buf : Text} {position : Position} (within : c.pos ≤ size source) :
    Ends (finishFloat source buf position) c
      (fun t c' => Front.finishFloat buf (lexerAt source c) position = (t, lexerAt source c') ∧
        Forward source c c') E := by
  rw [finishFloat, ends_bind, ends_look short within]
  split
  next float =>
    have other : value source c.pos ≠ '\x00' := by
      rcases float with same | same
      all_goals
        rw [same]
        decide
    have inside : c.pos < size source := inside_of_ne within other
    rw [ends_bind, ends_advance short inside, ends_pure,
      finishFloat_eq ((head_rest other within).mpr rfl) float, lexerAt_step inside]
    exact ⟨rfl, forward_after inside⟩
  next plain =>
    rw [ends_pure, finishFloat_plain]
    · exact ⟨rfl, Nat.le_refl _, within⟩
    · rw [ne_eq, ne_eq, head_rest (by decide) within, head_rest (by decide) within]
      exact not_or.mp plain

theorem lexDotFloat_follows {position : Position} (inside : c.pos < size source)
    (here : position = c.info) :
    Follows source (lexDotFloat source position) c
      (.ok (Front.lexDotFloat (lexerAt source c))) := by
  have first : Moved source c (after source c 1) := moved_after Nat.one_pos inside
  rw [Follows, lexDotFloat, ends_bind, ends_advance short inside, ends_bind]
  refine copyWhile_ends short rfl 61 first.2 fun c₁ digits copied forward₁ _ => ?_
  rw [ends_bind]
  refine (copyExponent_ends short forward₁.2).mono (fun {r c₂} exponent => ?_) id
  refine (finishFloat_ends short exponent.2.2.2).mono (fun {t c₃} finished => ?_) id
  have whole : Front.lexDotFloat (lexerAt source c) =
      Front.finishFloat (r.getD ('.' :: digits)) (lexerAt source c₂) position := by
    rw [Front.lexDotFloat, ← lexerAt_step inside, copied, here]
    simp only [exponent_getD exponent.1 exponent.2.1]
    rfl
  exact ⟨by rw [whole, finished.1], first.forward (forward₁.trans (exponent.2.2.trans finished.2))⟩

theorem floatContinuation_ends {buf : Text} (within : c.pos ≤ size source) :
    Ends (floatContinuation source buf) c
      (fun r c' => Front.floatContinuation buf (lexerAt source c) = r.map (·, lexerAt source c') ∧
        (r = none → c' = c) ∧ Forward source c c') E := by
  rw [floatContinuation, ends_bind, ends_look short within, ends_bind]
  have inside_of_point (point : decide (value source c.pos = '.') = true) :
      c.pos < size source := by
    apply inside_of_ne within
    rw [of_decide_eq_true point]
    decide
  rw [ends_peekIf short inside_of_point]
  by_cases point : value source c.pos = '.' ∧ value source (c.pos + 1) ≠ '.'
  · rw [if_pos ⟨point.1, by simpa [point.1] using point.2⟩]
    have dot : value source c.pos = '.' := point.1
    have inside := inside_of_point (decide_eq_true dot)
    have first : Moved source c (after source c 1) := moved_after Nat.one_pos inside
    have start := rest_inside inside
    have second : source.text.drop (c.pos + 1) = (lexerAt source (after source c 1)).rest := rfl
    have single : (lexerAt source (after source c 1)).rest.head? ≠ some '.' := by
      rw [ne_eq, head_rest (by decide) first.2]
      simpa [dot] using point.2
    rw [dot, second] at start
    rw [ends_bind, ends_advance short inside, ends_bind]
    refine copyWhile_ends short rfl _ first.2 fun c₁ digits copied forward₁ _ => ?_
    rw [ends_bind]
    refine (copyExponent_ends short forward₁.2).mono (fun {r c₂} exponent => ?_) id
    rw [ends_pure]
    refine ⟨?_, by simp, (first.forward (forward₁.trans exponent.2.2)).weaken⟩
    rw [floatContinuation_point start single, ← lexerAt_step inside, copied]
    exact congrArg some (exponent_getD exponent.1 exponent.2.1)
  · rw [if_neg (by simp_all)]
    refine (copyExponent_ends short within).mono (fun {r c'} read => ?_) id
    rw [floatContinuation_whole]
    · exact read
    · intro t start
      have inside : c.pos < size source := by
        by_contra outside
        rw [rest_end (Nat.le_antisymm within (Nat.le_of_not_lt outside))] at start
        cases start
      have first : Moved source c (after source c 1) := moved_after Nat.one_pos inside
      rw [rest_inside inside] at start
      obtain ⟨dot, behind⟩ := List.cons.inj start
      have second : t = (lexerAt source (after source c 1)).rest := behind.symm
      rw [second, head_rest (by decide) first.2]
      simpa [dot] using point

theorem octalDigits_ends {n room : Nat} (within : c.pos ≤ size source)
    (enough : size source < c.pos + n) :
    Ends (octalDigits source n room) c
      (fun digits c' =>
        (lexerAt source c).copyWhile Char.isDigit room = (digits, lexerAt source c') ∧
        digits.find? (fun d => ¬ isOctalDigit d) = none ∧ Forward source c c')
      (fun message => ∃ d, ((lexerAt source c).copyWhile Char.isDigit room).1.find?
          (fun d => ¬ isOctalDigit d) = some d ∧
        message = "error: invalid digit '" ++ d.toString ++ "' in octal constant") := by
  induction n generalizing c room with
  | zero => omega
  | succ n ih =>
    rw [octalDigits, ends_bind, ends_look short within]
    split
    next digit =>
      have inside : c.pos < size source := by
        apply inside_of_ne within
        intro nul
        rw [nul] at digit
        exact absurd digit.1 (by decide)
      have first : Moved source c (after source c 1) := moved_after Nat.one_pos inside
      have step := copyWhile_more (rest_inside inside) digit.1 digit.2
      have bad := octal_digit digit.1
      split
      next high =>
        rw [ends_report, step]
        refine ⟨value source c.pos, ?_, rfl⟩
        rw [List.find?_cons_of_pos]
        simpa using bad.mp high
      next low =>
        have octal : isOctalDigit (value source c.pos) = true := by
          simpa using bad.not.mp low
        rw [ends_bind, ends_advance short inside, ends_bind]
        rw [step, ← lexerAt_step inside]
        have enough₁ : size source < (after source c 1).pos + n := by
          rw [after_pos]
          omega
        refine (ih first.2 enough₁).mono (fun {digits c'} read => ?_) fun {message} failed => ?_
        · rw [ends_pure, read.1]
          refine ⟨rfl, ?_, (first.forward read.2.2).weaken⟩
          rw [List.find?_cons_of_neg (by simp [octal])]
          exact read.2.1
        · obtain ⟨d, found, same⟩ := failed
          refine ⟨d, ?_, same⟩
          rw [List.find?_cons_of_neg (by simp [octal])]
          exact found
    next stop =>
      rw [ends_pure, copyWhile_nothing within stop]
      exact ⟨rfl, rfl, Nat.le_refl _, within⟩

theorem finishInteger_ends {buf : Text} {n : Nat} {isOctal : Bool} {position : Position}
    (within : c.pos ≤ size source) :
    Ends (finishInteger source buf n isOctal position) c
      (fun t c' => Front.finishInteger buf n isOctal (lexerAt source c) position =
        .ok (t, lexerAt source c') ∧ Forward source c c')
      (fun message => Front.finishInteger buf n isOctal (lexerAt source c) position =
        .error message) := by
  rw [finishInteger, ends_bind]
  refine copyAll_ends short rfl within fun c' suffix copied forward _ => ?_
  rw [finishInteger_eq (copied (Nat.le_refl _))]
  split
  next token done =>
    rw [ends_pure, done]
    exact ⟨rfl, forward⟩
  next message failed =>
    rw [ends_report, failed]
    rfl

theorem lexNumber_follows {position : Position} (inside : c.pos < size source)
    (digit : (value source c.pos).isDigit = true) (here : position = c.info) :
    Follows source (lexNumber source position) c (Front.lexNumber (lexerAt source c)) := by
  have within := Nat.le_of_lt inside
  have start := rest_inside inside
  have first : Moved source c (after source c 1) := moved_after Nat.one_pos inside
  have second : source.text.drop (c.pos + 1) = (lexerAt source (after source c 1)).rest := rfl
  have nextValue : value source (c.pos + 1) = value source (after source c 1).pos := rfl
  rw [Follows, lexNumber, ends_bind, ends_look short within, ends_bind,
    ends_peekIf short fun _ => inside, here]
  by_cases hex : value source c.pos = '0' ∧
      (value source (c.pos + 1) = 'x' ∨ value source (c.pos + 1) = 'X')
  · obtain ⟨zero, letter⟩ := hex
    have inside₁ : (after source c 1).pos < size source := by
      apply inside_of_ne first.2
      rw [← nextValue]
      rcases letter with same | same
      all_goals
        rw [same]
        decide
    have fits : c.pos + 2 ≤ size source := by
      rw [after_pos] at inside₁
      exact inside₁
    have two : Moved source c (after source c 2) := moved_after (by decide) fits
    rw [zero, second, rest_inside inside₁, ← nextValue] at start
    have unfolded := lexNumber_hex start letter
    rw [← lexerAt_after fits] at unfolded
    rw [zero, decide_eq_true rfl, if_pos rfl, if_pos ⟨rfl, letter⟩, ends_bind, ends_skip short fits,
      ends_bind, ends_look short two.2]
    split
    next hexDigit =>
      have inside₂ : (after source c 2).pos < size source := by
        apply inside_of_ne two.2
        intro nul
        rw [nul] at hexDigit
        exact absurd hexDigit (by decide)
      have more := copyWhile_more (rest_inside inside₂) hexDigit (show 0 < 60 by decide)
      rw [ends_bind]
      refine copyWhile_ends short rfl 60 two.2 fun c₃ digits copied forward _ => ?_
      have some : digits ≠ [] := by
        intro nil
        rw [copied, nil, Prod.mk.injEq] at more
        cases more.1
      simp only [copied, if_neg some] at unfolded
      rw [unfolded]
      refine (finishInteger_ends short forward.2).mono (fun finished => ?_) id
      exact ⟨finished.1, two.forward (forward.trans finished.2)⟩
    next noDigit =>
      simp only [copyWhile_nothing two.2 (fun digit => noDigit digit.1), if_true] at unfolded
      rw [unfolded, ends_report]
  · rw [if_neg (by simp_all)]
    have more := copyWhile_more start digit (show 0 < 62 by decide)
    by_cases octal : value source c.pos = '0' ∧ (value source (c.pos + 1)).isDigit = true
    · obtain ⟨zero, another⟩ := octal
      have inside₁ : (after source c 1).pos < size source := by
        apply inside_of_ne first.2
        rw [← nextValue]
        intro nul
        rw [nul] at another
        exact absurd another (by decide)
      rw [zero, second, rest_inside inside₁, ← nextValue] at start
      have unfolded := lexNumber_octal start (fun letter => hex ⟨zero, letter⟩) another
      rw [zero, decide_eq_true rfl, if_pos rfl, if_pos ⟨rfl, another⟩, ends_bind]
      refine (octalDigits_ends short within enough_rounds).mono
        (fun {digits c₁} read => ?_) fun {message} failed => ?_
      · simp only [read.1, read.2.1, Option.elim_none] at unfolded
        rw [unfolded]
        rw [read.1, Prod.mk.injEq] at more
        have moved : Moved source c c₁ := moved_of_copied (more.1 ▸ read.1) inside read.2.2
        refine (finishInteger_ends short moved.2).mono (fun finished => ?_) id
        exact ⟨finished.1, moved.forward finished.2⟩
      · obtain ⟨d, found, same⟩ := failed
        simp only [found, Option.elim_some] at unfolded
        rw [unfolded, same]
    · rw [if_neg (by simp_all), ends_bind]
      refine copyWhile_ends short rfl 62 within fun c₁ digits copied forward _ => ?_
      have moved : Moved source c c₁ := by
        rw [copied, Prod.mk.injEq] at more
        exact moved_of_copied (more.1 ▸ copied) inside forward
      rw [ends_bind]
      refine (floatContinuation_ends short forward.2).mono (fun {r c₂} continued => ?_) id
      have unfolded : Front.lexNumber (lexerAt source c) = decimalNumber (lexerAt source c) := by
        apply lexNumber_decimal
        intro n t shape
        rw [start, second] at shape
        obtain ⟨zero, behind⟩ := List.cons.inj shape
        have same : value source (c.pos + 1) = n := by
          apply value_of_head (c := after source c 1) first.2
          rw [behind]
          rfl
        rw [← same]
        exact ⟨fun letter => hex ⟨zero, letter⟩, fun another => octal ⟨zero, another⟩⟩
      rw [decimalNumber, copied] at unfolded
      simp only [continued.1] at unfolded
      have later : Moved source c c₂ := moved.forward continued.2.2
      cases r with
      | some buf =>
        rw [unfolded]
        refine (finishFloat_ends short later.2).mono (fun finished => ?_) id
        exact ⟨congrArg Except.ok finished.1, later.forward finished.2⟩
      | none =>
        rw [continued.2.1 rfl] at later ⊢
        rw [unfolded]
        refine (finishInteger_ends short forward.2).mono (fun finished => ?_) id
        exact ⟨finished.1, moved.forward finished.2⟩

theorem lexIdentifier_follows {position : Position} (inside : c.pos < size source)
    (start : isIdentStart (value source c.pos) = true) (here : position = c.info) :
    Follows source (lexIdentifier source position) c
      (.ok (Front.lexIdentifier (lexerAt source c))) := by
  rw [Follows, lexIdentifier, ends_bind]
  refine copyAll_ends short rfl (Nat.le_of_lt inside) fun c' name copied forward _ => ?_
  have unfolded : Front.lexIdentifier (lexerAt source c) =
      ({ type := Front.keywordType name, value := name, position := c.info },
        lexerAt source c') := by
    rw [Front.lexIdentifier, copied (Nat.le_refl _)]
    rfl
  rw [ends_pure, unfolded, here]
  have some : 0 < (lexerAt source c).rest.length := by
    rw [rest_inside inside]
    exact Nat.succ_pos _
  have more := copyWhile_more (rest_inside inside) (Preprocessor.identChar_of_start start) some
  rw [copied (Nat.le_refl _), Prod.mk.injEq] at more
  obtain ⟨rfl, same⟩ := more
  exact ⟨rfl, moved_of_copied (copied (Nat.le_refl _)) inside forward⟩

end Numbers

/-! ### Operators and punctuators -/

def singles : List Char := ['(', ')', '{', '}', '[', ']', ';', ':', '?', ',', '~']

def operators : List Char :=
  ['.', '+', '-', '*', '/', '%', '=', '!', '<', '>', '&', '|', '^']

theorem punctuator_other {d : Char} (other : d ∉ singles ++ operators) (t : Text) :
    punctuator (d :: t) = none := by
  unfold punctuator
  split
  all_goals
    first
    | rfl
    | rename_i start
      cases start
      exact absurd other (by decide)

theorem punctuator_single {d : Char} (single : d ∈ singles) (t : Text) :
    punctuator [d] = punctuator (d :: t) := by
  simp only [singles, List.mem_cons, List.not_mem_nil, or_false] at single
  rcases single with rfl | rfl | rfl | rfl | rfl | rfl | rfl | rfl | rfl | rfl | rfl
  all_goals rfl

theorem operator_cases {d : Char} (operator : d ∈ operators) :
    d = '.' ∨ d = '+' ∨ d = '-' ∨ d = '*' ∨ d = '/' ∨ d = '%' ∨ d = '=' ∨ d = '!' ∨ d = '<' ∨
      d = '>' ∨ d = '&' ∨ d = '|' ∨ d = '^' := by
  simpa only [operators, List.mem_cons, List.not_mem_nil, or_false] using operator

/-- Two characters decide, where they are not the start of a longer operator. -/
theorem punctuator_two {d n : Char} (operator : d ∈ operators)
    (short : ¬ (d = n ∧ (d = '.' ∨ d = '<' ∨ d = '>'))) (t : Text) :
    punctuator [d, n] = punctuator (d :: n :: t) := by
  by_cases same : n = d
  · subst same
    rcases operator_cases operator with
        rfl | rfl | rfl | rfl | rfl | rfl | rfl | rfl | rfl | rfl | rfl | rfl | rfl
    all_goals
      first
      | rfl
      | simp at short
  by_cases equals : n = '='
  · subst equals
    rcases operator_cases operator with
        rfl | rfl | rfl | rfl | rfl | rfl | rfl | rfl | rfl | rfl | rfl | rfl | rfl
    all_goals rfl
  by_cases greater : n = '>'
  · subst greater
    rcases operator_cases operator with
        rfl | rfl | rfl | rfl | rfl | rfl | rfl | rfl | rfl | rfl | rfl | rfl | rfl
    all_goals
      first
      | rfl
      | exact absurd rfl same
  rcases operator_cases operator with
      rfl | rfl | rfl | rfl | rfl | rfl | rfl | rfl | rfl | rfl | rfl | rfl | rfl
  all_goals simp [punctuator, same, equals, greater]

theorem punctuator_three {d : Char} (long : d = '.' ∨ d = '<' ∨ d = '>') (m : Char) (t : Text) :
    punctuator [d, d, m] = punctuator (d :: d :: m :: t) := by
  rcases long with rfl | rfl | rfl
  all_goals
    by_cases equals : m = '='
    · subst equals
      rfl
    by_cases dot : m = '.'
    · subst dot
      rfl
    simp [punctuator, equals, dot]

/-- At the end of the source the NUL decides as the end of the text does. -/
theorem punctuator_end {d : Char} (other : d ∉ singles) :
    punctuator [d, '\x00'] = punctuator [d] := by
  by_cases operator : d ∈ operators
  · rcases operator_cases operator with
        rfl | rfl | rfl | rfl | rfl | rfl | rfl | rfl | rfl | rfl | rfl | rfl | rfl
    all_goals rfl
  · have neither : d ∉ singles ++ operators := by
      rw [List.mem_append]
      exact not_or.mpr ⟨other, operator⟩
    rw [punctuator_other neither, punctuator_other neither]

theorem punctuator_second {d n : Char} (other : d ∉ singles)
    (short : ¬ (d = n ∧ (d = '.' ∨ d = '<' ∨ d = '>'))) (t : Text) :
    punctuator [d, n] = punctuator (d :: n :: t) := by
  by_cases operator : d ∈ operators
  · exact punctuator_two operator short t
  · have neither : d ∉ singles ++ operators := by
      rw [List.mem_append]
      exact not_or.mpr ⟨other, operator⟩
    rw [punctuator_other neither, punctuator_other neither]

theorem punctuator_length {t v : Text} {type : Front.TokenType}
    (known : punctuator t = some (type, v)) : 0 < v.length ∧ v.length ≤ t.length := by
  unfold punctuator at known
  split at known
  all_goals
    cases known
    try simp

/-- The characters that `readAhead` reads decide the operator. -/
theorem readAhead_ends (short : size source ≤ intMax) (inside : c.pos < size source)
    {Q : Text → Where → Prop}
    (next : ∀ ahead, punctuator ahead = punctuator (lexerAt source c).rest →
      (value source c.pos ∉ singles →
        ∀ p : Char → Bool, p '\x00' = false →
          ahead.tail.head?.any p = (lexerAt source c).rest.tail.head?.any p) → Q ahead c) :
    Ends (readAhead source (value source c.pos)) c Q E := by
  have start := rest_inside inside
  rw [readAhead]
  split
  next single =>
    rw [ends_pure]
    apply next
    · rw [start]
      exact punctuator_single single _
    · intro other
      exact absurd single other
  next other =>
    rw [ends_bind, ends_peek short inside]
    rcases Nat.lt_or_eq_of_le (Nat.succ_le_of_lt inside) with inside₁ | last
    · have second : source.text.drop (c.pos + 1) =
          value source (c.pos + 1) :: source.text.drop (c.pos + 1 + 1) :=
        Tape.drop_inside (T := source.tape) inside₁
      rw [second] at start
      split
      next long =>
        rw [ends_bind, ends_peek short inside₁, ends_pure]
        apply next
        · rw [start, ← long.1]
          rcases Nat.lt_or_eq_of_le (Nat.succ_le_of_lt inside₁) with inside₂ | last
          · have third : source.text.drop (c.pos + 1 + 1) =
                value source (c.pos + 2) :: source.text.drop (c.pos + 2 + 1) :=
              Tape.drop_inside (T := source.tape) inside₂
            rw [third]
            exact punctuator_three long.2 _ _
          · have nul : value source (c.pos + 2) = '\x00' :=
              (value_nul_iff (c := ⟨c.pos + 2, c.info⟩) inside₁).mpr last
            have ended : source.text.drop (c.pos + 1 + 1) = [] :=
              rest_end (c := ⟨c.pos + 2, c.info⟩) last
            rw [nul, ended]
            rcases long.2 with same | same | same
            all_goals
              rw [same]
              rfl
        · intro _ p _
          rw [start]
          rfl
      next notLong =>
        rw [ends_pure]
        apply next
        · rw [start]
          exact punctuator_second other notLong _
        · intro _ p _
          rw [start]
          rfl
    · have nul : value source (c.pos + 1) = '\x00' :=
        (value_nul_iff (c := ⟨c.pos + 1, c.info⟩) inside).mpr last
      have ended : source.text.drop (c.pos + 1) = [] :=
        rest_end (c := ⟨c.pos + 1, c.info⟩) last
      have mark := Tape.value_of_inside (T := source.tape) inside
      rw [ended] at start
      rw [nul, if_neg (fun same => mark same.1), ends_pure]
      apply next
      · rw [start]
        exact punctuator_end other
      · intro _ p no
        rw [start]
        simp [no]

/-! ### Tokens -/

theorem any_eq_some {o : Option Char} {d : Char} :
    (o.any fun e => decide (e = d)) = true ↔ o = some d := by
  cases o <;> simp

/-- The call ends at the terminating NUL, or behind the position it started at. -/
def Progress (source : Source) (c : Where) (t : Token) (c' : Where) : Prop :=
  t.type = .eof ∧ c'.pos = size source ∨ Moved source c c'

theorem lexerNextToken_ends (short : size source ≤ intMax) (within : c.pos ≤ size source) :
    Ends (lexerNextToken source) c
      (fun t c' => Front.lexerNextToken (lexerAt source c) = .ok (t, lexerAt source c') ∧
        Progress source c t c')
      (fun message => Front.lexerNextToken (lexerAt source c) = .error message) := by
  rw [lexerNextToken, ends_bind]
  refine (skipWhitespace_ends short within).mono (fun {_ c₁} blank => ?_) id
  have unfolded := Front.lexerNextToken.eq_def (lexerAt source c)
  rw [blank.1] at unfolded
  rw [ends_bind, ends_get, ends_bind, ends_look short blank.2.2]
  rcases Nat.lt_or_eq_of_le blank.2.2 with inside | last
  · have start := rest_inside inside
    have other : value source c₁.pos ≠ '\x00' := Tape.value_of_inside (T := source.tape) inside
    rw [if_neg other, ends_bind]
    refine readAhead_ends short inside fun ahead same reads => ?_
    simp only [start] at unfolded
    rw [start] at same reads
    split
    next float =>
      have digit := reads (by rw [float.1]; decide) Char.isDigit rfl
      rw [if_pos ⟨float.1, digit.symm.trans float.2⟩] at unfolded
      rw [unfolded]
      refine (lexDotFloat_follows short inside rfl).mono (fun read => ?_) id
      exact ⟨read.1, .inr (blank.2.moved read.2)⟩
    next noFloat =>
      have noDigit : ¬ (value source c₁.pos = '.' ∧
          (source.text.drop (c₁.pos + 1)).head?.any Char.isDigit = true) := by
        intro float
        have digit := reads (by rw [float.1]; decide) Char.isDigit rfl
        exact noFloat ⟨float.1, digit.trans float.2⟩
      rw [if_neg noDigit] at unfolded
      rw [same]
      cases known : punctuator (value source c₁.pos :: source.text.drop (c₁.pos + 1)) with
      | some operator =>
        obtain ⟨type, v⟩ := operator
        obtain ⟨some, fits⟩ := punctuator_length known
        rw [← start, rest_length] at fits
        have within₁ : c₁.pos + v.length ≤ size source := by omega
        simp only [known] at unfolded ⊢
        rw [ends_bind, ends_skip short within₁, ends_pure, unfolded, lexerAt_after within₁]
        exact ⟨rfl, .inr (blank.2.moved (moved_after some within₁))⟩
      | none =>
        simp only [known] at unfolded ⊢
        split
        next quote =>
          rw [if_pos quote] at unfolded
          rw [ends_bind]
          refine (lexString_follows short inside).mono (fun read => ?_) fun failed => ?_
          · rw [ends_pure, unfolded, read.1]
            exact ⟨rfl, .inr (blank.2.moved read.2)⟩
          · rw [unfolded, failed]
            rfl
        next noString =>
        rw [if_neg noString] at unfolded
        split
        next quote =>
          rw [if_pos quote] at unfolded
          rw [ends_bind]
          refine (lexChar_follows short inside).mono (fun read => ?_) fun failed => ?_
          · rw [ends_pure, unfolded, read.1]
            exact ⟨rfl, .inr (blank.2.moved read.2)⟩
          · rw [unfolded, failed]
            rfl
        next noChar =>
        rw [if_neg noChar] at unfolded
        have wide : (value source c₁.pos = 'L' ∨ value source c₁.pos = 'U' ∨
            value source c₁.pos = 'u') ∧ ahead.tail.head? = some '\'' ↔
              (value source c₁.pos = 'L' ∨ value source c₁.pos = 'U' ∨
                value source c₁.pos = 'u') ∧
                (source.text.drop (c₁.pos + 1)).head? = some '\'' := by
          apply and_congr_right
          intro letter
          have plain : value source c₁.pos ∉ singles := by
            rcases letter with letter | letter | letter
            all_goals
              rw [letter]
              decide
          have agree := reads plain (· = '\'') rfl
          rw [← any_eq_some, ← any_eq_some, agree]
          rfl
        split
        next prefixed =>
          rw [if_pos (wide.mp prefixed)] at unfolded
          rw [ends_report, unfolded]
        next noPrefix =>
        rw [if_neg (wide.not.mp noPrefix)] at unfolded
        split
        next digit =>
          rw [if_pos digit] at unfolded
          rw [unfolded]
          refine (lexNumber_follows short inside digit rfl).mono (fun read => ?_) id
          exact ⟨read.1, .inr (blank.2.moved read.2)⟩
        next noNumber =>
        rw [if_neg noNumber] at unfolded
        split
        next letter =>
          rw [if_pos letter] at unfolded
          rw [unfolded]
          refine (lexIdentifier_follows short inside letter rfl).mono (fun read => ?_) id
          exact ⟨read.1, .inr (blank.2.moved read.2)⟩
        next unknown =>
          rw [if_neg unknown, ← lexerAt_step inside] at unfolded
          rw [ends_bind, ends_advance short inside, ends_pure, unfolded]
          exact ⟨rfl, .inr (blank.2.moved (moved_after Nat.one_pos inside))⟩
  · have nul : value source c₁.pos = '\x00' := (value_nul_iff blank.2.2).mpr last
    simp only [rest_end last] at unfolded
    rw [if_pos nul, ends_pure]
    exact ⟨unfolded, .inl ⟨rfl, last⟩⟩

end ClaudeC99.Positions
