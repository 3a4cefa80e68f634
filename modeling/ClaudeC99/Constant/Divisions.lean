import ClaudeC99.Constant.TokenWords

/-! Which constant expressions the evaluators reject for a division by zero. -/

namespace ClaudeC99.Constant

open Front
open Literals (Digits IntConstant)
open Precedence
open Preprocessor

/-- The evaluator of conditions reports a division or modulo by zero. -/
def CondReportsZero (macros : MacroTable) (s : Text) : Prop :=
  ∃ m, evalCondExpr macros s = .error m ∧ (m = divisionByZero ∨ m = moduloByZero)

/-- The evaluator of constant expressions does. -/
def ConstReportsZero (rules : TypeRules) (context : String) (p : Parser) : Prop :=
  ∃ m, evalConstExpr rules context p = .error m ∧ IsDivisionMessage m

section Ends

variable {σ : Type} {L : Ladder σ String Int Operand Prefix BinaryOp} {Report : Fault → String → Prop}
  {P : Reader σ String Int} {s s' : σ} {o : Except Fault Int}

/-- A reader that ends as a trial says reports a division exactly if the trial stops at one. -/
theorem reports_iff {Division : String → Prop} (division : ∀ m, Report .division m → Division m)
    (unread : ∀ m, Report .unread m → ¬ Division m) (ends : L.Ends Report P s o s') :
    (∃ m, P s = .error m ∧ Division m) ↔ o = .error .division := by
  cases o with
  | ok v =>
    obtain ⟨t, read, -⟩ := ends
    constructor
    · intro reported
      obtain ⟨m, failed, -⟩ := reported
      cases failed.symm.trans read
    · intro same
      cases same
  | error f =>
    obtain ⟨m, failed, report⟩ := ends
    cases f with
    | division => exact iff_of_true ⟨m, failed, division m report⟩ rfl
    | unread =>
      constructor
      · intro reported
        obtain ⟨m', failed', isDivision⟩ := reported
        obtain rfl : m = m' := Except.error.inj (failed.symm.trans failed')
        exact absurd isDivision (unread m report)
      · intro same
        cases same

end Ends

theorem no_octal_digits : ∀ c ∈ ([] : Text), isOctalDigit c = true := by simp

theorem no_decimal_digits : ∀ c ∈ ([] : Text), c.isDigit := by simp

def zeroConstant : IntConstant where
  digits := .octal [] no_octal_digits
  suffix := []
  valid := Literals.no_suffix

theorem one_first : ('1').isDigit = true ∧ '1' ≠ '0' := by decide

def oneConstant : IntConstant where
  digits := .decimal '1' [] one_first no_decimal_digits
  suffix := []
  valid := Literals.no_suffix

/-- `0 && 1 / 0` -/
def skippedDivision (zero one : Operand) : CExpr :=
  .binary .logicalAnd (.atom zero) (.binary .div (.atom one) (.atom zero))

def skippedText : Text := "0 && 1/0".toList

theorem skipped_ends (c : Char) (plain : isIdentChar c = false ∧ c ≠ '.') (t : Text) :
    NumberEnds (c :: t) := by
  intro d head
  cases head
  exact plain

theorem joins_of (c : Char)
    (plain : c ≠ '<' ∧ c ≠ '>' ∧ c ≠ '&' ∧ c ≠ '|' ∧ c ≠ '=') (t : Text) : Joins (c :: t) := by
  intro d head
  cases head
  exact plain

theorem skipped_derives : (condExprs []).Derives 0 skippedText
    (skippedDivision (condConstant zeroConstant) (condConstant oneConstant)) [] := by
  have zero : (condExprs []).Derives 11 skippedText (.atom (condConstant zeroConstant))
      "&& 1/0".toList :=
    .atom (.atom (.integer zeroConstant (skipped_ends ' ' (by decide) "&& 1/0".toList)))
  have both : CondStep [] "&& 1/0".toList (.binary .logicalAnd) "1/0".toList :=
    .binary .logicalAnd (joins_of ' ' (by decide) "1/0".toList)
  have one : (condExprs []).Derives 11 "1/0".toList (.atom (condConstant oneConstant))
      "/0".toList :=
    .atom (.atom (.integer oneConstant (skipped_ends '/' (by decide) "0".toList)))
  have slash : CondStep [] "/0".toList (.binary .div) "0".toList :=
    .binary .div (joins_of '0' (by decide) [])
  have last : (condExprs []).Derives 11 "0".toList (.atom (condConstant zeroConstant)) [] :=
    .atom (.atom (.integer zeroConstant (t := []) (by simp [NumberEnds])))
  have quotient : (condExprs []).Derives 10 "1/0".toList
      (.binary .div (.atom (condConstant oneConstant)) (.atom (condConstant zeroConstant))) [] :=
    Ladder.Derives.binary (one.lower (by decide) (by decide)) slash last
  have whole : (condExprs []).Derives 2 skippedText
      (skippedDivision (condConstant zeroConstant) (condConstant oneConstant)) [] :=
    Ladder.Derives.binary (zero.lower (by decide) (by decide)) both
      (quotient.lower (by decide) (by decide))
  exact whole.lower (by decide) (by decide)

theorem skipped_stops (macros : MacroTable) : (condExprs macros).Stops 0 [] := by
  refine ⟨rfl, ?_, ?_⟩
  · intro k _
    match k with
    | 0 | 1 | 2 | 3 | 4 | 5 | 6 | 7 | 8 | 9 | 10 | _ + 11 => rfl
  · intro _ asks
    cases asks

/-- The parser `n` tokens into a text. -/
def parserAt (source : Text) : Nat → Parser
  | 0 => startOf source
  | n + 1 => ((parserAt source n).next).toOption.getD (startOf source)

def skippedSource : Text := "0 && 1/0;".toList

def skippedParser : Nat → Parser := parserAt skippedSource

theorem readsConstant_of {p : Parser} {c : IntConstant} {l : Lexer} {t : Text} (ends : NumberEnds t)
    (start : l.rest = c.text ++ t) (read : lexerNextToken l = .ok (p.current, l.after c.text t)) :
    ReadsConstant p c := ⟨l, t, ends, start, read⟩

theorem skipped_zero : ReadsConstant (skippedParser 1) zeroConstant :=
  readsConstant_of (l := lexerInit skippedSource none) (t := " && 1/0;".toList)
    (skipped_ends ' ' (by decide) "&& 1/0;".toList) rfl rfl

theorem skipped_one : ReadsConstant (skippedParser 3) oneConstant :=
  readsConstant_of (l := lexerSkipWhitespace (skippedParser 2).lexer) (t := "/0;".toList)
    (skipped_ends '/' (by decide) "0;".toList) rfl rfl

theorem skipped_last : ReadsConstant (skippedParser 5) zeroConstant :=
  readsConstant_of (l := (skippedParser 4).lexer) (t := ";".toList)
    (skipped_ends ';' (by decide) []) rfl rfl

theorem skipped_derives_tokens :
    (constExprs noTypes "array size").Derives 0 (skippedParser 1)
      (skippedDivision (constInteger zeroConstant) (constInteger oneConstant))
      (skippedParser 6) := by
  have zero : (constExprs noTypes "array size").Derives 11 (skippedParser 1)
      (.atom (constInteger zeroConstant)) (skippedParser 2) :=
    .atom ⟨.atom (.integer zeroConstant skipped_zero rfl), by decide +kernel⟩
  have both : ConstAdvance noTypes (skippedParser 2) (.binary .logicalAnd) (skippedParser 3) :=
    ⟨.binary .logicalAnd rfl rfl, by decide +kernel⟩
  have one : (constExprs noTypes "array size").Derives 11 (skippedParser 3)
      (.atom (constInteger oneConstant)) (skippedParser 4) :=
    .atom ⟨.atom (.integer oneConstant skipped_one rfl), by decide +kernel⟩
  have slash : ConstAdvance noTypes (skippedParser 4) (.binary .div) (skippedParser 5) :=
    ⟨.binary .div rfl rfl, by decide +kernel⟩
  have last : (constExprs noTypes "array size").Derives 11 (skippedParser 5)
      (.atom (constInteger zeroConstant)) (skippedParser 6) :=
    .atom ⟨.atom (.integer zeroConstant skipped_last rfl), by decide +kernel⟩
  have quotient : (constExprs noTypes "array size").Derives 10 (skippedParser 3)
      (.binary .div (.atom (constInteger oneConstant)) (.atom (constInteger zeroConstant)))
      (skippedParser 6) :=
    Ladder.Derives.binary (one.lower (by decide) (by decide)) slash last
  have whole : (constExprs noTypes "array size").Derives 2 (skippedParser 1)
      (skippedDivision (constInteger zeroConstant) (constInteger oneConstant))
      (skippedParser 6) :=
    Ladder.Derives.binary (zero.lower (by decide) (by decide)) both
      (quotient.lower (by decide) (by decide))
  exact whole.lower (by decide) (by decide)

theorem skipped_stops_tokens : (constExprs noTypes "array size").Stops 0 (skippedParser 6) := by
  refine ⟨rfl, ?_, ?_⟩
  · intro k _
    match k with
    | 0 | 1 | 2 | 3 | 4 | 5 | 6 | 7 | 8 | 9 | 10 | _ + 11 => rfl
  · intro _ asks
    cases asks

end ClaudeC99.Constant
