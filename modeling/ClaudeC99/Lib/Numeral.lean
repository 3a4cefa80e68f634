import Mathlib.Data.List.Basic
import Mathlib.Tactic.Ring

/-! Numerals: digits in bases up to 16 and the values of runs of digits. -/

namespace Numeral

def digitValue (c : Char) : Nat := c.toNat - '0'.toNat

def isHexDigit (c : Char) : Bool :=
  c.isDigit || ('a' ≤ c && c ≤ 'f') || ('A' ≤ c && c ≤ 'F')

def hexDigitValue (c : Char) : Nat :=
  if c.isDigit then digitValue c
  else if 'a' ≤ c && c ≤ 'f' then c.toNat - 'a'.toNat + 10
  else c.toNat - 'A'.toNat + 10

/-- The value of a run of digits in a base. -/
def digitsValue (base : Nat) (digits : List Char) : Nat :=
  digits.foldl (fun n c => n * base + hexDigitValue c) 0

theorem foldl_digits (base n : Nat) (digits : List Char) :
    digits.foldl (fun n c => n * base + hexDigitValue c) n =
      n * base ^ digits.length + digitsValue base digits := by
  induction digits generalizing n with
  | nil => simp [digitsValue]
  | cons c digits ih =>
    have inner : digitsValue base (c :: digits) =
        hexDigitValue c * base ^ digits.length + digitsValue base digits := by
      rw [← ih, digitsValue, List.foldl_cons, Nat.zero_mul, Nat.zero_add]
    rw [List.foldl_cons, ih, inner, List.length_cons]
    ring

theorem digitsValue_cons (base : Nat) (c : Char) (digits : List Char) :
    digitsValue base (c :: digits) =
      hexDigitValue c * base ^ digits.length + digitsValue base digits := by
  rw [digitsValue, List.foldl_cons, Nat.zero_mul, Nat.zero_add, foldl_digits]

theorem digitsValue_cons_ge (base : Nat) (c : Char) (digits : List Char) :
    hexDigitValue c * base ^ digits.length ≤ digitsValue base (c :: digits) := by
  rw [digitsValue_cons]
  exact Nat.le_add_right _ _

/-! Octal digits that are read in base ten. -/

/-- By how much the value in base ten is larger. -/
def octalGap : List Char → Nat
  | [] => 0
  | c :: digits => hexDigitValue c * (10 ^ digits.length - 8 ^ digits.length) + octalGap digits

theorem octal_weight_le (n : Nat) : 8 ^ n ≤ 10 ^ n := Nat.pow_le_pow_left (by decide) n

theorem digitsValue_ten (digits : List Char) :
    digitsValue 10 digits = digitsValue 8 digits + octalGap digits := by
  induction digits with
  | nil => rfl
  | cons c digits ih =>
    have weight := Nat.sub_add_cancel (octal_weight_le digits.length)
    rw [digitsValue_cons, digitsValue_cons, ih, octalGap]
    calc hexDigitValue c * 10 ^ digits.length + (digitsValue 8 digits + octalGap digits)
        = hexDigitValue c * (10 ^ digits.length - 8 ^ digits.length + 8 ^ digits.length) +
            (digitsValue 8 digits + octalGap digits) := by rw [weight]
      _ = _ := by ring

def OctalDigits (digits : List Char) : Prop := ∀ c ∈ digits, hexDigitValue c ≤ 7

theorem octalGap_bound {digits : List Char} (octal : OctalDigits digits) :
    9 * (octalGap digits + 8 ^ digits.length) ≤ 7 * 10 ^ digits.length + 2 := by
  induction digits with
  | nil => decide
  | cons c digits ih =>
    have here : hexDigitValue c ≤ 7 := octal c List.mem_cons_self
    have later := ih fun d member => octal d (List.mem_cons_of_mem c member)
    have weight := octal_weight_le digits.length
    have most : hexDigitValue c * (10 ^ digits.length - 8 ^ digits.length) ≤
        7 * (10 ^ digits.length - 8 ^ digits.length) := Nat.mul_le_mul_right _ here
    rw [octalGap, List.length_cons, pow_succ, pow_succ]
    omega

/-- The gap of digits after the first is less than the first digit can make. -/
theorem octalGap_lt {digits : List Char} (octal : OctalDigits digits) (some : digits ≠ []) :
    octalGap digits < 10 ^ digits.length - 8 ^ digits.length := by
  have bound := octalGap_bound octal
  have large : 10 ≤ 10 ^ digits.length :=
    Nat.le_self_pow (List.length_pos_iff.mpr some).ne' 10
  omega

/-- Whether `gap` is the gap of `n` octal digits, found digit by digit. -/
def isGap : Nat → Nat → Bool
  | 0, gap => gap == 0
  | 1, gap => gap == 0
  | n + 2, gap =>
    let weight := 10 ^ (n + 1) - 8 ^ (n + 1)
    gap / weight ≤ 7 && isGap (n + 1) (gap % weight)

theorem isGap_octalGap {digits : List Char} (octal : OctalDigits digits) :
    isGap digits.length (octalGap digits) = true := by
  induction digits with
  | nil => rfl
  | cons c digits ih =>
    cases digits with
    | nil => simp [isGap, octalGap]
    | cons d digits =>
      have rest : OctalDigits (d :: digits) :=
        fun e member => octal e (List.mem_cons_of_mem c member)
      have here : hexDigitValue c ≤ 7 := octal c List.mem_cons_self
      have less := octalGap_lt rest (List.cons_ne_nil d digits)
      have later := ih rest
      rw [List.length_cons] at less later
      have quotient : (hexDigitValue c * (10 ^ (digits.length + 1) - 8 ^ (digits.length + 1)) +
          octalGap (d :: digits)) / (10 ^ (digits.length + 1) - 8 ^ (digits.length + 1)) =
            hexDigitValue c := by
        rw [Nat.mul_comm, Nat.mul_add_div (Nat.zero_lt_of_lt less), Nat.div_eq_of_lt less,
          Nat.add_zero]
      rw [octalGap, List.length_cons, List.length_cons, isGap]
      simp only [quotient, Nat.mul_add_mod_of_lt less, later, here, decide_true, Bool.and_self]

/-- Leading zeros make no gap. -/
theorem octalGap_zeros (n : Nat) (digits : List Char) :
    octalGap (List.replicate n '0' ++ digits) = octalGap digits := by
  have zero : hexDigitValue '0' = 0 := rfl
  induction n with
  | zero => rfl
  | succ n ih => rw [List.replicate_succ, List.cons_append, octalGap, ih, zero, Nat.zero_mul,
      Nat.zero_add]

/-- No gap of up to 21 digits is a multiple of `2 ^ 64`. -/
theorem gap_not_wrapped {digits : List Char} (octal : OctalDigits digits)
    (short : digits.length ≤ 21) {k : Nat} (wraps : octalGap digits = k * 2 ^ 64) : k = 0 := by
  have none : ∀ k < 55, isGap 21 (k * 2 ^ 64) = true → k = 0 := by decide
  have bound := octalGap_bound octal
  have most : 10 ^ digits.length ≤ 10 ^ 21 := Nat.pow_le_pow_right (by decide) short
  have some : 0 < 8 ^ digits.length := Nat.pow_pos (by decide)
  have few : k < 55 := by omega
  have padded : OctalDigits (List.replicate (21 - digits.length) '0' ++ digits) := by
    intro c member
    rcases List.mem_append.mp member with zero | inside
    · rw [List.eq_of_mem_replicate zero]
      decide
    · exact octal c inside
  have found := isGap_octalGap padded
  rw [octalGap_zeros, wraps, List.length_append, List.length_replicate,
    Nat.sub_add_cancel short] at found
  exact none k few found

/-- Octal digits mean the same in base ten, modulo `2 ^ 64`, only where they are one digit. -/
theorem octal_read_in_ten {digits : List Char} (octal : OctalDigits digits)
    (fits : digitsValue 8 digits < 2 ^ 63) :
    digitsValue 10 digits % 2 ^ 64 = digitsValue 8 digits ↔ digitsValue 8 digits < 8 := by
  induction digits with
  | nil => decide
  | cons c digits ih =>
    have rest : OctalDigits digits := fun d member => octal d (List.mem_cons_of_mem c member)
    have here : hexDigitValue c ≤ 7 := octal c List.mem_cons_self
    have gap := digitsValue_ten (c :: digits)
    have value := digitsValue_cons 8 c digits
    by_cases zero : hexDigitValue c = 0
    · have less := ih rest (by rw [zero, Nat.zero_mul] at value; omega)
      rw [digitsValue_cons, digitsValue_cons, zero, Nat.zero_mul, Nat.zero_mul, Nat.zero_add,
        Nat.zero_add]
      exact less
    · have large : 8 ^ digits.length ≤ hexDigitValue c * 8 ^ digits.length :=
        Nat.le_mul_of_pos_left _ (Nat.pos_of_ne_zero zero)
      have short : digits.length < 21 :=
        (Nat.pow_lt_pow_iff_right (by decide : 1 < 8)).mp (by omega : 8 ^ digits.length < 8 ^ 21)
      constructor
      · intro same
        have wraps : octalGap (c :: digits) = octalGap (c :: digits) / 2 ^ 64 * 2 ^ 64 := by omega
        have none := gap_not_wrapped octal short wraps
        cases digits with
        | nil =>
          rw [List.length_nil, pow_zero, Nat.mul_one] at value
          have last : digitsValue 8 [] = 0 := rfl
          omega
        | cons d digits =>
          have less := octalGap_lt rest (List.cons_ne_nil d digits)
          have made : octalGap (c :: d :: digits) =
            hexDigitValue c * (10 ^ (d :: digits).length - 8 ^ (d :: digits).length) +
              octalGap (d :: digits) := rfl
          have positive := Nat.mul_pos (Nat.pos_of_ne_zero zero) (Nat.zero_lt_of_lt less)
          omega
      · intro single
        have last : digits = [] := by
          by_contra some
          have power : 8 ≤ 8 ^ digits.length :=
            Nat.le_self_pow (List.length_pos_iff.mpr some).ne' 8
          omega
        subst last
        have alone : octalGap [c] = 0 := by simp [octalGap]
        omega

theorem underscore_notMem_int (i : Int) : '_' ∉ (toString i).toList := by
  cases i with
  | ofNat n =>
    change '_' ∉ n.repr.toList
    rw [Nat.toList_repr]
    exact Nat.underscore_not_in_toDigits
  | negSucc n =>
    change '_' ∉ ("-" ++ (n + 1).repr).toList
    rw [String.toList_append, Nat.toList_repr, List.mem_append, not_or]
    exact ⟨by decide, Nat.underscore_not_in_toDigits⟩

end Numeral
