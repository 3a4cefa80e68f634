import ClaudeC99.Lib.IntArith
import ClaudeC99.Lib.X86Block

/-! Bit-fields: the values of so many bits of an integer type, and their place in memory. -/

namespace IntArith.IntType

/-- A value stored in a bit-field of `w` bits. -/
def reduce (t : IntType) (w : Nat) (v : Int) : Int :=
  if t.rank = .bool then if v = 0 then 0 else 1
  else if t.signed then v.bmod (2 ^ w)
  else v % 2 ^ w

/-- The value that the `w` bits of `n` stand for. -/
def ofBits (t : IntType) (w n : Nat) : Int := if t.signed then (n : Int).bmod (2 ^ w) else n

theorem width_mem (t : IntType) : t.width ∈ [1, 8, 16, 32, 64] := by
  rw [width]
  cases t.rank <;> decide

theorem holds_convert (t : IntType) (v : Int) : t.Holds (t.convert v) := by
  obtain ⟨rank, signed, bool⟩ := t
  cases rank with
  | bool =>
    cases bool rfl
    simp only [Holds, convert, min, max, width, if_true, Bool.false_eq_true, if_false]
    split <;> decide
  | _ =>
    cases signed <;>
      simp only [Holds, convert, min, max, width, if_true, Bool.false_eq_true, if_false,
        reduceCtorEq, Int.bmod_def] <;>
      omega

/-- The values of a type with at most `n` bits. -/
theorem Holds.bounds {t : IntType} {v : Int} {n : Nat} (holds : t.Holds v) (narrow : t.width ≤ n) :
    -2 ^ (n - 1) ≤ v ∧ v < 2 ^ n := by
  obtain ⟨low, high⟩ := holds
  have power {a b : Nat} (le : a ≤ b) : (2 : Int) ^ a ≤ 2 ^ b := by
    exact_mod_cast Nat.pow_le_pow_right (by decide) le
  have positive (a : Nat) : (0 : Int) < 2 ^ a := Int.pow_pos (by decide)
  have half := power (show t.width - 1 ≤ n - 1 by omega)
  have half' := power (show t.width - 1 ≤ n by omega)
  have whole := power narrow
  have := positive (n - 1)
  unfold IntType.min at low
  unfold IntType.max at high
  constructor
  · split at low <;> omega
  · split at high <;> omega

/-! ### The common type -/

theorem promote_level (t : IntType) : t.promote.rank.level = Max.max 3 t.rank.level := by
  unfold promote
  split
  · rename_i low
    exact (max_eq_left (Nat.le_of_lt low)).symm
  · rename_i high
    exact (max_eq_right (Nat.le_of_not_lt high)).symm

theorem common_level (s t : IntType) :
    (s.common t).rank.level = Max.max 3 (Max.max s.rank.level t.rank.level) := by
  have first := s.promote_level
  have second := t.promote_level
  have order : Max.max 3 (Max.max s.rank.level t.rank.level) =
      Max.max s.promote.rank.level t.promote.rank.level := by omega
  rw [order]
  unfold common
  dsimp only
  repeat' split
  all_goals first | omega | (dsimp only; omega)

theorem eq_of_level {s t : IntType} (level : s.rank.level = t.rank.level)
    (signed : s.signed = t.signed) : s = t := by
  obtain ⟨rank, _, _⟩ := s
  obtain ⟨rank', _, _⟩ := t
  obtain rfl := signed
  have same : rank = rank' := by
    revert level
    cases rank <;> cases rank' <;> simp [Rank.level]
  obtain rfl := same
  rfl

theorem common_comm (s t : IntType) : s.common t = t.common s := by
  have level : (s.common t).rank.level = (t.common s).rank.level := by
    rw [common_level, common_level, Nat.max_comm s.rank.level]
  refine eq_of_level level ?_
  unfold common
  dsimp only
  generalize s.promote = a
  generalize t.promote = b
  cases first : a.signed <;> cases second : b.signed <;>
    simp only [reduceIte, Bool.false_eq_true] <;> (repeat' split) <;> simp_all

theorem common_wide (s t : IntType) : (s.common t).width = 64 ↔ s.width = 64 ∨ t.width = 64 := by
  have level := common_level s t
  have wide (t : IntType) : t.width = 64 ↔ 4 ≤ t.rank.level := by
    rw [width]
    cases t.rank <;> decide
  rw [wide, wide, wide]
  omega

theorem width_le_of_level {s t : IntType} (le : s.rank.level ≤ t.rank.level) : s.width ≤ t.width := by
  revert le
  rw [width, width]
  cases s.rank <;> cases t.rank <;> decide

/-- A signed common type is wider than an unsigned operand type. -/
theorem common_wider {s t : IntType} (signed : (s.common t).signed = true) (own : s.signed = false) :
    s.width < (s.common t).width := by
  by_cases low : s.rank.level < 3
  · have level := common_level s t
    have narrow : s.width ≤ 16 := by
      revert low
      rw [width]
      cases s.rank <;> decide
    have wide : int.width ≤ (s.common t).width :=
      width_le_of_level (show 3 ≤ (s.common t).rank.level by omega)
    exact Nat.lt_of_le_of_lt narrow (Nat.lt_of_lt_of_le (by decide) wide)
  · have same : s.promote = s := if_neg low
    cases other : t.promote.signed with
    | false =>
      have shape : s.common t =
          if s.rank.level < t.promote.rank.level then t.promote else s := by
        simp [common, same, own, other]
      rw [shape] at signed
      split at signed <;> simp_all
    | true =>
      have shape : s.common t = if t.promote.rank.level ≤ s.rank.level then s
          else if s.width < t.promote.width then t.promote
          else ⟨t.promote.rank, false, fun _ => rfl⟩ := by
        simp [common, same, own, other]
      rw [shape] at signed ⊢
      split at signed
      · simp_all
      · rename_i above
        split at signed
        · rename_i wider
          rwa [if_neg above, if_pos wider]
        · cases signed

/-- A signed common type holds the values of both types. -/
theorem holds_common {s t : IntType} {v : Int} (signed : (s.common t).signed = true)
    (holds : s.Holds v) : (s.common t).Holds v := by
  have level := common_level s t
  have le : s.width ≤ (s.common t).width := width_le_of_level (by omega)
  have wider := common_wider (s := s) (t := t) signed
  generalize s.common t = r at *
  have power {a b : Nat} (le : a ≤ b) : (2 : Int) ^ a ≤ 2 ^ b := by
    exact_mod_cast Nat.pow_le_pow_right (by decide) le
  have half := power (show s.width - 1 ≤ r.width - 1 by omega)
  have positive : (0 : Int) < 2 ^ (r.width - 1) := Int.pow_pos (by decide)
  obtain ⟨low, high⟩ := holds
  unfold IntType.min at low
  unfold IntType.max at high
  rw [Holds, IntType.min, IntType.max, if_pos signed, if_pos signed]
  by_cases own : s.signed = true
  · rw [if_pos own] at low high
    omega
  · rw [if_neg own] at low high
    have whole := power (show s.width ≤ r.width - 1 by
      have := wider (by simpa using own)
      omega)
    omega

end IntArith.IntType

namespace X86

open IntArith (IntType)

/-- The number in the `w` bits from bit `b` of the unit at `p` on. -/
def Mem.field (m : Mem) (p : BitVec 64) (b w : Nat) : Nat :=
  m.loadNat p ((b + w + 7) / 8) / 2 ^ b % 2 ^ w

theorem Mem.testBit_field (m : Mem) (p : BitVec 64) (b w i : Nat) :
    (m.field p b w).testBit i = (decide (i < w) && m.bit p (b + i)) := by
  rw [field, Nat.testBit_mod_two_pow, Nat.testBit_div_two_pow, testBit_loadNat, Nat.add_comm i b]
  by_cases inside : i < w
  · have bytes : b + i < 8 * ((b + w + 7) / 8) := by omega
    simp [inside, bytes]
  · simp [inside]

theorem Mem.field_lt (m : Mem) (p : BitVec 64) (b w : Nat) : m.field p b w < 2 ^ w :=
  Nat.mod_lt _ (Nat.two_pow_pos w)

/-- In the unit at `p`, `m'` has the value `v` in the `w` bits from bit `b` on, and otherwise the
bits of `m`. -/
def Mem.Stored (m m' : Mem) (p : BitVec 64) (size b w : Nat) (v : Int) : Prop :=
  ∀ i, i < 8 * size → m'.bit p i =
    if b ≤ i ∧ i < b + w then (BitVec.ofInt w v).getLsbD (i - b) else m.bit p i

theorem setWidth_ofInt {w n : Nat} (le : w ≤ n) (v : Int) :
    (BitVec.ofInt n v).setWidth w = BitVec.ofInt w v := by
  have powers : ((2 ^ w : Nat) : Int) ∣ (2 ^ n : Nat) := by exact_mod_cast Nat.pow_dvd_pow 2 le
  have nonneg : 0 ≤ v % (2 ^ n : Nat) :=
    Int.emod_nonneg v (by exact_mod_cast (Nat.two_pow_pos n).ne')
  apply BitVec.eq_of_toNat_eq
  calc ((BitVec.ofInt n v).setWidth w).toNat
      = (v % (2 ^ n : Nat)).toNat % 2 ^ w := by rw [BitVec.toNat_setWidth, BitVec.toNat_ofInt]
    _ = (v % (2 ^ n : Nat) % (2 ^ w : Nat)).toNat := by
        rw [Int.toNat_emod nonneg (Int.natCast_nonneg _), Int.toNat_natCast]
    _ = (v % (2 ^ w : Nat)).toNat := by rw [Int.emod_emod_of_dvd v powers]
    _ = (BitVec.ofInt w v).toNat := (BitVec.toNat_ofInt ..).symm

theorem ofInt_eq_iff {n : Nat} {v w : Int} :
    BitVec.ofInt n v = BitVec.ofInt n w ↔ v % (2 ^ n : Nat) = w % (2 ^ n : Nat) := by
  have nonneg (x : Int) : 0 ≤ x % (2 ^ n : Nat) :=
    Int.emod_nonneg x (by exact_mod_cast (Nat.two_pow_pos n).ne')
  constructor
  · intro same
    have numbers := congrArg BitVec.toNat same
    rw [BitVec.toNat_ofInt, BitVec.toNat_ofInt] at numbers
    rw [← Int.toNat_of_nonneg (nonneg v), ← Int.toNat_of_nonneg (nonneg w), numbers]
  · intro same
    apply BitVec.eq_of_toNat_eq
    rw [BitVec.toNat_ofInt, BitVec.toNat_ofInt, same]

theorem signExtend_ofInt (n m : Nat) (v : Int) :
    (BitVec.ofInt n v).signExtend m = BitVec.ofInt m (v.bmod (2 ^ n)) := by
  rw [BitVec.signExtend, BitVec.toInt_ofInt]

theorem ofInt_reduce (t : IntType) (w : Nat) (v : Int) (notBool : t.rank ≠ .bool) :
    BitVec.ofInt w (t.reduce w v) = BitVec.ofInt w v := by
  apply BitVec.eq_of_toInt_eq
  rw [IntType.reduce, if_neg notBool, BitVec.toInt_ofInt, BitVec.toInt_ofInt]
  split
  · exact Int.bmod_bmod
  · have modulus : ((2 ^ w : Nat) : Int) = 2 ^ w := by push_cast; rfl
    rw [← modulus, Int.emod_bmod]

end X86
