import ClaudeC99.Lib.X86Stack

/-! Named registers of every width, and states that agree but for some bytes and the flags. -/

namespace X86

/-- A general register by its name: the low bits of a register, or bits 8 to 15. -/
inductive Operand
  | low (w : Width) (r : Reg)
  | high (r : Reg)
  deriving DecidableEq, Repr

def Operand.width : Operand → Width
  | low w _ => w
  | high _ => .byte

def Operand.reg : Operand → Reg
  | low _ r => r
  | high r => r

namespace State

/-- The value of an operand, zero-extended. -/
def value (σ : State) : Operand → BitVec 64
  | .low w r => (σ.get w r).setWidth 64
  | .high r => ((σ.reg r >>> 8).setWidth 8).setWidth 64

def put (σ : State) (o : Operand) (v : BitVec 64) : State :=
  match o with
  | .low w r => σ.set w r (v.setWidth w.bits)
  | .high r =>
    σ.setFull r ((σ.reg r >>> 16 <<< 16) ||| ((v.setWidth 8).setWidth 64 <<< 8) |||
      ((σ.reg r).setWidth 8).setWidth 64)

def loadAt (σ : State) (a : BitVec 64) (n : Nat) : BitVec 64 := BitVec.ofNat 64 (σ.mem.loadNat a n)

def storeAt (σ : State) (a : BitVec 64) (n : Nat) (v : BitVec 64) : State :=
  { σ with mem := σ.mem.storeNat a n v.toNat }

def push (σ : State) (o : Operand) : State :=
  let sp := σ.reg .rsp - BitVec.ofNat 64 o.width.bytes
  (σ.storeAt sp o.width.bytes (σ.value o)).setFull .rsp sp

def pop (σ : State) (o : Operand) : State :=
  let v := σ.loadAt (σ.reg .rsp) o.width.bytes
  (σ.setFull .rsp (σ.reg .rsp + BitVec.ofNat 64 o.width.bytes)).put o v

end State

/-- Where a 32-bit write to a register would change nothing but its low half. -/
def Operand.Settled (o : Operand) (σ : State) : Prop :=
  o.width = .dword → (σ.reg o.reg).toNat < 2 ^ 32

@[ext] theorem State.ext {σ τ : State} (h_reg : ∀ r, σ.reg r = τ.reg r)
    (h_xmm : σ.xmm = τ.xmm) (h_mem : ∀ a, σ.mem a = τ.mem a) (h_flags : σ.flags = τ.flags) :
    σ = τ := by
  cases σ
  cases τ
  simp only [State.mk.injEq]
  exact ⟨funext h_reg, h_xmm, funext h_mem, h_flags⟩

theorem State.setFull_self (σ : State) (r : Reg) : σ.setFull r (σ.reg r) = σ := by
  apply State.ext
  · intro q
    by_cases h : q = r <;> simp [setFull, h]
  · rfl
  · intro a
    rfl
  · rfl

theorem keep_low_byte (v : BitVec 64) : (v >>> 8 <<< 8) ||| ((v.setWidth 8).setWidth 64) = v := by
  ext i h_i
  by_cases h : i < 8
  · simp [h, BitVec.getLsbD_eq_getElem h_i]
  · have h_shift : 8 + (i - 8) = i := by omega
    simp [h, h_shift, BitVec.getLsbD_eq_getElem h_i]

theorem keep_low_word (v : BitVec 64) :
    (v >>> 16 <<< 16) ||| ((v.setWidth 16).setWidth 64) = v := by
  ext i h_i
  by_cases h : i < 16
  · simp [h, BitVec.getLsbD_eq_getElem h_i]
  · have h_shift : 16 + (i - 16) = i := by omega
    simp [h, h_shift, BitVec.getLsbD_eq_getElem h_i]

theorem keep_high_byte (v : BitVec 64) :
    (v >>> 16 <<< 16) ||| (((v >>> 8).setWidth 8).setWidth 64 <<< 8) |||
      (v.setWidth 8).setWidth 64 = v := by
  ext i h_i
  by_cases h : i < 8
  · have h_word : i < 16 := by omega
    simp [h, h_word, BitVec.getLsbD_eq_getElem h_i]
  · by_cases h_word : i < 16
    · have h_shift : 8 + (i - 8) = i := by omega
      have h_byte : i - 8 < 8 := by omega
      simp [h, h_word, h_shift, h_byte, BitVec.getLsbD_eq_getElem h_i]
    · have h_shift : 16 + (i - 16) = i := by omega
      have h_byte : ¬ i - 8 < 8 := by omega
      simp [h, h_word, h_shift, h_byte, BitVec.getLsbD_eq_getElem h_i]

theorem Width.bits_le (w : Width) : w.bits ≤ 64 := by
  cases w <;> decide

theorem State.value_low_setWidth (σ : State) (w : Width) (r : Reg) :
    (σ.value (.low w r)).setWidth w.bits = σ.get w r := by
  rw [value, BitVec.setWidth_setWidth_of_le _ w.bits_le, BitVec.setWidth_eq]

/-- Writing an operand's own value back changes nothing, except by the extension of a 32-bit
write. -/
theorem State.put_value {σ : State} {o : Operand} (h : o.Settled σ) : σ.put o (σ.value o) = σ := by
  cases o with
  | high r =>
    have h_byte : ((((σ.reg r >>> 8).setWidth 8).setWidth 64).setWidth 8) =
        (σ.reg r >>> 8).setWidth 8 := by
      rw [BitVec.setWidth_setWidth_of_le _ (by decide), BitVec.setWidth_eq]
    simp only [put, value, h_byte, keep_high_byte]
    exact σ.setFull_self r
  | low w r =>
    rw [put, value_low_setWidth]
    cases w with
    | byte =>
      simp only [set, get, Width.bits, Width.bytes]
      rw [keep_low_byte]
      exact σ.setFull_self r
    | word =>
      simp only [set, get, Width.bits, Width.bytes]
      rw [keep_low_word]
      exact σ.setFull_self r
    | dword =>
      have h_settled := h rfl
      have h_reg : ((σ.reg r).setWidth 32).setWidth 64 = σ.reg r := by
        apply BitVec.eq_of_toNat_eq
        simp only [BitVec.toNat_setWidth]
        change (σ.reg r).toNat < 2 ^ 32 at h_settled
        omega
      simp only [set, get, Width.bits, Width.bytes]
      rw [h_reg]
      exact σ.setFull_self r
    | qword =>
      simp only [set, get, Width.bits, Width.bytes]
      rw [BitVec.setWidth_eq, BitVec.setWidth_eq]
      exact σ.setFull_self r

/-! ### Memory -/

theorem add_ofNat_sub (a : BitVec 64) {k : Nat} (h : k < 2 ^ 64) :
    (a + BitVec.ofNat 64 k - a).toNat = k := by
  rw [BitVec.add_comm, BitVec.add_sub_cancel, BitVec.toNat_ofNat, Nat.mod_eq_of_lt h]

theorem Mem.loadNat_storeNat (m : Mem) (a : BitVec 64) {n k j v : Nat} (h_n : n < 2 ^ 64)
    (h : k + j ≤ n) :
    (m.storeNat a n v).loadNat (a + BitVec.ofNat 64 k) j = (v >>> (8 * k)) % 256 ^ j := by
  induction j generalizing k with
  | zero => simp [loadNat, Nat.mod_one]
  | succ j ih =>
    have h_byte : (m.storeNat a n v (a + BitVec.ofNat 64 k)).toNat = (v >>> (8 * k)) % 256 := by
      have h_offset := add_ofNat_sub a (k := k) (by omega)
      rw [storeNat, h_offset, if_pos (by omega), BitVec.toNat_ofNat]
    have h_next : a + BitVec.ofNat 64 k + 1 = a + BitVec.ofNat 64 (k + 1) := by
      rw [BitVec.add_assoc, BitVec.ofNat_add]
      rfl
    have h_shift : v >>> (8 * (k + 1)) = (v >>> (8 * k)) / 256 := by
      rw [Nat.mul_add, Nat.shiftRight_add, Nat.shiftRight_eq_div_pow _ (8 * 1)]
    rw [loadNat, h_byte, h_next, ih (by omega), h_shift, Nat.pow_succ, Nat.mul_comm (256 ^ j),
      Nat.mod_mul]

theorem State.value_lt (σ : State) (o : Operand) : (σ.value o).toNat < 256 ^ o.width.bytes := by
  cases o with
  | high r =>
    simp only [value, Operand.width, Width.bytes, BitVec.toNat_setWidth]
    omega
  | low w r =>
    have h_lt := (σ.get w r).isLt
    have h_pow : 256 ^ w.bytes = 2 ^ w.bits := by
      cases w <;> rfl
    simp only [value, Operand.width, BitVec.toNat_setWidth, h_pow]
    exact Nat.lt_of_le_of_lt (Nat.mod_le _ _) h_lt

/-- What has been stored is loaded back. -/
theorem State.loadAt_storeAt (σ : State) (a : BitVec 64) (o : Operand) :
    (σ.storeAt a o.width.bytes (σ.value o)).loadAt a o.width.bytes = σ.value o := by
  have h_bytes : o.width.bytes < 2 ^ 64 := by
    cases o.width <;> decide
  have h_load := σ.mem.loadNat_storeNat a (v := (σ.value o).toNat) h_bytes
    (k := 0) (Nat.le_of_eq (Nat.zero_add o.width.bytes))
  rw [BitVec.add_zero] at h_load
  rw [loadAt, storeAt, h_load, Nat.mul_zero, Nat.shiftRight_zero,
    Nat.mod_eq_of_lt (σ.value_lt o), BitVec.ofNat_toNat, BitVec.setWidth_eq]

/-! ### States that agree but for some bytes and the flags -/

/-- The bytes, and maybe the flags, in which two states may differ. -/
structure Slack where
  flags : Bool
  dirty : BitVec 64 → Prop

def Within (a : BitVec 64) (n : Nat) (b : BitVec 64) : Prop := (b - a).toNat < n

namespace Slack

def none : Slack := ⟨false, fun _ => False⟩

def soil (k : Slack) (a : BitVec 64) (n : Nat) : Slack :=
  { k with dirty := fun b => Within a n b ∨ k.dirty b }

def wipe (k : Slack) (a : BitVec 64) (n : Nat) : Slack :=
  { k with dirty := fun b => k.dirty b ∧ ¬ Within a n b }

end Slack

structure Alike (k : Slack) (σ τ : State) : Prop where
  reg : τ.reg = σ.reg
  xmm : τ.xmm = σ.xmm
  mem : ∀ a, ¬ k.dirty a → τ.mem a = σ.mem a
  flags : k.flags = false → τ.flags = σ.flags

theorem Alike.refl (σ : State) : Alike .none σ σ := ⟨rfl, rfl, fun _ _ => rfl, fun _ => rfl⟩

variable {k : Slack} {σ τ : State}

theorem Alike.value (h : Alike k σ τ) (o : Operand) : τ.value o = σ.value o := by
  cases o <;> simp [State.value, State.get, h.reg]

@[simp] theorem State.put_mem (o : Operand) (v : BitVec 64) : (σ.put o v).mem = σ.mem := by
  rcases o with ⟨w, r⟩ | r
  · cases w <;> rfl
  · rfl

@[simp] theorem State.put_xmm (o : Operand) (v : BitVec 64) : (σ.put o v).xmm = σ.xmm := by
  rcases o with ⟨w, r⟩ | r
  · cases w <;> rfl
  · rfl

@[simp] theorem State.put_flags (o : Operand) (v : BitVec 64) : (σ.put o v).flags = σ.flags := by
  rcases o with ⟨w, r⟩ | r
  · cases w <;> rfl
  · rfl

theorem State.put_reg (h : τ.reg = σ.reg) (o : Operand) (v : BitVec 64) :
    (τ.put o v).reg = (σ.put o v).reg := by
  rcases o with ⟨w, r⟩ | r
  · cases w <;> simp [put, set, setFull, h]
  · simp [put, setFull, h]

theorem Alike.put (h : Alike k σ τ) (o : Operand) (v : BitVec 64) :
    Alike k (σ.put o v) (τ.put o v) :=
  ⟨State.put_reg h.reg o v, by simp [h.xmm], by simpa using h.mem, by simpa using h.flags⟩

theorem Alike.setFull (h : Alike k σ τ) (r : Reg) (v : BitVec 64) :
    Alike k (σ.setFull r v) (τ.setFull r v) :=
  ⟨by simp [State.setFull, h.reg], h.xmm, h.mem, h.flags⟩

/-- A store in both states wipes the bytes it writes. -/
theorem Alike.storeAt (h : Alike k σ τ) (a : BitVec 64) (n : Nat) (v : BitVec 64) :
    Alike (k.wipe a n) (σ.storeAt a n v) (τ.storeAt a n v) := by
  constructor
  · exact h.reg
  · exact h.xmm
  · intro b h_clean
    by_cases h_within : Within a n b
    · have h_in : (b - a).toNat < n := h_within
      simp only [State.storeAt, Mem.storeNat, if_pos h_in]
    · have h_out : ¬ (b - a).toNat < n := h_within
      have h_same : τ.mem b = σ.mem b := h.mem b fun h_dirty => h_clean ⟨h_dirty, h_within⟩
      simp only [State.storeAt, Mem.storeNat, if_neg h_out, h_same]
  · exact h.flags

/-- A store in the first state soils the bytes it writes. -/
theorem Alike.soil (h : Alike k σ τ) (a : BitVec 64) (n : Nat) (v : BitVec 64) :
    Alike (k.soil a n) (σ.storeAt a n v) τ := by
  constructor
  · exact h.reg
  · exact h.xmm
  · intro b h_clean
    have h_out : ¬ (b - a).toNat < n := fun h_within => h_clean (.inl h_within)
    have h_same : τ.mem b = σ.mem b := h.mem b fun h_dirty => h_clean (.inr h_dirty)
    simp only [State.storeAt, Mem.storeNat, if_neg h_out, h_same]
  · exact h.flags

theorem Alike.stale (h : Alike k σ τ) (f : Flags) :
    Alike { k with flags := true } σ { τ with flags := f } :=
  ⟨h.reg, h.xmm, h.mem, fun h_flags => nomatch h_flags⟩

theorem loadNat_congr {m m' : Mem} {a : BitVec 64} {n : Nat} (h_n : n ≤ 2 ^ 64)
    (h : ∀ b, Within a n b → m' b = m b) : m'.loadNat a n = m.loadNat a n := by
  induction n generalizing a with
  | zero => rfl
  | succ n ih =>
    have h_head : Within a (n + 1) a := by
      simp [Within]
    have h_tail : ∀ b, Within (a + 1) n b → m' b = m b := by
      intro b h_within
      apply h
      have h_lt : (b - (a + 1)).toNat < n := h_within
      have h_eq : b - a = (b - (a + 1)) + 1 := by bv_omega
      rw [Within, h_eq, BitVec.toNat_add]
      have h_one : (1 : BitVec 64).toNat = 1 := rfl
      rw [h_one, Nat.mod_eq_of_lt (by omega)]
      omega
    rw [Mem.loadNat, Mem.loadNat, h a h_head, ih (by omega) h_tail]

theorem Alike.loadAt (h : Alike k σ τ) {a : BitVec 64} {n : Nat} (h_n : n ≤ 2 ^ 64)
    (h_clean : ∀ b, Within a n b → ¬ k.dirty b) : τ.loadAt a n = σ.loadAt a n := by
  rw [State.loadAt, State.loadAt, loadNat_congr h_n fun b h_within => h.mem b (h_clean b h_within)]

end X86
