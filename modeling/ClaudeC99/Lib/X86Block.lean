import ClaudeC99.Lib.X86Operands

/-! Straight-line code: what it leaves behind, which bytes it touches, and memory bit by bit. -/

namespace X86

variable {L S : Type} {env : Env S}

/-- Runs lines that hand control from one to the next. -/
def execAll (env : Env S) : List (Instr L S) → State → Option State
  | [], σ => some σ
  | i :: is, σ => (exec env i σ).bind (execAll env is)

/-- A run of bytes: where it starts and how many they are. -/
abbrev Span := BitVec 64 × Nat

def Src.span (env : Env S) (σ : State) (w : Width) : Src S → List Span
  | .mem a => [(σ.ea env a, w.bytes)]
  | _ => []

def FpSrc.span (env : Env S) (σ : State) (p : FpWidth) : FpSrc S → List Span
  | .mem a => [(σ.ea env a, p.bytes)]
  | _ => []

/-- The bytes that an instruction reads or writes through its operands; those that `push` and
`pop` move are not counted. -/
def Instr.spans (env : Env S) (σ : State) : Instr L S → List Span
  | .mov w _ src | .alu _ w _ src => src.span env σ w
  | .movsx _ ws _ src | .movzx _ ws _ src => src.span env σ ws
  | .store w dst _ | .storeImm w dst _ | .aluMem _ w dst _ => [(σ.ea env dst, w.bytes)]
  | .fmov p _ src | .farith _ p _ src | .fxor p _ src => src.span env σ p
  | .fstore p dst _ => [(σ.ea env dst, p.bytes)]
  | .movaps dst _ => [(σ.ea env dst, 16)]
  | .repMovsb => [(σ.reg .rdi, (σ.reg .rcx).toNat), (σ.reg .rsi, (σ.reg .rcx).toNat)]
  | _ => []

/-- The bytes that straight-line code touches. -/
def spans (env : Env S) : List (Instr L S) → State → List Span
  | [], _ => []
  | i :: is, σ => i.spans env σ ++ ((exec env i σ).map (spans env is)).getD []

/-- `is`, started in `σ`, ends in `σ'` and touches `touched`. -/
structure Runs (env : Env S) (is : List (Instr L S)) (σ σ' : State) (touched : List Span) :
    Prop where
  result : execAll env is σ = some σ'
  touches : spans env is σ = touched

namespace Runs

theorem nil (σ : State) : Runs env ([] : List (Instr L S)) σ σ [] := ⟨rfl, rfl⟩

theorem cons {i : Instr L S} {is : List (Instr L S)} {σ σ' σ'' : State} {touched : List Span}
    (first : exec env i σ = some σ') (rest : Runs env is σ' σ'' touched) :
    Runs env (i :: is) σ σ'' (i.spans env σ ++ touched) := by
  constructor
  · rw [execAll, first]
    exact rest.result
  · rw [spans, first]
    exact congrArg (i.spans env σ ++ ·) rest.touches

theorem single {i : Instr L S} {σ σ' : State} (run : exec env i σ = some σ') :
    Runs env [i] σ σ' (i.spans env σ) := by
  have whole := cons run (nil σ')
  rwa [List.append_nil] at whole

theorem append {is js : List (Instr L S)} {σ σ' σ'' : State} {touched touched' : List Span}
    (first : Runs env is σ σ' touched) (second : Runs env js σ' σ'' touched') :
    Runs env (is ++ js) σ σ'' (touched ++ touched') := by
  induction is generalizing σ touched with
  | nil =>
    have same := Option.some.inj first.result
    subst same
    rw [← first.touches]
    exact second
  | cons i is ih =>
    obtain ⟨result, touches⟩ := first
    rw [execAll] at result
    obtain ⟨τ, run, result⟩ := Option.bind_eq_some_iff.mp result
    rw [spans, run] at touches
    have rest := cons run (ih ⟨result, rfl⟩)
    rw [← touches, List.append_assoc]
    exact rest

theorem unique {is : List (Instr L S)} {σ σ₁ σ₂ : State} {touched₁ touched₂ : List Span}
    (first : Runs env is σ σ₁ touched₁) (second : Runs env is σ σ₂ touched₂) :
    σ₁ = σ₂ ∧ touched₁ = touched₂ := by
  constructor
  · have same := first.result.symm.trans second.result
    exact Option.some.inj same
  · exact first.touches.symm.trans second.touches

end Runs

/-- From `σ` to `σ'` only `r`, which then holds `v`, and the flags have changed. -/
structure Sets (r : Reg) (v : BitVec 64) (σ σ' : State) : Prop where
  self : σ'.reg r = v
  other : ∀ q, q ≠ r → σ'.reg q = σ.reg q
  xmm : σ'.xmm = σ.xmm
  mem : σ'.mem = σ.mem

namespace Sets

variable {r : Reg} {v w : BitVec 64} {σ σ' σ'' : State}

theorem refl (r : Reg) (σ : State) : Sets r (σ.reg r) σ σ := ⟨rfl, fun _ _ => rfl, rfl, rfl⟩

theorem trans (first : Sets r v σ σ') (second : Sets r w σ' σ'') : Sets r w σ σ'' where
  self := second.self
  other q ne := (second.other q ne).trans (first.other q ne)
  xmm := second.xmm.trans first.xmm
  mem := second.mem.trans first.mem

theorem setFull (r : Reg) (v : BitVec 64) (f : Flags) :
    Sets r v σ ({ σ with flags := f }.setFull r v) where
  self := State.setFull_reg_self _ r v
  other _ ne := State.setFull_reg_of_ne _ v ne
  xmm := rfl
  mem := rfl

end Sets

/-! ### Memory bit by bit -/

/-- Bit `i` of the number that starts at `a`. -/
def Mem.bit (m : Mem) (a : BitVec 64) (i : Nat) : Bool :=
  (m (a + BitVec.ofNat 64 (i / 8))).getLsbD (i % 8)

theorem Mem.bit_zero {m : Mem} {a : BitVec 64} {i : Nat} (h : i < 8) :
    m.bit a i = (m a).getLsbD i := by
  have byte : i / 8 = 0 := by omega
  have rest : i % 8 = i := by omega
  rw [bit, byte, rest]
  simp

theorem Mem.bit_succ (m : Mem) (a : BitVec 64) (i : Nat) : m.bit a (i + 8) = m.bit (a + 1) i := by
  have byte : (i + 8) / 8 = 1 + i / 8 := by omega
  have rest : (i + 8) % 8 = i % 8 := by omega
  rw [bit, bit, byte, rest, BitVec.ofNat_add, ← BitVec.add_assoc]
  rfl

theorem Mem.testBit_loadNat (m : Mem) (a : BitVec 64) (n i : Nat) :
    (m.loadNat a n).testBit i = (decide (i < 8 * n) && m.bit a i) := by
  induction n generalizing a i with
  | zero => simp [loadNat]
  | succ n ih =>
    have low : (m a).toNat < 2 ^ 8 := (m a).isLt
    have parts : m.loadNat a (n + 1) = 2 ^ 8 * m.loadNat (a + 1) n + (m a).toNat := by
      rw [loadNat]
      omega
    rw [parts, Nat.testBit_two_pow_mul_add _ low]
    split
    · rename_i small
      have inside : i < 8 * (n + 1) := by omega
      rw [BitVec.testBit_toNat, bit_zero small, decide_eq_true inside, Bool.true_and]
    · rename_i large
      obtain ⟨j, rfl⟩ : ∃ j, i = j + 8 := ⟨i - 8, by omega⟩
      have shift : (j + 8 < 8 * (n + 1)) = (j < 8 * n) := propext (by omega)
      rw [Nat.add_sub_cancel, ih, bit_succ]
      simp only [shift]

theorem Mem.bit_storeNat (m : Mem) (a : BitVec 64) (n v : Nat) {i : Nat} (h : i < 2 ^ 64) :
    (m.storeNat a n v).bit a i = if i < 8 * n then v.testBit i else m.bit a i := by
  have offset := add_ofNat_sub a (k := i / 8) (by omega)
  have same : (i / 8 < n) = (i < 8 * n) := propext (by omega)
  have whole : 8 * (i / 8) + i % 8 = i := by omega
  have bound : i % 8 < 8 := by omega
  rw [bit, storeNat, offset]
  simp only [same]
  split
  · rw [BitVec.getLsbD_ofNat, Nat.testBit_shiftRight, whole, decide_eq_true bound, Bool.true_and]
  · rfl

theorem Mem.storeNat_of_not_within {m : Mem} {a b : BitVec 64} {n v : Nat}
    (h : ¬ (b - a).toNat < n) : m.storeNat a n v b = m b := by
  rw [storeNat, if_neg h]

theorem getLsbD_loadNat (m : Mem) (p : BitVec 64) {w n i : Nat} (inside : i < 8 * n)
    (bound : i < w) : (BitVec.ofNat w (m.loadNat p n)).getLsbD i = m.bit p i := by
  rw [BitVec.getLsbD_ofNat, Mem.testBit_loadNat, decide_eq_true inside, decide_eq_true bound,
    Bool.true_and, Bool.true_and]

/-- The low bits of a register, stored. -/
theorem bit_store (σ : State) (w : Width) (p : BitVec 64) (r : Reg) {i : Nat} (inside : i < w.bits) :
    (σ.store w p (σ.get w r)).mem.bit p i = (σ.reg r).getLsbD i := by
  have bound := w.bits_le
  have bytes : i < 8 * w.bytes := inside
  rw [State.store, Mem.bit_storeNat _ _ _ _ (by omega), if_pos bytes, BitVec.testBit_toNat,
    State.get, BitVec.getLsbD_setWidth, decide_eq_true inside, Bool.true_and]

end X86
