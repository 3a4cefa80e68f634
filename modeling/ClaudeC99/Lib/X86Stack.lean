import ClaudeC99.Lib.X86

/-! What instructions do to the stack and frame pointers. -/

namespace X86

variable {L S : Type} {env : Env S}

def Reg.isStack (r : Reg) : Bool := r = .rsp ∨ r = .rbp

/-- Control goes on to the next line, and neither `rsp` nor `rbp` changes. -/
def Instr.keepsStack : Instr L S → Bool
  | .mov _ dst _ | .lea dst _ | .movsx _ _ dst _ | .movzx _ _ dst _ | .alu _ _ dst _
  | .imulImm dst _ _ | .neg _ dst | .not _ dst | .shift _ _ dst _ | .setcc _ dst
  | .cvtToInt _ dst _ => !dst.isStack
  | .xchg _ r s => !r.isStack && !s.isStack
  | .push _ | .pop _ | .jmp _ | .jcc _ _ | .label _ | .call _ | .callReg _ | .ret => false
  | _ => true

namespace State

@[simp] theorem setFull_reg_of_ne (σ : State) {r q : Reg} (v : BitVec 64) (h : q ≠ r) :
    (σ.setFull r v).reg q = σ.reg q := by
  simp [setFull, h]

@[simp] theorem setFull_reg_self (σ : State) (r : Reg) (v : BitVec 64) :
    (σ.setFull r v).reg r = v := by
  simp [setFull]

theorem set_reg_of_ne (σ : State) (w : Width) {r q : Reg} (v : BitVec w.bits) (h : q ≠ r) :
    (σ.set w r v).reg q = σ.reg q := by
  cases w <;> exact setFull_reg_of_ne σ _ h

@[simp] theorem setXmm_reg (σ : State) (x : Nat) (v : BitVec 128) : (σ.setXmm x v).reg = σ.reg :=
  rfl

@[simp] theorem setLow_reg (σ : State) (p : FpWidth) (x : Nat) (v : BitVec p.bits) :
    (σ.setLow p x v).reg = σ.reg := rfl

@[simp] theorem store_reg (σ : State) (w : Width) (a : BitVec 64) (v : BitVec w.bits) :
    (σ.store w a v).reg = σ.reg := rfl

end State

theorem Reg.ne_of_not_isStack {r q : Reg} (hr : r.isStack = false) (hq : q.isStack = true) :
    q ≠ r := by
  rintro rfl
  simp [hr] at hq

theorem setDiv_reg_of_isStack (σ : State) (w : Width) (qr : BitVec w.bits × BitVec w.bits)
    {q : Reg} (hq : q.isStack = true) : (σ.setDiv w qr).reg q = σ.reg q := by
  have hdx : q ≠ .rdx := Reg.ne_of_not_isStack rfl hq
  have hax : q ≠ .rax := Reg.ne_of_not_isStack rfl hq
  rw [State.setDiv, State.set_reg_of_ne _ _ _ hdx, State.set_reg_of_ne _ _ _ hax]

theorem exec_keepsStack {i : Instr L S} (plain : i.keepsStack = true) {σ σ' : State}
    (run : exec env i σ = some σ') {q : Reg} (hq : q.isStack = true) : σ'.reg q = σ.reg q := by
  have away {r : Reg} (hr : (!r.isStack) = true) : q ≠ r :=
    Reg.ne_of_not_isStack (by simpa using hr) hq
  cases i with
  | mov w dst src | lea dst src | imulImm dst src n | neg w dst | not w dst | setcc c dst
  | cvtToInt p dst src =>
    cases run
    simp only [Instr.keepsStack] at plain
    simp only [State.set_reg_of_ne _ _ _ (away plain), State.setFull_reg_of_ne _ _ (away plain)]
  | movsx wd ws dst src | movzx wd ws dst src | shift op w dst count =>
    cases run
    exact State.set_reg_of_ne _ _ _ (away plain)
  | alu op w dst src =>
    cases run
    simp only [Instr.keepsStack] at plain
    split
    · exact State.set_reg_of_ne _ _ _ (away plain)
    · rfl
  | aluMem op w dst n =>
    cases run
    split <;> rfl
  | signExtendAcc w =>
    cases run
    exact State.set_reg_of_ne _ _ _ (away rfl)
  | idiv w src | div w src =>
    obtain ⟨qr, _, rfl⟩ := Option.map_eq_some_iff.mp run
    exact setDiv_reg_of_isStack _ _ _ hq
  | xchg w r s =>
    cases run
    simp only [Instr.keepsStack, Bool.and_eq_true] at plain
    rw [State.set_reg_of_ne _ _ _ (away plain.2), State.set_reg_of_ne _ _ _ (away plain.1)]
  | repMovsb =>
    cases run
    simp only [State.setFull_reg_of_ne _ _ (away (r := .rcx) rfl),
      State.setFull_reg_of_ne _ _ (away (r := .rsi) rfl),
      State.setFull_reg_of_ne _ _ (away (r := .rdi) rfl)]
  | fmov p dst src =>
    cases src <;> cases run <;> rfl
  | store | storeImm | fstore | farith | fxor | ucomi | cvtFromInt | cvtWiden | cvtNarrow
  | movaps =>
    cases run
    rfl
  | push | pop | jmp | jcc | label | call | callReg | ret => cases plain

end X86
