import ClaudeC99.Codegen.Emit
import ClaudeC99.Lib.BitFields
import ClaudeC99.Optimize.Typing
import ClaudeC99.Stack.Emits

/-! Where the code of an expression leaves its value, and what the recorded type takes it for. -/

namespace ClaudeC99

open X86 StateExcept
open IntArith (IntType)

/-- A run has one result. -/
theorem yields_unique {σ ε α : Type} {m : StateT σ (Except ε) α} {s t t' : σ} {a a' : α}
    (first : Yields m s a t) (second : Yields m s a' t') : a = a' ∧ t = t' :=
  Prod.mk.inj (Except.ok.inj (first.symm.trans second))

/-- Values below 64 bits are held in `eax`, promoted to `int` or `unsigned int`. -/
def regWidth (t : IntType) : Width := if t.width = 64 then .qword else .dword

/-- The integer register holds the value `v` of type `t`; the upper half of `rax` may hold
anything when `eax` is enough. -/
structure Carries (σ : State) (t : IntType) (v : Int) : Prop where
  inType : t.Holds v
  inReg : σ.get (regWidth t) .rax = BitVec.ofInt _ v

/-- The number that a node of a recorded kind stands for when its code is done. -/
def number (kind : TypeKind) (isUnsigned : Bool) (σ : State) : Int :=
  let value := σ.get (if isLongKind kind then .qword else .dword) .rax
  if isUnsigned then value.toNat else value.toInt

def outputOf (m : Gen Unit) (cg : CodeGen) : List Line :=
  (m cg).toOption.elim [] fun p => p.2.output

theorem exists_output {m : Gen Unit} {cg : CodeGen} (ok : (m cg).isOk = true) :
    ∃ cg', Yields m cg () cg' ∧ cg'.output = outputOf m cg := by
  unfold outputOf
  cases run : m cg with
  | error e =>
    rw [run] at ok
    cases ok
  | ok p => exact ⟨p.2, run, rfl⟩

/-- The instructions printed so far. -/
def CodeGen.code (cg : CodeGen) : List Asm := cg.output.map Line.instr

@[simp] theorem code_print (cg : CodeGen) (is : List Asm) :
    (cg.print is).code = cg.code ++ is := by
  simp [CodeGen.print, CodeGen.code, lines, Function.comp_def]

/-- The generator after a `push`. -/
def CodeGen.pushed (cg : CodeGen) (r : Reg) : CodeGen :=
  { cg.print [.push r] with pushDepth := cg.pushDepth + 1 }

def CodeGen.popped (cg : CodeGen) (r : Reg) : CodeGen :=
  { cg.print [.pop r] with pushDepth := cg.pushDepth - 1 }

@[simp] theorem code_pushed (cg : CodeGen) (r : Reg) : (cg.pushed r).code = cg.code ++ [.push r] :=
  code_print cg [.push r]

@[simp] theorem code_popped (cg : CodeGen) (r : Reg) : (cg.popped r).code = cg.code ++ [.pop r] :=
  code_print cg [.pop r]

theorem yields_pushReg {r : Reg} {cg cg' : CodeGen} {x : Unit} :
    Yields (pushReg r) cg x cg' ↔ cg.pushed r = cg' := by
  simp only [pushReg, pushDepthInc, yields_bind, yields_emit, yields_modify, exists_eq_left', exists_const]
  rfl

theorem yields_popReg {r : Reg} {cg cg' : CodeGen} {x : Unit} :
    Yields (popReg r) cg x cg' ↔ cg.popped r = cg' := by
  simp only [popReg, pushDepthDec, yields_bind, yields_emit, yields_modify, exists_eq_left', exists_const]
  rfl

/-- What `eax` holds for a value held in `rax`, in the lowest bits. -/
theorem Carries.low {t : IntType} {v : Int} {σ : State} (carries : Carries σ t v) :
    (σ.reg .rax).setWidth 32 = BitVec.ofInt 32 v := by
  have wide : 32 ≤ (regWidth t).bits := by
    unfold regWidth
    split <;> decide
  calc (σ.reg .rax).setWidth 32
      = (σ.get (regWidth t) .rax).setWidth 32 := by
        rw [State.get, BitVec.setWidth_setWidth_of_le _ wide]
    _ = (BitVec.ofInt (regWidth t).bits v).setWidth 32 := by rw [carries.inReg]
    _ = BitVec.ofInt 32 v := setWidth_ofInt wide v

/-! ### Code that works in `eax` -/

variable {σ σ' σ'' : State}

/-- The low half of a register. -/
def low32 (σ : State) (r : Reg) : BitVec 32 := (σ.reg r).setWidth 32

theorem low32_setFull (σ : State) (r : Reg) (x : BitVec 32) :
    low32 (σ.setFull r (x.setWidth 64)) r = x := by
  rw [low32, State.setFull_reg_self, BitVec.setWidth_setWidth_of_le _ (by decide),
    BitVec.setWidth_eq]

/-- From `σ` to `σ'` only `rax`, whose low half is then `x`, and the flags have changed. -/
structure Eax (x : BitVec 32) (σ σ' : State) : Prop where
  eax : low32 σ' .rax = x
  other : ∀ q, q ≠ .rax → σ'.reg q = σ.reg q
  mem : σ'.mem = σ.mem

theorem Eax.refl (σ : State) : Eax (low32 σ .rax) σ σ := ⟨rfl, fun _ _ => rfl, rfl⟩

theorem Eax.trans {x y : BitVec 32} (first : Eax x σ σ') (second : Eax y σ' σ'') :
    Eax y σ σ'' where
  eax := second.eax
  other q ne := (second.other q ne).trans (first.other q ne)
  mem := second.mem.trans first.mem

theorem Eax.set (x : BitVec 32) (σ : State) (flags : Flags) :
    Eax x σ (({ σ with flags := flags } : State).setFull .rax (x.setWidth 64)) where
  eax := low32_setFull _ .rax x
  other _ ne := State.setFull_reg_of_ne _ _ ne
  mem := rfl

/-- The word on top of the stack. -/
def topWord (σ : State) : BitVec 64 := BitVec.ofNat 64 (σ.mem.loadNat (σ.reg .rsp) 8)

/-- The dword at an address. -/
def dwordAt (m : Mem) (p : BitVec 64) : BitVec 32 := BitVec.ofNat 32 (m.loadNat p 4)

theorem ea_through (env : Env Symbol) (σ : State) (r : Reg) : σ.ea env (through r) = σ.reg r := by
  simp [through, State.ea]

theorem runs_loadEax (env : Env Symbol) (σ : State) (a : Address) :
    Runs env [movMem .dword .rax a] σ
      (σ.setFull .rax ((dwordAt σ.mem (σ.ea env a)).setWidth 64)) [(σ.ea env a, 4)] := ⟨rfl, rfl⟩

theorem runs_storeEax (env : Env Symbol) (σ : State) (a : Address) :
    Runs env [(.store .dword a .rax : Asm)] σ
      { σ with mem := σ.mem.storeNat (σ.ea env a) 4 (low32 σ .rax).toNat } [(σ.ea env a, 4)] :=
  ⟨rfl, rfl⟩

theorem runs_aluEax (env : Env Symbol) (σ : State) (op : Alu) (src : Src Symbol)
    (writes : op.writes = true) (noMem : src.span env σ .dword = []) :
    ∃ σ', Runs env [(.alu op .dword .rax src : Asm)] σ σ' [] ∧
      Eax (op.result (low32 σ .rax) (σ.src env .dword src)) σ σ' := by
  refine ⟨_, ⟨rfl, ?_⟩, ?_⟩
  · simp [spans, Instr.spans, noMem, exec]
  · rw [if_pos writes]
    exact Eax.set _ σ _

/-! ### Values by their bits -/

/-- The value of a type, read from its bits. -/
theorem convert_eq_of_bits (t : IntType) (notBool : t.rank ≠ .bool) (v : Int) : t.convert v =
    if t.signed then (BitVec.ofInt t.width v).toInt else (BitVec.ofInt t.width v).toNat := by
  have nonneg : 0 ≤ v % (2 ^ t.width : Nat) :=
    Int.emod_nonneg v (by exact_mod_cast (Nat.two_pow_pos _).ne')
  rw [IntType.convert, if_neg notBool, BitVec.toInt_ofInt, BitVec.toNat_ofInt,
    Int.toNat_of_nonneg nonneg]
  push_cast
  rfl

theorem carries_narrow {σ : State} {t : IntType} {v : Int} (narrow : t.width ≠ 64) :
    Carries σ t v ↔ t.Holds v ∧ low32 σ .rax = BitVec.ofInt 32 v := by
  have width : regWidth t = .dword := if_neg narrow
  constructor
  · rintro ⟨inType, inReg⟩
    rw [width] at inReg
    exact ⟨inType, inReg⟩
  · rintro ⟨inType, inReg⟩
    refine ⟨inType, ?_⟩
    rw [width]
    exact inReg

theorem carries_wide {σ : State} {t : IntType} {v : Int} (wide : t.width = 64) :
    Carries σ t v ↔ t.Holds v ∧ σ.reg .rax = BitVec.ofInt 64 v := by
  have width : regWidth t = .qword := if_pos wide
  have full (x : BitVec 64) : x.setWidth 64 = x := BitVec.setWidth_eq x
  constructor
  · rintro ⟨inType, inReg⟩
    rw [width] at inReg
    exact ⟨inType, (full _).symm.trans inReg⟩
  · rintro ⟨inType, inReg⟩
    refine ⟨inType, ?_⟩
    rw [width]
    exact (full _).trans inReg

theorem Carries.congr {σ σ' : State} {t : IntType} {v : Int} (same : σ'.reg .rax = σ.reg .rax) :
    Carries σ' t v ↔ Carries σ t v := by
  have get (w : Width) : σ'.get w .rax = σ.get w .rax := by rw [State.get, State.get, same]
  constructor
  · rintro ⟨inType, inReg⟩
    exact ⟨inType, (get _).symm.trans inReg⟩
  · rintro ⟨inType, inReg⟩
    exact ⟨inType, (get _).trans inReg⟩

end ClaudeC99
