import Mathlib.Data.BitVec

/-! The x86-64 subset used by the generated assembly: syntax, machine state, execution. -/

namespace X86

inductive Reg
  | rax | rbx | rcx | rdx | rsi | rdi | rsp | rbp
  | r8 | r9 | r10 | r11 | r12 | r13 | r14 | r15
  deriving DecidableEq, Repr

inductive Width
  | byte | word | dword | qword
  deriving DecidableEq, Repr

def Width.bytes : Width → Nat
  | .byte => 1
  | .word => 2
  | .dword => 4
  | .qword => 8

def Width.bits (w : Width) : Nat := 8 * w.bytes

inductive FpWidth
  | single | double
  deriving DecidableEq, Repr

def FpWidth.bytes : FpWidth → Nat
  | .single => 4
  | .double => 8

def FpWidth.bits (p : FpWidth) : Nat := 8 * p.bytes

inductive Addr (S : Type)
  | based (base : Reg) (disp : Int)
  | indexed (base index : Reg)
  | symbol (name : S) (disp : Int)
  deriving DecidableEq, Repr

inductive Src (S : Type)
  | reg (r : Reg)
  | imm (n : Int)
  | mem (a : Addr S)
  deriving DecidableEq, Repr

inductive FpSrc (S : Type)
  | xmm (x : Nat)
  | mem (a : Addr S)
  deriving DecidableEq, Repr

inductive Alu
  | add | sub | imul | and | or | xor | cmp | test
  deriving DecidableEq, Repr

inductive Shift
  | shl | shr | sar
  deriving DecidableEq, Repr

inductive Count
  | cl
  | imm (n : Nat)
  deriving DecidableEq, Repr

inductive Cond
  | e | ne | l | le | g | ge | b | be | a | ae | p | np
  deriving DecidableEq, Repr

inductive FpOp
  | add | sub | mul | div
  deriving DecidableEq, Repr

inductive Instr (L S : Type)
  | mov (w : Width) (dst : Reg) (src : Src S)
  | store (w : Width) (dst : Addr S) (src : Reg)
  | storeImm (w : Width) (dst : Addr S) (n : Int)
  | lea (dst : Reg) (a : Addr S)
  | movsx (wd ws : Width) (dst : Reg) (src : Src S)
  | movzx (wd ws : Width) (dst : Reg) (src : Src S)
  | alu (op : Alu) (w : Width) (dst : Reg) (src : Src S)
  | aluMem (op : Alu) (w : Width) (dst : Addr S) (n : Int)
  | imulImm (dst src : Reg) (n : Int)
  | neg (w : Width) (dst : Reg)
  | not (w : Width) (dst : Reg)
  | shift (op : Shift) (w : Width) (dst : Reg) (count : Count)
  | signExtendAcc (w : Width)
  | idiv (w : Width) (src : Reg)
  | div (w : Width) (src : Reg)
  | xchg (w : Width) (r s : Reg)
  | setcc (c : Cond) (dst : Reg)
  | push (r : Reg)
  | pop (r : Reg)
  | repMovsb
  | fmov (p : FpWidth) (dst : Nat) (src : FpSrc S)
  | fstore (p : FpWidth) (dst : Addr S) (src : Nat)
  | farith (op : FpOp) (p : FpWidth) (dst : Nat) (src : FpSrc S)
  | fxor (p : FpWidth) (dst : Nat) (src : FpSrc S)
  | ucomi (p : FpWidth) (x y : Nat)
  | cvtFromInt (p : FpWidth) (dst : Nat) (src : Reg)
  | cvtToInt (p : FpWidth) (dst : Reg) (src : Nat)
  | cvtWiden (dst src : Nat)
  | cvtNarrow (dst src : Nat)
  | movaps (dst : Addr S) (src : Nat)
  | jmp (l : L)
  | jcc (c : Cond) (l : L)
  | label (l : L)
  | call (f : S)
  | callReg (r : Reg)
  | ret
  deriving DecidableEq, Repr

inductive FpOrder
  | less | equal | greater | unordered
  deriving DecidableEq, Repr

/-- The floating-point unit, left abstract: the integer code never looks inside. -/
structure FpUnit where
  arith : FpOp → (p : FpWidth) → BitVec p.bits → BitVec p.bits → BitVec p.bits
  compare : (p : FpWidth) → BitVec p.bits → BitVec p.bits → FpOrder
  ofInt : (p : FpWidth) → BitVec 64 → BitVec p.bits
  toInt : (p : FpWidth) → BitVec p.bits → BitVec 64
  widen : BitVec 32 → BitVec 64
  narrow : BitVec 64 → BitVec 32

structure Env (S : Type) where
  fpu : FpUnit
  addrOf : S → BitVec 64

abbrev Mem := BitVec 64 → BitVec 8

structure Flags where
  zf : Bool
  sf : Bool
  cf : Bool
  of : Bool
  pf : Bool
  deriving DecidableEq, Repr

structure State where
  reg : Reg → BitVec 64
  xmm : Nat → BitVec 128
  mem : Mem
  flags : Flags

def Mem.loadNat (m : Mem) (a : BitVec 64) : Nat → Nat
  | 0 => 0
  | n + 1 => (m a).toNat + 256 * Mem.loadNat m (a + 1) n

def Mem.storeNat (m : Mem) (a : BitVec 64) (n v : Nat) : Mem := fun b =>
  if (b - a).toNat < n then BitVec.ofNat 8 (v >>> (8 * (b - a).toNat)) else m b

def Mem.copy (m : Mem) (dst src : BitVec 64) : Nat → Mem
  | 0 => m
  | n + 1 => Mem.copy (m.storeNat dst 1 (m src).toNat) (dst + 1) (src + 1) n

variable {L S : Type}

namespace State

def get (σ : State) (w : Width) (r : Reg) : BitVec w.bits := (σ.reg r).setWidth w.bits

def setFull (σ : State) (r : Reg) (v : BitVec 64) : State :=
  { σ with reg := fun q => if q = r then v else σ.reg q }

/-- A 32-bit write clears the upper half, an 8- or 16-bit write keeps it. -/
def set (σ : State) (w : Width) (r : Reg) (v : BitVec w.bits) : State :=
  match w with
  | .byte => σ.setFull r ((σ.reg r >>> 8 <<< 8) ||| v.setWidth 64)
  | .word => σ.setFull r ((σ.reg r >>> 16 <<< 16) ||| v.setWidth 64)
  | .dword => σ.setFull r (v.setWidth 64)
  | .qword => σ.setFull r (v.setWidth 64)

def setXmm (σ : State) (x : Nat) (v : BitVec 128) : State :=
  { σ with xmm := fun y => if y = x then v else σ.xmm y }

def load (σ : State) (w : Width) (a : BitVec 64) : BitVec w.bits :=
  BitVec.ofNat _ (σ.mem.loadNat a w.bytes)

def store (σ : State) (w : Width) (a : BitVec 64) (v : BitVec w.bits) : State :=
  { σ with mem := σ.mem.storeNat a w.bytes v.toNat }

def ea (env : Env S) (σ : State) : Addr S → BitVec 64
  | .based r d => σ.reg r + BitVec.ofInt 64 d
  | .indexed r i => σ.reg r + σ.reg i
  | .symbol s d => env.addrOf s + BitVec.ofInt 64 d

def src (env : Env S) (σ : State) (w : Width) : Src S → BitVec w.bits
  | .reg r => σ.get w r
  | .imm n => BitVec.ofInt _ n
  | .mem a => σ.load w (ea env σ a)

def fpSrc (env : Env S) (σ : State) (p : FpWidth) : FpSrc S → BitVec p.bits
  | .xmm x => (σ.xmm x).setWidth p.bits
  | .mem a => BitVec.ofNat _ (σ.mem.loadNat (ea env σ a) p.bytes)

def setLow (σ : State) (p : FpWidth) (x : Nat) (v : BitVec p.bits) : State :=
  σ.setXmm x ((σ.xmm x >>> p.bits <<< p.bits) ||| v.setWidth 128)

end State

def Alu.result {n : Nat} : Alu → BitVec n → BitVec n → BitVec n
  | .add, a, b => a + b
  | .sub, a, b => a - b
  | .cmp, a, b => a - b
  | .imul, a, b => a * b
  | .and, a, b => a &&& b
  | .test, a, b => a &&& b
  | .or, a, b => a ||| b
  | .xor, a, b => a ^^^ b

def Alu.carry {n : Nat} : Alu → BitVec n → BitVec n → Bool
  | .add, a, b => BitVec.uaddOverflow a b
  | .sub, a, b => BitVec.usubOverflow a b
  | .cmp, a, b => BitVec.usubOverflow a b
  | .imul, a, b => BitVec.smulOverflow a b
  | _, _, _ => false

def Alu.overflow {n : Nat} : Alu → BitVec n → BitVec n → Bool
  | .add, a, b => BitVec.saddOverflow a b
  | .sub, a, b => BitVec.ssubOverflow a b
  | .cmp, a, b => BitVec.ssubOverflow a b
  | .imul, a, b => BitVec.smulOverflow a b
  | _, _, _ => false

def evenParity (v : BitVec 8) : Bool :=
  (List.range 8).foldl (fun acc i => acc != v.getLsbD i) true

def Alu.flags {n : Nat} (op : Alu) (a b : BitVec n) : Flags where
  zf := op.result a b == 0
  sf := (op.result a b).msb
  cf := op.carry a b
  of := op.overflow a b
  pf := evenParity ((op.result a b).setWidth 8)

def Alu.writes : Alu → Bool
  | .cmp => false
  | .test => false
  | _ => true

def Cond.holds (f : Flags) : Cond → Bool
  | .e => f.zf
  | .ne => !f.zf
  | .l => f.sf != f.of
  | .ge => f.sf == f.of
  | .le => f.zf || f.sf != f.of
  | .g => !f.zf && f.sf == f.of
  | .b => f.cf
  | .ae => !f.cf
  | .be => f.cf || f.zf
  | .a => !f.cf && !f.zf
  | .p => f.pf
  | .np => !f.pf

def FpOrder.flags : FpOrder → Flags
  | .unordered => { zf := true, sf := false, cf := true, of := false, pf := true }
  | .greater => { zf := false, sf := false, cf := false, of := false, pf := false }
  | .less => { zf := false, sf := false, cf := true, of := false, pf := false }
  | .equal => { zf := true, sf := false, cf := false, of := false, pf := false }

def Count.amount (σ : State) (w : Width) : Count → Nat
  | .cl => (σ.get .byte .rcx).toNat % (if w = .qword then 64 else 32)
  | .imm n => n % (if w = .qword then 64 else 32)

def Shift.result {n : Nat} : Shift → BitVec n → Nat → BitVec n
  | .shl, v, k => v <<< k
  | .shr, v, k => v >>> k
  | .sar, v, k => v.sshiftRight k

/-- `idiv` and `div` fault on a zero divisor and on a quotient that does not fit. -/
def signedDiv {n : Nat} (hi lo d : BitVec n) : Option (BitVec n × BitVec n) :=
  let q := (hi ++ lo).toInt.tdiv d.toInt
  let r := (hi ++ lo).toInt.tmod d.toInt
  if d = 0 then none
  else if (BitVec.ofInt n q).toInt = q then some (BitVec.ofInt n q, BitVec.ofInt n r)
  else none

def unsignedDiv {n : Nat} (hi lo d : BitVec n) : Option (BitVec n × BitVec n) :=
  let q := (hi ++ lo).toNat / d.toNat
  let r := (hi ++ lo).toNat % d.toNat
  if d = 0 then none
  else if q < 2 ^ n then some (BitVec.ofNat n q, BitVec.ofNat n r)
  else none

def State.setDiv (σ : State) (w : Width) (qr : BitVec w.bits × BitVec w.bits) : State :=
  (σ.set w .rax qr.1).set w .rdx qr.2

/-- One instruction that hands control to the next line; control transfers have no result. -/
def exec (env : Env S) (i : Instr L S) (σ : State) : Option State :=
  match i with
  | .mov w dst src => some (σ.set w dst (σ.src env w src))
  | .store w dst src => some (σ.store w (σ.ea env dst) (σ.get w src))
  | .storeImm w dst n => some (σ.store w (σ.ea env dst) (BitVec.ofInt _ n))
  | .lea dst a => some (σ.setFull dst (σ.ea env a))
  | .movsx wd ws dst src => some (σ.set wd dst ((σ.src env ws src).signExtend wd.bits))
  | .movzx wd ws dst src => some (σ.set wd dst ((σ.src env ws src).setWidth wd.bits))
  | .alu op w dst src =>
    let a := σ.get w dst
    let b := σ.src env w src
    let σ' := { σ with flags := op.flags a b }
    some (if op.writes then σ'.set w dst (op.result a b) else σ')
  | .aluMem op w dst n =>
    let a := σ.load w (σ.ea env dst)
    let b : BitVec w.bits := BitVec.ofInt _ n
    let σ' := { σ with flags := op.flags a b }
    some (if op.writes then σ'.store w (σ.ea env dst) (op.result a b) else σ')
  | .imulImm dst src n => some (σ.setFull dst (σ.reg src * BitVec.ofInt 64 n))
  | .neg w dst => some (σ.set w dst (-(σ.get w dst)))
  | .not w dst => some (σ.set w dst (~~~(σ.get w dst)))
  | .shift op w dst count => some (σ.set w dst (op.result (σ.get w dst) (count.amount σ w)))
  | .signExtendAcc w =>
    some (σ.set w .rdx (if (σ.get w .rax).msb then BitVec.allOnes _ else 0))
  | .idiv w src => (signedDiv (σ.get w .rdx) (σ.get w .rax) (σ.get w src)).map (σ.setDiv w)
  | .div w src => (unsignedDiv (σ.get w .rdx) (σ.get w .rax) (σ.get w src)).map (σ.setDiv w)
  | .xchg w r s => some ((σ.set w r (σ.get w s)).set w s (σ.get w r))
  | .setcc c dst => some (σ.set .byte dst (if c.holds σ.flags then 1 else 0))
  | .push r =>
    let sp := σ.reg .rsp - 8
    some ((σ.store .qword sp (σ.reg r)).setFull .rsp sp)
  | .pop r =>
    let v := σ.load .qword (σ.reg .rsp)
    some ((σ.setFull .rsp (σ.reg .rsp + 8)).setFull r v)
  | .repMovsb =>
    let n := σ.reg .rcx
    some ((({ σ with mem := σ.mem.copy (σ.reg .rdi) (σ.reg .rsi) n.toNat }.setFull
      .rdi (σ.reg .rdi + n)).setFull .rsi (σ.reg .rsi + n)).setFull .rcx 0)
  | .fmov p dst (.xmm x) => some (σ.setLow p dst (σ.fpSrc env p (.xmm x)))
  | .fmov p dst (.mem a) => some (σ.setXmm dst ((σ.fpSrc env p (.mem a)).setWidth 128))
  | .fstore p dst x =>
    some { σ with mem := σ.mem.storeNat (σ.ea env dst) p.bytes (σ.fpSrc env p (.xmm x)).toNat }
  | .farith op p dst src =>
    some (σ.setLow p dst (env.fpu.arith op p (σ.fpSrc env p (.xmm dst)) (σ.fpSrc env p src)))
  | .fxor p dst src =>
    some (σ.setLow p dst (σ.fpSrc env p (.xmm dst) ^^^ σ.fpSrc env p src))
  | .ucomi p x y =>
    some { σ with
      flags := (env.fpu.compare p (σ.fpSrc env p (.xmm x)) (σ.fpSrc env p (.xmm y))).flags }
  | .cvtFromInt p dst src => some (σ.setLow p dst (env.fpu.ofInt p (σ.reg src)))
  | .cvtToInt p dst src => some (σ.setFull dst (env.fpu.toInt p (σ.fpSrc env p (.xmm src))))
  | .cvtWiden dst src =>
    some (σ.setLow .double dst (env.fpu.widen (σ.fpSrc env .single (.xmm src))))
  | .cvtNarrow dst src =>
    some (σ.setLow .single dst (env.fpu.narrow (σ.fpSrc env .double (.xmm src))))
  | .movaps dst x =>
    some { σ with mem := σ.mem.storeNat (σ.ea env dst) 16 (σ.xmm x).toNat }
  | .label _ => some σ
  | .jmp _ | .jcc _ _ | .call _ | .callReg _ | .ret => none

def Reg.calleeSaved : Reg → Bool
  | .rbx | .rbp | .rsp | .r12 | .r13 | .r14 | .r15 => true
  | _ => false

/-- What a caller may rely on when a call comes back. -/
def Returns (σ σ' : State) : Prop := ∀ r : Reg, r.calleeSaved = true → σ'.reg r = σ.reg r

/-- One step of the function whose lines are `code`, from line `pc` in state `σ`. -/
inductive Step (env : Env S) (code : List (Instr L S)) : Nat × State → Nat × State → Prop
  | next {pc σ σ' i} (line : code[pc]? = some i) (run : exec env i σ = some σ') :
      Step env code (pc, σ) (pc + 1, σ')
  | jump {pc pc' σ l} (line : code[pc]? = some (.jmp l)) (target : code[pc']? = some (.label l)) :
      Step env code (pc, σ) (pc', σ)
  | taken {pc pc' σ c l} (line : code[pc]? = some (.jcc c l)) (holds : c.holds σ.flags = true)
      (target : code[pc']? = some (.label l)) : Step env code (pc, σ) (pc', σ)
  | fall {pc σ c l} (line : code[pc]? = some (.jcc c l)) (fails : c.holds σ.flags = false) :
      Step env code (pc, σ) (pc + 1, σ)
  | call {pc σ σ' f} (line : code[pc]? = some (.call f)) (back : Returns σ σ') :
      Step env code (pc, σ) (pc + 1, σ')
  | callReg {pc σ σ' r} (line : code[pc]? = some (.callReg r)) (back : Returns σ σ') :
      Step env code (pc, σ) (pc + 1, σ')

inductive Run (env : Env S) (code : List (Instr L S)) : Nat × State → Nat × State → Prop
  | refl (c) : Run env code c c
  | tail {a b c} (run : Run env code a b) (step : Step env code b c) : Run env code a c

end X86
