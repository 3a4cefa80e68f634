import ClaudeC99.Lib.X86Stack

/-! Where the stack pointer stands at each line of a program, whichever way control came there. -/

namespace X86

variable {L S : Type} {env : Env S}

/-- `below` counts the bytes from a fixed base down to `rsp`, and `frame` those down to `rbp` where
they are known. -/
structure Level where
  below : Nat
  frame : Option Nat
  deriving DecidableEq, Repr

def Level.Holds (base : BitVec 64) (a : Level) (σ : State) : Prop :=
  σ.reg .rsp = base - BitVec.ofNat 64 a.below ∧
    ∀ n ∈ a.frame, σ.reg .rbp = base - BitVec.ofNat 64 n

/-- What a line that hands control to the next one does to the level. -/
inductive Instr.Shifts : Instr L S → Level → Level → Prop
  | keeps {i a} (keeps : i.keepsStack = true) : Shifts i a a
  | push (r n f) : Shifts (.push r) ⟨n, f⟩ ⟨n + 8, f⟩
  | pop {r} (scratch : r.isStack = false) (n f) : Shifts (.pop r) ⟨n + 8, f⟩ ⟨n, f⟩
  | popFrame (n f) : Shifts (.pop .rbp) ⟨n + 8, f⟩ ⟨n, none⟩
  | sub (bytes : Nat) (n f) : Shifts (.alu .sub .qword .rsp (.imm bytes)) ⟨n, f⟩ ⟨n + bytes, f⟩
  | add (bytes : Nat) (n f) : Shifts (.alu .add .qword .rsp (.imm bytes)) ⟨n + bytes, f⟩ ⟨n, f⟩
  | enter (n f) : Shifts (.mov .qword .rbp (.reg .rsp)) ⟨n, f⟩ ⟨n, some n⟩
  | leave (n m) : Shifts (.mov .qword .rsp (.reg .rbp)) ⟨n, some m⟩ ⟨m, some m⟩
  | call (f a) : Shifts (.call f) a a
  | callReg (r a) : Shifts (.callReg r) a a
  | label (k a) : Shifts (.label k) a a

section shifts

variable {base : BitVec 64} {σ τ : State} {a b : Level} {i : Instr L S}

theorem sub_ofNat_add (base : BitVec 64) (n m : Nat) :
    base - BitVec.ofNat 64 (n + m) = base - BitVec.ofNat 64 n - BitVec.ofNat 64 m := by
  rw [BitVec.ofNat_add, sub_add_eq_sub_sub]

theorem Level.Holds.of_same (holds : a.Holds base σ)
    (same : ∀ q : Reg, q.isStack = true → τ.reg q = σ.reg q) : a.Holds base τ := by
  obtain ⟨stack, frame⟩ := holds
  constructor
  · rw [same .rsp rfl, stack]
  · intro n known
    rw [same .rbp rfl, frame n known]

/-- The registers after a line that moves `rsp` down by some bytes. -/
theorem Level.Holds.lower {n m : Nat} {f : Option Nat} (holds : Level.Holds base ⟨n, f⟩ σ)
    (stack : τ.reg .rsp = σ.reg .rsp - BitVec.ofNat 64 m) (frame : τ.reg .rbp = σ.reg .rbp) :
    Level.Holds base ⟨n + m, f⟩ τ := by
  constructor
  · rw [stack, holds.1, sub_ofNat_add]
  · intro k known
    rw [frame, holds.2 k known]

theorem Level.Holds.raise {n m : Nat} {f : Option Nat} (holds : Level.Holds base ⟨n + m, f⟩ σ)
    (stack : τ.reg .rsp = σ.reg .rsp + BitVec.ofNat 64 m)
    (frame : f ≠ none → τ.reg .rbp = σ.reg .rbp) : Level.Holds base ⟨n, f⟩ τ := by
  constructor
  · rw [stack, holds.1, sub_ofNat_add]
    exact sub_add_cancel _ _
  · intro k known
    rw [frame (Option.ne_none_iff_exists'.mpr ⟨k, known⟩), holds.2 k known]

theorem setWidth_self (v : BitVec 64) : (v.setWidth Width.qword.bits).setWidth 64 = v :=
  BitVec.setWidth_eq v

theorem Instr.Shifts.exec (shifts : i.Shifts a b) (holds : a.Holds base σ)
    (run : exec env i σ = some τ) : b.Holds base τ := by
  cases shifts with
  | keeps keeps => exact holds.of_same fun q stack => exec_keepsStack keeps run stack
  | label k => exact Option.some.inj run ▸ holds
  | call | callReg => cases run
  | push r n f =>
    cases run
    exact holds.lower rfl rfl
  | @pop r scratch n f =>
    cases run
    have stack : Reg.rsp ≠ r := Reg.ne_of_not_isStack scratch rfl
    have frame : Reg.rbp ≠ r := Reg.ne_of_not_isStack scratch rfl
    exact holds.raise (if_neg stack) fun _ => if_neg frame
  | popFrame n f =>
    cases run
    have stack : Level.Holds base ⟨n + 8, none⟩ σ := ⟨holds.1, fun k known => by cases known⟩
    exact stack.raise rfl fun known => absurd rfl known
  | sub bytes n f =>
    cases run
    refine holds.lower ?_ rfl
    exact (setWidth_self _).trans (congrArg (_ - ·) (BitVec.ofInt_natCast 64 bytes))
  | add bytes n f =>
    cases run
    refine holds.raise ?_ fun _ => rfl
    exact (setWidth_self _).trans (congrArg (_ + ·) (BitVec.ofInt_natCast 64 bytes))
  | enter n f =>
    cases run
    refine ⟨holds.1, fun k known => ?_⟩
    cases known
    exact (setWidth_self _).trans holds.1
  | leave n m =>
    cases run
    refine ⟨(setWidth_self _).trans (holds.2 m rfl), fun k known => ?_⟩
    cases known
    exact holds.2 m rfl

theorem not_shifts_jmp {k : L} : ¬ Instr.Shifts (.jmp k : Instr L S) a b := by
  intro shifts
  cases shifts with
  | keeps keeps => cases keeps

theorem not_shifts_jcc {cond : Cond} {k : L} : ¬ Instr.Shifts (.jcc cond k : Instr L S) a b := by
  intro shifts
  cases shifts with
  | keeps keeps => cases keeps

theorem Level.Holds.returns (holds : a.Holds base σ) (back : Returns σ τ) : a.Holds base τ := by
  refine holds.of_same fun q stack => back q ?_
  cases q <;> first
    | rfl
    | cases stack

end shifts

/-- `as` are the levels at the lines `is`, from the level `a` on; behind them it is `b`. A jump
`meets` its label at the level where it stands, and the line behind it may be at any level. -/
inductive Levelled (meets : L → Level → Prop) :
    Level → List (Instr L S) → List Level → Level → Prop
  | nil (a) : Levelled meets a [] [] a
  | next {i a b c is bs} (shifts : i.Shifts a b) (rest : Levelled meets b is bs c) :
      Levelled meets a (i :: is) (a :: bs) c
  | jcc {cond k a c is bs} (meet : meets k a) (rest : Levelled meets a is bs c) :
      Levelled meets a (.jcc cond k :: is) (a :: bs) c
  | jmp {k a b c is bs} (meet : meets k a) (rest : Levelled meets b is bs c) :
      Levelled meets a (.jmp k :: is) (a :: bs) c
  | ret {a b c is bs} (rest : Levelled meets b is bs c) :
      Levelled meets a (.ret :: is) (a :: bs) c

/-- What the levels say about one line at the level `a`, when `next` is the level behind it. -/
inductive LineLevel (meets : L → Level → Prop) (a : Level) (next : Option Level) :
    Instr L S → Prop
  | next {i b} (shifts : i.Shifts a b) (behind : next = some b) : LineLevel meets a next i
  | jcc {cond k} (meet : meets k a) (behind : next = some a) : LineLevel meets a next (.jcc cond k)
  | jmp {k} (meet : meets k a) : LineLevel meets a next (.jmp k)
  | ret : LineLevel meets a next .ret

section programs

variable {meets : L → Level → Prop} {a b c : Level} {is js : List (Instr L S)}
  {as bs : List Level} {i : Instr L S}

theorem Levelled.append (first : Levelled meets a is as b) (second : Levelled meets b js bs c) :
    Levelled meets a (is ++ js) (as ++ bs) c := by
  induction first with
  | nil => exact second
  | next shifts _ ih => exact .next shifts (ih second)
  | jcc meet _ ih => exact .jcc meet (ih second)
  | jmp meet _ ih => exact .jmp meet (ih second)
  | ret _ ih => exact .ret (ih second)

theorem Levelled.length (h : Levelled meets a is as b) : as.length = is.length := by
  induction h with
  | nil => rfl
  | next _ _ ih | jcc _ _ ih | jmp _ _ ih | ret _ ih => exact congrArg Nat.succ ih

theorem Levelled.start (h : Levelled meets a is as b) : (as ++ [b])[0]? = some a := by
  cases h <;> rfl

theorem Levelled.line (h : Levelled meets a is as b) {p : Nat} (line : is[p]? = some i)
    (level : (as ++ [b])[p]? = some c) : LineLevel meets c (as ++ [b])[p + 1]? i := by
  induction h generalizing p with
  | nil => cases line
  | next shifts rest ih =>
    cases p with
    | zero =>
      cases line
      cases level
      exact .next shifts rest.start
    | succ p => exact ih line level
  | jcc meet rest ih =>
    cases p with
    | zero =>
      cases line
      cases level
      exact .jcc meet rest.start
    | succ p => exact ih line level
  | jmp meet _ ih =>
    cases p with
    | zero =>
      cases line
      cases level
      exact .jmp meet
    | succ p => exact ih line level
  | ret _ ih =>
    cases p with
    | zero =>
      cases line
      cases level
      exact .ret
    | succ p => exact ih line level

/-- The registers are as the level of the line says where control is. -/
def AtLevel (base : BitVec 64) (levels : List Level) (x : Nat × State) : Prop :=
  ∃ a, levels[x.1]? = some a ∧ a.Holds base x.2

variable {base : BitVec 64}

/-- One step, where every jump meets its label at the level of the label's line. -/
theorem Levelled.step (h : Levelled meets a is as b)
    (met : ∀ k c, meets k c → ∀ p : Nat, is[p]? = some (.label k) → (as ++ [b])[p]? = some c)
    {x y : Nat × State} (level : AtLevel base (as ++ [b]) x) (step : Step env is x y) :
    AtLevel base (as ++ [b]) y := by
  obtain ⟨c, here, holds⟩ := level
  cases step with
  | next line run =>
    cases h.line line here with
    | next shifts behind => exact ⟨_, behind, shifts.exec holds run⟩
    | jcc | jmp | ret => cases run
  | jump line target =>
    cases h.line line here with
    | next shifts => exact absurd shifts not_shifts_jmp
    | jmp meet => exact ⟨c, met _ _ meet _ target, holds⟩
  | taken line test target =>
    cases h.line line here with
    | next shifts => exact absurd shifts not_shifts_jcc
    | jcc meet => exact ⟨c, met _ _ meet _ target, holds⟩
  | fall line test =>
    cases h.line line here with
    | next shifts => exact absurd shifts not_shifts_jcc
    | jcc meet behind => exact ⟨c, behind, holds⟩
  | call line back =>
    cases h.line line here with
    | next shifts behind =>
      cases shifts with
      | keeps keeps => cases keeps
      | call => exact ⟨c, behind, holds.returns back⟩
  | callReg line back =>
    cases h.line line here with
    | next shifts behind =>
      cases shifts with
      | keeps keeps => cases keeps
      | callReg => exact ⟨c, behind, holds.returns back⟩

/-- A whole run. -/
theorem Levelled.run (h : Levelled meets a is as b)
    (met : ∀ k c, meets k c → ∀ p : Nat, is[p]? = some (.label k) → (as ++ [b])[p]? = some c)
    {x y : Nat × State} (level : AtLevel base (as ++ [b]) x) (run : Run env is x y) :
    AtLevel base (as ++ [b]) y := by
  induction run with
  | refl => exact level
  | tail _ step ih => exact h.step met ih step

end programs

end X86
