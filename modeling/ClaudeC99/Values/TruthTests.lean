import ClaudeC99.Values.BitFields
import ClaudeC99.Values.Layout

/-! Which bits the truth tests look at, against those that hold the value. -/

namespace ClaudeC99

open X86 StateExcept
open IntArith (IntType)

/-- Where a value is: in the low bits of `rax`, or in `xmm0`. -/
inductive Place
  | low (bits : Nat)
  | xmm0 (p : FpWidth)
  deriving DecidableEq

/-- Whether what is there compares unequal to 0. -/
def Place.nonzero (env : Env Symbol) (σ : State) : Place → Bool
  | .low bits => (σ.reg .rax).setWidth bits != 0
  | .xmm0 p => env.fpu.compare p ((σ.xmm 0).setWidth p.bits) 0 != .equal

/-- A scalar value is there, and this is whether it compares unequal to 0. The caller of a function
that returns a type below `int` knows nothing of the other bits of `eax`. -/
inductive Shows (env : Env Symbol) (σ : State) : Place → Bool → Prop
  | integer {t : IntType} {v : Int} (carries : Carries σ t v) :
    Shows env σ (.low (regWidth t).bits) (v ≠ 0)
  | returned {t : IntType} {v : Int} (inType : t.Holds v)
      (low : (σ.reg .rax).setWidth (8 * storageSize t) = BitVec.ofInt _ v) :
    Shows env σ (.low (8 * storageSize t)) (v ≠ 0)
  | pointer (p : BitVec 64) (inReg : σ.reg .rax = p) : Shows env σ (.low 64) (p ≠ 0)
  | floating (p : FpWidth) (x : BitVec p.bits) (inReg : (σ.xmm 0).setWidth p.bits = x) :
    Shows env σ (.xmm0 p) (env.fpu.compare p x 0 ≠ .equal)

/-- A test of the bits at `seen` tells what is at `whole`: it misses no bit that is set, and sees no
stale one where the value is 0. -/
def Place.TellsOf (env : Env Symbol) (σ : State) : Place → Place → Prop
  | .low n, .low m => (σ.reg .rax).setWidth (min n m) = 0 → (σ.reg .rax).setWidth (max n m) = 0
  | seen, whole => seen.nonzero env σ = whole.nonzero env σ

/-- The constructs that test an operand. -/
inductive TestSite
  | ifStmt (thenBody : Stmt) (elseBody : Option Stmt)
  | whileStmt (body : Stmt)
  | doWhileStmt (body : Stmt)
  | forStmt (init : Option Stmt) (update : Option Expr) (body : Stmt)
  | conditional (thenExpr elseExpr : Expr)
  | andLeft (right : Expr) (declType : TypeKind)
  | andRight (left : Expr) (declType : TypeKind)
  | orLeft (right : Expr) (declType : TypeKind)
  | orRight (left : Expr) (declType : TypeKind)
  | not

/-- A test ends in a jump on the truth value it names, or leaves 1 in `eax` for that value. -/
inductive TestResult
  | jump (onTrue : Bool) (target : LabelKind)
  | value (onTrue : Bool)

def TestResult.cond (onTrue : Bool) : Cond := if onTrue then .ne else .e

def TestResult.branch (id : Nat) : TestResult → List Asm
  | .jump onTrue target => [.jcc (cond onTrue) (.numbered target id)]
  | .value _ => []

/-- The operand is taken for true or false in the state behind the test. -/
def TestResult.Reports (τ : State) (truth : Bool) : TestResult → Prop
  | .jump onTrue _ => (cond onTrue).holds τ.flags = (truth == onTrue)
  | .value onTrue => low32 τ .rax = if truth = onTrue then 1 else 0

/-- The code of `!`. -/
def notCode (kind : TypeKind) : List Asm :=
  if typeIsFp kind then genFloatingNot kind else (genIntegerUnary .bang kind).1

namespace TestSite

/-- The construct around the operand. -/
def generator (node : List Nat) (e : Expr) : TestSite → Gen Unit
  | ifStmt thenBody elseBody => codegenStatement node (.ifStmt e thenBody elseBody)
  | whileStmt body => codegenStatement node (.whileStmt e body)
  | doWhileStmt body => codegenStatement node (.doWhileStmt body e)
  | forStmt init update body => codegenStatement node (.forStmt init (some e) update body)
  | conditional thenExpr elseExpr => do
    let _ ← codegenExpression (.conditional e thenExpr elseExpr)
  | andLeft right declType => do
    let _ ← codegenExpression (.binaryOp .logicalAnd e right declType)
  | andRight left declType => do
    let _ ← codegenExpression (.binaryOp .logicalAnd left e declType)
  | orLeft right declType => do
    let _ ← codegenExpression (.binaryOp .logicalOr e right declType)
  | orRight left declType => do
    let _ ← codegenExpression (.binaryOp .logicalOr left e declType)
  | not => do
    let _ ← codegenExpression (.unaryOp .bang e)

/-- The code between the operand and the jump. -/
def test (kind : TypeKind) : TestSite → List Asm
  | ifStmt _ _ | whileStmt _ | doWhileStmt _ | forStmt _ _ _ => emitCondCmpZero kind
  | conditional _ _ => emitConditionalTest kind
  | andLeft _ _ | orLeft _ _ => emitLogicalTest kind
  | andRight _ _ | orRight _ _ => emitLogicalTest kind ++ [.setcc .ne .rax, movzxEaxAl]
  | not => notCode kind

def result : TestSite → TestResult
  | ifStmt _ none => .jump false .endIf
  | ifStmt _ (some _) => .jump false .elseBranch
  | whileStmt _ => .jump false .whileEnd
  | doWhileStmt _ => .jump true .doStart
  | forStmt _ _ _ => .jump false .forEnd
  | conditional _ _ => .jump false .condFalse
  | andLeft _ _ => .jump false .andFalse
  | orLeft _ _ => .jump true .orTrue
  | andRight _ _ | orRight _ _ => .value true
  | not => .value false

/-- `?:` and `!` know that pointers have 64 bits, the other tests only that `long` has. -/
def wide (kind : TypeKind) : TestSite → Bool
  | conditional _ _ | not => kind = .long ∨ kind = .pointer
  | _ => kind = .long

/-- What the test looks at. -/
def looksAt (kind : TypeKind) (site : TestSite) : Place :=
  if typeIsFp kind then .xmm0 (fpWidth kind) else .low (if site.wide kind then 64 else 32)

/-- The test takes the operand for this truth value. -/
def Tells (env : Env Symbol) (kind : TypeKind) (σ : State) (truth : Bool) (site : TestSite) : Prop :=
  ∃ τ touched, Runs env (site.test kind) σ τ touched ∧ site.result.Reports τ truth

end TestSite

/-! ### The test code -/

section code

variable {env : Env Symbol} {σ : State} {kind : TypeKind}

/-- The zero flag says that what is there compares equal to 0. -/
def SetsZero (env : Env Symbol) (σ : State) (code : List Asm) (place : Place) : Prop :=
  ∃ τ touched, Runs env code σ τ touched ∧ τ.flags.zf = !place.nonzero env σ

theorem setsZero_cmp (env : Env Symbol) (σ : State) (w : Width) :
    SetsZero env σ [aluImm .cmp w .rax 0] (.low w.bits) := by
  refine ⟨_, _, ⟨rfl, rfl⟩, ?_⟩
  change (σ.get w .rax - BitVec.ofInt w.bits 0 == 0) = !((σ.reg .rax).setWidth w.bits != 0)
  have zero : BitVec.ofInt w.bits 0 = 0 := by simp
  have minus (x : BitVec w.bits) : x - 0 = x := by simp
  rw [zero, minus, bne, Bool.not_not, State.get]

theorem get_set_byte (σ : State) (r : Reg) (b : BitVec 8) : (σ.set .byte r b).get .byte r = b := by
  change ((σ.setFull r (σ.reg r >>> 8 <<< 8 ||| b.setWidth 64)).reg r).setWidth 8 = b
  rw [State.setFull_reg_self]
  apply BitVec.eq_of_getLsbD_eq
  intro i inside
  simp [inside]

theorem get_set_byte_ne (σ : State) {r q : Reg} (ne : q ≠ r) (b : BitVec 8) :
    (σ.set .byte r b).get .byte q = σ.get .byte q := by
  change ((σ.setFull r (σ.reg r >>> 8 <<< 8 ||| b.setWidth 64)).reg q).setWidth 8 = _
  rw [State.setFull_reg_of_ne _ _ ne]
  rfl

/-- What `setcc` writes. -/
def bit (b : Bool) : BitVec 8 := if b then 1 else 0

/-- `setcc al`, `setcc cl` and their combination, widened. -/
theorem runs_flagPair (env : Env Symbol) (σ : State) (c d : Cond) (op : Alu)
    (writes : op.writes = true) :
    ∃ τ touched, Runs env [.setcc c .rax, .setcc d .rcx, aluReg op .byte .rax .rcx, movzxRaxAl] σ τ
      touched ∧ τ.reg .rax =
        (op.result (bit (c.holds σ.flags)) (bit (d.holds σ.flags))).setWidth 64 := by
  let first := σ.set .byte .rax (bit (c.holds σ.flags))
  let second := first.set .byte .rcx (bit (d.holds σ.flags))
  have al : second.get .byte .rax = bit (c.holds σ.flags) := by
    rw [get_set_byte_ne first (by decide), get_set_byte]
  have cl : second.get .byte .rcx = bit (d.holds σ.flags) := get_set_byte first .rcx _
  refine ⟨_, _, ⟨rfl, rfl⟩, ?_⟩
  rw [if_pos writes]
  change (((State.set _ .byte .rax
    (op.result (second.get .byte .rax) (second.get .byte .rcx))).get .byte .rax).setWidth 64).setWidth
      64 = _
  rw [al, cl]
  exact (congrArg (fun b : BitVec 8 => (b.setWidth 64).setWidth 64) (get_set_byte _ .rax _)).trans
    (BitVec.setWidth_eq _)

/-- `xorps`/`xorpd` and the comparison with the zero that it makes. -/
theorem runs_compareZero (env : Env Symbol) (σ : State) (p : FpWidth) :
    ∃ τ touched, Runs env [(.fxor p 1 (.xmm 1) : Asm), .ucomi p 0 1] σ τ touched ∧
      τ.flags = (env.fpu.compare p ((σ.xmm 0).setWidth p.bits) 0).flags := by
  have cleared : (σ.xmm 1 >>> p.bits <<< p.bits |||
      ((σ.xmm 1).setWidth p.bits ^^^ (σ.xmm 1).setWidth p.bits).setWidth 128).setWidth p.bits = 0 := by
    rw [BitVec.xor_self]
    apply BitVec.eq_of_getLsbD_eq
    intro i inside
    simp [inside]
  refine ⟨_, _, ⟨rfl, rfl⟩, ?_⟩
  change (env.fpu.compare p ((σ.xmm 0).setWidth p.bits) (BitVec.setWidth p.bits _)).flags = _
  exact congrArg (fun x => (env.fpu.compare p _ x).flags) cleared

theorem fpBool_flags (order : FpOrder) :
    Alu.result .or (bit (Cond.holds order.flags .ne)) (bit (Cond.holds order.flags .p)) =
      bit (order != .equal) := by
  cases order <;> decide

theorem fpNot_flags (order : FpOrder) :
    Alu.result .and (bit (Cond.holds order.flags .e)) (bit (Cond.holds order.flags .np)) =
      bit (!(order != .equal)) := by
  cases order <;> decide

theorem runs_floatTest (env : Env Symbol) (σ : State) (p : FpWidth) (c d : Cond) (op : Alu)
    (writes : op.writes = true) {b : Bool}
    (combined : ∀ order : FpOrder, order = env.fpu.compare p ((σ.xmm 0).setWidth p.bits) 0 →
      op.result (bit (c.holds order.flags)) (bit (d.holds order.flags)) = bit b) :
    ∃ τ touched, Runs env [.fxor p 1 (.xmm 1), .ucomi p 0 1, .setcc c .rax, .setcc d .rcx,
      aluReg op .byte .rax .rcx, movzxRaxAl] σ τ touched ∧ τ.reg .rax = (bit b).setWidth 64 := by
  obtain ⟨τ, touched, compares, flags⟩ := runs_compareZero env σ p
  obtain ⟨τ', touched', combines, rax⟩ := runs_flagPair env τ c d op writes
  refine ⟨τ', _, compares.append combines, ?_⟩
  rw [rax, flags, combined _ rfl]

theorem fpWidth_eq (floating : typeIsFp kind = true) :
    (if kind = .double then FpWidth.double else .single) = fpWidth kind := by
  cases kind <;> first | rfl | cases floating

theorem runs_fpBool (env : Env Symbol) (σ : State) (floating : typeIsFp kind = true) :
    ∃ τ touched, Runs env (emitFpBoolToRax kind) σ τ touched ∧
      τ.reg .rax = (bit ((Place.xmm0 (fpWidth kind)).nonzero env σ)).setWidth 64 := by
  rw [emitFpBoolToRax, fpWidth_eq floating]
  exact runs_floatTest env σ (fpWidth kind) .ne .p .or rfl fun order same => by
    rw [fpBool_flags, same, Place.nonzero]

theorem runs_fpNot (env : Env Symbol) (σ : State) (floating : typeIsFp kind = true) :
    ∃ τ touched, Runs env (genFloatingNot kind) σ τ touched ∧
      τ.reg .rax = (bit (!(Place.xmm0 (fpWidth kind)).nonzero env σ)).setWidth 64 := by
  rw [genFloatingNot, fpWidth_eq floating]
  exact runs_floatTest env σ (fpWidth kind) .e .np .and rfl fun order same => by
    rw [fpNot_flags, same, Place.nonzero]

/-- The truth value in `rax` is tested in its turn. -/
theorem setsZero_fpBool (env : Env Symbol) (σ : State) (floating : typeIsFp kind = true)
    {rest : List Asm} {bits : Nat} (wide : bits = 32 ∨ bits = 64)
    (tests : ∀ τ, SetsZero env τ rest (.low bits)) :
    SetsZero env σ (emitFpBoolToRax kind ++ rest) (.xmm0 (fpWidth kind)) := by
  obtain ⟨τ, touched, converts, rax⟩ := runs_fpBool env σ floating
  obtain ⟨τ', touched', compares, zero⟩ := tests τ
  refine ⟨τ', _, converts.append compares, ?_⟩
  rw [zero, Place.nonzero, rax]
  generalize (Place.xmm0 (fpWidth kind)).nonzero env σ = b
  rcases wide with rfl | rfl <;> cases b <;> decide

theorem setsZero_test (env : Env Symbol) (σ : State) :
    SetsZero env σ [aluReg .test .qword .rax .rax] (.low 64) := by
  refine ⟨_, _, ⟨rfl, rfl⟩, ?_⟩
  change (σ.get .qword .rax &&& σ.get .qword .rax == 0) = !((σ.reg .rax).setWidth 64 != 0)
  rw [BitVec.and_self, bne, Bool.not_not]
  rfl

/-- The compare of the integer paths. -/
theorem setsZero_integer (env : Env Symbol) (σ : State) (wide : Bool) :
    SetsZero env σ [aluImm .cmp (if wide then .qword else .dword) .rax 0]
      (.low (if wide then 64 else 32)) := by
  cases wide
  · exact setsZero_cmp env σ .dword
  · exact setsZero_cmp env σ .qword

theorem setsZero_condCmpZero (env : Env Symbol) (σ : State) {site : TestSite}
    (wide : site.wide kind = decide (kind = .long)) :
    SetsZero env σ (emitCondCmpZero kind) (site.looksAt kind) := by
  have integer := setsZero_integer env σ (site.wide kind)
  unfold emitCondCmpZero TestSite.looksAt
  by_cases floating : typeIsFp kind = true
  · rw [if_pos floating, if_pos floating]
    exact setsZero_fpBool env σ floating (.inl rfl) fun τ => setsZero_cmp env τ .dword
  · rw [if_neg floating, if_neg floating]
    rw [wide] at integer ⊢
    split <;> simp_all

theorem setsZero_logicalTest (env : Env Symbol) (σ : State) {site : TestSite}
    (wide : site.wide kind = decide (kind = .long)) :
    SetsZero env σ (emitLogicalTest kind) (site.looksAt kind) := by
  have integer := setsZero_integer env σ (site.wide kind)
  unfold emitLogicalTest TestSite.looksAt
  by_cases floating : typeIsFp kind = true
  · rw [if_pos floating, if_pos floating]
    exact setsZero_fpBool env σ floating (.inr rfl) fun τ => setsZero_test env τ
  · rw [if_neg floating, if_neg floating]
    rw [wide] at integer ⊢
    split <;> simp_all

theorem setsZero_conditionalTest (env : Env Symbol) (σ : State) {site : TestSite}
    (wide : site.wide kind = decide (kind = .long ∨ kind = .pointer)) :
    SetsZero env σ (emitConditionalTest kind) (site.looksAt kind) := by
  have integer := setsZero_integer env σ (site.wide kind)
  unfold emitConditionalTest TestSite.looksAt
  by_cases floating : typeIsFp kind = true
  · rw [if_pos floating, if_pos floating]
    exact setsZero_fpBool env σ floating (.inl rfl) fun τ => setsZero_cmp env τ .dword
  · rw [if_neg floating, if_neg floating]
    rw [wide] at integer ⊢
    split <;> simp_all

theorem cond_holds (onTrue : Bool) (f : Flags) :
    (TestResult.cond onTrue).holds f = ((!f.zf) == onTrue) := by
  cases onTrue
  · change f.zf = _
    cases f.zf <;> rfl
  · change (!f.zf) = _
    cases f.zf <;> rfl

/-- A flag that is set decides the jump. -/
theorem reports_jump {code : List Asm} {place : Place} (sets : SetsZero env σ code place)
    (onTrue : Bool) (target : LabelKind) : ∃ τ touched, Runs env code σ τ touched ∧
      (TestResult.jump onTrue target).Reports τ (place.nonzero env σ) := by
  obtain ⟨τ, touched, run, zero⟩ := sets
  refine ⟨τ, touched, run, ?_⟩
  rw [TestResult.Reports, cond_holds, zero, Bool.not_not]

/-- `setcc al` and `movzx eax, al`. -/
theorem runs_setcc (env : Env Symbol) (σ : State) (c : Cond) :
    ∃ τ touched, Runs env [.setcc c .rax, movzxEaxAl] σ τ touched ∧
      low32 τ .rax = (bit (c.holds σ.flags)).setWidth 32 := by
  refine ⟨_, _, ⟨rfl, rfl⟩, ?_⟩
  change ((((State.set σ .byte .rax (bit (c.holds σ.flags))).get .byte .rax).setWidth 32).setWidth
    64).setWidth 32 = _
  rw [BitVec.setWidth_setWidth_of_le _ (by decide), BitVec.setWidth_eq]
  exact congrArg (BitVec.setWidth 32) (get_set_byte σ .rax _)

theorem reports_value {code : List Asm} {place : Place} (sets : SetsZero env σ code place)
    (onTrue : Bool) : ∃ τ touched,
      Runs env (code ++ [.setcc (TestResult.cond onTrue) .rax, movzxEaxAl]) σ τ touched ∧
        (TestResult.value onTrue).Reports τ (place.nonzero env σ) := by
  obtain ⟨τ, touched, run, zero⟩ := sets
  obtain ⟨τ', touched', leaves, eax⟩ := runs_setcc env τ (TestResult.cond onTrue)
  refine ⟨τ', _, run.append leaves, ?_⟩
  rw [TestResult.Reports, eax, cond_holds, zero, Bool.not_not]
  generalize place.nonzero env σ = b
  cases b <;> cases onTrue <;> decide

theorem reports_not (env : Env Symbol) (σ : State) (kind : TypeKind) :
    ∃ τ touched, Runs env (notCode kind) σ τ touched ∧ (TestResult.value false).Reports τ
      ((TestSite.not.looksAt kind).nonzero env σ) := by
  unfold notCode TestSite.looksAt
  by_cases floating : typeIsFp kind = true
  · rw [if_pos floating, if_pos floating]
    obtain ⟨τ, touched, run, rax⟩ := runs_fpNot env σ floating
    refine ⟨τ, touched, run, ?_⟩
    rw [TestResult.Reports, low32, rax]
    generalize (Place.xmm0 (fpWidth kind)).nonzero env σ = b
    cases b <;> decide
  · rw [if_neg floating, if_neg floating]
    have integer := setsZero_integer env σ (TestSite.not.wide kind)
    have code : (genIntegerUnary .bang kind).1 =
        [aluImm .cmp (if TestSite.not.wide kind then .qword else .dword) .rax 0] ++
          [.setcc (TestResult.cond false) .rax, movzxEaxAl] := by
      simp [genIntegerUnary, TestSite.wide, TestResult.cond]
    rw [code]
    exact reports_value integer false

/-- What a test says is what stands where it looks. -/
theorem reports_test (env : Env Symbol) (σ : State) (kind : TypeKind) (site : TestSite) :
    ∃ τ touched, Runs env (site.test kind) σ τ touched ∧
      site.result.Reports τ ((site.looksAt kind).nonzero env σ) := by
  cases site with
  | ifStmt thenBody elseBody =>
    cases elseBody with
    | none => exact reports_jump (setsZero_condCmpZero env σ rfl) false .endIf
    | some _ => exact reports_jump (setsZero_condCmpZero env σ rfl) false .elseBranch
  | whileStmt => exact reports_jump (setsZero_condCmpZero env σ rfl) false .whileEnd
  | doWhileStmt => exact reports_jump (setsZero_condCmpZero env σ rfl) true .doStart
  | forStmt => exact reports_jump (setsZero_condCmpZero env σ rfl) false .forEnd
  | conditional => exact reports_jump (setsZero_conditionalTest env σ rfl) false .condFalse
  | andLeft => exact reports_jump (setsZero_logicalTest env σ rfl) false .andFalse
  | orLeft => exact reports_jump (setsZero_logicalTest env σ rfl) true .orTrue
  | andRight => exact reports_value (setsZero_logicalTest env σ rfl) true
  | orRight => exact reports_value (setsZero_logicalTest env σ rfl) true
  | not => exact reports_not env σ kind

theorem TestResult.reports_inj {r : TestResult} {τ : State} {b b' : Bool} (first : r.Reports τ b)
    (second : r.Reports τ b') : b = b' := by
  cases r with
  | jump onTrue target =>
    have same := first.symm.trans second
    revert same
    cases b <;> cases b' <;> cases onTrue <;> decide
  | value onTrue =>
    have same := first.symm.trans second
    revert same
    cases b <;> cases b' <;> cases onTrue <;> decide

theorem TestSite.tells_iff_nonzero {site : TestSite} {truth : Bool} :
    site.Tells env kind σ truth ↔ (site.looksAt kind).nonzero env σ = truth := by
  obtain ⟨τ, touched, run, reports⟩ := reports_test env σ kind site
  constructor
  · rintro ⟨τ', touched', run', reports'⟩
    obtain ⟨rfl, -⟩ := run.unique run'
    exact TestResult.reports_inj reports reports'
  · rintro rfl
    exact ⟨τ, touched, run, reports⟩

theorem ofInt_ne_zero {t : IntType} {v : Int} {bits : Nat} (inType : t.Holds v)
    (enough : t.width ≤ bits) : (BitVec.ofInt bits v != 0) = decide (v ≠ 0) := by
  have width : 0 < t.width := by
    have member := t.width_mem
    simp only [List.mem_cons, List.not_mem_nil, or_false] at member
    omega
  have half : (2 : Int) ^ (bits - 1) < 2 ^ bits := by
    exact_mod_cast Nat.pow_lt_pow_right (by decide) (show bits - 1 < bits by omega)
  have same : BitVec.ofInt bits v = 0 ↔ v = 0 := by
    constructor
    · intro zero
      have multiple : v % (2 ^ bits : Nat) = 0 % (2 ^ bits : Nat) :=
        ofInt_eq_iff.mp (zero.trans (by simp))
      obtain ⟨low, high⟩ := inType.bounds enough
      apply Int.eq_zero_of_dvd_of_natAbs_lt_natAbs (Int.dvd_of_emod_eq_zero multiple)
      push_cast
      omega
    · rintro rfl
      simp
  rw [Bool.eq_iff_iff, bne_iff_ne, decide_eq_true_iff, Ne, same]

theorem width_le_regWidth (t : IntType) : t.width ≤ (regWidth t).bits := by
  have member := t.width_mem
  simp only [List.mem_cons, List.not_mem_nil, or_false] at member
  have wide : Width.qword.bits = 64 := rfl
  have narrow : Width.dword.bits = 32 := rfl
  unfold regWidth
  split <;> omega

theorem width_le_storageSize (t : IntType) : t.width ≤ 8 * storageSize t := by
  rw [IntType.width, storageSize]
  cases t.rank <;> decide

theorem Shows.nonzero {place : Place} {truth : Bool} (value : Shows env σ place truth) :
    place.nonzero env σ = truth := by
  cases value with
  | @integer t v carries =>
    rw [Place.nonzero, ← ofInt_ne_zero carries.inType (width_le_regWidth t)]
    exact congrArg (· != 0) carries.inReg
  | @returned t v inType low =>
    rw [Place.nonzero, low]
    exact ofInt_ne_zero inType (width_le_storageSize t)
  | pointer p inReg =>
    rw [Place.nonzero, inReg, BitVec.setWidth_eq, Bool.eq_iff_iff, bne_iff_ne, decide_eq_true_iff]
  | floating p x inReg =>
    rw [Place.nonzero, inReg, Bool.eq_iff_iff, bne_iff_ne, decide_eq_true_iff]

/-- The low bits are zero when more of them are. -/
theorem low_zero {x : BitVec 64} {n m : Nat} (le : n ≤ m) (zero : x.setWidth m = 0) :
    x.setWidth n = 0 := by
  rw [← BitVec.setWidth_setWidth_of_le x le, zero]
  simp

theorem tellsOf_iff {seen whole : Place} :
    seen.TellsOf env σ whole ↔ seen.nonzero env σ = whole.nonzero env σ := by
  cases seen with
  | xmm0 p => exact Iff.rfl
  | low n =>
    cases whole with
    | xmm0 p => exact Iff.rfl
    | low m =>
      rw [Place.TellsOf, Place.nonzero, Place.nonzero, Bool.eq_iff_iff, bne_iff_ne, bne_iff_ne]
      rcases Nat.le_total n m with le | le
      · rw [min_eq_left le, max_eq_right le]
        have fewer := low_zero (x := σ.reg .rax) le
        tauto
      · rw [min_eq_right le, max_eq_left le]
        have fewer := low_zero (x := σ.reg .rax) le
        tauto

/-- A test is right exactly where it can tell what stands where the value is. -/
theorem TestSite.tells_iff {site : TestSite} {place : Place} {truth : Bool}
    (value : Shows env σ place truth) :
    site.Tells env kind σ truth ↔ (site.looksAt kind).TellsOf env σ place := by
  rw [tells_iff_nonzero, tellsOf_iff, value.nonzero]

end code

/-! ### Where the tests stand -/

section layout

variable {e : Expr} {node : List Nat}

/-- What a construct prints behind the operand that it tests. -/
def TestSite.Form (site : TestSite) (kind : TypeKind) (code : List Asm) : Prop :=
  ∃ id, code = site.test kind ++ site.result.branch id

theorem embeds_branch {site : TestSite} {code : TypeKind → List Asm} {id : Nat} {i : Asm}
    (own : ∀ kind, site.test kind = code kind) (jump : site.result.branch id = [i]) :
    Embeds e site.Form (withCode e code >>= fun _ => emit i) := by
  refine .emit fun kind => ⟨id, ?_⟩
  rw [own, jump]

/-- A test that a jump follows, in front of the rest of a construct. -/
theorem embeds_first {site : TestSite} {α : Type} {code : TypeKind → List Asm} {id : Nat} {i : Asm}
    {rest : Gen α} (own : ∀ kind, site.test kind = code kind) (jump : site.result.branch id = [i])
    (adds : AddsCode rest) :
    Embeds e site.Form (do
      withCode e code
      emit i
      rest) := by
  have whole := (embeds_branch (e := e) own jump).before fun _ => adds
  rwa [bind_assoc] at whole

theorem addsCode_evalBranch (commonFp : TypeKind) (e : Expr) :
    AddsCode (evalBranch commonFp (codegen e)) :=
  .bind (.expression e) fun _ => .bind (.emitAll _) fun _ => .pure _

theorem addsCode_conditionalAnn (commonFp : TypeKind) (thenExpr elseExpr : Expr) (a b : Ann) :
    AddsCode (conditionalAnn commonFp thenExpr elseExpr a b) := by
  unfold conditionalAnn
  repeat' split
  all_goals first | exact .pure _ | exact .throw _

/-- The rest of a two-way branch. -/
theorem addsCode_branches {α β : Type} {first : Gen α} {second : Gen β} (k₁ k₂ : LabelKind) (id : Nat)
    (left : AddsCode first) (right : AddsCode second) : AddsCode (do
      let x ← first
      emitJmp k₂ id
      emitLabel k₁ id
      let y ← second
      emitLabel k₂ id
      pure (x, y)) := by
  refine .bind left fun x => .bind (.emit _) fun _ => .bind (.emit _) fun _ => ?_
  exact .bind right fun y => .bind (.emit _) fun _ => .pure _

theorem addsCode_test (code : TypeKind → List Asm) (e : Expr) : AddsCode (withCode e code) :=
  .bind (.expression e) fun _ => .emitAll _

theorem addsCode_evalSecondOperand (e : Expr) : AddsCode (evalSecondOperand (codegen e)) :=
  .bind (addsCode_test emitLogicalTest e) fun _ => .emitAll _

/-- The left operand of `&&` or `||`. -/
theorem embeds_left {site : TestSite} {right : Expr} {short : Cond} {k₁ k₂ : LabelKind} {n : Int}
    (own : ∀ kind, site.test kind = emitLogicalTest kind)
    (jump : ∀ id, site.result.branch id = [.jcc short (.numbered k₁ id)]) :
    Embeds e site.Form (do
      let _ ← genLogical short k₁ k₂ n (codegen e) (codegen right)) := by
  refine .before ?_ fun _ => .pure ()
  refine .after .newLabel fun id => .before ?_ fun _ => .pure _
  exact embeds_first own (jump id) (addsCode_branches _ _ _ (addsCode_evalSecondOperand right) (.emit _))

theorem embeds_right {site : TestSite} {left : Expr} {short : Cond} {k₁ k₂ : LabelKind} {n : Int}
    (own : ∀ kind, site.test kind = emitLogicalTest kind ++ [.setcc .ne .rax, movzxEaxAl])
    (value : ∀ id, site.result.branch id = []) :
    Embeds e site.Form (do
      let _ ← genLogical short k₁ k₂ n (codegen left) (codegen e)) := by
  refine .before ?_ fun _ => .pure ()
  refine .after .newLabel fun id => .before ?_ fun _ => .pure _
  refine .after (addsCode_test emitLogicalTest left) fun _ => .after (.emit _) fun _ => ?_
  refine .before ?_ fun _ => ?_
  · refine .emitAll fun kind => ⟨id, ?_⟩
    rw [own, value, List.append_nil]
  · refine .bind (.emit _) fun _ => .bind (.emit _) fun _ => .bind (.emit _) fun _ => ?_
    exact .bind (.emit _) fun _ => .pure _

theorem yields_not {cg cg' : CodeGen} {x : Ann}
    (run : Yields (genUnaryOp .bang (codegen e)) cg x cg') :
    ∃ a mid, Yields (codegenExpression e) cg a mid ∧ mid.print (notCode a.resultType) = cg' := by
  obtain ⟨a, mid, operand, rest⟩ := yields_bind.mp run
  refine ⟨a, mid, operand, ?_⟩
  unfold notCode
  by_cases floating : typeIsFp a.resultType = true
  · rw [if_pos floating] at rest ⊢
    obtain ⟨_, _, print, done⟩ := yields_bind.mp rest
    exact (yields_emitAll.mp print).trans (yields_pure.mp done).2
  · rw [if_neg floating] at rest ⊢
    obtain ⟨_, _, check, rest⟩ := yields_bind.mp rest
    have allowed : ¬ (UnaryOp.bang = .tilde ∧ a.resultType = .pointer) := fun both => by cases both.1
    rw [errorIf, if_neg allowed] at check
    obtain ⟨-, rfl⟩ := yields_pure.mp check
    obtain ⟨_, _, print, done⟩ := yields_bind.mp rest
    exact (yields_emitAll.mp print).trans (yields_pure.mp done).2

theorem embeds_not : Embeds e TestSite.not.Form (TestSite.not.generator node e) := by
  intro cg x cg' run
  obtain ⟨b, last, inner, done⟩ := yields_bind.mp run
  obtain ⟨-, rfl⟩ := yields_pure.mp done
  obtain ⟨a, mid, operand, rfl⟩ := yields_not inner
  refine ⟨cg, a, mid, [], notCode a.resultType, [], (List.append_nil _).symm, operand,
    ⟨0, (List.append_nil _).symm⟩, ?_⟩
  rw [code_print, List.append_nil]

theorem embeds_site (site : TestSite) : Embeds e site.Form (site.generator node e) := by
  cases site with
  | ifStmt thenBody elseBody =>
    cases elseBody with
    | none =>
      refine .after .newLabel fun id => embeds_first (fun _ => rfl) rfl ?_
      exact .bind (.statement _ _) fun _ => .emit _
    | some elseBody =>
      refine .after .newLabel fun id => embeds_first (fun _ => rfl) rfl ?_
      refine .bind (.statement _ _) fun _ => .bind (.emit _) fun _ => .bind (.emit _) fun _ => ?_
      exact .bind (.statement _ _) fun _ => .emit _
  | whileStmt body =>
    refine .after .newLabel fun id => .after (.modify fun _ => rfl) fun _ => ?_
    refine .after (.emit _) fun _ => .after (.emit _) fun _ => embeds_first (fun _ => rfl) rfl ?_
    refine .bind (.statement _ _) fun _ => .bind (.emit _) fun _ => ?_
    exact .bind (.emit _) fun _ => .bind (.emit _) fun _ => .modify fun _ => rfl
  | doWhileStmt body =>
    refine .after .newLabel fun id => .after (.modify fun _ => rfl) fun _ => ?_
    refine .after (.emit _) fun _ => .after (.statement _ _) fun _ => .after (.emit _) fun _ => ?_
    refine embeds_first (fun _ => rfl) rfl ?_
    exact .bind (.emit _) fun _ => .bind (.emit _) fun _ => .modify fun _ => rfl
  | forStmt init update body =>
    refine .after .newLabel fun id => .after (.modify fun _ => rfl) fun _ => .inScope ?_
    refine .after (.forInit _ _) fun _ => .after (.emit _) fun _ => ?_
    refine .before (embeds_branch (fun _ => rfl) rfl) fun _ => .bind (.statement _ _) fun _ => ?_
    refine .bind (.emit _) fun _ => .bind (.genForUpdate _) fun _ => .bind (.emit _) fun _ => ?_
    exact .bind (.emit _) fun _ => .bind (.emit _) fun _ => .modify fun _ => rfl
  | conditional thenExpr elseExpr =>
    refine .before ?_ fun _ => .pure ()
    refine .after .newLabel fun id => .after .get fun cg => .before ?_ fun _ => ?_
    · exact embeds_first (fun _ => rfl) rfl
        (addsCode_branches _ _ _ (addsCode_evalBranch _ _) (addsCode_evalBranch _ _))
    · exact addsCode_conditionalAnn _ _ _ _ _
  | andLeft right declType => exact embeds_left (fun _ => rfl) fun _ => rfl
  | orLeft right declType => exact embeds_left (fun _ => rfl) fun _ => rfl
  | andRight left declType => exact embeds_right (fun _ => rfl) fun _ => rfl
  | orRight left declType => exact embeds_right (fun _ => rfl) fun _ => rfl
  | not => exact embeds_not

/-- The code behind an operand takes it for what it is exactly where its test can tell. -/
theorem truth_iff {site : TestSite} {cg cg' : CodeGen} (run : Yields (site.generator node e) cg () cg') :
    ∃ start a mid before id after, start.code = cg.code ++ before ∧
      Yields (codegenExpression e) start a mid ∧
      cg'.code = mid.code ++ (site.test a.resultType ++ site.result.branch id) ++ after ∧
      ∀ env σ place truth, Shows env σ place truth →
        (site.Tells env a.resultType σ truth ↔ (site.looksAt a.resultType).TellsOf env σ place) := by
  obtain ⟨start, a, mid, before, _, after, begins, operand, ⟨id, rfl⟩, ends⟩ :=
    embeds_site site cg () cg' run
  exact ⟨start, a, mid, before, id, after, begins, operand, ends, fun _ _ _ _ => site.tells_iff⟩

end layout

/-- `if (e) ;` -/
def ifAlone (e : Expr) : Gen Unit := TestSite.generator [] e (.ifStmt (.block []) none)

/-- `if (5) ;` -/
theorem ifLiteral_tells : ∃ cg', Yields (ifAlone (.intLiteral (.dec 5) .int false))
      (codegenInit [] fun _ => []) () cg' ∧
    ∀ σ v, Carries σ .int v →
      (TestSite.ifStmt (.block []) none).Tells sampleEnv .int σ (v ≠ 0) := by
  refine ⟨_, rfl, fun σ v carries => ?_⟩
  have run : Yields (ifAlone (.intLiteral (.dec 5) .int false)) (codegenInit [] fun _ => []) () _ := rfl
  obtain ⟨start, a, mid, before, id, after, -, operand, -, tells⟩ := truth_iff run
  obtain ⟨_, _, -, done⟩ := yields_bind.mp operand
  obtain ⟨rfl, -⟩ := yields_pure.mp done
  exact (tells sampleEnv σ _ _ (.integer carries)).mpr fun zero => zero

/-- A function with the variable `int *p` in the eight bytes at `rbp - 48`. -/
def functionWithP : CodeGen :=
  { codegenInit [] fun _ => [] with
    locals := [{
      name := "p", offset := 48, size := 8, kind := .pointer, fullType := some (.typePointer .typeInt)
      isConst := false, isUnsigned := false, isStatic := false, staticLabel := .named ""
      isRegister := false }] }

/-- The bytes of `p` hold 2 ^ 32. -/
def stateWithP : State :=
  { stateWith 0 0 0 with reg := fun _ => 48, mem := Mem.storeNat (fun _ => 0) 0 8 (2 ^ 32) }

/-- `if (p) ;` when `p` is not null, but the lower half of the address is 0. -/
theorem ifPointer_not_right : ∃ cg' σ touched,
    Yields (ifAlone (.varRef "p")) functionWithP () cg' ∧
    [movMem .qword .rax (frame 48)] ++ (TestSite.ifStmt (.block []) none).test .pointer <+: cg'.code ∧
    Runs sampleEnv [movMem .qword .rax (frame 48)] stateWithP σ touched ∧
    Shows sampleEnv σ (.low 64) true ∧
    ¬ (TestSite.ifStmt (.block []) none).Tells sampleEnv .pointer σ true := by
  have load : (stateWithP.setFull .rax (stateWithP.load .qword
      (stateWithP.ea sampleEnv (frame 48)))).reg .rax = 4294967296 := by decide +kernel
  obtain ⟨cg', run, printed⟩ := exists_output
    (show (ifAlone (.varRef "p") functionWithP).isOk = true by decide +kernel)
  refine ⟨cg', _, _, run, ?_, ⟨rfl, rfl⟩, .pointer 4294967296 load, ?_⟩
  · rw [CodeGen.code, printed]
    decide +kernel
  · rw [TestSite.tells_iff_nonzero]
    change ¬ (((stateWithP.setFull .rax (stateWithP.load .qword
      (stateWithP.ea sampleEnv (frame 48)))).reg .rax).setWidth 32 != 0) = true
    rw [load]
    decide

end ClaudeC99
