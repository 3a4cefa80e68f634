import ClaudeC99.Values.Conversions
import ClaudeC99.Values.Layout

/-! What a conditional expression leaves behind on either path, against the common type of its
arms. -/

namespace ClaudeC99

open X86 StateExcept
open IntArith (IntType)

/-- The type of an arm, as far as the choice of the result depends on it. -/
inductive ArmType
  | integer (t : IntType)
  | floating (p : FpWidth)
  | pointer
  | record

/-- The type of `c ? a : b`; an integer beside a pointer is a null pointer constant. -/
def ArmType.result : ArmType → ArmType → Option ArmType
  | integer s, integer t => some (integer (s.common t))
  | integer _, floating p | floating p, integer _ => some (floating p)
  | floating p, floating q => some (floating (if p = .single then q else p))
  | pointer, pointer | pointer, integer _ | integer _, pointer => some pointer
  | record, record => some record
  | _, _ => none

def fpKind : FpWidth → TypeKind
  | .single => .float
  | .double => .double

/-- The kind on the node of an arm. -/
def RecordedArm (kind : TypeKind) : ArmType → Prop
  | .integer t => RecordedAs t kind
  | .floating p => kind = fpKind p
  | .pointer => kind = .pointer
  | .record => isStructOrUnionKind kind = true

/-- The node tells its consumer the type. -/
def Announces (a : Ann) : ArmType → Prop
  | .integer t => RecordedAs t a.resultType ∧ a.isUnsigned = !t.signed
  | .floating p => a.resultType = fpKind p ∧ a.isUnsigned = false
  | .pointer => a.resultType = .pointer ∧ a.isUnsigned = false
  | .record => isStructOrUnionKind a.resultType = true

/-- What an arm left in `σ` as a value of its type is in `σ'` as a value of the result type. -/
def Converted (env : Env Symbol) (σ σ' : State) : ArmType → ArmType → Prop
  | .integer s, .integer r => ∀ v, Carries σ s v → Carries σ' r (r.convert v)
  | .integer s, .floating p => ∀ v, Carries σ s v →
    ∃ x : BitVec 64, x.toInt = v ∧ (σ'.xmm 0).setWidth p.bits = env.fpu.ofInt p x
  | .integer s, .pointer => ∀ v, Carries σ s v → σ'.reg .rax = BitVec.ofInt 64 v
  | .floating .single, .floating .double =>
    (σ'.xmm 0).setWidth 64 = env.fpu.widen ((σ.xmm 0).setWidth 32)
  | .floating p, .floating q =>
    p = q ∧ (σ'.xmm 0).setWidth p.bits = (σ.xmm 0).setWidth p.bits
  | .pointer, .pointer => σ'.reg .rax = σ.reg .rax
  | _, _ => False

/-- The number in `eax` fills `rax` as well. -/
def Fills (σ : State) (t : IntType) (v : Int) : Prop :=
  t.width = 64 ∨ (σ.reg .rax).toNat / 2 ^ 32 = if v < 0 then 2 ^ 32 - 1 else 0

/-- The floating kind, if any, that the arms are brought to. -/
def armFp (cg : CodeGen) (a b : Expr) : TypeKind :=
  conditionalFpKind { cg with labelCount := cg.labelCount + 1 } a b

/-- The three operands are generated one behind the other. -/
structure OperandRuns (cg : CodeGen) (c a b : Expr) (test left right : Ann) (m₀ m₁ m₂ : CodeGen) :
    Prop where
  condition : Yields (codegenExpression c) { cg with labelCount := cg.labelCount + 1 } test m₀
  thenArm : Yields (codegenExpression a) (m₀.print (emitConditionalTest test.resultType ++
    [.jcc .e (.numbered .condFalse cg.labelCount)])) left m₁
  elseArm : Yields (codegenExpression b) (m₁.print (widenBranch (armFp cg a b) left.resultType ++
    [.jmp (.numbered .condEnd cg.labelCount), .label (.numbered .condFalse cg.labelCount)])) right m₂

/-- The conditional is accepted, its node tells the result type, and the code behind the arm brings
the arm's value into that type. -/
def ArmGives (cg : CodeGen) (c a b : Expr) (widen : List Asm) (σ : State) (own result : ArmType) :
    Prop :=
  ∃ ann cg', Yields (codegenExpression (.conditional c a b)) cg ann cg' ∧ Announces ann result ∧
    ∀ env, ∃ σ' touched, Runs env widen σ σ' touched ∧ Converted env σ σ' own result

/-- The pointer arms, one or both, that the source accepts. -/
def PointerArms (a b : Expr) (left right : Ann) : Prop :=
  if left.resultType = .pointer ∧ right.resultType = .pointer then
    pointerTypesEqual left.fullType right.fullType = true
  else if left.resultType = .pointer then isNullPointerConstant b = true
  else isNullPointerConstant a = true

/-- The conditionals whose node tells the right type: a signed type, a floating type that the arms
show before they are generated, pointers to one type, a pointer and the literal 0. -/
def ToldRight (cg : CodeGen) (a b : Expr) (left right : Ann) : ArmType → Prop
  | .integer r => typeIsFp (armFp cg a b) = false ∧ r.signed = true
  | .floating p => armFp cg a b = fpKind p
  | .pointer => PointerArms a b left right
  | .record => False

/-- The values of an arm that are right in the result type. -/
def ArmFits (σ : State) : ArmType → ArmType → Prop
  | .integer s, .integer r => r.width = 64 → ∀ v, Carries σ s v → Fills σ s v
  | .integer s, .floating _ => ∀ v, Carries σ s v → Fills σ s v ∧ v < 2 ^ 63
  | .integer s, .pointer => ∀ v, Carries σ s v → Fills σ s v
  | _, _ => True

/-! ### What the node tells -/

section told

variable {cg : CodeGen} {c a b : Expr} {test left right ann : Ann} {m₀ m₁ m₂ cg' : CodeGen}

/-- The generator behind the conditional, all but the choice of the type done. -/
def conditionalEnd (cg m₂ : CodeGen) (a b : Expr) (right : Ann) : CodeGen :=
  m₂.print (widenBranch (armFp cg a b) right.resultType ++
    [.label (.numbered .condEnd cg.labelCount)])

theorem yields_print (cg : CodeGen) (i : Asm) : Yields (emit i) cg () (cg.print [i]) :=
  yields_emit.mpr rfl

theorem yields_evalBranch {e : Expr} {start mid : CodeGen} {arm : Ann} (g : TypeKind)
    (run : Yields (codegenExpression e) start arm mid) :
    Yields (evalBranch g (codegen e)) start arm (mid.print (widenBranch g arm.resultType)) := by
  refine (yields_bind_of run).mpr ?_
  have widen : Yields (emitAll (widenBranch g arm.resultType)) mid () _ := yields_emitAll.mpr rfl
  exact (yields_bind_of widen).mpr (yields_pure.mpr ⟨rfl, rfl⟩)

theorem yields_branches (runs : OperandRuns cg c a b test left right m₀ m₁ m₂) :
    Yields (emitBranch .e .condFalse .condEnd cg.labelCount (evalCondition (codegen c))
      (evalBranch (armFp cg a b) (codegen a)) (evalBranch (armFp cg a b) (codegen b)))
      { cg with labelCount := cg.labelCount + 1 } (left, right) (conditionalEnd cg m₂ a b right) := by
  have tested : Yields (emitAll (emitConditionalTest test.resultType)) m₀ () _ :=
    yields_emitAll.mpr rfl
  have condition : Yields (evalCondition (codegen c)) _ () _ := (yields_bind_of runs.condition).mpr tested
  refine (yields_bind_of condition).mpr ?_
  refine (yields_bind_of (yields_print _ _)).mpr ?_
  rw [CodeGen.print_append]
  refine (yields_bind_of (yields_evalBranch _ runs.thenArm)).mpr ?_
  refine (yields_bind_of (yields_print _ _)).mpr ?_
  refine (yields_bind_of (yields_print _ _)).mpr ?_
  rw [CodeGen.print_append, CodeGen.print_append]
  have elseArm := runs.elseArm
  refine (yields_bind_of (yields_evalBranch _ elseArm)).mpr ?_
  refine (yields_bind_of (yields_print _ _)).mpr (yields_pure.mpr ⟨rfl, ?_⟩)
  rw [CodeGen.print_append]
  rfl

theorem yields_conditional (runs : OperandRuns cg c a b test left right m₀ m₁ m₂) :
    Yields (codegenExpression (.conditional c a b)) cg ann cg' ↔
      Yields (conditionalAnn (armFp cg a b) a b left right) (conditionalEnd cg m₂ a b right)
        ann cg' := by
  change Yields (genConditional (codegen c) (codegen a) (codegen b)) cg ann cg' ↔ _
  have fresh : Yields newLabel cg cg.labelCount { cg with labelCount := cg.labelCount + 1 } := rfl
  have current (cg : CodeGen) : Yields (get : Gen CodeGen) cg cg cg := rfl
  rw [genConditional, yields_bind_of fresh, yields_bind_of (current _), codegen_node, codegen_node]
  exact yields_bind_of (yields_branches runs)

theorem RecordedArm.pointer_iff {kind : TypeKind} {own : ArmType} (recorded : RecordedArm kind own) :
    kind = .pointer ↔ own = .pointer := by
  cases own with
  | integer t => exact iff_of_false recorded.integer fun same => by cases same
  | floating p =>
    obtain rfl := recorded
    cases p <;> exact iff_of_false (fun same => by cases same) fun same => by cases same
  | pointer => exact iff_of_true recorded rfl
  | record =>
    refine iff_of_false ?_ fun same => by cases same
    rintro rfl
    cases recorded

theorem RecordedAs.promoteKind {t : IntType} {kind : TypeKind} (recorded : RecordedAs t kind) :
    promoteKind kind = if t.width = 64 then .long else .int := by
  obtain ⟨own, isUnsigned, type, own_or_promoted⟩ := recorded
  cases own <;> cases isUnsigned <;> cases type <;> rcases own_or_promoted with rfl | rfl <;> decide

/-- A type no narrower than `int` is told by the kind of its width. -/
theorem recorded_wide {t : IntType} (level : 3 ≤ t.rank.level) :
    RecordedAs t (if t.width = 64 then .long else .int) := by
  obtain ⟨rank, signed, bool⟩ := t
  cases rank with
  | bool | char | short => simp [IntArith.Rank.level] at level
  | int => exact ⟨.int, !signed, by simp [intTypeOf], .inl rfl⟩
  | long => exact ⟨.long, !signed, by simp [intTypeOf], .inl rfl⟩
  | longLong => exact ⟨.longLong, !signed, by simp [intTypeOf], .inr rfl⟩

/-- The kind made for two integer arms is the common type's. -/
theorem recorded_common {s t : IntType} {kind kind' : TypeKind} (left : RecordedAs s kind)
    (right : RecordedAs t kind') :
    RecordedAs (s.common t) (commonArithKind (promoteKind kind) (promoteKind kind')) := by
  have level := IntType.common_level s t
  have told := recorded_wide (show 3 ≤ (s.common t).rank.level by omega)
  have same : commonArithKind (promoteKind kind) (promoteKind kind') =
      if (s.common t).width = 64 then .long else .int := by
    have wide := IntType.common_wide s t
    rw [left.promoteKind, right.promoteKind]
    by_cases first : s.width = 64 <;> by_cases second : t.width = 64 <;>
      simp [first, second, wide, commonArithKind, promoteKind]
  rwa [same]

/-- What the node is told when neither arm is a pointer. -/
theorem told_arithmetic {g : TypeKind} (notLeft : left.resultType ≠ .pointer)
    (notRight : right.resultType ≠ .pointer) :
    Yields (conditionalAnn g a b left right) cg ann cg' ↔ ann = .ofKind (if typeIsFp g then g else
      commonArithKind (promoteKind left.resultType) (promoteKind right.resultType)) ∧ cg = cg' := by
  rw [conditionalAnn, if_neg (by simp [notLeft]), if_neg (by simp [notLeft]),
    if_neg (by simp [notRight])]
  by_cases floating : typeIsFp g = true
  · rw [if_pos floating, if_pos floating, yields_pure, eq_comm]
  · rw [if_neg floating, if_neg floating, yields_pure, eq_comm]

theorem notPointer_arithmetic (g k l : TypeKind) :
    (if typeIsFp g then g else commonArithKind k l) ≠ .pointer := by
  split
  · rintro rfl
    rename_i floating
    cases floating
  · unfold commonArithKind
    split <;> decide

/-- A choice that makes a pointer, or an arithmetic node. -/
theorem told_pointer_choice {g k l : TypeKind} {isNull : Prop} [Decidable isNull] {t : Option CType} :
    (∃ ann cg', Yields (if isNull then pure ⟨.pointer, t, false⟩
      else if typeIsFp g then pure (.ofKind g) else pure (.ofKind (commonArithKind k l)) : Gen Ann) cg
        ann cg' ∧ Announces ann .pointer) ↔ isNull := by
  by_cases null : isNull
  · rw [if_pos null]
    exact iff_of_true ⟨_, cg, yields_pure.mpr ⟨rfl, rfl⟩, rfl, rfl⟩ null
  · rw [if_neg null]
    refine iff_of_false ?_ null
    rintro ⟨ann, cg', told, announced, -⟩
    have other := notPointer_arithmetic g k l
    split at told
    · rename_i floating
      obtain ⟨rfl, -⟩ := yields_pure.mp told
      rw [if_pos floating] at other
      exact other announced
    · rename_i integer
      obtain ⟨rfl, -⟩ := yields_pure.mp told
      rw [if_neg integer] at other
      exact other announced

theorem told_pointer {g : TypeKind}
    (some : left.resultType = .pointer ∨ right.resultType = .pointer) :
    (∃ ann cg', Yields (conditionalAnn g a b left right) cg ann cg' ∧ Announces ann .pointer) ↔
      PointerArms a b left right := by
  unfold conditionalAnn PointerArms
  by_cases both : left.resultType = .pointer ∧ right.resultType = .pointer
  · rw [if_pos both, if_pos both]
    by_cases same : pointerTypesEqual left.fullType right.fullType = true
    · rw [if_pos same]
      exact iff_of_true ⟨_, cg, yields_pure.mpr ⟨rfl, rfl⟩, rfl, rfl⟩ same
    · rw [if_neg same]
      refine iff_of_false ?_ same
      rintro ⟨ann, cg', told, -⟩
      exact yields_throw told
  · rw [if_neg both, if_neg both]
    by_cases first : left.resultType = .pointer
    · have second : right.resultType ≠ .pointer := fun second => both ⟨first, second⟩
      simp only [first, second, true_and, false_and, if_false, if_true]
      exact told_pointer_choice
    · have second : right.resultType = .pointer := some.resolve_left first
      simp only [first, second, true_and, false_and, if_false]
      exact told_pointer_choice

end told

/-! ### What is in the register -/

section value

variable {σ : State} {g kind : TypeKind} {s r : IntType} {p : FpWidth}

theorem fills_iff {v : Int} (carries : Carries σ s v) :
    Fills σ s v ↔ σ.reg .rax = BitVec.ofInt 64 v := by
  by_cases full : s.width = 64
  · exact iff_of_true (.inl full) ((carries_wide full).mp carries).2
  · have member := s.width_mem
    simp only [List.mem_cons, List.not_mem_nil, or_false] at member
    have range := carries.inType.bounds (n := 32) (by omega)
    rw [full_iff_upper carries.low range]
    exact or_iff_right full

/-- The code behind an arm, by what is to become of it. -/
theorem widenBranch_integer (integer : typeIsFp g = false) : widenBranch g kind = [] := by
  rw [widenBranch, integer]
  rfl

theorem widenBranch_floating (floating : typeIsFp kind = false) :
    widenBranch (fpKind p) kind = [.cvtFromInt p 0 .rax] := by
  have other : kind ≠ fpKind p := by
    rintro rfl
    cases p <;> cases floating
  have isFp : typeIsFp (fpKind p) = true := by cases p <;> rfl
  have width : fpWidth (fpKind p) = p := by cases p <;> rfl
  rw [widenBranch, isFp, if_pos rfl, emitFpWidenIfNeeded, if_neg other, floating, isFp, width]
  rfl

theorem integers_iff {t : IntType} (env : Env Symbol) (signed : (s.common t).signed = true) :
    Converted env σ σ (.integer s) (.integer (s.common t)) ↔
      ArmFits σ (.integer s) (.integer (s.common t)) := by
  have wide := IntType.common_wide s t
  constructor
  · intro converted full v carries
    have result := converted v carries
    rw [IntType.convert_of_holds (IntType.holds_common signed carries.inType)] at result
    exact (fills_iff carries).mpr ((carries_wide full).mp result).2
  · intro fits v carries
    have inType := IntType.holds_common signed carries.inType
    rw [IntType.convert_of_holds inType]
    by_cases full : (s.common t).width = 64
    · exact (carries_wide full).mpr ⟨inType, (fills_iff carries).mp (fits full v carries)⟩
    · have narrow : s.width ≠ 64 := fun full' => full (wide.mpr (.inl full'))
      exact (carries_narrow full).mpr ⟨inType, ((carries_narrow narrow).mp carries).2⟩

/-- Code behind an arm that is not floating leaves the integer registers alone. -/
theorem runs_widenBranch (env : Env Symbol) (σ : State) (g : TypeKind)
    (integer : typeIsFp kind = false) : ∃ σ' touched, Runs env (widenBranch g kind) σ σ' touched ∧
      σ'.reg = σ.reg := by
  by_cases floating : typeIsFp g = true
  · obtain ⟨p, rfl⟩ : ∃ p, g = fpKind p := by
      cases g <;> first | cases floating; done | exact ⟨.single, rfl⟩ | exact ⟨.double, rfl⟩
    rw [widenBranch_floating integer]
    exact ⟨_, _, ⟨rfl, rfl⟩, rfl⟩
  · rw [widenBranch_integer (by simpa using floating)]
    exact ⟨σ, [], Runs.nil σ, rfl⟩

theorem low_setLow (σ : State) (p : FpWidth) (x : BitVec p.bits) :
    ((σ.setLow p 0 x).xmm 0).setWidth p.bits = x := by
  change (σ.xmm 0 >>> p.bits <<< p.bits ||| x.setWidth 128).setWidth p.bits = x
  have bound : p.bits ≤ 128 := by cases p <;> decide
  apply BitVec.eq_of_getLsbD_eq
  intro i inside
  have small : i < 128 := by omega
  simp [inside, small]

/-- A unit that tells one register from all others. -/
def unitFor (x : BitVec 64) : Env Symbol :=
  { sampleEnv with
    fpu := { sampleEnv.fpu with ofInt := fun _ y => if y = x then 1 else 0 } }

theorem floating_converted_iff {v : Int} (carries : Carries σ s v) :
    (σ.reg .rax).toInt = v ↔ Fills σ s v ∧ v < 2 ^ 63 := by
  rw [fills_iff carries]
  have lower : -2 ^ 63 ≤ v := (carries.inType.bounds (n := 64) (by
    have member := s.width_mem
    simp only [List.mem_cons, List.not_mem_nil, or_false] at member
    omega)).1
  constructor
  · rintro rfl
    exact ⟨(BitVec.ofInt_toInt ..).symm, by have := BitVec.toInt_lt (x := σ.reg .rax); omega⟩
  · rintro ⟨full, upper⟩
    rw [full, BitVec.toInt_ofInt, Int.bmod_def]
    split <;> omega

theorem toFloating_iff (integer : typeIsFp kind = false) :
    (∀ env, ∃ σ' touched, Runs env (widenBranch (fpKind p) kind) σ σ' touched ∧
      Converted env σ σ' (.integer s) (.floating p)) ↔ ArmFits σ (.integer s) (.floating p) := by
  rw [widenBranch_floating integer]
  have run (env : Env Symbol) : Runs env [(.cvtFromInt p 0 .rax : Asm)] σ
      (σ.setLow p 0 (env.fpu.ofInt p (σ.reg .rax))) [] := ⟨rfl, rfl⟩
  constructor
  · intro gives v carries
    obtain ⟨σ', touched, runs, converted⟩ := gives (unitFor (σ.reg .rax))
    obtain ⟨rfl, -⟩ := runs.unique (run _)
    obtain ⟨x, value, same⟩ := converted v carries
    rw [low_setLow] at same
    refine (floating_converted_iff carries).mp ?_
    by_cases equal : x = σ.reg .rax
    · rw [← equal, value]
    · have different : (1 : BitVec p.bits) = 0 := by
        simpa [unitFor, equal] using same
      exfalso
      revert different
      cases p <;> decide
  · intro fits env
    refine ⟨_, _, run env, fun v carries => ?_⟩
    exact ⟨_, (floating_converted_iff carries).mpr (fits v carries), low_setLow ..⟩

theorem toPointer_iff (g : TypeKind) (integer : typeIsFp kind = false) :
    (∀ env, ∃ σ' touched, Runs env (widenBranch g kind) σ σ' touched ∧
      Converted env σ σ' (.integer s) .pointer) ↔ ArmFits σ (.integer s) .pointer := by
  constructor
  · intro gives v carries
    obtain ⟨σ', touched, runs, converted⟩ := gives sampleEnv
    obtain ⟨τ, touched', runs', kept⟩ := runs_widenBranch sampleEnv σ g integer
    obtain ⟨rfl, -⟩ := runs.unique runs'
    rw [fills_iff carries, ← kept]
    exact converted v carries
  · intro fits env
    obtain ⟨τ, touched, runs, kept⟩ := runs_widenBranch env σ g integer
    refine ⟨τ, touched, runs, fun v carries => ?_⟩
    rw [kept]
    exact (fills_iff carries).mp (fits v carries)

theorem pointer_converted (env : Env Symbol) (σ : State) (g : TypeKind) :
    ∃ σ' touched, Runs env (widenBranch g .pointer) σ σ' touched ∧
      Converted env σ σ' .pointer .pointer := by
  obtain ⟨τ, touched, runs, kept⟩ := @runs_widenBranch .pointer env σ g rfl
  exact ⟨τ, touched, runs, congrFun kept .rax⟩

theorem floating_converted (env : Env Symbol) (σ : State) (p q : FpWidth) :
    ∃ σ' touched, Runs env (widenBranch (fpKind (if p = .single then q else p)) (fpKind p)) σ σ'
      touched ∧ Converted env σ σ' (.floating p) (.floating (if p = .single then q else p)) := by
  cases p with
  | double => exact ⟨σ, [], Runs.nil σ, rfl, rfl⟩
  | single =>
    cases q with
    | single => exact ⟨σ, [], Runs.nil σ, rfl, rfl⟩
    | double =>
      refine ⟨_, _, ⟨rfl, rfl⟩, ?_⟩
      exact low_setLow σ .double (env.fpu.widen (σ.fpSrc env .single (.xmm 0)))

end value

/-! ### Both together -/

section law

variable {cg : CodeGen} {c a b : Expr} {test left right : Ann} {m₀ m₁ m₂ : CodeGen}
  {A B R : ArmType} {σ : State}

theorem result_comm (A B : ArmType) : A.result B = B.result A := by
  cases A with
  | integer s =>
    cases B with
    | integer t => exact congrArg (fun r => some (ArmType.integer r)) (IntType.common_comm s t)
    | _ => rfl
  | floating p =>
    cases B with
    | floating q => cases p <;> cases q <;> rfl
    | _ => rfl
  | pointer | record => cases B <;> rfl

theorem notPointer_of_result (recordedLeft : RecordedArm left.resultType A)
    (recordedRight : RecordedArm right.resultType B) (result : A.result B = some R)
    (other : R ≠ .pointer) : left.resultType ≠ .pointer ∧ right.resultType ≠ .pointer := by
  constructor
  · intro pointer
    obtain rfl := recordedLeft.pointer_iff.mp pointer
    cases B <;> cases result <;> exact other rfl
  · intro pointer
    obtain rfl := recordedRight.pointer_iff.mp pointer
    cases A <;> cases result <;> exact other rfl

theorem notRecord_arithmetic (g k l : TypeKind) :
    ¬ isStructOrUnionKind (if typeIsFp g then g else commonArithKind k l) = true := by
  split
  · rename_i floating
    revert floating
    cases g <;> decide
  · unfold commonArithKind
    split <;> decide

theorem floating_arithmetic {g k l : TypeKind} {p : FpWidth} :
    (if typeIsFp g then g else commonArithKind k l) = fpKind p ↔ g = fpKind p := by
  split
  · exact Iff.rfl
  · rename_i integer
    have isFp : typeIsFp (fpKind p) = true := by cases p <;> rfl
    have other : commonArithKind k l ≠ fpKind p := by
      unfold commonArithKind
      split <;> cases p <;> decide
    refine iff_of_false other ?_
    rintro rfl
    exact integer isFp

/-- The node tells the result type, whichever way control goes. -/
theorem told_iff (runs : OperandRuns cg c a b test left right m₀ m₁ m₂)
    (recordedLeft : RecordedArm left.resultType A) (recordedRight : RecordedArm right.resultType B)
    (result : A.result B = some R) :
    (∃ ann cg', Yields (codegenExpression (.conditional c a b)) cg ann cg' ∧ Announces ann R) ↔
      ToldRight cg a b left right R := by
  simp only [yields_conditional runs]
  cases R with
  | pointer =>
    refine told_pointer ?_
    rw [recordedLeft.pointer_iff, recordedRight.pointer_iff]
    cases A <;> cases B <;> cases result <;> first | exact .inl rfl | exact .inr rfl
  | record =>
    obtain ⟨notLeft, notRight⟩ := notPointer_of_result recordedLeft recordedRight result (by simp)
    refine iff_of_false ?_ id
    rintro ⟨ann, cg', told, announces⟩
    obtain ⟨rfl, -⟩ := (told_arithmetic notLeft notRight).mp told
    revert announces
    exact notRecord_arithmetic _ _ _
  | floating p =>
    obtain ⟨notLeft, notRight⟩ := notPointer_of_result recordedLeft recordedRight result (by simp)
    constructor
    · rintro ⟨ann, cg', told, announces, -⟩
      obtain ⟨rfl, -⟩ := (told_arithmetic notLeft notRight).mp told
      exact floating_arithmetic.mp announces
    · intro guessed
      refine ⟨_, _, (told_arithmetic notLeft notRight).mpr ⟨rfl, rfl⟩, ?_, rfl⟩
      exact floating_arithmetic.mpr guessed
  | integer r =>
    obtain ⟨notLeft, notRight⟩ := notPointer_of_result recordedLeft recordedRight result (by simp)
    have recorded : RecordedAs r (commonArithKind (promoteKind left.resultType)
        (promoteKind right.resultType)) := by
      cases A <;> cases B <;> cases result
      exact recorded_common recordedLeft recordedRight
    constructor
    · rintro ⟨ann, cg', told, announces, unsigned⟩
      obtain ⟨rfl, -⟩ := (told_arithmetic notLeft notRight).mp told
      refine ⟨?_, by simpa [Ann.ofKind] using unsigned.symm⟩
      by_contra floating
      rw [Bool.not_eq_false] at floating
      have kind : RecordedAs r (armFp cg a b) := by simpa [Ann.ofKind, floating] using announces
      have integer := kind.size.1
      rw [floating] at integer
      cases integer
    · rintro ⟨noFloating, signed⟩
      refine ⟨_, _, (told_arithmetic notLeft notRight).mpr ⟨rfl, rfl⟩, ?_, by simp [Ann.ofKind, signed]⟩
      simpa [Ann.ofKind, noFloating] using recorded

/-- An arm, beside any other, is brought into the result type. -/
theorem arm_iff (told : ToldRight cg a b left right R) {kind : TypeKind}
    (recorded : RecordedArm kind A) (result : A.result B = some R) (σ : State) :
    (∀ env, ∃ σ' touched, Runs env (widenBranch (armFp cg a b) kind) σ σ' touched ∧
      Converted env σ σ' A R) ↔ ArmFits σ A R := by
  cases A with
  | record =>
    cases B <;> cases result
    exact told.elim
  | pointer =>
    obtain rfl := recorded
    cases B <;> cases result <;>
      exact iff_of_true (fun env => pointer_converted env σ _) trivial
  | floating p =>
    obtain rfl := recorded
    refine iff_of_true (fun env => ?_) trivial
    cases B with
    | record | pointer => cases result
    | integer t =>
      cases result
      rw [show armFp cg a b = fpKind p from told]
      have same := floating_converted env σ p p
      rwa [ite_self] at same
    | floating q =>
      cases result
      rw [show armFp cg a b = fpKind (if p = .single then q else p) from told]
      exact floating_converted env σ p q
  | integer s =>
    have integer := RecordedAs.size recorded
    cases B with
    | record => cases result
    | pointer =>
      cases result
      exact toPointer_iff _ integer.1
    | floating p =>
      cases result
      rw [show armFp cg a b = fpKind p from told]
      exact toFloating_iff integer.1
    | integer t =>
      cases result
      obtain ⟨noFloating, signed⟩ := told
      rw [widenBranch_integer noFloating, ← integers_iff sampleEnv signed]
      constructor
      · intro gives
        obtain ⟨σ', touched, runs, converted⟩ := gives sampleEnv
        obtain ⟨rfl, -⟩ := runs.unique (Runs.nil σ)
        exact converted
      · intro converted env
        exact ⟨σ, [], Runs.nil σ, converted⟩

theorem conditional_iff (runs : OperandRuns cg c a b test left right m₀ m₁ m₂)
    (recordedLeft : RecordedArm left.resultType A) (recordedRight : RecordedArm right.resultType B)
    (result : A.result B = some R) (σ : State) :
    (ArmGives cg c a b (widenBranch (armFp cg a b) left.resultType) σ A R ↔
      ToldRight cg a b left right R ∧ ArmFits σ A R) ∧
    (ArmGives cg c a b (widenBranch (armFp cg a b) right.resultType) σ B R ↔
      ToldRight cg a b left right R ∧ ArmFits σ B R) := by
  have told := told_iff runs recordedLeft recordedRight result
  have split (widen : List Asm) (own : ArmType) : ArmGives cg c a b widen σ own R ↔
      ToldRight cg a b left right R ∧
        ∀ env, ∃ σ' touched, Runs env widen σ σ' touched ∧ Converted env σ σ' own R := by
    rw [← told]
    constructor
    · rintro ⟨ann, cg', run, announces, gives⟩
      exact ⟨⟨ann, cg', run, announces⟩, gives⟩
    · rintro ⟨⟨ann, cg', run, announces⟩, gives⟩
      exact ⟨ann, cg', run, announces, gives⟩
  refine ⟨(split _ A).trans (and_congr_right fun told => ?_),
    (split _ B).trans (and_congr_right fun told => ?_)⟩
  · exact arm_iff told recordedLeft result σ
  · exact arm_iff told recordedRight ((result_comm B A).trans result) σ

end law

def literal (n : Nat) (kind : TypeKind) : Expr := .intLiteral (.dec n) kind false

/-- `x ? 1 : 2` -/
theorem chooseInt_right : ArmGives functionWithX (.varRef "x") (literal 1 .int) (literal 2 .int) []
      (stateWithX 200) (.integer .int) (.integer .int) := by
  have runs : OperandRuns functionWithX (.varRef "x") (literal 1 .int) (literal 2 .int)
      ⟨.int, none, false⟩ ⟨.int, none, false⟩ ⟨.int, none, false⟩ _ _ _ := ⟨rfl, rfl, rfl⟩
  have recorded : RecordedArm .int (.integer .int) := ⟨.int, false, rfl, .inl rfl⟩
  have law := conditional_iff runs recorded recorded (R := .integer .int) rfl (stateWithX 200)
  exact law.1.mpr ⟨⟨rfl, rfl⟩, fun wide => absurd wide (by decide)⟩

/-- The null pointer `(t *)0`. -/
def nullPointer (t : CType) : Expr :=
  .cast .pointer false (some (.typePointer t)) (literal 0 .int)

theorem exists_result {m : Gen Ann} {cg : CodeGen} {kind : TypeKind} {n : Nat} {is : List Asm}
    (ends : (m cg).toOption.map (fun p => (p.1.resultType, p.2.code.take n)) = some (kind, is)) :
    ∃ a cg', Yields m cg a cg' ∧ a.resultType = kind ∧ cg'.code.take n = is := by
  cases run : m cg with
  | error e =>
    rw [run] at ends
    cases ends
  | ok p =>
    rw [run] at ends
    cases ends
    exact ⟨p.1, p.2, run, rfl, rfl⟩

/-- `x ? x : 0L` when `x` is -1, and `x ? (int *)0 : (void *)0`. -/
theorem conditional_not_right :
    (∃ a cg', Yields (codegenExpression (.conditional (.varRef "x") (.varRef "x") (literal 0 .long)))
        functionWithX a cg' ∧ a.resultType = .long ∧
      cg'.code.take 5 = [movMem .dword .rax (frame 48), aluImm .cmp .dword .rax 0,
        .jcc .e (.numbered .condFalse 0), movMem .dword .rax (frame 48),
        .jmp (.numbered .condEnd 0)]) ∧
    (∃ σ touched, Runs sampleEnv [movMem .dword .rax (frame 48)] (stateWithX 0xFFFFFFFF) σ touched ∧
      Carries σ .int (-1) ∧ ¬ Carries σ { rank := .long, signed := true } (-1)) ∧
    (codegenExpression (.conditional (.varRef "x") (nullPointer .typeInt) (nullPointer .typeVoid))
      functionWithX).isOk = false := by
  refine ⟨exists_result (by decide +kernel), ?_, by decide +kernel⟩
  have rax : ((stateWithX 0xFFFFFFFF).setFull .rax (((stateWithX 0xFFFFFFFF).load .dword
      ((stateWithX 0xFFFFFFFF).ea sampleEnv (frame 48))).setWidth 64)).reg .rax = 0xFFFFFFFF := by
    decide +kernel
  refine ⟨_, _, ⟨rfl, rfl⟩, (carries_narrow (by decide)).mpr ⟨by decide, ?_⟩, fun carries => ?_⟩
  · rw [low32]
    exact (congrArg (BitVec.setWidth 32) rax).trans (by decide)
  · have full := rax.symm.trans ((carries_wide (by decide)).mp carries).2
    exact absurd full (by decide)

end ClaudeC99
