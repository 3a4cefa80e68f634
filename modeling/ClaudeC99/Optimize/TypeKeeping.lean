import ClaudeC99.Optimize.Labels
import ClaudeC99.Optimize.Typing

/-! Which rewrites of the optimizer keep the type of an expression. -/

namespace ClaudeC99

open CTypes (Ty Params Operand nullNeeded nullDecides)

/-- The optimized expression has the type of the expression. -/
def KeepsType (Γ : TypeEnv) (table : ConstTable) (e : Expr) : Prop :=
  ∀ t, typeOf Γ e = some t → typeOf Γ (optimizeExpr table e) = some t

/-- The type of a literal with the `decl_type` and `is_unsigned` of a node. -/
def Expr.labelType (e : Expr) : Option Ty := literalType e.declType e.isUnsigned

def IsPowerOfTwo (v : Int) : Prop := 1 < v ∧ v = 2 ^ v.toNat.log2

instance (v : Int) : Decidable (IsPowerOfTwo v) := inferInstanceAs (Decidable (_ ∧ _))

section conditions

variable (Γ : TypeEnv) (table : ConstTable)

/-- The operand has the type `t` of its operator. -/
def SameType (e : Expr) (t : Ty) : Prop := typeOf Γ e = some t

/-- A literal labeled like the optimized operand has type `t`. -/
def SameLabel (e : Expr) (t : Ty) : Prop := (optimizeExpr table e).labelType = some t

/-- A shift of the operand has type `t`. -/
def ShiftType (e : Expr) (t : Ty) : Prop :=
  ∃ s, typeOf Γ e = some (.integer s) ∧ t = .integer s.promote

/-- The optimizer changes nothing about `l` as a null pointer constant where that matters beside
`r`. -/
def NullKept (decides : Ty → Ty → Bool) (l r : Expr) : Prop :=
  ∀ s t, typeOf Γ l = some s → typeOf Γ r = some t → decides s.decay t.decay = true →
    Γ.isNullConstant (optimizeExpr table l) = Γ.isNullConstant l

def ArgsKept : Params → List Expr → Prop
  | .cons t ts, e :: es =>
    (∀ s, typeOf Γ e = some s → nullNeeded s.decay t = true →
      Γ.isNullConstant (optimizeExpr table e) = Γ.isNullConstant e) ∧ ArgsKept ts es
  | _, _ => True

def NotPropagated (e : Expr) : Prop :=
  ∀ name, e = .varRef name → constPropLookup table name = none

/-- A binary operator on two literals, with result type `t`. -/
def LiteralsKept (op : BinaryOp) (l r : Expr) (a b : Int) (t : Ty) : Prop :=
  match foldLong op a b with
  | some (_, isBool) => isBool = false → SameType Γ l t
  | none => op = .div → a = 0 → SameType Γ r t

/-- A binary operator with the literal `b` on the right. -/
def RightLiteralKept (op : BinaryOp) (l : Expr) (b : Int) (t : Ty) : Prop :=
  match op with
  | .add | .sub | .bitOr => b = 0 → SameType Γ l t
  | .mul =>
    (b = 1 → SameType Γ l t) ∧ (b = 0 → SameLabel table l t) ∧ (IsPowerOfTwo b → ShiftType Γ l t)
  | .div =>
    (b = 1 → SameType Γ l t) ∧
      (IsPowerOfTwo b → (optimizeExpr table l).isUnsigned → ShiftType Γ l t)
  | .bitAnd => (b = -1 → SameType Γ l t) ∧ (b = 0 → SameLabel table l t)
  | _ => True

/-- A binary operator with the literal `a` on the left. -/
def LeftLiteralKept (op : BinaryOp) (r : Expr) (a : Int) (t : Ty) : Prop :=
  match op with
  | .add | .bitOr => a = 0 → SameType Γ r t
  | .mul =>
    (a = 1 → SameType Γ r t) ∧ (a = 0 → SameLabel table r t) ∧ (IsPowerOfTwo a → ShiftType Γ r t)
  | .div => a = 0 → SameLabel table r t
  | .bitAnd => (a = -1 → SameType Γ r t) ∧ (a = 0 → SameLabel table r t)
  | _ => True

def BinaryKept (op : BinaryOp) (l r : Expr) (t : Ty) : Prop :=
  match knownValue table l, knownValue table r with
  | some a, some b => LiteralsKept Γ op l r a b t
  | none, some b => RightLiteralKept Γ table op l b t
  | some a, none => LeftLiteralKept Γ table op r a t
  | none, none =>
    (op = .sub ∨ op = .bitXor) → bothSameVar (optimizeExpr table l) (optimizeExpr table r) →
      t = .int

def UnaryKept (op : UnaryOp) (e : Expr) (t : Ty) : Prop :=
  match knownValue table e with
  | some _ => op ≠ .bang → SameType Γ e t
  | none =>
    op = .minus → ∀ x, optimizeExpr table e = .unaryOp .minus x → x.literal = none → SameType Γ x t

def ConditionalKept (cond thenExpr elseExpr : Expr) (t : Ty) : Prop :=
  match knownValue table cond with
  | some v => SameType Γ (if v ≠ 0 then thenExpr else elseExpr) t
  | none =>
    NullKept Γ table nullDecides thenExpr elseExpr ∧ NullKept Γ table nullDecides elseExpr thenExpr

/-- What the type `t` of a node asks of the step of the optimizer at the node. -/
def StepKeepsType (e : Expr) (t : Ty) : Prop :=
  match e with
  | .varRef name =>
    ∀ entry, constPropLookup table name = some entry →
      literalType entry.declType entry.isUnsigned = some t
  | .assignment name e => NullKept Γ table nullNeeded e (.varRef name)
  | .assignmentTo target e => NotPropagated table target ∧ NullKept Γ table nullNeeded e target
  | .addrOf e | .prefixIncDec _ e | .postfixIncDec _ e => NotPropagated table e
  | .unaryOp op e => UnaryKept Γ table op e t
  | .binaryOp op l r _ =>
    BinaryKept Γ table op l r t ∧
      ((op = .eq ∨ op = .ne) →
        NullKept Γ table nullNeeded l r ∧ NullKept Γ table nullNeeded r l)
  | .conditional cond thenExpr elseExpr => ConditionalKept Γ table cond thenExpr elseExpr t
  | .functionCall name _ args =>
    ∀ result params, (Γ.varType name).map Ty.decay = some (.pointer (.function result params)) →
      ArgsKept Γ table params args
  | .indirectCall callee args =>
    ∀ result params,
      (typeOf Γ callee).map Ty.decay = some (.pointer (.function result params)) →
        ArgsKept Γ table params args
  | _ => True

end conditions

section nodes

variable {Γ : TypeEnv} {table : ConstTable} {t : Ty}

@[simp] theorem typeOf_newLiteral (v : Int) (kind : TypeKind) (isUnsigned : Bool) :
    typeOf Γ (newLiteral v kind isUnsigned) = literalType kind isUnsigned := rfl

@[simp] theorem typeOf_zeroLike (e : Expr) : typeOf Γ (zeroLike e) = e.labelType := rfl

theorem typeOf_intTruth (b : Bool) : typeOf Γ (intTruth b) = some .int := rfl

theorem optimizeExpr_eq (e : Expr) :
    optimizeExpr table e = optimizeNode table (optimizeChildren table e) := rfl

theorem exists_of_literal {e : Expr} {v : Int} (h_literal : e.literal = some v) :
    ∃ text kind isUnsigned, e = .intLiteral text kind isUnsigned ∧ strtol text = v := by
  cases e <;> simp_all [Expr.literal]

/-- A literal is labeled with its type. -/
theorem labelType_literal (Γ : TypeEnv) {e : Expr} {v : Int} (h_literal : e.literal = some v) :
    e.labelType = typeOf Γ e := by
  obtain ⟨text, kind, isUnsigned, h_e, -⟩ := exists_of_literal h_literal
  rw [h_e]
  rfl

/-- Only `==` and `!=` look at null pointer constants. -/
theorem binaryType_congr {op : BinaryOp} (h_op : ¬ (op = .eq ∨ op = .ne)) (s t : Ty)
    (n m n' m' : Bool) : binaryType op ⟨s, n⟩ ⟨t, m⟩ = binaryType op ⟨s, n'⟩ ⟨t, m'⟩ := by
  cases op <;> simp at h_op <;> rfl

theorem literal_integer {e : Expr} {s : Ty} {v : Int} (h_literal : e.literal = some v)
    (h_type : typeOf Γ e = some s) : ∃ i, s = .integer i := by
  obtain ⟨text, kind, isUnsigned, h_e, -⟩ := exists_of_literal h_literal
  rw [h_e] at h_type
  simp only [typeOf, literalType] at h_type
  split at h_type
  · exact ⟨_, (Option.some.inj h_type).symm⟩
  · obtain ⟨i, -, h_i⟩ := Option.map_eq_some_iff.mp h_type
    exact ⟨i, h_i.symm⟩

end nodes

section binary

variable {Γ : TypeEnv} {table : ConstTable} {op : BinaryOp} {l r : Expr} {s u t : Ty} {n m : Bool}
variable {k : TypeKind}

/-- The rules for binary operators. -/
theorem optimizeNode_binary : optimizeNode table (.binaryOp op l r k) =
    (foldBinary (.binaryOp op l r k) <|> foldLogical (.binaryOp op l r k) <|>
      foldIdentity (.binaryOp op l r k) <|> foldZero (.binaryOp op l r k) <|>
      reduceStrength (.binaryOp op l r k) <|> simplifyLogical (.binaryOp op l r k)).getD
        (.binaryOp op l r k) := by
  cases h_last : simplifyLogical (.binaryOp op l r k) <;>
    rw [optimizeNode, h_last] <;>
    rfl

theorem typeOf_unchanged (h_op : ¬ (op = .eq ∨ op = .ne)) (h_l : typeOf Γ l = some s)
    (h_r : typeOf Γ r = some u) (h_type : binaryType op ⟨s.decay, n⟩ ⟨u.decay, m⟩ = some t) :
    typeOf Γ (.binaryOp op l r k) = some t := by
  simp only [typeOf, h_l, h_r, Option.bind_some]
  rw [← h_type]
  exact binaryType_congr h_op _ _ _ _ _ _

theorem step_literals {a b : Int} (h_l : typeOf Γ l = some s) (h_r : typeOf Γ r = some u)
    (h_type : binaryType op ⟨s.decay, n⟩ ⟨u.decay, m⟩ = some t)
    (h_a : l.literal = some a) (h_b : r.literal = some b) :
    typeOf Γ (optimizeNode table (.binaryOp op l r k)) = some t ↔ LiteralsKept Γ op l r a b t := by
  obtain ⟨i, rfl⟩ := literal_integer h_a h_l
  obtain ⟨j, rfl⟩ := literal_integer h_b h_r
  have h_left := labelType_literal Γ h_a
  have h_right := labelType_literal Γ h_b
  rw [LiteralsKept]
  cases h_fold : foldLong op a b with
  | some result =>
    obtain ⟨v, isBool⟩ := result
    have h_node : optimizeNode table (.binaryOp op l r k) =
        if isBool then newLiteral v .int false else newLiteral v l.declType l.isUnsigned := by
      simp [optimizeNode, foldBinary, h_a, h_b, h_fold]
      split <;> rfl
    rw [h_node]
    cases isBool with
    | true =>
      have h_int : t = .int := by
        cases op <;> simp_all [foldLong, binaryType]
      simp [h_int]
      rfl
    | false => simp [SameType, ← h_left, Expr.labelType]
  | none =>
    cases op <;> simp only [foldLong, reduceCtorEq] at h_fold
    case logicalAnd | logicalOr =>
      have h_int : t = .int := by simp_all [binaryType]
      rw [h_int]
      refine iff_of_true ?_ (by simp)
      by_cases h_zero : a = 0 <;>
        simp [optimizeNode_binary, foldBinary, foldLogical, h_a, h_b, foldLong, h_zero,
          typeOf_intTruth]
    case mod =>
      have h_zero : b = 0 := by simpa using h_fold
      have h_node : optimizeNode table (.binaryOp .mod l r k) = .binaryOp .mod l r k := by
        simp [optimizeNode_binary, foldBinary, foldLogical, foldIdentity, foldZero, reduceStrength,
          simplifyLogical, h_a, h_b, h_zero, foldLong]
      refine iff_of_true ?_ (by simp)
      rw [h_node]
      exact typeOf_unchanged (by simp) h_l h_r h_type
    case div =>
      have h_zero : b = 0 := by simpa using h_fold
      by_cases h_num : a = 0
      · have h_node : optimizeNode table (.binaryOp .div l r k) = zeroLike r := by
          simp [optimizeNode_binary, foldBinary, foldLogical, foldIdentity, foldZero, h_a, h_b,
            h_zero, h_num, foldLong]
        simp [h_node, h_num, SameType, h_right]
      · have h_node : optimizeNode table (.binaryOp .div l r k) = .binaryOp .div l r k := by
          simp [optimizeNode_binary, foldBinary, foldLogical, foldIdentity, foldZero,
            reduceStrength, powerOfTwo, simplifyLogical, h_a, h_b, h_zero, h_num, foldLong]
        refine iff_of_true ?_ (by simp [h_num])
        rw [h_node]
        exact typeOf_unchanged (by simp) h_l h_r h_type

theorem bothSameVar_literal_right {b : Int} (h_b : r.literal = some b) :
    bothSameVar l r = false := by
  obtain ⟨text, kind, isUnsigned, rfl, -⟩ := exists_of_literal h_b
  cases l <;> rfl

theorem bothSameVar_literal_left {a : Int} (h_a : l.literal = some a) :
    bothSameVar l r = false := by
  obtain ⟨text, kind, isUnsigned, rfl, -⟩ := exists_of_literal h_a
  rfl

theorem powerOfTwo_eq_some {e : Expr} {v : Int} (h_literal : e.literal = some v)
    (h_power : IsPowerOfTwo v) : powerOfTwo e = some v.toNat.log2 := by
  simp [powerOfTwo, h_literal, h_power.1, ← h_power.2]

theorem powerOfTwo_eq_none {e : Expr} {v : Int} (h_literal : e.literal = some v)
    (h_power : ¬ IsPowerOfTwo v) : powerOfTwo e = none := by
  rw [IsPowerOfTwo] at h_power
  simp [powerOfTwo, h_literal, h_power]

theorem powerOfTwo_of_not_literal {e : Expr} (h_literal : e.literal = none) :
    powerOfTwo e = none := by
  simp [powerOfTwo, h_literal]

/-- A shift by a literal has the promoted type of an integer. -/
theorem typeOf_shift {e : Expr} {op : BinaryOp} (h_op : op = .shiftLeft ∨ op = .shiftRight)
    (h_e : typeOf Γ e = some s) (v : Int) :
    typeOf Γ (.binaryOp op e (newLiteral v .int false) k) = some t ↔ ShiftType Γ e t := by
  have h_literal : typeOf Γ (newLiteral v .int false) = some .int := rfl
  rw [ShiftType, h_e]
  rcases h_op with rfl | rfl <;> cases s <;>
    simp [typeOf, h_e, h_literal, binaryType, Ty.decay, Ty.int, eq_comm]

/-- A test for zero of a scalar. -/
theorem typeOf_ne_zero {z : Expr} (h_l : typeOf Γ l = some s) (h_scalar : s.decay.isScalar)
    (h_zero : z.literal = some 0) (h_z : typeOf Γ z = some u) :
    typeOf Γ (.binaryOp .ne l z k) = some .int := by
  obtain ⟨i, rfl⟩ := literal_integer h_zero h_z
  have h_equatable : Operand.equatable ⟨s.decay, Γ.isNullConstant l⟩
      ⟨.integer i, Γ.isNullConstant z⟩ = true := by
    rw [Γ.zero_isNull h_zero]
    cases h_s : s.decay <;> rw [h_s] at h_scalar <;> first
      | rfl
      | cases h_scalar
  simp only [typeOf, h_l, h_z, Option.bind_some, binaryType]
  exact if_pos h_equatable

/-- With one literal operand at most, only these rules are left. -/
theorem optimizeNode_oneLiteral (h_literal : l.literal = none ∨ r.literal = none) :
    optimizeNode table (.binaryOp op l r k) =
      (foldLogical (.binaryOp op l r k) <|>
        foldIdentity (.binaryOp op l r k) <|> foldZero (.binaryOp op l r k) <|>
        reduceStrength (.binaryOp op l r k) <|> simplifyLogical (.binaryOp op l r k)).getD
          (.binaryOp op l r k) := by
  have h_fold : foldBinary (.binaryOp op l r k) = none := by
    rcases h_literal with h_l | h_r
    · simp [foldBinary, h_l]
    · cases h_l : l.literal <;> simp [foldBinary, h_l, h_r]
  rw [optimizeNode_binary, h_fold]
  rfl

section right

variable {e : Expr} {b : Int} (h_e : typeOf Γ e = some s)
  (h_l : typeOf Γ (optimizeExpr table e) = some s) (h_r : typeOf Γ r = some u)
  (h_type : binaryType op ⟨s.decay, n⟩ ⟨u.decay, m⟩ = some t)
  (h_a : (optimizeExpr table e).literal = none) (h_b : r.literal = some b)

include h_e h_l h_r h_type h_a h_b

theorem step_right (h_op : ¬ (op = .eq ∨ op = .ne)) :
    typeOf Γ (optimizeNode table (.binaryOp op (optimizeExpr table e) r k)) = some t ↔
      RightLiteralKept Γ table op e b t := by
  have h_unchanged := typeOf_unchanged (k := k) h_op h_l h_r h_type
  have h_var := bothSameVar_literal_right (l := optimizeExpr table e) h_b
  have h_power := powerOfTwo_of_not_literal h_a
  rw [optimizeNode_oneLiteral (.inl h_a)]
  cases op with
  | eq | ne => simp at h_op
  | add | sub | bitOr =>
    by_cases h_zero : b = 0 <;>
      simp_all [RightLiteralKept, foldLogical, foldIdentity, foldZero, reduceStrength,
        simplifyLogical, SameType]
  | bitAnd =>
    by_cases h_ones : b = -1
    · simp_all [RightLiteralKept, foldLogical, foldIdentity, SameType]
    · by_cases h_zero : b = 0 <;>
        simp_all [RightLiteralKept, foldLogical, foldIdentity, foldZero, reduceStrength,
          simplifyLogical, SameLabel]
  | mod | bitXor | shiftLeft | shiftRight | lt | le | gt | ge =>
    simp_all [RightLiteralKept, foldLogical, foldIdentity, foldZero, reduceStrength,
      simplifyLogical]
  | mul =>
    by_cases h_one : b = 1
    · simp_all [RightLiteralKept, foldLogical, foldIdentity, SameType, IsPowerOfTwo]
    by_cases h_zero : b = 0
    · simp_all [RightLiteralKept, foldLogical, foldIdentity, foldZero, SameLabel, IsPowerOfTwo]
    by_cases h_two : IsPowerOfTwo b
    · have h_shift := typeOf_shift (t := t) (k := k) (.inl rfl) h_l b.toNat.log2
      have h_same : ShiftType Γ (optimizeExpr table e) t ↔ ShiftType Γ e t := by
        rw [ShiftType, ShiftType, h_e, h_l]
      simpa [RightLiteralKept, foldLogical, foldIdentity, foldZero, reduceStrength, h_a, h_b,
        h_one, h_zero, h_two, powerOfTwo_eq_some h_b h_two] using h_shift.trans h_same
    · simp_all [RightLiteralKept, foldLogical, foldIdentity, foldZero, reduceStrength,
        powerOfTwo_eq_none h_b h_two, simplifyLogical]
  | div =>
    by_cases h_one : b = 1
    · simp_all [RightLiteralKept, foldLogical, foldIdentity, SameType, IsPowerOfTwo]
    by_cases h_two : IsPowerOfTwo b ∧ (optimizeExpr table e).isUnsigned
    · have h_shift := typeOf_shift (t := t) (k := k) (.inr rfl) h_l b.toNat.log2
      have h_same : ShiftType Γ (optimizeExpr table e) t ↔ ShiftType Γ e t := by
        rw [ShiftType, ShiftType, h_e, h_l]
      simpa [RightLiteralKept, foldLogical, foldIdentity, foldZero, reduceStrength, h_a, h_b,
        h_one, h_two, powerOfTwo_eq_some h_b h_two.1] using h_shift.trans h_same
    · have h_strength :
          reduceStrength (.binaryOp .div (optimizeExpr table e) r k) = none := by
        by_cases h_power : IsPowerOfTwo b
        · simp_all [reduceStrength, powerOfTwo_eq_some h_b h_power]
        · simp [reduceStrength, powerOfTwo_eq_none h_b h_power]
      simp_all [RightLiteralKept, foldLogical, foldIdentity, foldZero, simplifyLogical]
  | logicalAnd =>
    have h_scalar : s.decay.isScalar ∧ t = .int := by simp_all [binaryType]
    by_cases h_zero : b = 0
    · simp_all [RightLiteralKept, foldLogical, foldIdentity, foldZero, reduceStrength,
        simplifyLogical, typeOf_intTruth]
    · have h_test := typeOf_ne_zero (z := newLiteral 0 .int false) (k := .int) h_l h_scalar.1 rfl
        rfl
      simp_all [RightLiteralKept, foldLogical, foldIdentity, foldZero, reduceStrength,
        simplifyLogical]
  | logicalOr =>
    have h_scalar : s.decay.isScalar ∧ t = .int := by simp_all [binaryType]
    by_cases h_zero : b = 0
    · rw [h_zero] at h_b
      have h_test := typeOf_ne_zero (k := .int) h_l h_scalar.1 h_b h_r
      simp_all [RightLiteralKept, foldLogical, foldIdentity, foldZero, reduceStrength,
        simplifyLogical]
    · simp_all [RightLiteralKept, foldLogical, foldIdentity, foldZero, reduceStrength,
        simplifyLogical, typeOf_intTruth]

end right

section left

variable {e : Expr} {a : Int} (h_e : typeOf Γ e = some u) (h_l : typeOf Γ l = some s)
  (h_r : typeOf Γ (optimizeExpr table e) = some u)
  (h_type : binaryType op ⟨s.decay, n⟩ ⟨u.decay, m⟩ = some t)
  (h_a : l.literal = some a) (h_b : (optimizeExpr table e).literal = none)

include h_e h_l h_r h_type h_a h_b

theorem step_left (h_op : ¬ (op = .eq ∨ op = .ne)) :
    typeOf Γ (optimizeNode table (.binaryOp op l (optimizeExpr table e) k)) = some t ↔
      LeftLiteralKept Γ table op e a t := by
  have h_unchanged := typeOf_unchanged (k := k) h_op h_l h_r h_type
  have h_var := bothSameVar_literal_left (r := optimizeExpr table e) h_a
  have h_power := powerOfTwo_of_not_literal h_b
  rw [optimizeNode_oneLiteral (.inr h_b)]
  cases op with
  | eq | ne => simp at h_op
  | add | bitOr =>
    by_cases h_zero : a = 0 <;>
      simp_all [LeftLiteralKept, foldLogical, foldIdentity, foldZero, reduceStrength,
        simplifyLogical, SameType]
  | bitAnd =>
    by_cases h_ones : a = -1
    · simp_all [LeftLiteralKept, foldLogical, foldIdentity, SameType]
    · by_cases h_zero : a = 0 <;>
        simp_all [LeftLiteralKept, foldLogical, foldIdentity, foldZero, reduceStrength,
          simplifyLogical, SameLabel]
  | sub | mod | bitXor | shiftLeft | shiftRight | lt | le | gt | ge =>
    simp_all [LeftLiteralKept, foldLogical, foldIdentity, foldZero, reduceStrength,
      simplifyLogical]
  | mul =>
    by_cases h_one : a = 1
    · simp_all [LeftLiteralKept, foldLogical, foldIdentity, SameType, IsPowerOfTwo]
    by_cases h_zero : a = 0
    · simp_all [LeftLiteralKept, foldLogical, foldIdentity, foldZero, SameLabel, IsPowerOfTwo]
    by_cases h_two : IsPowerOfTwo a
    · have h_shift := typeOf_shift (t := t) (k := k) (.inl rfl) h_r a.toNat.log2
      have h_same : ShiftType Γ (optimizeExpr table e) t ↔ ShiftType Γ e t := by
        rw [ShiftType, ShiftType, h_e, h_r]
      simpa [LeftLiteralKept, foldLogical, foldIdentity, foldZero, reduceStrength, h_a, h_b,
        h_one, h_zero, h_two, h_power, powerOfTwo_eq_some h_a h_two] using h_shift.trans h_same
    · simp_all [LeftLiteralKept, foldLogical, foldIdentity, foldZero, reduceStrength,
        powerOfTwo_eq_none h_a h_two, simplifyLogical]
  | div =>
    by_cases h_zero : a = 0 <;>
      simp_all [LeftLiteralKept, foldLogical, foldIdentity, foldZero, reduceStrength,
        simplifyLogical, SameLabel]
  | logicalAnd | logicalOr =>
    have h_int : t = .int := by simp_all [binaryType]
    by_cases h_zero : a = 0 <;>
      simp_all [LeftLiteralKept, foldLogical, foldIdentity, foldZero, reduceStrength,
        simplifyLogical, typeOf_intTruth]

end left

theorem step_operands (h_op : ¬ (op = .eq ∨ op = .ne)) (h_l : typeOf Γ l = some s)
    (h_r : typeOf Γ r = some u) (h_type : binaryType op ⟨s.decay, n⟩ ⟨u.decay, m⟩ = some t)
    (h_a : l.literal = none) (h_b : r.literal = none) :
    typeOf Γ (optimizeNode table (.binaryOp op l r k)) = some t ↔
      ((op = .sub ∨ op = .bitXor) → bothSameVar l r → t = .int) := by
  have h_unchanged := typeOf_unchanged (k := k) h_op h_l h_r h_type
  have h_left := powerOfTwo_of_not_literal h_a
  have h_right := powerOfTwo_of_not_literal h_b
  rw [optimizeNode_oneLiteral (.inl h_a)]
  cases op with
  | eq | ne => simp at h_op
  | sub | bitXor =>
    cases h_var : bothSameVar l r with
    | false =>
      simp_all [foldLogical, foldIdentity, foldZero, reduceStrength, simplifyLogical]
    | true =>
      have h_label : l.labelType = some .int := by
        cases l <;> simp [bothSameVar] at h_var
        rfl
      have h_comm : Ty.int = t ↔ t = .int := eq_comm
      simp_all [foldLogical, foldIdentity, foldZero]
  | _ =>
    simp_all [foldLogical, foldIdentity, foldZero, reduceStrength, simplifyLogical]

/-- `==` and `!=` are rewritten only between literals. -/
theorem optimizeNode_equality (h_op : op = .eq ∨ op = .ne)
    (h_literal : l.literal = none ∨ r.literal = none) :
    optimizeNode table (.binaryOp op l r k) = .binaryOp op l r k := by
  rw [optimizeNode_oneLiteral h_literal]
  rcases h_op with rfl | rfl <;>
    simp [foldLogical, foldIdentity, foldZero, reduceStrength, simplifyLogical]

end binary

section steps

variable {Γ : TypeEnv} {table : ConstTable} {t : Ty}

theorem literalsKept_congr {op : BinaryOp} {l r l' r' : Expr} {a b : Int}
    (h_l : typeOf Γ l' = typeOf Γ l) (h_r : typeOf Γ r' = typeOf Γ r) :
    LiteralsKept Γ op l' r' a b t ↔ LiteralsKept Γ op l r a b t := by
  rw [LiteralsKept, LiteralsKept, SameType, SameType, SameType, SameType, h_l, h_r]

theorem nullKept_of_integers (table : ConstTable) {l r : Expr} {i j : IntArith.IntType}
    (h_l : typeOf Γ l = some (.integer i)) (h_r : typeOf Γ r = some (.integer j)) :
    NullKept Γ table nullNeeded l r := by
  intro s t h_s h_t h_needed
  rw [h_l] at h_s
  rw [h_r] at h_t
  cases h_s
  cases h_t
  cases h_needed

theorem step_equality {op : BinaryOp} {l r : Expr} {s u : Ty} {k : TypeKind}
    (h_op : op = .eq ∨ op = .ne) (h_l : typeOf Γ l = some s) (h_r : typeOf Γ r = some u)
    (h_l' : typeOf Γ (optimizeExpr table l) = some s)
    (h_r' : typeOf Γ (optimizeExpr table r) = some u)
    (h_type : binaryType op ⟨s.decay, Γ.isNullConstant l⟩ ⟨u.decay, Γ.isNullConstant r⟩ = some t) :
    typeOf Γ (.binaryOp op (optimizeExpr table l) (optimizeExpr table r) k) = some t ↔
      NullKept Γ table nullNeeded l r ∧ NullKept Γ table nullNeeded r l := by
  have h_binary (a b : Operand) : binaryType op a b = if a.equatable b then some .int else none := by
    rcases h_op with rfl | rfl <;> rfl
  rw [h_binary] at h_type
  have h_equatable : Operand.equatable ⟨s.decay, Γ.isNullConstant l⟩ ⟨u.decay, Γ.isNullConstant r⟩ :=
    by_contra fun h => by simp [h] at h_type
  have h_int : t = .int := by simpa [h_equatable, eq_comm] using h_type
  have h_iff := Operand.equatable_iff (Γ.isNullConstant (optimizeExpr table l))
    (Γ.isNullConstant (optimizeExpr table r)) h_equatable
  simp [typeOf, h_l', h_r', h_binary, NullKept, h_l, h_r, h_int, h_iff]

theorem step_binary {op : BinaryOp} {l r : Expr} {k : TypeKind}
    (h_l : KeepsType Γ table l) (h_r : KeepsType Γ table r)
    (h_type : typeOf Γ (.binaryOp op l r k) = some t) :
    typeOf Γ (optimizeExpr table (.binaryOp op l r k)) = some t ↔
      StepKeepsType Γ table (.binaryOp op l r k) t := by
  obtain ⟨s, h_s, h_type⟩ := Option.bind_eq_some_iff.mp h_type
  obtain ⟨u, h_u, h_type⟩ := Option.bind_eq_some_iff.mp h_type
  have h_l' := h_l s h_s
  have h_r' := h_r u h_u
  have h_node : optimizeExpr table (.binaryOp op l r k) =
      optimizeNode table (.binaryOp op (optimizeExpr table l) (optimizeExpr table r) k) := rfl
  rw [h_node, StepKeepsType, BinaryKept, knownValue, knownValue]
  cases h_a : (optimizeExpr table l).literal with
  | some a =>
    cases h_b : (optimizeExpr table r).literal with
    | some b =>
      obtain ⟨i, rfl⟩ := literal_integer h_a h_l'
      obtain ⟨j, rfl⟩ := literal_integer h_b h_r'
      rw [step_literals h_l' h_r' h_type h_a h_b,
        literalsKept_congr (h_l'.trans h_s.symm) (h_r'.trans h_u.symm)]
      have h_null := nullKept_of_integers table h_s h_u
      have h_null' := nullKept_of_integers table h_u h_s
      simp [h_null, h_null']
    | none =>
      by_cases h_op : op = .eq ∨ op = .ne
      · have h_kept : LeftLiteralKept Γ table op r a t := by
          rcases h_op with rfl | rfl <;> trivial
        rw [optimizeNode_equality h_op (.inr h_b), step_equality h_op h_s h_u h_l' h_r' h_type]
        simp [h_kept, h_op]
      · rw [step_left h_u h_l' h_r' h_type h_a h_b h_op]
        simp [h_op]
  | none =>
    cases h_b : (optimizeExpr table r).literal with
    | some b =>
      by_cases h_op : op = .eq ∨ op = .ne
      · have h_kept : RightLiteralKept Γ table op l b t := by
          rcases h_op with rfl | rfl <;> trivial
        rw [optimizeNode_equality h_op (.inl h_a), step_equality h_op h_s h_u h_l' h_r' h_type]
        simp [h_kept, h_op]
      · rw [step_right h_s h_l' h_r' h_type h_a h_b h_op]
        simp [h_op]
    | none =>
      by_cases h_op : op = .eq ∨ op = .ne
      · rw [optimizeNode_equality h_op (.inl h_a), step_equality h_op h_s h_u h_l' h_r' h_type]
        rcases h_op with rfl | rfl <;> simp
      · rw [step_operands h_op h_l' h_r' h_type h_a h_b]
        simp [h_op]

/-- The rules for unary operators. -/
theorem optimizeNode_unary {op : UnaryOp} {e : Expr} :
    optimizeNode table (.unaryOp op e) =
      (foldUnary (.unaryOp op e) <|> foldDoubleNot (.unaryOp op e) <|>
        foldDoubleNegation (.unaryOp op e)).getD (.unaryOp op e) := by
  cases h_last : foldDoubleNegation (.unaryOp op e) <;>
    rw [optimizeNode, h_last] <;>
    rfl

theorem unaryType_bang {s : Ty} (h_type : unaryType .bang s = some t) :
    s.isScalar = true ∧ t = .int := by
  simp only [unaryType] at h_type
  split at h_type
  · exact ⟨‹_›, (Option.some.inj h_type).symm⟩
  · cases h_type

theorem typeOf_doubleNot {e : Expr} {s : Ty} (h_e : typeOf Γ e = some s)
    (h_type : unaryType .bang s.decay = some t)
    (h_unchanged : typeOf Γ (.unaryOp .bang e) = some t) :
    typeOf Γ ((foldDoubleNot (.unaryOp .bang e)).getD (.unaryOp .bang e)) = some t := by
  rw [foldDoubleNot.eq_def]
  split
  · split
    · next x h_match h_literal =>
      cases h_match
      obtain ⟨w, h_w, h_inner⟩ := Option.bind_eq_some_iff.mp h_e
      rw [(unaryType_bang h_type).2]
      exact typeOf_ne_zero h_w (unaryType_bang h_inner).1 rfl rfl
    · exact h_unchanged
  · exact h_unchanged

theorem foldDoubleNegation_eq_some {e x : Expr}
    (h_fold : foldDoubleNegation (.unaryOp .minus e) = some x) :
    e = .unaryOp .minus x ∧ x.literal = none := by
  rw [foldDoubleNegation.eq_def] at h_fold
  split at h_fold
  · split at h_fold
    · next y h_match h_literal =>
      cases h_match
      cases h_fold
      exact ⟨rfl, Option.isNone_iff_eq_none.mp h_literal⟩
    · cases h_fold
  · cases h_fold

theorem step_unary {op : UnaryOp} {e : Expr} (h_e : KeepsType Γ table e)
    (h_type : typeOf Γ (.unaryOp op e) = some t) :
    typeOf Γ (optimizeExpr table (.unaryOp op e)) = some t ↔
      StepKeepsType Γ table (.unaryOp op e) t := by
  obtain ⟨s, h_s, h_type⟩ := Option.bind_eq_some_iff.mp h_type
  have h_s' := h_e s h_s
  have h_node : optimizeExpr table (.unaryOp op e) =
      optimizeNode table (.unaryOp op (optimizeExpr table e)) := rfl
  have h_unchanged : typeOf Γ (.unaryOp op (optimizeExpr table e)) = some t := by
    simp only [typeOf, h_s', Option.bind_some, h_type]
  rw [h_node, optimizeNode_unary, StepKeepsType, UnaryKept, knownValue]
  cases h_literal : (optimizeExpr table e).literal with
  | some v =>
    have h_label := labelType_literal Γ h_literal
    cases op with
    | bang =>
      have h_int := (unaryType_bang h_type).2
      simp [foldUnary, h_literal, h_int, typeOf_intTruth]
    | _ =>
      simp [foldUnary, h_literal, SameType, h_s, ← h_s', ← h_label, Expr.labelType]
  | none =>
    have h_fold : foldUnary (.unaryOp op (optimizeExpr table e)) = none := by
      simp [foldUnary, h_literal]
    rw [h_fold]
    cases op with
    | plus | tilde => simpa [foldDoubleNot, foldDoubleNegation] using h_unchanged
    | bang => simpa [foldDoubleNegation] using typeOf_doubleNot h_s' h_type h_unchanged
    | minus =>
      cases h_inner : foldDoubleNegation (.unaryOp .minus (optimizeExpr table e)) with
      | none =>
        refine iff_of_true (by simpa [foldDoubleNot, h_inner] using h_unchanged) ?_
        intro _ x h_x h_none
        simp [foldDoubleNegation, h_x, h_none] at h_inner
      | some y =>
        obtain ⟨h_e', h_none⟩ := foldDoubleNegation_eq_some h_inner
        simp [foldDoubleNot, h_e', h_none, SameType]

theorem optimizeExpr_varRef (name : String) : optimizeExpr table (.varRef name) =
    (propagateConst table (.varRef name)).getD (.varRef name) := rfl

theorem step_varRef {name : String} (h_type : typeOf Γ (.varRef name) = some t) :
    typeOf Γ (optimizeExpr table (.varRef name)) = some t ↔
      StepKeepsType Γ table (.varRef name) t := by
  rw [optimizeExpr_varRef, StepKeepsType]
  cases h_entry : constPropLookup table name with
  | none => simpa [propagateConst, h_entry] using h_type
  | some entry => simp [propagateConst, h_entry]

theorem optimizeNode_conditional {c a b : Expr} :
    optimizeNode table (.conditional c a b) =
      (foldConditional (.conditional c a b)).getD (.conditional c a b) := by
  cases h_fold : foldConditional (.conditional c a b) <;>
    rw [optimizeNode, h_fold] <;>
    rfl

theorem optimizeNode_cast {k : TypeKind} {isUnsigned : Bool} {fullType : Option CType} {e : Expr} :
    optimizeNode table (.cast k isUnsigned fullType e) =
      (foldCast (.cast k isUnsigned fullType e)).getD (.cast k isUnsigned fullType e) := by
  cases h_fold : foldCast (.cast k isUnsigned fullType e) <;>
    rw [optimizeNode, h_fold] <;>
    rfl

theorem optimizeNode_sizeofExpr {e : Expr} :
    optimizeNode table (.sizeofExpr e) =
      (foldSizeofExpr (.sizeofExpr e)).getD (.sizeofExpr e) := by
  cases h_fold : foldSizeofExpr (.sizeofExpr e) <;>
    rw [optimizeNode, h_fold] <;>
    rfl

theorem step_conditional {c a b : Expr} (h_c : KeepsType Γ table c) (h_a : KeepsType Γ table a)
    (h_b : KeepsType Γ table b) (h_type : typeOf Γ (.conditional c a b) = some t) :
    typeOf Γ (optimizeExpr table (.conditional c a b)) = some t ↔
      StepKeepsType Γ table (.conditional c a b) t := by
  obtain ⟨r, h_r, h_type⟩ := Option.bind_eq_some_iff.mp h_type
  obtain ⟨s, h_s, h_type⟩ := Option.bind_eq_some_iff.mp h_type
  obtain ⟨u, h_u, h_type⟩ := Option.bind_eq_some_iff.mp h_type
  have h_scalar : r.decay.isScalar := by_contra fun h => by simp [h] at h_type
  simp only [h_scalar, if_true] at h_type
  rw [optimizeExpr, optimizeChildren, optimizeNode_conditional, ← optimizeExpr_eq,
    ← optimizeExpr_eq, ← optimizeExpr_eq, StepKeepsType, ConditionalKept, knownValue]
  cases h_known : (optimizeExpr table c).literal with
  | some v =>
    by_cases h_zero : v = 0
    · simp [foldConditional, h_known, h_zero, SameType, h_u, h_b u h_u]
    · simp [foldConditional, h_known, h_zero, SameType, h_s, h_a s h_s]
  | none =>
    have h_merge := Operand.merge_iff (Γ.isNullConstant (optimizeExpr table a))
      (Γ.isNullConstant (optimizeExpr table b)) h_type
    simp [foldConditional, h_known, typeOf, h_c r h_r, h_a s h_s, h_b u h_u, h_scalar, h_merge,
      NullKept, h_s, h_u]

/-- The nodes that some rule of the optimizer is about. -/
def Expr.isRewritten : Expr → Bool
  | .binaryOp _ _ _ _ | .unaryOp _ _ | .conditional _ _ _ | .sizeofType _ _ | .sizeofExpr _
  | .cast _ _ _ _ | .varRef _ => true
  | _ => false

theorem optimizeNode_of_not_rewritten {e : Expr} (h_rewritten : e.isRewritten = false) :
    optimizeNode table e = e := by
  cases e <;> first
    | rfl
    | cases h_rewritten

/-- A propagated variable becomes a literal, which is no lvalue and has an integer type. -/
theorem propagated_literal {e : Expr} (h_propagated : ¬ NotPropagated table e) :
    ∃ v, (optimizeExpr table e).literal = some v := by
  rw [NotPropagated] at h_propagated
  push Not at h_propagated
  obtain ⟨name, rfl, h_lookup⟩ := h_propagated
  obtain ⟨entry, h_entry⟩ := Option.ne_none_iff_exists'.mp h_lookup
  exact ⟨strtol (.dec entry.value), by simp [optimizeExpr_varRef, propagateConst, h_entry,
    newLiteral, Expr.literal]⟩

theorem isLvalue_literal {e : Expr} {v : Int} (h_literal : e.literal = some v) :
    e.isLvalue = false := by
  obtain ⟨text, kind, isUnsigned, rfl, -⟩ := exists_of_literal h_literal
  rfl

/-- An lvalue is lost only where a variable is propagated. -/
theorem isLvalue_optimizeExpr {e : Expr} {s : Ty} (h_lvalue : e.isLvalue = true)
    (h_kept : NotPropagated table e) (h_type : typeOf Γ (optimizeExpr table e) = some s) :
    (optimizeExpr table e).isLvalue = true := by
  induction e using Expr.induction_children generalizing s with
  | h_node e ih =>
    cases e with
    | memberAccess base field =>
      have h_node : optimizeExpr table (.memberAccess base field) =
          .memberAccess (optimizeExpr table base) field := rfl
      rw [h_node] at h_type ⊢
      obtain ⟨u, h_u, h_member⟩ := Option.bind_eq_some_iff.mp h_type
      have h_base : NotPropagated table base := by
        by_contra h_propagated
        obtain ⟨v, h_literal⟩ := propagated_literal h_propagated
        obtain ⟨i, rfl⟩ := literal_integer h_literal h_u
        cases h_member
      exact ih base (by simp [Expr.children]) h_lvalue h_base h_u
    | varRef name => simp [optimizeExpr_varRef, propagateConst, h_kept name rfl, Expr.isLvalue]
    | deref | arrayIndex | arrowAccess | stringLiteral | compoundLiteral => rfl
    | _ => cases h_lvalue

theorem lvalue_kept_iff {e : Expr} {s : Ty} (h_lvalue : e.isLvalue = true)
    (h_type : typeOf Γ (optimizeExpr table e) = some s) :
    (optimizeExpr table e).isLvalue = true ↔ NotPropagated table e := by
  constructor
  · intro h_kept
    by_contra h_propagated
    obtain ⟨v, h_literal⟩ := propagated_literal h_propagated
    rw [isLvalue_literal h_literal] at h_kept
    cases h_kept
  · intro h_kept
    exact isLvalue_optimizeExpr h_lvalue h_kept h_type

theorem step_addrOf {e : Expr} (h_e : KeepsType Γ table e)
    (h_type : typeOf Γ (.addrOf e) = some t) :
    typeOf Γ (optimizeExpr table (.addrOf e)) = some t ↔ StepKeepsType Γ table (.addrOf e) t := by
  obtain ⟨s, h_s, h_type⟩ := Option.bind_eq_some_iff.mp h_type
  have h_node : optimizeExpr table (.addrOf e) = .addrOf (optimizeExpr table e) := rfl
  have h_addressable : addressable e s = true := by_contra fun h => by simp [h] at h_type
  have h_pointer : t = .pointer s := by simpa [h_addressable, eq_comm] using h_type
  have h_iff : addressable (optimizeExpr table e) s = true ↔ NotPropagated table e := by
    by_cases h_decay : s.decay = s
    · have h_lvalue : e.isLvalue = true := by simpa [addressable, h_decay] using h_addressable
      simpa [addressable, h_decay] using lvalue_kept_iff h_lvalue (h_e s h_s)
    · refine iff_of_true (by simp [addressable, h_decay]) ?_
      by_contra h_propagated
      obtain ⟨v, h_literal⟩ := propagated_literal h_propagated
      obtain ⟨i, rfl⟩ := literal_integer h_literal (h_e s h_s)
      exact h_decay rfl
  simp [h_node, typeOf, h_e s h_s, h_pointer, StepKeepsType, h_iff]

theorem incDecType_iff {e : Expr} {s : Ty} (h_s : typeOf Γ e = some s) (h_e : KeepsType Γ table e)
    (h_type : (if e.isLvalue ∧ s.isScalar then some s else none) = some t) :
    ((typeOf Γ (optimizeExpr table e)).bind fun s =>
      if (optimizeExpr table e).isLvalue ∧ s.isScalar then some s else none) = some t ↔
        NotPropagated table e := by
  have h_lvalue : e.isLvalue ∧ s.isScalar := by_contra fun h => by simp [h] at h_type
  have h_same : s = t := by simpa [h_lvalue] using h_type
  rw [h_same] at h_s h_lvalue
  have h_iff := lvalue_kept_iff h_lvalue.1 (h_e t h_s)
  simp [h_e t h_s, h_lvalue.2, h_iff]

/-- Nothing is assigned to an array or a function. -/
theorem decay_of_assignable {target : Ty} {a : Operand} (h_assignable : a.assignable target) :
    target.decay = target := by
  cases target <;> first
    | rfl
    | simp [Operand.assignable, Ty.arithmetic] at h_assignable

theorem assignType_iff {target s : Ty} {n : Bool} (n' : Bool)
    (h_type : assignType target ⟨s, n⟩ = some t) :
    assignType target ⟨s, n'⟩ = some t ↔ (nullNeeded s target.decay = true → n' = n) := by
  have h_assignable : Operand.assignable target ⟨s, n⟩ = true :=
    by_contra fun h => by simp [assignType, h] at h_type
  have h_same : target = t := by simpa [assignType, h_assignable] using h_type
  rw [decay_of_assignable h_assignable, ← Operand.assignable_iff n' h_assignable]
  simp [assignType, h_same]

theorem step_assignment {name : String} {e : Expr} (h_e : KeepsType Γ table e)
    (h_type : typeOf Γ (.assignment name e) = some t) :
    typeOf Γ (optimizeExpr table (.assignment name e)) = some t ↔
      StepKeepsType Γ table (.assignment name e) t := by
  obtain ⟨u, h_u, h_type⟩ := Option.bind_eq_some_iff.mp h_type
  obtain ⟨s, h_s, h_type⟩ := Option.bind_eq_some_iff.mp h_type
  have h_node : optimizeExpr table (.assignment name e) =
      .assignment name (optimizeExpr table e) := rfl
  have h_iff := assignType_iff (Γ.isNullConstant (optimizeExpr table e)) h_type
  simp [h_node, typeOf, h_u, h_e s h_s, StepKeepsType, NullKept, h_s, h_iff]

theorem step_assignmentTo {target e : Expr} (h_target : KeepsType Γ table target)
    (h_e : KeepsType Γ table e) (h_type : typeOf Γ (.assignmentTo target e) = some t) :
    typeOf Γ (optimizeExpr table (.assignmentTo target e)) = some t ↔
      StepKeepsType Γ table (.assignmentTo target e) t := by
  simp only [typeOf] at h_type
  split at h_type
  · next h_lvalue =>
    obtain ⟨u, h_u, h_type⟩ := Option.bind_eq_some_iff.mp h_type
    obtain ⟨s, h_s, h_type⟩ := Option.bind_eq_some_iff.mp h_type
    have h_node : optimizeExpr table (.assignmentTo target e) =
        .assignmentTo (optimizeExpr table target) (optimizeExpr table e) := rfl
    have h_iff := assignType_iff (Γ.isNullConstant (optimizeExpr table e)) h_type
    have h_kept := lvalue_kept_iff h_lvalue (h_target u h_u)
    simp [h_node, typeOf, h_target u h_u, h_e s h_s, StepKeepsType, NullKept, h_s, h_u, h_iff,
      h_kept]
  · cases h_type

/-- Arguments that fit their parameters still fit where null pointer constants are kept. -/
theorem argTypes_optimized : ∀ {args : List Expr} {operands : List Operand},
    (∀ e ∈ args, KeepsType Γ table e) → argTypes Γ args = some operands →
    ∃ optimized, argTypes Γ (args.map (optimizeExpr table)) = some optimized ∧
      ∀ params, Operand.fit params operands = true →
        (Operand.fit params optimized = true ↔ ArgsKept Γ table params args)
  | [], operands, _, h_types => by
    refine ⟨[], rfl, fun params _ => ?_⟩
    cases params <;> simp [Operand.fit, ArgsKept]
  | e :: es, operands, h_keeps, h_types => by
    obtain ⟨s, h_s, h_types⟩ := Option.bind_eq_some_iff.mp h_types
    obtain ⟨rest, h_rest, rfl⟩ := Option.map_eq_some_iff.mp h_types
    obtain ⟨optimized, h_optimized, h_fit⟩ :=
      argTypes_optimized (fun e h_e => h_keeps e (.tail _ h_e)) h_rest
    have h_head := h_keeps e (.head _) s h_s
    refine ⟨⟨s.decay, Γ.isNullConstant (optimizeExpr table e)⟩ :: optimized,
      by simp [argTypes, h_head, h_optimized], fun params h_params => ?_⟩
    cases params with
    | nil => simp [Operand.fit, ArgsKept]
    | cons t ts =>
      simp only [Operand.fit, Bool.and_eq_true] at h_params ⊢
      rw [h_fit ts h_params.2, Operand.assignable_iff _ h_params.1]
      simp [ArgsKept, h_s]

theorem callType_iff {callee : Ty} {operands optimized : List Operand} {args : List Expr}
    (h_fit : ∀ params, Operand.fit params operands = true →
      (Operand.fit params optimized = true ↔ ArgsKept Γ table params args))
    (h_type : callType callee operands = some t) :
    callType callee optimized = some t ↔
      ∀ result params, callee = .pointer (.function result params) → ArgsKept Γ table params args := by
  rw [callType.eq_def] at h_type
  split at h_type
  · next result params =>
    split at h_type
    · next h_params =>
      simp [callType, h_fit params h_params, Option.some.inj h_type]
    · cases h_type
  · cases h_type

theorem step_functionCall {name : String} {k : TypeKind} {args : List Expr}
    (h_args : ∀ e ∈ args, KeepsType Γ table e)
    (h_type : typeOf Γ (.functionCall name k args) = some t) :
    typeOf Γ (optimizeExpr table (.functionCall name k args)) = some t ↔
      StepKeepsType Γ table (.functionCall name k args) t := by
  obtain ⟨s, h_s, h_type⟩ := Option.bind_eq_some_iff.mp h_type
  obtain ⟨operands, h_types, h_type⟩ := Option.bind_eq_some_iff.mp h_type
  obtain ⟨optimized, h_optimized, h_fit⟩ := argTypes_optimized h_args h_types
  have h_node : optimizeExpr table (.functionCall name k args) =
      .functionCall name k (args.map (optimizeExpr table)) := by
    rw [← optimizeExprs_eq_map]
    rfl
  have h_iff := callType_iff h_fit h_type
  simp [h_node, typeOf, h_s, h_optimized, StepKeepsType, h_iff]

theorem step_indirectCall {callee : Expr} {args : List Expr} (h_callee : KeepsType Γ table callee)
    (h_args : ∀ e ∈ args, KeepsType Γ table e)
    (h_type : typeOf Γ (.indirectCall callee args) = some t) :
    typeOf Γ (optimizeExpr table (.indirectCall callee args)) = some t ↔
      StepKeepsType Γ table (.indirectCall callee args) t := by
  obtain ⟨s, h_s, h_type⟩ := Option.bind_eq_some_iff.mp h_type
  obtain ⟨operands, h_types, h_type⟩ := Option.bind_eq_some_iff.mp h_type
  obtain ⟨optimized, h_optimized, h_fit⟩ := argTypes_optimized h_args h_types
  have h_node : optimizeExpr table (.indirectCall callee args) =
      .indirectCall (optimizeExpr table callee) (args.map (optimizeExpr table)) := by
    rw [← optimizeExprs_eq_map]
    rfl
  have h_iff := callType_iff h_fit h_type
  simp [h_node, typeOf, h_s, h_callee s h_s, h_optimized, StepKeepsType, h_iff]

theorem namedType_of_scalar {k : TypeKind} {isUnsigned : Bool} {fullType : Option CType}
    (h_scalar : isScalarIntType k = true) :
    namedType k isUnsigned fullType = literalType k isUnsigned := by
  cases k <;> cases h_scalar <;> cases isUnsigned <;> rfl

/-- A cast keeps its type, also as the literal that it is folded to. -/
theorem typeOf_cast {k : TypeKind} {isUnsigned : Bool} {fullType : Option CType} {e : Expr}
    (h_e : KeepsType Γ table e) (h_type : typeOf Γ (.cast k isUnsigned fullType e) = some t) :
    typeOf Γ (optimizeExpr table (.cast k isUnsigned fullType e)) = some t := by
  obtain ⟨s, h_s, h_cast⟩ := Option.bind_eq_some_iff.mp h_type
  rw [optimizeExpr, optimizeChildren, optimizeNode_cast, ← optimizeExpr_eq]
  cases h_fold : foldCast (.cast k isUnsigned fullType (optimizeExpr table e)) with
  | none => simpa [typeOf, h_e s h_s] using h_cast
  | some x =>
    simp only [foldCast, Option.bind_eq_bind, Option.bind_eq_some_iff] at h_fold
    obtain ⟨v, -, h_fold⟩ := h_fold
    split at h_fold
    · next h_safe =>
      cases h_fold
      obtain ⟨target, h_target, h_cast⟩ := Option.bind_eq_some_iff.mp h_cast
      rw [namedType_of_scalar h_safe.1] at h_target
      have h_same : target = t := by
        split at h_cast
        · exact Option.some.inj h_cast
        · cases h_cast
      simpa [h_same] using h_target
    · cases h_fold

/-- The size of a type or of an expression stays a `size_t`. -/
theorem typeOf_sizeofExpr {e : Expr} (h_e : KeepsType Γ table e)
    (h_type : typeOf Γ (.sizeofExpr e) = some t) :
    typeOf Γ (optimizeExpr table (.sizeofExpr e)) = some t := by
  obtain ⟨s, h_s, rfl⟩ := Option.map_eq_some_iff.mp h_type
  rw [optimizeExpr, optimizeChildren, optimizeNode_sizeofExpr, ← optimizeExpr_eq,
    foldSizeofExpr.eq_def]
  split
  · rfl
  · rfl
  · rfl
  · simp [typeOf, h_e s h_s]

theorem typeOf_sizeofType (k : TypeKind) (fullType : Option CType) :
    typeOf Γ (optimizeExpr table (.sizeofType k fullType)) = some .unsignedLong := by
  have h_node : ∃ size, optimizeExpr table (.sizeofType k fullType) = makeSizeofLiteral size := by
    cases k <;> cases fullType <;> exact ⟨_, rfl⟩
  obtain ⟨size, h_size⟩ := h_node
  rw [h_size]
  rfl

/-- Where its children keep their types, a node keeps its type exactly if the step there does. -/
theorem keepsType_iff_step {e : Expr} (h_children : ∀ c ∈ e.children, KeepsType Γ table c)
    (h_type : typeOf Γ e = some t) :
    typeOf Γ (optimizeExpr table e) = some t ↔ StepKeepsType Γ table e t := by
  cases e with
  | varRef name => exact step_varRef h_type
  | unaryOp op e => exact step_unary (h_children e (by simp [Expr.children])) h_type
  | binaryOp op l r k =>
    exact step_binary (h_children l (by simp [Expr.children])) (h_children r (by simp [Expr.children])) h_type
  | conditional c a b =>
    exact step_conditional (h_children c (by simp [Expr.children]))
      (h_children a (by simp [Expr.children])) (h_children b (by simp [Expr.children])) h_type
  | addrOf e => exact step_addrOf (h_children e (by simp [Expr.children])) h_type
  | assignment name e => exact step_assignment (h_children e (by simp [Expr.children])) h_type
  | assignmentTo target e =>
    exact step_assignmentTo (h_children target (by simp [Expr.children]))
      (h_children e (by simp [Expr.children])) h_type
  | functionCall name k args => exact step_functionCall h_children h_type
  | indirectCall callee args =>
    exact step_indirectCall (h_children callee (.head _))
      (fun e h_e => h_children e (.tail _ h_e)) h_type
  | prefixIncDec op e | postfixIncDec op e =>
    obtain ⟨s, h_s, h_incDec⟩ := Option.bind_eq_some_iff.mp h_type
    exact incDecType_iff h_s (h_children e (by simp [Expr.children])) h_incDec
  | cast k isUnsigned fullType e =>
    exact iff_of_true (typeOf_cast (h_children e (by simp [Expr.children])) h_type) trivial
  | sizeofExpr e =>
    exact iff_of_true (typeOf_sizeofExpr (h_children e (by simp [Expr.children])) h_type) trivial
  | sizeofType k fullType =>
    rw [← h_type]
    exact iff_of_true (typeOf_sizeofType k fullType) trivial
  | deref e | arrowAccess e field | memberAccess e field | vaArg e type =>
    refine iff_of_true ?_ trivial
    obtain ⟨s, h_s, h_node⟩ := Option.bind_eq_some_iff.mp h_type
    have h_e := h_children e (by simp [Expr.children]) s h_s
    rw [optimizeExpr, optimizeNode_of_not_rewritten rfl]
    simp only [optimizeChildren, ← optimizeExpr_eq, typeOf, h_e]
    exact h_node
  | vaEnd e =>
    refine iff_of_true ?_ trivial
    obtain ⟨s, h_s, h_node⟩ := Option.map_eq_some_iff.mp h_type
    have h_e := h_children e (by simp [Expr.children]) s h_s
    rw [optimizeExpr, optimizeNode_of_not_rewritten rfl]
    simp only [optimizeChildren, ← optimizeExpr_eq, typeOf, h_e]
    exact congrArg some h_node
  | arrayIndex l r | comma l r | vaStart l r | vaCopy l r =>
    refine iff_of_true ?_ trivial
    obtain ⟨s, h_s, h_node⟩ := Option.bind_eq_some_iff.mp h_type
    have h_l := h_children l (by simp [Expr.children]) s h_s
    cases h_u : typeOf Γ r with
    | none => simp [h_u] at h_node
    | some u =>
      have h_r := h_children r (by simp [Expr.children]) u h_u
      rw [h_u] at h_node
      rw [optimizeExpr, optimizeNode_of_not_rewritten rfl]
      simp only [optimizeChildren, ← optimizeExpr_eq, typeOf, h_l, h_r]
      exact h_node
  | compoundLiteral | intLiteral | charLiteral | floatLiteral | stringLiteral =>
    exact iff_of_true h_type trivial
  | initializerList | designatedMember | designatedIndex => cases h_type

/-- The pass keeps the types of an expression and of all its parts exactly if each of its steps
does. -/
theorem optimizeExpr_keeps_types_iff (Γ : TypeEnv) (table : ConstTable) (e : Expr) :
    (∀ p, p.IsPart e → ∀ t, typeOf Γ p = some t → typeOf Γ (optimizeExpr table p) = some t) ↔
      ∀ p, p.IsPart e → ∀ t, typeOf Γ p = some t → StepKeepsType Γ table p t := by
  constructor
  · intro h_keeps p h_part t h_type
    have h_children : ∀ c ∈ p.children, KeepsType Γ table c := fun c h_child =>
      h_keeps c (h_part.trans_child h_child)
    exact (keepsType_iff_step h_children h_type).mp (h_keeps p h_part t h_type)
  · intro h_steps p h_part
    induction p using Expr.induction_children with
    | h_node p ih =>
      intro t h_type
      have h_children : ∀ c ∈ p.children, KeepsType Γ table c := fun c h_child =>
        ih c h_child (h_part.trans_child h_child)
      exact (keepsType_iff_step h_children h_type).mpr (h_steps p h_part t h_type)

end steps

/-- A `double` named `d`. -/
def doubleEnv : TypeEnv where
  varType name := if name = "d" then some .double else none
  fieldType _ _ := none
  isNullConstant e := e.literal = some 0
  zero_isNull h_zero := by simp [h_zero]

/-- `d * 2` becomes `d << 1`, which has no type. -/
theorem double_product_becomes_shift :
    let e := Expr.binaryOp .mul (.varRef "d") (.intLiteral (.dec 2) .int false) .void
    typeOf doubleEnv e = some .double ∧ typeOf doubleEnv (optimizeExpr [] e) = none := by
  decide

end ClaudeC99
