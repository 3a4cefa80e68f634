import ClaudeC99.Optimize.Evaluation
import ClaudeC99.Optimize.TypeKeeping

/-! Which rewrites of the optimizer keep the calls and the stores of an expression. -/

namespace ClaudeC99

open Effects (Run)

section conditions

variable (M : Machine) (table : ConstTable)

/-- The optimized expression performs the calls and the stores of the expression. -/
def KeepsEvents (e : Expr) : Prop :=
  ∀ s, (run M (optimizeExpr table e) s).events = (run M e s).events

def Effectless (e : Expr) : Prop := Run.Silent (run M e)

/-- Optimization of the left operand changes nothing about whether the right one is evaluated,
unless that makes no difference. -/
def DecisionKept (op : BinaryOp) (l r : Expr) : Prop :=
  ∀ s, evaluatesRight op (M.truth (run M (optimizeExpr table l) s).result.val) =
      evaluatesRight op (M.truth (run M l s).result.val) ∨
    (run M r (run M l s).state).events = []

def LogicalKept (op : BinaryOp) (l r : Expr) : Prop :=
  match knownValue table l, knownValue table r with
  | some a, b =>
    if evaluatesRight op (a ≠ 0) then b = none → DecisionKept M table op l r
    else ∀ s, evaluatesRight op (M.truth (run M l s).result.val) → (run M r s).events = []
  | none, some b => evaluatesRight op (b ≠ 0) = false → Effectless M l
  | none, none => DecisionKept M table op l r

/-- A dropped operand has no effect. -/
def ZeroKept (op : BinaryOp) (l r : Expr) : Prop :=
  match knownValue table l, knownValue table r with
  | none, some b => op ≠ .div → b = 0 → Effectless M l
  | some a, none => a = 0 → Effectless M r
  | _, _ => True

def BinaryEffectsKept (op : BinaryOp) (l r : Expr) : Prop :=
  match op with
  | .logicalAnd | .logicalOr => LogicalKept M table op l r
  | .mul | .div | .bitAnd => ZeroKept M table op l r
  | _ => True

/-- The arm that is left has the effects of the arm that C selects. -/
def ArmsKept (cond thenExpr elseExpr : Expr) : Prop :=
  match knownValue table cond with
  | some v =>
    ∀ s, M.truth (run M cond s).result.val = decide (v ≠ 0) ∨
      (run M thenExpr s).events = (run M elseExpr s).events
  | none =>
    ∀ s, M.truth (run M (optimizeExpr table cond) s).result.val =
        M.truth (run M cond s).result.val ∨
      (run M thenExpr (run M cond s).state).events = (run M elseExpr (run M cond s).state).events

/-- The optimized operand has the value of the operand. -/
def ValueKept (e : Expr) (s : M.State) : Prop :=
  (run M (optimizeExpr table e) s).result.val = (run M e s).result.val

def ValuesKept (es : List Expr) (s : M.State) : Prop :=
  (runAll M (es.map (optimizeExpr table)) s).result = (runAll M es s).result

def PlaceKept (e : Expr) (s : M.State) : Prop :=
  (run M (optimizeExpr table e) s).result.place = (run M e s).result.place

/-- What is stored in `p` stays the same. -/
def StoredKept (p : M.Place) (f : M.Val → M.Val) (e : Expr) (s : M.State) : Prop :=
  M.convert p (f (run M (optimizeExpr table e) s).result.val) =
    M.convert p (f (run M e s).result.val)

/-- What keeping the events of a node asks of the step of the optimizer at the node. -/
def StepKeepsEvents (e : Expr) : Prop :=
  match e with
  | .binaryOp op l r _ => BinaryEffectsKept M table op l r
  | .conditional cond thenExpr elseExpr => ArmsKept M table cond thenExpr elseExpr
  | .assignment name e => ∀ s, StoredKept M table (M.object name) id e s
  | .assignmentTo target e =>
    ∀ s, PlaceKept M table target s ∧
      StoredKept M table (run M target s).result.place id e (run M target s).state
  | .prefixIncDec op e | .postfixIncDec op e =>
    ∀ s, PlaceKept M table e s ∧ StoredKept M table (run M e s).result.place (M.step op) e s
  | .compoundLiteral _ _ _ slot e => ∀ s, StoredKept M table (M.slot slot) id e s
  | .functionCall _ _ args => ∀ s, ValuesKept M table args s
  | .indirectCall callee args =>
    ∀ s, ValueKept M table callee s ∧ ValuesKept M table args (run M callee s).state
  | .vaStart l r | .vaCopy l r =>
    ∀ s, ValueKept M table l s ∧ ValueKept M table r (run M l s).state
  | .vaEnd e | .vaArg e _ => ∀ s, ValueKept M table e s
  | _ => True

end conditions

section steps

variable {M : Machine} {table : ConstTable}

@[simp] theorem value_events (v : M.Val) (s : M.State) : (M.value v s).events = [] := rfl

@[simp] theorem located_events (p : M.Place) (s : M.State) : (M.located p s).events = [] := rfl

@[simp] theorem assign_events (p : M.Place) (v : M.Val) (s : M.State) :
    (M.assign p v s).events = [.store p (M.convert p v)] := rfl

@[simp] theorem invoke_events (event : M.Event) (s : M.State) :
    (M.invoke event s).events = [event] := rfl

theorem KeepsEvents.state_eq {e : Expr} (h_e : KeepsEvents M table e) (s : M.State) :
    (run M (optimizeExpr table e) s).state = (run M e s).state :=
  (determined_run M _).state_eq (determined_run M _) (h_e s)

theorem Effectless.state_eq {e : Expr} (h_e : Effectless M e) (s : M.State) :
    (run M e s).state = s :=
  (determined_run M _).state_of_silent (h_e s)

theorem effectless_literal {e : Expr} {v : Int} (h_literal : e.literal = some v) :
    Effectless M e := by
  obtain ⟨text, kind, isUnsigned, rfl, -⟩ := exists_of_literal h_literal
  intro s
  rfl

@[simp] theorem newLiteral_events (v : Int) (kind : TypeKind) (isUnsigned : Bool) (s : M.State) :
    (run M (newLiteral v kind isUnsigned) s).events = [] := rfl

@[simp] theorem zeroLike_events (e : Expr) (s : M.State) :
    (run M (zeroLike e) s).events = [] := rfl

@[simp] theorem intTruth_events (b : Bool) (s : M.State) :
    (run M (intTruth b) s).events = [] := rfl

theorem binary_events (op : BinaryOp) (l r : Expr) (k : TypeKind) (s : M.State) :
    (run M (.binaryOp op l r k) s).events =
      (run M l s).events ++
        if evaluatesRight op (M.truth (run M l s).result.val) then
          (run M r (run M l s).state).events else [] := by
  rw [run, Run.bind_events]
  split <;> simp

end steps

section arithmetic

variable {M : Machine} {table : ConstTable} {op : BinaryOp} {l r : Expr} {k : TypeKind}

def BinaryOp.isLogical : BinaryOp → Bool
  | .logicalAnd | .logicalOr => true
  | _ => false

theorem evaluatesRight_of_not_logical (h_op : op.isLogical = false) (b : Bool) :
    evaluatesRight op b = true := by
  cases op <;> first
    | rfl
    | cases h_op

theorem arithmetic_events (h_op : op.isLogical = false) (s : M.State) :
    (run M (.binaryOp op l r k) s).events =
      (run M l s).events ++ (run M r (run M l s).state).events := by
  rw [binary_events, evaluatesRight_of_not_logical h_op, if_pos rfl]

theorem literals_events {a b : Int} (h_op : op.isLogical = false) (h_a : l.literal = some a)
    (h_b : r.literal = some b) (s : M.State) :
    (run M (optimizeNode table (.binaryOp op l r k)) s).events = [] := by
  have h_node := arithmetic_events (M := M) (l := l) (r := r) (k := k) h_op s
  rw [effectless_literal h_a, effectless_literal h_b] at h_node
  cases h_fold : foldLong op a b with
  | some result =>
    obtain ⟨v, isBool⟩ := result
    cases isBool <;> simp [optimizeNode_binary, foldBinary, h_a, h_b, h_fold]
  | none =>
    cases op <;> simp only [foldLong, reduceCtorEq] at h_fold
    case logicalAnd | logicalOr => cases h_op
    case mod =>
      have h_zero : b = 0 := by simpa using h_fold
      simpa [optimizeNode_binary, foldBinary, foldLogical, foldIdentity, foldZero, reduceStrength,
        simplifyLogical, h_a, h_b, h_zero, foldLong] using h_node
    case div =>
      have h_zero : b = 0 := by simpa using h_fold
      by_cases h_num : a = 0
      · simp [optimizeNode_binary, foldBinary, foldLogical, foldIdentity, foldZero, h_a, h_b,
          h_zero, h_num, foldLong]
      · simpa [optimizeNode_binary, foldBinary, foldLogical, foldIdentity, foldZero,
          reduceStrength, powerOfTwo, simplifyLogical, h_a, h_b, h_zero, h_num, foldLong]
          using h_node

theorem right_events (table : ConstTable) {b : Int} (h_op : op.isLogical = false) (h_a : l.literal = none)
    (h_b : r.literal = some b) :
    (∀ s, (run M (optimizeNode table (.binaryOp op l r k)) s).events = (run M l s).events) ↔
      ((op = .mul ∨ op = .bitAnd) → b = 0 → Effectless M l) := by
  have h_node (op : BinaryOp) (h_op : op.isLogical = false) (e : Expr) (k : TypeKind)
      (h_e : Effectless M e) (s : M.State) :
      (run M (.binaryOp op l e k) s).events = (run M l s).events := by
    rw [arithmetic_events h_op, h_e, List.append_nil]
  have h_var := bothSameVar_literal_right (l := l) h_b
  have h_power := powerOfTwo_of_not_literal h_a
  rw [optimizeNode_oneLiteral (.inl h_a)]
  cases op with
  | logicalAnd | logicalOr => cases h_op
  | mul =>
    have h_unchanged := h_node .mul h_op r k (effectless_literal h_b)
    by_cases h_one : b = 1
    · simp [foldLogical, foldIdentity, h_b, h_one]
    by_cases h_zero : b = 0
    · simp [foldLogical, foldIdentity, foldZero, h_a, h_b, h_zero, Effectless, Run.Silent, eq_comm]
    by_cases h_two : IsPowerOfTwo b
    · have h_shift (s : M.State) := h_node .shiftLeft rfl (newLiteral b.toNat.log2 .int false) k
        (effectless_literal rfl) s
      simp [foldLogical, foldIdentity, foldZero, reduceStrength, h_a, h_b, h_one, h_zero,
        powerOfTwo_eq_some h_b h_two, h_shift]
    · simp [foldLogical, foldIdentity, foldZero, reduceStrength, simplifyLogical, h_a, h_b, h_one,
        h_zero, h_power, powerOfTwo_eq_none h_b h_two, h_unchanged]
  | div =>
    have h_unchanged := h_node .div h_op r k (effectless_literal h_b)
    by_cases h_one : b = 1
    · simp [foldLogical, foldIdentity, h_b, h_one]
    by_cases h_two : IsPowerOfTwo b ∧ l.isUnsigned
    · have h_shift (s : M.State) := h_node .shiftRight rfl (newLiteral b.toNat.log2 .int false) k
        (effectless_literal rfl) s
      simp [foldLogical, foldIdentity, foldZero, reduceStrength, h_a, h_b, h_one, h_two.2,
        powerOfTwo_eq_some h_b h_two.1, h_shift]
    · have h_strength : reduceStrength (.binaryOp .div l r k) = none := by
        by_cases h_power : IsPowerOfTwo b
        · simp_all [reduceStrength, powerOfTwo_eq_some h_b h_power]
        · simp [reduceStrength, powerOfTwo_eq_none h_b h_power]
      simp [foldLogical, foldIdentity, foldZero, simplifyLogical, h_a, h_b, h_one, h_strength,
        h_unchanged]
  | bitAnd =>
    have h_unchanged := h_node .bitAnd h_op r k (effectless_literal h_b)
    by_cases h_ones : b = -1
    · simp [foldLogical, foldIdentity, h_b, h_ones]
    by_cases h_zero : b = 0
    · simp [foldLogical, foldIdentity, foldZero, h_a, h_b, h_zero, Effectless, Run.Silent, eq_comm]
    · simp [foldLogical, foldIdentity, foldZero, reduceStrength, simplifyLogical, h_a, h_b, h_ones,
        h_zero, h_unchanged]
  | _ =>
    have h_unchanged := h_node _ h_op r k (effectless_literal h_b)
    by_cases h_zero : b = 0 <;>
      simp_all [foldLogical, foldIdentity, foldZero, reduceStrength, simplifyLogical]

theorem left_events (table : ConstTable) {a : Int} (h_op : op.isLogical = false) (h_a : l.literal = some a)
    (h_b : r.literal = none) :
    (∀ s, (run M (optimizeNode table (.binaryOp op l r k)) s).events = (run M r s).events) ↔
      ((op = .mul ∨ op = .div ∨ op = .bitAnd) → a = 0 → Effectless M r) := by
  have h_l := effectless_literal (M := M) h_a
  have h_unchanged (s : M.State) : (run M (.binaryOp op l r k) s).events = (run M r s).events := by
    rw [arithmetic_events h_op, h_l, h_l.state_eq, List.nil_append]
  have h_var := bothSameVar_literal_left (r := r) h_a
  have h_power := powerOfTwo_of_not_literal h_b
  rw [optimizeNode_oneLiteral (.inr h_b)]
  cases op with
  | logicalAnd | logicalOr => cases h_op
  | mul =>
    by_cases h_one : a = 1
    · simp [foldLogical, foldIdentity, h_a, h_b, h_one]
    by_cases h_zero : a = 0
    · simp [foldLogical, foldIdentity, foldZero, h_a, h_b, h_zero, Effectless, Run.Silent, eq_comm]
    by_cases h_two : IsPowerOfTwo a
    · have h_shift (s : M.State) : (run M (.binaryOp .shiftLeft r
          (newLiteral a.toNat.log2 .int false) k) s).events = (run M r s).events := by
        rw [arithmetic_events rfl, newLiteral_events, List.append_nil]
      simp [foldLogical, foldIdentity, foldZero, reduceStrength, h_a, h_b, h_one, h_zero, h_power,
        powerOfTwo_eq_some h_a h_two, h_shift]
    · simp [foldLogical, foldIdentity, foldZero, reduceStrength, simplifyLogical, h_a, h_b, h_one,
        h_zero, h_power, powerOfTwo_eq_none h_a h_two, h_unchanged]
  | div =>
    by_cases h_zero : a = 0
    · simp [foldLogical, foldIdentity, foldZero, h_a, h_b, h_zero, Effectless, Run.Silent, eq_comm]
    · simp [foldLogical, foldIdentity, foldZero, reduceStrength, simplifyLogical, h_a, h_b, h_zero,
        h_power, h_unchanged]
  | bitAnd =>
    by_cases h_ones : a = -1
    · simp [foldLogical, foldIdentity, h_a, h_b, h_ones]
    by_cases h_zero : a = 0
    · simp [foldLogical, foldIdentity, foldZero, h_a, h_b, h_zero, Effectless, Run.Silent, eq_comm]
    · simp [foldLogical, foldIdentity, foldZero, reduceStrength, simplifyLogical, h_a, h_b, h_ones,
        h_zero, h_unchanged]
  | _ =>
    by_cases h_zero : a = 0 <;>
      simp_all [foldLogical, foldIdentity, foldZero, reduceStrength, simplifyLogical]

theorem varRefs_of_bothSameVar (h_var : bothSameVar l r = true) :
    ∃ name, l = .varRef name ∧ r = .varRef name := by
  unfold bothSameVar at h_var
  split at h_var
  · next a b =>
    obtain rfl : a = b := by simpa using h_var
    exact ⟨a, rfl, rfl⟩
  · cases h_var

theorem operands_events (h_op : op.isLogical = false) (h_a : l.literal = none)
    (h_b : r.literal = none) (s : M.State) :
    (run M (optimizeNode table (.binaryOp op l r k)) s).events =
      (run M l s).events ++ (run M r (run M l s).state).events := by
  rw [← arithmetic_events (k := k) h_op, optimizeNode_oneLiteral (.inl h_a)]
  have h_left := powerOfTwo_of_not_literal h_a
  have h_right := powerOfTwo_of_not_literal h_b
  cases h_var : bothSameVar l r with
  | false =>
    cases op <;>
      simp_all [foldLogical, foldIdentity, foldZero, reduceStrength, simplifyLogical]
  | true =>
    have h_events : (run M (.binaryOp op l r k) s).events = [] := by
      obtain ⟨name, rfl, rfl⟩ := varRefs_of_bothSameVar h_var
      rw [arithmetic_events h_op]
      simp [run]
    cases op <;>
      simp_all [foldLogical, foldIdentity, foldZero, reduceStrength, simplifyLogical]

end arithmetic

section logical

variable {M : Machine} {table : ConstTable} {op : BinaryOp} {l r : Expr} {k : TypeKind}

theorem unchanged_iff (h_l : KeepsEvents M table l) (h_r : KeepsEvents M table r) :
    (∀ s, (run M (.binaryOp op (optimizeExpr table l) (optimizeExpr table r) k) s).events =
        (run M (.binaryOp op l r k) s).events) ↔ DecisionKept M table op l r := by
  refine forall_congr' fun s => ?_
  rw [binary_events, binary_events, h_l, h_l.state_eq, h_r]
  cases evaluatesRight op (M.truth (run M (optimizeExpr table l) s).result.val) <;>
    cases evaluatesRight op (M.truth (run M l s).result.val) <;>
    simp [eq_comm]

/-- The rules for `&&` and `||`. -/
theorem optimizeNode_logical (h_op : op.isLogical = true) :
    optimizeNode table (.binaryOp op l r k) =
      (foldLogical (.binaryOp op l r k) <|> simplifyLogical (.binaryOp op l r k)).getD
        (.binaryOp op l r k) := by
  have h_fold : foldBinary (.binaryOp op l r k) = none := by
    cases op <;> try cases h_op
    all_goals cases h_a : l.literal <;> cases h_b : r.literal <;> simp [foldBinary, h_a, h_b, foldLong]
  rw [optimizeNode_binary, h_fold]
  cases op <;> try cases h_op
  all_goals rfl

/-- A literal on the left decides, or both operands are literals. -/
theorem logical_folded (table : ConstTable) {a : Int} (h_op : op.isLogical = true) (h_a : l.literal = some a)
    (h_fold : evaluatesRight op (a ≠ 0) = false ∨ r.literal ≠ none) :
    ∃ b, optimizeNode table (.binaryOp op l r k) = intTruth b := by
  rw [optimizeNode_logical h_op]
  cases op <;> try cases h_op
  all_goals
    by_cases h_zero : a = 0 <;> cases h_b : r.literal <;>
      simp_all [foldLogical, simplifyLogical, evaluatesRight]

/-- A literal on the right decides. -/
theorem logical_decided (table : ConstTable) {b : Int} (h_op : op.isLogical = true) (h_a : l.literal = none)
    (h_b : r.literal = some b) (h_decides : evaluatesRight op (b ≠ 0) = false) :
    ∃ t, optimizeNode table (.binaryOp op l r k) = intTruth t := by
  rw [optimizeNode_logical h_op]
  cases op <;> try cases h_op
  all_goals simp_all [foldLogical, simplifyLogical, evaluatesRight]

/-- With a literal on the right that does not decide, the left operand is tested. -/
theorem logical_tested (table : ConstTable) {b : Int} (h_op : op.isLogical = true) (h_a : l.literal = none)
    (h_b : r.literal = some b) (h_decides : evaluatesRight op (b ≠ 0) = true) :
    ∃ z v, z.literal = some v ∧
      optimizeNode table (.binaryOp op l r k) = .binaryOp .ne l z .int := by
  rw [optimizeNode_logical h_op]
  cases op <;> try cases h_op
  case logicalAnd =>
    refine ⟨newLiteral 0 .int false, _, rfl, ?_⟩
    simp_all [foldLogical, simplifyLogical, evaluatesRight]
  case logicalOr =>
    refine ⟨r, _, h_b, ?_⟩
    simp_all [foldLogical, simplifyLogical, evaluatesRight]

theorem logical_unchanged (h_op : op.isLogical = true) (h_b : r.literal = none)
    (h_left : ∀ a, l.literal = some a → evaluatesRight op (a ≠ 0) = true) :
    optimizeNode table (.binaryOp op l r k) = .binaryOp op l r k := by
  rw [optimizeNode_logical h_op]
  cases h_a : l.literal <;> cases op <;> try cases h_op
  all_goals simp_all [foldLogical, simplifyLogical, evaluatesRight]

theorem step_logical (h_op : op.isLogical = true) (h_l : KeepsEvents M table l)
    (h_r : KeepsEvents M table r) :
    KeepsEvents M table (.binaryOp op l r k) ↔ LogicalKept M table op l r := by
  have h_node : optimizeExpr table (.binaryOp op l r k) =
      optimizeNode table (.binaryOp op (optimizeExpr table l) (optimizeExpr table r) k) := rfl
  rw [KeepsEvents, h_node, LogicalKept, knownValue, knownValue]
  cases h_a : (optimizeExpr table l).literal with
  | some a =>
    have h_silent : Effectless M l := fun s => (h_l s).symm.trans (effectless_literal h_a s)
    cases h_decide : evaluatesRight op (a ≠ 0) with
    | false =>
      obtain ⟨b, h_fold⟩ := logical_folded table (k := k) h_op h_a (.inl h_decide)
      simp only [h_decide, Bool.false_eq_true, if_false]
      refine forall_congr' fun s => ?_
      rw [h_fold, intTruth_events, binary_events, h_silent s, h_silent.state_eq s, List.nil_append]
      cases evaluatesRight op (M.truth (run M l s).result.val) <;> simp [eq_comm]
    | true =>
      cases h_b : (optimizeExpr table r).literal with
      | some b =>
        obtain ⟨t, h_fold⟩ := logical_folded table (k := k) h_op h_a
          (.inr (by rw [h_b]; simp))
        simp only [h_decide, if_true, reduceCtorEq, false_imp_iff, iff_true]
        intro s
        have h_right : Effectless M r := fun s => (h_r s).symm.trans (effectless_literal h_b s)
        rw [h_fold, intTruth_events, binary_events, h_silent s, h_right _, ite_self]
        rfl
      | none =>
        have h_left (v : Int) (h_v : (optimizeExpr table l).literal = some v) :
            evaluatesRight op (v ≠ 0) = true := by
          rw [h_a, Option.some.injEq] at h_v
          rw [← h_v, h_decide]
        simp only [h_decide, if_true, true_imp_iff]
        rw [logical_unchanged h_op h_b h_left, unchanged_iff h_l h_r]
  | none =>
    cases h_b : (optimizeExpr table r).literal with
    | none =>
      rw [logical_unchanged h_op h_b (by simp [h_a]), unchanged_iff h_l h_r]
    | some b =>
      have h_right : Effectless M r := fun s => (h_r s).symm.trans (effectless_literal h_b s)
      have h_node (s : M.State) :
          (run M (.binaryOp op l r k) s).events = (run M l s).events := by
        rw [binary_events, h_right _, ite_self, List.append_nil]
      cases h_decide : evaluatesRight op (b ≠ 0) with
      | false =>
        obtain ⟨t, h_fold⟩ := logical_decided table (k := k) h_op h_a h_b h_decide
        simp only [h_decide, true_imp_iff, Effectless, Run.Silent]
        refine forall_congr' fun s => ?_
        rw [h_fold, intTruth_events, h_node s, eq_comm]
      | true =>
        obtain ⟨z, v, h_z, h_fold⟩ :=
          logical_tested table (k := k) h_op h_a h_b h_decide
        simp only [h_decide, Bool.true_eq_false, false_imp_iff, iff_true]
        intro s
        rw [h_fold, h_node, arithmetic_events rfl, effectless_literal h_z _, List.append_nil, h_l]

theorem effectless_optimized {e : Expr} (h_e : KeepsEvents M table e) :
    Effectless M (optimizeExpr table e) ↔ Effectless M e := by
  refine forall_congr' fun s => ?_
  rw [h_e s]

theorem step_arithmetic (h_op : op.isLogical = false) (h_l : KeepsEvents M table l)
    (h_r : KeepsEvents M table r) :
    KeepsEvents M table (.binaryOp op l r k) ↔ BinaryEffectsKept M table op l r := by
  have h_node : optimizeExpr table (.binaryOp op l r k) =
      optimizeNode table (.binaryOp op (optimizeExpr table l) (optimizeExpr table r) k) := rfl
  rw [KeepsEvents, h_node]
  cases h_a : (optimizeExpr table l).literal with
  | some a =>
    have h_left : Effectless M l := fun s => (h_l s).symm.trans (effectless_literal h_a s)
    have h_events (s : M.State) : (run M (.binaryOp op l r k) s).events = (run M r s).events := by
      rw [arithmetic_events h_op, h_left s, h_left.state_eq s, List.nil_append]
    cases h_b : (optimizeExpr table r).literal with
    | some b =>
      have h_right : Effectless M r := fun s => (h_r s).symm.trans (effectless_literal h_b s)
      refine iff_of_true (fun s => ?_) ?_
      · rw [literals_events h_op h_a h_b, h_events, h_right s]
      · cases op <;> simp [BinaryEffectsKept, ZeroKept, knownValue, h_a, h_b] <;> cases h_op
    | none =>
      have h_iff := left_events (M := M) table (k := k) h_op h_a h_b
      rw [effectless_optimized h_r] at h_iff
      have h_kept : BinaryEffectsKept M table op l r ↔
          ((op = .mul ∨ op = .div ∨ op = .bitAnd) → a = 0 → Effectless M r) := by
        cases op <;> simp [BinaryEffectsKept, ZeroKept, knownValue, h_a, h_b] <;> cases h_op
      rw [h_kept, ← h_iff]
      refine forall_congr' fun s => ?_
      rw [h_events, h_r s]
  | none =>
    cases h_b : (optimizeExpr table r).literal with
    | some b =>
      have h_right : Effectless M r := fun s => (h_r s).symm.trans (effectless_literal h_b s)
      have h_iff := right_events (M := M) table (k := k) h_op h_a h_b
      rw [effectless_optimized h_l] at h_iff
      have h_kept : BinaryEffectsKept M table op l r ↔
          ((op = .mul ∨ op = .bitAnd) → b = 0 → Effectless M l) := by
        cases op <;> simp [BinaryEffectsKept, ZeroKept, knownValue, h_a, h_b] <;> cases h_op
      rw [h_kept, ← h_iff]
      refine forall_congr' fun s => ?_
      rw [arithmetic_events h_op, h_right _, List.append_nil, h_l s]
    | none =>
      refine iff_of_true (fun s => ?_) ?_
      · rw [operands_events h_op h_a h_b, arithmetic_events h_op, h_l, h_l.state_eq, h_r]
      · cases op <;> simp [BinaryEffectsKept, ZeroKept, knownValue, h_a, h_b] <;> cases h_op

theorem step_binary_events (h_l : KeepsEvents M table l) (h_r : KeepsEvents M table r) :
    KeepsEvents M table (.binaryOp op l r k) ↔ BinaryEffectsKept M table op l r := by
  cases h_op : op.isLogical with
  | false => exact step_arithmetic h_op h_l h_r
  | true =>
    rw [step_logical h_op h_l h_r]
    cases op <;> first
      | rfl
      | cases h_op

end logical

section nodes

variable {M : Machine} {table : ConstTable}

theorem conditional_events (c a b : Expr) (s : M.State) :
    (run M (.conditional c a b) s).events =
      (run M c s).events ++
        if M.truth (run M c s).result.val then (run M a (run M c s).state).events
        else (run M b (run M c s).state).events := by
  rw [run, Run.bind_events]
  split <;> simp

theorem step_conditional_events {c a b : Expr} (h_c : KeepsEvents M table c)
    (h_a : KeepsEvents M table a) (h_b : KeepsEvents M table b) :
    KeepsEvents M table (.conditional c a b) ↔ ArmsKept M table c a b := by
  have h_node : optimizeExpr table (.conditional c a b) =
      optimizeNode table (.conditional (optimizeExpr table c) (optimizeExpr table a)
        (optimizeExpr table b)) := rfl
  rw [KeepsEvents, h_node, optimizeNode_conditional, ArmsKept, knownValue]
  cases h_known : (optimizeExpr table c).literal with
  | some v =>
    have h_silent : Effectless M c := fun s => (h_c s).symm.trans (effectless_literal h_known s)
    refine forall_congr' fun s => ?_
    rw [conditional_events, h_silent s, h_silent.state_eq s, List.nil_append]
    by_cases h_zero : v = 0 <;> cases M.truth (run M c s).result.val <;>
      simp [foldConditional, h_known, h_zero, h_a s, h_b s, eq_comm]
  | none =>
    refine forall_congr' fun s => ?_
    have h_fold : foldConditional (.conditional (optimizeExpr table c) (optimizeExpr table a)
        (optimizeExpr table b)) = none := by simp [foldConditional, h_known]
    rw [h_fold, Option.getD_none, conditional_events, conditional_events, h_c s, h_c.state_eq s,
      h_a, h_b]
    cases M.truth (run M (optimizeExpr table c) s).result.val <;>
      cases M.truth (run M c s).result.val <;>
      simp [eq_comm]

theorem runAll_events : ∀ {es : List Expr}, (∀ e ∈ es, KeepsEvents M table e) → ∀ s,
    (runAll M (es.map (optimizeExpr table)) s).events = (runAll M es s).events
  | [], _, _ => rfl
  | e :: es, h_es, s => by
    have h_e := h_es e (.head _)
    have h_rest := runAll_events fun e h_mem => h_es e (.tail _ h_mem)
    simp [runAll, h_e s, h_e.state_eq s, h_rest]

theorem unary_events (op : UnaryOp) (e : Expr) (s : M.State) :
    (run M (optimizeNode table (.unaryOp op e)) s).events = (run M e s).events := by
  have h_node : (run M (.unaryOp op e) s).events = (run M e s).events := by simp [run]
  rw [optimizeNode_unary]
  cases h_literal : e.literal with
  | some v =>
    have h_fold : ∃ w kind isUnsigned,
        foldUnary (.unaryOp op e) = some (newLiteral w kind isUnsigned) := by
      simp only [foldUnary, h_literal, Option.bind_eq_bind, Option.bind_some]
      cases op <;> exact ⟨_, _, _, rfl⟩
    obtain ⟨w, kind, isUnsigned, h_fold⟩ := h_fold
    rw [h_fold, effectless_literal h_literal s]
    rfl
  | none =>
    have h_fold : foldUnary (.unaryOp op e) = none := by simp [foldUnary, h_literal]
    rw [h_fold]
    cases op with
    | plus | tilde => simpa [foldDoubleNot, foldDoubleNegation] using h_node
    | bang =>
      rw [foldDoubleNot.eq_def]
      split
      · next x h_match =>
        cases h_match
        have h_test : (run M (.binaryOp .ne x (newLiteral 0 .int false) .int) s).events =
            (run M x s).events := by
          rw [arithmetic_events rfl, newLiteral_events, List.append_nil]
        have h_inner : (run M (.unaryOp .bang x) s).events = (run M x s).events := by simp [run]
        split
        · exact h_test.trans h_inner.symm
        · simpa [foldDoubleNegation] using h_node
      · simpa [foldDoubleNegation] using h_node
    | minus =>
      cases h_inner : foldDoubleNegation (.unaryOp .minus e) with
      | none => simpa [foldDoubleNot, h_inner] using h_node
      | some x =>
        obtain ⟨rfl, -⟩ := foldDoubleNegation_eq_some h_inner
        simp [foldDoubleNot, run]

theorem cast_events (k : TypeKind) (isUnsigned : Bool) (type : Option CType) (e : Expr)
    (s : M.State) :
    (run M (optimizeNode table (.cast k isUnsigned type e)) s).events = (run M e s).events := by
  rw [optimizeNode_cast]
  cases h_fold : foldCast (.cast k isUnsigned type e) with
  | none => simp [run]
  | some x =>
    simp only [foldCast, Option.bind_eq_bind, Option.bind_eq_some_iff] at h_fold
    obtain ⟨v, h_literal, h_fold⟩ := h_fold
    split at h_fold
    · cases h_fold
      rw [effectless_literal h_literal s]
      rfl
    · cases h_fold

theorem sizeof_events (e : Expr) (s : M.State) :
    (run M (optimizeNode table (.sizeofExpr e)) s).events = [] := by
  rw [optimizeNode_sizeofExpr, foldSizeofExpr.eq_def]
  split <;> rfl

/-- Where its children keep their calls and stores, a node keeps them exactly if the step there
does. -/
theorem keepsEvents_iff_step {e : Expr} (h_children : ∀ c ∈ e.children, KeepsEvents M table c) :
    KeepsEvents M table e ↔ StepKeepsEvents M table e := by
  cases e with
  | binaryOp op l r k =>
    exact step_binary_events (h_children l (by simp [Expr.children]))
      (h_children r (by simp [Expr.children]))
  | conditional c a b =>
    exact step_conditional_events (h_children c (by simp [Expr.children]))
      (h_children a (by simp [Expr.children])) (h_children b (by simp [Expr.children]))
  | unaryOp op e =>
    have h_e := h_children e (by simp [Expr.children])
    refine iff_of_true (fun s => ?_) trivial
    rw [optimizeExpr, optimizeChildren, unary_events]
    simp [run, ← h_e s, optimizeExpr]
  | cast k isUnsigned type e =>
    have h_e := h_children e (by simp [Expr.children])
    refine iff_of_true (fun s => ?_) trivial
    rw [optimizeExpr, optimizeChildren, cast_events]
    simp [run, ← h_e s, optimizeExpr]
  | sizeofExpr e => exact iff_of_true (fun s => sizeof_events _ s) trivial
  | sizeofType k type =>
    refine iff_of_true (fun s => ?_) trivial
    cases k <;> cases type <;> rfl
  | varRef name =>
    refine iff_of_true (fun s => ?_) trivial
    rw [optimizeExpr_varRef]
    cases h_entry : constPropLookup table name <;> simp [propagateConst, h_entry, run]
  | intLiteral | charLiteral | floatLiteral | stringLiteral => exact iff_of_true (fun _ => rfl) trivial
  | addrOf e | deref e | memberAccess e field | arrowAccess e field | designatedMember field e
  | designatedIndex i e =>
    have h_e := h_children e (by simp [Expr.children])
    refine iff_of_true (fun s => ?_) trivial
    rw [optimizeExpr, optimizeNode_of_not_rewritten rfl]
    simp [optimizeChildren, ← optimizeExpr_eq, run, h_e s]
  | arrayIndex l r | comma l r =>
    have h_l := h_children l (by simp [Expr.children])
    have h_r := h_children r (by simp [Expr.children])
    refine iff_of_true (fun s => ?_) trivial
    rw [optimizeExpr, optimizeNode_of_not_rewritten rfl]
    simp [optimizeChildren, ← optimizeExpr_eq, run, h_l s, h_l.state_eq s, h_r (run M l s).state]
  | initializerList es =>
    have h_es : ∀ e ∈ es, KeepsEvents M table e := h_children
    refine iff_of_true (fun s => ?_) trivial
    rw [optimizeExpr, optimizeNode_of_not_rewritten rfl]
    simp [optimizeChildren, optimizeExprs_eq_map, run, runAll_events h_es s]
  | assignment name e =>
    have h_e := h_children e (by simp [Expr.children])
    refine forall_congr' fun s => ?_
    rw [optimizeExpr, optimizeNode_of_not_rewritten rfl]
    simp [optimizeChildren, ← optimizeExpr_eq, run, h_e s, StoredKept]
  | compoundLiteral k type u slot e =>
    have h_e := h_children e (by simp [Expr.children])
    refine forall_congr' fun s => ?_
    rw [optimizeExpr, optimizeNode_of_not_rewritten rfl]
    simp [optimizeChildren, ← optimizeExpr_eq, run, h_e s, StoredKept]
  | assignmentTo target e =>
    have h_target := h_children target (by simp [Expr.children])
    have h_e := h_children e (by simp [Expr.children])
    refine forall_congr' fun s => ?_
    rw [optimizeExpr, optimizeNode_of_not_rewritten rfl]
    simp [optimizeChildren, ← optimizeExpr_eq, run, h_target s, h_target.state_eq s,
      h_e (run M target s).state, StoredKept, PlaceKept]
    intro h_place
    rw [h_place]
  | prefixIncDec op e | postfixIncDec op e =>
    have h_e := h_children e (by simp [Expr.children])
    refine forall_congr' fun s => ?_
    rw [optimizeExpr, optimizeNode_of_not_rewritten rfl]
    simp [optimizeChildren, ← optimizeExpr_eq, run, h_e s, StoredKept, PlaceKept]
    intro h_place
    rw [h_place]
  | functionCall name k args =>
    have h_args : ∀ e ∈ args, KeepsEvents M table e := h_children
    refine forall_congr' fun s => ?_
    rw [optimizeExpr, optimizeNode_of_not_rewritten rfl]
    simp [optimizeChildren, optimizeExprs_eq_map, run, runAll_events h_args s, ValuesKept]
  | indirectCall callee args =>
    have h_callee := h_children callee (.head _)
    have h_args : ∀ e ∈ args, KeepsEvents M table e := fun e h_e => h_children e (.tail _ h_e)
    refine forall_congr' fun s => ?_
    rw [optimizeExpr, optimizeNode_of_not_rewritten rfl]
    simp [optimizeChildren, ← optimizeExpr_eq, optimizeExprs_eq_map, run, h_callee s,
      h_callee.state_eq s, runAll_events h_args, ValueKept, ValuesKept]
  | vaStart l r | vaCopy l r =>
    have h_l := h_children l (by simp [Expr.children])
    have h_r := h_children r (by simp [Expr.children])
    refine forall_congr' fun s => ?_
    rw [optimizeExpr, optimizeNode_of_not_rewritten rfl]
    simp [optimizeChildren, ← optimizeExpr_eq, run, h_l s, h_l.state_eq s,
      h_r (run M l s).state, ValueKept]
  | vaEnd e | vaArg e type =>
    have h_e := h_children e (by simp [Expr.children])
    refine forall_congr' fun s => ?_
    rw [optimizeExpr, optimizeNode_of_not_rewritten rfl]
    simp [optimizeChildren, ← optimizeExpr_eq, run, h_e s, ValueKept]

/-- The pass keeps the calls and the stores of an expression and of all its parts exactly if each of
its steps does. -/
theorem optimizeExpr_keeps_effects_iff (M : Machine) (table : ConstTable) (e : Expr) :
    (∀ p, p.IsPart e → ∀ s, (run M (optimizeExpr table p) s).events = (run M p s).events) ↔
      ∀ p, p.IsPart e → StepKeepsEvents M table p := by
  constructor
  · intro h_keeps p h_part
    have h_children : ∀ c ∈ p.children, KeepsEvents M table c := fun c h_child =>
      h_keeps c (h_part.trans_child h_child)
    exact (keepsEvents_iff_step h_children).mp (h_keeps p h_part)
  · intro h_steps p h_part
    induction p using Expr.induction_children with
    | h_node p ih =>
      have h_children : ∀ c ∈ p.children, KeepsEvents M table c := fun c h_child =>
        ih c h_child (h_part.trans_child h_child)
      exact (keepsEvents_iff_step h_children).mpr (h_steps p h_part)

end nodes

/-- A machine with one value, of which only the events matter. -/
def unitMachine : Machine where
  State := Unit
  Place := Unit
  Val := Unit
  effect _ _ := ()
  reply _ _ := ()
  constant _ := ()
  object _ := ()
  string _ := ()
  slot _ := ()
  temporary _ := ()
  read _ _ := ()
  address _ := ()
  pointee _ := ()
  index _ _ := ()
  member _ _ := ()
  unary _ _ := ()
  binary _ _ _ := ()
  cast _ _ _ _ := ()
  truth _ := true
  ofTruth _ := ()
  arm _ _ _ := ()
  convert _ _ := ()
  step _ _ := ()
  aggregate _ := ()
  designatedMember _ _ := ()
  designatedIndex _ _ := ()

/-- `f() * 0` calls `f`, and the literal `0` that it becomes does not. -/
theorem zero_product_drops_call :
    let e := Expr.binaryOp .mul (.functionCall "f" .int []) (.intLiteral (.dec 0) .int false) .void
    (run unitMachine e ()).events = [.call "f" []] ∧
      (run unitMachine (optimizeExpr [] e) ()).events = [] := by
  exact ⟨rfl, rfl⟩

end ClaudeC99
