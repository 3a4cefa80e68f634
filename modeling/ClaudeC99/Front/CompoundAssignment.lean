import ClaudeC99.Front.GrammarComplete
import ClaudeC99.Optimize.Frozen

/-! Compound assignments: how often the tree that the parser builds evaluates its target. -/

namespace ClaudeC99

open Effects (Run)

/-- `target op= value` by the rules of C: the target is evaluated once. -/
def Machine.compound (M : Machine) (op : BinaryOp) (target value : Expr) : M.Run M.Result := do
  let p ← run M target
  let w ← run M value
  M.assign p.place (M.operate op p.val w.val)

namespace Expressions

open Front (Token TokenType)

/-- `parse_assignment_expression` reads `target`, `op` and `value` and builds `tree`. -/
def Builds (c : Context) (self : Callees) (op : TokenType) (target value tree : Expr) : Prop :=
  ∃ s s₁ s', parseConditional c self s = .ok (target, s₁) ∧ c.type s₁ = op ∧
    self.assignment s₁.tail = .ok (value, s') ∧
    parseAssignmentExpression c self s = .ok (tree, s')

section trees

variable {c : Context} {self : Callees} {op : TokenType} {target value tree : Expr} {o : BinaryOp}

/-- A plain name has a tree of its own; another target is copied. -/
theorem Builds.tree_eq (sound : Sound c self) (built : Builds c self op target value tree)
    (assigns : isAssignment op = true) (lvalue : isTarget target = true) :
    tree = .assignmentTo target (assignedValue op target value) ∨
      ∃ name, target = .varRef name ∧
        tree = .assignment name (assignedValue op (.varRef name) value) := by
  obtain ⟨s, s₁, s', left, operator, right, whole⟩ := built
  obtain ⟨token, named, rhs, read, rfl⟩ | ⟨-, lhs, s₂, left', ⟨noOp, -⟩ | ⟨-, -, rhs, read, rfl⟩⟩ :=
    parseAssignmentExpression_iff.mp whole
  · obtain ⟨rfl, only⟩ := (parseConditional_sound sound left).ends rfl token named
    rw [right] at read
    cases read
    exact .inr ⟨c.name s, only target (List.mem_singleton_self _) lvalue, by rw [operator]⟩
  · rw [left] at left'
    cases left'
    rw [operator, assigns] at noOp
    cases noOp
  · rw [left] at left'
    cases left'
    rw [right] at read
    cases read
    exact .inl (by rw [operator])

theorem evaluatesRight_compound (compound : compoundOperator op = some o) (truth : Bool) :
    evaluatesRight o truth = true := by
  unfold compoundOperator at compound
  split at compound <;> cases compound <;> rfl

theorem run_operation (M : Machine) (compound : compoundOperator op = some o) (l r : Expr) :
    run M (.binaryOp o l r .void) = (do
      let v ← run M l
      let w ← run M r
      M.value (M.operate o v.val w.val)) := by
  rw [run]
  simp only [evaluatesRight_compound compound, ↓reduceIte]

/-- What is left when the target has been evaluated. -/
theorem assign_operation (M : Machine) (p : M.Place) (v : M.Val) (s : M.State) :
    ((do
      let w ← run M value
      M.value (M.operate o v w.val)) >>= fun w => M.assign p w.val : M.Run M.Result) s =
      (do
        let w ← run M value
        M.assign p (M.operate o v w.val) : M.Run M.Result) s := by
  refine Run.ext_outcome rfl rfl ?_
  simp [Machine.value]

/-- The copied target is evaluated twice, which makes no difference where it has no effects. -/
theorem run_copied (M : Machine) (effectless : Effectless M target)
    (compound : compoundOperator op = some o) (s : M.State) :
    run M (.assignmentTo target (assignedValue op target value)) s =
      M.compound o target value s := by
  have events := effectless s
  have state := effectless.state_eq s
  calc run M (.assignmentTo target (assignedValue op target value)) s
      = (run M (.binaryOp o target value .void) >>= fun w =>
          M.assign (run M target s).result.place w.val) s := by
        rw [run, assignedValue, compound]
        exact Run.bind_of_still events state _
    _ = ((do
          let w ← run M value
          M.value (M.operate o (run M target s).result.val w.val)) >>= fun w =>
          M.assign (run M target s).result.place w.val : M.Run M.Result) s := by
        rw [run_operation M compound]
        exact Run.bind_congr_left (Run.bind_of_still events state _) _
    _ = (do
          let w ← run M value
          M.assign (run M target s).result.place
            (M.operate o (run M target s).result.val w.val) : M.Run M.Result) s :=
        assign_operation M _ _ s
    _ = M.compound o target value s := by
        rw [Machine.compound, Run.bind_of_still events state]

theorem run_named (M : Machine) (name : String) (compound : compoundOperator op = some o)
    (s : M.State) :
    run M (.assignment name (assignedValue op (.varRef name) value)) s =
      M.compound o (.varRef name) value s := by
  have silent : Effectless M (.varRef name) := fun _ => rfl
  rw [← run_copied M silent compound s]
  rfl

/-- Where nothing changes, each evaluation of the target performs its events again. -/
theorem events_of_once (M : Machine) (still : ∀ e s, (run M e s).state = s)
    (compound : compoundOperator op = some o) (s : M.State)
    (once : run M (.assignmentTo target (assignedValue op target value)) s =
      M.compound o target value s) : (run M target s).events = [] := by
  have same := congrArg (fun o => o.events.length) once
  simp only [run, assignedValue, compound, run_operation M compound, Machine.compound, astClone,
    Run.bind_events, List.length_append, still, assign_events, value_events, List.length_nil,
    List.length_singleton] at same
  exact List.eq_nil_of_length_eq_zero (by omega)

/-- The tree that the parser builds for a compound assignment evaluates the target once exactly if
the target has no effects. -/
theorem compound_iff_effectless {n : Nat} (built : Builds c (parsers c n) op target value tree)
    (assigns : isAssignment op = true) (compound : compoundOperator op = some o)
    (lvalue : isTarget target = true) :
    (∀ (M : Machine) (s : M.State), run M tree s = M.compound o target value s) ↔
      ∀ M : Machine, Effectless M target := by
  obtain rfl | ⟨name, rfl, rfl⟩ := built.tree_eq (parsers_sound n) assigns lvalue
  · constructor
    · intro once M
      exact effectless_of_frozen M fun s =>
        events_of_once M.frozen (frozen_state M) compound s (once M.frozen s)
    · intro effectless M s
      exact run_copied M (effectless M) compound s
  · exact ⟨fun _ _ _ => rfl, fun _ M s => run_named M name compound s⟩

end trees

/-- `a[i++] += 1` -/
def steppedSubscript : Tokens :=
  [tokenOf .identifier "a", tokenOf .lbracket "[", tokenOf .identifier "i",
    tokenOf .increment "++", tokenOf .rbracket "]", tokenOf .plusAssign "+=",
    tokenOf .intLiteral "1"]

theorem builds_plain : Builds bare (parsers bare 5) .plusAssign
    (.arrayIndex (.varRef "a") (.varRef "i")) one
    (.assignmentTo (.arrayIndex (.varRef "a") (.varRef "i"))
      (.binaryOp .add (.arrayIndex (.varRef "a") (.varRef "i")) one .void)) :=
  ⟨plainSubscript, plainSubscript.drop 4, [], rfl, rfl, rfl, rfl⟩

/-- The copy of the target steps the index a second time. -/
theorem builds_stepped : Builds bare (parsers bare 5) .plusAssign
    (.arrayIndex (.varRef "a") (.postfixIncDec .increment (.varRef "i"))) one
    (.assignmentTo (.arrayIndex (.varRef "a") (.postfixIncDec .increment (.varRef "i")))
      (.binaryOp .add (.arrayIndex (.varRef "a") (.postfixIncDec .increment (.varRef "i"))) one
        .void)) :=
  ⟨steppedSubscript, steppedSubscript.drop 5, [], rfl, rfl, rfl, rfl⟩

/-- `a[i] += 1` evaluates its target once. -/
theorem plain_once : (∀ (M : Machine) (s : M.State),
    run M (.assignmentTo (.arrayIndex (.varRef "a") (.varRef "i"))
      (.binaryOp .add (.arrayIndex (.varRef "a") (.varRef "i")) one .void)) s =
      M.compound .add (.arrayIndex (.varRef "a") (.varRef "i")) one s) ↔
    ∀ M : Machine, Effectless M (.arrayIndex (.varRef "a") (.varRef "i")) :=
  compound_iff_effectless builds_plain rfl rfl rfl

/-- A machine with one state and one value. -/
def idle : Machine where
  State := Unit
  Place := Unit
  Val := Unit
  effect := fun _ s => s
  reply := fun _ s => s
  constant := fun _ => ()
  object := fun _ => ()
  string := fun _ => ()
  slot := fun _ => ()
  temporary := id
  read := fun _ s => s
  address := id
  pointee := id
  index := fun _ _ => ()
  member := fun _ _ => ()
  unary := fun _ v => v
  binary := fun _ _ v => v
  cast := fun _ _ _ v => v
  truth := fun _ => true
  ofTruth := fun _ => ()
  arm := fun _ _ v => v
  convert := fun _ v => v
  step := fun _ v => v
  aggregate := fun _ => ()
  designatedMember := fun _ v => v
  designatedIndex := fun _ v => v

/-- The tree of `a[i++] += 1` stores to `i` twice. -/
theorem stepped_twice : ∃ tree : Expr,
    Builds bare (parsers bare 5) .plusAssign
      (.arrayIndex (.varRef "a") (.postfixIncDec .increment (.varRef "i"))) one tree ∧
    isTarget (.arrayIndex (.varRef "a") (.postfixIncDec .increment (.varRef "i"))) = true ∧
    run idle tree () ≠ idle.compound .add
      (.arrayIndex (.varRef "a") (.postfixIncDec .increment (.varRef "i"))) one () := by
  refine ⟨_, builds_stepped, rfl, fun same => ?_⟩
  have lengths := congrArg (fun o => o.events.length) same
  cases lengths

end Expressions

end ClaudeC99
