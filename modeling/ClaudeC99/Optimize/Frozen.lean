import ClaudeC99.Optimize.EffectKeeping

/-! A machine on which calls and stores change nothing: what has no effect there has none on the
machine itself. -/

namespace ClaudeC99

open Effects (Run)

namespace Machine

variable (M : Machine)

/-- The machine without the effects of its events. -/
def frozen : Machine := { M with effect := fun _ s => s }

/-- Results of the machine and of its frozen form. -/
def Same (a : M.Result) (b : M.frozen.Result) : Prop := a.place = b.place ∧ a.val = b.val

abbrev Follows (x : M.Run M.Result) (y : M.frozen.Run M.frozen.Result) : Prop :=
  Run.Follows M.Same x y

theorem follows_value {v : M.Val} : M.Follows (M.value v) (M.frozen.value v) :=
  Run.follows_pure ⟨rfl, rfl⟩

theorem follows_located {p : M.Place} : M.Follows (M.located p) (M.frozen.located p) :=
  fun _ _ => ⟨rfl, rfl, rfl, rfl⟩

theorem follows_assign {x : M.Run M.Result} {p : M.Place} {v : M.Val} :
    M.Follows x (M.frozen.assign p v) :=
  Run.follows_of_event fun _ => List.cons_ne_nil _ _

theorem follows_invoke {x : M.Run M.Result} {event : M.Event} :
    M.Follows x (M.frozen.invoke event) :=
  Run.follows_of_event fun _ => List.cons_ne_nil _ _

theorem determined_frozen (e : Expr) : Run.Determined M.frozen.effect (ClaudeC99.run M.frozen e) :=
  determined_run M.frozen e

variable {M}

theorem Follows.and_then {α β : Type} {Same : α → β → Prop} {e : Expr}
    {f : M.Result → M.Run α} {g : M.frozen.Result → M.frozen.Run β}
    (h : M.Follows (ClaudeC99.run M e) (ClaudeC99.run M.frozen e))
    (rest : ∀ p v, Run.Follows Same (f ⟨p, v⟩) (g ⟨p, v⟩)) :
    Run.Follows Same (ClaudeC99.run M e >>= f) (ClaudeC99.run M.frozen e >>= g) := by
  refine h.bind (M.determined_frozen e) fun a b same => ?_
  obtain ⟨p, v⟩ := a
  obtain ⟨q, w⟩ := b
  obtain ⟨rfl, rfl⟩ := same
  exact rest p v

theorem follows_all_then {es : List Expr} {α β : Type} {Same : α → β → Prop}
    {f : List M.Val → M.Run α} {g : List M.Val → M.frozen.Run β}
    (h : Run.Follows Eq (runAll M es) (runAll M.frozen es))
    (rest : ∀ vs, Run.Follows Same (f vs) (g vs)) :
    Run.Follows Same (runAll M es >>= f) (runAll M.frozen es >>= g) := by
  refine h.bind (determined_runAll M.frozen es) fun vs ws same => ?_
  cases same
  exact rest vs

end Machine

open Machine

variable (M : Machine)

mutual

/-- What has no event on the frozen machine has none on the machine, and the same result. -/
theorem follows_run : ∀ e : Expr, M.Follows (run M e) (run M.frozen e)
  | .intLiteral _ _ _ | .charLiteral _ | .floatLiteral _ _ | .sizeofType _ _ | .sizeofExpr _ =>
    M.follows_value
  | .stringLiteral _ | .varRef _ => M.follows_located
  | .assignment _ e => (follows_run e).and_then fun _ _ => M.follows_assign
  | .assignmentTo target e =>
    (follows_run target).and_then fun _ _ => (follows_run e).and_then fun _ _ => M.follows_assign
  | .addrOf e | .unaryOp _ e | .cast _ _ _ e | .designatedMember _ e | .designatedIndex _ e =>
    (follows_run e).and_then fun _ _ => M.follows_value
  | .deref e | .memberAccess e _ | .arrowAccess e _ =>
    (follows_run e).and_then fun _ _ => M.follows_located
  | .arrayIndex base index =>
    (follows_run base).and_then fun _ _ =>
      (follows_run index).and_then fun _ _ => M.follows_located
  | .binaryOp op l r _ => by
    refine (follows_run l).and_then fun p v => ?_
    by_cases right : evaluatesRight op (M.truth v) = true
    · have frozen : evaluatesRight op (M.frozen.truth v) = true := right
      simp only [right, frozen, ↓reduceIte]
      exact (follows_run r).and_then fun _ _ => M.follows_value
    · have frozen : ¬ evaluatesRight op (M.frozen.truth v) = true := right
      simp only [right, frozen]
      exact M.follows_value
  | .prefixIncDec _ e => (follows_run e).and_then fun _ _ => M.follows_assign
  | .postfixIncDec _ e =>
    (follows_run e).and_then fun _ _ => Run.follows_of_event fun _ => List.cons_ne_nil _ _
  | .functionCall _ _ args => follows_all_then (follows_runAll args) fun _ => M.follows_invoke
  | .indirectCall callee args =>
    (follows_run callee).and_then fun _ _ =>
      follows_all_then (follows_runAll args) fun _ => M.follows_invoke
  | .conditional cond thenExpr elseExpr => by
    refine (follows_run cond).and_then fun p v => ?_
    by_cases right : M.truth v = true
    · have frozen : M.frozen.truth v = true := right
      simp only [right, frozen, ↓reduceIte]
      exact (follows_run thenExpr).and_then fun _ _ => M.follows_value
    · have frozen : ¬ M.frozen.truth v = true := right
      simp only [right, frozen]
      exact (follows_run elseExpr).and_then fun _ _ => M.follows_value
  | .comma l r =>
    (follows_run l).and_then fun _ _ => (follows_run r).and_then fun _ _ => M.follows_value
  | .initializerList es => follows_all_then (follows_runAll es) fun _ => M.follows_value
  | .compoundLiteral _ _ _ _ e =>
    (follows_run e).and_then fun _ _ => Run.follows_of_event fun _ => List.cons_ne_nil _ _
  | .vaStart l r | .vaCopy l r =>
    (follows_run l).and_then fun _ _ => (follows_run r).and_then fun _ _ => M.follows_invoke
  | .vaEnd e | .vaArg e _ => (follows_run e).and_then fun _ _ => M.follows_invoke

theorem follows_runAll : ∀ es : List Expr, Run.Follows Eq (runAll M es) (runAll M.frozen es)
  | [] => Run.follows_pure rfl
  | e :: es => (follows_run e).and_then fun _ _ =>
    follows_all_then (follows_runAll es) fun _ => Run.follows_pure rfl

end

theorem frozen_state (e : Expr) (s : M.State) : (run M.frozen e s).state = s := by
  rw [determined_run M.frozen e s]
  induction (run M.frozen e s).events with
  | nil => rfl
  | cons event rest ih => exact ih

/-- An expression has no effects on any machine if it has none on those that are frozen. -/
theorem effectless_of_frozen {e : Expr} (h : Effectless M.frozen e) : Effectless M e :=
  fun s => (follows_run M e s (h s)).1

end ClaudeC99
