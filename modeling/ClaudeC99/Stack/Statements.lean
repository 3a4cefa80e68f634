import ClaudeC99.Stack.Declarations
import ClaudeC99.Stack.StmtCode

/-! The code of every statement has the shape of its construct, and its objects are placed. -/

namespace ClaudeC99

open X86 StateExcept Bump

mutual

/-- The frame objects of the declarations in a statement, in the order they are placed. -/
def Stmt.objects : Stmt → List Request
  | .declaration info _ => info.object.toList
  | .declList decls => Stmt.objectsList decls
  | .ifStmt _ thenBody elseBody => thenBody.objects ++ Stmt.objectsOption elseBody
  | .whileStmt _ body => body.objects
  | .doWhileStmt body _ => body.objects
  | .forStmt init _ _ body => Stmt.objectsOption init ++ body.objects
  | .switchStmt _ body => body.objects
  | .caseSection _ body => body.objects
  | .defaultSection body => body.objects
  | .labelStmt _ body => body.objects
  | .block stmts => Stmt.objectsList stmts
  | .returnStmt _ => []
  | .breakStmt => []
  | .continueStmt => []
  | .gotoStmt _ => []
  | .exprStmt _ => []
  | .typedefDecl _ => []

def Stmt.objectsOption : Option Stmt → List Request
  | none => []
  | some s => s.objects

def Stmt.objectsList : List Stmt → List Request
  | [] => []
  | s :: ss => s.objects ++ Stmt.objectsList ss

end

/-- What the temporaries of a statement may take. -/
def Stmt.cost (u : CodeGen) (s : Stmt) : Nat := s.total (fun _ => 0) (structRetBytes u)

/-- What a step printed, reserved for temporaries and placed, and the label counter after it. -/
abbrev Outcome := List Line → Nat → List Request → Nat → Prop

/-- From the scope `Γ` and label id `lo` on, `m` ends in the scope `Γ'` with an outcome in `R`. -/
def Prints (u : CodeGen) (Γ Γ' : Scope) (lo : Nat) (R : Outcome) {α : Type} (m : Gen α) : Prop :=
  ∀ cg a cg', cg.functions = u.functions → cg.scope = Γ → cg.labelCount = lo →
    Yields m cg a cg' → cg'.scope = Γ' ∧ ∃ seg c objs, cg'.output = cg.output ++ seg ∧
      Grows c objs cg cg' ∧ R seg c objs cg'.labelCount

section

variable {u : CodeGen} {c lo : Nat} {objs : List Request} {Γ Γ' Γ'' : Scope} {R R' : Outcome}
  {α β : Type}

namespace Prints

theorem bind {m : Gen α} {k : α → Gen β} (first : Prints u Γ Γ' lo R' m)
    (rest : ∀ a seg c objs mid, R' seg c objs mid → Prints u Γ' Γ'' mid
      (fun seg' c' objs' hi => R (seg ++ seg') (c + c') (objs ++ objs') hi) (k a)) :
    Prints u Γ Γ'' lo R (m >>= k) := by
  intro cg a cg' fns scope count run
  obtain ⟨x, cg₁, hm, hk⟩ := yields_bind.mp run
  obtain ⟨scope₁, seg₁, c₁, objs₁, out₁, grows₁, outcome₁⟩ := first cg x cg₁ fns scope count hm
  obtain ⟨scope₂, seg₂, c₂, objs₂, out₂, grows₂, outcome₂⟩ := rest x seg₁ c₁ objs₁ _ outcome₁ cg₁ a
    cg' (grows₁.functions.trans fns) scope₁ rfl hk
  exact ⟨scope₂, _, _, _, by rw [out₂, out₁, List.append_assoc], grows₁.trans grows₂, outcome₂⟩

theorem imp {m : Gen α} (h : Prints u Γ Γ' lo R m)
    (weaken : ∀ {seg c objs hi}, R seg c objs hi → R' seg c objs hi) :
    Prints u Γ Γ' lo R' m := by
  intro cg a cg' fns scope count run
  obtain ⟨scope', seg, c, objs, out, grows, outcome⟩ := h cg a cg' fns scope count run
  exact ⟨scope', seg, c, objs, out, grows, weaken outcome⟩

/-- The outcome, with the run that printed the code. -/
theorem own {m : Gen α} (h : Prints u Γ Γ' lo R m) : Prints u Γ Γ' lo
    (fun seg c objs hi => R seg c objs hi ∧ Printed m Γ.depth seg) m := by
  intro cg a cg' fns scope count run
  obtain ⟨scope', seg, c, objs, out, grows, outcome⟩ := h cg a cg' fns scope count run
  have depth : cg.pushDepth = Γ.depth := congrArg Scope.depth scope
  exact ⟨scope', seg, c, objs, out, grows, outcome, cg, a, cg', run, depth, out⟩

/-- A step that only moves the generator to another scope. -/
theorem move_bind {f : CodeGen → CodeGen} {k : Unit → Gen α}
    (still : ∀ cg, Grows 0 [] cg (f cg)) (output : ∀ cg, (f cg).output = cg.output)
    (labels : ∀ cg, (f cg).labelCount = cg.labelCount)
    (scope : ∀ cg, cg.scope = Γ → (f cg).scope = Γ') (rest : Prints u Γ' Γ'' lo R (k ())) :
    Prints u Γ Γ'' lo R (modify f >>= k) := by
  intro cg a cg' fns hΓ count run
  obtain ⟨⟨⟩, cg₁, hm, hk⟩ := yields_bind.mp run
  obtain rfl := yields_modify.mp hm
  obtain ⟨scope', seg, c, objs, out, grows, outcome⟩ := rest (f cg) a cg'
    ((still cg).functions.trans fns) (scope cg hΓ) ((labels cg).trans count) hk
  refine ⟨scope', seg, c, objs, by rw [out, output], ?_, outcome⟩
  simpa using (still cg).trans grows

theorem newLabel_bind {k : Nat → Gen α} (rest : Prints u Γ Γ' (lo + 1) R (k lo)) :
    Prints u Γ Γ' lo R (newLabel >>= k) := by
  intro cg a cg' fns scope count run
  obtain ⟨id, cg₁, hnew, hk⟩ := yields_bind.mp run
  obtain ⟨_, _, hget, hnew⟩ := yields_bind.mp hnew
  obtain ⟨rfl, rfl⟩ := yields_get.mp hget
  obtain ⟨_, _, hset, hnew⟩ := yields_bind.mp hnew
  obtain rfl := yields_set.mp hset
  obtain ⟨rfl, rfl⟩ := yields_pure.mp hnew
  subst count
  have still : Grows 0 [] cg { cg with labelCount := cg.labelCount + 1 } :=
    .still rfl rfl rfl rfl rfl
  obtain ⟨scope', seg, c, objs, out, grows, outcome⟩ :=
    rest { cg with labelCount := cg.labelCount + 1 } a cg' fns scope rfl hk
  refine ⟨scope', seg, c, objs, out, ?_, outcome⟩
  simpa using still.trans grows

/-- Code of expressions, as one step. -/
theorem compiled {m : Gen α} (h : Neutral u c m)
    (outcome : ∀ seg hi, Compiled m Γ.depth lo seg hi → R seg c [] hi) :
    Prints u Γ Γ lo R m := by
  intro cg a cg' fns scope count run
  subst scope count
  have ext := h cg.pushDepth cg a cg' rfl fns run
  obtain ⟨seg, out, code⟩ := ext.code
  exact ⟨ext.scope rfl, seg, c, [], out, ext.grows,
    outcome seg _ ⟨code, cg, a, cg', run, rfl, rfl, out, rfl⟩⟩

theorem compiled_bind {m : Gen α} {k : α → Gen β} (h : Neutral u c m)
    (rest : ∀ a seg mid, Compiled m Γ.depth lo seg mid → Prints u Γ Γ' mid
      (fun seg' c' objs' hi => R (seg ++ seg') (c + c') objs' hi) (k a)) :
    Prints u Γ Γ' lo R (m >>= k) := by
  refine bind (compiled h (R := fun seg c' objs mid =>
    c' = c ∧ objs = [] ∧ Compiled m Γ.depth lo seg mid) fun seg hi code => ⟨rfl, rfl, code⟩) ?_
  rintro a seg _ _ mid ⟨rfl, rfl, code⟩
  exact rest a seg mid code

/-- Code of expressions that hands nothing out. -/
theorem free_bind {m : Gen α} {k : α → Gen β} (h : Neutral u 0 m)
    (rest : ∀ a seg mid, ExprCode Γ.depth [] lo seg [] mid → Prints u Γ Γ' mid
      (fun seg' c objs hi => R (seg ++ seg') c objs hi) (k a)) :
    Prints u Γ Γ' lo R (m >>= k) := by
  refine compiled_bind h fun a seg mid compiled => ?_
  simpa using rest a seg mid compiled.code

theorem emitAll {is : List Asm} (outcome : R (lines Γ.depth is) 0 [] lo) :
    Prints u Γ Γ lo R (emitAll is) := by
  intro cg a cg' _ scope count run
  obtain rfl := yields_emitAll.mp run
  subst scope count
  exact ⟨rfl, _, 0, [], rfl, .still rfl rfl rfl rfl rfl, outcome⟩

theorem emit {i : Asm} (outcome : R [⟨i, Γ.depth⟩] 0 [] lo) : Prints u Γ Γ lo R (emit i) := by
  intro cg a cg' _ scope count run
  obtain rfl := yields_emit.mp run
  subst scope count
  exact ⟨rfl, _, 0, [], rfl, .still rfl rfl rfl rfl rfl, outcome⟩

theorem emit_bind {i : Asm} {k : Unit → Gen α} (rest : Prints u Γ Γ' lo
    (fun seg c objs hi => R (⟨i, Γ.depth⟩ :: seg) c objs hi) (k ())) :
    Prints u Γ Γ' lo R (ClaudeC99.emit i >>= k) := by
  refine bind (emit (R := fun seg c objs mid =>
    seg = [⟨i, Γ.depth⟩] ∧ c = 0 ∧ objs = [] ∧ mid = lo) ⟨rfl, rfl, rfl, rfl⟩) ?_
  rintro ⟨⟩ _ _ _ mid ⟨rfl, rfl, rfl, rfl⟩
  simpa using rest

theorem emitAll_bind {is : List Asm} {k : Unit → Gen α} (rest : Prints u Γ Γ' lo
    (fun seg c objs hi => R (lines Γ.depth is ++ seg) c objs hi) (k ())) :
    Prints u Γ Γ' lo R (ClaudeC99.emitAll is >>= k) := by
  refine bind (emitAll (R := fun seg c objs mid =>
    seg = lines Γ.depth is ∧ c = 0 ∧ objs = [] ∧ mid = lo) ⟨rfl, rfl, rfl, rfl⟩) ?_
  rintro ⟨⟩ _ _ _ mid ⟨rfl, rfl, rfl, rfl⟩
  simpa using rest

theorem get_bind {k : CodeGen → Gen α}
    (rest : ∀ cg, cg.scope = Γ → cg.labelCount = lo → Prints u Γ Γ' lo R (k cg)) :
    Prints u Γ Γ' lo R (get >>= k) := by
  intro cg a cg' fns scope count run
  obtain ⟨x, cg₁, hm, hk⟩ := yields_bind.mp run
  obtain ⟨rfl, rfl⟩ := yields_get.mp hm
  exact rest cg scope count cg a cg' fns scope count hk

protected theorem pure (a : α) (outcome : R [] 0 [] lo) : Prints u Γ Γ lo R (pure a : Gen α) := by
  intro cg x cg' _ scope count run
  obtain ⟨_, rfl⟩ := yields_pure.mp run
  subst count
  exact ⟨scope, [], 0, [], by simp, .still rfl rfl rfl rfl rfl, outcome⟩

protected theorem throw (message : String) : Prints u Γ Γ' lo R (throw message : Gen α) :=
  fun _ _ _ _ _ _ run => absurd run yields_throw

theorem straight {m : Gen α} (h : Straight u c objs m)
    (outcome : ∀ seg hi, ExprCode Γ.depth [] lo seg [] hi → R seg c objs hi) :
    Prints u Γ Γ lo R m := by
  intro cg a cg' fns scope count run
  subst scope count
  obtain ⟨scope', grows, seg, out, code⟩ := h cg a cg' fns run
  exact ⟨scope', seg, c, objs, out, grows, outcome _ _ code⟩

theorem pushBreak_bind {brk cont : Int} {k : Unit → Gen α}
    (rest : Prints u { Γ with breakStack := ⟨brk, cont⟩ :: Γ.breakStack } Γ' lo R (k ())) :
    Prints u Γ Γ' lo R (pushBreak brk cont >>= k) := by
  refine move_bind (fun _ => .still rfl rfl rfl rfl rfl) (fun _ => rfl) (fun _ => rfl) ?_ rest
  rintro cg rfl
  rfl

theorem move {f : CodeGen → CodeGen} (still : ∀ cg, Grows 0 [] cg (f cg))
    (output : ∀ cg, (f cg).output = cg.output) (labels : ∀ cg, (f cg).labelCount = cg.labelCount)
    (scope : ∀ cg, cg.scope = Γ → (f cg).scope = Γ') (outcome : R [] 0 [] lo) :
    Prints u Γ Γ' lo R (modify f) := by
  intro cg a cg' _ hΓ count run
  obtain rfl := yields_modify.mp run
  refine ⟨scope cg hΓ, [], 0, [], by rw [output, List.append_nil], still cg, ?_⟩
  rw [labels, count]
  exact outcome

theorem popBreak (outcome : R [] 0 [] lo) :
    Prints u Γ { Γ with breakStack := Γ.breakStack.tail } lo R popBreak := by
  refine move (fun _ => .still rfl rfl rfl rfl rfl) (fun _ => rfl) (fun _ => rfl) ?_ outcome
  rintro cg rfl
  rfl

theorem popBreak_bind {k : Unit → Gen α}
    (rest : Prints u { Γ with breakStack := Γ.breakStack.tail } Γ' lo R (k ())) :
    Prints u Γ Γ' lo R (ClaudeC99.popBreak >>= k) := by
  refine move_bind (fun _ => .still rfl rfl rfl rfl rfl) (fun _ => rfl) (fun _ => rfl) ?_ rest
  rintro cg rfl
  rfl

theorem popSwitch_bind {k : Unit → Gen α}
    (rest : Prints u { Γ with switchStack := Γ.switchStack.tail } Γ' lo R (k ())) :
    Prints u Γ Γ' lo R (popSwitch >>= k) := by
  refine move_bind (fun _ => .still rfl rfl rfl rfl rfl) (fun _ => rfl) (fun _ => rfl) ?_ rest
  rintro cg rfl
  rfl

theorem pushReg_bind {r : Reg} {k : Unit → Gen α}
    (rest : Prints u { Γ with depth := Γ.depth + 1 } Γ' lo
      (fun seg c objs hi => R (⟨.push r, Γ.depth⟩ :: seg) c objs hi) (k ())) :
    Prints u Γ Γ' lo R (pushReg r >>= k) := by
  have push : pushReg r >>= k = (ClaudeC99.emit (.push r) >>= fun _ => pushDepthInc >>= k) := rfl
  rw [push]
  refine emit_bind ?_
  refine move_bind (fun _ => .still rfl rfl rfl rfl rfl) (fun _ => rfl) (fun _ => rfl) ?_ rest
  rintro cg rfl
  rfl

theorem pushDepthDec (outcome : R [] 0 [] lo) :
    Prints u Γ { Γ with depth := Γ.depth - 1 } lo R pushDepthDec := by
  refine move (fun _ => .still rfl rfl rfl rfl rfl) (fun _ => rfl) (fun _ => rfl) ?_ outcome
  rintro cg rfl
  rfl

theorem beginSwitch_bind {collect : Nat × SwitchCtx → Nat × SwitchCtx} {k : SwitchCtx → Gen α}
    (rest : ∀ hi ctx, collect (lo, ⟨[], -1⟩) = (hi, ctx) →
      Prints u { Γ with switchStack := ctx :: Γ.switchStack } Γ' hi R (k ctx)) :
    Prints u Γ Γ' lo R (beginSwitch collect >>= k) := by
  intro cg a cg' fns scope count run
  obtain ⟨ctx, cg₁, hbegin, hk⟩ := yields_bind.mp run
  obtain ⟨_, _, hget, hbegin⟩ := yields_bind.mp hbegin
  obtain ⟨rfl, rfl⟩ := yields_get.mp hget
  subst scope count
  obtain ⟨_, _, hset, hbegin⟩ := yields_bind.mp hbegin
  obtain rfl := yields_set.mp hset
  obtain ⟨rfl, rfl⟩ := yields_pure.mp hbegin
  generalize collected : collect (cg.labelCount, ⟨[], -1⟩) = table at hk
  have still : Grows 0 [] cg
      { cg with labelCount := table.1, switchStack := table.2 :: cg.switchStack } :=
    .still rfl rfl rfl rfl rfl
  obtain ⟨scope', seg, c, objs, out, grows, outcome⟩ := rest table.1 table.2 collected
    { cg with labelCount := table.1, switchStack := table.2 :: cg.switchStack } a cg' fns rfl rfl hk
  refine ⟨scope', seg, c, objs, out, ?_, outcome⟩
  simpa using still.trans grows

theorem inScope {m : Gen Unit} (h : Prints u Γ Γ' lo R m) : Prints u Γ Γ' lo R (inScope m) := by
  intro cg a cg' fns scope count run
  obtain ⟨_, _, hget, run⟩ := yields_bind.mp run
  obtain ⟨rfl, rfl⟩ := yields_get.mp hget
  obtain ⟨_, _, hset, run⟩ := yields_bind.mp run
  obtain rfl := yields_set.mp hset
  obtain ⟨_, cg₁, hm, run⟩ := yields_bind.mp run
  obtain rfl := yields_modify.mp run
  obtain ⟨scope', seg, c, objs, out, grows, outcome⟩ :=
    h { cg with scopeStart := cg.locals.length } _ cg₁ fns scope count hm
  exact ⟨scope', seg, c, objs, out,
    ⟨grows.temps, grows.budget, grows.slots, grows.offset, grows.outline⟩, outcome⟩

end Prints

theorem neutral_genCondition (cond : Expr) :
    Neutral u (cond.total (structRetBytes u)) (genCondition (codegen cond)) :=
  fun _ => .tail (neutral_codegenExpression cond _) fun _ => emits_emitAll (by simp)

/-- The code, the budget and the objects of a piece. -/
def Codes (Γ : Scope) (node : List Nat) (p : Piece) (cost : Nat)
    (objs : List Request) (lo : Nat) : Outcome := fun seg c placed hi =>
  StmtCode Γ.func Γ.labels Γ.breakStack Γ.switchStack Γ.depth lo node p seg hi ∧
    c = cost ∧ placed = objs

/-- `m` compiles the piece `p`. -/
def Compiles (u : CodeGen) (node : List Nat) (p : Piece) (cost : Nat) (objs : List Request)
    (m : Gen Unit) : Prop := ∀ Γ lo, Prints u Γ Γ lo (Codes Γ node p cost objs lo) m

variable {node : List Nat} {c₁ c₂ : Nat} {objs₁ objs₂ : List Request} {cond : Expr}
  {body thenBody elseBody : Stmt} {m m₁ m₂ : Gen Unit}

theorem compiles_genIf (hbody : Compiles u (node ++ [1]) (.stmt thenBody) c objs m) :
    Compiles u node (.stmt (.ifStmt cond thenBody none))
      (cond.total (structRetBytes u) + c) objs (genIf (codegen cond) m) := by
  intro Γ lo
  refine .newLabel_bind ?_
  refine .compiled_bind (neutral_genCondition cond) fun _ test m₁ condCode => ?_
  refine .emit_bind ?_
  refine .bind (hbody Γ m₁) fun _ seg _ _ hi ⟨thenCode, hc, ho⟩ => ?_
  refine .emit ⟨?_, by omega, by simpa using ho⟩
  simpa using StmtCode.ifThen condCode thenCode

theorem compiles_genIfElse (hthen : Compiles u (node ++ [1]) (.stmt thenBody) c₁ objs₁ m₁)
    (helse : Compiles u (node ++ [2]) (.stmt elseBody) c₂ objs₂ m₂) :
    Compiles u node (.stmt (.ifStmt cond thenBody (some elseBody)))
      (cond.total (structRetBytes u) + c₁ + c₂) (objs₁ ++ objs₂)
      (genIfElse (codegen cond) m₁ m₂) := by
  intro Γ lo
  refine .newLabel_bind ?_
  refine .compiled_bind (neutral_genCondition cond) fun _ test l₁ condCode => ?_
  refine .emit_bind ?_
  refine .bind (hthen Γ l₁) fun _ first _ _ l₂ ⟨thenCode, hc₁, ho₁⟩ => ?_
  refine .emit_bind ?_
  refine .emit_bind ?_
  refine .bind (helse Γ l₂) fun _ second _ _ hi ⟨elseCode, hc₂, ho₂⟩ => ?_
  refine .emit ⟨?_, by omega, by simp [ho₁, ho₂]⟩
  simpa [lines] using StmtCode.ifElse condCode thenCode elseCode

theorem compiles_genWhile (hbody : Compiles u (node ++ [1]) (.stmt body) c objs m) :
    Compiles u node (.stmt (.whileStmt cond body)) (cond.total (structRetBytes u) + c) objs
      (genWhile (codegen cond) m) := by
  intro Γ lo
  refine .newLabel_bind ?_
  refine .pushBreak_bind ?_
  refine .emit_bind ?_
  refine .emit_bind ?_
  refine .compiled_bind (neutral_genCondition cond) fun _ test l₁ condCode => ?_
  refine .emit_bind ?_
  refine .bind (hbody _ l₁) fun _ seg _ _ hi ⟨bodyCode, hc, ho⟩ => ?_
  refine .emit_bind ?_
  refine .emit_bind ?_
  refine .emit_bind ?_
  refine .popBreak ⟨?_, by omega, by simpa using ho⟩
  simpa [lines] using StmtCode.whileLoop condCode bodyCode

theorem compiles_genDoWhile (hbody : Compiles u (node ++ [0]) (.stmt body) c objs m) :
    Compiles u node (.stmt (.doWhileStmt body cond)) (c + cond.total (structRetBytes u)) objs
      (genDoWhile m (codegen cond)) := by
  intro Γ lo
  refine .newLabel_bind ?_
  refine .pushBreak_bind ?_
  refine .emit_bind ?_
  refine .bind (hbody _ _) fun _ seg _ _ l₁ ⟨bodyCode, hc, ho⟩ => ?_
  refine .emit_bind ?_
  refine .compiled_bind (neutral_genCondition cond) fun _ test hi condCode => ?_
  refine .emit_bind ?_
  refine .emit_bind ?_
  refine .emit_bind ?_
  refine .popBreak ⟨?_, by omega, by simpa using ho⟩
  simpa [lines] using StmtCode.doLoop bodyCode condCode

theorem prints_genForCondition (id : Nat) (cond : Option Expr) :
    Prints u Γ Γ lo (fun seg c objs hi => ForTest Γ.depth id lo cond seg hi ∧
      c = Expr.totalOption (structRetBytes u) cond ∧ objs = [])
      (genForCondition id (cond.map codegen)) := by
  cases cond with
  | none => exact .pure _ ⟨.none, rfl, rfl⟩
  | some cond =>
    refine .compiled_bind (neutral_genCondition cond) fun _ test hi condCode => ?_
    exact .emit ⟨by simpa using ForTest.some condCode, rfl, rfl⟩

theorem neutral_genForUpdate (update : Option Expr) :
    Neutral u (Expr.totalOption (structRetBytes u) update) (genForUpdate (update.map codegen)) := by
  cases update with
  | none => exact fun _ => .pure _
  | some update => exact fun _ => .tail (neutral_codegenExpression update _) fun _ => .pure _

theorem compiles_genFor {init : Option Stmt} {cond update : Option Expr}
    (hinit : Compiles u node (.list 0 init.toList) c₁ objs₁ m₁)
    (hbody : Compiles u (node ++ [3]) (.stmt body) c₂ objs₂ m₂) :
    Compiles u node (.stmt (.forStmt init cond update body))
      (c₁ + Expr.totalOption (structRetBytes u) cond +
        Expr.totalOption (structRetBytes u) update + c₂) (objs₁ ++ objs₂)
      (genFor m₁ (cond.map codegen) (update.map codegen) m₂) := by
  intro Γ lo
  refine .newLabel_bind ?_
  refine .pushBreak_bind ?_
  refine .inScope ?_
  refine .bind (hinit _ _) fun _ start _ _ l₁ ⟨initCode, hc₁, ho₁⟩ => ?_
  refine .emit_bind ?_
  refine .bind (prints_genForCondition lo cond) fun _ test _ _ l₂ ⟨condCode, hc, ho⟩ => ?_
  refine .bind (hbody _ l₂) fun _ seg _ _ l₃ ⟨bodyCode, hc₂, ho₂⟩ => ?_
  refine .emit_bind ?_
  refine .compiled_bind (neutral_genForUpdate update) fun _ step hi updateCode => ?_
  refine .emit_bind ?_
  refine .emit_bind ?_
  refine .emit_bind ?_
  refine .popBreak ⟨?_, by omega, by simp [ho₁, ho, ho₂]⟩
  simpa [lines] using StmtCode.forLoop initCode condCode bodyCode updateCode

theorem compiles_genSwitch {value : Expr}
    (hbody : Compiles u (node ++ [1]) (.stmt body) c objs m) :
    Compiles u node (.stmt (.switchStmt value body)) (value.total (structRetBytes u) + c) objs
      (genSwitch (collectSwitchLabels (node ++ [1]) body) (codegen value) m) := by
  intro Γ lo
  refine .newLabel_bind ?_
  refine .beginSwitch_bind fun l₀ ctx table => ?_
  refine .compiled_bind (neutral_codegenExpression value) fun a scrutinee l₁ valueCode => ?_
  refine .pushReg_bind ?_
  refine .emitAll_bind ?_
  refine .emit_bind ?_
  refine .pushBreak_bind ?_
  refine .bind (hbody _ l₁) fun _ seg _ _ hi ⟨bodyCode, hc, ho⟩ => ?_
  refine .popSwitch_bind ?_
  refine .popBreak_bind ?_
  refine .emit_bind ?_
  refine .emit_bind ?_
  refine .emit_bind ?_
  refine .pushDepthDec ⟨?_, by omega, by simpa using ho⟩
  simpa [lines] using StmtCode.switchOn (switchWidth a.resultType) table valueCode bodyCode

/-- A `case` or `default` node, with the path of its statement. -/
theorem compiles_genSection {s body : Stmt} {path : List Nat}
    (shape : ∀ {func labels bs ctx ss d lo seg hi},
      StmtCode func labels bs (ctx :: ss) d lo path (.stmt body) seg hi →
      StmtCode func labels bs (ctx :: ss) d lo node (.stmt s)
        ([⟨.label (.numbered .switchSec (switchLookupLabel ctx node)), d⟩] ++ seg) hi)
    (hbody : Compiles u path (.stmt body) c objs m) :
    Compiles u node (.stmt s) c objs (genSection node m) := by
  intro Γ lo
  refine .get_bind fun cg scope _ => ?_
  have stack : cg.switchStack = Γ.switchStack := congrArg Scope.switchStack scope
  rw [stack]
  cases h : Γ.switchStack with
  | nil => exact .throw _
  | cons ctx ss =>
    refine .emit_bind ?_
    refine (hbody Γ lo).imp fun {seg _ _ hi} ⟨code, hc, ho⟩ => ⟨?_, hc, ho⟩
    rw [h] at code ⊢
    exact shape code

theorem compiles_genUserLabel {name : String} (hbody : Compiles u (node ++ [0]) (.stmt body) c objs m) :
    Compiles u node (.stmt (.labelStmt name body)) c objs (genUserLabel name m) := by
  intro Γ lo
  refine .get_bind fun cg scope _ => ?_
  have func : cg.currentFunc = Γ.func := congrArg Scope.func scope
  rw [func]
  refine .emit_bind ?_
  exact (hbody Γ lo).imp fun ⟨code, hc, ho⟩ => ⟨.userLabel code, hc, ho⟩

theorem compiles_genGoto (name : String) :
    Compiles u node (.stmt (.gotoStmt name)) 0 [] (genGoto name) := by
  intro Γ lo
  refine .get_bind fun cg scope _ => ?_
  have func : cg.currentFunc = Γ.func := congrArg Scope.func scope
  have labels : cg.userLabels = Γ.labels := congrArg Scope.labels scope
  rw [func, labels]
  split
  next known => exact .emit ⟨.goto known, rfl, rfl⟩
  · exact .throw _

theorem compiles_genBreak : Compiles u node (.stmt .breakStmt) 0 [] genBreak := by
  intro Γ lo
  refine .get_bind fun cg scope _ => ?_
  have stack : cg.breakStack = Γ.breakStack := congrArg Scope.breakStack scope
  rw [stack]
  cases h : Γ.breakStack with
  | nil => exact .throw _
  | cons top bs =>
    refine .emit ⟨?_, rfl, rfl⟩
    rw [h]
    exact .breakOut

theorem compiles_genContinue : Compiles u node (.stmt .continueStmt) 0 [] genContinue := by
  intro Γ lo
  refine .get_bind fun cg scope _ => ?_
  have stack : cg.breakStack = Γ.breakStack := congrArg Scope.breakStack scope
  rw [stack]
  exact .emit ⟨.continueLoop, rfl, rfl⟩

/-- Code that ends in an epilogue. -/
def Leaves (Γ : Scope) (cost lo : Nat) : Outcome := fun seg c objs hi =>
  (∃ code, ExprCode Γ.depth [] lo code [] hi ∧ seg = code ++ lines Γ.depth epilogue) ∧
    c = cost ∧ objs = []

theorem compiles_return {value : Option Expr}
    (h : ∀ Γ lo, Prints u Γ Γ lo (Leaves Γ c lo) (codegenStatement node (.returnStmt value))) :
    Compiles u node (.stmt (.returnStmt value)) c []
      (codegenStatement node (.returnStmt value)) := by
  intro Γ lo
  refine (h Γ lo).own.imp ?_
  rintro seg _ _ hi ⟨⟨⟨code, own, rfl⟩, hc, ho⟩, printed⟩
  exact ⟨.returns own printed, hc, ho⟩

theorem leaves_genReturnVoid : Prints u Γ Γ lo (Leaves Γ 0 lo) genReturnVoid := by
  refine .get_bind fun cg _ _ => ?_
  refine .free_bind (fun _ => .errorIf _ _) fun _ seg hi code => ?_
  exact .emitAll ⟨⟨seg, code, rfl⟩, rfl, rfl⟩

@[simp] theorem plain_returnStructCode (sretOffset size : Nat) :
    Plain (returnStructCode sretOffset size) := by
  unfold returnStructCode
  split
  · simp [movReg, movMem, Instr.keepsStack, Reg.isStack]
  · simp [movReg, movMem, Instr.keepsStack, Reg.isStack]

theorem neutral_checkReturnPointer (cg : CodeGen) (a : Ann) :
    Neutral u c (checkReturnPointer cg a) := fun _ =>
  .seq (.errorIf _ _) fun _ => .seq (.errorIf _ _) fun _ => .errorIf _ _

theorem neutral_convertReturn (cg : CodeGen) (value : Expr) (a : Ann) :
    Neutral u c (convertReturn cg value a) := by
  intro b
  unfold convertReturn
  split
  · exact .pure _
  split
  · exact neutral_checkReturnPointer cg a b
  · exact emits_emitAll (by simp)

theorem leaves_genReturn (value : Expr) :
    Prints u Γ Γ lo (Leaves Γ (value.total (structRetBytes u)) lo) (genReturn (codegen value)) := by
  have good : Good u (codegen value) := good_codegen value
  have cost : (codegen value).cost u = value.total (structRetBytes u) := cost_codegen value
  refine .get_bind fun cg _ _ => ?_
  refine .free_bind (fun _ => .errorIf _ _) fun _ seg₁ l₁ c₁ => ?_
  refine .free_bind (fun _ => .errorIf _ _) fun _ seg₂ l₂ c₂ => ?_
  split
  · refine .get_bind fun cg _ _ => ?_
    refine .compiled_bind (fun _ => good.struct) fun _ seg₃ l₃ c₃ => ?_
    refine .free_bind (fun _ => emits_emitAll (by simp)) fun _ seg₄ l₄ c₄ => ?_
    have code := ((c₁.append c₂).append c₃.code).append c₄
    exact .emitAll ⟨⟨_, code, by simp [epilogue]⟩, by omega, rfl⟩
  · refine .compiled_bind (fun _ => good.value) fun _ seg₃ l₃ c₃ => ?_
    refine .get_bind fun cg _ _ => ?_
    refine .free_bind (neutral_convertReturn _ _ _) fun _ seg₄ l₄ c₄ => ?_
    have code := ((c₁.append c₂).append c₃.code).append c₄
    exact .emitAll ⟨⟨_, code, by simp [epilogue]⟩, by omega, rfl⟩

/-- A statement without jumps of its own. -/
theorem compiles_straight {s : Stmt} (straight : s.isStraight = true)
    (h : Straight u c objs (codegenStatement node s)) :
    Compiles u node (.stmt s) c objs (codegenStatement node s) := by
  intro Γ lo
  have code : Prints u Γ Γ lo (fun seg c' objs' hi =>
      ExprCode Γ.depth [] lo seg [] hi ∧ c' = c ∧ objs' = objs) (codegenStatement node s) :=
    .straight h fun _ _ code => ⟨code, rfl, rfl⟩
  exact code.own.imp fun ⟨⟨code, hc, ho⟩, printed⟩ => ⟨.straight straight code printed, hc, ho⟩

theorem straight_exprStmt (value : Expr) : Straight u (value.total (structRetBytes u)) []
    (codegenStatement node (.exprStmt value)) := by
  rw [codegenStatement]
  exact .of_neutral fun _ => .tail (neutral_codegenExpression value _) fun _ => .pure _

theorem compiles_cons {s : Stmt} {ss : List Stmt} {index : Nat}
    (head : Compiles u (node ++ [index]) (.stmt s) c₁ objs₁ m₁)
    (tail : Compiles u node (.list (index + 1) ss) c₂ objs₂ m₂) :
    Compiles u node (.list index (s :: ss)) (c₁ + c₂) (objs₁ ++ objs₂) (m₁ >>= fun _ => m₂) := by
  intro Γ lo
  refine .bind (head Γ lo) fun _ first _ _ mid ⟨headCode, hc₁, ho₁⟩ => ?_
  refine (tail Γ mid).imp fun ⟨tailCode, hc₂, ho₂⟩ => ⟨.cons headCode tailCode, ?_, ?_⟩
  · rw [hc₁, hc₂]
  · rw [ho₁, ho₂]

theorem compiles_nil (index : Nat) : Compiles u node (.list index []) 0 [] (pure ()) :=
  fun _ _ => .pure _ ⟨.nil, rfl, rfl⟩

/-- A piece whose code is that of another one. -/
theorem Compiles.imp {p q : Piece} {path : List Nat} (h : Compiles u path p c objs m)
    (shape : ∀ {func labels bs ss d lo seg hi}, StmtCode func labels bs ss d lo path p seg hi →
      StmtCode func labels bs ss d lo node q seg hi) : Compiles u node q c objs m :=
  fun Γ lo => (h Γ lo).imp fun ⟨code, hc, ho⟩ => ⟨shape code, hc, ho⟩

end

section

variable {u : CodeGen}

/-- What the temporaries of a statement list may take. -/
def Stmt.costList (u : CodeGen) (ss : List Stmt) : Nat :=
  Stmt.totalList (fun _ => 0) (structRetBytes u) ss

def Stmt.costOption (u : CodeGen) (s : Option Stmt) : Nat :=
  Stmt.totalOption (fun _ => 0) (structRetBytes u) s

mutual

/-- Every statement prints the code of its construct. -/
theorem compiles_codegenStatement (node : List Nat) : ∀ s : Stmt,
    Compiles u node (.stmt s) (s.cost u) s.objects (codegenStatement node s)
  | .declaration info init => by
    rw [Stmt.cost, Stmt.total, Stmt.objects, Nat.zero_add]
    exact compiles_straight rfl (by
      rw [codegenStatement]
      exact straight_genDeclaration info init)
  | .declList decls => by
    rw [Stmt.cost, Stmt.total, Stmt.objects, codegenStatement]
    exact (compiles_codegenStatements node 0 decls).imp .declList
  | .returnStmt none => by
    rw [Stmt.cost, Stmt.total, Stmt.objects]
    exact compiles_return fun _ _ => by
      rw [codegenStatement]
      exact leaves_genReturnVoid
  | .returnStmt (some value) => by
    rw [Stmt.cost, Stmt.total, Stmt.objects]
    exact compiles_return fun _ _ => by
      rw [codegenStatement]
      exact leaves_genReturn value
  | .ifStmt cond thenBody none => by
    rw [Stmt.cost, Stmt.total, Stmt.objects, codegenStatement, Stmt.totalOption,
      Stmt.objectsOption, List.append_nil]
    exact compiles_genIf (compiles_codegenStatement _ thenBody)
  | .ifStmt cond thenBody (some elseBody) => by
    rw [Stmt.cost, Stmt.total, Stmt.objects, codegenStatement]
    exact compiles_genIfElse (compiles_codegenStatement _ thenBody)
      (compiles_codegenStatement _ elseBody)
  | .whileStmt cond body => by
    rw [Stmt.cost, Stmt.total, Stmt.objects, codegenStatement]
    exact compiles_genWhile (compiles_codegenStatement _ body)
  | .doWhileStmt body cond => by
    rw [Stmt.cost, Stmt.total, Stmt.objects, codegenStatement]
    exact compiles_genDoWhile (compiles_codegenStatement _ body)
  | .forStmt init cond update body => by
    rw [Stmt.cost, Stmt.total, Stmt.objects, codegenStatement]
    exact compiles_genFor (compiles_codegenForInit node init) (compiles_codegenStatement _ body)
  | .switchStmt value body => by
    rw [Stmt.cost, Stmt.total, Stmt.objects, codegenStatement]
    exact compiles_genSwitch (compiles_codegenStatement _ body)
  | .caseSection value body => by
    rw [Stmt.cost, Stmt.total, Stmt.objects, codegenStatement]
    exact compiles_genSection (.caseLabel value) (compiles_codegenStatement _ body)
  | .defaultSection body => by
    rw [Stmt.cost, Stmt.total, Stmt.objects, codegenStatement]
    exact compiles_genSection .defaultLabel (compiles_codegenStatement _ body)
  | .breakStmt => compiles_genBreak
  | .continueStmt => compiles_genContinue
  | .gotoStmt name => compiles_genGoto name
  | .labelStmt name body => by
    rw [Stmt.cost, Stmt.total, Stmt.objects, codegenStatement]
    exact compiles_genUserLabel (compiles_codegenStatement _ body)
  | .block stmts => by
    rw [Stmt.cost, Stmt.total, Stmt.objects, codegenStatement]
    exact fun Γ lo => .inScope ((compiles_codegenStatements node 0 stmts).imp .block Γ lo)
  | .exprStmt value => by
    rw [Stmt.cost, Stmt.total, Stmt.objects]
    exact compiles_straight rfl (straight_exprStmt value)
  | .typedefDecl _ => by
    rw [Stmt.cost, Stmt.total, Stmt.objects]
    exact compiles_straight rfl (.of_neutral fun _ => by
      rw [codegenStatement]
      exact .pure _)

theorem compiles_codegenForInit (node : List Nat) : ∀ init : Option Stmt,
    Compiles u node (.list 0 init.toList) (Stmt.costOption u init) (Stmt.objectsOption init)
      (codegenForInit (node ++ [0]) init)
  | none => compiles_nil 0
  | some s => (compiles_codegenStatement (node ++ [0]) s).imp fun code => by
    simpa using StmtCode.cons code .nil

theorem compiles_codegenStatements (node : List Nat) (index : Nat) : ∀ ss : List Stmt,
    Compiles u node (.list index ss) (Stmt.costList u ss) (Stmt.objectsList ss)
      (codegenStatements node index ss)
  | [] => compiles_nil index
  | s :: ss => by
    rw [Stmt.costList, Stmt.totalList, Stmt.objectsList, codegenStatements]
    exact compiles_cons (compiles_codegenStatement _ s) (compiles_codegenStatements _ _ ss)

end

end

end ClaudeC99
