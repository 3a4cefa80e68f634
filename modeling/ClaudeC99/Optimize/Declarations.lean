import ClaudeC99.Lib.Scopes
import ClaudeC99.Optimize.Scoping

/-! Which scope each declaration is in before and after the optimizer. -/

namespace ClaudeC99

open Scopes (Token Marked marked markedScope scope Closed)

def Expr.tokens (e : Expr) : List (Token String) := [.mention e.varRefs]

def Expr.optionTokens (e : Option Expr) : List (Token String) := e.elim [] Expr.tokens

mutual

/-- The declarations and mentions of names in a statement, with the ends of its scopes: a selection
or iteration statement is a scope, and so is each of its substatements. -/
def Stmt.tokens : Stmt → List (Token String)
  | .block stmts => scope (Stmt.tokensList stmts)
  | .ifStmt cond thenBody elseBody =>
    scope (cond.tokens ++ (scope thenBody.tokens ++ Stmt.tokensElse elseBody))
  | .whileStmt cond body => scope (cond.tokens ++ scope body.tokens)
  | .doWhileStmt body cond => scope (scope body.tokens ++ cond.tokens)
  | .forStmt init cond update body =>
    scope (Stmt.tokensOption init ++
      (Expr.optionTokens cond ++ (Expr.optionTokens update ++ scope body.tokens)))
  | .switchStmt value body => scope (value.tokens ++ scope body.tokens)
  | .labelStmt _ body | .caseSection _ body | .defaultSection body => body.tokens
  | .declaration info value => [.declare info.name] ++ Expr.optionTokens value
  | .declList decls => Stmt.tokensList decls
  | .returnStmt value => Expr.optionTokens value
  | .exprStmt value => value.tokens
  | .typedefDecl (some name) => [.declare name]
  | .typedefDecl none | .breakStmt | .continueStmt | .gotoStmt _ => []

def Stmt.tokensOption : Option Stmt → List (Token String)
  | none => []
  | some s => s.tokens

def Stmt.tokensElse : Option Stmt → List (Token String)
  | none => []
  | some s => scope s.tokens

def Stmt.tokensList : List Stmt → List (Token String)
  | [] => []
  | s :: rest => s.tokens ++ Stmt.tokensList rest

end

/-! ### What the optimizer leaves of them -/

def exprMarks (before after : Expr) : List (Marked String) :=
  [(.mention before.varRefs, some (.mention after.varRefs))]

def optionMarks (table : ConstTable) (e : Option Expr) : List (Marked String) :=
  e.elim [] fun e => exprMarks e (optimizeExpr table e)

def declarationMarks (table : ConstTable) (info : DeclInfo) (value : Option Expr) :
    List (Marked String) :=
  marked true [.declare info.name] ++ optionMarks table value

def listedMarks (table : ConstTable) : Stmt → List (Marked String)
  | .declaration info value => declarationMarks table info value
  | s => marked true s.tokens

mutual

def stmtMarks (table : ConstTable) : Stmt → List (Marked String)
  | .block stmts => markedScope true (blockMarks table false stmts)
  | .ifStmt cond thenBody elseBody =>
    match knownValue table cond with
    | none =>
      markedScope true (exprMarks cond (optimizeExpr table cond) ++
        (markedScope true (stmtMarks table thenBody) ++
          elseMarks true (constsAfter table thenBody) elseBody))
    | some v =>
      if v ≠ 0 then
        markedScope false (marked false cond.tokens ++
          (markedScope false (stmtMarks table thenBody) ++
            marked false (Stmt.tokensElse elseBody)))
      else
        -- Without an `else` the statement becomes an empty block, a scope of its own.
        markedScope elseBody.isNone (marked false cond.tokens ++
          (marked false (scope thenBody.tokens) ++
            elseMarks false (constsAfter table thenBody) elseBody))
  | .whileStmt cond body =>
    if knownValue table cond = some 0 then
      markedScope true (marked false (cond.tokens ++ scope body.tokens))
    else
      markedScope true (exprMarks cond (optimizeExpr table cond) ++
        markedScope true (stmtMarks table body))
  | .doWhileStmt body cond =>
    markedScope true (markedScope true (stmtMarks table body) ++
      exprMarks cond (optimizeExpr (constsAfter table body) cond))
  | .forStmt init cond update body =>
    if cond.bind (knownValue (constsAfterOption table init)) = some 0 then
      markedScope init.isNone (initMarks table init ++
        marked false (Expr.optionTokens cond ++ (Expr.optionTokens update ++ scope body.tokens)))
    else
      markedScope true (initMarks table init ++
        (optionMarks (constsAfterOption table init) cond ++
          (optionMarks (constsAfterOption table init) update ++
            markedScope true (stmtMarks (constsAfterOption table init) body))))
  | .switchStmt value body =>
    markedScope true (exprMarks value (optimizeExpr table value) ++
      markedScope true (stmtMarks table body))
  | .labelStmt _ body | .caseSection _ body | .defaultSection body => stmtMarks table body
  | .declaration info value => declarationMarks table info value
  | .declList decls => decls.flatMap (listedMarks table)
  | .returnStmt value => optionMarks table value
  | .exprStmt value => exprMarks value (optimizeExpr table value)
  | .typedefDecl (some name) => marked true [.declare name]
  | .typedefDecl none | .breakStmt | .continueStmt | .gotoStmt _ => []

def elseMarks (keep : Bool) (table : ConstTable) : Option Stmt → List (Marked String)
  | none => []
  | some s => markedScope keep (stmtMarks table s)

def initMarks (table : ConstTable) : Option Stmt → List (Marked String)
  | none => []
  | some (.exprStmt value) => exprMarks value (optimizeChildren table value)
  | some s => stmtMarks table s

def blockMarks (table : ConstTable) (dead : Bool) : List Stmt → List (Marked String)
  | [] => []
  | s :: rest =>
    if dead ∧ ¬ isLabeled s then marked false s.tokens ++ blockMarks table true rest
    else stmtMarks table s ++ blockMarks (constsAfter table s) (becomesJump table s) rest

end

/-! ### The marked tokens are those of the two statements -/

@[simp] theorem exprMarks_fst (before after : Expr) :
    (exprMarks before after).map Prod.fst = before.tokens := rfl

@[simp] theorem exprMarks_left (before after : Expr) :
    (exprMarks before after).filterMap Prod.snd = after.tokens := rfl

@[simp] theorem optionMarks_fst (table : ConstTable) (e : Option Expr) :
    (optionMarks table e).map Prod.fst = Expr.optionTokens e := by
  cases e <;> rfl

@[simp] theorem optionMarks_left (table : ConstTable) (e : Option Expr) :
    (optionMarks table e).filterMap Prod.snd =
      Expr.optionTokens (e.map (optimizeExpr table)) := by
  cases e <;> rfl

theorem tokensList_eq (stmts : List Stmt) : Stmt.tokensList stmts = stmts.flatMap Stmt.tokens := by
  induction stmts with
  | nil => rfl
  | cons s rest ih => rw [Stmt.tokensList, ih, List.flatMap_cons]

@[simp] theorem declarationMarks_fst (table : ConstTable) (info : DeclInfo) (value : Option Expr) :
    (declarationMarks table info value).map Prod.fst = (Stmt.declaration info value).tokens := by
  simp [declarationMarks, Stmt.tokens]

@[simp] theorem declarationMarks_left (table : ConstTable) (info : DeclInfo)
    (value : Option Expr) :
    (declarationMarks table info value).filterMap Prod.snd =
      (Stmt.declaration info (value.map (optimizeExpr table))).tokens := by
  simp [declarationMarks, Stmt.tokens]

theorem listedMarks_fst (table : ConstTable) (s : Stmt) :
    (listedMarks table s).map Prod.fst = s.tokens := by
  cases s <;> simp [listedMarks]

theorem listedMarks_left (table : ConstTable) (s : Stmt) :
    (listedMarks table s).filterMap Prod.snd = (optimizeListed table s).tokens := by
  cases s <;> simp [listedMarks, optimizeListed]

mutual

@[simp] theorem stmtMarks_fst : ∀ (table : ConstTable) (s : Stmt),
    (stmtMarks table s).map Prod.fst = s.tokens
  | table, .block stmts => by simp [stmtMarks, Stmt.tokens, blockMarks_fst table false stmts]
  | table, .ifStmt cond thenBody elseBody => by
    have h_then := stmtMarks_fst table thenBody
    have h_else (keep : Bool) := elseMarks_fst keep (constsAfter table thenBody) elseBody
    rw [stmtMarks, Stmt.tokens]
    cases knownValue table cond with
    | none => simp [h_then, h_else]
    | some v => by_cases h_zero : v = 0 <;> simp [h_zero, h_then, h_else]
  | table, .whileStmt cond body => by
    have h_body := stmtMarks_fst table body
    rw [stmtMarks, Stmt.tokens]
    split <;> simp [h_body]
  | table, .forStmt init cond update body => by
    have h_init := initMarks_fst table init
    have h_body := stmtMarks_fst (constsAfterOption table init) body
    rw [stmtMarks, Stmt.tokens]
    split <;> simp [h_init, h_body]
  | table, .doWhileStmt body _ | table, .switchStmt _ body => by
    simp [stmtMarks, Stmt.tokens, stmtMarks_fst table body]
  | table, .labelStmt _ body | table, .caseSection _ body | table, .defaultSection body => by
    rw [stmtMarks, Stmt.tokens, stmtMarks_fst table body]
  | table, .declList decls => by
    simp [stmtMarks, Stmt.tokens, tokensList_eq, List.map_flatMap, listedMarks_fst]
  | _, .declaration _ _ => by rw [stmtMarks, declarationMarks_fst]
  | _, .typedefDecl none | _, .typedefDecl (some _) | _, .returnStmt _
  | _, .exprStmt _ | _, .breakStmt | _, .continueStmt | _, .gotoStmt _ => by
    simp [stmtMarks, Stmt.tokens]

theorem elseMarks_fst : ∀ (keep : Bool) (table : ConstTable) (s : Option Stmt),
    (elseMarks keep table s).map Prod.fst = Stmt.tokensElse s
  | _, _, none => rfl
  | keep, table, some s => by simp [elseMarks, Stmt.tokensElse, stmtMarks_fst table s]

theorem initMarks_fst : ∀ (table : ConstTable) (s : Option Stmt),
    (initMarks table s).map Prod.fst = Stmt.tokensOption s
  | _, none => rfl
  | _, some (.exprStmt _) => rfl
  | table, some s => by
    have h := stmtMarks_fst table s
    cases s <;> exact h

theorem blockMarks_fst : ∀ (table : ConstTable) (dead : Bool) (stmts : List Stmt),
    (blockMarks table dead stmts).map Prod.fst = Stmt.tokensList stmts
  | _, _, [] => rfl
  | table, dead, s :: rest => by
    have h_first := stmtMarks_fst table s
    have h_dead := blockMarks_fst table true rest
    have h_rest := blockMarks_fst (constsAfter table s) (becomesJump table s) rest
    rw [blockMarks, Stmt.tokensList]
    split <;> simp [h_first, h_dead, h_rest]

end

theorem mapped_literal (table : ConstTable) (cond : Option Expr) :
    (cond.map (optimizeExpr table)).bind Expr.literal = cond.bind (knownValue table) := by
  cases cond <;> rfl

mutual

@[simp] theorem stmtMarks_left : ∀ (table : ConstTable) (s : Stmt),
    (stmtMarks table s).filterMap Prod.snd = (optimizeStmt table s).1.tokens
  | table, .block stmts => by
    simp [stmtMarks, optimizeStmt, Stmt.tokens, blockMarks_left table false stmts]
  | table, .ifStmt cond thenBody elseBody => by
    have h_then := stmtMarks_left table thenBody
    have h_else := elseMarks_left (constsAfter table thenBody) elseBody
    simp only [stmtMarks, optimizeStmt, optimizeStmt_table]
    cases h_known : knownValue table cond with
    | none =>
      rw [knownValue] at h_known
      simp [h_known, h_then, h_else, Stmt.tokens]
    | some v =>
      rw [knownValue] at h_known
      by_cases h_zero : v = 0
      · cases elseBody with
        | none =>
          simp [h_known, h_zero, optimizeOption, elseMarks, Stmt.tokens, Stmt.tokensList]
        | some s =>
          have h_kept := stmtMarks_left (constsAfter table thenBody) s
          simp [h_known, h_zero, optimizeOption, elseMarks, h_kept]
      · simp [h_known, h_zero, h_then]
  | table, .whileStmt cond body => by
    have h_body := stmtMarks_left table body
    simp only [stmtMarks, optimizeStmt, knownValue]
    by_cases h_zero : (optimizeExpr table cond).literal = some 0 <;>
      simp [h_zero, h_body, Stmt.tokens, Stmt.tokensList]
  | table, .forStmt init cond update body => by
    have h_init := initMarks_left table init
    have h_body := stmtMarks_left (constsAfterOption table init) body
    simp only [stmtMarks, optimizeStmt, optimizeForInit_table, mapped_literal]
    split
    next h_zero =>
      cases init with
      | none => simp [initMarks, optimizeForInit, Stmt.tokens, Stmt.tokensList]
      | some s =>
        obtain ⟨s', h_some⟩ : ∃ s', (optimizeForInit table (some s)).1 = some s' := by
          cases s <;> exact ⟨_, rfl⟩
        rw [h_some] at h_init
        simp [h_some, h_init, Stmt.tokensOption]
    next h_zero => simp [h_init, h_body, Stmt.tokens]
  | table, .doWhileStmt body _ | table, .switchStmt _ body => by
    simp [stmtMarks, optimizeStmt, Stmt.tokens, stmtMarks_left table body]
  | table, .labelStmt _ body | table, .caseSection _ body | table, .defaultSection body => by
    simp [stmtMarks, optimizeStmt, Stmt.tokens, stmtMarks_left table body]
  | table, .declList decls => by
    simp [stmtMarks, optimizeStmt, Stmt.tokens, tokensList_eq, List.filterMap_flatMap,
      listedMarks_left, List.flatMap_map]
  | _, .declaration _ _ => by rw [stmtMarks, declarationMarks_left, optimizeStmt]
  | _, .typedefDecl none | _, .typedefDecl (some _) | _, .returnStmt _
  | _, .exprStmt _ | _, .breakStmt | _, .continueStmt | _, .gotoStmt _ => by
    simp [stmtMarks, optimizeStmt, Stmt.tokens]

theorem elseMarks_left : ∀ (table : ConstTable) (s : Option Stmt),
    (elseMarks true table s).filterMap Prod.snd = Stmt.tokensElse (optimizeOption table s).1
  | _, none => rfl
  | table, some s => by
    simp [elseMarks, optimizeOption, Stmt.tokensElse, stmtMarks_left table s]

theorem initMarks_left : ∀ (table : ConstTable) (s : Option Stmt),
    (initMarks table s).filterMap Prod.snd = Stmt.tokensOption (optimizeForInit table s).1
  | _, none => rfl
  | _, some (.exprStmt _) => rfl
  | table, some s => by
    have h := stmtMarks_left table s
    cases s <;> first | exact h | rfl

theorem blockMarks_left : ∀ (table : ConstTable) (dead : Bool) (stmts : List Stmt),
    (blockMarks table dead stmts).filterMap Prod.snd =
      Stmt.tokensList (optimizeBlock table dead stmts)
  | _, _, [] => rfl
  | table, dead, s :: rest => by
    have h_first := stmtMarks_left table s
    have h_dead := blockMarks_left table true rest
    have h_rest := blockMarks_left (constsAfter table s) (becomesJump table s) rest
    rw [blockMarks, optimizeBlock]
    split
    · simp [h_dead]
    · simp [h_first, h_rest, Stmt.tokensList]

end

/-! ### Scopes keep both of their ends or none -/

theorem closed_tokens (keep : Bool) (e : Expr) : Closed (marked keep e.tokens) :=
  Closed.marked_mention keep e.varRefs

theorem closed_optionTokens (keep : Bool) (e : Option Expr) :
    Closed (marked keep (Expr.optionTokens e)) := by
  cases e with
  | none => exact Closed.nil
  | some e => exact closed_tokens keep e

mutual

theorem closed_marked : ∀ (keep : Bool) (s : Stmt), Closed (marked keep s.tokens)
  | keep, .block stmts => by
    rw [Stmt.tokens, Scopes.marked_scope]
    exact (closed_markedList keep stmts).scope keep
  | keep, .ifStmt cond thenBody elseBody => by
    have h_then := (closed_marked keep thenBody).scope keep
    have h_else := closed_markedElse keep elseBody
    simp only [Stmt.tokens, Scopes.marked_scope, Scopes.marked_append]
    exact ((closed_tokens keep cond).append (h_then.append h_else)).scope keep
  | keep, .whileStmt value body | keep, .switchStmt value body => by
    have h_body := (closed_marked keep body).scope keep
    simp only [Stmt.tokens, Scopes.marked_scope, Scopes.marked_append]
    exact ((closed_tokens keep value).append h_body).scope keep
  | keep, .doWhileStmt body cond => by
    have h_body := (closed_marked keep body).scope keep
    simp only [Stmt.tokens, Scopes.marked_scope, Scopes.marked_append]
    exact (h_body.append (closed_tokens keep cond)).scope keep
  | keep, .forStmt init cond update body => by
    have h_init := closed_markedOption keep init
    have h_cond := closed_optionTokens keep cond
    have h_update := closed_optionTokens keep update
    have h_body := (closed_marked keep body).scope keep
    simp only [Stmt.tokens, Scopes.marked_scope, Scopes.marked_append]
    exact (h_init.append (h_cond.append (h_update.append h_body))).scope keep
  | keep, .labelStmt _ body | keep, .caseSection _ body | keep, .defaultSection body => by
    rw [Stmt.tokens]
    exact closed_marked keep body
  | keep, .declaration info value => by
    rw [Stmt.tokens, Scopes.marked_append]
    exact (Closed.declare keep info.name).append (closed_optionTokens keep value)
  | keep, .declList decls => by
    rw [Stmt.tokens]
    exact closed_markedList keep decls
  | keep, .returnStmt value => by
    rw [Stmt.tokens]
    exact closed_optionTokens keep value
  | keep, .exprStmt value => by
    rw [Stmt.tokens]
    exact closed_tokens keep value
  | keep, .typedefDecl (some name) => by
    rw [Stmt.tokens]
    exact Closed.declare keep name
  | _, .typedefDecl none | _, .breakStmt | _, .continueStmt | _, .gotoStmt _ => by
    rw [Stmt.tokens]
    exact Closed.nil

theorem closed_markedOption : ∀ (keep : Bool) (s : Option Stmt),
    Closed (marked keep (Stmt.tokensOption s))
  | _, none => Closed.nil
  | keep, some s => closed_marked keep s

theorem closed_markedElse : ∀ (keep : Bool) (s : Option Stmt),
    Closed (marked keep (Stmt.tokensElse s))
  | _, none => Closed.nil
  | keep, some s => by
    rw [Stmt.tokensElse, Scopes.marked_scope]
    exact (closed_marked keep s).scope keep

theorem closed_markedList : ∀ (keep : Bool) (stmts : List Stmt),
    Closed (marked keep (Stmt.tokensList stmts))
  | _, [] => Closed.nil
  | keep, s :: rest => by
    rw [Stmt.tokensList, Scopes.marked_append]
    exact (closed_marked keep s).append (closed_markedList keep rest)

end

theorem closed_exprMarks (before after : Expr) : Closed (exprMarks before after) :=
  Closed.mention before.varRefs after.varRefs

theorem closed_optionMarks (table : ConstTable) (e : Option Expr) :
    Closed (optionMarks table e) := by
  cases e with
  | none => exact Closed.nil
  | some e => exact closed_exprMarks e _

theorem closed_declarationMarks (table : ConstTable) (info : DeclInfo) (value : Option Expr) :
    Closed (declarationMarks table info value) :=
  (Closed.declare true info.name).append (closed_optionMarks table value)

theorem closed_listedMarks (table : ConstTable) (decls : List Stmt) :
    Closed (decls.flatMap (listedMarks table)) := by
  induction decls with
  | nil => exact Closed.nil
  | cons s rest ih =>
    rw [List.flatMap_cons]
    apply Closed.append _ ih
    cases s with
    | declaration info value => exact closed_declarationMarks table info value
    | _ => exact closed_marked true _

mutual

theorem closed_stmtMarks : ∀ (table : ConstTable) (s : Stmt), Closed (stmtMarks table s)
  | table, .block stmts => by
    rw [stmtMarks]
    exact (closed_blockMarks table false stmts).scope true
  | table, .ifStmt cond thenBody elseBody => by
    have h_cond := closed_tokens false cond
    have h_then := closed_stmtMarks table thenBody
    have h_else (keep : Bool) := closed_elseMarks keep (constsAfter table thenBody) elseBody
    rw [stmtMarks]
    split
    · exact ((closed_exprMarks _ _).append ((h_then.scope true).append (h_else true))).scope true
    · split
      · exact (h_cond.append
          ((h_then.scope false).append (closed_markedElse false elseBody))).scope false
      · have h_lost := (closed_marked false thenBody).scope false
        rw [Scopes.marked_scope]
        exact (h_cond.append (h_lost.append (h_else false))).scope elseBody.isNone
  | table, .whileStmt cond body => by
    rw [stmtMarks]
    split
    · have h_lost := (closed_marked false body).scope false
      rw [Scopes.marked_append, Scopes.marked_scope]
      exact ((closed_tokens false cond).append h_lost).scope true
    · have h_body := (closed_stmtMarks table body).scope true
      exact ((closed_exprMarks _ _).append h_body).scope true
  | table, .doWhileStmt body cond => by
    have h_body := (closed_stmtMarks table body).scope true
    rw [stmtMarks]
    exact (h_body.append (closed_exprMarks _ _)).scope true
  | table, .forStmt init cond update body => by
    have h_init := closed_initMarks table init
    rw [stmtMarks]
    split
    · have h_cond := closed_optionTokens false cond
      have h_update := closed_optionTokens false update
      have h_lost := (closed_marked false body).scope false
      simp only [Scopes.marked_append, Scopes.marked_scope]
      exact (h_init.append (h_cond.append (h_update.append h_lost))).scope init.isNone
    · have h_cond := closed_optionMarks (constsAfterOption table init) cond
      have h_update := closed_optionMarks (constsAfterOption table init) update
      have h_body := (closed_stmtMarks (constsAfterOption table init) body).scope true
      exact (h_init.append (h_cond.append (h_update.append h_body))).scope true
  | table, .switchStmt value body => by
    have h_body := (closed_stmtMarks table body).scope true
    rw [stmtMarks]
    exact ((closed_exprMarks _ _).append h_body).scope true
  | table, .labelStmt _ body | table, .caseSection _ body | table, .defaultSection body => by
    rw [stmtMarks]
    exact closed_stmtMarks table body
  | table, .declaration info value => by
    rw [stmtMarks]
    exact closed_declarationMarks table info value
  | table, .declList decls => by
    rw [stmtMarks]
    exact closed_listedMarks table decls
  | table, .returnStmt value => by
    rw [stmtMarks]
    exact closed_optionMarks table value
  | table, .exprStmt value => by
    rw [stmtMarks]
    exact closed_exprMarks value _
  | table, .typedefDecl (some name) => by
    rw [stmtMarks]
    exact Closed.declare true name
  | _, .typedefDecl none | _, .breakStmt | _, .continueStmt | _, .gotoStmt _ => by
    rw [stmtMarks]
    exact Closed.nil

theorem closed_elseMarks : ∀ (keep : Bool) (table : ConstTable) (s : Option Stmt),
    Closed (elseMarks keep table s)
  | _, _, none => Closed.nil
  | keep, table, some s => (closed_stmtMarks table s).scope keep

theorem closed_initMarks : ∀ (table : ConstTable) (s : Option Stmt), Closed (initMarks table s)
  | _, none => Closed.nil
  | _, some (.exprStmt value) => closed_exprMarks value _
  | table, some s => by
    have h := closed_stmtMarks table s
    cases s with
    | exprStmt value => exact closed_exprMarks value _
    | _ => exact h

theorem closed_blockMarks : ∀ (table : ConstTable) (dead : Bool) (stmts : List Stmt),
    Closed (blockMarks table dead stmts)
  | _, _, [] => Closed.nil
  | table, dead, s :: rest => by
    rw [blockMarks]
    split
    · exact (closed_marked false s).append (closed_blockMarks table true rest)
    · exact (closed_stmtMarks table s).append (closed_blockMarks _ _ rest)

end

/-! ### Function bodies -/

/-- The parameters share the scope of the outermost block. -/
def bodyTokens (params : List String) (body : List Stmt) : List (Token String) :=
  params.map Token.declare ++ Stmt.tokensList body

def bodyMarks (params : List String) (body : List Stmt) : List (Marked String) :=
  marked true (params.map Token.declare) ++ blockMarks [] false body

/-- The optimizer leaves each declaration among the declarations of its name that it saw, in its own
scope and around it, and each reference to the declaration it was to. -/
def DeclarationsStay (params : List String) (body : List Stmt) : Prop :=
  Scopes.Preserved (bodyMarks params body)

theorem closed_bodyMarks (params : List String) (body : List Stmt) :
    Closed (bodyMarks params body) := by
  apply Closed.append _ (closed_blockMarks [] false body)
  induction params with
  | nil => exact Closed.nil
  | cons name rest ih => exact (Closed.declare true name).append ih

/-- `int i = 1; { for (int i = 7; 0; ) {} return i; }` -/
def headerOverBlock : List Stmt :=
  [.declaration ⟨"i", .int, none, false, false, .none⟩ (some (newLiteral 1 .int false)),
    .block [.forStmt (some (.declaration ⟨"i", .int, none, false, false, .none⟩
        (some (newLiteral 7 .int false)))) (some (newLiteral 0 .int false)) none (.block []),
      .returnStmt (some (.varRef "i"))]]

end ClaudeC99
