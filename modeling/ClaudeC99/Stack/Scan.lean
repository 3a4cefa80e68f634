import ClaudeC99.Codegen.Function
import ClaudeC99.Control.Sites
import ClaudeC99.Stack.Statements

/-! The scan that places compound literals changes nothing but the slots in the tree. -/

namespace ClaudeC99

open X86 StateExcept Bump

def literalRequest (declType : TypeKind) (fullType : Option CType) : Request where
  size := (compoundLiteralLayout declType fullType).1
  alignment := max (compoundLiteralLayout declType fullType).2 1

mutual

/-- The objects of the compound literals in an expression, in the order they are placed. -/
def Expr.literals : Expr → List Request
  | .compoundLiteral declType fullType _ _ init =>
    literalRequest declType fullType :: init.literals
  | .assignment _ e | .addrOf e | .deref e | .memberAccess e _ | .arrowAccess e _ | .sizeofExpr e
  | .unaryOp _ e | .prefixIncDec _ e | .postfixIncDec _ e | .cast _ _ _ e | .designatedMember _ e
  | .designatedIndex _ e | .vaEnd e | .vaArg e _ => e.literals
  | .assignmentTo e₁ e₂ | .arrayIndex e₁ e₂ | .binaryOp _ e₁ e₂ _ | .comma e₁ e₂ | .vaStart e₁ e₂
  | .vaCopy e₁ e₂ => e₁.literals ++ e₂.literals
  | .conditional c t e => c.literals ++ (t.literals ++ e.literals)
  | .functionCall _ _ args => Expr.literalsList args
  | .indirectCall callee args => callee.literals ++ Expr.literalsList args
  | .initializerList items => Expr.literalsList items
  | .intLiteral _ _ _ | .charLiteral _ | .floatLiteral _ _ | .stringLiteral _ | .varRef _
  | .sizeofType _ _ => []

def Expr.literalsList : List Expr → List Request
  | [] => []
  | e :: es => e.literals ++ Expr.literalsList es

end

def Expr.literalsOption : Option Expr → List Request
  | none => []
  | some e => e.literals

/-- `m` places the objects `objs` and nothing else, and what it returns is in `P`. -/
def Places (objs : List Request) {α : Type} (P : α → Prop) (m : Gen α) : Prop :=
  ∀ cg a cg', Yields m cg a cg' → P a ∧ cg' = { cg with
    stackOffset := placeAll cg.stackOffset objs
    slots := cg.slots ++ blocks cg.stackOffset objs }

namespace Places

variable {objs objs₁ objs₂ : List Request} {α β : Type} {P : α → Prop} {Q : β → Prop}

theorem bind {m : Gen α} {k : α → Gen β} (first : Places objs₁ P m)
    (second : ∀ a, P a → Places objs₂ Q (k a)) : Places (objs₁ ++ objs₂) Q (m >>= k) := by
  intro cg b cg' run
  obtain ⟨a, cg₁, hm, hk⟩ := yields_bind.mp run
  obtain ⟨ha, rfl⟩ := first cg a cg₁ hm
  obtain ⟨hb, rfl⟩ := second a ha _ b cg' hk
  refine ⟨hb, ?_⟩
  simp [placeAll_append, blocks_append]

theorem last {m : Gen α} {f : α → β} (first : Places objs P m) (result : ∀ a, P a → Q (f a)) :
    Places objs Q (m >>= fun a => pure (f a)) := by
  intro cg b cg' run
  obtain ⟨a, cg₁, hm, hk⟩ := yields_bind.mp run
  obtain ⟨ha, rfl⟩ := first cg a cg₁ hm
  obtain ⟨rfl, rfl⟩ := yields_pure.mp hk
  exact ⟨result a ha, rfl⟩

protected theorem pure {a : α} (h : P a) : Places [] P (pure a : Gen α) := by
  intro cg b cg' run
  obtain ⟨rfl, rfl⟩ := yields_pure.mp run
  exact ⟨h, by simp [placeAll, blocks]⟩

end Places

theorem places_claimLiteralSlot (declType : TypeKind) (fullType : Option CType) :
    Places [literalRequest declType fullType] (fun _ => True)
      (claimLiteralSlot declType fullType) := by
  intro cg offset cg' run
  have place : (literalRequest declType fullType).place cg.stackOffset =
      (if (compoundLiteralLayout declType fullType).2 > 1 then
        alignUp (cg.stackOffset + (compoundLiteralLayout declType fullType).1)
          (compoundLiteralLayout declType fullType).2
      else cg.stackOffset + (compoundLiteralLayout declType fullType).1) := by
    unfold literalRequest Request.place alignUp
    split
    next large => rw [Nat.max_eq_left (by omega)]
    next small =>
      rw [Nat.max_eq_right (by omega)]
      exact roundUp_of_dvd Nat.one_pos (Nat.one_dvd _)
  obtain ⟨_, _, hget, run⟩ := yields_bind.mp run
  obtain ⟨rfl, rfl⟩ := yields_get.mp hget
  obtain ⟨_, _, hset, run⟩ := yields_bind.mp run
  obtain rfl := yields_set.mp hset
  obtain ⟨_, _, hrec, run⟩ := yields_bind.mp run
  obtain rfl := yields_modify.mp hrec
  obtain ⟨rfl, rfl⟩ := yields_pure.mp run
  refine ⟨trivial, ?_⟩
  rw [blocks, blocks, placeAll, placeAll, place]
  rfl

/-- The scan keeps what a node costs. -/
def SameCost (u : CodeGen) (e e' : Expr) : Prop :=
  e'.total (structRetBytes u) = e.total (structRetBytes u)

variable {u : CodeGen}

theorem places_unary {e : Expr} {f : Expr → Expr}
    (h : Places e.literals (SameCost u e) (scanExpr e))
    (cost : ∀ x : Expr, (f x).total (structRetBytes u) =
      structRetBytes u (f e) + x.total (structRetBytes u)) :
    Places e.literals (SameCost u (f e)) (scanExpr e >>= fun e' => pure (f e')) :=
  h.last fun e' he => by rw [SameCost, cost, cost, he]

theorem places_binary {l r : Expr} {f : Expr → Expr → Expr}
    (hl : Places l.literals (SameCost u l) (scanExpr l))
    (hr : Places r.literals (SameCost u r) (scanExpr r))
    (cost : ∀ x y : Expr, (f x y).total (structRetBytes u) =
      x.total (structRetBytes u) + y.total (structRetBytes u)) :
    Places (l.literals ++ r.literals) (SameCost u (f l r))
      (scanExpr l >>= fun l' => scanExpr r >>= fun r' => pure (f l' r')) :=
  hl.bind fun l' el => hr.last fun r' er => by rw [SameCost, cost, cost, el, er]

mutual

theorem places_scanExpr : ∀ e : Expr, Places e.literals (SameCost u e) (scanExpr e)
  | .intLiteral _ _ _ => .pure rfl
  | .charLiteral _ => .pure rfl
  | .floatLiteral _ _ => .pure rfl
  | .stringLiteral _ => .pure rfl
  | .varRef _ => .pure rfl
  | .sizeofType _ _ => .pure rfl
  | .assignment _ v => places_unary (places_scanExpr v) fun _ => rfl
  | .addrOf v => places_unary (places_scanExpr v) fun _ => rfl
  | .deref v => places_unary (places_scanExpr v) fun _ => rfl
  | .memberAccess v _ => places_unary (places_scanExpr v) fun _ => rfl
  | .arrowAccess v _ => places_unary (places_scanExpr v) fun _ => rfl
  | .sizeofExpr v => places_unary (places_scanExpr v) fun _ => rfl
  | .unaryOp _ v => places_unary (places_scanExpr v) fun _ => rfl
  | .prefixIncDec _ v => places_unary (places_scanExpr v) fun _ => rfl
  | .postfixIncDec _ v => places_unary (places_scanExpr v) fun _ => rfl
  | .cast _ _ _ v => places_unary (places_scanExpr v) fun _ => rfl
  | .designatedMember _ v => places_unary (places_scanExpr v) fun _ => rfl
  | .designatedIndex _ v => places_unary (places_scanExpr v) fun _ => rfl
  | .vaEnd v => places_unary (places_scanExpr v) fun _ => rfl
  | .vaArg v _ => places_unary (places_scanExpr v) fun _ => rfl
  | .assignmentTo l r =>
    places_binary (places_scanExpr l) (places_scanExpr r) fun _ _ => by
      simp [Expr.total, structRetBytes]
  | .arrayIndex l r =>
    places_binary (places_scanExpr l) (places_scanExpr r) fun _ _ => by
      simp [Expr.total, structRetBytes]
  | .binaryOp _ l r _ =>
    places_binary (places_scanExpr l) (places_scanExpr r) fun _ _ => by
      simp [Expr.total, structRetBytes]
  | .comma l r =>
    places_binary (places_scanExpr l) (places_scanExpr r) fun _ _ => by
      simp [Expr.total, structRetBytes]
  | .vaStart l r =>
    places_binary (places_scanExpr l) (places_scanExpr r) fun _ _ => by
      simp [Expr.total, structRetBytes]
  | .vaCopy l r =>
    places_binary (places_scanExpr l) (places_scanExpr r) fun _ _ => by
      simp [Expr.total, structRetBytes]
  | .functionCall _ _ args => (places_scanExprs args).last fun args' h => by
      rw [SameCost, Expr.total, Expr.total, h]
      rfl
  | .indirectCall callee args => (places_scanExpr callee).bind fun callee' hc =>
      (places_scanExprs args).last fun args' h => by
        rw [SameCost, Expr.total, Expr.total, hc, h]
        rfl
  | .conditional c t e => (places_scanExpr c).bind fun c' hc =>
      (places_scanExpr t).bind fun t' ht => (places_scanExpr e).last fun e' he => by
        rw [SameCost, Expr.total, Expr.total, hc, ht, he]
        rfl
  | .initializerList items => (places_scanExprs items).last fun items' h => by
      rw [SameCost, Expr.total, Expr.total, h]
      rfl
  | .compoundLiteral declType fullType _ _ init =>
      (places_claimLiteralSlot declType fullType).bind fun slot _ =>
        (places_scanExpr init).last fun init' h => by
          rw [SameCost, Expr.total, Expr.total, h]
          rfl

theorem places_scanExprs : ∀ es : List Expr, Places (Expr.literalsList es)
    (fun es' => Expr.totalList (structRetBytes u) es' = Expr.totalList (structRetBytes u) es)
    (scanExprs es)
  | [] => .pure rfl
  | e :: es => (places_scanExpr e).bind fun e' he => (places_scanExprs es).last fun es' hes => by
      rw [Expr.totalList, Expr.totalList, he, hes]

end

theorem places_scanOptionExpr (e : Option Expr) : Places (Expr.literalsOption e)
    (fun e' => initCost u e' = initCost u e) (scanOptionExpr e) := by
  cases e with
  | none => exact .pure rfl
  | some e => exact (places_scanExpr e).last fun e' h => h

mutual

/-- The objects of the compound literals in a statement, in the order they are placed. -/
def Stmt.literals : Stmt → List Request
  | .declaration _ init => Expr.literalsOption init
  | .declList decls => Stmt.literalsList decls
  | .returnStmt value => Expr.literalsOption value
  | .ifStmt cond thenBody elseBody =>
    cond.literals ++ (thenBody.literals ++ Stmt.literalsOption elseBody)
  | .whileStmt cond body => cond.literals ++ body.literals
  | .doWhileStmt body cond => body.literals ++ cond.literals
  | .forStmt init cond update body => Stmt.literalsOption init ++ (Expr.literalsOption cond ++
    (Expr.literalsOption update ++ body.literals))
  | .switchStmt value body => value.literals ++ body.literals
  | .caseSection _ body => body.literals
  | .defaultSection body => body.literals
  | .labelStmt _ body => body.literals
  | .block stmts => Stmt.literalsList stmts
  | .exprStmt value => value.literals
  | .breakStmt => []
  | .continueStmt => []
  | .gotoStmt _ => []
  | .typedefDecl _ => []

def Stmt.literalsOption : Option Stmt → List Request
  | none => []
  | some s => s.literals

def Stmt.literalsList : List Stmt → List Request
  | [] => []
  | s :: ss => s.literals ++ Stmt.literalsList ss

end

/-- What the scan keeps of a statement. -/
structure SameStmt (u : CodeGen) (s s' : Stmt) : Prop where
  cost : s'.cost u = s.cost u
  objects : s'.objects = s.objects
  sites : ∀ loop switches, s'.sites loop switches = s.sites loop switches
  labels : userLabelsOf s' = userLabelsOf s

structure SameStmts (u : CodeGen) (ss ss' : List Stmt) : Prop where
  cost : Stmt.costList u ss' = Stmt.costList u ss
  objects : Stmt.objectsList ss' = Stmt.objectsList ss
  sites : ∀ loop switches, Stmt.sitesList loop switches ss' = Stmt.sitesList loop switches ss
  labels : userLabelsOfList ss' = userLabelsOfList ss

structure SameOption (u : CodeGen) (s s' : Option Stmt) : Prop where
  cost : Stmt.costOption u s' = Stmt.costOption u s
  objects : Stmt.objectsOption s' = Stmt.objectsOption s
  sites : ∀ loop switches, Stmt.sitesOption loop switches s' = Stmt.sitesOption loop switches s
  labels : userLabelsOfOption s' = userLabelsOfOption s

namespace SameStmt

variable {cond cond' : Expr} {s s' t t' : Stmt} {o o' : Option Stmt}

theorem ifStmt (hc : SameCost u cond cond') (ht : SameStmt u s s') (he : SameOption u o o') :
    SameStmt u (.ifStmt cond s o) (.ifStmt cond' s' o') where
  cost := congrArg₂ (· + ·) (congrArg₂ (· + ·) hc ht.cost) he.cost
  objects := congrArg₂ (· ++ ·) ht.objects he.objects
  sites loop n := congrArg₂ (· ++ ·) (ht.sites loop n) (he.sites loop n)
  labels := congrArg₂ (· ++ ·) ht.labels he.labels

theorem whileStmt (hc : SameCost u cond cond') (h : SameStmt u s s') :
    SameStmt u (.whileStmt cond s) (.whileStmt cond' s') where
  cost := congrArg₂ (· + ·) hc h.cost
  objects := h.objects
  sites _ n := h.sites (some n) n
  labels := h.labels

theorem doWhileStmt (h : SameStmt u s s') (hc : SameCost u cond cond') :
    SameStmt u (.doWhileStmt s cond) (.doWhileStmt s' cond') where
  cost := congrArg₂ (· + ·) h.cost hc
  objects := h.objects
  sites _ n := h.sites (some n) n
  labels := h.labels

theorem forStmt {cond cond' update update' : Option Expr} (hi : SameOption u o o')
    (hc : initCost u cond' = initCost u cond) (hu : initCost u update' = initCost u update)
    (h : SameStmt u s s') : SameStmt u (.forStmt o cond update s) (.forStmt o' cond' update' s') where
  cost := congrArg₂ (· + ·) (congrArg₂ (· + ·) (congrArg₂ (· + ·) hi.cost hc) hu) h.cost
  objects := congrArg₂ (· ++ ·) hi.objects h.objects
  sites _ n := congrArg₂ (· ++ ·) (hi.sites (some n) n) (h.sites (some n) n)
  labels := congrArg₂ (· ++ ·) hi.labels h.labels

theorem switchStmt (hc : SameCost u cond cond') (h : SameStmt u s s') :
    SameStmt u (.switchStmt cond s) (.switchStmt cond' s') where
  cost := congrArg₂ (· + ·) hc h.cost
  objects := h.objects
  sites loop n := h.sites loop (n + 1)
  labels := h.labels

theorem caseSection (value : Int) (h : SameStmt u s s') :
    SameStmt u (.caseSection value s) (.caseSection value s') where
  cost := h.cost
  objects := h.objects
  sites loop n := congrArg (Site.caseAt n :: ·) (h.sites loop n)
  labels := h.labels

theorem defaultSection (h : SameStmt u s s') :
    SameStmt u (.defaultSection s) (.defaultSection s') where
  cost := h.cost
  objects := h.objects
  sites loop n := congrArg (Site.caseAt n :: ·) (h.sites loop n)
  labels := h.labels

theorem labelStmt (name : String) (h : SameStmt u s s') :
    SameStmt u (.labelStmt name s) (.labelStmt name s') where
  cost := h.cost
  objects := h.objects
  sites loop n := congrArg (Site.labelAt name n :: ·) (h.sites loop n)
  labels := congrArg (name :: ·) h.labels

end SameStmt

mutual

theorem places_scanStmt : ∀ s : Stmt, Places s.literals (SameStmt u s) (scanStmt s)
  | .declaration info init => (places_scanOptionExpr init).last fun init' h =>
      ⟨congrArg (0 + ·) h, rfl, fun _ _ => rfl, rfl⟩
  | .declList decls => (places_scanStmts decls).last fun decls' h =>
      ⟨h.cost, h.objects, h.sites, h.labels⟩
  | .returnStmt value => (places_scanOptionExpr value).last fun value' h =>
      ⟨h, rfl, fun _ _ => rfl, rfl⟩
  | .ifStmt cond thenBody elseBody => by
    refine (places_scanExpr (u := u) cond).bind fun cond' hc => ?_
    refine (places_scanStmt thenBody).bind fun then' ht => ?_
    exact (places_scanOptionStmt elseBody).last fun else' he => .ifStmt hc ht he
  | .whileStmt cond body => by
    refine (places_scanExpr (u := u) cond).bind fun cond' hc => ?_
    exact (places_scanStmt body).last fun body' h => .whileStmt hc h
  | .doWhileStmt body cond => by
    refine (places_scanStmt body).bind fun body' h => ?_
    exact (places_scanExpr cond).last fun cond' hc => .doWhileStmt h hc
  | .forStmt init cond update body => by
    refine (places_scanOptionStmt init).bind fun init' hi => ?_
    refine (places_scanOptionExpr (u := u) cond).bind fun cond' hc => ?_
    refine (places_scanOptionExpr (u := u) update).bind fun update' hu => ?_
    exact (places_scanStmt body).last fun body' h => .forStmt hi hc hu h
  | .switchStmt value body => by
    refine (places_scanExpr (u := u) value).bind fun value' hc => ?_
    exact (places_scanStmt body).last fun body' h => .switchStmt hc h
  | .caseSection value body => (places_scanStmt body).last fun _ h => .caseSection value h
  | .defaultSection body => (places_scanStmt body).last fun _ h => .defaultSection h
  | .labelStmt name body => (places_scanStmt body).last fun _ h => .labelStmt name h
  | .block stmts => (places_scanStmts stmts).last fun stmts' h =>
      ⟨h.cost, h.objects, h.sites, h.labels⟩
  | .exprStmt value => (places_scanExpr value).last fun value' h =>
      ⟨h, rfl, fun _ _ => rfl, rfl⟩
  | .breakStmt => .pure ⟨rfl, rfl, fun _ _ => rfl, rfl⟩
  | .continueStmt => .pure ⟨rfl, rfl, fun _ _ => rfl, rfl⟩
  | .gotoStmt _ => .pure ⟨rfl, rfl, fun _ _ => rfl, rfl⟩
  | .typedefDecl _ => .pure ⟨rfl, rfl, fun _ _ => rfl, rfl⟩

theorem places_scanOptionStmt : ∀ s : Option Stmt,
    Places (Stmt.literalsOption s) (SameOption u s) (scanOptionStmt s)
  | none => .pure ⟨rfl, rfl, fun _ _ => rfl, rfl⟩
  | some s => (places_scanStmt s).last fun _ h => ⟨h.cost, h.objects, h.sites, h.labels⟩

theorem places_scanStmts : ∀ ss : List Stmt,
    Places (Stmt.literalsList ss) (SameStmts u ss) (scanStmts ss)
  | [] => .pure ⟨rfl, rfl, fun _ _ => rfl, rfl⟩
  | s :: ss => by
    refine (places_scanStmt s).bind fun s' h => ?_
    refine (places_scanStmts ss).last fun ss' hs => ⟨?_, ?_, fun loop n => ?_, ?_⟩
    · exact congrArg₂ (· + ·) h.cost hs.cost
    · exact congrArg₂ (· ++ ·) h.objects hs.objects
    · exact congrArg₂ (· ++ ·) (h.sites loop n) (hs.sites loop n)
    · exact congrArg₂ (· ++ ·) h.labels hs.labels

end

end ClaudeC99
