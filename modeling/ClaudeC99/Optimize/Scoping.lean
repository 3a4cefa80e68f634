import ClaudeC99.Optimize.Labels

/-! Which declaration the constant for a variable comes from, and which one C's scopes select. -/

namespace ClaudeC99

mutual

/-- The variable references in an expression. -/
def Expr.varRefs : Expr → List String
  | .varRef n => [n]
  | .intLiteral _ _ _ | .charLiteral _ | .floatLiteral _ _ | .stringLiteral _
  | .sizeofType _ _ => []
  | .assignment _ e | .addrOf e | .deref e | .memberAccess e _ | .arrowAccess e _
  | .sizeofExpr e | .unaryOp _ e | .prefixIncDec _ e | .postfixIncDec _ e | .cast _ _ _ e
  | .designatedMember _ e | .designatedIndex _ e | .compoundLiteral _ _ _ _ e | .vaEnd e
  | .vaArg e _ => e.varRefs
  | .assignmentTo l r | .arrayIndex l r | .binaryOp _ l r _ | .comma l r | .vaStart l r
  | .vaCopy l r => l.varRefs ++ r.varRefs
  | .functionCall _ _ args => Expr.varRefsList args
  | .indirectCall c args => c.varRefs ++ Expr.varRefsList args
  | .conditional c t e => c.varRefs ++ (t.varRefs ++ e.varRefs)
  | .initializerList es => Expr.varRefsList es

def Expr.varRefsList : List Expr → List String
  | [] => []
  | e :: es => e.varRefs ++ Expr.varRefsList es

end

/-- A declared name. It is silent while the table has no entry for it. -/
structure Binding where
  name : String
  id : Nat
  silent : Bool

/-- An entry of the table with the declaration that made it. It has outlived that declaration when
the scope is closed. -/
structure TracedEntry where
  entry : ConstEntry
  origin : Nat
  outlived : Bool

/-- The declarations visible at a point of a function, the innermost first, beside the optimizer's
table there; `next` counts the declarations before it. -/
structure Names where
  next : Nat
  scope : List Binding
  table : List TracedEntry

namespace Names

def consts (w : Names) : ConstTable := w.table.map TracedEntry.entry

/-- A declaration without an entry in the table. -/
def bind (w : Names) (name : String) : Names :=
  ⟨w.next + 1, ⟨name, w.next, true⟩ :: w.scope, w.table⟩

def entering (params : List String) : Names := params.foldl bind ⟨0, [], []⟩

def bindListed (w : Names) : List Stmt → Names
  | [] => w
  | .declaration info _ :: rest => (w.bind info.name).bindListed rest
  | _ :: rest => w.bindListed rest

def declare (w : Names) (info : DeclInfo) (value : Option Expr) : Names :=
  match constEntry w.consts info (value.map (optimizeExpr w.consts)) with
  | some entry =>
    ⟨w.next + 1, ⟨info.name, w.next, false⟩ :: w.scope, ⟨entry, w.next, false⟩ :: w.table⟩
  | none => w.bind info.name

/-- The end of a block: the optimizer drops the entries made in it. -/
def leaveBlock (outer inner : Names) : Names := ⟨inner.next, outer.scope, outer.table⟩

def outlive (next : Nat) (e : TracedEntry) : TracedEntry :=
  if next ≤ e.origin then { e with outlived := true } else e

/-- The end of a `for` or of a substatement: a scope for C, but not for the optimizer. -/
def leave (outer inner : Names) : Names :=
  ⟨inner.next, outer.scope, inner.table.map (outlive outer.next)⟩

/-- A removed statement still declares its names. -/
def skip (w : Names) : Stmt → Names
  | .declaration info _ => w.bind info.name
  | .declList decls => w.bindListed decls
  | .typedefDecl (some name) => w.bind name
  | _ => w

end Names

mutual

def namesAfter (w : Names) : Stmt → Names
  | .block stmts => w.leaveBlock (namesAfterBlock w false stmts)
  | .ifStmt _ thenBody elseBody => namesAfterElse (w.leave (namesAfter w thenBody)) elseBody
  | .whileStmt _ body | .doWhileStmt body _ | .switchStmt _ body => w.leave (namesAfter w body)
  | .forStmt init _ _ body => w.leave (namesAfter (namesAfterInit w init) body)
  | .labelStmt _ body | .caseSection _ body | .defaultSection body => namesAfter w body
  | .declaration info value => w.declare info value
  | .declList decls => w.bindListed decls
  | .typedefDecl (some name) => w.bind name
  | .typedefDecl none | .returnStmt _ | .exprStmt _ | .breakStmt | .continueStmt
  | .gotoStmt _ => w

def namesAfterElse (w : Names) : Option Stmt → Names
  | none => w
  | some s => w.leave (namesAfter w s)

def namesAfterInit (w : Names) : Option Stmt → Names
  | none => w
  | some s => namesAfter w s

def namesAfterBlock (w : Names) (dead : Bool) : List Stmt → Names
  | [] => w
  | s :: rest =>
    if dead ∧ ¬ isLabeled s then namesAfterBlock (w.skip s) true rest
    else namesAfterBlock (namesAfter w s) (becomesJump w.consts s) rest

end

/-- A variable reference that the optimizer visits. -/
structure Use where
  name : String
  names : Names

namespace Use

/-- The entry that the optimizer finds for a reference. -/
def supplier (u : Use) : Option TracedEntry := u.names.table.find? fun e => e.entry.name = u.name

/-- The declaration that the reference is to in C. -/
def visible (u : Use) : Option Binding := u.names.scope.find? fun b => b.name = u.name

def replaced (u : Use) : Bool := (optimizeExpr u.names.consts (.varRef u.name)).literal.isSome

end Use

def exprUses (w : Names) (e : Expr) : List Use := e.varRefs.map fun name => ⟨name, w⟩

def optionUses (w : Names) (e : Option Expr) : List Use := e.elim [] (exprUses w)

/-- The scope of a name begins before its initializer. -/
def listedUses (w : Names) : List Stmt → List Use
  | [] => []
  | .declaration info value :: rest =>
    optionUses (w.bind info.name) value ++ listedUses (w.bind info.name) rest
  | _ :: rest => listedUses w rest

mutual

def uses (w : Names) : Stmt → List Use
  | .block stmts => usesBlock w false stmts
  | .ifStmt cond thenBody elseBody =>
    exprUses w cond ++ (uses w thenBody ++ usesOption (w.leave (namesAfter w thenBody)) elseBody)
  | .whileStmt cond body => exprUses w cond ++ uses w body
  | .doWhileStmt body cond => uses w body ++ exprUses (w.leave (namesAfter w body)) cond
  | .forStmt init cond update body =>
    usesForInit w init ++ (optionUses (namesAfterInit w init) cond ++
      (optionUses (namesAfterInit w init) update ++ uses (namesAfterInit w init) body))
  | .switchStmt value body => exprUses w value ++ uses w body
  | .labelStmt _ body | .caseSection _ body | .defaultSection body => uses w body
  | .declaration info value => optionUses (w.bind info.name) value
  | .declList decls => listedUses w decls
  | .returnStmt value => optionUses w value
  | .exprStmt value => exprUses w value
  | .typedefDecl _ | .breakStmt | .continueStmt | .gotoStmt _ => []

def usesOption (w : Names) : Option Stmt → List Use
  | none => []
  | some s => uses w s

/-- A reference that is the whole expression in the header of a `for` is not looked up. -/
def usesForInit (w : Names) : Option Stmt → List Use
  | none => []
  | some (.exprStmt (.varRef _)) => []
  | some s => uses w s

def usesBlock (w : Names) (dead : Bool) : List Stmt → List Use
  | [] => []
  | s :: rest =>
    if dead ∧ ¬ isLabeled s then usesBlock (w.skip s) true rest
    else uses w s ++ usesBlock (namesAfter w s) (becomesJump w.consts s) rest

end

/-! ### The table beside the scopes is the optimizer's table -/

namespace Names

@[simp] theorem consts_bind (w : Names) (name : String) : (w.bind name).consts = w.consts := rfl

@[simp] theorem consts_bindListed (w : Names) (decls : List Stmt) :
    (w.bindListed decls).consts = w.consts := by
  induction decls generalizing w with
  | nil => rfl
  | cons s rest ih => cases s <;> simp [bindListed, ih]

@[simp] theorem consts_skip (w : Names) (s : Stmt) : (w.skip s).consts = w.consts := by
  rcases s with _ | _ | _ | _ | _ | _ | _ | _ | _ | _ | _ | _ | _ | _ | _ | _ | (_ | _) <;>
    simp [skip]

@[simp] theorem consts_leaveBlock (outer inner : Names) :
    (outer.leaveBlock inner).consts = outer.consts := rfl

@[simp] theorem consts_leave (outer inner : Names) :
    (outer.leave inner).consts = inner.consts := by
  simp only [consts, leave, List.map_map]
  congr 1
  funext e
  simp only [Function.comp_apply, outlive]
  split <;> rfl

theorem consts_declare (w : Names) (info : DeclInfo) (value : Option Expr) :
    (w.declare info value).consts =
      recordConst w.consts info (value.map (optimizeExpr w.consts)) := by
  simp only [declare, recordConst]
  split
  next entry h_entry =>
    rw [h_entry]
    rfl
  next h_none => simp [h_none]

end Names

mutual

theorem consts_namesAfter : ∀ (w : Names) (s : Stmt),
    (namesAfter w s).consts = constsAfter w.consts s
  | w, .block stmts => by simp [namesAfter, constsAfter]
  | w, .ifStmt _ thenBody elseBody => by
    have h_then := consts_namesAfter w thenBody
    have h_else := consts_namesAfterElse (w.leave (namesAfter w thenBody)) elseBody
    simpa [namesAfter, constsAfter, h_then] using h_else
  | w, .whileStmt _ body | w, .doWhileStmt body _ | w, .switchStmt _ body
  | w, .labelStmt _ body | w, .caseSection _ body | w, .defaultSection body => by
    simp [namesAfter, constsAfter, consts_namesAfter w body]
  | w, .forStmt init _ _ body => by
    have h_init := consts_namesAfterInit w init
    have h_body := consts_namesAfter (namesAfterInit w init) body
    simp [namesAfter, constsAfter, h_body, h_init]
  | w, .declaration info value => by
    simp [namesAfter, constsAfter, Names.consts_declare]
  | _, .declList _ | _, .typedefDecl none | _, .typedefDecl (some _) | _, .returnStmt _
  | _, .exprStmt _ | _, .breakStmt | _, .continueStmt | _, .gotoStmt _ => by
    simp [namesAfter, constsAfter]

theorem consts_namesAfterElse : ∀ (w : Names) (s : Option Stmt),
    (namesAfterElse w s).consts = constsAfterOption w.consts s
  | _, none => rfl
  | w, some s => by simp [namesAfterElse, constsAfterOption, consts_namesAfter w s]

theorem consts_namesAfterInit : ∀ (w : Names) (s : Option Stmt),
    (namesAfterInit w s).consts = constsAfterOption w.consts s
  | _, none => rfl
  | w, some s => consts_namesAfter w s

end

theorem Use.replaced_iff (u : Use) : u.replaced ↔ ∃ e, u.supplier = some e := by
  have h_lookup : constPropLookup u.names.consts u.name = u.supplier.map TracedEntry.entry := by
    simp [constPropLookup, Names.consts, supplier, List.find?_map, Function.comp_def]
  have h_node : optimizeExpr u.names.consts (.varRef u.name) =
      (propagateConst u.names.consts (.varRef u.name)).getD (.varRef u.name) := by
    rfl
  rw [replaced, h_node, propagateConst, h_lookup]
  cases u.supplier <;> simp [newLiteral, Expr.literal]

/-! ### The scopes and the table -/

/-- In a list ordered by a key, the first element with a property has the greatest key. -/
theorem key_le_of_find? {α : Type} {key : α → Nat} {p : α → Bool} {l : List α} {a b : α}
    (h_sorted : l.Pairwise fun a b => key b < key a) (h_find : l.find? p = some a)
    (h_mem : b ∈ l) (h_holds : p b) : key b ≤ key a := by
  induction l with
  | nil => cases h_mem
  | cons c rest ih =>
    rw [List.pairwise_cons] at h_sorted
    rcases List.mem_cons.mp h_mem with h_eq | h_rest
    · rw [List.find?_cons_of_pos (h_eq ▸ h_holds)] at h_find
      cases h_find
      rw [h_eq]
    · by_cases h_head : p c
      · rw [List.find?_cons_of_pos h_head] at h_find
        cases h_find
        exact Nat.le_of_lt (h_sorted.1 b h_rest)
      · rw [List.find?_cons_of_neg h_head] at h_find
        exact ih h_sorted.2 h_find h_rest

theorem eq_of_key_eq {α : Type} {key : α → Nat} {l : List α} {a b : α}
    (h_sorted : l.Pairwise fun a b => key b < key a) (h_a : a ∈ l) (h_b : b ∈ l)
    (h_key : key a = key b) : a = b := by
  induction l with
  | nil => cases h_a
  | cons c rest ih =>
    rw [List.pairwise_cons] at h_sorted
    rcases List.mem_cons.mp h_a with h_eq | h_rest <;>
      rcases List.mem_cons.mp h_b with h_eq' | h_rest'
    · rw [h_eq, h_eq']
    · have := h_sorted.1 b h_rest'
      subst h_eq
      omega
    · have := h_sorted.1 a h_rest
      subst h_eq'
      omega
    · exact ih h_sorted.2 h_rest h_rest'

/-- The entries that have not outlived their declarations are those of the visible declarations
that are not silent. -/
structure Consistent (w : Names) : Prop where
  scope_sorted : w.scope.Pairwise fun a b => b.id < a.id
  scope_lt : ∀ b ∈ w.scope, b.id < w.next
  table_sorted : w.table.Pairwise fun a b => b.origin < a.origin
  table_lt : ∀ e ∈ w.table, e.origin < w.next
  recorded : ∀ b ∈ w.scope, b.silent = false →
    ∃ e ∈ w.table, e.origin = b.id ∧ e.entry.name = b.name
  visible : ∀ e ∈ w.table, e.outlived = false →
    ∃ b ∈ w.scope, b.id = e.origin ∧ b.name = e.entry.name ∧ b.silent = false
  gone : ∀ e ∈ w.table, e.outlived = true → ∀ b ∈ w.scope, b.id ≠ e.origin

/-- What a statement adds to the scope and to the table is new. -/
structure TableGrows (w w' : Names) : Prop where
  next_le : w.next ≤ w'.next
  scope : ∃ new, w'.scope = new ++ w.scope ∧ ∀ b ∈ new, w.next ≤ b.id
  table : ∃ new, w'.table = new ++ w.table ∧ ∀ e ∈ new, w.next ≤ e.origin

theorem TableGrows.refl (w : Names) : TableGrows w w :=
  ⟨Nat.le_refl _, ⟨[], rfl, by simp⟩, ⟨[], rfl, by simp⟩⟩

theorem TableGrows.trans {w₁ w₂ w₃ : Names} (h₁₂ : TableGrows w₁ w₂) (h₂₃ : TableGrows w₂ w₃) :
    TableGrows w₁ w₃ := by
  obtain ⟨scope₂, h_scope₂, h_scope₂_new⟩ := h₁₂.scope
  obtain ⟨scope₃, h_scope₃, h_scope₃_new⟩ := h₂₃.scope
  obtain ⟨table₂, h_table₂, h_table₂_new⟩ := h₁₂.table
  obtain ⟨table₃, h_table₃, h_table₃_new⟩ := h₂₃.table
  have h_next := h₁₂.next_le
  constructor
  · exact Nat.le_trans h_next h₂₃.next_le
  · use scope₃ ++ scope₂
    constructor
    · rw [h_scope₃, h_scope₂, List.append_assoc]
    · intro b h_mem
      rcases List.mem_append.mp h_mem with h_mem | h_mem
      · exact Nat.le_trans h_next (h_scope₃_new b h_mem)
      · exact h_scope₂_new b h_mem
  · use table₃ ++ table₂
    constructor
    · rw [h_table₃, h_table₂, List.append_assoc]
    · intro e h_mem
      rcases List.mem_append.mp h_mem with h_mem | h_mem
      · exact Nat.le_trans h_next (h_table₃_new e h_mem)
      · exact h_table₂_new e h_mem

/-- A walk from one point to a later one. -/
structure Reaches (w w' : Names) : Prop where
  consistent : Consistent w'
  grows : TableGrows w w'

theorem Reaches.trans {w₁ w₂ w₃ : Names} (h₁₂ : Reaches w₁ w₂) (h₂₃ : Reaches w₂ w₃) :
    Reaches w₁ w₃ :=
  ⟨h₂₃.consistent, h₁₂.grows.trans h₂₃.grows⟩

theorem Consistent.reaches_self {w : Names} (h : Consistent w) : Reaches w w := ⟨h, .refl w⟩

theorem Consistent.bind {w : Names} (h : Consistent w) (name : String) :
    Reaches w (w.bind name) := by
  constructor
  · exact
      { scope_sorted := List.pairwise_cons.mpr ⟨h.scope_lt, h.scope_sorted⟩
        scope_lt := by
          intro b h_mem
          rcases List.mem_cons.mp h_mem with h_eq | h_mem
          · rw [h_eq]
            exact Nat.lt_succ_self _
          · exact Nat.lt_succ_of_lt (h.scope_lt b h_mem)
        table_sorted := h.table_sorted
        table_lt := fun e h_mem => Nat.lt_succ_of_lt (h.table_lt e h_mem)
        recorded := by
          intro b h_mem h_loud
          rcases List.mem_cons.mp h_mem with h_eq | h_mem
          · rw [h_eq] at h_loud
            cases h_loud
          · exact h.recorded b h_mem h_loud
        visible := by
          intro e h_mem h_alive
          obtain ⟨b, h_b, h_same⟩ := h.visible e h_mem h_alive
          exact ⟨b, List.mem_cons_of_mem _ h_b, h_same⟩
        gone := by
          intro e h_mem h_outlived b h_b
          rcases List.mem_cons.mp h_b with h_eq | h_b
          · rw [h_eq]
            exact (Nat.ne_of_lt (h.table_lt e h_mem)).symm
          · exact h.gone e h_mem h_outlived b h_b }
  · exact ⟨Nat.le_succ _, ⟨[⟨name, w.next, true⟩], rfl, by simp⟩, ⟨[], rfl, by simp⟩⟩

theorem Consistent.declare {w : Names} (h : Consistent w) (info : DeclInfo)
    (value : Option Expr) : Reaches w (w.declare info value) := by
  simp only [Names.declare]
  split
  next entry h_entry =>
    have h_name : entry.name = info.name := by
      simp only [constEntry] at h_entry
      split at h_entry
      · split at h_entry
        · cases h_entry
          rfl
        · cases h_entry
      · cases h_entry
    constructor
    · exact
        { scope_sorted := List.pairwise_cons.mpr ⟨h.scope_lt, h.scope_sorted⟩
          scope_lt := by
            intro b h_mem
            rcases List.mem_cons.mp h_mem with h_eq | h_mem
            · rw [h_eq]
              exact Nat.lt_succ_self _
            · exact Nat.lt_succ_of_lt (h.scope_lt b h_mem)
          table_sorted := List.pairwise_cons.mpr ⟨h.table_lt, h.table_sorted⟩
          table_lt := by
            intro e h_mem
            rcases List.mem_cons.mp h_mem with h_eq | h_mem
            · rw [h_eq]
              exact Nat.lt_succ_self _
            · exact Nat.lt_succ_of_lt (h.table_lt e h_mem)
          recorded := by
            intro b h_mem h_loud
            rcases List.mem_cons.mp h_mem with h_eq | h_mem
            · exact ⟨_, List.mem_cons_self, by rw [h_eq], by rw [h_eq, h_name]⟩
            · obtain ⟨e, h_e, h_same⟩ := h.recorded b h_mem h_loud
              exact ⟨e, List.mem_cons_of_mem _ h_e, h_same⟩
          visible := by
            intro e h_mem h_alive
            rcases List.mem_cons.mp h_mem with h_eq | h_mem
            · exact ⟨_, List.mem_cons_self, by rw [h_eq], by rw [h_eq, h_name], rfl⟩
            · obtain ⟨b, h_b, h_same⟩ := h.visible e h_mem h_alive
              exact ⟨b, List.mem_cons_of_mem _ h_b, h_same⟩
          gone := by
            intro e h_mem h_outlived b h_b
            rcases List.mem_cons.mp h_mem with h_eq | h_mem
            · rw [h_eq] at h_outlived
              cases h_outlived
            · rcases List.mem_cons.mp h_b with h_eq | h_b
              · rw [h_eq]
                exact (Nat.ne_of_lt (h.table_lt e h_mem)).symm
              · exact h.gone e h_mem h_outlived b h_b }
    · exact ⟨Nat.le_succ _, ⟨[⟨info.name, w.next, false⟩], rfl, by simp⟩,
        ⟨[⟨entry, w.next, false⟩], rfl, by simp⟩⟩
  · exact h.bind info.name

theorem Consistent.bindListed {w : Names} (h : Consistent w) (decls : List Stmt) :
    Reaches w (w.bindListed decls) := by
  induction decls generalizing w with
  | nil => exact h.reaches_self
  | cons s rest ih =>
    cases s with
    | declaration info value =>
      have h_bind := h.bind info.name
      exact h_bind.trans (ih h_bind.consistent)
    | _ => exact ih h

theorem Consistent.skip {w : Names} (h : Consistent w) (s : Stmt) : Reaches w (w.skip s) := by
  cases s with
  | declaration info value => exact h.bind info.name
  | declList decls => exact h.bindListed decls
  | typedefDecl declared =>
    cases declared with
    | none => exact h.reaches_self
    | some name => exact h.bind name
  | _ => exact h.reaches_self

theorem Consistent.leaveBlock {outer inner : Names} (h : Consistent outer)
    (h_inner : Reaches outer inner) : Reaches outer (outer.leaveBlock inner) := by
  have h_le := h_inner.grows.next_le
  constructor
  · exact
      { scope_sorted := h.scope_sorted
        scope_lt := fun b h_mem => Nat.lt_of_lt_of_le (h.scope_lt b h_mem) h_le
        table_sorted := h.table_sorted
        table_lt := fun e h_mem => Nat.lt_of_lt_of_le (h.table_lt e h_mem) h_le
        recorded := h.recorded
        visible := h.visible
        gone := h.gone }
  · exact ⟨h_le, ⟨[], rfl, by simp⟩, ⟨[], rfl, by simp⟩⟩

@[simp] theorem outlive_origin (next : Nat) (e : TracedEntry) :
    (Names.outlive next e).origin = e.origin := by
  rw [Names.outlive]
  split <;> rfl

@[simp] theorem outlive_entry (next : Nat) (e : TracedEntry) :
    (Names.outlive next e).entry = e.entry := by
  rw [Names.outlive]
  split <;> rfl

/-- Leaving a scope marks what was entered in it and nothing else. -/
theorem Consistent.leave_table {outer inner : Names} (h : Consistent outer)
    (h_inner : TableGrows outer inner) :
    ∃ new, (outer.leave inner).table = new ++ outer.table ∧
      ∀ e ∈ new, outer.next ≤ e.origin ∧ e.outlived = true := by
  obtain ⟨new, h_table, h_new⟩ := h_inner.table
  use new.map (Names.outlive outer.next)
  constructor
  · have h_old : outer.table.map (Names.outlive outer.next) = outer.table := by
      refine (List.map_congr_left fun e h_mem => ?_).trans (List.map_id _)
      have h_lt := h.table_lt e h_mem
      rw [Names.outlive, if_neg (Nat.not_le.mpr h_lt), id]
    simp [Names.leave, h_table, h_old]
  · intro e h_mem
    obtain ⟨e₀, h_mem₀, h_eq⟩ := List.mem_map.mp h_mem
    have h_le := h_new e₀ h_mem₀
    rw [← h_eq, Names.outlive, if_pos h_le]
    exact ⟨h_le, rfl⟩

theorem Consistent.leave {outer inner : Names} (h : Consistent outer)
    (h_inner : Reaches outer inner) : Reaches outer (outer.leave inner) := by
  have h_le := h_inner.grows.next_le
  obtain ⟨new, h_table, h_new⟩ := h.leave_table h_inner.grows
  constructor
  · exact
      { scope_sorted := h.scope_sorted
        scope_lt := fun b h_mem => Nat.lt_of_lt_of_le (h.scope_lt b h_mem) h_le
        table_sorted := by
          have h_sorted := h_inner.consistent.table_sorted
          simp only [Names.leave, List.pairwise_map, outlive_origin]
          exact h_sorted
        table_lt := by
          intro e h_mem
          obtain ⟨e₀, h_mem₀, h_eq⟩ := List.mem_map.mp h_mem
          rw [← h_eq, outlive_origin]
          exact h_inner.consistent.table_lt e₀ h_mem₀
        recorded := by
          intro b h_mem h_loud
          obtain ⟨e, h_e, h_same⟩ := h.recorded b h_mem h_loud
          exact ⟨e, by rw [h_table]; exact List.mem_append_right new h_e, h_same⟩
        visible := by
          intro e h_mem h_alive
          rw [h_table] at h_mem
          rcases List.mem_append.mp h_mem with h_mem | h_mem
          · rw [(h_new e h_mem).2] at h_alive
            cases h_alive
          · exact h.visible e h_mem h_alive
        gone := by
          intro e h_mem h_outlived b h_b
          rw [h_table] at h_mem
          rcases List.mem_append.mp h_mem with h_mem | h_mem
          · have h_origin := (h_new e h_mem).1
            have h_id := h.scope_lt b h_b
            omega
          · exact h.gone e h_mem h_outlived b h_b }
  · exact ⟨h_le, ⟨[], rfl, by simp⟩, ⟨new, h_table, fun e h_mem => (h_new e h_mem).1⟩⟩

mutual

theorem reaches_namesAfter : ∀ {w : Names} (s : Stmt), Consistent w → Reaches w (namesAfter w s)
  | w, .block stmts, h => h.leaveBlock (reaches_namesAfterBlock false stmts h)
  | w, .ifStmt _ thenBody elseBody, h => by
    have h_then := h.leave (reaches_namesAfter thenBody h)
    exact h_then.trans (reaches_namesAfterElse elseBody h_then.consistent)
  | w, .whileStmt _ body, h | w, .doWhileStmt body _, h | w, .switchStmt _ body, h =>
    h.leave (reaches_namesAfter body h)
  | w, .forStmt init _ _ body, h => by
    have h_init := reaches_namesAfterInit init h
    exact h.leave (h_init.trans (reaches_namesAfter body h_init.consistent))
  | w, .labelStmt _ body, h | w, .caseSection _ body, h | w, .defaultSection body, h =>
    reaches_namesAfter body h
  | w, .declaration info value, h => h.declare info value
  | w, .declList decls, h => h.bindListed decls
  | w, .typedefDecl (some name), h => h.bind name
  | w, .typedefDecl none, h | w, .returnStmt _, h | w, .exprStmt _, h | w, .breakStmt, h
  | w, .continueStmt, h | w, .gotoStmt _, h => h.reaches_self

theorem reaches_namesAfterElse : ∀ {w : Names} (s : Option Stmt), Consistent w →
    Reaches w (namesAfterElse w s)
  | _, none, h => h.reaches_self
  | _, some s, h => h.leave (reaches_namesAfter s h)

theorem reaches_namesAfterInit : ∀ {w : Names} (s : Option Stmt), Consistent w →
    Reaches w (namesAfterInit w s)
  | _, none, h => h.reaches_self
  | _, some s, h => reaches_namesAfter s h

theorem reaches_namesAfterBlock : ∀ {w : Names} (dead : Bool) (stmts : List Stmt),
    Consistent w → Reaches w (namesAfterBlock w dead stmts)
  | _, _, [], h => h.reaches_self
  | w, dead, s :: rest, h => by
    rw [namesAfterBlock]
    split
    · have h_skip := h.skip s
      exact h_skip.trans (reaches_namesAfterBlock true rest h_skip.consistent)
    · have h_first := reaches_namesAfter s h
      exact h_first.trans (reaches_namesAfterBlock _ rest h_first.consistent)

end

theorem consistent_exprUses {w : Names} (h : Consistent w) (e : Expr) :
    ∀ u ∈ exprUses w e, Consistent u.names := by
  intro u h_mem
  obtain ⟨name, -, h_eq⟩ := List.mem_map.mp h_mem
  rw [← h_eq]
  exact h

theorem consistent_optionUses {w : Names} (h : Consistent w) (e : Option Expr) :
    ∀ u ∈ optionUses w e, Consistent u.names := by
  cases e with
  | none => simp [optionUses]
  | some e => exact consistent_exprUses h e

theorem consistent_listedUses {w : Names} (h : Consistent w) (decls : List Stmt) :
    ∀ u ∈ listedUses w decls, Consistent u.names := by
  induction decls generalizing w with
  | nil => simp [listedUses]
  | cons s rest ih =>
    cases s with
    | declaration info value =>
      have h_bind := (h.bind info.name).consistent
      intro u h_mem
      rcases List.mem_append.mp h_mem with h_mem | h_mem
      · exact consistent_optionUses h_bind value u h_mem
      · exact ih h_bind u h_mem
    | _ => exact ih h

mutual

theorem consistent_uses : ∀ {w : Names} (s : Stmt), Consistent w →
    ∀ u ∈ uses w s, Consistent u.names
  | w, .block stmts, h => consistent_usesBlock false stmts h
  | w, .ifStmt cond thenBody elseBody, h => by
    have h_then := (h.leave (reaches_namesAfter thenBody h)).consistent
    intro u h_mem
    rcases List.mem_append.mp h_mem with h_mem | h_mem
    · exact consistent_exprUses h cond u h_mem
    · rcases List.mem_append.mp h_mem with h_mem | h_mem
      · exact consistent_uses thenBody h u h_mem
      · exact consistent_usesOption elseBody h_then u h_mem
  | w, .whileStmt value body, h | w, .switchStmt value body, h => by
    intro u h_mem
    rcases List.mem_append.mp h_mem with h_mem | h_mem
    · exact consistent_exprUses h value u h_mem
    · exact consistent_uses body h u h_mem
  | w, .doWhileStmt body cond, h => by
    have h_body := (h.leave (reaches_namesAfter body h)).consistent
    intro u h_mem
    rcases List.mem_append.mp h_mem with h_mem | h_mem
    · exact consistent_uses body h u h_mem
    · exact consistent_exprUses h_body cond u h_mem
  | w, .forStmt init cond update body, h => by
    have h_init := (reaches_namesAfterInit init h).consistent
    intro u h_mem
    rcases List.mem_append.mp h_mem with h_mem | h_mem
    · exact consistent_usesForInit init h u h_mem
    · rcases List.mem_append.mp h_mem with h_mem | h_mem
      · exact consistent_optionUses h_init cond u h_mem
      · rcases List.mem_append.mp h_mem with h_mem | h_mem
        · exact consistent_optionUses h_init update u h_mem
        · exact consistent_uses body h_init u h_mem
  | w, .labelStmt _ body, h | w, .caseSection _ body, h | w, .defaultSection body, h =>
    consistent_uses body h
  | w, .declaration info value, h => consistent_optionUses (h.bind info.name).consistent value
  | w, .declList decls, h => consistent_listedUses h decls
  | w, .returnStmt value, h => consistent_optionUses h value
  | w, .exprStmt value, h => consistent_exprUses h value
  | w, .typedefDecl _, _ | w, .breakStmt, _ | w, .continueStmt, _ | w, .gotoStmt _, _ => by
    simp [uses]

theorem consistent_usesOption : ∀ {w : Names} (s : Option Stmt), Consistent w →
    ∀ u ∈ usesOption w s, Consistent u.names
  | _, none, _ => by simp [usesOption]
  | _, some s, h => consistent_uses s h

theorem consistent_usesForInit : ∀ {w : Names} (s : Option Stmt), Consistent w →
    ∀ u ∈ usesForInit w s, Consistent u.names
  | _, none, _ => by simp [usesForInit]
  | w, some s, h => by
    have h_uses := consistent_uses s h
    intro u h_mem
    rw [usesForInit.eq_def] at h_mem
    split at h_mem
    next h_none => cases h_none
    · cases h_mem
    next s' h_some =>
      cases h_some
      exact h_uses u h_mem

theorem consistent_usesBlock : ∀ {w : Names} (dead : Bool) (stmts : List Stmt), Consistent w →
    ∀ u ∈ usesBlock w dead stmts, Consistent u.names
  | _, _, [], _ => by simp [usesBlock]
  | w, dead, s :: rest, h => by
    intro u h_mem
    rw [usesBlock] at h_mem
    split at h_mem
    · exact consistent_usesBlock true rest (h.skip s).consistent u h_mem
    · rcases List.mem_append.mp h_mem with h_mem | h_mem
      · exact consistent_uses s h u h_mem
      · exact consistent_usesBlock _ rest (reaches_namesAfter s h).consistent u h_mem

end

theorem consistent_entering (params : List String) : Consistent (Names.entering params) := by
  have h_bind (w : Names) (h : Consistent w) :
      Consistent (params.foldl Names.bind w) := by
    induction params generalizing w with
    | nil => exact h
    | cons name rest ih => exact ih _ (h.bind name).consistent
  exact h_bind ⟨0, [], []⟩
    ⟨.nil, by simp, .nil, by simp, by simp, by simp, by simp⟩

/-- The entry for a reference is of a scope that is still open, and no visible declaration of the
name after it is without an entry. -/
def Use.Current (u : Use) : Prop :=
  ∀ e, u.supplier = some e →
    e.outlived = false ∧
      ∀ b ∈ u.names.scope, b.name = u.name → b.silent = true → b.id < e.origin

theorem Use.visible_iff {u : Use} (h : Consistent u.names) {e : TracedEntry}
    (h_supplier : u.supplier = some e) :
    u.visible.map Binding.id = some e.origin ↔
      e.outlived = false ∧
        ∀ b ∈ u.names.scope, b.name = u.name → b.silent = true → b.id < e.origin := by
  have h_e : e ∈ u.names.table := List.mem_of_find?_eq_some h_supplier
  have h_e_name : e.entry.name = u.name := by simpa using List.find?_some h_supplier
  constructor
  · intro h_visible
    obtain ⟨b, h_find, h_id⟩ := Option.map_eq_some_iff.mp h_visible
    have h_b : b ∈ u.names.scope := List.mem_of_find?_eq_some h_find
    have h_alive : e.outlived = false := by
      by_contra h_outlived
      rw [Bool.not_eq_false] at h_outlived
      exact h.gone e h_e h_outlived b h_b h_id
    constructor
    · exact h_alive
    · intro b' h_b' h_name h_silent
      have h_le : b'.id ≤ b.id :=
        key_le_of_find? h.scope_sorted h_find h_b' (by simpa using h_name)
      have h_ne : b'.id ≠ e.origin := by
        intro h_same
        obtain ⟨b'', h_b'', h_id'', -, h_loud⟩ := h.visible e h_e h_alive
        have h_eq := eq_of_key_eq h.scope_sorted h_b' h_b'' (h_same.trans h_id''.symm)
        rw [h_eq, h_loud] at h_silent
        cases h_silent
      omega
  · rintro ⟨h_alive, h_silent⟩
    obtain ⟨b, h_b, h_id, h_name, -⟩ := h.visible e h_e h_alive
    have h_holds : (decide (b.name = u.name)) = true := by simp [h_name, h_e_name]
    cases h_find : u.visible with
    | none => exact absurd h_holds (List.find?_eq_none.mp h_find b h_b)
    | some b₀ =>
      have h_b₀ : b₀ ∈ u.names.scope := List.mem_of_find?_eq_some h_find
      have h_b₀_name : b₀.name = u.name := by simpa using List.find?_some h_find
      have h_le : b.id ≤ b₀.id := key_le_of_find? h.scope_sorted h_find h_b h_holds
      have h_ge : b₀.id ≤ e.origin := by
        cases h_case : b₀.silent with
        | true => exact Nat.le_of_lt (h_silent b₀ h_b₀ h_b₀_name h_case)
        | false =>
          obtain ⟨e₀, h_e₀, h_origin, h_e₀_name⟩ := h.recorded b₀ h_b₀ h_case
          have h_first : e₀.origin ≤ e.origin :=
            key_le_of_find? h.table_sorted h_supplier h_e₀ (by simp [h_e₀_name, h_b₀_name])
          omega
      simp only [Option.map_some, Option.some.injEq]
      omega

/-- Every replaced reference is to the declaration whose entry replaces it. -/
def RespectsScoping (params : List String) (body : List Stmt) : Prop :=
  ∀ u ∈ uses (.entering params) (.block body), u.replaced →
    u.visible.map Binding.id = u.supplier.map TracedEntry.origin

theorem respectsScoping_iff (params : List String) (body : List Stmt) :
    RespectsScoping params body ↔
      ∀ u ∈ uses (.entering params) (.block body), u.Current := by
  have h_uses := consistent_uses (.block body) (consistent_entering params)
  constructor
  · intro h u h_mem e h_supplier
    have h_visible := h u h_mem (u.replaced_iff.mpr ⟨e, h_supplier⟩)
    rw [h_supplier] at h_visible
    exact (Use.visible_iff (h_uses u h_mem) h_supplier).mp h_visible
  · intro h u h_mem h_replaced
    obtain ⟨e, h_supplier⟩ := u.replaced_iff.mp h_replaced
    rw [h_supplier]
    exact (Use.visible_iff (h_uses u h_mem) h_supplier).mpr (h u h_mem e h_supplier)

/-- `const int x = 5; { int x = 7; return x; }` -/
def shadowedConst : List Stmt :=
  [.declaration ⟨"x", .int, none, false, true, .none⟩ (some (newLiteral 5 .int false)),
    .block [.declaration ⟨"x", .int, none, false, false, .none⟩ (some (newLiteral 7 .int false)),
      .returnStmt (some (.varRef "x"))]]

theorem shadowed_const_is_propagated : ¬ RespectsScoping [] shadowedConst := by
  rw [RespectsScoping]
  decide +kernel

end ClaudeC99
