import ClaudeC99.Optimize.Stmt
import Mathlib.Data.List.Forall2

/-! Which jump targets the optimizer's removal of dead code keeps. -/

namespace ClaudeC99

section collecting

variable {α : Type}

mutual

/-- What `f` gives for the nodes of a statement, in order. `enter` says whether the walk goes into
the bodies of switches. -/
def Stmt.collect (enter : Bool) (f : Stmt → List α) : Stmt → List α
  | .block stmts => f (.block stmts) ++ Stmt.collectList enter f stmts
  | .ifStmt cond thenBody elseBody =>
    f (.ifStmt cond thenBody elseBody) ++
      (thenBody.collect enter f ++ Stmt.collectOption enter f elseBody)
  | .whileStmt cond body => f (.whileStmt cond body) ++ body.collect enter f
  | .doWhileStmt body cond => f (.doWhileStmt body cond) ++ body.collect enter f
  | .forStmt init cond update body =>
    f (.forStmt init cond update body) ++
      (Stmt.collectOption enter f init ++ body.collect enter f)
  | .switchStmt value body =>
    f (.switchStmt value body) ++ if enter then body.collect enter f else []
  | .labelStmt name body => f (.labelStmt name body) ++ body.collect enter f
  | .caseSection value body => f (.caseSection value body) ++ body.collect enter f
  | .defaultSection body => f (.defaultSection body) ++ body.collect enter f
  | .declaration info value => f (.declaration info value)
  | .declList decls => f (.declList decls)
  | .returnStmt value => f (.returnStmt value)
  | .exprStmt value => f (.exprStmt value)
  | .breakStmt => f .breakStmt
  | .continueStmt => f .continueStmt
  | .gotoStmt name => f (.gotoStmt name)
  | .typedefDecl declared => f (.typedefDecl declared)

def Stmt.collectOption (enter : Bool) (f : Stmt → List α) : Option Stmt → List α
  | none => []
  | some s => s.collect enter f

def Stmt.collectList (enter : Bool) (f : Stmt → List α) : List Stmt → List α
  | [] => []
  | s :: ss => s.collect enter f ++ Stmt.collectList enter f ss

end

end collecting

def gotoName : Stmt → List String
  | .gotoStmt name => [name]
  | _ => []

def labeledBy (name : String) : Stmt → List Stmt
  | .labelStmt label body => if label = name then [body] else []
  | _ => []

def sectionOf : Stmt → List (Option Int × Stmt)
  | .caseSection value body => [(some value, body)]
  | .defaultSection body => [(none, body)]
  | _ => []

def Stmt.gotos (s : Stmt) : List String := s.collect true gotoName

/-- The statements labeled `name` in a statement. -/
def Stmt.labeled (name : String) (s : Stmt) : List Stmt := s.collect true (labeledBy name)

/-- The `case` and `default` sections that belong to the switch around a statement. -/
def Stmt.ownSections (s : Stmt) : List (Option Int × Stmt) := s.collect false sectionOf

/-- The value that the optimizer finds for a condition. -/
def knownValue (table : ConstTable) (cond : Expr) : Option Int := (optimizeExpr table cond).literal

mutual

/-- The statements after which the optimizer removes siblings: jumps, and `if` statements of which
it keeps a jump. -/
def becomesJump (table : ConstTable) : Stmt → Bool
  | .returnStmt _ | .breakStmt | .continueStmt | .gotoStmt _ => true
  | .ifStmt cond thenBody elseBody =>
    match knownValue table cond with
    | some v =>
      if v ≠ 0 then becomesJump table thenBody
      else becomesJumpOption (constsAfter table thenBody) elseBody
    | none => false
  | .forStmt init cond _ _ =>
    cond.bind (knownValue (constsAfterOption table init)) = some 0 ∧ becomesJumpOption table init
  | .block _ | .whileStmt _ _ | .doWhileStmt _ _ | .switchStmt _ _ | .labelStmt _ _
  | .caseSection _ _ | .defaultSection _ | .declaration _ _ | .declList _ | .exprStmt _
  | .typedefDecl _ => false

def becomesJumpOption (table : ConstTable) : Option Stmt → Bool
  | none => false
  | some s => becomesJump table s

end

mutual

@[simp] theorem isTerminalStmt_optimizeStmt : ∀ (table : ConstTable) (s : Stmt),
    isTerminalStmt (optimizeStmt table s).1 = becomesJump table s
  | table, .ifStmt cond thenBody elseBody => by
    have h_then := isTerminalStmt_optimizeStmt table thenBody
    have h_else := isTerminalStmt_optimizeOption (constsAfter table thenBody) elseBody
    simp only [optimizeStmt, becomesJump, knownValue, optimizeStmt_table]
    cases (optimizeExpr table cond).literal with
    | none => rfl
    | some v => by_cases h_zero : v = 0 <;> simp [h_zero, h_then, h_else]
  | table, .forStmt init cond _ body => by
    have h_init := isTerminalStmt_optimizeForInit table init
    have h_cond : (cond.map (optimizeExpr (constsAfterOption table init))).bind Expr.literal =
        cond.bind (knownValue (constsAfterOption table init)) := by
      cases cond <;> rfl
    simp only [optimizeStmt, becomesJump, optimizeForInit_table, h_cond]
    split
    next h_zero => simpa [h_zero] using h_init
    next h_zero => simp [isTerminalStmt, h_zero]
  | table, .whileStmt cond body => by
    simp only [optimizeStmt, becomesJump]
    split <;> rfl
  | _, .doWhileStmt _ _ | _, .switchStmt _ _ | _, .labelStmt _ _ | _, .caseSection _ _
  | _, .defaultSection _ | _, .declaration _ _ | _, .block _ | _, .declList _ | _, .returnStmt _
  | _, .exprStmt _ | _, .breakStmt | _, .continueStmt | _, .gotoStmt _ | _, .typedefDecl _ => by
    simp [optimizeStmt, becomesJump, isTerminalStmt]

theorem isTerminalStmt_optimizeOption : ∀ (table : ConstTable) (s : Option Stmt),
    isTerminalStmt ((optimizeOption table s).1.getD (.block [])) = becomesJumpOption table s
  | _, none => rfl
  | table, some s => isTerminalStmt_optimizeStmt table s

theorem isTerminalStmt_optimizeForInit : ∀ (table : ConstTable) (s : Option Stmt),
    isTerminalStmt ((optimizeForInit table s).1.getD (.block [])) = becomesJumpOption table s
  | _, none => rfl
  | _, some (.exprStmt _) => rfl
  | table, some s => by
    have h := isTerminalStmt_optimizeStmt table s
    cases s <;> simp only [optimizeForInit, becomesJumpOption, Option.getD_some, h]
    rfl

end

/-- A part of a statement: a node that the optimizer keeps or rewrites, with the table in force
before it, or a whole statement that it removes. -/
inductive Part
  | live (table : ConstTable) (s : Stmt)
  | dead (s : Stmt)

mutual

def parts (enter : Bool) (table : ConstTable) : Stmt → List Part
  | .block stmts => .live table (.block stmts) :: partsBlock enter table false stmts
  | .ifStmt cond thenBody elseBody =>
    .live table (.ifStmt cond thenBody elseBody) ::
      match knownValue table cond with
      | some v =>
        if v ≠ 0 then parts enter table thenBody ++ elseBody.toList.map .dead
        else .dead thenBody :: partsOption enter (constsAfter table thenBody) elseBody
      | none =>
        parts enter table thenBody ++ partsOption enter (constsAfter table thenBody) elseBody
  | .whileStmt cond body =>
    .live table (.whileStmt cond body) ::
      if knownValue table cond = some 0 then [.dead body] else parts enter table body
  | .doWhileStmt body cond => .live table (.doWhileStmt body cond) :: parts enter table body
  | .forStmt init cond update body =>
    .live table (.forStmt init cond update body) ::
      (partsOption enter table init ++
        if cond.bind (knownValue (constsAfterOption table init)) = some 0 then [.dead body]
        else parts enter (constsAfterOption table init) body)
  | .switchStmt value body =>
    .live table (.switchStmt value body) :: if enter then parts enter table body else []
  | .labelStmt name body => .live table (.labelStmt name body) :: parts enter table body
  | .caseSection value body => .live table (.caseSection value body) :: parts enter table body
  | .defaultSection body => .live table (.defaultSection body) :: parts enter table body
  | .declaration info value => [.live table (.declaration info value)]
  | .declList decls => [.live table (.declList decls)]
  | .returnStmt value => [.live table (.returnStmt value)]
  | .exprStmt value => [.live table (.exprStmt value)]
  | .breakStmt => [.live table .breakStmt]
  | .continueStmt => [.live table .continueStmt]
  | .gotoStmt name => [.live table (.gotoStmt name)]
  | .typedefDecl declared => [.live table (.typedefDecl declared)]

def partsOption (enter : Bool) (table : ConstTable) : Option Stmt → List Part
  | none => []
  | some s => parts enter table s

def partsBlock (enter : Bool) (table : ConstTable) (dead : Bool) : List Stmt → List Part
  | [] => []
  | s :: rest =>
    if dead ∧ ¬ isLabeled s then .dead s :: partsBlock enter table true rest
    else parts enter table s ++ partsBlock enter (constsAfter table s) (becomesJump table s) rest

end

/-- The nodes that jumps start from or go to. -/
def Stmt.isMarked : Stmt → Bool
  | .labelStmt _ _ | .caseSection _ _ | .defaultSection _ | .gotoStmt _ | .switchStmt _ _ => true
  | _ => false

section collecting

variable {α : Type} (enter : Bool) (f : Stmt → List α)

/-- What a part contributes to the walk over the statement it is part of. -/
def Part.before : Part → List α
  | .live _ s => f s
  | .dead s => s.collect enter f

/-- What a part contributes to the walk over the optimized statement. -/
def Part.after : Part → List α
  | .live table s => if s.isMarked then f (optimizeStmt table s).1 else []
  | .dead _ => []

mutual

theorem collect_eq_parts : ∀ (table : ConstTable) (s : Stmt),
    s.collect enter f = (parts enter table s).flatMap (Part.before enter f)
  | table, .block stmts => by
    simp [Stmt.collect, parts, Part.before, collectList_eq_parts table false stmts]
  | table, .ifStmt cond thenBody elseBody => by
    simp only [Stmt.collect, parts, List.flatMap_cons, Part.before]
    congr 1
    split
    · split
      · cases elseBody <;>
          simp [Stmt.collectOption, Part.before, collect_eq_parts table thenBody]
      · rw [List.flatMap_cons, ← collectOption_eq_parts _ elseBody]
        rfl
    · rw [List.flatMap_append, ← collect_eq_parts table thenBody, ← collectOption_eq_parts _ elseBody]
  | table, .whileStmt cond body => by
    simp only [Stmt.collect, parts, List.flatMap_cons, Part.before]
    congr 1
    split
    · simp [Part.before]
    · exact collect_eq_parts table body
  | table, .doWhileStmt body cond => by
    simp [Stmt.collect, parts, Part.before, collect_eq_parts table body]
  | table, .forStmt init cond update body => by
    simp only [Stmt.collect, parts, List.flatMap_cons, Part.before, List.flatMap_append]
    rw [collectOption_eq_parts table init]
    congr 2
    split
    · simp [Part.before]
    · exact collect_eq_parts _ body
  | table, .switchStmt value body => by
    simp only [Stmt.collect, parts, List.flatMap_cons, Part.before]
    congr 1
    split
    · exact collect_eq_parts table body
    · rfl
  | table, .labelStmt name body => by
    simp [Stmt.collect, parts, Part.before, collect_eq_parts table body]
  | table, .caseSection value body => by
    simp [Stmt.collect, parts, Part.before, collect_eq_parts table body]
  | table, .defaultSection body => by
    simp [Stmt.collect, parts, Part.before, collect_eq_parts table body]
  | _, .declaration _ _ | _, .declList _ | _, .returnStmt _ | _, .exprStmt _ | _, .breakStmt
  | _, .continueStmt | _, .gotoStmt _ | _, .typedefDecl _ => by
    simp [Stmt.collect, parts, Part.before]

theorem collectOption_eq_parts : ∀ (table : ConstTable) (s : Option Stmt),
    Stmt.collectOption enter f s = (partsOption enter table s).flatMap (Part.before enter f)
  | _, none => rfl
  | table, some s => collect_eq_parts table s

theorem collectList_eq_parts : ∀ (table : ConstTable) (dead : Bool) (stmts : List Stmt),
    Stmt.collectList enter f stmts =
      (partsBlock enter table dead stmts).flatMap (Part.before enter f)
  | _, _, [] => rfl
  | table, dead, s :: rest => by
    rw [Stmt.collectList, partsBlock]
    split
    · rw [List.flatMap_cons, ← collectList_eq_parts table true rest]
      rfl
    · rw [List.flatMap_append, ← collect_eq_parts table s, ← collectList_eq_parts]

end

/-- A walk that gathers only what jumps start from or go to. -/
def OnlyMarked : Prop := ∀ s, s.isMarked = false → f s = []

variable {f}

mutual

/-- The optimized statement consists of the live parts. -/
theorem collect_optimizeStmt (marked : OnlyMarked f) : ∀ (table : ConstTable) (s : Stmt),
    (optimizeStmt table s).1.collect enter f = (parts enter table s).flatMap (Part.after f)
  | table, .block stmts => by
    simp only [optimizeStmt, Stmt.collect, parts, List.flatMap_cons, Part.after, Stmt.isMarked]
    simp [marked (.block _) rfl, collectList_optimizeBlock marked table false stmts]
  | table, .ifStmt cond thenBody elseBody => by
    have h_then := collect_optimizeStmt marked table thenBody
    have h_else := collect_optimizeOption marked (constsAfter table thenBody) elseBody
    simp only [optimizeStmt, parts, List.flatMap_cons, Part.after, Stmt.isMarked,
      optimizeStmt_table, knownValue]
    cases (optimizeExpr table cond).literal with
    | none => simp [Stmt.collect, marked (.ifStmt _ _ _) rfl, h_then, h_else]
    | some v =>
      by_cases h_zero : v = 0
      · simp only [h_zero, ne_eq, not_true, if_false, List.flatMap_cons, Part.after, ← h_else]
        cases (optimizeOption (constsAfter table thenBody) elseBody).1 <;>
          simp [Stmt.collect, Stmt.collectOption, Stmt.collectList, marked (.block []) rfl]
      · cases elseBody <;> simp [h_zero, Part.after, h_then]
  | table, .whileStmt cond body => by
    have h_body := collect_optimizeStmt marked table body
    simp only [optimizeStmt, parts, List.flatMap_cons, Part.after, Stmt.isMarked, knownValue]
    by_cases h_zero : (optimizeExpr table cond).literal = some 0
    · simp [h_zero, Stmt.collect, Stmt.collectList, marked (.block []) rfl, Part.after]
    · simp [h_zero, Stmt.collect, marked (.whileStmt _ _) rfl, h_body]
  | table, .doWhileStmt body cond => by
    have h_body := collect_optimizeStmt marked table body
    simp [optimizeStmt, parts, Part.after, Stmt.isMarked, Stmt.collect,
      marked (.doWhileStmt _ _) rfl, h_body]
  | table, .forStmt init cond update body => by
    have h_init := collect_optimizeForInit marked table init
    have h_body := collect_optimizeStmt marked (constsAfterOption table init) body
    have h_cond : (cond.map (optimizeExpr (constsAfterOption table init))).bind Expr.literal =
        cond.bind (knownValue (constsAfterOption table init)) := by
      cases cond <;> rfl
    simp only [optimizeStmt, parts, List.flatMap_cons, Part.after, Stmt.isMarked,
      optimizeForInit_table, h_cond, List.flatMap_append, ← h_init]
    by_cases h_zero : cond.bind (knownValue (constsAfterOption table init)) = some 0
    · cases (optimizeForInit table init).1 <;>
        simp [h_zero, Stmt.collect, Stmt.collectOption, Stmt.collectList, marked (.block []) rfl,
          Part.after]
    · simp [h_zero, Stmt.collect, marked (.forStmt _ _ _ _) rfl, h_body]
  | table, .switchStmt value body => by
    have h_body := collect_optimizeStmt marked table body
    simp only [optimizeStmt, Stmt.collect, parts, List.flatMap_cons, Part.after, Stmt.isMarked,
      h_body]
    cases enter <;> simp
  | table, .labelStmt _ body | table, .caseSection _ body | table, .defaultSection body => by
    have h_body := collect_optimizeStmt marked table body
    simp [optimizeStmt, Stmt.collect, parts, Part.after, Stmt.isMarked, h_body]
  | _, .gotoStmt _ => by
    simp [optimizeStmt, Stmt.collect, parts, Part.after, Stmt.isMarked]
  | _, .declaration _ _ | _, .declList _ | _, .returnStmt _ | _, .exprStmt _ | _, .breakStmt
  | _, .continueStmt | _, .typedefDecl _ => by
    simp only [optimizeStmt, Stmt.collect, parts, List.flatMap_cons, Part.after, Stmt.isMarked]
    exact marked _ rfl

theorem collect_optimizeOption (marked : OnlyMarked f) : ∀ (table : ConstTable) (s : Option Stmt),
    Stmt.collectOption enter f (optimizeOption table s).1 =
      (partsOption enter table s).flatMap (Part.after f)
  | _, none => rfl
  | table, some s => collect_optimizeStmt marked table s

theorem collect_optimizeForInit (marked : OnlyMarked f) : ∀ (table : ConstTable) (s : Option Stmt),
    Stmt.collectOption enter f (optimizeForInit table s).1 =
      (partsOption enter table s).flatMap (Part.after f)
  | _, none => rfl
  | _, some (.exprStmt _) => marked (.exprStmt _) rfl
  | table, some s => by
    have h := collect_optimizeStmt marked table s
    cases s <;> simp only [optimizeForInit, partsOption, Stmt.collectOption, h]
    exact marked (.exprStmt _) rfl

theorem collectList_optimizeBlock (marked : OnlyMarked f) : ∀ (table : ConstTable) (dead : Bool) (stmts : List Stmt),
    Stmt.collectList enter f (optimizeBlock table dead stmts) =
      (partsBlock enter table dead stmts).flatMap (Part.after f)
  | _, _, [] => rfl
  | table, dead, s :: rest => by
    rw [optimizeBlock, partsBlock]
    split
    · rw [List.flatMap_cons, collectList_optimizeBlock marked table true rest]
      rfl
    · have h_rest := collectList_optimizeBlock marked (constsAfter table s) (becomesJump table s) rest
      simp [Stmt.collectList, collect_optimizeStmt marked table s, h_rest]

end

end collecting

section counting

variable {α : Type} {enter : Bool} {f : Stmt → List α} {R : α → α → Prop}

/-- Every node that is kept keeps what `f` gives for it, up to `R`. -/
def LiveKept (enter : Bool) (f : Stmt → List α) (R : α → α → Prop) (ps : List Part) : Prop :=
  ∀ table s, Part.live table s ∈ ps →
    List.Forall₂ R (Part.before enter f (.live table s)) (Part.after f (.live table s))

theorem length_flatMap_after_le {ps : List Part} (kept : LiveKept enter f R ps) :
    (ps.flatMap (Part.after f)).length ≤ (ps.flatMap (Part.before enter f)).length := by
  induction ps with
  | nil => rfl
  | cons p rest ih =>
    have h_rest := ih fun table s h_mem => kept table s (List.mem_cons_of_mem p h_mem)
    simp only [List.flatMap_cons, List.length_append]
    have h_head : (Part.after f p).length ≤ (Part.before enter f p).length := by
      cases p with
      | live table s => exact Nat.le_of_eq (kept table s List.mem_cons_self).length_eq.symm
      | dead s => exact Nat.zero_le _
    omega

/-- Nothing is lost exactly when the removed statements held nothing. -/
theorem forall₂_flatMap_iff {ps : List Part} (kept : LiveKept enter f R ps) :
    List.Forall₂ R (ps.flatMap (Part.before enter f)) (ps.flatMap (Part.after f)) ↔
      ∀ s, Part.dead s ∈ ps → s.collect enter f = [] := by
  induction ps with
  | nil => simp
  | cons p rest ih =>
    have kept_rest : LiveKept enter f R rest := fun table s h_mem =>
      kept table s (List.mem_cons_of_mem p h_mem)
    have h_le := length_flatMap_after_le kept_rest
    simp only [List.flatMap_cons]
    cases p with
    | live table s =>
      have h_head := kept table s List.mem_cons_self
      have h_drop : List.Forall₂ R
            (Part.before enter f (.live table s) ++ rest.flatMap (Part.before enter f))
            (Part.after f (.live table s) ++ rest.flatMap (Part.after f)) ↔
          List.Forall₂ R (rest.flatMap (Part.before enter f)) (rest.flatMap (Part.after f)) := by
        constructor
        · intro h_all
          have h := List.forall₂_drop (Part.before enter f (.live table s)).length h_all
          rw [List.drop_left, h_head.length_eq, List.drop_left] at h
          exact h
        · exact fun h => List.rel_append h_head h
      simp [h_drop, ih kept_rest]
    | dead s =>
      constructor
      · intro h_all
        have h_length := h_all.length_eq
        simp only [Part.before, Part.after, List.length_append, List.nil_append] at h_length
        have h_empty : s.collect enter f = [] := List.length_eq_zero_iff.mp (by omega)
        have h_rest := (ih kept_rest).mp (by simpa [Part.before, Part.after, h_empty] using h_all)
        intro s' h_mem
        rcases List.mem_cons.mp h_mem with h_eq | h_mem
        · cases h_eq
          exact h_empty
        · exact h_rest s' h_mem
      · intro h_dead
        have h_rest := (ih kept_rest).mpr fun s' h_mem => h_dead s' (List.mem_cons_of_mem _ h_mem)
        simpa [Part.before, Part.after, h_dead s List.mem_cons_self] using h_rest

end counting

/-- The statement as the optimizer leaves it, whatever it knows of constants there. -/
def Kept (s s' : Stmt) : Prop := ∃ table, s' = (optimizeStmt table s).1

def KeptSection (section₁ section₂ : Option Int × Stmt) : Prop :=
  section₁.1 = section₂.1 ∧ Kept section₁.2 section₂.2

/-- Every label that a surviving `goto` names and every section of a surviving switch is still
there, with its statement. -/
def KeepsTargets (body : List Stmt) : Prop :=
  (∀ name ∈ (Stmt.block (optimizeBody body)).gotos,
    List.Forall₂ Kept ((Stmt.block body).labeled name)
      ((Stmt.block (optimizeBody body)).labeled name)) ∧
  ∀ table value inner, Part.live table (.switchStmt value inner) ∈ parts true [] (.block body) →
    List.Forall₂ KeptSection inner.ownSections (optimizeStmt table inner).1.ownSections

/-- No statement that the optimizer removes holds a label named by a `goto` outside of the removed
statements, or a section of a switch that is not itself removed. -/
def NoTargetRemoved (body : List Stmt) : Prop :=
  (∀ table name, Part.live table (.gotoStmt name) ∈ parts true [] (.block body) →
    ∀ s, Part.dead s ∈ parts true [] (.block body) → s.labeled name = []) ∧
  ∀ table value inner, Part.live table (.switchStmt value inner) ∈ parts true [] (.block body) →
    ∀ s, Part.dead s ∈ parts false table inner → s.ownSections = []

theorem optimizeBody_eq (body : List Stmt) :
    Stmt.block (optimizeBody body) = (optimizeStmt [] (.block body)).1 := by
  rw [optimizeStmt, optimizeBody]

theorem onlyMarked_gotoName : OnlyMarked gotoName := by
  intro s h_unmarked
  cases s <;> first | rfl | cases h_unmarked

theorem onlyMarked_labeledBy (name : String) : OnlyMarked (labeledBy name) := by
  intro s h_unmarked
  cases s <;> first | rfl | cases h_unmarked

theorem onlyMarked_sectionOf : OnlyMarked sectionOf := by
  intro s h_unmarked
  cases s <;> first | rfl | cases h_unmarked

theorem mem_gotos_optimizeStmt {table : ConstTable} {s : Stmt} {name : String} :
    name ∈ (optimizeStmt table s).1.gotos ↔
      ∃ table', Part.live table' (.gotoStmt name) ∈ parts true table s := by
  rw [Stmt.gotos, collect_optimizeStmt _ onlyMarked_gotoName, List.mem_flatMap]
  constructor
  · rintro ⟨p, h_mem, h_name⟩
    cases p with
    | dead s => cases h_name
    | live table' s =>
      cases s <;> simp [Part.after, Stmt.isMarked, optimizeStmt, gotoName] at h_name
      exact ⟨table', h_name ▸ h_mem⟩
  · rintro ⟨table', h_mem⟩
    exact ⟨_, h_mem, by simp [Part.after, Stmt.isMarked, optimizeStmt, gotoName]⟩

theorem forall₂_labeled_iff (table : ConstTable) (s : Stmt) (name : String) :
    List.Forall₂ Kept (s.labeled name) ((optimizeStmt table s).1.labeled name) ↔
      ∀ s', Part.dead s' ∈ parts true table s → s'.labeled name = [] := by
  rw [Stmt.labeled, Stmt.labeled, collect_optimizeStmt _ (onlyMarked_labeledBy name),
    collect_eq_parts _ _ table]
  apply forall₂_flatMap_iff
  intro table' s' _
  cases s' with
  | labelStmt label body =>
    simp only [Part.before, Part.after, Stmt.isMarked, optimizeStmt, labeledBy, if_true]
    split
    · exact .cons ⟨table', rfl⟩ .nil
    · exact .nil
  | _ => simp [Part.before, Part.after, Stmt.isMarked, optimizeStmt, labeledBy]

theorem forall₂_ownSections_iff (table : ConstTable) (s : Stmt) :
    List.Forall₂ KeptSection s.ownSections (optimizeStmt table s).1.ownSections ↔
      ∀ s', Part.dead s' ∈ parts false table s → s'.ownSections = [] := by
  rw [Stmt.ownSections, Stmt.ownSections, collect_optimizeStmt _ onlyMarked_sectionOf,
    collect_eq_parts _ _ table]
  apply forall₂_flatMap_iff
  intro table' s' _
  cases s' with
  | caseSection value body =>
    simp only [Part.before, Part.after, Stmt.isMarked, optimizeStmt, sectionOf, if_true]
    exact .cons ⟨rfl, table', rfl⟩ .nil
  | defaultSection body =>
    simp only [Part.before, Part.after, Stmt.isMarked, optimizeStmt, sectionOf, if_true]
    exact .cons ⟨rfl, table', rfl⟩ .nil
  | _ => simp [Part.before, Part.after, Stmt.isMarked, optimizeStmt, sectionOf]

/-- `if (x) goto out; if (0) { out: return 1; } return 0;` -/
def gotoIntoDeadBranch : List Stmt :=
  [.ifStmt (.varRef "x") (.gotoStmt "out") none,
    .ifStmt (newLiteral 0 .int false)
      (.block [.labelStmt "out" (.returnStmt (some (newLiteral 1 .int false)))]) none,
    .returnStmt (some (newLiteral 0 .int false))]

end ClaudeC99
