import ClaudeC99.Stack.StmtCode

/-! The case labels of a switch body, and the table that the walk before its code makes of them. -/

namespace ClaudeC99

open X86

/-- A `case` or `default` node of a switch body. -/
structure Section where
  node : List Nat
  caseValue : Option Int

mutual

/-- The sections of a statement that belong to the switch around it. -/
def Stmt.sections (node : List Nat) : Stmt → List Section
  | .caseSection value body => ⟨node, some value⟩ :: body.sections (node ++ [1])
  | .defaultSection body => ⟨node, none⟩ :: body.sections (node ++ [0])
  | .switchStmt _ _ => []
  | .declList decls => Stmt.sectionsList node 0 decls
  | .ifStmt _ thenBody elseBody =>
    thenBody.sections (node ++ [1]) ++ Stmt.sectionsOption (node ++ [2]) elseBody
  | .whileStmt _ body => body.sections (node ++ [1])
  | .doWhileStmt body _ => body.sections (node ++ [0])
  | .forStmt init _ _ body =>
    Stmt.sectionsOption (node ++ [0]) init ++ body.sections (node ++ [3])
  | .labelStmt _ body => body.sections (node ++ [0])
  | .block stmts => Stmt.sectionsList node 0 stmts
  | .declaration _ _ => []
  | .returnStmt _ => []
  | .breakStmt => []
  | .continueStmt => []
  | .gotoStmt _ => []
  | .exprStmt _ => []
  | .typedefDecl _ => []

def Stmt.sectionsOption (node : List Nat) : Option Stmt → List Section
  | none => []
  | some s => s.sections node

def Stmt.sectionsList (node : List Nat) (index : Nat) : List Stmt → List Section
  | [] => []
  | s :: ss => s.sections (node ++ [index]) ++ Stmt.sectionsList node (index + 1) ss

end

def Piece.sections (node : List Nat) : Piece → List Section
  | .stmt s => s.sections node
  | .list index ss => Stmt.sectionsList node index ss

section nodes

/-- The paths strictly below a path all go through one of its children. -/
def Below (node : List Nat) (index : Nat) (path : List Nat) : Prop :=
  ∃ child rest, index ≤ child ∧ path = node ++ child :: rest

theorem Below.child {node path : List Nat} {index child : Nat} (le : index ≤ child)
    (h : ∃ rest, path = node ++ [child] ++ rest) : Below node index path := by
  obtain ⟨rest, rfl⟩ := h
  exact ⟨child, rest, le, by simp⟩

theorem Below.mono {node path : List Nat} {i j : Nat} (h : Below node j path) (le : i ≤ j) :
    Below node i path := by
  obtain ⟨child, rest, hc, rfl⟩ := h
  exact ⟨child, rest, le.trans hc, rfl⟩

theorem Below.extends {node path : List Nat} {index : Nat} (h : Below node index path) :
    ∃ rest, path = node ++ rest := by
  obtain ⟨child, rest, _, rfl⟩ := h
  exact ⟨_, rfl⟩

mutual

theorem sections_extend : ∀ (s : Stmt) (node : List Nat), ∀ c ∈ s.sections node,
    ∃ rest, c.node = node ++ rest
  | .caseSection value body, node => by
    rintro c (_ | ⟨_, hc⟩)
    · exact ⟨[], by simp⟩
    · exact (Below.child (Nat.zero_le _) (sections_extend body _ c hc)).extends
  | .defaultSection body, node => by
    rintro c (_ | ⟨_, hc⟩)
    · exact ⟨[], by simp⟩
    · exact (Below.child (Nat.zero_le _) (sections_extend body _ c hc)).extends
  | .ifStmt _ thenBody elseBody, node => by
    intro c hc
    rcases List.mem_append.mp hc with hc | hc
    · exact (Below.child (Nat.zero_le _) (sections_extend thenBody _ c hc)).extends
    · exact (Below.child (Nat.zero_le _) (sectionsOption_extend elseBody _ c hc)).extends
  | .forStmt init _ _ body, node => by
    intro c hc
    rcases List.mem_append.mp hc with hc | hc
    · exact (Below.child (Nat.zero_le _) (sectionsOption_extend init _ c hc)).extends
    · exact (Below.child (Nat.zero_le _) (sections_extend body _ c hc)).extends
  | .whileStmt _ body, node | .doWhileStmt body _, node | .labelStmt _ body, node =>
    fun c hc => (Below.child (Nat.zero_le _) (sections_extend body _ c hc)).extends
  | .declList stmts, node | .block stmts, node => fun c hc =>
    (sectionsList_below stmts node 0 c hc).extends
  | .switchStmt _ _, _ | .declaration _ _, _ | .returnStmt _, _ | .breakStmt, _
  | .continueStmt, _ | .gotoStmt _, _ | .exprStmt _, _ | .typedefDecl _, _ =>
    fun _ hc => absurd hc List.not_mem_nil

theorem sectionsOption_extend : ∀ (s : Option Stmt) (node : List Nat),
    ∀ c ∈ Stmt.sectionsOption node s, ∃ rest, c.node = node ++ rest
  | none, _ => fun _ hc => absurd hc List.not_mem_nil
  | some s, node => sections_extend s node

theorem sectionsList_below : ∀ (ss : List Stmt) (node : List Nat) (index : Nat),
    ∀ c ∈ Stmt.sectionsList node index ss, Below node index c.node
  | [], _, _ => fun _ hc => absurd hc List.not_mem_nil
  | s :: ss, node, index => by
    intro c hc
    rcases List.mem_append.mp hc with hc | hc
    · exact .child le_rfl (sections_extend s _ c hc)
    · exact (sectionsList_below ss node (index + 1) c hc).mono (Nat.le_succ index)

end

/-- Sections below different children are different nodes. -/
theorem apart_of_children {node : List Nat} {i j : Nat} {cs ds : List Section} (lt : i < j)
    (first : ∀ c ∈ cs, ∃ rest, c.node = node ++ [i] ++ rest)
    (second : ∀ d ∈ ds, Below node j d.node) : ∀ c ∈ cs, ∀ d ∈ ds, c.node ≠ d.node := by
  intro c hc d hd same
  obtain ⟨rest, hrest⟩ := first c hc
  obtain ⟨child, tail, le, htail⟩ := second d hd
  rw [hrest, htail, List.append_assoc, List.append_cancel_left_eq, List.singleton_append,
    List.cons.injEq] at same
  omega

def DistinctNodes (cs : List Section) : Prop := cs.Pairwise fun c d => c.node ≠ d.node

theorem DistinctNodes.append {cs ds : List Section} (hc : DistinctNodes cs)
    (hd : DistinctNodes ds) (apart : ∀ c ∈ cs, ∀ d ∈ ds, c.node ≠ d.node) :
    DistinctNodes (cs ++ ds) :=
  List.pairwise_append.mpr ⟨hc, hd, apart⟩

theorem DistinctNodes.cons {node : List Nat} {value : Option Int} {cs : List Section}
    (h : DistinctNodes cs) (below : ∀ c ∈ cs, Below node 0 c.node) :
    DistinctNodes (⟨node, value⟩ :: cs) := by
  refine List.pairwise_cons.mpr ⟨fun c hc same => ?_, h⟩
  obtain ⟨child, rest, _, hrest⟩ := below c hc
  have longer := congrArg List.length (same.trans hrest)
  simp at longer

mutual

theorem distinct_sections : ∀ (s : Stmt) (node : List Nat), DistinctNodes (s.sections node)
  | .caseSection _ body, _ => (distinct_sections body _).cons fun c hc =>
    .child (Nat.zero_le _) (sections_extend body _ c hc)
  | .defaultSection body, _ => (distinct_sections body _).cons fun c hc =>
    .child (Nat.zero_le _) (sections_extend body _ c hc)
  | .ifStmt _ thenBody elseBody, _ =>
    (distinct_sections thenBody _).append (distinct_sectionsOption elseBody _)
      (apart_of_children (by omega) (sections_extend thenBody _) fun c hc =>
        .child le_rfl (sectionsOption_extend elseBody _ c hc))
  | .forStmt init _ _ body, _ =>
    (distinct_sectionsOption init _).append (distinct_sections body _)
      (apart_of_children (by omega) (sectionsOption_extend init _) fun c hc =>
        .child le_rfl (sections_extend body _ c hc))
  | .whileStmt _ body, _ | .doWhileStmt body _, _ | .labelStmt _ body, _ =>
    distinct_sections body _
  | .declList stmts, _ | .block stmts, _ => distinct_sectionsList stmts _ 0
  | .switchStmt _ _, _ | .declaration _ _, _ | .returnStmt _, _ | .breakStmt, _
  | .continueStmt, _ | .gotoStmt _, _ | .exprStmt _, _ | .typedefDecl _, _ => .nil

theorem distinct_sectionsOption : ∀ (s : Option Stmt) (node : List Nat),
    DistinctNodes (Stmt.sectionsOption node s)
  | none, _ => .nil
  | some s, node => distinct_sections s node

theorem distinct_sectionsList : ∀ (ss : List Stmt) (node : List Nat) (index : Nat),
    DistinctNodes (Stmt.sectionsList node index ss)
  | [], _, _ => .nil
  | s :: ss, node, index =>
    (distinct_sections s _).append (distinct_sectionsList ss node (index + 1))
      (apart_of_children (Nat.lt_succ_self index) (sections_extend s _)
        (sectionsList_below ss node (index + 1)))

end

end nodes

section table

/-- Entering sections one after the other. -/
def enterAll (cs : List Section) (ctx : Nat × SwitchCtx) : Nat × SwitchCtx :=
  cs.foldl (fun ctx c => addSwitchLabel c.node c.caseValue ctx) ctx

theorem enterAll_append (cs ds : List Section) (ctx : Nat × SwitchCtx) :
    enterAll (cs ++ ds) ctx = enterAll ds (enterAll cs ctx) :=
  List.foldl_append

mutual

/-- The walk enters exactly the sections of the body, in order. -/
theorem collectSwitchLabels_eq : ∀ (s : Stmt) (node : List Nat) (ctx : Nat × SwitchCtx),
    collectSwitchLabels node s ctx = enterAll (s.sections node) ctx
  | .caseSection _ body, _, _ => collectSwitchLabels_eq body _ _
  | .defaultSection body, _, _ => collectSwitchLabels_eq body _ _
  | .ifStmt _ thenBody elseBody, node, ctx => by
    rw [collectSwitchLabels, Stmt.sections, enterAll_append, collectSwitchLabels_eq thenBody,
      collectSwitchLabelsOption_eq elseBody]
  | .forStmt init _ _ body, node, ctx => by
    rw [collectSwitchLabels, Stmt.sections, enterAll_append, collectSwitchLabelsOption_eq init,
      collectSwitchLabels_eq body]
  | .whileStmt _ body, _, _ | .doWhileStmt body _, _, _ | .labelStmt _ body, _, _ =>
    collectSwitchLabels_eq body _ _
  | .declList stmts, _, _ | .block stmts, _, _ => collectSwitchLabelsList_eq stmts _ 0 _
  | .switchStmt _ _, _, _ | .declaration _ _, _, _ | .returnStmt _, _, _ | .breakStmt, _, _
  | .continueStmt, _, _ | .gotoStmt _, _, _ | .exprStmt _, _, _ | .typedefDecl _, _, _ => rfl

theorem collectSwitchLabelsOption_eq : ∀ (s : Option Stmt) (node : List Nat)
    (ctx : Nat × SwitchCtx),
    collectSwitchLabelsOption node s ctx = enterAll (Stmt.sectionsOption node s) ctx
  | none, _, _ => rfl
  | some s, node, ctx => collectSwitchLabels_eq s node ctx

theorem collectSwitchLabelsList_eq : ∀ (ss : List Stmt) (node : List Nat) (index : Nat)
    (ctx : Nat × SwitchCtx),
    collectSwitchLabelsList node index ss ctx = enterAll (Stmt.sectionsList node index ss) ctx
  | [], _, _, _ => rfl
  | s :: ss, node, index, ctx => by
    rw [collectSwitchLabelsList, Stmt.sectionsList, enterAll_append, collectSwitchLabels_eq s,
      collectSwitchLabelsList_eq ss]

end

/-- Sections with consecutive labels. -/
def numberFrom (first : Nat) : List Section → List SwitchLabel
  | [] => []
  | c :: cs => ⟨c.node, c.caseValue, first⟩ :: numberFrom (first + 1) cs

/-- The label of the last default among sections with consecutive labels. -/
def lastDefault (before : Int) (first : Nat) : List Section → Int
  | [] => before
  | c :: cs => lastDefault (if c.caseValue.isNone then first else before) (first + 1) cs

theorem enterAll_eq (cs : List Section) (first : Nat) (entries : List SwitchLabel)
    (default : Int) : enterAll cs (first, ⟨entries, default⟩) =
      (first + cs.length, ⟨entries ++ numberFrom first cs, lastDefault default first cs⟩) := by
  induction cs generalizing first entries default with
  | nil => simp [enterAll, numberFrom, lastDefault]
  | cons c cs ih =>
    have step : enterAll (c :: cs) (first, ⟨entries, default⟩) =
        enterAll cs (addSwitchLabel c.node c.caseValue (first, ⟨entries, default⟩)) := rfl
    rw [step, addSwitchLabel, ih]
    simp only [numberFrom, lastDefault, List.length_cons, List.append_assoc, List.singleton_append,
      Prod.mk.injEq, and_true]
    omega

/-- The walk over a switch body: its table has the sections in order, with consecutive labels. -/
theorem collectSwitchLabels_table {node : List Nat} {body : Stmt} {first last : Nat}
    {ctx : SwitchCtx} (table : collectSwitchLabels node body (first, ⟨[], -1⟩) = (last, ctx)) :
    last = first + (body.sections node).length ∧
      ctx.entries = numberFrom first (body.sections node) ∧
      ctx.defaultLabel = lastDefault (-1) first (body.sections node) := by
  rw [collectSwitchLabels_eq, enterAll_eq] at table
  cases table
  exact ⟨rfl, rfl, rfl⟩

theorem mem_numberFrom {first : Nat} {cs : List Section} {e : SwitchLabel}
    (h : e ∈ numberFrom first cs) : (∃ c ∈ cs, e.node = c.node ∧ e.caseValue = c.caseValue) ∧
      (first : Int) ≤ e.label ∧ e.label < first + cs.length := by
  induction cs generalizing first with
  | nil => cases h
  | cons c cs ih =>
    rw [List.length_cons]
    rcases List.mem_cons.mp h with rfl | h
    · exact ⟨⟨c, List.mem_cons_self, rfl, rfl⟩, le_rfl, by dsimp only; omega⟩
    · obtain ⟨⟨d, hd, same⟩, lo, hi⟩ := ih h
      exact ⟨⟨d, List.mem_cons_of_mem c hd, same⟩, by omega, by omega⟩

/-- Looking a section up in its table finds its own entry. -/
theorem lookup_numberFrom {first : Nat} {cs : List Section} (distinct : DistinctNodes cs)
    {default : Int} {e : SwitchLabel} (he : e ∈ numberFrom first cs) :
    switchLookupLabel ⟨numberFrom first cs, default⟩ e.node = e.label := by
  induction cs generalizing first with
  | nil => cases he
  | cons c cs ih =>
    obtain ⟨apart, distinct⟩ := List.pairwise_cons.mp distinct
    rcases List.mem_cons.mp he with rfl | he
    · simp [switchLookupLabel, numberFrom]
    · obtain ⟨⟨d, hd, same, _⟩, _⟩ := mem_numberFrom he
      have other : c.node ≠ e.node := same ▸ apart d hd
      rw [← ih distinct he]
      simp [switchLookupLabel, numberFrom, other]

theorem numberFrom_sections (first : Nat) (cs : List Section) :
    (numberFrom first cs).map (fun e => (⟨e.node, e.caseValue⟩ : Section)) = cs := by
  induction cs generalizing first with
  | nil => rfl
  | cons c cs ih => rw [numberFrom, List.map_cons, ih]

/-- What the entries of a table say, read off its sections. -/
theorem map_numberFrom {β : Type} {first : Nat} {cs : List Section} (distinct : DistinctNodes cs)
    (default : Int) (f : Option Int → Int → β) :
    (numberFrom first cs).map (fun e => f e.caseValue e.label) =
      cs.map fun c =>
        f c.caseValue (switchLookupLabel ⟨numberFrom first cs, default⟩ c.node) := by
  calc (numberFrom first cs).map (fun e => f e.caseValue e.label)
      = (numberFrom first cs).map (fun e =>
          f e.caseValue (switchLookupLabel ⟨numberFrom first cs, default⟩ e.node)) :=
        List.map_congr_left fun e he => by rw [lookup_numberFrom distinct he]
    _ = ((numberFrom first cs).map (fun e => (⟨e.node, e.caseValue⟩ : Section))).map (fun c =>
          f c.caseValue (switchLookupLabel ⟨numberFrom first cs, default⟩ c.node)) := by
        rw [List.map_map]
        rfl
    _ = _ := by rw [numberFrom_sections]

theorem labels_numberFrom_nodup (first : Nat) (cs : List Section) :
    ((numberFrom first cs).map SwitchLabel.label).Nodup := by
  induction cs generalizing first with
  | nil => exact .nil
  | cons c cs ih =>
    refine List.nodup_cons.mpr ⟨fun h => ?_, ih (first + 1)⟩
    obtain ⟨e, he, same⟩ := List.mem_map.mp h
    have later := (mem_numberFrom he).2.1
    have first_label : e.label = first := same
    push_cast at later
    omega

end table

end ClaudeC99
