import ClaudeC99.Control.Sections
import ClaudeC99.Control.Sites
import ClaudeC99.Stack.Functions

/-! Which labels a piece of code defines, and how often. -/

namespace ClaudeC99

open X86 StateExcept

def labelOf (line : Line) : Option Label :=
  match line.instr with
  | .label l => some l
  | _ => none

def labelsOf (seg : List Line) : List Label := seg.filterMap labelOf

@[simp] theorem labelsOf_nil : labelsOf [] = [] := rfl

@[simp] theorem labelsOf_append (s t : List Line) : labelsOf (s ++ t) = labelsOf s ++ labelsOf t :=
  List.filterMap_append

@[simp] theorem labelsOf_label (l : Label) (d : Nat) (seg : List Line) :
    labelsOf (⟨.label l, d⟩ :: seg) = l :: labelsOf seg := rfl

theorem labelsOf_eq_nil {seg : List Line} (h : ∀ line ∈ seg, labelOf line = none) :
    labelsOf seg = [] :=
  List.filterMap_eq_nil_iff.mpr h

theorem labelOf_keepsStack {i : Asm} (h : i.keepsStack = true) (d : Nat) :
    labelOf ⟨i, d⟩ = none := by
  cases i <;> first | rfl | cases h

theorem labelOf_isCall {i : Asm} (h : isCall i = true) (d : Nat) : labelOf ⟨i, d⟩ = none := by
  cases i <;> first | rfl | cases h

theorem labelsOf_lines {is : List Asm} {d : Nat} (h : ∀ i ∈ is, labelOf ⟨i, d⟩ = none) :
    labelsOf (lines d is) = [] := by
  refine labelsOf_eq_nil fun line hline => ?_
  obtain ⟨i, hi, rfl⟩ := List.mem_map.mp hline
  exact h i hi

/-- How many labels of a name the ids from `lo` up to `hi` leave room for. -/
def Label.room (lo hi : Nat) : Label → Nat
  | .numbered _ id => if (lo : Int) ≤ id ∧ id < hi then 1 else 0
  | .user _ _ => 0

theorem Label.room_le_one (lo hi : Nat) (l : Label) : l.room lo hi ≤ 1 := by
  cases l with
  | user => exact Nat.zero_le 1
  | numbered k id =>
    simp only [Label.room]
    split <;> omega

theorem Label.room_add {lo mid hi : Nat} (h₁ : lo ≤ mid) (h₂ : mid ≤ hi) (l : Label) :
    l.room lo mid + l.room mid hi = l.room lo hi := by
  cases l with
  | user => rfl
  | numbered k id =>
    simp only [Label.room]
    split <;> split <;> split <;> omega

/-- `seg` defines the labels `own` and, with ids from `lo` up to `hi`, others at most once. -/
structure Defines (lo : Nat) (own : List Label) (seg : List Line) (hi : Nat) : Prop where
  le : lo ≤ hi
  own_le : ∀ l, own.count l ≤ (labelsOf seg).count l
  le_own : ∀ l, (labelsOf seg).count l ≤ own.count l + l.room lo hi

namespace Defines

variable {lo mid hi : Nat} {own own₁ own₂ drawn : List Label} {seg s t : List Line}

theorem exact (lo : Nat) (h : labelsOf seg = own) : Defines lo own seg lo := by
  subst h
  exact ⟨le_rfl, fun _ => le_rfl, fun _ => Nat.le_add_right _ _⟩

theorem append (first : Defines lo own₁ s mid) (second : Defines mid own₂ t hi) :
    Defines lo (own₁ ++ own₂) (s ++ t) hi := by
  refine ⟨first.le.trans second.le, fun l => ?_, fun l => ?_⟩
  · have h₁ := first.own_le l
    have h₂ := second.own_le l
    simp only [labelsOf_append, List.count_append]
    omega
  · have h₁ := first.le_own l
    have h₂ := second.le_own l
    have room := l.room_add first.le second.le
    simp only [labelsOf_append, List.count_append]
    omega

/-- The ids up to `mid` are drawn first, for the labels `drawn`. -/
theorem draw (le : lo ≤ mid) (fresh : ∀ l, drawn.count l ≤ l.room lo mid)
    (h : Defines mid own₁ seg hi) (same : ∀ l, own₁.count l = own.count l + drawn.count l) :
    Defines lo own seg hi := by
  refine ⟨le.trans h.le, fun l => ?_, fun l => ?_⟩
  · have h₁ := h.own_le l
    have h₂ := same l
    omega
  · have h₁ := h.le_own l
    have h₂ := same l
    have h₃ := fresh l
    have room := l.room_add le h.le
    omega

theorem congr (h : Defines lo own₁ seg hi) (same : ∀ l, own₁.count l = own.count l) :
    Defines lo own seg hi :=
  ⟨h.le, fun l => same l ▸ h.own_le l, fun l => same l ▸ h.le_own l⟩

theorem mem (h : Defines lo own seg hi) {l : Label} (hl : l ∈ own) : l ∈ labelsOf seg := by
  have pos := List.count_pos_iff.mpr hl
  exact List.count_pos_iff.mp (pos.trans_le (h.own_le l))

end Defines

def numberedAll (kinds : List LabelKind) (id : Nat) : List Label := kinds.map (.numbered · id)

theorem count_kinds_le {kinds : List LabelKind} (distinct : kinds.Nodup) (id : Nat) (l : Label) :
    (numberedAll kinds id).count l ≤ l.room id (id + 1) := by
  have nodup : (numberedAll kinds id).Nodup := distinct.map fun a b h => by cases h; rfl
  by_cases hl : l ∈ numberedAll kinds id
  · obtain ⟨k, _, rfl⟩ := List.mem_map.mp hl
    have once := List.nodup_iff_count_le_one.mp nodup (.numbered k id)
    have room : (Label.numbered k id).room id (id + 1) = 1 := by simp [Label.room]
    omega
  · rw [List.count_eq_zero.mpr hl]
    exact Nat.zero_le _

theorem ExprCode.defines {b S lo seg S' hi} (h : ExprCode b S lo seg S' hi) :
    Defines lo [] seg hi := by
  induction h with
  | nil b S lo => exact .exact lo rfl
  | plain _ keeps ih =>
    exact ih.append (.exact _ (labelsOf_eq_nil (by simpa using labelOf_keepsStack keeps _)))
  | push _ r ih => exact ih.append (.exact _ rfl)
  | pop _ _ ih => exact ih.append (.exact _ rfl)
  | reserve _ n ih => exact ih.append (.exact _ rfl)
  | release _ ih => exact ih.append (.exact _ rfl)
  | pushXmm _ p ih => exact ih.append (.exact _ rfl)
  | call _ isCall _ ih =>
    exact ih.append (.exact _ (labelsOf_eq_nil (by simpa using labelOf_isCall isCall _)))
  | paddedCall _ plain isCall _ ih =>
    refine ih.append (.exact _ (labelsOf_lines ?_))
    simp only [List.mem_append, List.mem_cons, List.not_mem_nil, or_false]
    rintro i ((rfl | hi) | (rfl | rfl))
    · rfl
    · exact labelOf_keepsStack (plain i hi) _
    · exact labelOf_isCall isCall _
    · rfl
  | skip _ ih =>
    refine ⟨Nat.le_succ_of_le ih.le, ih.own_le, fun l => (ih.le_own l).trans ?_⟩
    rw [← l.room_add ih.le (Nat.le_succ _)]
    omega
  | sub _ _ ih own => exact ih.append own
  | @branch b S lo seg S' id test m₁ first m₂ second hi _ _ _ _ c k₁ k₂ op ih t f s =>
    have distinct : [k₁, k₂].Nodup := by simpa using op.distinct
    have jump : Defines m₁ [] [⟨.jcc c (.numbered k₁ id), b + S'.length⟩] m₁ := .exact m₁ rfl
    have middle : Defines m₂ (numberedAll [k₁] id) (ClaudeC99.lines (b + S'.length)
      [.jmp (.numbered k₂ id), .label (.numbered k₁ id)]) m₂ := .exact m₂ rfl
    have last : Defines hi (numberedAll [k₂] id) [⟨.label (.numbered k₂ id), b + S'.length⟩] hi :=
      .exact hi rfl
    have all := ((((t.append jump).append f).append middle).append s).append last
    exact ih.append (.draw (Nat.le_succ id) (count_kinds_le distinct id) all fun l =>
      (Nat.zero_add _).symm)

theorem Compiled.defines {α : Type} {m : Gen α} {d lo hi : Nat} {seg : List Line}
    (h : Compiled m d lo seg hi) : Defines lo [] seg hi := h.code.defines

theorem ForTest.defines {d id lo hi : Nat} {cond : Option Expr} {seg : List Line}
    (h : ForTest d id lo cond seg hi) : Defines lo [] seg hi := by
  cases h with
  | none => exact .exact lo rfl
  | some code => exact code.defines.append (.exact _ rfl)

def Piece.userLabels : Piece → List String
  | .stmt s => userLabelsOf s
  | .list _ ss => userLabelsOfList ss

/-- The labels of the sections that belong to the innermost of the switches. -/
def sectionLabels : List SwitchCtx → List Section → List Label
  | [], _ => []
  | ctx :: _, cs => cs.map fun c => .numbered .switchSec (switchLookupLabel ctx c.node)

@[simp] theorem sectionLabels_nil (ss : List SwitchCtx) : sectionLabels ss [] = [] := by
  cases ss <;> rfl

@[simp] theorem sectionLabels_append (ss : List SwitchCtx) (cs ds : List Section) :
    sectionLabels ss (cs ++ ds) = sectionLabels ss cs ++ sectionLabels ss ds := by
  cases ss with
  | nil => rfl
  | cons ctx ss => exact List.map_append

def Piece.ownLabels (func : String) (ss : List SwitchCtx) (node : List Nat) (p : Piece) :
    List Label :=
  sectionLabels ss (p.sections node) ++ p.userLabels.map (.user func)

@[simp] theorem Piece.count_ownLabels (func : String) (ss : List SwitchCtx) (node : List Nat) (p : Piece)
    (l : Label) : (p.ownLabels func ss node).count l =
      (sectionLabels ss (p.sections node)).count l + (p.userLabels.map (.user func)).count l :=
  List.count_append

/-- The labels of the sections of a switch are new. -/
theorem count_sections_le {first : Nat} {cs : List Section} {ctx : SwitchCtx} (l : Label)
    (distinct : DistinctNodes cs) (entries : ctx.entries = numberFrom first cs)
    (ss : List SwitchCtx) :
    (sectionLabels (ctx :: ss) cs).count l ≤ l.room first (first + cs.length) := by
  obtain ⟨entries', default⟩ := ctx
  obtain rfl := entries
  have labels : sectionLabels (⟨numberFrom first cs, default⟩ :: ss) cs =
      (numberFrom first cs).map fun e => .numbered .switchSec e.label :=
    (map_numberFrom distinct default fun _ label => Label.numbered .switchSec label).symm
  have nodup : (sectionLabels (⟨numberFrom first cs, default⟩ :: ss) cs).Nodup := by
    have injective : Function.Injective (Label.numbered .switchSec) := fun a b h => by
      cases h
      rfl
    rw [labels, show (numberFrom first cs).map (fun e => Label.numbered .switchSec e.label) =
      ((numberFrom first cs).map SwitchLabel.label).map (Label.numbered .switchSec) by simp]
    exact (labels_numberFrom_nodup first cs).map injective
  by_cases hl : l ∈ sectionLabels (⟨numberFrom first cs, default⟩ :: ss) cs
  · have once := List.nodup_iff_count_le_one.mp nodup l
    rw [labels] at hl
    obtain ⟨e, he, rfl⟩ := List.mem_map.mp hl
    obtain ⟨_, ge, lt⟩ := mem_numberFrom he
    have room : (Label.numbered .switchSec e.label).room first (first + cs.length) = 1 := by
      rw [Label.room, if_pos]
      push_cast
      omega
    omega
  · rw [List.count_eq_zero.mpr hl]
    exact Nat.zero_le _

theorem labelsOf_dispatch (d : Nat) (w : Width) (ctx : SwitchCtx) (id : Nat) :
    labelsOf (lines d (ctx.entries.flatMap (dispatchCase w) ++ [switchDefault ctx id])) = [] := by
  refine labelsOf_lines fun i hi => ?_
  rcases List.mem_append.mp hi with hi | hi
  · obtain ⟨e, _, he⟩ := List.mem_flatMap.mp hi
    unfold dispatchCase at he
    split at he
    · cases he
    · simp only [List.mem_cons, List.not_mem_nil, or_false] at he
      rcases he with rfl | rfl | rfl <;> rfl
  · obtain rfl := List.mem_singleton.mp hi
    unfold switchDefault
    split <;> rfl

section statements

variable {func : String} {labels : List String}

/-- Statement code defines its user labels and section labels once each, and nothing twice. -/
theorem StmtCode.defines {bs ss d lo node p seg hi}
    (h : StmtCode func labels bs ss d lo node p seg hi) :
    Defines lo (p.ownLabels func ss node) seg hi := by
  induction h with
  | @straight bs ss node s seg d lo hi straight code printed =>
    have none : Piece.ownLabels func ss node (.stmt s) = [] := by
      cases s <;> cases straight <;> cases ss <;> rfl
    exact none ▸ code.defines
  | @returns bs ss node value seg d lo hi code printed =>
    have none : Piece.ownLabels func ss node (.stmt (.returnStmt value)) = [] := by
      cases ss <;> rfl
    rw [none]
    exact code.defines.append (.exact _ rfl)
  | declList _ ih => exact ih
  | block _ ih => exact ih
  | @nil bs ss node index d lo =>
    have none : Piece.ownLabels func ss node (.list index []) = [] := by cases ss <;> rfl
    exact none ▸ .exact lo rfl
  | cons _ _ ih₁ ih₂ =>
    refine (ih₁.append ih₂).congr fun l => ?_
    simp only [Piece.count_ownLabels, Piece.sections, Piece.userLabels, Stmt.sectionsList,
      userLabelsOfList, sectionLabels_append, List.map_append, List.count_append]
    omega
  | @ifThen bs ss node cond thenBody test seg d lo m₁ hi condCode _ ih =>
    have jump : Defines m₁ [] [⟨.jcc .e (.numbered .endIf lo), d⟩] m₁ := .exact m₁ rfl
    have last : Defines hi (numberedAll [.endIf] lo) [⟨.label (.numbered .endIf lo), d⟩] hi :=
      .exact hi rfl
    have all := ((condCode.defines.append jump).append ih).append last
    refine .draw (Nat.le_succ lo) (count_kinds_le (List.nodup_singleton .endIf) lo) all fun l => ?_
    simp [Piece.sections, Piece.userLabels, Stmt.sections, Stmt.sectionsOption, userLabelsOf,
      userLabelsOfOption]
  | @ifElse bs ss node cond thenBody elseBody test first second d lo m₁ m₂ hi condCode _ _ ih₁
      ih₂ =>
    have jump : Defines m₁ [] [⟨.jcc .e (.numbered .elseBranch lo), d⟩] m₁ := .exact m₁ rfl
    have middle : Defines m₂ (numberedAll [.elseBranch] lo)
      (lines d [.jmp (.numbered .endIf lo), .label (.numbered .elseBranch lo)]) m₂ := .exact m₂ rfl
    have last : Defines hi (numberedAll [.endIf] lo) [⟨.label (.numbered .endIf lo), d⟩] hi :=
      .exact hi rfl
    have all := ((((condCode.defines.append jump).append ih₁).append middle).append ih₂).append last
    have distinct : [LabelKind.elseBranch, .endIf].Nodup := by decide
    refine .draw (Nat.le_succ lo) (count_kinds_le distinct lo) all fun l => ?_
    simp [Piece.sections, Piece.userLabels, Stmt.sections, Stmt.sectionsOption, userLabelsOf,
      userLabelsOfOption, numberedAll, List.count_cons]
    omega
  | @whileLoop bs ss node cond body test seg d lo m₁ hi condCode _ ih =>
    have start : Defines (lo + 1) (numberedAll [.whileStart, .continueTo] lo)
      (lines d [.label (.numbered .whileStart lo), .label (.numbered .continueTo lo)]) (lo + 1) :=
      .exact (lo + 1) rfl
    have jump : Defines m₁ [] [⟨.jcc .e (.numbered .whileEnd lo), d⟩] m₁ := .exact m₁ rfl
    have last : Defines hi (numberedAll [.whileEnd, .breakTo] lo)
      (lines d [.jmp (.numbered .whileStart lo), .label (.numbered .whileEnd lo),
        .label (.numbered .breakTo lo)]) hi := .exact hi rfl
    have all := (((start.append condCode.defines).append jump).append ih).append last
    have distinct : [LabelKind.whileStart, .continueTo, .whileEnd, .breakTo].Nodup := by decide
    refine .draw (Nat.le_succ lo) (count_kinds_le distinct lo) all fun l => ?_
    simp [Piece.sections, Piece.userLabels, Stmt.sections, userLabelsOf, numberedAll,
      List.count_cons]
    omega
  | @doLoop bs ss node cond body seg test d lo m₁ hi _ condCode ih =>
    have start : Defines (lo + 1) (numberedAll [.doStart] lo)
      [⟨.label (.numbered .doStart lo), d⟩] (lo + 1) := .exact (lo + 1) rfl
    have middle : Defines m₁ (numberedAll [.continueTo] lo)
      [⟨.label (.numbered .continueTo lo), d⟩] m₁ := .exact m₁ rfl
    have last : Defines hi (numberedAll [.doEnd, .breakTo] lo)
      (lines d [.jcc .ne (.numbered .doStart lo), .label (.numbered .doEnd lo),
        .label (.numbered .breakTo lo)]) hi := .exact hi rfl
    have all := (((start.append ih).append middle).append condCode.defines).append last
    have distinct : [LabelKind.doStart, .continueTo, .doEnd, .breakTo].Nodup := by decide
    refine .draw (Nat.le_succ lo) (count_kinds_le distinct lo) all fun l => ?_
    simp [Piece.sections, Piece.userLabels, Stmt.sections, userLabelsOf, numberedAll,
      List.count_cons]
    omega
  | @forLoop bs ss node init cond update body start test seg step d lo m₁ m₂ m₃ hi _ condCode _
      updateCode ih₁ ih₂ =>
    have top : Defines m₁ (numberedAll [.forStart] lo)
      [⟨.label (.numbered .forStart lo), d⟩] m₁ := .exact m₁ rfl
    have middle : Defines m₃ (numberedAll [.continueTo] lo)
      [⟨.label (.numbered .continueTo lo), d⟩] m₃ := .exact m₃ rfl
    have last : Defines hi (numberedAll [.forEnd, .breakTo] lo)
      (lines d [.jmp (.numbered .forStart lo), .label (.numbered .forEnd lo),
        .label (.numbered .breakTo lo)]) hi := .exact hi rfl
    have all := (((((ih₁.append top).append condCode.defines).append ih₂).append middle).append
      updateCode.defines).append last
    have distinct : [LabelKind.forStart, .continueTo, .forEnd, .breakTo].Nodup := by decide
    refine .draw (Nat.le_succ lo) (count_kinds_le distinct lo) all fun l => ?_
    cases init <;>
      simp [Piece.sections, Piece.userLabels, Stmt.sections, Stmt.sectionsOption,
        Stmt.sectionsList, userLabelsOf, userLabelsOfOption, userLabelsOfList, numberedAll,
        List.count_cons] <;>
      omega
  | @switchOn bs ss node value body ctx scrutinee seg d lo m₀ m₁ hi w table valueCode _ ih =>
    obtain ⟨rfl, entries, _⟩ := collectSwitchLabels_table table
    have push : Defines m₁ [] [⟨.push .rax, d⟩] m₁ := .exact m₁ rfl
    have dispatch := Defines.exact m₁ (labelsOf_dispatch (d + 1) w ctx lo)
    have last : Defines hi (numberedAll [.switchEnd, .breakTo] lo)
      (lines (d + 1) [.label (.numbered .switchEnd lo), .label (.numbered .breakTo lo),
        addRsp 8]) hi := .exact hi rfl
    have all := (((valueCode.defines.append push).append dispatch).append ih).append last
    have distinct : [LabelKind.switchEnd, .breakTo].Nodup := by decide
    have nodes := distinct_sections body (node ++ [1])
    have fresh (l : Label) : (numberedAll [.switchEnd, .breakTo] lo ++
        sectionLabels (ctx :: ss) (body.sections (node ++ [1]))).count l ≤
        l.room lo (lo + 1 + (body.sections (node ++ [1])).length) := by
      have kinds := count_kinds_le distinct lo l
      have sections := count_sections_le l nodes entries ss
      rw [List.count_append, ← l.room_add (Nat.le_succ lo) (Nat.le_add_right _ _)]
      exact Nat.add_le_add kinds sections
    refine .draw (by omega) fresh all fun l => ?_
    simp [Piece.sections, Piece.userLabels, Stmt.sections, userLabelsOf]
    omega
  | @caseLabel bs ctx ss node body seg d lo hi value _ ih =>
    have label : Defines lo [.numbered .switchSec (switchLookupLabel ctx node)]
      [⟨.label (.numbered .switchSec (switchLookupLabel ctx node)), d⟩] lo := .exact lo rfl
    refine (label.append ih).congr fun l => ?_
    simp [Piece.sections, Piece.userLabels, Stmt.sections, userLabelsOf, sectionLabels,
      List.count_cons]
    omega
  | @defaultLabel bs ctx ss node body seg d lo hi _ ih =>
    have label : Defines lo [.numbered .switchSec (switchLookupLabel ctx node)]
      [⟨.label (.numbered .switchSec (switchLookupLabel ctx node)), d⟩] lo := .exact lo rfl
    refine (label.append ih).congr fun l => ?_
    simp [Piece.sections, Piece.userLabels, Stmt.sections, userLabelsOf, sectionLabels,
      List.count_cons]
    omega
  | @breakOut top bs ss node d lo =>
    have none : Piece.ownLabels func ss node (.stmt .breakStmt) = [] := by cases ss <;> rfl
    exact none ▸ .exact lo rfl
  | @continueLoop bs ss node d lo =>
    have none : Piece.ownLabels func ss node (.stmt .continueStmt) = [] := by cases ss <;> rfl
    exact none ▸ .exact lo rfl
  | @goto bs ss node name d lo =>
    have none : Piece.ownLabels func ss node (.stmt (.gotoStmt name)) = [] := by cases ss <;> rfl
    exact none ▸ .exact lo rfl
  | @userLabel bs ss node name body seg d lo hi _ ih =>
    have label : Defines lo [.user func name] [⟨.label (.user func name), d⟩] lo := .exact lo rfl
    refine (label.append ih).congr fun l => ?_
    simp [Piece.sections, Piece.userLabels, Stmt.sections, userLabelsOf, List.count_cons]
    omega

end statements

section function

mutual

/-- No section belongs to a switch outside the function. -/
theorem sections_eq_nil : ∀ (s : Stmt) (loop : Option Nat) (node : List Nat),
    (∀ site ∈ s.sites loop 0, site.nested = true) → s.sections node = []
  | .caseSection _ _, _, _, h | .defaultSection _, _, _, h =>
    absurd (h (.caseAt 0) List.mem_cons_self) (by decide)
  | .labelStmt _ body, loop, _, h =>
    sections_eq_nil body loop _ fun site hs => h site (List.mem_cons_of_mem _ hs)
  | .ifStmt _ thenBody elseBody, loop, node, h => by
    have first := sections_eq_nil thenBody loop (node ++ [1])
      fun site hs => h site (List.mem_append_left _ hs)
    have second := sectionsOption_eq_nil elseBody loop (node ++ [2])
      fun site hs => h site (List.mem_append_right _ hs)
    rw [Stmt.sections, first, second, List.append_nil]
  | .whileStmt _ body, _, _, h | .doWhileStmt body _, _, _, h => sections_eq_nil body _ _ h
  | .forStmt init _ _ body, _, node, h => by
    have first := sectionsOption_eq_nil init (some 0) (node ++ [0])
      fun site hs => h site (List.mem_append_left _ hs)
    have second := sections_eq_nil body (some 0) (node ++ [3])
      fun site hs => h site (List.mem_append_right _ hs)
    rw [Stmt.sections, first, second, List.append_nil]
  | .declList stmts, loop, node, h | .block stmts, loop, node, h =>
    sectionsList_eq_nil stmts loop node 0 h
  | .switchStmt _ _, _, _, _ | .declaration _ _, _, _, _ | .returnStmt _, _, _, _
  | .breakStmt, _, _, _ | .continueStmt, _, _, _ | .gotoStmt _, _, _, _ | .exprStmt _, _, _, _
  | .typedefDecl _, _, _, _ => rfl

theorem sectionsOption_eq_nil : ∀ (s : Option Stmt) (loop : Option Nat) (node : List Nat),
    (∀ site ∈ Stmt.sitesOption loop 0 s, site.nested = true) → Stmt.sectionsOption node s = []
  | none, _, _, _ => rfl
  | some s, loop, node, h => sections_eq_nil s loop node h

theorem sectionsList_eq_nil : ∀ (ss : List Stmt) (loop : Option Nat) (node : List Nat)
    (index : Nat), (∀ site ∈ Stmt.sitesList loop 0 ss, site.nested = true) →
      Stmt.sectionsList node index ss = []
  | [], _, _, _, _ => rfl
  | s :: ss, loop, node, index, h => by
    have first := sections_eq_nil s loop (node ++ [index])
      fun site hs => h site (List.mem_append_left _ hs)
    have second := sectionsList_eq_nil ss loop node (index + 1)
      fun site hs => h site (List.mem_append_right _ hs)
    rw [Stmt.sectionsList, first, second, List.append_nil]

end

variable {f : FunctionDef} {cg cg' : CodeGen} {body : List Stmt} {setup code : List Line}
  {mid : Nat}

/-- The lines of a function. -/
def functionLines (f : FunctionDef) (cg : CodeGen) (setup code : List Line) : List Line :=
  lines 0 (prologue (frameSize cg f)) ++ setup ++ code ++ lines 0 (implicitEpilogue f)

theorem FunctionCode.nested (h : FunctionCode f cg cg' body setup code mid)
    (nested : WellNested f.body) : WellNested body := by
  unfold WellNested
  rw [h.same.sites]
  exact nested

theorem labelsOf_prologue (d stackSize : Nat) : labelsOf (lines d (prologue stackSize)) = [] :=
  rfl

theorem labelsOf_implicitEpilogue (d : Nat) (f : FunctionDef) :
    labelsOf (lines d (implicitEpilogue f)) = [] := by
  unfold implicitEpilogue
  split
  · split <;> rfl
  · rfl

/-- The labels of a function: its user labels, and numbered ones at most once. -/
theorem FunctionCode.defines (h : FunctionCode f cg cg' body setup code mid)
    (nested : WellNested f.body) : Defines cg.labelCount
      ((userLabelsOfList body).map (.user f.name)) (functionLines f cg setup code)
      cg'.labelCount := by
  have start : Defines cg.labelCount [] (lines 0 (prologue (frameSize cg f))) cg.labelCount :=
    .exact _ (labelsOf_prologue 0 _)
  have last : Defines cg'.labelCount [] (lines 0 (implicitEpilogue f)) cg'.labelCount :=
    .exact _ (labelsOf_implicitEpilogue 0 f)
  have all := ((start.append h.setupCode.defines).append h.bodyCode.defines).append last
  have none := sectionsList_eq_nil body none [] 0 (h.nested nested)
  refine all.congr fun l => ?_
  simp [Piece.sections, Piece.userLabels, none]

theorem FunctionCode.labels_nodup (h : FunctionCode f cg cg' body setup code mid)
    (nested : WellNested f.body) : (labelsOf (functionLines f cg setup code)).Nodup := by
  have defines := h.defines nested
  refine List.nodup_iff_count_le_one.mpr fun l => ?_
  have le := defines.le_own l
  cases l with
  | user func name =>
    have distinct : ((userLabelsOfList body).map (Label.user f.name)).Nodup := by
      rw [h.same.labels]
      exact h.labels.map fun a b same => by cases same; rfl
    have once := List.nodup_iff_count_le_one.mp distinct (.user func name)
    simp only [Label.room] at le
    omega
  | numbered k id =>
    have none : ((userLabelsOfList body).map (Label.user f.name)).count (.numbered k id) = 0 := by
      simp [List.count_eq_zero]
    have room := (Label.numbered k id).room_le_one cg.labelCount cg'.labelCount
    omega

end function

end ClaudeC99
