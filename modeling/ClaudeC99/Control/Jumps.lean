import ClaudeC99.Control.Routes
import ClaudeC99.Lib.Numeral
import Mathlib.Data.List.Basic

/-! The jumps of compiled functions lead where C says. -/

namespace ClaudeC99

open X86 StateExcept

section points

variable {code : List Line} {p d first : Nat} {cs : List Section} {e : SwitchLabel}

def sectionPoint (code : List Line) (label : Int) : Nat :=
  point code (.numbered .switchSec label)

/-- The sections of the innermost of the switches `ss`, and the points of their statements. -/
def sectionPoints (code : List Line) (ss : List SwitchCtx) (cs : List Section) :
    List (Option Int × Nat) :=
  cs.map fun c => (c.caseValue, sectionPoint code (switchLookupLabel (ss.headD ⟨[], -1⟩) c.node))

def userPoints (code : List Line) (func : String) (names : List String) : List (String × Nat) :=
  names.map fun name => (name, point code (.user func name))

@[simp] theorem sectionPoints_append (ss : List SwitchCtx) (cs ds : List Section) :
    sectionPoints code ss (cs ++ ds) = sectionPoints code ss cs ++ sectionPoints code ss ds :=
  List.map_append

@[simp] theorem userPoints_append (func : String) (xs ys : List String) :
    userPoints code func (xs ++ ys) = userPoints code func xs ++ userPoints code func ys :=
  List.map_append

variable (code) in
/-- The table of a switch gives each section its own point. -/
theorem sectionPoints_table {ctx : SwitchCtx} (distinct : DistinctNodes cs)
    (entries : ctx.entries = numberFrom first cs) (ss : List SwitchCtx) :
    sectionPoints code (ctx :: ss) cs =
      ctx.entries.map fun e => (e.caseValue, sectionPoint code e.label) := by
  obtain ⟨_, default⟩ := ctx
  obtain rfl := entries
  exact (map_numberFrom distinct default fun value label => (value, sectionPoint code label)).symm

variable (code) in
/-- The default label that the walk over a switch body leaves is that of the last default. -/
theorem lastDefault_cases (before : Int) (first : Nat) (cs : List Section) :
    (lastDefault before first cs = before ∧ defaultPoint
        ((numberFrom first cs).map fun e => (e.caseValue, sectionPoint code e.label)) = none) ∨
      ∃ e ∈ numberFrom first cs, lastDefault before first cs = e.label ∧ defaultPoint
        ((numberFrom first cs).map fun e => (e.caseValue, sectionPoint code e.label)) =
          some (sectionPoint code e.label) := by
  induction cs generalizing before first with
  | nil => exact .inl ⟨rfl, rfl⟩
  | cons c cs ih =>
    obtain ⟨node, value⟩ := c
    cases value with
    | some value =>
      rcases ih before (first + 1) with none | ⟨e, member, label, last⟩
      · exact .inl none
      · exact .inr ⟨e, List.mem_cons_of_mem _ member, label, last⟩
    | none =>
      right
      rcases ih first (first + 1) with ⟨label, none⟩ | ⟨e, member, label, last⟩
      · refine ⟨_, List.mem_cons_self, label, ?_⟩
        simp [numberFrom, defaultPoint, none]
      · refine ⟨e, List.mem_cons_of_mem _ member, label, ?_⟩
        simp [numberFrom, defaultPoint, last]

variable (nodup : (labelsOf code).Nodup)

include nodup

theorem jumpsIf_point {c : Cond} {l : Label} {s : List Line} (defined : l ∈ labelsOf code)
    (occurs : Occurs code p (⟨.jcc c l, d⟩ :: s)) : JumpsIf code p c (point code l) :=
  ⟨l, occurs.has, marks_point nodup defined⟩

theorem jumps_point {l : Label} {s : List Line} (defined : l ∈ labelsOf code)
    (occurs : Occurs code p (⟨.jmp l, d⟩ :: s)) : Jumps code p (point code l) :=
  ⟨l, occurs.has, marks_point nodup defined⟩

/-- The comparisons of a dispatch jump to their sections. -/
theorem dispatch_routes (w : Width) {entries : List SwitchLabel}
    (defined : ∀ e ∈ entries, .numbered .switchSec e.label ∈ labelsOf code)
    (occurs : Occurs code p (lines d (entries.flatMap (dispatchCase w)))) :
    Dispatch code p (entries.map fun e => (e.caseValue, sectionPoint code e.label))
      (p + (lines d (entries.flatMap (dispatchCase w))).length) := by
  induction entries generalizing p with
  | nil => exact .nil p
  | cons e entries ih =>
    have rest := fun e' member => defined e' (List.mem_cons_of_mem e member)
    obtain ⟨node, value, label⟩ := e
    cases value with
    | none => exact .default (ih rest occurs)
    | some value =>
      have target := defined _ List.mem_cons_self
      have compare := occurs.tail
      have jump := compare.tail
      have length : p + (lines d ((⟨node, some value, label⟩ :: entries : List SwitchLabel).flatMap
          (dispatchCase w))).length =
            p + 3 + (lines d (entries.flatMap (dispatchCase w))).length := by
        simp only [lines, List.length_map, List.flatMap_cons, dispatchCase, List.length_append,
          List.length_cons, List.length_nil]
        omega
      rw [length]
      exact .case w occurs.has compare.has (jumpsIf_point nodup target jump) (ih rest jump.tail)

/-- A dispatch ends in a jump to the default section, or behind the switch. -/
theorem otherwise_routes {ctx : SwitchCtx} {id last : Nat} {s : List Line}
    (entries : ctx.entries = numberFrom first cs)
    (default : ctx.defaultLabel = lastDefault (-1) first cs)
    (defined : ∀ e ∈ ctx.entries, .numbered .switchSec e.label ∈ labelsOf code)
    (occurs : Occurs code p (⟨switchDefault ctx id, d⟩ :: s))
    (behind : Marks code (.numbered .switchEnd id) last) :
    Jumps code p ((defaultPoint (ctx.entries.map fun e =>
      (e.caseValue, sectionPoint code e.label))).getD last) := by
  rw [entries] at defined ⊢
  unfold switchDefault at occurs
  rw [default] at occurs
  rcases lastDefault_cases code (-1) first cs with
    ⟨label, none⟩ | ⟨e, member, label, found⟩
  · rw [label, if_neg (by simp)] at occurs
    rw [none]
    exact ⟨_, occurs.has, behind⟩
  · have later := (mem_numberFrom member).2.1
    rw [label, if_pos (by omega)] at occurs
    rw [found]
    exact jumps_point nodup (defined e member) occurs

end points

section aims

variable {code : List Line} {t : Targets} {bs : List BreakFrame} {loop : Option Nat}
  {switches x y id : Nat}

theorem lines_append (d : Nat) (is js : List Asm) : lines d (is ++ js) = lines d is ++ lines d js :=
  List.map_append

theorem Has.defined {l : Label} (line : Has code x (.label l)) : l ∈ labelsOf code := by
  obtain ⟨_, line⟩ := line
  exact mem_labelsOf line

/-- `break` and `continue` lead from inside the loops and switches `bs` to the targets `t`, where
there is something to leave or to continue. -/
structure Aims (code : List Line) (t : Targets) (bs : List BreakFrame) (loop : Option Nat)
    (switches : Nat) : Prop where
  breaks : (Site.breakAt loop switches).nested = true → ∃ top rest, bs = top :: rest ∧
    .numbered .breakTo top.breakLabel ∈ labelsOf code ∧
      t.breakTo = some (point code (.numbered .breakTo top.breakLabel))
  continues : (Site.continueAt loop switches).nested = true →
    .numbered .continueTo (continueTarget bs) ∈ labelsOf code ∧
      t.continueTo = some (point code (.numbered .continueTo (continueTarget bs)))

theorem Aims.outside (bs : List BreakFrame) : Aims code t bs none 0 :=
  ⟨fun nested => by simp [Site.nested] at nested, fun nested => by simp [Site.nested] at nested⟩

theorem continueTarget_loop : continueTarget (⟨id, id⟩ :: bs) = id := by
  rw [continueTarget, List.find?_cons_of_pos (by simp)]
  rfl

theorem continueTarget_switch : continueTarget (⟨id, -1⟩ :: bs) = continueTarget bs := by
  rw [continueTarget, List.find?_cons_of_neg (by simp)]
  rfl

variable (nodup : (labelsOf code).Nodup)

include nodup

/-- A loop takes over both targets. -/
theorem Aims.inLoop (stop : Has code x (.label (.numbered .breakTo id)))
    (again : Has code y (.label (.numbered .continueTo id))) :
    Aims code ⟨some (x + 1), some (y + 1)⟩ (⟨id, id⟩ :: bs) loop switches := by
  refine ⟨fun _ => ⟨_, bs, rfl, stop.defined, ?_⟩, fun _ => ?_⟩
  · rw [point_eq nodup stop]
  · rw [continueTarget_loop, point_eq nodup again]
    exact ⟨again.defined, rfl⟩

/-- A switch takes over `break` only. -/
theorem Aims.inSwitch (outer : Aims code t bs loop switches)
    (stop : Has code x (.label (.numbered .breakTo id))) :
    Aims code ⟨some (x + 1), t.continueTo⟩ (⟨id, -1⟩ :: bs) loop (switches + 1) := by
  refine ⟨fun _ => ⟨_, bs, rfl, stop.defined, ?_⟩, fun nested => ?_⟩
  · rw [point_eq nodup stop]
  · rw [continueTarget_switch]
    exact outer.continues nested

end aims

section statements

variable {code : List Line} {users : List (String × Nat)} {t : Targets} {p q q' d lo hi : Nat}
  {piece : Piece} {cs cs' : List (Option Int × Nat)} {us us' : List (String × Nat)}
  {func : String} {labels : List String}

theorem Routes.cast (h : Routes code users t p piece q cs us) (stop : q = q') (sections : cs = cs')
    (names : us = us') : Routes code users t p piece q' cs' us' := by
  subst stop sections names
  exact h

theorem Routed.covers {α : Type} {m : Gen α} {seg : List Line} (routed : Routed code seg)
    (printed : Printed m d seg) (occurs : Occurs code p seg) :
    Covers code m p (p + seg.length) := by
  refine ⟨routed p occurs, d, ?_⟩
  rw [occurs.part]
  exact printed

theorem Compiled.covers {α : Type} {m : Gen α} {seg : List Line} (nodup : (labelsOf code).Nodup)
    (h : Compiled m d lo seg hi) (occurs : Occurs code p seg) : Covers code m p (p + seg.length) := by
  obtain ⟨cg, a, cg', run, depth, _, output, _⟩ := h.printed
  exact (h.code.routes nodup).covers ⟨cg, a, cg', run, depth, output⟩ occurs

theorem ForTest.routes {id : Nat} {cond : Option Expr} {seg : List Line} {exit : Nat}
    (nodup : (labelsOf code).Nodup) (h : ForTest d id lo cond seg hi) (occurs : Occurs code p seg)
    (leave : Marks code (.numbered .forEnd id) exit) :
    TestRoutes code exit cond p (p + seg.length) := by
  cases h with
  | none => exact .none p
  | some own =>
    obtain ⟨atTest, atLeave⟩ := occurs.split
    rw [List.length_append, ← Nat.add_assoc]
    exact .some (own.covers nodup atTest) ⟨_, atLeave.has, leave⟩

/-- Where a piece jumps and what it jumps to. -/
def Piece.sites (loop : Option Nat) (switches : Nat) : Piece → List Site
  | .stmt s => s.sites loop switches
  | .list _ ss => Stmt.sitesList loop switches ss

/-- A piece may stand inside `loop` and `switches` switches. -/
def Piece.Nested (loop : Option Nat) (switches : Nat) (piece : Piece) : Prop :=
  ∀ site ∈ piece.sites loop switches, site.nested = true

theorem sectionsOption_toList (init : Option Stmt) (node : List Nat) :
    Stmt.sectionsList node 0 init.toList = Stmt.sectionsOption (node ++ [0]) init := by
  cases init with
  | none => rfl
  | some s => exact List.append_nil _

theorem sitesOption_toList (init : Option Stmt) (loop : Option Nat) (switches : Nat) :
    Stmt.sitesList loop switches init.toList = Stmt.sitesOption loop switches init := by
  cases init with
  | none => rfl
  | some s => exact List.append_nil _

theorem userLabelsOption_toList (init : Option Stmt) :
    userLabelsOfList init.toList = userLabelsOfOption init := by
  cases init with
  | none => rfl
  | some s => exact List.append_nil _

/-- The code of a switch body defines the labels of its table. -/
theorem StmtCode.defines_sections {bs : List BreakFrame} {ss : List SwitchCtx} {ctx : SwitchCtx}
    {node : List Nat} {body : Stmt} {seg : List Line} {first : Nat} {e : SwitchLabel}
    (h : StmtCode func labels bs (ctx :: ss) d lo node (.stmt body) seg hi)
    (distinct : DistinctNodes (body.sections node))
    (entries : ctx.entries = numberFrom first (body.sections node)) (member : e ∈ ctx.entries) :
    .numbered .switchSec e.label ∈ labelsOf seg := by
  refine h.defines.mem (List.mem_append_left _ ?_)
  obtain ⟨_, default⟩ := ctx
  obtain rfl := entries
  have own : sectionLabels (⟨numberFrom first (body.sections node), default⟩ :: ss)
      (body.sections node) = _ :=
    (map_numberFrom distinct default fun _ label => Label.numbered .switchSec label).symm
  exact own ▸ List.mem_map.mpr ⟨e, member, rfl⟩

theorem sections_of_straight {s : Stmt} (straight : s.isStraight = true) (node : List Nat) :
    s.sections node = [] := by
  cases s <;> first | rfl | cases straight

theorem userLabels_of_straight {s : Stmt} (straight : s.isStraight = true) :
    userLabelsOf s = [] := by
  cases s <;> first | rfl | cases straight

theorem routed_epilogue : Routed code (lines d epilogue) :=
  .lines (by decide)

/-- Statement code routes its jumps as C says, wherever it stands in a function whose labels are
distinct. -/
theorem StmtCode.routes (nodup : (labelsOf code).Nodup)
    (users : ∀ name ∈ labels, .user func name ∈ labelsOf code) {bs : List BreakFrame}
    {ss : List SwitchCtx} {node : List Nat} {seg : List Line}
    (h : StmtCode func labels bs ss d lo node piece seg hi) :
    ∀ {p t loop switches}, Occurs code p seg → Aims code t bs loop switches →
      piece.Nested loop switches → Routes code (userPoints code func labels) t p piece
        (p + seg.length) (sectionPoints code ss (piece.sections node))
        (userPoints code func piece.userLabels) := by
  induction h with
  | straight straight own printed =>
    intro p t loop switches occurs aims nested
    have run := (own.routes nodup).covers printed occurs
    refine (Routes.straight straight run).cast rfl ?_ ?_
    · rw [Piece.sections, sections_of_straight straight]
      rfl
    · rw [Piece.userLabels, userLabels_of_straight straight]
      rfl
  | returns own printed =>
    intro p t loop switches occurs aims nested
    exact .returns (((own.routes nodup).append routed_epilogue).covers printed occurs)
  | declList _ ih =>
    intro p t loop switches occurs aims nested
    exact .declList (ih occurs aims nested)
  | block _ ih =>
    intro p t loop switches occurs aims nested
    exact .block (ih occurs aims nested)
  | nil =>
    intro p t loop switches occurs aims nested
    exact .nil
  | cons _ _ ih₁ ih₂ =>
    intro p t loop switches occurs aims nested
    obtain ⟨atHead, atTail⟩ := occurs.split
    have head := ih₁ atHead aims fun site member => nested site (List.mem_append_left _ member)
    have tail := ih₂ atTail aims fun site member => nested site (List.mem_append_right _ member)
    refine (Routes.cons head tail).cast ?_ ?_ ?_
    · rw [List.length_append, Nat.add_assoc]
    · exact (sectionPoints_append _ _ _).symm
    · exact (userPoints_append _ _ _).symm
  | @ifThen bs ss node cond thenBody test seg d lo m₁ hi condCode _ ih =>
    intro p t loop switches occurs aims nested
    simp only [List.append_assoc] at occurs
    obtain ⟨atTest, occurs⟩ := occurs.split
    obtain ⟨atSkip, occurs⟩ := occurs.split
    obtain ⟨atThen, atEnd⟩ := occurs.split
    have thenCode := ih atThen aims fun site member => nested site (List.mem_append_left _ member)
    refine (Routes.ifThen (condCode.covers nodup atTest) ⟨_, atSkip.has, atEnd.marks nodup⟩ thenCode
      atEnd.has).cast ?_ ?_ ?_
    · simp only [List.length_append, List.length_singleton]
      omega
    · simp [Piece.sections, Stmt.sections, Stmt.sectionsOption]
    · simp [Piece.userLabels, userLabelsOf, userLabelsOfOption]
  | @ifElse bs ss node cond thenBody elseBody test first second d lo m₁ m₂ hi condCode _ _ ih₁
      ih₂ =>
    intro p t loop switches occurs aims nested
    simp only [List.append_assoc] at occurs
    obtain ⟨atTest, occurs⟩ := occurs.split
    obtain ⟨atSkip, occurs⟩ := occurs.split
    obtain ⟨atThen, occurs⟩ := occurs.split
    obtain ⟨atJoin, occurs⟩ := occurs.split
    obtain ⟨atElse, atEnd⟩ := occurs.split
    have thenCode := ih₁ atThen aims fun site member => nested site (List.mem_append_left _ member)
    have elseCode := ih₂ atElse aims fun site member => nested site (List.mem_append_right _ member)
    refine (Routes.ifElse (condCode.covers nodup atTest)
      ⟨_, atSkip.has, atJoin.tail.marks nodup⟩ thenCode ⟨_, atJoin.has, atEnd.marks nodup⟩
      atJoin.tail.has elseCode atEnd.has).cast ?_ ?_ ?_
    · simp only [lines, List.length_append, List.length_map, List.length_cons, List.length_nil]
      omega
    · simp [Piece.sections, Stmt.sections, Stmt.sectionsOption]
    · simp [Piece.userLabels, userLabelsOf, userLabelsOfOption]
  | @whileLoop bs ss node cond body test seg d lo m₁ hi condCode _ ih =>
    intro p t loop switches occurs aims nested
    simp only [List.append_assoc] at occurs
    obtain ⟨atTop, occurs⟩ := occurs.split
    obtain ⟨atTest, occurs⟩ := occurs.split
    obtain ⟨atLeave, occurs⟩ := occurs.split
    obtain ⟨atBody, atEnd⟩ := occurs.split
    have bodyCode := ih atBody (.inLoop nodup atEnd.tail.tail.has atTop.tail.has) nested
    refine (Routes.whileLoop atTop.has atTop.tail.has (condCode.covers nodup atTest)
      ⟨_, atLeave.has, atEnd.tail.marks_two nodup⟩ bodyCode ⟨_, atEnd.has, atTop.marks_two nodup⟩
      atEnd.tail.has atEnd.tail.tail.has).cast ?_ ?_ ?_
    · simp only [lines, List.length_append, List.length_map, List.length_cons, List.length_nil]
      omega
    · rfl
    · rfl
  | @doLoop bs ss node cond body seg test d lo m₁ hi _ condCode ih =>
    intro p t loop switches occurs aims nested
    simp only [List.append_assoc] at occurs
    obtain ⟨atTop, occurs⟩ := occurs.split
    obtain ⟨atBody, occurs⟩ := occurs.split
    obtain ⟨atContinue, occurs⟩ := occurs.split
    obtain ⟨atTest, atEnd⟩ := occurs.split
    have bodyCode := ih atBody (.inLoop nodup atEnd.tail.tail.has atContinue.has) nested
    refine (Routes.doLoop atTop.has bodyCode atContinue.has (condCode.covers nodup atTest)
      ⟨_, atEnd.has, atTop.marks nodup⟩ atEnd.tail.has atEnd.tail.tail.has).cast ?_ ?_ ?_
    · simp only [lines, List.length_append, List.length_map, List.length_cons, List.length_nil]
      omega
    · rfl
    · rfl
  | @forLoop bs ss node init cond update body start test seg step d lo m₁ m₂ m₃ hi _ condCode _
      updateCode ih₁ ih₂ =>
    intro p t loop switches occurs aims nested
    simp only [List.append_assoc] at occurs
    obtain ⟨atInit, occurs⟩ := occurs.split
    obtain ⟨atTop, occurs⟩ := occurs.split
    obtain ⟨atTest, occurs⟩ := occurs.split
    obtain ⟨atBody, occurs⟩ := occurs.split
    obtain ⟨atContinue, occurs⟩ := occurs.split
    obtain ⟨atUpdate, atEnd⟩ := occurs.split
    have inside {loop : Option Nat} {switches : Nat} :
        Aims code ⟨some _, some _⟩ (⟨_, _⟩ :: bs) loop switches :=
      .inLoop nodup atEnd.tail.tail.has atContinue.has
    have initCode := ih₁ atInit inside fun site member => nested site
      (List.mem_append_left _ (sitesOption_toList init _ _ ▸ member))
    have bodyCode := ih₂ atBody inside fun site member => nested site
      (List.mem_append_right _ member)
    have leave := atEnd.tail.marks_two nodup
    refine (Routes.forLoop initCode atTop.has (condCode.routes nodup atTest leave) bodyCode
      atContinue.has (updateCode.covers nodup atUpdate) ⟨_, atEnd.has, atTop.marks nodup⟩
      atEnd.tail.has atEnd.tail.tail.has).cast ?_ ?_ ?_
    · simp only [lines, List.length_append, List.length_map, List.length_cons, List.length_nil]
      omega
    · change sectionPoints code ss (Stmt.sectionsList node 0 init.toList) ++ _ = _
      rw [sectionsOption_toList]
      exact (sectionPoints_append _ _ _).symm
    · change userPoints code func (userLabelsOfList init.toList) ++ _ = _
      rw [userLabelsOption_toList]
      exact (userPoints_append _ _ _).symm
  | @switchOn bs ss node value body ctx scrutinee seg d lo m₀ m₁ hi w table valueCode own ih =>
    intro p t loop switches occurs aims nested
    obtain ⟨-, entries, default⟩ := collectSwitchLabels_table table
    have distinct := distinct_sections body (node ++ [1])
    have points := sectionPoints_table code distinct entries ss
    simp only [List.append_assoc, lines_append] at occurs
    obtain ⟨atValue, occurs⟩ := occurs.split
    obtain ⟨atPush, occurs⟩ := occurs.split
    obtain ⟨atCases, occurs⟩ := occurs.split
    obtain ⟨atOtherwise, occurs⟩ := occurs.split
    obtain ⟨atBody, atEnd⟩ := occurs.split
    have defined : ∀ e ∈ ctx.entries, .numbered .switchSec e.label ∈ labelsOf code :=
      fun e member => atBody.labels _ (own.defines_sections distinct entries member)
    have bodyCode := ih atBody (aims.inSwitch nodup atEnd.tail.has) nested
    have otherwise := otherwise_routes nodup entries default defined atOtherwise
      (atEnd.marks_two nodup)
    rw [Piece.sections, points] at bodyCode
    refine (Routes.switchOn (valueCode.covers nodup atValue) atPush.has
      (dispatch_routes nodup w defined atCases) otherwise bodyCode atEnd.has atEnd.tail.has
      atEnd.tail.tail.has).cast ?_ ?_ ?_
    · simp only [lines, List.length_append, List.length_map, List.length_cons, List.length_nil]
      omega
    · rfl
    · rfl
  | caseLabel value _ ih => 
    intro p t loop switches occurs aims nested
    obtain ⟨atLabel, atBody⟩ := occurs.split
    have run := ih atBody aims fun site member => nested site (List.mem_cons_of_mem _ member)
    refine (Routes.caseLabel atLabel.has run).cast ?_ ?_ ?_
    · simp only [List.length_append, List.length_singleton]
      omega
    · simp [Piece.sections, Stmt.sections, sectionPoints, sectionPoint, point_eq nodup atLabel.has]
    · rfl
  | defaultLabel _ ih =>
    intro p t loop switches occurs aims nested
    obtain ⟨atLabel, atBody⟩ := occurs.split
    have run := ih atBody aims fun site member => nested site (List.mem_cons_of_mem _ member)
    refine (Routes.defaultLabel atLabel.has run).cast ?_ ?_ ?_
    · simp only [List.length_append, List.length_singleton]
      omega
    · simp [Piece.sections, Stmt.sections, sectionPoints, sectionPoint, point_eq nodup atLabel.has]
    · rfl
  | breakOut =>
    intro p t loop switches occurs aims nested
    obtain ⟨top, rest, same, defined, target⟩ := aims.breaks (nested _ List.mem_cons_self)
    cases same
    exact .breakOut target (jumps_point nodup defined occurs)
  | continueLoop =>
    intro p t loop switches occurs aims nested
    obtain ⟨defined, target⟩ := aims.continues (nested _ List.mem_cons_self)
    exact .continueLoop target (jumps_point nodup defined occurs)
  | goto known =>
    intro p t loop switches occurs aims nested
    exact .goto (List.mem_map.mpr ⟨_, known, rfl⟩) (jumps_point nodup (users _ known) occurs)
  | userLabel _ ih =>
    intro p t loop switches occurs aims nested
    obtain ⟨atLabel, atBody⟩ := occurs.split
    have run := ih atBody aims fun site member => nested site (List.mem_cons_of_mem _ member)
    refine (Routes.userLabel atLabel.has run).cast ?_ ?_ ?_
    · simp only [List.length_append, List.length_singleton]
      omega
    · rfl
    · simp [Piece.userLabels, userLabelsOf, userPoints, point_eq nodup atLabel.has]

end statements

section texts

/-- The last occurrence of a separator splits a list in one way only. -/
theorem append_separator_inj {α : Type} [DecidableEq α] {a : α} {xs ys xs' ys' : List α}
    (first : a ∉ ys) (second : a ∉ ys') (same : xs ++ a :: ys = xs' ++ a :: ys') :
    xs = xs' ∧ ys = ys' := by
  have before (xs ys : List α) (absent : a ∉ ys) :
      ((xs ++ a :: ys).reverse.takeWhile (· ≠ a)).reverse = ys := by
    have others : ∀ b ∈ ys.reverse, decide (b ≠ a) = true := by
      intro b member
      simpa using fun eq : b = a => absent (eq ▸ List.mem_reverse.mp member)
    rw [List.reverse_append, List.reverse_cons, List.append_assoc,
      List.takeWhile_append_of_pos others, List.singleton_append,
      List.takeWhile_cons_of_neg (by simp), List.append_nil, List.reverse_reverse]
  obtain rfl : ys = ys' := by
    rw [← before xs ys first, same, before xs' ys' second]
  exact ⟨List.append_cancel_right same, rfl⟩

def LabelKind.all : List LabelKind :=
  [.elseBranch, .endIf, .whileStart, .whileEnd, .doStart, .doEnd, .forStart, .forEnd, .continueTo,
    .breakTo, .switchEnd, .switchSec, .andFalse, .andEnd, .orTrue, .orEnd, .condFalse, .condEnd,
    .vaArgOvf, .vaArgLoad, .vaArgDone]

theorem LabelKind.text_injective : Function.Injective LabelKind.text := by
  have found : ∀ k : LabelKind, LabelKind.all.find? (fun j => j.text = k.text) = some k := by
    intro k
    cases k <;> decide
  intro k j same
  have kinds := found k
  rw [same, found j] at kinds
  exact (Option.some.inj kinds).symm

/-- No numbered label starts like a user label. -/
theorem LabelKind.text_not_user (k : LabelKind) (rest after : List Char) :
    k.text.toList ++ rest ≠ "usr_".toList ++ after := by
  intro same
  have first := congrArg List.head? same
  cases k <;> cases first

/-- A label that the function may use. -/
def Label.Within (func : String) : Label → Prop
  | .numbered _ _ => True
  | .user f _ => f = func

theorem Label.numbered_text (k : LabelKind) (i : Int) : (Label.numbered k i).text.toList =
    ".L_".toList ++ (k.text.toList ++ '_' :: (toString i).toList) := by
  simp only [text, String.toList_append, List.append_assoc]
  rfl

theorem Label.user_text (func name : String) : (Label.user func name).text.toList =
    ".L_".toList ++ ("usr_".toList ++ (func.toList ++ '_' :: name.toList)) := by
  simp only [text, String.toList_append, List.append_assoc]
  rfl

theorem Label.text_inj {func : String} {l m : Label} (first : l.Within func) (second : m.Within func)
    (same : l.text = m.text) : l = m := by
  have chars := congrArg String.toList same
  cases l with
  | numbered k i =>
    cases m with
    | numbered k' j =>
      rw [numbered_text, numbered_text, List.append_cancel_left_eq] at chars
      obtain ⟨kinds, ids⟩ := append_separator_inj (Numeral.underscore_notMem_int i)
        (Numeral.underscore_notMem_int j) chars
      rw [LabelKind.text_injective (String.toList_injective kinds),
        Int.repr_injective (String.toList_injective ids)]
    | user f name =>
      rw [numbered_text, user_text, List.append_cancel_left_eq] at chars
      exact absurd chars (k.text_not_user _ _)
  | user f name =>
    cases m with
    | numbered k j =>
      rw [numbered_text, user_text, List.append_cancel_left_eq] at chars
      exact absurd chars.symm (k.text_not_user _ _)
    | user f' name' =>
      obtain rfl := first
      obtain rfl := second
      simp only [text, String.toList_append, List.append_cancel_left_eq] at chars
      rw [String.toList_injective chars]

end texts

section function

variable {f : FunctionDef} {cg cg' : CodeGen} {body : List Stmt} {setup code : List Line}
  {mid : Nat}

theorem FunctionCode.labels_within (h : FunctionCode f cg cg' body setup code mid)
    (nested : WellNested f.body) : ∀ l ∈ labelsOf (functionLines f cg setup code), l.Within f.name := by
  intro l member
  cases l with
  | numbered k id => exact trivial
  | user func name =>
    have le := (h.defines nested).le_own (.user func name)
    have positive := List.count_pos_iff.mpr member
    simp only [Label.room] at le
    have own : 0 < ((userLabelsOfList body).map (Label.user f.name)).count (.user func name) := by
      omega
    obtain ⟨_, _, same⟩ := List.mem_map.mp (List.count_pos_iff.mp own)
    cases same
    rfl

/-- No two labels of a function have one text. -/
theorem FunctionCode.texts_nodup (h : FunctionCode f cg cg' body setup code mid)
    (nested : WellNested f.body) :
    ((labelsOf (functionLines f cg setup code)).map Label.text).Nodup :=
  (h.labels_nodup nested).map_on fun l first m second same =>
    Label.text_inj (h.labels_within nested l first) (h.labels_within nested m second) same

theorem routed_prologue {code : List Line} {d n : Nat} : Routed code (lines d (prologue n)) :=
  .lines (by simp [prologue, subRsp, aluImm, movReg, isControl])

theorem routed_implicitEpilogue {code : List Line} {d : Nat} (f : FunctionDef) :
    Routed code (lines d (implicitEpilogue f)) := by
  unfold implicitEpilogue
  split
  · split
    · rw [lines_append]
      exact .append (.line rfl) routed_epilogue
    · exact routed_epilogue
  · exact fun p _ => .nil p

/-- The jumps of a compiled function: those of the prologue and the epilogue stay inside, and those
of the body, with its literals placed, lead where C says. -/
theorem jumps_designated {x : Unit} (nested : WellNested f.body)
    (run : Yields (codegenFunction f) cg x cg') :
    ∃ body code users p q, (∃ before after, Yields (scanStmts f.body) before body after) ∧
      cg'.output = cg.output ++ code ∧ ((labelsOf code).map Label.text).Nodup ∧
      (users.map Prod.fst).Nodup ∧ ExprRoutes code 0 p ∧
      Routes code users ⟨none, none⟩ p (.list 0 body) q [] users ∧
      ExprRoutes code q code.length := by
  obtain ⟨body, setup, code, mid, compiled⟩ := functionCode run
  have nodup := compiled.labels_nodup nested
  have whole : Occurs (functionLines f cg setup code) 0 (functionLines f cg setup code) :=
    List.prefix_rfl
  obtain ⟨atStart, atLast⟩ := whole.split
  obtain ⟨atSetup, atBody⟩ := atStart.split
  have start := (routed_prologue.append (compiled.setupCode.routes nodup)) 0 atSetup
  have last := routed_implicitEpilogue f _ atLast
  have users : ∀ name ∈ userLabelsOfList f.body,
      .user f.name name ∈ labelsOf (functionLines f cg setup code) := by
    intro name member
    refine (compiled.defines nested).mem (List.mem_map.mpr ⟨name, ?_, rfl⟩)
    rwa [compiled.same.labels]
  have aims : Aims (functionLines f cg setup code) ⟨none, none⟩ cg.breakStack none 0 := .outside _
  have middle := compiled.bodyCode.routes nodup users atBody aims (compiled.nested nested)
  refine ⟨body, functionLines f cg setup code,
    userPoints (functionLines f cg setup code) f.name (userLabelsOfList f.body), _, _,
    compiled.scanned, compiled.output, compiled.texts_nodup nested, ?_, start, middle.cast rfl ?_ ?_,
    ?_⟩
  · rw [userPoints, List.map_map]
    exact (List.map_id' _).symm ▸ compiled.labels
  · rw [Piece.sections, sectionsList_eq_nil body none [] 0 (compiled.nested nested)]
    rfl
  · rw [Piece.userLabels, compiled.same.labels]
  · have length : (functionLines f cg setup code).length =
        0 + (lines 0 (prologue (frameSize cg f)) ++ setup ++ code).length +
          (lines 0 (implicitEpilogue f)).length := by
      rw [functionLines, List.length_append, Nat.zero_add]
    rw [length]
    have before : 0 + (lines 0 (prologue (frameSize cg f)) ++ setup).length + code.length =
        0 + (lines 0 (prologue (frameSize cg f)) ++ setup ++ code).length := by
      rw [Nat.add_assoc, ← List.length_append]
    rw [before]
    exact last

end function

/-- `void f() { again: for (;;) switch (5) { case 5: continue; default: break; } goto again; }` -/
def retries : FunctionDef where
  name := "f"
  declType := .void
  fullType := none
  params := []
  isVariadic := false
  isNoPrototype := false
  storage := .none
  body := [.labelStmt "again" (.forStmt none none none (.switchStmt (.intLiteral (.dec 5) .int false)
    (.block [.caseSection 5 .continueStmt, .defaultSection .breakStmt]))), .gotoStmt "again"]

theorem retries_designated : ∃ cg' body code users p q,
    Yields (codegenFunction retries) (codegenInit [] fun _ => []) () cg' ∧
      cg'.output = code ∧ Routes code users ⟨none, none⟩ p (.list 0 body) q [] users := by
  obtain ⟨⟨⟩, cg', run⟩ : ∃ a cg', Yields (codegenFunction retries) (codegenInit [] fun _ => []) a
    cg' := exists_yields (by decide +kernel)
  obtain ⟨body, code, users, p, q, -, output, -, -, -, routes, -⟩ :=
    jumps_designated (by decide +kernel) run
  exact ⟨cg', body, code, users, p, q, run, output, routes⟩

end ClaudeC99
