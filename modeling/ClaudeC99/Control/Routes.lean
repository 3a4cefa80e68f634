import ClaudeC99.Control.Labels

/-! Where the jumps of a function lead, against the points that C designates. -/

namespace ClaudeC99

open X86 StateExcept

/-- Line `p` of `code` holds `i`. -/
def Has (code : List Line) (p : Nat) (i : Asm) : Prop := ∃ d, code[p]? = some ⟨i, d⟩

/-- `l` is defined exactly once in `code`, and only labels stand between it and line `x`. -/
structure Marks (code : List Line) (l : Label) (x : Nat) : Prop where
  leads : ∃ y < x, Has code y (.label l) ∧ ∀ z, y < z → z < x → ∃ k, Has code z (.label k)
  once : ∀ y z, Has code y (.label l) → Has code z (.label l) → y = z

/-- Line `p` jumps to line `x`. -/
def Jumps (code : List Line) (p x : Nat) : Prop := ∃ l, Has code p (.jmp l) ∧ Marks code l x

def JumpsIf (code : List Line) (p : Nat) (c : Cond) (x : Nat) : Prop :=
  ∃ l, Has code p (.jcc c l) ∧ Marks code l x

def isControl : Asm → Bool
  | .jmp _ | .jcc _ _ | .label _ => true
  | _ => false

def part (code : List Line) (p q : Nat) : List Line := (code.drop p).take (q - p)

/-- `ExprRoutes code p q`: from line `p` up to line `q`, all jumps are those of branching operators:
each skips the code of one of its operands. -/
inductive ExprRoutes (code : List Line) : Nat → Nat → Prop
  | nil (p) : ExprRoutes code p p
  | plain {p q i} (before : ExprRoutes code p q) (line : Has code q i)
      (straight : isControl i = false) : ExprRoutes code p (q + 1)
  | branch {p q t m n d c k₁ k₂} {l₁ l₂ : Label} (before : ExprRoutes code p q)
      (test : ExprRoutes code q t) (skip : JumpsIf code t c (m + 2))
      (first : ExprRoutes code (t + 1) m) (join : Jumps code m (n + 1))
      (label₁ : Has code (m + 1) (.label l₁)) (second : ExprRoutes code (m + 2) n)
      (label₂ : Has code n (.label l₂))
      (op : Branching d c k₁ k₂ (part code q t) (part code (t + 1) m) (part code (m + 2) n)) :
      ExprRoutes code p (n + 1)

/-- Lines `p` up to `q` are what `m` prints, and all their jumps are those of branching operators. -/
structure Covers {α : Type} (code : List Line) (m : Gen α) (p q : Nat) : Prop where
  routes : ExprRoutes code p q
  printed : ∃ d, Printed m d (part code p q)

/-- Where `break` and `continue` lead. -/
structure Targets where
  breakTo : Option Nat
  continueTo : Option Nat

/-- The point of the last `default` among the sections of a switch. -/
def defaultPoint : List (Option Int × Nat) → Option Nat
  | [] => none
  | (none, x) :: cs => (defaultPoint cs).or (some x)
  | (some _, _) :: cs => defaultPoint cs

/-- From line `p` up to line `q`, one comparison for each `case`, in order, with a jump to it. -/
inductive Dispatch (code : List Line) : Nat → List (Option Int × Nat) → Nat → Prop
  | nil (p) : Dispatch code p [] p
  | case {p value x cs q} (w : Width) (load : Has code p (movMem w .rax (stackArg 0)))
      (compare : Has code (p + 1) (aluImm .cmp w .rax value))
      (jump : JumpsIf code (p + 2) .e x) (rest : Dispatch code (p + 3) cs q) :
      Dispatch code p ((some value, x) :: cs) q
  | default {p x cs q} (rest : Dispatch code p cs q) : Dispatch code p ((none, x) :: cs) q

/-- The test of a `for` loop, when it has one. -/
inductive TestRoutes (code : List Line) (exit : Nat) : Option Expr → Nat → Nat → Prop
  | none (p) : TestRoutes code exit none p p
  | some {p q} {cond : Expr} (test : Covers code (genCondition (codegen cond)) p q)
      (leave : JumpsIf code q .e exit) :
      TestRoutes code exit (some cond) p (q + 1)

/-- `Routes code users t p piece q cs us`: lines `p` up to `q` of `code` are those of the piece, and
all their jumps lead where C says. `users` are the labeled statements of the function and `us` those
of the piece; `cs` are the sections of the piece that belong to the switch around it. -/
inductive Routes (code : List Line) (users : List (String × Nat)) :
    Targets → Nat → Piece → Nat → List (Option Int × Nat) → List (String × Nat) → Prop
  | straight {t p s q node} (straight : s.isStraight = true)
      (run : Covers code (codegenStatement node s) p q) : Routes code users t p (.stmt s) q [] []
  | returns {t p value q node} (run : Covers code (codegenStatement node (.returnStmt value)) p q) :
      Routes code users t p (.stmt (.returnStmt value)) q [] []
  | declList {t p decls q cs us} (run : Routes code users t p (.list 0 decls) q cs us) :
      Routes code users t p (.stmt (.declList decls)) q cs us
  | block {t p stmts q cs us} (run : Routes code users t p (.list 0 stmts) q cs us) :
      Routes code users t p (.stmt (.block stmts)) q cs us
  | nil {t p index} : Routes code users t p (.list index []) p [] []
  | cons {t p index s ss m q cs₁ us₁ cs₂ us₂} (head : Routes code users t p (.stmt s) m cs₁ us₁)
      (tail : Routes code users t m (.list (index + 1) ss) q cs₂ us₂) :
      Routes code users t p (.list index (s :: ss)) q (cs₁ ++ cs₂) (us₁ ++ us₂)
  | ifThen {t p cond thenBody m n l cs us} (test : Covers code (genCondition (codegen cond)) p m)
      (skip : JumpsIf code m .e (n + 1))
      (thenCode : Routes code users t (m + 1) (.stmt thenBody) n cs us)
      (label : Has code n (.label l)) :
      Routes code users t p (.stmt (.ifStmt cond thenBody none)) (n + 1) cs us
  | ifElse {t p cond thenBody elseBody a m n l₁ l₂ cs₁ us₁ cs₂ us₂}
      (test : Covers code (genCondition (codegen cond)) p a)
      (skip : JumpsIf code a .e (m + 2))
      (thenCode : Routes code users t (a + 1) (.stmt thenBody) m cs₁ us₁)
      (join : Jumps code m (n + 1)) (label₁ : Has code (m + 1) (.label l₁))
      (elseCode : Routes code users t (m + 2) (.stmt elseBody) n cs₂ us₂)
      (label₂ : Has code n (.label l₂)) :
      Routes code users t p (.stmt (.ifStmt cond thenBody (some elseBody))) (n + 1) (cs₁ ++ cs₂)
        (us₁ ++ us₂)
  | whileLoop {t p cond body m n l₁ l₂ l₃ l₄ cs us} (label₁ : Has code p (.label l₁))
      (label₂ : Has code (p + 1) (.label l₂))
      (test : Covers code (genCondition (codegen cond)) (p + 2) m)
      (leave : JumpsIf code m .e (n + 3))
      (bodyCode : Routes code users ⟨some (n + 3), some (p + 2)⟩ (m + 1) (.stmt body) n cs us)
      (again : Jumps code n (p + 2)) (label₃ : Has code (n + 1) (.label l₃))
      (label₄ : Has code (n + 2) (.label l₄)) :
      Routes code users t p (.stmt (.whileStmt cond body)) (n + 3) cs us
  | doLoop {t p cond body m n l₁ l₂ l₃ l₄ cs us} (label₁ : Has code p (.label l₁))
      (bodyCode : Routes code users ⟨some (n + 3), some (m + 1)⟩ (p + 1) (.stmt body) m cs us)
      (label₂ : Has code m (.label l₂))
      (test : Covers code (genCondition (codegen cond)) (m + 1) n)
      (again : JumpsIf code n .ne (p + 1)) (label₃ : Has code (n + 1) (.label l₃))
      (label₄ : Has code (n + 2) (.label l₄)) :
      Routes code users t p (.stmt (.doWhileStmt body cond)) (n + 3) cs us
  | forLoop {t p init cond update body a b m n l₁ l₂ l₃ l₄ cs₁ us₁ cs₂ us₂}
      (initCode : Routes code users ⟨some (n + 3), some (m + 1)⟩ p (.list 0 init.toList) a cs₁ us₁)
      (label₁ : Has code a (.label l₁)) (test : TestRoutes code (n + 3) cond (a + 1) b)
      (bodyCode : Routes code users ⟨some (n + 3), some (m + 1)⟩ b (.stmt body) m cs₂ us₂)
      (label₂ : Has code m (.label l₂))
      (updateCode : Covers code (genForUpdate (update.map codegen)) (m + 1) n)
      (again : Jumps code n (a + 1)) (label₃ : Has code (n + 1) (.label l₃))
      (label₄ : Has code (n + 2) (.label l₄)) :
      Routes code users t p (.stmt (.forStmt init cond update body)) (n + 3) (cs₁ ++ cs₂)
        (us₁ ++ us₂)
  | switchOn {t p value body a b n l₁ l₂ cs us}
      (scrutinee : Covers code (codegen value).codegenExpression p a)
      (push : Has code a (.push .rax)) (dispatch : Dispatch code (a + 1) cs b)
      (otherwise : Jumps code b ((defaultPoint cs).getD (n + 2)))
      (bodyCode : Routes code users ⟨some (n + 2), t.continueTo⟩ (b + 1) (.stmt body) n cs us)
      (label₁ : Has code n (.label l₁)) (label₂ : Has code (n + 1) (.label l₂))
      (drop : Has code (n + 2) (addRsp 8)) :
      Routes code users t p (.stmt (.switchStmt value body)) (n + 3) [] us
  | caseLabel {t p value body q l cs us} (label : Has code p (.label l))
      (run : Routes code users t (p + 1) (.stmt body) q cs us) :
      Routes code users t p (.stmt (.caseSection value body)) q ((some value, p + 1) :: cs) us
  | defaultLabel {t p body q l cs us} (label : Has code p (.label l))
      (run : Routes code users t (p + 1) (.stmt body) q cs us) :
      Routes code users t p (.stmt (.defaultSection body)) q ((none, p + 1) :: cs) us
  | breakOut {t p x} (target : t.breakTo = some x) (jump : Jumps code p x) :
      Routes code users t p (.stmt .breakStmt) (p + 1) [] []
  | continueLoop {t p x} (target : t.continueTo = some x) (jump : Jumps code p x) :
      Routes code users t p (.stmt .continueStmt) (p + 1) [] []
  | goto {t p name x} (target : (name, x) ∈ users) (jump : Jumps code p x) :
      Routes code users t p (.stmt (.gotoStmt name)) (p + 1) [] []
  | userLabel {t p name body q l cs us} (label : Has code p (.label l))
      (run : Routes code users t (p + 1) (.stmt body) q cs us) :
      Routes code users t p (.stmt (.labelStmt name body)) q cs ((name, p + 1) :: us)

section positions

variable {code : List Line} {p q x d : Nat} {s t : List Line} {l : Label} {i : Asm}

/-- `seg` stands in `code` from line `p` on. -/
def Occurs (code : List Line) (p : Nat) (seg : List Line) : Prop := seg <+: code.drop p

theorem Occurs.split (h : Occurs code p (s ++ t)) :
    Occurs code p s ∧ Occurs code (p + s.length) t := by
  obtain ⟨rest, hrest⟩ := h
  refine ⟨⟨t ++ rest, by rw [← hrest, List.append_assoc]⟩, ⟨rest, ?_⟩⟩
  rw [← List.drop_drop, ← hrest, List.append_assoc, List.drop_left]

theorem Occurs.has (h : Occurs code p (⟨i, d⟩ :: s)) : Has code p i := by
  obtain ⟨rest, hrest⟩ := h
  refine ⟨d, ?_⟩
  have first := congrArg (·[0]?) hrest
  simpa using first.symm

theorem Occurs.tail (h : Occurs code p (⟨i, d⟩ :: s)) : Occurs code (p + 1) s :=
  (Occurs.split (s := [⟨i, d⟩]) h).2

theorem Occurs.part (h : Occurs code p s) : part code p (p + s.length) = s := by
  obtain ⟨rest, hrest⟩ := h
  rw [ClaudeC99.part, ← hrest, Nat.add_sub_cancel_left, List.take_left]

theorem Occurs.labels (h : Occurs code p s) : ∀ l ∈ labelsOf s, l ∈ labelsOf code := by
  obtain ⟨rest, hrest⟩ := h
  intro l hl
  obtain ⟨line, hline, own⟩ := List.mem_filterMap.mp hl
  have mem : line ∈ code.drop p := hrest ▸ List.mem_append_left rest hline
  exact List.mem_filterMap.mpr ⟨line, List.mem_of_mem_drop mem, own⟩

theorem mem_labelsOf {n : Nat} (h : code[n]? = some ⟨.label l, d⟩) : l ∈ labelsOf code :=
  List.mem_filterMap.mpr ⟨_, List.mem_of_getElem? h, rfl⟩

theorem once_of_nodup (nodup : (labelsOf code).Nodup) {y z : Nat} (hy : Has code y (.label l))
    (hz : Has code z (.label l)) : y = z := by
  have apart {y z : Nat} (lt : y < z) (hy : Has code y (.label l))
      (hz : Has code z (.label l)) : False := by
    obtain ⟨d, hd⟩ := hy
    obtain ⟨e, he⟩ := hz
    rw [← List.take_append_drop z code, labelsOf_append] at nodup
    have first : l ∈ labelsOf (code.take z) :=
      mem_labelsOf (n := y) (d := d) (by rw [List.getElem?_take_of_lt lt, hd])
    have second : l ∈ labelsOf (code.drop z) :=
      mem_labelsOf (n := 0) (d := e) (by rw [List.getElem?_drop, Nat.add_zero, he])
    exact (List.nodup_append.mp nodup).2.2 l first l second rfl
  rcases Nat.lt_trichotomy y z with lt | rfl | lt
  · exact absurd (apart lt hy hz) id
  · rfl
  · exact absurd (apart lt hz hy) id

theorem Occurs.marks (nodup : (labelsOf code).Nodup) (h : Occurs code p (⟨.label l, d⟩ :: s)) :
    Marks code l (p + 1) :=
  ⟨⟨p, Nat.lt_succ_self p, h.has, fun z _ _ => by omega⟩, fun _ _ => once_of_nodup nodup⟩

/-- The first of two labels marks the line after both. -/
theorem Occurs.marks_two {k : Label} (nodup : (labelsOf code).Nodup)
    (h : Occurs code p (⟨.label l, d⟩ :: ⟨.label k, d⟩ :: s)) : Marks code l (p + 2) := by
  refine ⟨⟨p, by omega, h.has, fun z lo hi => ⟨k, ?_⟩⟩, fun _ _ => once_of_nodup nodup⟩
  obtain rfl : z = p + 1 := by omega
  exact h.tail.has

/-- The line after a label. -/
def point (code : List Line) (l : Label) : Nat := (code.map labelOf).idxOf (some l) + 1

theorem has_label (h : (code.map labelOf)[p]? = some (some l)) : Has code p (.label l) := by
  rw [List.getElem?_map] at h
  obtain ⟨⟨i, d⟩, hline, own⟩ := Option.map_eq_some_iff.mp h
  refine ⟨d, ?_⟩
  rw [hline]
  cases i <;> first | (cases own; rfl) | cases own

theorem marks_point (nodup : (labelsOf code).Nodup) (hl : l ∈ labelsOf code) :
    Marks code l (point code l) := by
  have mem : some l ∈ code.map labelOf := by
    obtain ⟨line, hline, own⟩ := List.mem_filterMap.mp hl
    exact List.mem_map.mpr ⟨line, hline, own⟩
  have line : Has code ((code.map labelOf).idxOf (some l)) (.label l) :=
    has_label (List.getElem?_idxOf mem)
  refine ⟨⟨_, Nat.lt_succ_self _, line, fun z lo hi => ?_⟩, fun y z => once_of_nodup nodup⟩
  unfold point at hi
  omega

theorem point_eq (nodup : (labelsOf code).Nodup) (h : Has code p (.label l)) :
    point code l = p + 1 := by
  obtain ⟨d, hd⟩ := h
  have mem : some l ∈ code.map labelOf :=
    List.mem_map.mpr ⟨_, List.mem_of_getElem? hd, rfl⟩
  have line : Has code ((code.map labelOf).idxOf (some l)) (.label l) :=
    has_label (List.getElem?_idxOf mem)
  rw [point, once_of_nodup nodup line ⟨d, hd⟩]

end positions

section expressions

variable {code : List Line} {p q d : Nat}

theorem ExprRoutes.trans {m : Nat} (first : ExprRoutes code p m) (second : ExprRoutes code m q) :
    ExprRoutes code p q := by
  induction second with
  | nil => exact first
  | plain _ line straight ih => exact .plain (ih first) line straight
  | branch _ test skip first' join label₁ second label₂ op ih =>
    exact .branch (ih first) test skip first' join label₁ second label₂ op

theorem isControl_of_keepsStack {i : Asm} (h : i.keepsStack = true) : isControl i = false := by
  cases i <;> first | rfl | cases h

theorem isControl_of_isCall {i : Asm} (h : isCall i = true) : isControl i = false := by
  cases i <;> first | rfl | cases h

theorem ExprRoutes.lines {is : List Asm} (straight : ∀ i ∈ is, isControl i = false)
    (h : Occurs code p (lines d is)) : ExprRoutes code p (p + is.length) := by
  induction is generalizing p with
  | nil => exact .nil p
  | cons i is ih =>
    have rest := ih (fun j hj => straight j (List.mem_cons_of_mem i hj)) h.tail
    have first : ExprRoutes code p (p + 1) :=
      .plain (.nil p) h.has (straight i List.mem_cons_self)
    rw [List.length_cons, Nat.add_comm is.length, ← Nat.add_assoc]
    exact first.trans rest

/-- Wherever `seg` stands in `code`, its jumps lead where its operators say. -/
def Routed (code seg : List Line) : Prop :=
  ∀ p, Occurs code p seg → ExprRoutes code p (p + seg.length)

theorem Routed.append {s t : List Line} (first : Routed code s) (second : Routed code t) :
    Routed code (s ++ t) := by
  intro p occurs
  obtain ⟨before, own⟩ := occurs.split
  rw [List.length_append, ← Nat.add_assoc]
  exact (first p before).trans (second _ own)

theorem Routed.lines {is : List Asm} (straight : ∀ i ∈ is, isControl i = false) :
    Routed code (lines d is) := by
  intro p occurs
  rw [ClaudeC99.lines, List.length_map]
  exact .lines straight occurs

theorem Routed.line {i : Asm} (straight : isControl i = false) : Routed code [⟨i, d⟩] :=
  fun p occurs => .plain (.nil p) occurs.has straight

/-- In a function whose labels are distinct, expression code jumps as its operators say. -/
theorem ExprCode.routes {b S lo seg S' hi} (nodup : (labelsOf code).Nodup)
    (h : ExprCode b S lo seg S' hi) : Routed code seg := by
  induction h with
  | nil => exact fun p _ => .nil p
  | plain _ keeps ih => exact ih.append (.line (isControl_of_keepsStack keeps))
  | push _ r ih => exact ih.append (.line rfl)
  | pop _ _ ih => exact ih.append (.line rfl)
  | reserve _ n ih => exact ih.append (.line rfl)
  | release _ ih => exact ih.append (.line rfl)
  | pushXmm _ p ih =>
    refine ih.append (.lines ?_)
    simp only [List.mem_cons, List.not_mem_nil, or_false]
    rintro i (rfl | rfl) <;> rfl
  | call _ isCall _ ih => exact ih.append (.line (isControl_of_isCall isCall))
  | paddedCall _ plain isCall _ ih =>
    refine ih.append (.lines ?_)
    simp only [List.mem_append, List.mem_cons, List.not_mem_nil, or_false]
    rintro i ((rfl | hi) | (rfl | rfl))
    · rfl
    · exact isControl_of_keepsStack (plain i hi)
    · exact isControl_of_isCall isCall
    · rfl
  | skip _ ih => exact ih
  | sub _ _ ih own => exact ih.append own
  | @branch b S lo seg S' id test m₁ first m₂ second hi _ _ _ _ c k₁ k₂ op ih t f s =>
    refine ih.append fun p occurs => ?_
    simp only [List.append_assoc] at occurs
    obtain ⟨atTest, occurs⟩ := occurs.split
    obtain ⟨atSkip, occurs⟩ := occurs.split
    obtain ⟨atFirst, occurs⟩ := occurs.split
    obtain ⟨atJoin, occurs⟩ := occurs.split
    obtain ⟨atSecond, atEnd⟩ := occurs.split
    rw [← atTest.part, ← atFirst.part, ← atSecond.part] at op
    have route := ExprRoutes.branch (.nil p) (t p atTest)
      ⟨_, atSkip.has, atJoin.tail.marks nodup⟩ (f _ atFirst) ⟨_, atJoin.has, atEnd.marks nodup⟩
      atJoin.tail.has (s _ atSecond) atEnd.has op
    convert route using 1
    simp [ClaudeC99.lines]
    omega

end expressions

end ClaudeC99
