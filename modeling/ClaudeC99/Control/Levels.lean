import ClaudeC99.Control.Jumps
import ClaudeC99.Lib.X86Jumps
import ClaudeC99.Lib.X86Levels
import ClaudeC99.Values.BitFields

/-! `rsp` at every line of a function: eight bytes below the frame for each word that `push_depth`
counted there. -/

namespace ClaudeC99

open X86 StateExcept

/-- The level in a function with a frame of `size` bytes, where `words` are pushed below it. -/
def bodyLevel (size words : Nat) : Level := ⟨8 + size + 8 * words, some 8⟩

/-- A line that a `sub rsp, 8` may stand directly before, with its word not counted yet. -/
def Padded (i : Asm) : Prop := i.keepsStack = true ∨ isCall i = true ∨ i = addRsp 8

/-- `Shown size line a`: at `a`, as many words are pushed as the line's push depth counts. A call
stands above an even number of words. -/
inductive Shown (size : Nat) : Line → Level → Prop
  | body {i d} (inner : i ≠ .ret) (even : isCall i = true → d % 2 = 0) :
      Shown size ⟨i, d⟩ (bodyLevel size d)
  | padded {i d} (pad : Padded i) (even : isCall i = true → (d + 1) % 2 = 0) :
      Shown size ⟨i, d⟩ (bodyLevel size (d + 1))
  | savesFrame : Shown size ⟨.push .rbp, 0⟩ ⟨0, none⟩
  | enters : Shown size ⟨movReg .qword .rbp .rsp, 0⟩ ⟨8, none⟩
  | reserves : Shown size ⟨subRsp size, 0⟩ ⟨8, some 8⟩
  | restoresFrame {d} : Shown size ⟨.pop .rbp, d⟩ ⟨8, some 8⟩
  | ret {d} : Shown size ⟨.ret, d⟩ ⟨0, none⟩

/-- A jump of the source that keeps the number of pushed words: `whole` has the labels of the
function `func`. -/
def Site.Kept (whole : List Line) (func : String) : Site → Prop
  | .breakAt loop switches => (Site.breakAt loop switches).nested = true
  | .continueAt loop switches => loop = some switches
  | .gotoAt name switches => ∀ d, ⟨.label (.user func name), d⟩ ∈ whole → d = switches
  | .caseAt _ => True
  | .labelAt _ _ => True

/-- The labels that `break` and `continue` lead to, inside the loops and switches `bs`, stand at
the push depths of these. -/
inductive Framed (whole : List Line) : List BreakFrame → Option Nat → Nat → Prop
  | outside (bs) : Framed whole bs none 0
  | loop {bs outer d} (id : Nat) (around : Framed whole bs outer d)
      (stop : ⟨.label (.numbered .breakTo id), d⟩ ∈ whole)
      (again : ⟨.label (.numbered .continueTo id), d⟩ ∈ whole) :
      Framed whole (⟨id, id⟩ :: bs) (some d) d
  | switch {bs loop d} (id : Nat) (around : Framed whole bs loop d)
      (stop : ⟨.label (.numbered .breakTo id), d + 1⟩ ∈ whole) :
      Framed whole (⟨id, -1⟩ :: bs) loop (d + 1)

theorem Framed.breaks {whole : List Line} {bs : List BreakFrame} {loop : Option Nat} {d : Nat}
    (h : Framed whole bs loop d) (nested : (Site.breakAt loop d).nested = true) :
    ∃ top rest, bs = top :: rest ∧ ⟨.label (.numbered .breakTo top.breakLabel), d⟩ ∈ whole := by
  cases h with
  | outside => simp [Site.nested] at nested
  | loop id around stop => exact ⟨_, _, rfl, stop⟩
  | switch id around stop => exact ⟨_, _, rfl, stop⟩

theorem Framed.continues {whole : List Line} {bs : List BreakFrame} {loop : Option Nat} {d m : Nat}
    (h : Framed whole bs loop d) (inLoop : loop = some m) :
    ⟨.label (.numbered .continueTo (continueTarget bs)), m⟩ ∈ whole := by
  induction h with
  | outside => cases inLoop
  | loop id around stop again =>
    cases inLoop
    rw [continueTarget_loop]
    exact again
  | switch id around stop ih =>
    rw [continueTarget_switch]
    exact ih inLoop

/-- A jump to `k` arrives with the words that the line of the label counts. -/
def Meets (whole : List Line) (size : Nat) (k : Label) (a : Level) : Prop :=
  ∀ d, ⟨.label k, d⟩ ∈ whole → a = bodyLevel size d

/-- The lines `seg`, run from the level `a` on, keep to their push depths and end at `b`. -/
def Steady (whole : List Line) (size : Nat) (a : Level) (seg : List Line) (b : Level) : Prop :=
  ∃ as, Levelled (Meets whole size) a (seg.map Line.instr) as b ∧ List.Forall₂ (Shown size) seg as

/-- Calls and `ret`. -/
def isExit : Asm → Bool
  | .ret => true
  | i => isCall i

theorem isExit_keepsStack {i : Asm} (keeps : i.keepsStack = true) : isExit i = false := by
  cases i <;> first | rfl | cases keeps

theorem isExit_of_isCall {i : Asm} (call : isCall i = true) : isExit i = true := by
  cases i <;> first | rfl | cases call

theorem Shown.inner {size d : Nat} {i : Asm} (inner : isExit i = false) :
    Shown size ⟨i, d⟩ (bodyLevel size d) := by
  refine .body (fun ret => ?_) fun call => ?_
  · rw [ret] at inner
    cases inner
  · rw [isExit_of_isCall call] at inner
    cases inner

namespace Steady

variable {whole seg s t : List Line} {size d : Nat} {a b c : Level} {i : Asm} {k : Label}

theorem nil (a : Level) : Steady whole size a [] a := ⟨[], .nil a, .nil⟩

theorem append (first : Steady whole size a s b) (second : Steady whole size b t c) :
    Steady whole size a (s ++ t) c := by
  obtain ⟨as, levels₁, shown₁⟩ := first
  obtain ⟨bs, levels₂, shown₂⟩ := second
  refine ⟨as ++ bs, ?_, List.rel_append shown₁ shown₂⟩
  rw [List.map_append]
  exact levels₁.append levels₂

theorem next (shifts : i.Shifts a b) (shown : Shown size ⟨i, d⟩ a) :
    Steady whole size a [⟨i, d⟩] b :=
  ⟨[a], .next shifts (.nil b), .cons shown .nil⟩

theorem cons (shifts : i.Shifts a b) (shown : Shown size ⟨i, d⟩ a)
    (rest : Steady whole size b seg c) : Steady whole size a (⟨i, d⟩ :: seg) c :=
  (next shifts shown).append rest

theorem counted (shifts : i.Shifts (bodyLevel size d) b) (inner : isExit i = false) :
    Steady whole size (bodyLevel size d) [⟨i, d⟩] b :=
  next shifts (.inner inner)

theorem inPad (shifts : i.Shifts (bodyLevel size (d + 1)) b) (pad : Padded i)
    (inner : isExit i = false) : Steady whole size (bodyLevel size (d + 1)) [⟨i, d⟩] b :=
  next shifts (.padded pad fun call => absurd (isExit_of_isCall call) (by simp [inner]))

theorem keeps (keeps : i.keepsStack = true) :
    Steady whole size (bodyLevel size d) [⟨i, d⟩] (bodyLevel size d) :=
  counted (.keeps keeps) (isExit_keepsStack keeps)

theorem label (k : Label) (d : Nat) :
    Steady whole size (bodyLevel size d) [⟨.label k, d⟩] (bodyLevel size d) :=
  counted (.label k _) rfl

theorem jcc (cond : Cond) (meets : Meets whole size k (bodyLevel size d)) :
    Steady whole size (bodyLevel size d) [⟨.jcc cond k, d⟩] (bodyLevel size d) :=
  ⟨[_], .jcc meets (.nil _), .cons (.inner rfl) .nil⟩

theorem jmp (meets : Meets whole size k (bodyLevel size d)) (b : Level) :
    Steady whole size (bodyLevel size d) [⟨.jmp k, d⟩] b :=
  ⟨[_], .jmp meets (.nil _), .cons (.inner rfl) .nil⟩

theorem labels (whole : List Line) (size : Nat) (k₁ k₂ : Label) (d : Nat) :
    Steady whole size (bodyLevel size d) (lines d [.label k₁, .label k₂]) (bodyLevel size d) :=
  (label k₁ d).append (label k₂ d)

/-- The end of a loop: the jump back, and the labels behind it. -/
theorem jumpBack (meets : Meets whole size k (bodyLevel size d)) (k₁ k₂ : Label) :
    Steady whole size (bodyLevel size d) (lines d [.jmp k, .label k₁, .label k₂])
      (bodyLevel size d) :=
  (jmp meets _).append (labels whole size k₁ k₂ d)

theorem plain {is : List Asm} (plain : Plain is) :
    Steady whole size (bodyLevel size d) (lines d is) (bodyLevel size d) := by
  induction is with
  | nil => exact nil _
  | cons i is ih =>
    have rest := ih fun j member => plain j (List.mem_cons_of_mem i member)
    exact (keeps (plain i List.mem_cons_self)).append rest

/-- The pad of a call, or the word that `xmm0` is pushed to. -/
theorem reserve : Steady whole size (bodyLevel size d) [⟨subRsp 8, d⟩] (bodyLevel size (d + 1)) :=
  counted (.sub 8 (8 + size + 8 * d) _) rfl

theorem call (call : isCall i = true) (shown : Shown size ⟨i, d⟩ a) :
    Steady whole size a [⟨i, d⟩] a := by
  refine next ?_ shown
  cases i with
  | call f => exact .call f a
  | callReg r => exact .callReg r a
  | _ => cases call

/-- Lines between the pad and the call. -/
theorem setup {is : List Asm} (plain : Plain is) :
    Steady whole size (bodyLevel size (d + 1)) (lines d is) (bodyLevel size (d + 1)) := by
  induction is with
  | nil => exact nil _
  | cons i is ih =>
    have keeps := plain i List.mem_cons_self
    have rest := ih fun j member => plain j (List.mem_cons_of_mem i member)
    exact (inPad (.keeps keeps) (.inl keeps) (isExit_keepsStack keeps)).append rest

/-- Behind `ret` any level may follow. -/
theorem epilogue (b : Level) :
    Steady whole size (bodyLevel size d) (lines d epilogue) b := by
  have loads : Plain [movMem .qword .r12 (frame 16), movMem .qword .r13 (frame 24),
      movMem .qword .r14 (frame 32), movMem .qword .r15 (frame 40),
      movMem .qword .rbx (frame 8)] := by
    unfold Plain
    decide
  have leave : Steady whole size (bodyLevel size d) [⟨movReg .qword .rsp .rbp, d⟩] ⟨8, some 8⟩ :=
    counted (.leave _ 8) rfl
  have pop : Steady whole size ⟨8, some 8⟩ [⟨.pop .rbp, d⟩] ⟨0, none⟩ :=
    next (.popFrame 0 _) .restoresFrame
  have ret : Steady whole size ⟨0, none⟩ [⟨.ret, d⟩] b := ⟨[_], .ret (.nil b), .cons .ret .nil⟩
  exact (plain loads).append (leave.append (pop.append ret))

theorem prologue (size : Nat) :
    Steady whole size ⟨0, none⟩ (lines 0 (prologue size)) (bodyLevel size 0) :=
  .cons (.push .rbp 0 none) .savesFrame
    (.cons (.enter 8 none) .enters (.cons (.sub size 8 (some 8)) .reserves (nil _)))

theorem implicitEpilogue (f : FunctionDef) :
    Steady whole size (bodyLevel size 0) (lines 0 (implicitEpilogue f)) (bodyLevel size 0) := by
  unfold ClaudeC99.implicitEpilogue
  split
  · rw [lines_append]
    refine append (plain ?_) (epilogue _)
    split
    · exact fun i member => List.mem_singleton.mp member ▸ rfl
    · exact fun i member => absurd member List.not_mem_nil
  · exact nil _

end Steady

section expressions

variable {whole : List Line} {size : Nat}

/-- A label has one line, so that its push depth is that of the line. -/
theorem meets_of_mem (nodup : (labelsOf whole).Nodup) {k : Label} {d : Nat}
    (line : (⟨.label k, d⟩ : Line) ∈ whole) : Meets whole size k (bodyLevel size d) := by
  intro e other
  obtain ⟨p, first⟩ := List.mem_iff_getElem?.mp line
  obtain ⟨q, second⟩ := List.mem_iff_getElem?.mp other
  obtain rfl := once_of_nodup nodup ⟨d, first⟩ ⟨e, second⟩
  rw [first] at second
  cases second
  rfl

/-- The code of an expression takes the level by the words that it leaves. -/
theorem ExprCode.steady (nodup : (labelsOf whole).Nodup) {b S lo seg S' hi}
    (h : ExprCode b S lo seg S' hi) : seg ⊆ whole →
      Steady whole size (bodyLevel size (b + S.length)) seg (bodyLevel size (b + S'.length)) := by
  induction h with
  | nil => exact fun _ => .nil _
  | plain _ keeps ih =>
    intro inside
    rw [List.append_subset] at inside
    exact (ih inside.1).append (.keeps keeps)
  | @push b S lo seg S' hi _ r ih =>
    intro inside
    rw [List.append_subset] at inside
    exact (ih inside.1).append (.counted (.push r (8 + size + 8 * (b + S'.length)) _) rfl)
  | @pop b S lo seg S' hi r _ scratch ih =>
    intro inside
    rw [List.append_subset] at inside
    exact (ih inside.1).append (.counted (.pop scratch (8 + size + 8 * (b + S'.length)) _) rfl)
  | @reserve b S lo seg S' hi _ n ih =>
    intro inside
    rw [List.append_subset] at inside
    have words : bodyLevel size (b + (List.replicate n Held.reserved ++ S').length) =
        ⟨8 + size + 8 * (b + S'.length) + 8 * n, some 8⟩ := by
      simp only [bodyLevel, List.length_append, List.length_replicate, Level.mk.injEq, and_true]
      omega
    rw [words]
    exact (ih inside.1).append (.counted (.sub (8 * n) _ _) rfl)
  | @release b S lo seg T S' hi _ ih =>
    intro inside
    rw [List.append_subset] at inside
    have words : bodyLevel size (b + (T ++ S').length) =
        ⟨8 + size + 8 * (b + S'.length) + 8 * T.length, some 8⟩ := by
      simp only [bodyLevel, List.length_append, Level.mk.injEq, and_true]
      omega
    refine (ih inside.1).append (.counted ?_ rfl)
    rw [words]
    exact .add (8 * T.length) _ _
  | @pushXmm b S lo seg S' hi _ p ih =>
    intro inside
    rw [List.append_subset] at inside
    have store : Steady whole size (bodyLevel size (b + S'.length + 1))
        [⟨.fstore p (stackArg 0) 0, b + S'.length⟩] (bodyLevel size (b + S'.length + 1)) :=
      .inPad (.keeps rfl) (.inl rfl) rfl
    exact (ih inside.1).append (Steady.reserve.append store)
  | call _ isCall even ih =>
    intro inside
    rw [List.append_subset] at inside
    refine (ih inside.1).append (.call isCall (.body (fun ret => ?_) fun _ => even))
    rw [ret] at isCall
    cases isCall
  | @paddedCall b S lo seg S' hi setup c _ plain isCall odd ih =>
    intro inside
    rw [List.append_subset] at inside
    have even : (b + S'.length + 1) % 2 = 0 := by omega
    have call : Steady whole size (bodyLevel size (b + S'.length + 1)) [⟨c, b + S'.length⟩]
        (bodyLevel size (b + S'.length + 1)) :=
      .call isCall (.padded (.inr (.inl isCall)) fun _ => even)
    have release : Steady whole size (bodyLevel size (b + S'.length + 1))
        [⟨addRsp 8, b + S'.length⟩] (bodyLevel size (b + S'.length)) :=
      .inPad (.add 8 (8 + size + 8 * (b + S'.length)) _) (.inr (.inr rfl)) rfl
    rw [lines_append, lines_append]
    exact (ih inside.1).append ((Steady.reserve.append (.setup plain)).append (call.append release))
  | skip _ ih => exact ih
  | sub _ _ ih own =>
    intro inside
    rw [List.append_subset] at inside
    exact (ih inside.1).append (own inside.2)
  | @branch b S lo seg S' id test m₁ first m₂ second hi _ _ _ _ c k₁ k₂ _ ih t f s =>
    intro inside
    simp only [List.append_subset] at inside
    obtain ⟨before, ⟨⟨⟨⟨testIn, -⟩, firstIn⟩, middle⟩, secondIn⟩, last⟩ := inside
    have second : Meets whole size (.numbered k₁ id) (bodyLevel size (b + S'.length)) :=
      meets_of_mem nodup (middle (List.mem_cons_of_mem _ List.mem_cons_self))
    have join : Meets whole size (.numbered k₂ id) (bodyLevel size (b + S'.length)) :=
      meets_of_mem nodup (last List.mem_cons_self)
    have test := (t testIn).append (.jcc c second)
    have rest := (((test.append (f firstIn)).append
      ((Steady.jmp join _).append (.label (.numbered k₁ id) (b + S'.length)))).append
      (s secondIn)).append (.label (.numbered k₂ id) (b + S'.length))
    exact (ih before).append rest

theorem Compiled.steady {α : Type} {m : Gen α} {d lo hi : Nat} {seg : List Line}
    (nodup : (labelsOf whole).Nodup) (h : Compiled m d lo seg hi) (inside : seg ⊆ whole) :
    Steady whole size (bodyLevel size d) seg (bodyLevel size d) :=
  h.code.steady nodup inside

end expressions

section statements

variable {func : String} {labels : List String} {bs : List BreakFrame} {ss : List SwitchCtx}
  {d lo hi : Nat} {node : List Nat} {piece : Piece} {seg whole : List Line}

/-- The label of a section stands at the push depth inside its switch. -/
theorem StmtCode.section_line (h : StmtCode func labels bs ss d lo node piece seg hi)
    {ctx : SwitchCtx} {rest : List SwitchCtx} (inner : ss = ctx :: rest) :
    ∀ c ∈ piece.sections node,
      ⟨.label (.numbered .switchSec (switchLookupLabel ctx c.node)), d⟩ ∈ seg := by
  induction h with
  | straight straight =>
    intro c member
    rw [Piece.sections, sections_of_straight straight] at member
    cases member
  | declList _ ih | block _ ih => exact ih inner
  | cons _ _ ih₁ ih₂ =>
    intro c member
    rcases List.mem_append.mp member with member | member
    · exact List.mem_append_left _ (ih₁ inner c member)
    · exact List.mem_append_right _ (ih₂ inner c member)
  | ifThen condCode _ ih =>
    intro c member
    rw [Piece.sections, Stmt.sections, Stmt.sectionsOption, List.append_nil] at member
    simp [ih inner c member]
  | ifElse condCode _ _ ih₁ ih₂ =>
    intro c member
    rcases List.mem_append.mp member with member | member
    · simp [ih₁ inner c member]
    · simp [ih₂ inner c member]
  | whileLoop condCode _ ih =>
    intro c member
    simp [ih inner c member]
  | doLoop _ condCode ih =>
    intro c member
    simp [ih inner c member]
  | @forLoop bs ss node init cond update body start test seg step d lo m₁ m₂ m₃ hi _ condCode _
      updateCode ih₁ ih₂ =>
    intro c member
    rcases List.mem_append.mp member with member | member
    · rw [← sectionsOption_toList] at member
      simp [ih₁ inner c member]
    · simp [ih₂ inner c member]
  | caseLabel value _ ih | defaultLabel _ ih =>
    intro c member
    cases inner
    rcases List.mem_cons.mp member with rfl | member
    · exact List.mem_cons_self
    · exact List.mem_append_right _ (ih rfl c member)
  | userLabel _ ih =>
    intro c member
    exact List.mem_append_right _ (ih inner c member)
  | returns | nil | switchOn | breakOut | continueLoop | goto =>
    intro c member
    cases member

/-- The label that a section got from the walk before the code of its switch. -/
theorem StmtCode.entry_line {ctx : SwitchCtx} {body : Stmt} {first : Nat} {e : SwitchLabel}
    (h : StmtCode func labels bs (ctx :: ss) d lo node (.stmt body) seg hi)
    (entries : ctx.entries = numberFrom first (body.sections node)) (member : e ∈ ctx.entries) :
    ⟨.label (.numbered .switchSec e.label), d⟩ ∈ seg := by
  obtain ⟨_, default⟩ := ctx
  obtain rfl := entries
  obtain ⟨⟨c, found, same, _⟩, _⟩ := mem_numberFrom member
  have label : switchLookupLabel ⟨_, default⟩ e.node = e.label :=
    lookup_numberFrom (distinct_sections body node) member
  rw [← label, same]
  exact h.section_line rfl c found

theorem mem_labelsOf_of_mem {k : Label} {e : Nat} (line : (⟨.label k, e⟩ : Line) ∈ seg) :
    k ∈ labelsOf seg :=
  List.mem_filterMap.mpr ⟨_, line, rfl⟩

theorem ExprCode.no_user {b S S'} (h : ExprCode b S lo seg S' hi) (name : String) (e : Nat) :
    (⟨.label (.user func name), e⟩ : Line) ∉ seg := by
  intro line
  have positive := List.count_pos_iff.mpr (mem_labelsOf_of_mem line)
  have le := h.defines.le_own (.user func name)
  simp only [List.count_nil, Label.room] at le
  omega

theorem ForTest.no_user {id : Nat} {cond : Option Expr} (h : ForTest d id lo cond seg hi)
    (name : String) (e : Nat) : (⟨.label (.user func name), e⟩ : Line) ∉ seg := by
  cases h with
  | none => exact List.not_mem_nil
  | some code => simp [code.code.no_user]

/-- A user label stands at the push depth of the switches around its statement. -/
theorem StmtCode.user_line (h : StmtCode func labels bs ss d lo node piece seg hi) :
    ∀ (loop : Option Nat) (name : String) (e : Nat), ⟨.label (.user func name), e⟩ ∈ seg →
      .labelAt name e ∈ piece.sites loop d := by
  induction h with
  | straight _ code =>
    intro loop name e member
    exact absurd member (code.no_user name e)
  | returns code =>
    intro loop name e member
    simp [code.no_user, lines, epilogue, movMem, movReg] at member
  | declList _ ih | block _ ih => exact ih
  | nil | breakOut | continueLoop | goto =>
    intro loop name e member
    simp at member
  | cons _ _ ih₁ ih₂ =>
    intro loop name e member
    rcases List.mem_append.mp member with member | member
    · exact List.mem_append_left _ (ih₁ loop name e member)
    · exact List.mem_append_right _ (ih₂ loop name e member)
  | ifThen condCode _ ih =>
    intro loop name e member
    simp [condCode.code.no_user] at member
    exact List.mem_append_left _ (ih loop name e member)
  | ifElse condCode _ _ ih₁ ih₂ =>
    intro loop name e member
    simp [condCode.code.no_user, lines] at member
    rcases member with member | member
    · exact List.mem_append_left _ (ih₁ loop name e member)
    · exact List.mem_append_right _ (ih₂ loop name e member)
  | whileLoop condCode _ ih | doLoop _ condCode ih =>
    intro loop name e member
    simp [condCode.code.no_user, lines] at member
    exact ih _ name e member
  | @forLoop bs ss node init cond update body start test seg step d lo m₁ m₂ m₃ hi _ condCode _
      updateCode ih₁ ih₂ =>
    intro loop name e member
    simp [condCode.no_user, updateCode.code.no_user, lines] at member
    rcases member with member | member
    · have own := ih₁ (some d) name e member
      exact List.mem_append_left _ (sitesOption_toList init _ _ ▸ own)
    · exact List.mem_append_right _ (ih₂ (some d) name e member)
  | @switchOn bs ss node value body ctx scrutinee seg d lo m₀ m₁ hi w table valueCode _ ih =>
    intro loop name e member
    have dispatch := labelsOf_dispatch (d + 1) w ctx lo
    simp only [List.mem_append] at member
    rcases member with (((member | member) | member) | member) | member
    · exact absurd member (valueCode.code.no_user name e)
    · simp at member
    · have label := mem_labelsOf_of_mem member
      rw [dispatch] at label
      cases label
    · exact ih loop name e member
    · simp [lines, addRsp, aluImm] at member
  | caseLabel value _ ih | defaultLabel _ ih =>
    intro loop name e member
    simp at member
    exact List.mem_cons_of_mem _ (ih loop name e member)
  | userLabel _ ih =>
    intro loop name e member
    rcases List.mem_cons.mp member with same | member
    · cases same
      exact List.mem_cons_self
    · exact List.mem_cons_of_mem _ (ih loop name e member)

variable {size : Nat}

theorem Steady.dispatch (w : Width) {entries : List SwitchLabel}
    (sections : ∀ e ∈ entries,
      Meets whole size (.numbered .switchSec e.label) (bodyLevel size d)) :
    Steady whole size (bodyLevel size d) (lines d (entries.flatMap (dispatchCase w)))
      (bodyLevel size d) := by
  induction entries with
  | nil => exact .nil _
  | cons e entries ih =>
    have rest := ih fun e' member => sections e' (List.mem_cons_of_mem e member)
    rw [List.flatMap_cons, lines_append]
    refine .append ?_ rest
    obtain ⟨node, value, label⟩ := e
    cases value with
    | none => exact .nil _
    | some value =>
      have compare : Plain [movMem w .rax (stackArg 0), aluImm .cmp w .rax value] := by
        simp [movMem, aluImm, Instr.keepsStack, Reg.isStack]
      exact (Steady.plain compare).append (.jcc .e (sections _ List.mem_cons_self))

/-- The last line of a dispatch jumps to the default section or behind the switch. -/
theorem Steady.otherwise {ctx : SwitchCtx} {cs : List Section} {first id : Nat}
    (entries : ctx.entries = numberFrom first cs)
    (default : ctx.defaultLabel = lastDefault (-1) first cs)
    (sections : ∀ e ∈ ctx.entries,
      Meets whole size (.numbered .switchSec e.label) (bodyLevel size d))
    (behind : Meets whole size (.numbered .switchEnd id) (bodyLevel size d)) (b : Level) :
    Steady whole size (bodyLevel size d) [⟨switchDefault ctx id, d⟩] b := by
  unfold switchDefault
  rw [entries] at sections
  rcases lastDefault_cases [] (-1) first cs with ⟨label, _⟩ | ⟨e, member, label, _⟩
  · rw [default, label, if_neg (by simp)]
    exact .jmp behind b
  · have later := (mem_numberFrom member).2.1
    rw [default, label, if_pos (by omega)]
    exact .jmp (sections e member) b

theorem ForTest.steady {id : Nat} {cond : Option Expr} (nodup : (labelsOf whole).Nodup)
    (h : ForTest d id lo cond seg hi) (inside : seg ⊆ whole)
    (leave : Meets whole size (.numbered .forEnd id) (bodyLevel size d)) :
    Steady whole size (bodyLevel size d) seg (bodyLevel size d) := by
  cases h with
  | none => exact .nil _
  | some code =>
    rw [List.append_subset] at inside
    exact (code.steady nodup inside.1).append (.jcc .e leave)

/-- Statement code starts and ends with the words that are pushed around it. -/
theorem StmtCode.steady (nodup : (labelsOf whole).Nodup)
    (h : StmtCode func labels bs ss d lo node piece seg hi) :
    ∀ {loop}, seg ⊆ whole → Framed whole bs loop d →
      (∀ site ∈ piece.sites loop d, site.Kept whole func) →
      Steady whole size (bodyLevel size d) seg (bodyLevel size d) := by
  induction h with
  | straight _ code => exact fun inside _ _ => code.steady nodup inside
  | returns code =>
    intro loop inside framed kept
    rw [List.append_subset] at inside
    exact Steady.append (code.steady nodup inside.1) (.epilogue _)
  | declList _ ih | block _ ih => exact ih
  | nil => exact fun _ _ _ => .nil _
  | cons _ _ ih₁ ih₂ =>
    intro loop inside framed kept
    rw [List.append_subset] at inside
    exact (ih₁ inside.1 framed fun site member => kept site (List.mem_append_left _ member)).append
      (ih₂ inside.2 framed fun site member => kept site (List.mem_append_right _ member))
  | @ifThen bs ss node cond thenBody test seg d lo m₁ hi condCode _ ih =>
    intro loop inside framed kept
    simp only [List.append_subset] at inside
    obtain ⟨⟨⟨atTest, -⟩, atThen⟩, atEnd⟩ := inside
    have skip : Meets whole size (.numbered .endIf lo) (bodyLevel size d) :=
      meets_of_mem nodup (atEnd List.mem_cons_self)
    have thenCode := ih atThen framed fun site member => kept site (List.mem_append_left _ member)
    exact (((condCode.steady nodup atTest).append (.jcc .e skip)).append thenCode).append
      (.label _ d)
  | @ifElse bs ss node cond thenBody elseBody test first second d lo m₁ m₂ hi condCode _ _ ih₁
      ih₂ =>
    intro loop inside framed kept
    simp only [List.append_subset] at inside
    obtain ⟨⟨⟨⟨⟨atTest, -⟩, atThen⟩, atJoin⟩, atElse⟩, atEnd⟩ := inside
    have skip : Meets whole size (.numbered .elseBranch lo) (bodyLevel size d) :=
      meets_of_mem nodup (atJoin (List.mem_cons_of_mem _ List.mem_cons_self))
    have join : Meets whole size (.numbered .endIf lo) (bodyLevel size d) :=
      meets_of_mem nodup (atEnd List.mem_cons_self)
    have thenCode := ih₁ atThen framed fun site member => kept site (List.mem_append_left _ member)
    have elseCode := ih₂ atElse framed fun site member => kept site (List.mem_append_right _ member)
    have middle := (Steady.jmp join (bodyLevel size d)).append (.label (.numbered .elseBranch lo) d)
    have test := (condCode.steady nodup atTest).append (.jcc .e skip)
    exact (((test.append thenCode).append middle).append elseCode).append (.label _ d)
  | @whileLoop bs ss node cond body test seg d lo m₁ hi condCode _ ih =>
    intro loop inside framed kept
    simp only [List.append_subset] at inside
    obtain ⟨⟨⟨⟨atTop, atTest⟩, -⟩, atBody⟩, atEnd⟩ := inside
    have top : Meets whole size (.numbered .whileStart lo) (bodyLevel size d) :=
      meets_of_mem nodup (atTop List.mem_cons_self)
    have leave : Meets whole size (.numbered .whileEnd lo) (bodyLevel size d) :=
      meets_of_mem nodup (atEnd (List.mem_cons_of_mem _ List.mem_cons_self))
    have stop : ⟨.label (.numbered .breakTo lo), d⟩ ∈ whole := atEnd (by simp [lines])
    have again : ⟨.label (.numbered .continueTo lo), d⟩ ∈ whole := atTop (by simp [lines])
    have bodyCode := ih atBody (.loop lo framed stop again) kept
    have start := Steady.labels whole size (.numbered .whileStart lo) (.numbered .continueTo lo) d
    have test := (start.append (condCode.steady nodup atTest)).append (.jcc .e leave)
    exact (test.append bodyCode).append (.jumpBack top _ _)
  | @doLoop bs ss node cond body seg test d lo m₁ hi _ condCode ih =>
    intro loop inside framed kept
    simp only [List.append_subset] at inside
    obtain ⟨⟨⟨⟨atTop, atBody⟩, atContinue⟩, atTest⟩, atEnd⟩ := inside
    have top : Meets whole size (.numbered .doStart lo) (bodyLevel size d) :=
      meets_of_mem nodup (atTop List.mem_cons_self)
    have stop : ⟨.label (.numbered .breakTo lo), d⟩ ∈ whole := atEnd (by simp [lines])
    have again : ⟨.label (.numbered .continueTo lo), d⟩ ∈ whole := atContinue List.mem_cons_self
    have bodyCode := ih atBody (.loop lo framed stop again) kept
    have start := (Steady.label (.numbered .doStart lo) d).append bodyCode
    have test := (start.append (.label (.numbered .continueTo lo) d)).append
      (condCode.steady nodup atTest)
    exact test.append ((Steady.jcc .ne top).append (.labels whole size _ _ d))
  | @forLoop bs ss node init cond update body start test seg step d lo m₁ m₂ m₃ hi _ condCode _
      updateCode ih₁ ih₂ =>
    intro loop inside framed kept
    simp only [List.append_subset] at inside
    obtain ⟨⟨⟨⟨⟨⟨atInit, atTop⟩, atTest⟩, atBody⟩, atContinue⟩, atUpdate⟩, atEnd⟩ := inside
    have top : Meets whole size (.numbered .forStart lo) (bodyLevel size d) :=
      meets_of_mem nodup (atTop List.mem_cons_self)
    have leave : Meets whole size (.numbered .forEnd lo) (bodyLevel size d) :=
      meets_of_mem nodup (atEnd (List.mem_cons_of_mem _ List.mem_cons_self))
    have stop : ⟨.label (.numbered .breakTo lo), d⟩ ∈ whole := atEnd (by simp [lines])
    have again : ⟨.label (.numbered .continueTo lo), d⟩ ∈ whole := atContinue List.mem_cons_self
    have frame : Framed whole (⟨lo, lo⟩ :: bs) (some d) d := .loop lo framed stop again
    have initCode := ih₁ atInit frame fun site member => kept site
      (List.mem_append_left _ (sitesOption_toList init _ _ ▸ member))
    have bodyCode := ih₂ atBody frame fun site member => kept site
      (List.mem_append_right _ member)
    have test := (initCode.append (.label (.numbered .forStart lo) d)).append
      (condCode.steady nodup atTest leave)
    have step := ((test.append bodyCode).append (.label (.numbered .continueTo lo) d)).append
      (updateCode.steady nodup atUpdate)
    exact step.append (.jumpBack top _ _)
  | @switchOn bs ss node value body ctx scrutinee seg d lo m₀ m₁ hi w table valueCode own ih =>
    intro loop inside framed kept
    simp only [List.append_subset] at inside
    obtain ⟨⟨⟨⟨atValue, -⟩, -⟩, atBody⟩, atEnd⟩ := inside
    obtain ⟨-, entries, default⟩ := collectSwitchLabels_table table
    have behind : Meets whole size (.numbered .switchEnd lo) (bodyLevel size (d + 1)) :=
      meets_of_mem nodup (atEnd List.mem_cons_self)
    have stop : ⟨.label (.numbered .breakTo lo), d + 1⟩ ∈ whole := atEnd (by simp [lines])
    have sections : ∀ e ∈ ctx.entries,
        Meets whole size (.numbered .switchSec e.label) (bodyLevel size (d + 1)) :=
      fun e member => meets_of_mem nodup (atBody (own.entry_line entries member))
    have bodyCode := ih atBody (.switch lo framed stop) kept
    have push : Steady whole size (bodyLevel size d) [⟨.push .rax, d⟩] (bodyLevel size (d + 1)) :=
      .counted (.push .rax (8 + size + 8 * d) _) rfl
    have dispatch := (Steady.dispatch w sections).append
      (.otherwise entries default sections behind (bodyLevel size (d + 1)))
    have drop : Steady whole size (bodyLevel size (d + 1)) [⟨addRsp 8, d + 1⟩] (bodyLevel size d) :=
      .counted (.add 8 (8 + size + 8 * d) _) rfl
    have last := (Steady.labels whole size (.numbered .switchEnd lo) (.numbered .breakTo lo)
      (d + 1)).append drop
    rw [lines_append]
    exact ((((valueCode.steady nodup atValue).append push).append dispatch).append bodyCode).append
      last
  | caseLabel value _ ih | defaultLabel _ ih | userLabel _ ih =>
    intro loop inside framed kept
    rw [List.append_subset] at inside
    exact (Steady.label _ _).append
      (ih inside.2 framed fun site member => kept site (List.mem_cons_of_mem _ member))
  | breakOut =>
    intro loop inside framed kept
    obtain ⟨top, rest, same, line⟩ := framed.breaks (kept _ List.mem_cons_self)
    cases same
    exact .jmp (meets_of_mem nodup line) _
  | continueLoop =>
    intro loop inside framed kept
    have line := framed.continues (kept _ List.mem_cons_self)
    exact .jmp (meets_of_mem nodup line) _
  | goto known =>
    intro loop inside framed kept
    refine .jmp (fun e line => ?_) _
    rw [kept _ List.mem_cons_self e line]

end statements

section function

variable {f : FunctionDef} {cg cg' : CodeGen} {body : List Stmt} {setup code : List Line}
  {mid size : Nat} {line : Line} {a : Level} {entry : BitVec 64} {σ τ : State}

/-- The user labels of a function stand where its body has them. -/
theorem FunctionCode.user_line (h : FunctionCode f cg cg' body setup code mid) {name : String}
    {e : Nat} (line : ⟨.label (.user f.name name), e⟩ ∈ functionLines f cg setup code) :
    .labelAt name e ∈ Stmt.sitesList none 0 f.body := by
  rw [← h.same.sites]
  simp only [functionLines, List.mem_append] at line
  rcases line with ((line | line) | line) | line
  · cases mem_labelsOf_of_mem line
  · exact absurd line (h.setupCode.no_user name e)
  · exact h.bodyCode.user_line none name e line
  · have label := mem_labelsOf_of_mem line
    rw [labelsOf_implicitEpilogue] at label
    cases label

theorem FunctionCode.kept (h : FunctionCode f cg cg' body setup code mid)
    (nested : WellNested f.body) (keeps : KeepsSwitches f.body) :
    ∀ site ∈ Stmt.sitesList none 0 body, site.Kept (functionLines f cg setup code) f.name := by
  intro site member
  rw [h.same.sites] at member
  have accepted := nested site member
  cases site with
  | breakAt loop switches => exact accepted
  | continueAt loop switches =>
    obtain ⟨n, rfl⟩ := Option.isSome_iff_exists.mp accepted
    exact congrArg some (keeps.continues n switches member).symm
  | gotoAt name switches =>
    exact fun e line => (keeps.gotos name switches e member (h.user_line line)).symm
  | caseAt | labelAt => exact trivial

theorem FunctionCode.steady (h : FunctionCode f cg cg' body setup code mid)
    (nested : WellNested f.body) (keeps : KeepsSwitches f.body) :
    Steady (functionLines f cg setup code) (frameSize cg f) ⟨0, none⟩
      (functionLines f cg setup code) (bodyLevel (frameSize cg f) 0) := by
  have nodup := h.labels_nodup nested
  have whole : functionLines f cg setup code ⊆ functionLines f cg setup code := fun _ line => line
  simp only [functionLines, List.append_subset] at whole
  obtain ⟨⟨⟨-, atSetup⟩, atBody⟩, -⟩ := whole
  have setupCode := (Steady.prologue (frameSize cg f)).append (h.setupCode.steady nodup atSetup)
  have kept := h.kept nested keeps
  exact (setupCode.append (h.bodyCode.steady nodup atBody (.outside _) kept)).append
    (.implicitEpilogue f)

theorem getElem?_of_forall₂ {α β : Type} {R : α → β → Prop} {xs : List α} {ys : List β}
    (related : List.Forall₂ R xs ys) {p : Nat} {x : α} (here : xs[p]? = some x) :
    ∃ y, ys[p]? = some y ∧ R x y := by
  induction related generalizing p with
  | nil => cases here
  | cons first _ ih =>
    cases p with
    | zero =>
      cases here
      exact ⟨_, rfl, first⟩
    | succ p => exact ih here

theorem Shown.of_label {k : Label} {d : Nat} (h : Shown size ⟨.label k, d⟩ a) :
    a = bodyLevel size d := by
  cases h with
  | body => rfl
  | padded pad => rcases pad with pad | pad | pad <;> cases pad

/-- In every run of the lines, each line is reached at its level. -/
theorem Steady.run {whole : List Line} {b : Level} (h : Steady whole size ⟨0, none⟩ whole b)
    {env : Env Symbol} {p : Nat} (run : Run env (whole.map Line.instr) (0, σ) (p, τ))
    (here : whole[p]? = some line) : ∃ a, Shown size line a ∧ a.Holds (σ.reg .rsp) τ := by
  obtain ⟨as, levels, shown⟩ := h
  have at_line {p : Nat} {line : Line} (here : whole[p]? = some line) :
      ∃ a, (as ++ [b])[p]? = some a ∧ Shown size line a := by
    obtain ⟨a, level, shows⟩ := getElem?_of_forall₂ shown here
    exact ⟨a, List.getElem?_append_left (List.getElem?_eq_some_iff.mp level).1 ▸ level, shows⟩
  have met : ∀ k c, Meets whole size k c → ∀ p : Nat,
      (whole.map Line.instr)[p]? = some (.label k) → (as ++ [b])[p]? = some c := by
    intro k c meets p label
    rw [List.getElem?_map, Option.map_eq_some_iff] at label
    obtain ⟨⟨i, d⟩, here, same⟩ := label
    obtain rfl : i = .label k := same
    obtain ⟨a, level, shows⟩ := at_line here
    rw [level, shows.of_label, meets d (List.mem_of_getElem? here)]
  have start : AtLevel (σ.reg .rsp) (as ++ [b]) (0, σ) :=
    ⟨⟨0, none⟩, levels.start, (sub_zero _).symm, fun n known => by cases known⟩
  obtain ⟨a, level, holds⟩ := levels.run met start run
  obtain ⟨a', level', shows⟩ := at_line here
  obtain rfl : a = a' := Option.some.inj (level.symm.trans level')
  exact ⟨a, shows, holds⟩

/-- Labels, jumps, and the pushes and pops of expressions: what has to find the words where they
were left. -/
def isExact : Asm → Bool
  | .label _ => true
  | .jmp _ => true
  | .jcc _ _ => true
  | .push r => !r.isStack
  | .pop r => !r.isStack
  | _ => false

/-- What holds at a line of a function with a frame of `size` bytes, called with `rsp = entry`. -/
structure Disciplined (entry : BitVec 64) (size : Nat) (line : Line) (σ : State) : Prop where
  shown : ∃ a, Shown size line a ∧ a.Holds entry σ
  words : isExact line.instr = true →
    σ.reg .rsp = entry - BitVec.ofNat 64 (8 + size + 8 * line.pushDepth)
  aligned : isCall line.instr = true → entry.toNat % 16 = 8 → (σ.reg .rsp).toNat % 16 = 0
  back : line.instr = .ret → σ.reg .rsp = entry

theorem aligned_words {size words : Nat} (frame : size % 16 = 0) (even : words % 2 = 0)
    (abi : entry.toNat % 16 = 8) :
    (entry - BitVec.ofNat 64 (8 + size + 8 * words)).toNat % 16 = 0 := by
  rw [BitVec.toNat_sub, BitVec.toNat_ofNat]
  have bound := entry.isLt
  omega

theorem isExact_of_padded {i : Asm} (pad : Padded i) : isExact i = false := by
  rcases pad with keeps | call | rfl
  · cases i <;> first | rfl | cases keeps
  · cases i <;> first | rfl | cases call
  · rfl

theorem not_padded_ret : ¬ Padded .ret := by
  rintro (keeps | call | same)
  · cases keeps
  · cases call
  · cases same

theorem disciplined_of_shown (frame : size % 16 = 0) (shown : Shown size line a)
    (holds : a.Holds entry σ) : Disciplined entry size line σ := by
  refine ⟨⟨a, shown, holds⟩, fun exact => ?_, fun call abi => ?_, fun ret => ?_⟩
  · cases shown with
    | body => exact holds.1
    | padded pad => exact absurd exact (by simp [isExact_of_padded pad])
    | _ => cases exact
  · cases shown with
    | body _ even | padded _ even =>
      rw [holds.1]
      exact aligned_words frame (even call) abi
    | _ => cases call
  · cases shown with
    | body inner => exact absurd ret inner
    | padded pad =>
      obtain rfl : _ = _ := ret
      exact absurd pad not_padded_ret
    | ret => exact holds.1.trans (sub_zero _)
    | _ => cases ret

theorem frameSize_aligned (cg : CodeGen) (f : FunctionDef) : frameSize cg f % 16 = 0 :=
  Nat.mod_eq_zero_of_dvd (Bump.dvd_roundUp _ _)

/-- `rsp` follows `push_depth` in every run of a function, when no `continue` and no `goto` leaves
a switch sideways. -/
theorem rsp_follows_pushDepth {x : Unit} (nested : WellNested f.body)
    (keeps : KeepsSwitches f.body) (run : Yields (codegenFunction f) cg x cg') :
    ∃ code, cg'.output = cg.output ++ code ∧
      ∀ (env : Env Symbol) (σ τ : State) (p : Nat) (line : Line),
        Run env (code.map Line.instr) (0, σ) (p, τ) → code[p]? = some line →
          Disciplined (σ.reg .rsp) (frameSize cg f) line τ := by
  obtain ⟨body, setup, code, mid, compiled⟩ := functionCode run
  refine ⟨functionLines f cg setup code, compiled.output, fun env σ τ p line reached here => ?_⟩
  obtain ⟨a, shown, holds⟩ := (compiled.steady nested keeps).run reached here
  exact disciplined_of_shown (frameSize_aligned cg f) shown holds

end function

/-- `void f() { for (;;) switch (5) { case 5: continue; } }` -/
def skips : FunctionDef where
  name := "f"
  declType := .void
  fullType := none
  params := []
  isVariadic := false
  isNoPrototype := false
  storage := .none
  body := [.forStmt none none none (.switchStmt (.intLiteral (.dec 5) .int false)
    (.caseSection 5 .continueStmt))]

/-- `void f() { for (;;) { switch (5) { case 5: break; } continue; } }` -/
def resumes : FunctionDef :=
  { skips with body := [.forStmt none none none (.block
    [.switchStmt (.intLiteral (.dec 5) .int false) (.caseSection 5 .breakStmt), .continueStmt])] }

theorem resumes_keeps : KeepsSwitches resumes.body := by
  constructor
  · intro loop switches member
    simp [resumes, Stmt.sitesList, Stmt.sites, Stmt.sitesOption] at member
    omega
  · intro name n m member
    simp [resumes, Stmt.sitesList, Stmt.sites, Stmt.sitesOption] at member

theorem resumes_disciplined : ∃ cg' code, Yields (codegenFunction resumes)
    (codegenInit [] fun _ => []) () cg' ∧ cg'.output = code ∧
      ∀ (env : Env Symbol) (σ τ : State) (p : Nat) (line : Line),
        Run env (code.map Line.instr) (0, σ) (p, τ) → code[p]? = some line →
          Disciplined (σ.reg .rsp) (frameSize (codegenInit [] fun _ => []) resumes) line τ := by
  obtain ⟨⟨⟩, cg', run⟩ : ∃ a cg', Yields (codegenFunction resumes) (codegenInit [] fun _ => []) a
    cg' := exists_yields (by decide +kernel)
  obtain ⟨code, output, disciplined⟩ :=
    rsp_follows_pushDepth (by decide +kernel) resumes_keeps run
  exact ⟨cg', code, run, output, disciplined⟩

/-- The `continue` arrives behind the switch with the value of the switch still pushed. -/
theorem skips_drifts : WellNested skips.body ∧ ∃ cg', Yields (codegenFunction skips)
    (codegenInit [] fun _ => []) () cg' ∧ ∃ σ τ p line,
      Run sampleEnv (cg'.output.map Line.instr) (0, σ) (p, τ) ∧ cg'.output[p]? = some line ∧
        ¬ Disciplined (σ.reg .rsp) (frameSize (codegenInit [] fun _ => []) skips) line τ := by
  refine ⟨by decide +kernel, ?_⟩
  obtain ⟨cg', run, text⟩ := exists_output
    (show (codegenFunction skips (codegenInit [] fun _ => [])).isOk = true by decide +kernel)
  have printed : (outputOf (codegenFunction skips) (codegenInit [] fun _ => [])).drop 15 =
      [⟨.label (.numbered .switchSec 3), 1⟩, ⟨.jmp (.numbered .continueTo 1), 1⟩] ++
        lines 1 [.label (.numbered .switchEnd 2), .label (.numbered .breakTo 2), addRsp 8] ++
        lines 0 ([.label (.numbered .continueTo 1), .jmp (.numbered .forStart 1),
          .label (.numbered .forEnd 1), .label (.numbered .breakTo 1)] ++ epilogue) := by
    decide +kernel
  have selects : (jumpsTo sampleEnv ((outputOf (codegenFunction skips)
      (codegenInit [] fun _ => [])).map Line.instr) (stateWith 0 0 0)).map
        (fun x => (x.1, x.2.reg .rsp)) = some (.numbered .switchSec 3, 0 - 64) := by
    decide +kernel
  rw [← text] at printed selects
  generalize output : cg'.output = code at printed selects
  have line (n : Nat) : code[15 + n]? = (code.drop 15)[n]? := List.getElem?_drop.symm
  rw [printed] at line
  obtain ⟨⟨target, τ⟩, jumps, same⟩ := Option.map_eq_some_iff.mp selects
  obtain ⟨rfl, stack⟩ := Prod.mk.inj same
  have at_line {n : Nat} {l : Line} (here : code[n]? = some l) :
      (code.map Line.instr)[n]? = some l.instr := by
    rw [List.getElem?_map, here]
    rfl
  have selected : Run sampleEnv (code.map Line.instr) (0, stateWith 0 0 0) (15, τ) :=
    run_of_jumpsTo jumps (at_line (line 0))
  have behind : Run sampleEnv (code.map Line.instr) (0, stateWith 0 0 0) (16, τ) :=
    .tail selected (.next (at_line (line 0)) rfl)
  have continued : Run sampleEnv (code.map Line.instr) (0, stateWith 0 0 0) (20, τ) :=
    .tail behind (.jump (at_line (line 1)) (at_line (line 5)))
  refine ⟨cg', run, stateWith 0 0 0, τ, 20, ⟨.label (.numbered .continueTo 1), 0⟩, ?_⟩
  rw [output]
  refine ⟨continued, line 5, fun kept => ?_⟩
  have words : (0 : BitVec 64) - 64 = 0 - BitVec.ofNat 64 (8 + 48 + 8 * 0) :=
    stack.symm.trans (kept.words rfl)
  exact absurd words (by decide)

end ClaudeC99
