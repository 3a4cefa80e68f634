import ClaudeC99.Codegen.Statement
import ClaudeC99.Stack.Expressions

/-! The shape of the code of statements: where each construct puts its labels and jumps. -/

namespace ClaudeC99

open X86 StateExcept

/-- A statement, or the rest of a statement list from child `index` on. -/
inductive Piece
  | stmt (s : Stmt)
  | list (index : Nat) (ss : List Stmt)

/-- `seg` is what `m` printed at push depth `d`, drawing label ids from `lo` up to `hi`. -/
structure Compiled {α : Type} (m : Gen α) (d lo : Nat) (seg : List Line) (hi : Nat) : Prop where
  code : ExprCode d [] lo seg [] hi
  printed : ∃ cg a cg', Yields m cg a cg' ∧ cg.pushDepth = d ∧ cg.labelCount = lo ∧
    cg'.output = cg.output ++ seg ∧ cg'.labelCount = hi

def epilogue : List Asm :=
  [movMem .qword .r12 (frame 16), movMem .qword .r13 (frame 24),
    movMem .qword .r14 (frame 32), movMem .qword .r15 (frame 40),
    movMem .qword .rbx (frame 8), movReg .qword .rsp .rbp, .pop .rbp, .ret]

/-- Statements that contain no jump of their own. -/
def Stmt.isStraight : Stmt → Bool
  | .declaration _ _ | .exprStmt _ | .typedefDecl _ => true
  | _ => false

/-- The test of a `for` loop, when it has one, and its jump out. -/
inductive ForTest (d id lo : Nat) : Option Expr → List Line → Nat → Prop
  | none : ForTest d id lo none [] lo
  | some {cond seg hi} (code : Compiled (genCondition (codegen cond)) d lo seg hi) :
      ForTest d id lo (some cond) (seg ++ [⟨.jcc .e (.numbered .forEnd id), d⟩]) hi

/-- `StmtCode func labels bs ss d lo node p seg hi`: in a function with the user labels `labels`,
`seg` is the code of the piece `p` at path `node`, inside the loops and switches `bs` and the
switches `ss`, printed at push depth `d`, with label ids from `lo` up to `hi`. -/
inductive StmtCode (func : String) (labels : List String) : List BreakFrame → List SwitchCtx →
    Nat → Nat → List Nat → Piece → List Line → Nat → Prop
  | straight {bs ss node s seg} {d lo hi : Nat} (straight : s.isStraight = true)
      (code : ExprCode d [] lo seg [] hi) (printed : Printed (codegenStatement node s) d seg) :
      StmtCode func labels bs ss d lo node (.stmt s) seg hi
  | returns {bs ss node value seg} {d lo hi : Nat} (code : ExprCode d [] lo seg [] hi)
      (printed : Printed (codegenStatement node (.returnStmt value)) d (seg ++ lines d epilogue)) :
      StmtCode func labels bs ss d lo node (.stmt (.returnStmt value)) (seg ++ lines d epilogue) hi
  | declList {bs ss node decls seg} {d lo hi : Nat}
      (code : StmtCode func labels bs ss d lo node (.list 0 decls) seg hi) :
      StmtCode func labels bs ss d lo node (.stmt (.declList decls)) seg hi
  | block {bs ss node stmts seg} {d lo hi : Nat}
      (code : StmtCode func labels bs ss d lo node (.list 0 stmts) seg hi) :
      StmtCode func labels bs ss d lo node (.stmt (.block stmts)) seg hi
  | nil {bs ss node index} {d lo : Nat} : StmtCode func labels bs ss d lo node (.list index []) [] lo
  | cons {bs ss node index s rest first second} {d lo mid hi : Nat}
      (head : StmtCode func labels bs ss d lo (node ++ [index]) (.stmt s) first mid)
      (tail : StmtCode func labels bs ss d mid node (.list (index + 1) rest) second hi) :
      StmtCode func labels bs ss d lo node (.list index (s :: rest)) (first ++ second) hi
  | ifThen {bs ss node cond thenBody test seg} {d lo m₁ hi : Nat}
      (condCode : Compiled (genCondition (codegen cond)) d (lo + 1) test m₁)
      (thenCode : StmtCode func labels bs ss d m₁ (node ++ [1]) (.stmt thenBody) seg hi) :
      StmtCode func labels bs ss d lo node (.stmt (.ifStmt cond thenBody none))
        (test ++ [⟨.jcc .e (.numbered .endIf lo), d⟩] ++ seg ++
          [⟨.label (.numbered .endIf lo), d⟩]) hi
  | ifElse {bs ss node cond thenBody elseBody test first second} {d lo m₁ m₂ hi : Nat}
      (condCode : Compiled (genCondition (codegen cond)) d (lo + 1) test m₁)
      (thenCode : StmtCode func labels bs ss d m₁ (node ++ [1]) (.stmt thenBody) first m₂)
      (elseCode : StmtCode func labels bs ss d m₂ (node ++ [2]) (.stmt elseBody) second hi) :
      StmtCode func labels bs ss d lo node (.stmt (.ifStmt cond thenBody (some elseBody)))
        (test ++ [⟨.jcc .e (.numbered .elseBranch lo), d⟩] ++ first ++
          lines d [.jmp (.numbered .endIf lo), .label (.numbered .elseBranch lo)] ++ second ++
          [⟨.label (.numbered .endIf lo), d⟩]) hi
  | whileLoop {bs ss node cond body test seg} {d lo m₁ hi : Nat}
      (condCode : Compiled (genCondition (codegen cond)) d (lo + 1) test m₁)
      (bodyCode : StmtCode func labels (⟨lo, lo⟩ :: bs) ss d m₁ (node ++ [1]) (.stmt body) seg hi) :
      StmtCode func labels bs ss d lo node (.stmt (.whileStmt cond body))
        (lines d [.label (.numbered .whileStart lo), .label (.numbered .continueTo lo)] ++ test ++
          [⟨.jcc .e (.numbered .whileEnd lo), d⟩] ++ seg ++
          lines d [.jmp (.numbered .whileStart lo), .label (.numbered .whileEnd lo),
            .label (.numbered .breakTo lo)]) hi
  | doLoop {bs ss node cond body seg test} {d lo m₁ hi : Nat}
      (bodyCode : StmtCode func labels (⟨lo, lo⟩ :: bs) ss d (lo + 1) (node ++ [0]) (.stmt body) seg m₁)
      (condCode : Compiled (genCondition (codegen cond)) d m₁ test hi) :
      StmtCode func labels bs ss d lo node (.stmt (.doWhileStmt body cond))
        ([⟨.label (.numbered .doStart lo), d⟩] ++ seg ++
          [⟨.label (.numbered .continueTo lo), d⟩] ++ test ++
          lines d [.jcc .ne (.numbered .doStart lo), .label (.numbered .doEnd lo),
            .label (.numbered .breakTo lo)]) hi
  | forLoop {bs ss node init cond update body start test seg step} {d lo m₁ m₂ m₃ hi : Nat}
      (initCode : StmtCode func labels (⟨lo, lo⟩ :: bs) ss d (lo + 1) node (.list 0 init.toList) start m₁)
      (condCode : ForTest d lo m₁ cond test m₂)
      (bodyCode : StmtCode func labels (⟨lo, lo⟩ :: bs) ss d m₂ (node ++ [3]) (.stmt body) seg m₃)
      (updateCode : Compiled (genForUpdate (update.map codegen)) d m₃ step hi) :
      StmtCode func labels bs ss d lo node (.stmt (.forStmt init cond update body))
        (start ++ [⟨.label (.numbered .forStart lo), d⟩] ++ test ++ seg ++
          [⟨.label (.numbered .continueTo lo), d⟩] ++ step ++
          lines d [.jmp (.numbered .forStart lo), .label (.numbered .forEnd lo),
            .label (.numbered .breakTo lo)]) hi
  | switchOn {bs ss node value body ctx scrutinee seg} {d lo m₀ m₁ hi : Nat} (w : Width)
      (table : collectSwitchLabels (node ++ [1]) body (lo + 1, ⟨[], -1⟩) = (m₀, ctx))
      (valueCode : Compiled (codegen value).codegenExpression d m₀ scrutinee m₁)
      (bodyCode : StmtCode func labels (⟨lo, -1⟩ :: bs) (ctx :: ss) (d + 1) m₁ (node ++ [1])
        (.stmt body) seg hi) :
      StmtCode func labels bs ss d lo node (.stmt (.switchStmt value body))
        (scrutinee ++ [⟨.push .rax, d⟩] ++
          lines (d + 1) (ctx.entries.flatMap (dispatchCase w) ++ [switchDefault ctx lo]) ++ seg ++
          lines (d + 1) [.label (.numbered .switchEnd lo), .label (.numbered .breakTo lo),
            addRsp 8]) hi
  | caseLabel {bs ctx ss node body seg} {d lo hi : Nat} (value : Int)
      (code : StmtCode func labels bs (ctx :: ss) d lo (node ++ [1]) (.stmt body) seg hi) :
      StmtCode func labels bs (ctx :: ss) d lo node (.stmt (.caseSection value body))
        ([⟨.label (.numbered .switchSec (switchLookupLabel ctx node)), d⟩] ++ seg) hi
  | defaultLabel {bs ctx ss node body seg} {d lo hi : Nat}
      (code : StmtCode func labels bs (ctx :: ss) d lo (node ++ [0]) (.stmt body) seg hi) :
      StmtCode func labels bs (ctx :: ss) d lo node (.stmt (.defaultSection body))
        ([⟨.label (.numbered .switchSec (switchLookupLabel ctx node)), d⟩] ++ seg) hi
  | breakOut {top bs ss node} {d lo : Nat} :
      StmtCode func labels (top :: bs) ss d lo node (.stmt .breakStmt)
        [⟨.jmp (.numbered .breakTo top.breakLabel), d⟩] lo
  | continueLoop {bs ss node} {d lo : Nat} :
      StmtCode func labels bs ss d lo node (.stmt .continueStmt)
        [⟨.jmp (.numbered .continueTo (continueTarget bs)), d⟩] lo
  | goto {bs ss node name} {d lo : Nat} (known : name ∈ labels) :
      StmtCode func labels bs ss d lo node (.stmt (.gotoStmt name)) [⟨.jmp (.user func name), d⟩] lo
  | userLabel {bs ss node name body seg} {d lo hi : Nat}
      (code : StmtCode func labels bs ss d lo (node ++ [0]) (.stmt body) seg hi) :
      StmtCode func labels bs ss d lo node (.stmt (.labelStmt name body))
        ([⟨.label (.user func name), d⟩] ++ seg) hi

end ClaudeC99
