import ClaudeC99.Codegen.Expression
import ClaudeC99.Lib.StateExcept
import ClaudeC99.Lib.X86Stack

/-! The shape of the code of expressions: what it pushes, and where its jumps go. -/

namespace ClaudeC99

open X86 StateExcept

/-- A word below the frame: pushed by a `push`, or reserved by moving `rsp`. -/
inductive Held
  | pushed | reserved
  deriving DecidableEq

def Plain (is : List Asm) : Prop := ∀ i ∈ is, i.keepsStack = true

def isCall : Asm → Bool
  | .call _ => true
  | .callReg _ => true
  | _ => false

def lines (d : Nat) (is : List Asm) : List Line := is.map fun i => ⟨i, d⟩

/-- `seg` is what some run of `m` at push depth `d` prints. -/
def Printed {α : Type} (m : Gen α) (d : Nat) (seg : List Line) : Prop :=
  ∃ cg a cg', Yields m cg a cg' ∧ cg.pushDepth = d ∧ cg'.output = cg.output ++ seg

/-- The condition, labels and value of a logical operator whose left operand decides it. -/
inductive ShortCircuit : BinaryOp → Cond → LabelKind → LabelKind → Int → Prop
  | and : ShortCircuit .logicalAnd .e .andFalse .andEnd 0
  | or : ShortCircuit .logicalOr .ne .orTrue .orEnd 1

/-- The operators that branch: the code of the test, of the part that a false jump condition
leads to, and of the part behind the first label. -/
inductive Branching (d : Nat) : Cond → LabelKind → LabelKind → List Line → List Line →
    List Line → Prop
  | logical {op short k₁ k₂ value test first second} (left right : Expr)
      (op : ShortCircuit op short k₁ k₂ value)
      (testCode : Printed (evalLogicalOperand (codegen left)) d test)
      (firstCode : Printed (evalSecondOperand (codegen right)) d first)
      (secondCode : Printed (emit (movImm .dword .rax value)) d second) :
      Branching d short k₁ k₂ test first second
  | conditional {test first second} (cond thenExpr elseExpr : Expr) (commonFp : TypeKind)
      (testCode : Printed (evalCondition (codegen cond)) d test)
      (firstCode : Printed (evalBranch commonFp (codegen thenExpr)) d first)
      (secondCode : Printed (evalBranch commonFp (codegen elseExpr)) d second) :
      Branching d .e .condFalse .condEnd test first second
  | vaArg {exhausted join test first second} (own : .vaArgOvf ≠ join) :
      Branching d exhausted .vaArgOvf join test first second

theorem Branching.distinct {d c k₁ k₂ test first second}
    (h : Branching d c k₁ k₂ test first second) : k₁ ≠ k₂ := by
  cases h with
  | logical left right op => cases op <;> decide
  | conditional => decide
  | vaArg own => exact own

/-- `ExprCode b S lo seg S' hi`: above `b` words that it never touches, `seg` takes the words `S`
to the words `S'`, its labels have ids from `lo` up to `hi`, and its jumps stay inside. -/
inductive ExprCode : Nat → List Held → Nat → List Line → List Held → Nat → Prop
  | nil (b S lo) : ExprCode b S lo [] S lo
  | plain {b S lo seg S' hi i} (code : ExprCode b S lo seg S' hi) (keeps : i.keepsStack = true) :
      ExprCode b S lo (seg ++ [⟨i, b + S'.length⟩]) S' hi
  | push {b S lo seg S' hi} (code : ExprCode b S lo seg S' hi) (r : Reg) :
      ExprCode b S lo (seg ++ [⟨.push r, b + S'.length⟩]) (.pushed :: S') hi
  | pop {b S lo seg S' hi r} (code : ExprCode b S lo seg (.pushed :: S') hi)
      (scratch : r.isStack = false) :
      ExprCode b S lo (seg ++ [⟨.pop r, b + S'.length + 1⟩]) S' hi
  | reserve {b S lo seg S' hi} (code : ExprCode b S lo seg S' hi) (n : Nat) :
      ExprCode b S lo (seg ++ [⟨subRsp (8 * n), b + S'.length⟩])
        (List.replicate n .reserved ++ S') hi
  | release {b S lo seg T S' hi} (code : ExprCode b S lo seg (T ++ S') hi) :
      ExprCode b S lo (seg ++ [⟨addRsp (8 * T.length), b + (T ++ S').length⟩]) S' hi
  /-- The push of `xmm0`, in two instructions. -/
  | pushXmm {b S lo seg S' hi} (code : ExprCode b S lo seg S' hi) (p : FpWidth) :
      ExprCode b S lo
        (seg ++ lines (b + S'.length) [subRsp 8, .fstore p (stackArg 0) 0]) (.reserved :: S') hi
  | call {b S lo seg S' hi c} (code : ExprCode b S lo seg S' hi) (isCall : isCall c = true)
      (even : (b + S'.length) % 2 = 0) :
      ExprCode b S lo (seg ++ [⟨c, b + S'.length⟩]) S' hi
  | paddedCall {b S lo seg S' hi setup c} (code : ExprCode b S lo seg S' hi)
      (plain : Plain setup) (isCall : isCall c = true) (odd : (b + S'.length) % 2 = 1) :
      ExprCode b S lo
        (seg ++ lines (b + S'.length) ([subRsp 8] ++ setup ++ [c, addRsp 8])) S' hi
  /-- A label id that no label uses. -/
  | skip {b S lo seg S' hi} (code : ExprCode b S lo seg S' hi) : ExprCode b S lo seg S' (hi + 1)
  | sub {b S lo seg S' mid inner hi} (code : ExprCode b S lo seg S' mid)
      (own : ExprCode (b + S'.length) [] mid inner [] hi) : ExprCode b S lo (seg ++ inner) S' hi
  /-- `test; jcc k₁; first; jmp k₂; k₁: second; k₂:` -/
  | branch {b S lo seg S' id test m₁ first m₂ second hi} (code : ExprCode b S lo seg S' id)
      (testCode : ExprCode (b + S'.length) [] (id + 1) test [] m₁)
      (firstCode : ExprCode (b + S'.length) [] m₁ first [] m₂)
      (secondCode : ExprCode (b + S'.length) [] m₂ second [] hi)
      {c : Cond} {k₁ k₂ : LabelKind} (op : Branching (b + S'.length) c k₁ k₂ test first second) :
      ExprCode b S lo (seg ++ (test ++ [⟨.jcc c (.numbered k₁ id), b + S'.length⟩] ++ first ++
        lines (b + S'.length) [.jmp (.numbered k₂ id), .label (.numbered k₁ id)] ++ second ++
        [⟨.label (.numbered k₂ id), b + S'.length⟩])) S' hi

namespace ExprCode

theorem append {b S lo seg₁ S₁ mid seg₂ S₂ hi} (first : ExprCode b S lo seg₁ S₁ mid)
    (second : ExprCode b S₁ mid seg₂ S₂ hi) : ExprCode b S lo (seg₁ ++ seg₂) S₂ hi := by
  induction second with
  | nil => simpa using first
  | plain _ keeps ih => simpa using (ih first).plain keeps
  | push _ r ih => simpa using (ih first).push r
  | pop _ scratch ih => simpa using (ih first).pop scratch
  | reserve _ n ih => simpa using (ih first).reserve n
  | release _ ih => simpa using (ih first).release
  | pushXmm _ p ih => simpa using (ih first).pushXmm p
  | call _ isCall even ih => simpa using (ih first).call isCall even
  | paddedCall _ plain isCall odd ih => simpa using (ih first).paddedCall plain isCall odd
  | skip _ ih => exact (ih first).skip
  | sub _ own ih _ => simpa using (ih first).sub own
  | branch _ t f s op ih _ _ _ => simpa using (ih first).branch t f s op

theorem lines {b S lo} {is : List Asm} (plain : Plain is) :
    ExprCode b S lo (lines (b + S.length) is) S lo := by
  induction is with
  | nil => exact .nil b S lo
  | cons i is ih =>
    have first := (nil b S lo).plain (plain i (by simp))
    exact first.append (ih fun j hj => plain j (List.mem_cons_of_mem i hj))

end ExprCode

end ClaudeC99
