import ClaudeC99.Stack.Statements
import ClaudeC99.Values.Registers

/-! What stands behind the code of an operand. -/

namespace ClaudeC99

open X86 StateExcept

/-- `m` only adds to the code. -/
def AddsCode {α : Type} (m : Gen α) : Prop :=
  ∀ cg a cg', Yields m cg a cg' → ∃ is, cg'.code = cg.code ++ is

/-- Every run of `m` has the code of `e` and then, by the kind that the node of `e` is given, code
of this form. -/
def Embeds {α : Type} (e : Expr) (form : TypeKind → List Asm → Prop) (m : Gen α) : Prop :=
  ∀ cg x cg', Yields m cg x cg' → ∃ start a mid before is after,
    start.code = cg.code ++ before ∧ Yields (codegenExpression e) start a mid ∧
      form a.resultType is ∧ cg'.code = mid.code ++ is ++ after

section rules

variable {α β : Type} {e : Expr} {form : TypeKind → List Asm → Prop}

theorem code_of_output {cg cg' : CodeGen} {seg : List Line} (output : cg'.output = cg.output ++ seg) :
    cg'.code = cg.code ++ seg.map Line.instr := by
  rw [CodeGen.code, output, List.map_append, CodeGen.code]

theorem code_congr {cg cg' : CodeGen} (same : cg'.output = cg.output) : cg'.code = cg.code :=
  congrArg (List.map Line.instr) same

namespace AddsCode

theorem bind {m : Gen α} {k : α → Gen β} (first : AddsCode m) (rest : ∀ a, AddsCode (k a)) :
    AddsCode (m >>= k) := by
  intro cg b cg' run
  obtain ⟨a, mid, run, run'⟩ := yields_bind.mp run
  obtain ⟨is, code⟩ := first cg a mid run
  obtain ⟨js, code'⟩ := rest a mid b cg' run'
  exact ⟨is ++ js, by rw [code', code, List.append_assoc]⟩

theorem emitAll (is : List Asm) : AddsCode (emitAll is) := by
  intro cg a cg' run
  obtain rfl := yields_emitAll.mp run
  exact ⟨is, code_print cg is⟩

theorem emit (i : Asm) : AddsCode (emit i) := by
  intro cg a cg' run
  obtain rfl := yields_emit.mp run
  exact ⟨[i], code_print cg [i]⟩

protected theorem pure (a : α) : AddsCode (pure a : Gen α) := by
  intro cg b cg' run
  obtain ⟨-, rfl⟩ := yields_pure.mp run
  exact ⟨[], (List.append_nil _).symm⟩

theorem lift (x : Except String α) : AddsCode (liftM x : Gen α) := by
  intro cg a cg' run
  obtain ⟨-, rfl⟩ := yields_lift.mp run
  exact ⟨[], (List.append_nil _).symm⟩

theorem throw (message : String) : AddsCode (throw message : Gen α) :=
  fun _ _ _ run => absurd run yields_throw

protected theorem get : AddsCode (get : Gen CodeGen) := by
  intro cg a cg' run
  obtain ⟨-, rfl⟩ := yields_get.mp run
  exact ⟨[], (List.append_nil _).symm⟩

/-- The tables beside the code may change. -/
theorem modify {f : CodeGen → CodeGen} (same : ∀ cg, (f cg).output = cg.output) :
    AddsCode (modify f) := by
  intro cg a cg' run
  obtain rfl := yields_modify.mp run
  exact ⟨[], by rw [List.append_nil, code_congr (same cg)]⟩

theorem newLabel : AddsCode newLabel := by
  intro cg id cg' run
  obtain ⟨_, _, fresh, run⟩ := yields_bind.mp run
  obtain ⟨rfl, rfl⟩ := yields_get.mp fresh
  obtain ⟨_, _, set, run⟩ := yields_bind.mp run
  obtain rfl := yields_set.mp set
  obtain ⟨-, rfl⟩ := yields_pure.mp run
  exact ⟨[], (List.append_nil _).symm⟩

theorem expression (e : Expr) : AddsCode (codegen e).codegenExpression := by
  intro cg a cg' run
  obtain ⟨seg, output, -⟩ := (neutral_codegenExpression (u := cg) e cg.pushDepth cg a cg' rfl rfl run).code
  exact ⟨_, code_of_output output⟩

theorem statement (node : List Nat) (s : Stmt) : AddsCode (codegenStatement node s) := by
  intro cg a cg' run
  obtain ⟨-, seg, -, -, output, -⟩ :=
    compiles_codegenStatement (u := cg) node s cg.scope cg.labelCount cg a cg' rfl rfl rfl run
  exact ⟨_, code_of_output output⟩

theorem forInit (node : List Nat) (init : Option Stmt) : AddsCode (codegenForInit node init) := by
  cases init with
  | none => exact .pure ()
  | some s => exact statement node s

theorem genForUpdate (update : Option Expr) : AddsCode (genForUpdate (update.map codegen)) := by
  cases update with
  | none => exact .pure ()
  | some e => exact bind (expression e) fun _ => .pure ()

end AddsCode

/-- The operand's code, and code that depends on its kind. -/
def withCode (e : Expr) (code : TypeKind → List Asm) : Gen Unit := do
  let a ← (codegen e).codegenExpression
  emitAll (code a.resultType)

theorem yields_withCode {code : TypeKind → List Asm} {cg cg' : CodeGen} {x : Unit} :
    Yields (withCode e code) cg x cg' ↔
      ∃ a mid, Yields (codegenExpression e) cg a mid ∧ mid.print (code a.resultType) = cg' := by
  simp only [withCode, yields_bind, yields_emitAll]
  rfl

namespace Embeds

theorem here {code : TypeKind → List Asm} (holds : ∀ kind, form kind (code kind)) :
    Embeds e form (withCode e code) := by
  intro cg x cg' run
  obtain ⟨a, mid, operand, rfl⟩ := yields_withCode.mp run
  exact ⟨cg, a, mid, [], code a.resultType, [], (List.append_nil _).symm, operand, holds _,
    by rw [code_print, List.append_nil]⟩

/-- What is printed next belongs to the form as well. -/
theorem printed {code : TypeKind → List Asm} {m : Gen Unit} {is : List Asm}
    (prints : ∀ cg x cg', Yields m cg x cg' → cg.print is = cg')
    (holds : ∀ kind, form kind (code kind ++ is)) :
    Embeds e form (withCode e code >>= fun _ => m) := by
  intro cg x cg' run
  obtain ⟨_, last, run, print⟩ := yields_bind.mp run
  obtain ⟨a, mid, operand, rfl⟩ := yields_withCode.mp run
  obtain rfl := prints _ _ _ print
  refine ⟨cg, a, mid, [], code a.resultType ++ is, [], (List.append_nil _).symm, operand, holds _, ?_⟩
  rw [code_print, code_print, List.append_nil, List.append_assoc]

theorem emit {code : TypeKind → List Asm} {i : Asm} (holds : ∀ kind, form kind (code kind ++ [i])) :
    Embeds e form (withCode e code >>= fun _ => ClaudeC99.emit i) :=
  printed (fun _ _ _ => yields_emit.mp) holds

theorem emitAll {code : TypeKind → List Asm} {is : List Asm}
    (holds : ∀ kind, form kind (code kind ++ is)) :
    Embeds e form (withCode e code >>= fun _ => ClaudeC99.emitAll is) :=
  printed (fun _ _ _ => yields_emitAll.mp) holds

theorem after {m : Gen α} {k : α → Gen β} (first : AddsCode m) (rest : ∀ a, Embeds e form (k a)) :
    Embeds e form (m >>= k) := by
  intro cg b cg' run
  obtain ⟨a, mid, run, run'⟩ := yields_bind.mp run
  obtain ⟨is, code⟩ := first cg a mid run
  obtain ⟨start, a', mid', before, js, after, begins, run', holds, ends⟩ := rest a mid b cg' run'
  refine ⟨start, a', mid', is ++ before, js, after, ?_, run', holds, ends⟩
  rw [begins, code, List.append_assoc]

theorem before {m : Gen α} {k : α → Gen β} (first : Embeds e form m) (rest : ∀ a, AddsCode (k a)) :
    Embeds e form (m >>= k) := by
  intro cg b cg' run
  obtain ⟨a, mid, run, run'⟩ := yields_bind.mp run
  obtain ⟨start, a', mid', before, js, after, begins, run, holds, ends⟩ := first cg a mid run
  obtain ⟨is, code⟩ := rest a mid b cg' run'
  refine ⟨start, a', mid', before, js, after ++ is, begins, run, holds, ?_⟩
  rw [code, ends, List.append_assoc]

theorem inScope {m : Gen Unit} (body : Embeds e form m) : Embeds e form (inScope m) := by
  intro cg x cg' run
  obtain ⟨_, _, fresh, run⟩ := yields_bind.mp run
  obtain ⟨rfl, rfl⟩ := yields_get.mp fresh
  obtain ⟨_, _, set, run⟩ := yields_bind.mp run
  obtain rfl := yields_set.mp set
  obtain ⟨_, last, inner, leave⟩ := yields_bind.mp run
  obtain rfl := yields_modify.mp leave
  obtain ⟨start, a, mid, before, is, after, begins, operand, holds, ends⟩ := body _ _ last inner
  exact ⟨start, a, mid, before, is, after, begins, operand, holds, ends⟩

end Embeds

end rules

end ClaudeC99
