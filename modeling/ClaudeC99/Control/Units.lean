import ClaudeC99.Control.Jumps

/-! The functions of a translation unit, compiled one after another. -/

namespace ClaudeC99

open X86 StateExcept

/-- The loop of `codegen_translation_unit` over the function definitions. -/
def codegenFunctions : List FunctionDef → Gen Unit
  | [] => pure ()
  | f :: fs => do
    codegenFunction f
    codegenFunctions fs

/-- The codes of functions, from one state to another. -/
structure UnitCode (fs : List FunctionDef) (cg cg' : CodeGen) (codes : List (List Line)) : Prop where
  length : codes.length = fs.length
  output : cg'.output = cg.output ++ codes.flatten
  texts : ∀ code ∈ codes, ((labelsOf code).map Label.text).Nodup
  defines : ∃ own, (∀ k id, own.count (.numbered k id) = 0) ∧
    Defines cg.labelCount own codes.flatten cg'.labelCount
  breakStack : cg'.breakStack = cg.breakStack
  switchStack : cg'.switchStack = cg.switchStack

section units

variable {f : FunctionDef} {fs : List FunctionDef} {cg mid cg' : CodeGen}
  {codes : List (List Line)} {x : Unit}

theorem UnitCode.nil : UnitCode [] cg cg [] where
  length := rfl
  output := (List.append_nil _).symm
  texts := by simp
  defines := ⟨[], fun _ _ => rfl, .exact _ rfl⟩
  breakStack := rfl
  switchStack := rfl

/-- One more function, with the labels from `cg` on. -/
theorem UnitCode.cons (nested : WellNested f.body) (first : Yields (codegenFunction f) cg x mid)
    (rest : UnitCode fs mid cg' codes) : ∃ code, UnitCode (f :: fs) cg cg' (code :: codes) := by
  obtain ⟨body, setup, code, start, compiled⟩ := functionCode first
  obtain ⟨own, plain, defines⟩ := rest.defines
  refine ⟨functionLines f cg setup code, ?_⟩
  constructor
  · simp only [List.length_cons, rest.length]
  · rw [rest.output, compiled.output, List.flatten_cons, List.append_assoc]
    rfl
  · exact List.forall_mem_cons.mpr ⟨compiled.texts_nodup nested, rest.texts⟩
  · refine ⟨_, fun k id => ?_, (compiled.defines nested).append defines⟩
    simp [List.count_append, plain, List.count_eq_zero]
  · exact rest.breakStack.trans compiled.breakStack
  · exact rest.switchStack.trans compiled.switchStack

theorem unitCode (nested : ∀ f ∈ fs, WellNested f.body)
    (run : Yields (codegenFunctions fs) cg x cg') : ∃ codes, UnitCode fs cg cg' codes := by
  induction fs generalizing cg with
  | nil =>
    obtain ⟨-, rfl⟩ := yields_pure.mp run
    exact ⟨[], .nil⟩
  | cons f fs ih =>
    obtain ⟨_, mid, first, rest⟩ := yields_bind.mp run
    obtain ⟨own, others⟩ := List.forall_mem_cons.mp nested
    obtain ⟨codes, compiled⟩ := ih others rest
    obtain ⟨code, whole⟩ := compiled.cons own first
    exact ⟨code :: codes, whole⟩

/-- In a unit no numbered label is used twice, no function has two labels of one text, and nothing
is left on the stacks of loops and switches. -/
theorem functions_apart (nested : ∀ f ∈ fs, WellNested f.body)
    (run : Yields (codegenFunctions fs) cg x cg') :
    ∃ codes : List (List Line), codes.length = fs.length ∧
      cg'.output = cg.output ++ codes.flatten ∧
      (∀ k id, (labelsOf codes.flatten).count (.numbered k id) ≤ 1) ∧
      (∀ code ∈ codes, ((labelsOf code).map Label.text).Nodup) ∧
      cg'.breakStack = cg.breakStack ∧ cg'.switchStack = cg.switchStack := by
  obtain ⟨codes, compiled⟩ := unitCode nested run
  obtain ⟨own, plain, defines⟩ := compiled.defines
  refine ⟨codes, compiled.length, compiled.output, fun k id => ?_, compiled.texts,
    compiled.breakStack, compiled.switchStack⟩
  have le := defines.le_own (.numbered k id)
  have room := (Label.numbered k id).room_le_one cg.labelCount cg'.labelCount
  rw [plain k id] at le
  omega

end units

theorem retries_apart : ∃ (cg' : CodeGen) (codes : List (List Line)), codes.length = 2 ∧
    cg'.output = codes.flatten ∧
      (∀ k id, (labelsOf codes.flatten).count (.numbered k id) ≤ 1) ∧
      (∀ code ∈ codes, ((labelsOf code).map Label.text).Nodup) ∧
      cg'.breakStack = [] ∧ cg'.switchStack = [] := by
  obtain ⟨⟨⟩, cg', run⟩ : ∃ a cg', Yields (codegenFunctions [retries, retries])
    (codegenInit [] fun _ => []) a cg' := exists_yields (by decide +kernel)
  have nested : WellNested retries.body := by decide +kernel
  obtain ⟨codes, apart⟩ := functions_apart (by simp [nested]) run
  exact ⟨cg', codes, apart⟩

end ClaudeC99
