import ClaudeC99.Peephole.Texts

/-! The rewritten program follows the original one. -/

namespace ClaudeC99.Peephole

open X86 (Reg Operand State Slack Alike)

/-- The program that the optimizer writes. -/
def optimized (lines : List Line) : List Line := peepholeApply builtinPatterns lines

theorem optimized_nil : optimized [] = [] := by
  rw [optimized, peepholeApply]

theorem optimized_of_none {line : Line} {rest : List Line}
    (h : firstMatch builtinPatterns (line :: rest) = none) :
    optimized (line :: rest) = line :: optimized rest := by
  rw [optimized, peepholeApply, h]
  rfl

theorem optimized_of_some {line : Line} {rest : List Line} {p : PeepholePattern}
    (h : firstMatch builtinPatterns (line :: rest) = some p) :
    optimized (line :: rest) =
      p.replacer ((line :: rest).take p.windowSize) ++
        optimized ((line :: rest).drop p.windowSize) := by
  rw [optimized, peepholeApply, h]
  rfl

/-! ### Labels -/

theorem findLabel_cons (line : Line) (rest : List Line) (name : Line) :
    findLabel (line :: rest) name =
      if labelOf line = some name then some (line :: rest) else findLabel rest name := by
  rw [findLabel, List.dropWhile_cons]
  by_cases h : labelOf line = some name <;> simp [h, findLabel]

theorem findLabel_append {window rest : List Line} {name : Line}
    (h : ∀ line ∈ window, labelOf line = none) :
    findLabel (window ++ rest) name = findLabel rest name := by
  induction window with
  | nil => rfl
  | cons line window ih =>
    have h_line := h line List.mem_cons_self
    rw [List.cons_append, findLabel_cons, if_neg (by simp [h_line])]
    exact ih fun l h_mem => h l (List.mem_cons_of_mem _ h_mem)

theorem labelOf_of_findLabel {prog rest : List Line} {line name : Line}
    (h : findLabel prog name = some (line :: rest)) : labelOf line = some name := by
  induction prog with
  | nil => cases h
  | cons first prog ih =>
    rw [findLabel_cons] at h
    split at h
    next h_label =>
      cases h
      exact h_label
    · exact ih h

theorem length_lt_cons_cons {α : Type} (a b : α) (l : List α) :
    l.length < (a :: b :: l).length := by
  simp only [List.length_cons]
  omega

theorem labelOf_xorLine_take (line : Line) (reg : String) (n : Nat) :
    labelOf ((xorLine line reg).take n) = none :=
  labelOf_take (c := ' ') mnemonic_xor rfl (fun _ => blank_of_mem_copyIndentation) n

theorem labelOf_movLine_take (line dst src : Line) (n : Nat) :
    labelOf ((movLine line dst src).take n) = none :=
  labelOf_take (c := ' ') mnemonic_mov rfl (fun _ => blank_of_mem_copyIndentation) n

/-- A window whose lines are no labels has no label among its replacement, and one that ends in a
label keeps it. -/
theorem optimized_window {line : Line} {rest : List Line} {p : PeepholePattern}
    (h : firstMatch builtinPatterns (line :: rest) = some p) :
    (∃ window rest' out, line :: rest = window ++ rest' ∧ rest'.length < (line :: rest).length ∧
      optimized (line :: rest) = out ++ optimized rest' ∧
      (∀ l ∈ window, labelOf l = none) ∧ ∀ l ∈ out, labelOf l = none) ∨
    ∃ second rest', rest = second :: rest' ∧ labelOf line = none ∧
      optimized (line :: rest) = second :: optimized rest' := by
  have h_matcher := matcher_of_firstMatch h
  have h_first := labelOf_of_firstMatch h
  have h_some := optimized_of_some h
  have h_size : p.windowSize ≤ (line :: rest).length := by
    have h_holds := List.find?_some h
    simp only [decide_eq_true_eq] at h_holds
    exact h_holds.1
  have h_mem : p ∈ builtinPatterns := List.mem_of_find?_eq_some h
  simp only [builtinPatterns, List.mem_cons, List.not_mem_nil, or_false] at h_mem
  rcases h_mem with h | h | h | h | h | h <;> rw [h] at h_matcher h_size h_some
  case inl =>
    obtain ⟨reg, h_reg, h_label⟩ := zeroReg_window h_matcher
    refine .inl ⟨[line], rest, _, rfl, by simp, h_some, by simpa using h_first, ?_⟩
    simp [zeroReg, h_reg, labelOf_xorLine_take]
  case inr.inl =>
    exact .inl ⟨[line], rest, [], rfl, by simp, h_some, by simpa using h_first, by simp⟩
  all_goals
    cases rest with
    | nil => exact absurd h_size (Nat.not_succ_le_self 1)
    | cons second rest => ?_
  case inr.inr.inl =>
    obtain ⟨r₀, r₁, h_r₀, h_r₁, h_label₀, h_label₁⟩ := pushPop_window h_matcher
    refine .inl ⟨[line, second], rest, _, rfl, length_lt_cons_cons _ _ _, h_some, by simp [h_label₀, h_label₁], ?_⟩
    intro l h_l
    simp only [pushPop, List.take_succ_cons, List.take_zero, h_r₀, h_r₁] at h_l
    split at h_l
    · cases h_l
    · rw [List.mem_singleton.mp h_l]
      exact labelOf_movLine_take _ _ _ _
  case inr.inr.inr.inl =>
    have h_labels := redundantReload_window h_matcher
    refine .inl ⟨[line, second], rest, [line], rfl, length_lt_cons_cons _ _ _, h_some, ?_, ?_⟩ <;> simp [h_labels]
  case inr.inr.inr.inr.inl =>
    have h_labels := redundantStore_window h_matcher
    refine .inl ⟨[line, second], rest, [second], rfl, length_lt_cons_cons _ _ _, h_some, ?_, ?_⟩ <;> simp [h_labels]
  case inr.inr.inr.inr.inr =>
    exact .inr ⟨second, rest, rfl, h_first, h_some⟩

/-- Labels stand at corresponding places of both programs. -/
theorem findLabel_optimized (lines : List Line) (name : Line) :
    findLabel (optimized lines) name = (findLabel lines name).map optimized := by
  induction h_length : lines.length using Nat.strongRecOn generalizing lines with
  | ind n ih =>
    cases lines with
    | nil => rw [optimized_nil]; rfl
    | cons line rest =>
      have ih_rest (rest' : List Line) (h_lt : rest'.length < (line :: rest).length) :=
        ih rest'.length (h_length ▸ h_lt) rest' rfl
      cases h_match : firstMatch builtinPatterns (line :: rest) with
      | none =>
        have h_eq := optimized_of_none h_match
        rw [h_eq, findLabel_cons, findLabel_cons, ih_rest rest (by simp)]
        split
        · rw [Option.map_some, h_eq]
        · rfl
      | some p =>
        rcases optimized_window h_match with
          ⟨window, rest', out, h_lines, h_lt, h_eq, h_window, h_out⟩ |
            ⟨second, rest', rfl, h_line, h_eq⟩
        · rw [h_eq, findLabel_append h_out, h_lines, findLabel_append h_window, ih_rest rest' h_lt]
        · have h_skip : findLabel (line :: second :: rest') name =
              findLabel (second :: rest') name := by
            rw [findLabel_cons, if_neg (by simp [h_line])]
          rw [h_eq, h_skip, findLabel_cons, findLabel_cons,
            ih_rest rest' (length_lt_cons_cons _ _ _)]
          split
          next h_label =>
            cases h_second : firstMatch builtinPatterns (second :: rest') with
            | none => rw [Option.map_some, optimized_of_none h_second]
            | some q =>
              rw [labelOf_of_firstMatch h_second] at h_label
              cases h_label
          · rfl

/-! ### The meaning of the lines in a window -/

theorem decode_of_mov {line text : Line} (h : after "mov " (skipBlanks line) = some text) :
    decode line = decodeMov text := by
  simp only [decode, h]

theorem stackOperand_of_push {line r : Line} {o : Operand}
    (h_after : after "push " (skipBlanks line) = some r)
    (h_decode : decode line = some (.push o)) : stackOperand r = some o := by
  have h_line := eq_of_after h_after
  have h_mov : after "mov " (skipBlanks line) = none := by
    rw [h_line]
    rfl
  have h_xor : after "xor " (skipBlanks line) = none := by
    rw [h_line]
    rfl
  simpa [decode, h_mov, h_xor, h_after] using h_decode

theorem stackOperand_of_pop {line r : Line} {o : Operand}
    (h_after : after "pop " (skipBlanks line) = some r)
    (h_decode : decode line = some (.pop o)) : stackOperand r = some o := by
  have h_line := eq_of_after h_after
  have h_mov : after "mov " (skipBlanks line) = none := by
    rw [h_line]
    rfl
  have h_xor : after "xor " (skipBlanks line) = none := by
    rw [h_line]
    rfl
  have h_push : after "push " (skipBlanks line) = none := by
    rw [h_line]
    rfl
  simpa [decode, h_mov, h_xor, h_push, h_after] using h_decode

theorem operandOf_of_stackOperand {text : Line} {o : Operand} (h : stackOperand text = some o) :
    operandOf text = some o ∧ o.width ≠ .dword := by
  obtain ⟨h_operand, h_width⟩ := Option.filter_eq_some_iff.mp h
  constructor
  · exact h_operand
  · intro h_dword
    rw [h_dword] at h_width
    revert h_width
    decide

theorem no_comma_of_operandOf {text : Line} {o : Operand} (h : operandOf text = some o) :
    ∀ c ∈ text, (c ≠ ',' : Bool) := by
  obtain ⟨p, h_find, -⟩ := Option.map_eq_some_iff.mp h
  have h_name : p.1.toList = text := by simpa using List.find?_some h_find
  have h_all : (operandNames.all fun p => p.1.toList.all fun c => c ≠ ',') = true := by
    decide +kernel
  rw [← h_name]
  exact List.all_eq_true.mp (List.all_eq_true.mp h_all p (List.mem_of_find?_eq_some h_find))

theorem splitOperands_append {dst : Line} (src : Line) (h : ∀ c ∈ dst, (c ≠ ',' : Bool)) :
    splitOperands (dst ++ (", ".toList ++ src)) = some (dst, src) := by
  have h_dst : (dst ++ (", ".toList ++ src)).takeWhile (fun c => c ≠ ',') = dst := by
    rw [List.takeWhile_append_of_pos h]
    simp
  simp only [splitOperands, h_dst, List.drop_left, after_append, Option.map_some]

theorem decode_movLine {line dst src : Line} {d s : Operand} (h_dst : operandOf dst = some d)
    (h_src : operandOf src = some s) (h_width : d.width = s.width) :
    decode (movLine line dst src) = some (.move d s) := by
  have h_after : after "mov " (skipBlanks (movLine line dst src)) =
      some (dst ++ (", ".toList ++ src)) := by
    rw [skipBlanks_movLine, after_append]
  rw [decode_of_mov h_after, decodeMov, splitOperands_append src (no_comma_of_operandOf h_dst)]
  simp [h_dst, h_src, h_width]

theorem zeroRegs_decode : ∀ p ∈ zeroRegs, ∃ r ∈ regNames.map Prod.fst,
    (decodeMov (p.1.toList ++ ", 0".toList) = some (.zero (.low .qword r)) ∨
      decodeMov (p.1.toList ++ ", 0".toList) = some (.zero (.low .dword r))) ∧
    decodeXor (p.2.toList ++ (", ".toList ++ p.2.toList)) = some (.clear (.low .dword r)) := by
  decide +kernel

/-- Both lines of the zero idiom clear one register. -/
theorem decode_zero_idiom {line : Line} {reg : String} {d : Operand}
    (h : zrFindReg line = some reg) (h_zero : decode line = some (.zero d)) :
    ∃ r, decode (xorLine line reg) = some (.clear (.low .dword r)) ∧
      ∀ σ : State, σ.put d 0 = σ.put (.low .dword r) 0 := by
  obtain ⟨p, h_mem, h_reg, h_after⟩ := after_of_zrFindReg h
  obtain ⟨r, -, h_mov, h_xor⟩ := zeroRegs_decode p h_mem
  use r
  constructor
  · rw [h_reg] at h_xor
    have h_none : after "mov " (skipBlanks (xorLine line reg)) = none := by
      rw [skipBlanks_xorLine]
      rfl
    have h_some : after "xor " (skipBlanks (xorLine line reg)) =
        some (reg.toList ++ (", ".toList ++ reg.toList)) := by
      rw [skipBlanks_xorLine, after_append]
    simp only [decode, h_none, h_some, h_xor]
  · intro σ
    rw [decode_of_mov h_after] at h_zero
    rcases h_mov with h_mov | h_mov <;> rw [h_mov] at h_zero <;> cases h_zero <;> rfl

/-! ### Steps -/

section running

variable {other : Others} {prog : List Line}

def Code.isJmp : Code → Bool
  | .jmp _ => true
  | _ => false

theorem perform_code {line : Line} {code : Code} (h : decode line = some code)
    (h_jmp : code.isJmp = false) (σ : State) :
    perform other line σ = some (code.run σ, none) := by
  rw [perform, h]
  cases code <;> first | rfl | cases h_jmp

theorem step_code {line : Line} {rest : List Line} {code : Code} (h : decode line = some code)
    (h_jmp : code.isJmp = false) (σ : State) :
    step other prog ⟨line :: rest, σ⟩ = some ⟨rest, code.run σ⟩ := by
  simp [step, perform_code h h_jmp, destination]

theorem pathOf_code {line : Line} {rest : List Line} {code : Code} (h : decode line = some code)
    (h_label : labelOf line = none) : pathOf (line :: rest) = [] := by
  simp [pathOf, h, h_label]

/-- A line of the subset that is no jump and no label, as a run. -/
theorem run_code {line : Line} {rest : List Line} {code : Code} (h : decode line = some code)
    (h_jmp : code.isJmp = false) (h_label : labelOf line = none) (σ : State) :
    Run other prog ⟨line :: rest, σ⟩ [] ⟨rest, code.run σ⟩ := by
  have h_run : Run other prog ⟨line :: rest, σ⟩ (pathOf (line :: rest) ++ []) ⟨rest, code.run σ⟩ :=
    .step (step_code h h_jmp σ) (.refl _)
  rw [pathOf_code h h_label] at h_run
  exact h_run

end running

/-! ### Windows -/

/-- A line that both programs keep comes out alike in all states alike. -/
def Tolerates (other : Others) (k : Slack) (line : Line) (σ : State) (k' : Slack) : Prop :=
  ∀ τ, Alike k σ τ → ∀ σ' target, perform other line σ = some (σ', target) →
    ∃ τ', perform other line τ = some (τ', target) ∧ Alike k' σ' τ'

/-- The original program runs through a window of the optimizer, and what the rewriting of that
window needs holds. The slack is what the programs may differ in before and after it. -/
inductive Window (other : Others) (prog : List Line) :
    Slack → Config → List Line → Slack → Config → Prop
  | kept {k k' : Slack} {line : Line} {rest lines : List Line} {σ σ' : State}
      {target : Option Line} (alone : firstMatch builtinPatterns (line :: rest) = none)
      (performs : perform other line σ = some (σ', target))
      (goes : destination prog rest target = some lines)
      (tolerates : Tolerates other k line σ k') :
      Window other prog k ⟨line :: rest, σ⟩ (pathOf (line :: rest)) k' ⟨lines, σ'⟩
  | zeroed {k : Slack} {line : Line} {rest : List Line} {σ : State} {d : Operand}
      (fires : firstMatch builtinPatterns (line :: rest) = some zeroReg)
      (zeroes : decode line = some (.zero d))
      (fits : ∀ reg, zrFindReg line = some reg → (xorLine line reg).length ≤ 63) :
      Window other prog k ⟨line :: rest, σ⟩ [] { k with flags := true } ⟨rest, σ.put d 0⟩
  | nop {k : Slack} {line : Line} {rest : List Line} {σ : State} {o : Operand}
      (fires : firstMatch builtinPatterns (line :: rest) = some nopMove)
      (moves : decode line = some (.move o o)) (settled : o.Settled σ) :
      Window other prog k ⟨line :: rest, σ⟩ [] k ⟨rest, σ⟩
  | collapsed {k : Slack} {first second : Line} {rest : List Line} {σ : State} {s d : Operand}
      (fires : firstMatch builtinPatterns (first :: second :: rest) = some pushPop)
      (pushes : decode first = some (.push s)) (pops : decode second = some (.pop d))
      (same_width : d.width = s.width)
      (fits : ∀ r₀ r₁, ppExtractReg "push " 32 first = some r₀ →
        ppExtractReg "pop " 32 second = some r₁ → (movLine first r₁ r₀).length ≤ 79) :
      Window other prog k ⟨first :: second :: rest, σ⟩ []
        (k.soil (σ.reg .rsp - BitVec.ofNat 64 s.width.bytes) s.width.bytes)
        ⟨rest, (σ.push s).pop d⟩
  | reloaded {k : Slack} {first second : Line} {rest : List Line} {σ : State} {o : Operand}
      {offset : Nat} (fires : firstMatch builtinPatterns (first :: second :: rest) =
        some redundantReload)
      (stores : decode first = some (.store offset o))
      (loads : decode second = some (.load o offset)) (settled : o.Settled σ) :
      Window other prog k ⟨first :: second :: rest, σ⟩ [] (k.wipe (slot σ offset) o.width.bytes)
        ⟨rest, σ.storeAt (slot σ offset) o.width.bytes (σ.value o)⟩
  | overwritten {k : Slack} {first second : Line} {rest : List Line} {σ : State}
      {o o' : Operand} {offset : Nat}
      (fires : firstMatch builtinPatterns (first :: second :: rest) = some redundantStore)
      (stores : decode first = some (.store offset o))
      (overwrites : decode second = some (.store offset o')) :
      Window other prog k ⟨first :: second :: rest, σ⟩ []
        ((k.soil (slot σ offset) o.width.bytes).wipe (slot σ offset) o'.width.bytes)
        ⟨rest, (Code.store offset o').run ((Code.store offset o).run σ)⟩
  | jumped {k : Slack} {first second name : Line} {rest : List Line} {σ : State}
      (fires : firstMatch builtinPatterns (first :: second :: rest) = some deadJump)
      (jumps : decode first = some (.jmp name))
      (target : findLabel prog name = some (second :: rest)) :
      Window other prog k ⟨first :: second :: rest, σ⟩ [] k ⟨second :: rest, σ⟩

/-- A run of the original program, window after window. -/
inductive CleanRun (other : Others) (prog : List Line) :
    Slack → Config → List Line → Slack → Config → Prop
  | refl (k : Slack) (c : Config) : CleanRun other prog k c [] k c
  | window {k k' k'' : Slack} {c c' c'' : Config} {path path' : List Line}
      (first : Window other prog k c path k' c') (run : CleanRun other prog k' c' path' k'' c'') :
      CleanRun other prog k c (path ++ path') k'' c''

section running

variable {other : Others} {prog : List Line}

theorem settled_of_reg {o : Operand} {σ τ : State} (h : o.Settled σ) (h_reg : τ.reg = σ.reg) :
    o.Settled τ := by
  intro h_dword
  rw [h_reg]
  exact h h_dword

theorem push_pop (σ : State) {s d : Operand} (h_width : d.width = s.width) :
    (σ.push s).pop d = (σ.storeAt (σ.reg .rsp - BitVec.ofNat 64 s.width.bytes) s.width.bytes
      (σ.value s)).put d (σ.value s) := by
  simp only [State.push, State.pop, h_width, State.setFull_reg_self]
  generalize h_sp : σ.reg .rsp - BitVec.ofNat 64 s.width.bytes = sp
  have h_load : ((σ.storeAt sp s.width.bytes (σ.value s)).setFull .rsp sp).loadAt sp
      s.width.bytes = σ.value s := σ.loadAt_storeAt sp s
  have h_rsp : sp + BitVec.ofNat 64 s.width.bytes = σ.reg .rsp := by
    rw [← h_sp, BitVec.sub_add_cancel]
  have h_back : ((σ.storeAt sp s.width.bytes (σ.value s)).setFull .rsp sp).setFull .rsp
      (σ.reg .rsp) = σ.storeAt sp s.width.bytes (σ.value s) := by
    apply State.ext
    · intro r
      by_cases h : r = .rsp <;> simp [State.setFull, State.storeAt, h]
    · rfl
    · intro a
      rfl
    · rfl
  rw [h_load, h_rsp, h_back]

/-- A window of a clean run is a run of the original program. -/
theorem Window.run {k k' : Slack} {c c' : Config} {path : List Line}
    (h : Window other prog k c path k' c') : Run other prog c path c' := by
  cases h with
  | kept alone performs goes tolerates =>
    rw [← List.append_nil (pathOf _)]
    refine .step ?_ (.refl _)
    simp [step, performs, goes]
  | zeroed fires zeroes fits => exact run_code zeroes rfl (labelOf_of_firstMatch fires) _
  | @nop line rest σ o fires moves settled =>
    have h_run : Run other prog ⟨line :: rest, σ⟩ [] ⟨rest, (Code.move o o).run σ⟩ :=
      run_code moves rfl (labelOf_of_firstMatch fires) σ
    rw [Code.run, State.put_value settled] at h_run
    exact h_run
  | collapsed fires pushes pops same_width fits =>
    obtain ⟨r₀, r₁, -, -, h_label₀, h_label₁⟩ := pushPop_window (matcher_of_firstMatch fires)
    exact (run_code pushes rfl h_label₀ _).trans _ _ (run_code pops rfl h_label₁ _)
  | @reloaded first second rest σ o offset fires stores loads settled =>
    have h_labels := redundantReload_window (matcher_of_firstMatch fires)
    have h_run : Run other prog ⟨first :: second :: rest, σ⟩ []
        ⟨rest, (Code.load o offset).run ((Code.store offset o).run σ)⟩ :=
      (run_code stores rfl h_labels.1 _).trans _ _ (run_code loads rfl h_labels.2 _)
    have h_reload : (Code.load o offset).run ((Code.store offset o).run σ) =
        σ.storeAt (slot σ offset) o.width.bytes (σ.value o) := by
      have h_settled : o.Settled (σ.storeAt (slot σ offset) o.width.bytes (σ.value o)) :=
        settled_of_reg settled rfl
      calc (Code.load o offset).run ((Code.store offset o).run σ)
          = (σ.storeAt (slot σ offset) o.width.bytes (σ.value o)).put o
              ((σ.storeAt (slot σ offset) o.width.bytes (σ.value o)).loadAt (slot σ offset)
                o.width.bytes) := rfl
        _ = (σ.storeAt (slot σ offset) o.width.bytes (σ.value o)).put o (σ.value o) := by
            rw [State.loadAt_storeAt]
        _ = σ.storeAt (slot σ offset) o.width.bytes (σ.value o) := State.put_value h_settled
    rw [h_reload] at h_run
    exact h_run
  | overwritten fires stores overwrites =>
    have h_labels := redundantStore_window (matcher_of_firstMatch fires)
    exact (run_code stores rfl h_labels.1 _).trans _ _ (run_code overwrites rfl h_labels.2 _)
  | @jumped first second name rest σ fires jumps target =>
    have h_label := deadJump_window (matcher_of_firstMatch fires)
    have h_step : step other prog ⟨first :: second :: rest, σ⟩ = some ⟨second :: rest, σ⟩ := by
      simp [step, perform, jumps, destination, target]
    have h_run : Run other prog ⟨first :: second :: rest, σ⟩
        (pathOf (first :: second :: rest) ++ []) ⟨second :: rest, σ⟩ := .step h_step (.refl _)
    rw [pathOf_code jumps h_label] at h_run
    exact h_run

theorem CleanRun.run {k k' : Slack} {c c' : Config} {path : List Line}
    (h : CleanRun other prog k c path k' c') : Run other prog c path c' := by
  induction h with
  | refl k c => exact .refl c
  | window first run ih => exact first.run.trans _ _ ih

theorem destination_optimized (rest : List Line) (target : Option Line) :
    destination (optimized prog) (optimized rest) target =
      (destination prog rest target).map optimized := by
  cases target with
  | none => rfl
  | some name => exact findLabel_optimized prog name

/-- The rewritten program follows the original one through a window. -/
theorem Window.simulates {k k' : Slack} {c c' : Config} {path : List Line}
    (h : Window other prog k c path k' c') {τ : State} (alike : Alike k c.state τ) :
    ∃ τ', Run other (optimized prog) ⟨optimized c.lines, τ⟩ path ⟨optimized c'.lines, τ'⟩ ∧
      Alike k' c'.state τ' := by
  cases h with
  | @kept k' line rest lines σ σ' target alone performs goes tolerates =>
    obtain ⟨τ', h_performs, h_alike⟩ := tolerates τ alike σ' target performs
    have h_step : step other (optimized prog) ⟨line :: optimized rest, τ⟩ =
        some ⟨optimized lines, τ'⟩ := by
      simp [step, h_performs, destination_optimized, goes]
    have h_run : Run other (optimized prog) ⟨line :: optimized rest, τ⟩
        (pathOf (line :: optimized rest) ++ []) ⟨optimized lines, τ'⟩ := .step h_step (.refl _)
    rw [List.append_nil] at h_run
    exact ⟨τ', by rw [optimized_of_none alone]; exact h_run, h_alike⟩
  | @zeroed line rest σ d fires zeroes fits =>
    obtain ⟨reg, h_reg, -⟩ := zeroReg_window (matcher_of_firstMatch fires)
    obtain ⟨r, h_clear, h_put⟩ := decode_zero_idiom h_reg zeroes
    have h_lines : optimized (line :: rest) = xorLine line reg :: optimized rest := by
      rw [optimized_of_some fires]
      simp [zeroReg, h_reg, List.take_of_length_le (fits reg h_reg)]
    have h_label : labelOf (xorLine line reg) = none := by
      rw [← List.take_of_length_le (fits reg h_reg)]
      exact labelOf_xorLine_take line reg 63
    refine ⟨(Code.clear (.low .dword r)).run τ, ?_, ?_⟩
    · rw [h_lines]
      exact run_code h_clear rfl h_label τ
    · rw [h_put]
      exact (alike.put (.low .dword r) 0).stale (X86.Alu.flags .xor (τ.value _) (τ.value _))
  | @nop line rest σ o fires moves settled =>
    refine ⟨τ, ?_, alike⟩
    rw [optimized_of_some fires]
    exact .refl _
  | @collapsed first second rest σ s d fires pushes pops same_width fits =>
    obtain ⟨r₀, r₁, h_r₀, h_r₁, -, -⟩ := pushPop_window (matcher_of_firstMatch fires)
    have h_s := stackOperand_of_push (after_of_ppExtractReg h_r₀) pushes
    have h_d := stackOperand_of_pop (after_of_ppExtractReg h_r₁) pops
    have h_soiled := alike.soil (σ.reg .rsp - BitVec.ofNat 64 s.width.bytes) s.width.bytes
      (σ.value s)
    rw [push_pop σ same_width]
    by_cases h_same : r₀ = r₁
    · have h_operand : d = s := by
        rw [h_same, h_d] at h_s
        exact Option.some.inj h_s
      have h_settled : s.Settled
          (σ.storeAt (σ.reg .rsp - BitVec.ofNat 64 s.width.bytes) s.width.bytes (σ.value s)) :=
        fun h_dword => absurd h_dword (operandOf_of_stackOperand h_s).2
      have h_put : (σ.storeAt (σ.reg .rsp - BitVec.ofNat 64 s.width.bytes) s.width.bytes
            (σ.value s)).put s (σ.value s) =
          σ.storeAt (σ.reg .rsp - BitVec.ofNat 64 s.width.bytes) s.width.bytes (σ.value s) :=
        State.put_value h_settled
      refine ⟨τ, ?_, ?_⟩
      · rw [optimized_of_some fires]
        simp only [pushPop, List.take_succ_cons, List.take_zero, h_r₀, h_r₁, if_pos h_same]
        exact .refl _
      · rw [h_operand, h_put]
        exact h_soiled
    · have h_fits := fits r₀ r₁ h_r₀ h_r₁
      have h_lines : optimized (first :: second :: rest) =
          movLine first r₁ r₀ :: optimized rest := by
        rw [optimized_of_some fires]
        simp [pushPop, h_r₀, h_r₁, h_same, List.take_of_length_le h_fits]
      have h_move : decode (movLine first r₁ r₀) = some (.move d s) :=
        decode_movLine (operandOf_of_stackOperand h_d).1 (operandOf_of_stackOperand h_s).1 same_width
      have h_label : labelOf (movLine first r₁ r₀) = none := by
        rw [← List.take_of_length_le h_fits]
        exact labelOf_movLine_take first r₁ r₀ 79
      refine ⟨(Code.move d s).run τ, ?_, ?_⟩
      · rw [h_lines]
        exact run_code h_move rfl h_label τ
      · rw [Code.run, alike.value]
        exact h_soiled.put d (σ.value s)
  | @reloaded first second rest σ o offset fires stores loads settled =>
    have h_labels := redundantReload_window (matcher_of_firstMatch fires)
    have h_lines : optimized (first :: second :: rest) = first :: optimized rest :=
      optimized_of_some fires
    refine ⟨(Code.store offset o).run τ, ?_, ?_⟩
    · rw [h_lines]
      exact run_code stores rfl h_labels.1 τ
    · have h_slot : slot τ offset = slot σ offset := by
        rw [slot, slot, alike.reg]
      rw [Code.run, alike.value, h_slot]
      exact alike.storeAt _ _ _
  | @overwritten first second rest σ o o' offset fires stores overwrites =>
    have h_labels := redundantStore_window (matcher_of_firstMatch fires)
    have h_lines : optimized (first :: second :: rest) = second :: optimized rest :=
      optimized_of_some fires
    refine ⟨(Code.store offset o').run τ, ?_, ?_⟩
    · rw [h_lines]
      exact run_code overwrites rfl h_labels.2 τ
    · have h_slot : slot τ offset = slot σ offset := by
        rw [slot, slot, alike.reg]
      have h_second : (Code.store offset o').run τ =
          τ.storeAt (slot σ offset) o'.width.bytes (σ.value o') := by
        rw [Code.run, alike.value, h_slot]
      rw [h_second]
      exact (alike.soil (slot σ offset) o.width.bytes (σ.value o)).storeAt _ _ _
  | @jumped first second name rest σ fires jumps target =>
    have h_label := labelOf_of_findLabel target
    have h_alone : firstMatch builtinPatterns (second :: rest) = none := by
      cases h_match : firstMatch builtinPatterns (second :: rest) with
      | none => rfl
      | some p =>
        rw [labelOf_of_firstMatch h_match] at h_label
        cases h_label
    have h_lines : optimized (first :: second :: rest) = second :: optimized rest :=
      optimized_of_some fires
    refine ⟨τ, ?_, alike⟩
    rw [h_lines, optimized_of_none h_alone]
    exact .refl _

theorem CleanRun.simulates {k k' : Slack} {c c' : Config} {path : List Line}
    (h : CleanRun other prog k c path k' c') {τ : State} (alike : Alike k c.state τ) :
    ∃ τ', Run other (optimized prog) ⟨optimized c.lines, τ⟩ path ⟨optimized c'.lines, τ'⟩ ∧
      Alike k' c'.state τ' := by
  induction h generalizing τ with
  | refl k c => exact ⟨τ, .refl _, alike⟩
  | window first run ih =>
    obtain ⟨τ₁, h_first, h_alike⟩ := first.simulates alike
    obtain ⟨τ₂, h_rest, h_alike₂⟩ := ih h_alike
    exact ⟨τ₂, h_first.trans _ _ h_rest, h_alike₂⟩

end running

/-! ### Lines of the subset that both programs keep -/

/-- The bytes that a line reads from memory. -/
def Code.reads (σ : State) : Code → BitVec 64 → Prop
  | .load d offset => X86.Within (slot σ offset) d.width.bytes
  | .pop d => X86.Within (σ.reg .rsp) d.width.bytes
  | _ => fun _ => False

def Code.slackAfter (k : Slack) (σ : State) : Code → Slack
  | .store offset s => k.wipe (slot σ offset) s.width.bytes
  | .push s => k.wipe (σ.reg .rsp - BitVec.ofNat 64 s.width.bytes) s.width.bytes
  | .clear _ => { k with flags := false }
  | _ => k

theorem width_bytes_le (w : X86.Width) : w.bytes ≤ 2 ^ 64 := by
  cases w <;> decide

theorem Code.run_alike {k : Slack} {σ τ : State} (alike : Alike k σ τ) (code : Code)
    (clean : ∀ b, code.reads σ b → ¬ k.dirty b) :
    Alike (code.slackAfter k σ) (code.run σ) (code.run τ) := by
  have h_slot (offset : Nat) : slot τ offset = slot σ offset := by
    rw [slot, slot, alike.reg]
  cases code with
  | move d s =>
    simp only [run, alike.value]
    exact alike.put d (σ.value s)
  | zero d => exact alike.put d 0
  | clear d =>
    have h_put := alike.put d 0
    simp only [run, alike.value]
    exact ⟨h_put.reg, h_put.xmm, h_put.mem, fun _ => rfl⟩
  | store offset s =>
    simp only [run, alike.value, h_slot]
    exact alike.storeAt _ _ _
  | load d offset =>
    simp only [run, h_slot, alike.loadAt (width_bytes_le d.width) clean]
    exact alike.put d _
  | push s =>
    simp only [run, State.push, alike.value, alike.reg]
    exact (alike.storeAt _ _ _).setFull _ _
  | pop d =>
    simp only [run, State.pop, alike.reg, alike.loadAt (width_bytes_le d.width) clean]
    exact (alike.setFull _ _).put d _
  | jmp target => exact alike
  | label name => exact alike

/-- A line of the subset may stay unless it reads a dirty byte. -/
theorem tolerates_code {other : Others} {k : Slack} {line : Line} {σ : State} {code : Code}
    (h : decode line = some code) (clean : ∀ b, code.reads σ b → ¬ k.dirty b) :
    Tolerates other k line σ (code.slackAfter k σ) := by
  intro τ alike σ' target h_performs
  have h_alike := code.run_alike alike clean
  cases h_jmp : code.isJmp with
  | false =>
    rw [perform_code h h_jmp] at h_performs
    cases h_performs
    exact ⟨code.run τ, perform_code h h_jmp τ, h_alike⟩
  | true =>
    cases code with
    | jmp name =>
      simp only [perform, h, Option.some.injEq, Prod.mk.injEq] at h_performs
      obtain ⟨h_state, h_target⟩ := h_performs
      subst h_state h_target
      exact ⟨τ, by simp [perform, h], h_alike⟩
    | _ => cases h_jmp

/-! ### What the optimizer promises -/

/-- The same registers, and the same bytes at and above `rsp`. -/
structure SameView (σ τ : State) : Prop where
  reg : ∀ r, τ.reg r = σ.reg r
  mem : ∀ a, (σ.reg .rsp).toNat ≤ a.toNat → τ.mem a = σ.mem a

/-- The rewritten program reaches the corresponding place along the same path of control, with the
same view of registers and memory. -/
def Reproduced (other : Others) (prog : List Line) (σ : State) (path : List Line) (c : Config) :
    Prop :=
  ∃ τ, Run other (optimized prog) ⟨optimized prog, σ⟩ path ⟨optimized c.lines, τ⟩ ∧
    SameView c.state τ

/-- A clean run is reproduced wherever no byte at or above `rsp` is dirty. -/
theorem cleanRun_reproduced (other : Others) (prog : List Line) (σ : State) {path : List Line}
    {k : Slack} {c : Config} (clean : CleanRun other prog .none ⟨prog, σ⟩ path k c)
    (hidden : ∀ a, k.dirty a → a.toNat < (c.state.reg .rsp).toNat) :
    Reproduced other prog σ path c := by
  obtain ⟨τ, h_run, h_alike⟩ := clean.simulates (.refl σ)
  refine ⟨τ, h_run, ⟨fun r => congrFun h_alike.reg r, ?_⟩⟩
  intro a h_above
  apply h_alike.mem
  intro h_dirty
  have h_below := hidden a h_dirty
  omega

/-- The state whose registers all hold `v`. -/
def uniform (v : BitVec 64) : State :=
  ⟨fun _ => v, fun _ => 0, fun _ => 0, ⟨false, false, false, false, false⟩⟩

theorem push_pop_reproduced :
    Reproduced (fun _ _ => none) ["push rax".toList, "pop rbx".toList] (uniform 4096) []
      ⟨[], ((uniform 4096).push (.low .qword .rax)).pop (.low .qword .rbx)⟩ := by
  have h_fits (r₀ r₁ : Line) (h₀ : ppExtractReg "push " 32 "push rax".toList = some r₀)
      (h₁ : ppExtractReg "pop " 32 "pop rbx".toList = some r₁) :
      (movLine "push rax".toList r₁ r₀).length ≤ 79 := by
    have h_rax : r₀ = "rax".toList := Option.some.inj (h₀.symm.trans rfl)
    have h_rbx : r₁ = "rbx".toList := Option.some.inj (h₁.symm.trans rfl)
    rw [h_rax, h_rbx]
    decide +kernel
  have h_fires : firstMatch builtinPatterns ["push rax".toList, "pop rbx".toList] =
      some pushPop := rfl
  have h_push : decode "push rax".toList = some (.push (.low .qword .rax)) := by decide +kernel
  have h_pop : decode "pop rbx".toList = some (.pop (.low .qword .rbx)) := by decide +kernel
  have h_window := @Window.collapsed (fun _ _ => none) ["push rax".toList, "pop rbx".toList] .none
    _ _ [] (uniform 4096) _ _ h_fires h_push h_pop rfl h_fits
  have h_clean := CleanRun.window h_window (.refl _ _)
  apply cleanRun_reproduced _ _ _ h_clean
  intro a h_dirty
  rcases h_dirty with h_within | h_none
  · have h_start : (uniform 4096).reg .rsp -
        BitVec.ofNat 64 (Operand.low .qword .rax).width.bytes = 4088 := by decide +kernel
    rw [h_start] at h_within
    have h_lt : (a - 4088).toNat < 8 := h_within
    have h_rsp : (((uniform 4096).push (.low .qword .rax)).pop (.low .qword .rbx)).reg .rsp =
        4096 := by decide +kernel
    rw [h_rsp]
    bv_omega
  · cases h_none

/-- Every run to the end of the program is reproduced. -/
def PreservesRuns (other : Others) (prog : List Line) : Prop :=
  ∀ σ path c, Run other prog ⟨prog, σ⟩ path c → c.lines = [] → Reproduced other prog σ path c

theorem nop_move_clears_upper_half :
    ¬ PreservesRuns (fun _ _ => none) ["mov eax, eax".toList] := by
  intro h
  have h_decode : decode "mov eax, eax".toList =
      some (.move (.low .dword .rax) (.low .dword .rax)) := by decide +kernel
  have h_label : labelOf "mov eax, eax".toList = none := by decide +kernel
  obtain ⟨τ, h_run, h_view⟩ :=
    h (uniform (2 ^ 32)) [] ⟨[], _⟩ (run_code h_decode rfl h_label (uniform (2 ^ 32))) rfl
  have h_lines : optimized ["mov eax, eax".toList] = [] := by
    have h_fires : firstMatch builtinPatterns ["mov eax, eax".toList] = some nopMove := rfl
    rw [optimized_of_some h_fires]
    exact optimized_nil
  simp only [h_lines, optimized_nil] at h_run
  cases h_run with
  | refl => exact absurd (h_view.reg .rax) (by decide +kernel)
  | step first run => cases first

end ClaudeC99.Peephole
