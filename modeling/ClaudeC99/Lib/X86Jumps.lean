import ClaudeC99.Lib.X86Block

/-! The first jump of straight-line code, and immediates as the machine takes them. -/

namespace X86

variable {L S : Type} {env : Env S} {code is : List (Instr L S)} {σ τ : State} {l : L}

/-- An immediate operand has 32 bits and is sign-extended. -/
def Src.encoded : Src S → Src S
  | .imm n => .imm (n.bmod (2 ^ 32))
  | src => src

/-- What an assembler makes of an arithmetic instruction; `mov` alone takes all 64 bits. -/
def Instr.encoded : Instr L S → Instr L S
  | .alu op w dst src => .alu op w dst src.encoded
  | i => i

/-- Where the first jump that is taken leads, and the state then. -/
def jumpsTo (env : Env S) : List (Instr L S) → State → Option (L × State)
  | [], _ => none
  | .jmp l :: _, σ => some (l, σ)
  | .jcc c l :: is, σ => if c.holds σ.flags then some (l, σ) else jumpsTo env is σ
  | i :: is, σ => (exec env i σ).bind (jumpsTo env is)

theorem jumpsTo_append {js : List (Instr L S)} {touched : List Span}
    (run : Runs env is σ τ touched) : jumpsTo env (is ++ js) σ = jumpsTo env js τ := by
  induction is generalizing σ touched with
  | nil =>
    obtain ⟨rfl⟩ := Option.some.inj run.result
    rfl
  | cons i is ih =>
    have result := run.result
    rw [execAll] at result
    obtain ⟨σ₁, first, rest⟩ := Option.bind_eq_some_iff.mp result
    have step : jumpsTo env (i :: (is ++ js)) σ = (exec env i σ).bind (jumpsTo env (is ++ js)) := by
      cases i <;> first | rfl | cases first
    rw [List.cons_append, step, first]
    exact ih ⟨rest, rfl⟩

theorem Run.head {a b c : Nat × State} (step : Step env code a b) (run : Run env code b c) :
    Run env code a c := by
  induction run with
  | refl => exact .tail (.refl a) step
  | tail _ last ih => exact .tail ih last

/-- The machine runs up to the label. -/
theorem run_of_jumpsTo {q x : Nat} (jumps : jumpsTo env (code.drop q) σ = some (l, τ))
    (target : code[x]? = some (.label l)) : Run env code (q, σ) (x, τ) := by
  generalize rest : code.drop q = is at jumps
  induction is generalizing q σ with
  | nil => cases jumps
  | cons i is ih =>
    have line : code[q]? = some i := by
      have head := congrArg (·[0]?) rest
      rwa [List.getElem?_drop, Nat.add_zero] at head
    have tail : code.drop (q + 1) = is := by
      rw [← List.drop_drop, rest]
      rfl
    have plain (jumps : (exec env i σ).bind (jumpsTo env is) = some (l, τ)) :
        Run env code (q, σ) (x, τ) := by
      obtain ⟨σ₁, first, jumps⟩ := Option.bind_eq_some_iff.mp jumps
      exact .head (.next line first) (ih tail jumps)
    cases i with
    | jmp k =>
      cases jumps
      exact .head (.jump line target) (.refl _)
    | jcc c k =>
      rw [jumpsTo] at jumps
      by_cases holds : c.holds σ.flags = true
      · rw [if_pos holds] at jumps
        cases jumps
        exact .head (.taken line holds target) (.refl _)
      · rw [if_neg holds] at jumps
        exact .head (.fall line (by simpa using holds)) (ih tail jumps)
    | _ => exact plain jumps

end X86
