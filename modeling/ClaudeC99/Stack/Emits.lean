import ClaudeC99.Lib.StateExcept
import ClaudeC99.Codegen.Call
import ClaudeC99.Codegen.Frame
import ClaudeC99.Stack.ExprCode

/-! What a code generation step adds to the generator's state, and how steps compose. -/

namespace ClaudeC99

open X86 StateExcept

/-- The part of the state that expression code leaves alone. -/
def CodeGen.context (cg : CodeGen) : CodeGen :=
  { cg with
    output := []
    labelCount := 0
    pushDepth := 0
    stringPool := []
    fpLiterals := []
    temps := []
    structRetScratchCursor := 0 }

/-- `Temps c ts c'`: struct temporaries handed out one after the other from `c` up to `c'`. -/
inductive Temps : Nat → List Slot → Nat → Prop
  | nil (c) : Temps c [] c
  | snoc {c ts c'} (before : Temps c ts c') (size : Nat) :
      Temps c (ts ++ [⟨c' + alignUp size 8, size, 8⟩]) (c' + alignUp size 8)

theorem Temps.append {c ts c' us c''} (first : Temps c ts c') (second : Temps c' us c'') :
    Temps c (ts ++ us) c'' := by
  induction second with
  | nil => simpa using first
  | snoc _ size ih => simpa using ih.snoc size

/-- From `cg` to `cg'`, code from label id `lo` on takes the words `S` to `S'`, and at most `cost`
bytes of struct temporaries are handed out. -/
structure Extends (b cost lo : Nat) (S S' : List Held) (cg cg' : CodeGen) : Prop where
  code : ∃ seg, cg'.output = cg.output ++ seg ∧ ExprCode b S lo seg S' cg'.labelCount
  depth : cg'.pushDepth = b + S'.length
  temps : ∃ ts, cg'.temps = cg.temps ++ ts ∧
    Temps cg.structRetScratchCursor ts cg'.structRetScratchCursor
  budget : cg'.structRetScratchCursor ≤ cg.structRetScratchCursor + cost
  context : cg'.context = cg.context

theorem Extends.trans {b c₁ c₂ lo S S₁ S₂ cg cg₁ cg₂} (first : Extends b c₁ lo S S₁ cg cg₁)
    (second : Extends b c₂ cg₁.labelCount S₁ S₂ cg₁ cg₂) :
    Extends b (c₁ + c₂) lo S S₂ cg cg₂ := by
  obtain ⟨seg₁, out₁, code₁⟩ := first.code
  obtain ⟨seg₂, out₂, code₂⟩ := second.code
  obtain ⟨ts₁, grown₁, temps₁⟩ := first.temps
  obtain ⟨ts₂, grown₂, temps₂⟩ := second.temps
  refine ⟨⟨seg₁ ++ seg₂, ?_, code₁.append code₂⟩, second.depth,
    ⟨ts₁ ++ ts₂, ?_, temps₁.append temps₂⟩, ?_, second.context.trans first.context⟩
  · rw [out₂, out₁, List.append_assoc]
  · rw [grown₂, grown₁, List.append_assoc]
  · have := first.budget
    have := second.budget
    omega

/-- `m` extends every state with the functions of `u` whose push depth is `b` plus the words
`S`. -/
def Emits (u : CodeGen) (b cost : Nat) (S S' : List Held) {α : Type} (m : Gen α) : Prop :=
  ∀ cg a cg', cg.pushDepth = b + S.length → cg.functions = u.functions → Yields m cg a cg' →
    Extends b cost cg.labelCount S S' cg cg'

/-- The same for code that still has the label id below the counter to use. -/
def EmitsFrom (u : CodeGen) (b cost id : Nat) (S S' : List Held) {α : Type} (m : Gen α) : Prop :=
  ∀ cg a cg', cg.pushDepth = b + S.length → cg.functions = u.functions →
    cg.labelCount = id + 1 → Yields m cg a cg' → Extends b cost id S S' cg cg'

/-- The state after the lines `is` are printed. -/
def CodeGen.print (cg : CodeGen) (is : List Asm) : CodeGen :=
  { cg with output := cg.output ++ lines cg.pushDepth is }

theorem CodeGen.print_append (cg : CodeGen) (is js : List Asm) :
    (cg.print is).print js = cg.print (is ++ js) := by
  simp [CodeGen.print, lines]

section rules

variable {u : CodeGen} {b c c₁ c₂ id : Nat} {S S' S₁ S₂ T : List Held} {α β : Type}

theorem functions_of_context {cg cg' : CodeGen} (h : cg'.context = cg.context) :
    cg'.functions = cg.functions := by
  have same : cg'.context.functions = cg.context.functions := by rw [h]
  exact same

theorem Extends.refl {cg : CodeGen} (depth : cg.pushDepth = b + S.length) :
    Extends b 0 cg.labelCount S S cg cg :=
  ⟨⟨[], by simp, .nil _ _ _⟩, depth, ⟨[], by simp, .nil _⟩, by simp, rfl⟩

/-- Literal tables may grow on the way. -/
theorem Extends.tables {cg : CodeGen} (depth : cg.pushDepth = b + S.length)
    (strings : List (List UInt8)) (literals : List FpLiteral) :
    Extends b c cg.labelCount S S cg { cg with stringPool := strings, fpLiterals := literals } :=
  ⟨⟨[], by simp, .nil _ _ _⟩, depth, ⟨[], by simp, .nil _⟩, Nat.le_add_right _ _, rfl⟩

theorem Extends.mono {lo} {cg cg' : CodeGen} (h : Extends b c₁ lo S S' cg cg') (le : c₁ ≤ c₂) :
    Extends b c₂ lo S S' cg cg' :=
  ⟨h.code, h.depth, h.temps, h.budget.trans (Nat.add_le_add_left le _), h.context⟩

namespace Emits

theorem mono {m : Gen α} (h : Emits u b c₁ S S' m) (le : c₁ ≤ c₂) : Emits u b c₂ S S' m :=
  fun cg a cg' depth fns run => (h cg a cg' depth fns run).mono le

theorem bind {m : Gen α} {k : α → Gen β} (first : Emits u b c₁ S S₁ m)
    (second : ∀ a, Emits u b c₂ S₁ S₂ (k a)) : Emits u b (c₁ + c₂) S S₂ (m >>= k) := by
  intro cg a cg' depth fns run
  obtain ⟨x, cg₁, hm, hk⟩ := yields_bind.mp run
  have h₁ := first cg x cg₁ depth fns hm
  have fns₁ := (functions_of_context h₁.context).trans fns
  exact h₁.trans (second x cg₁ a cg' h₁.depth fns₁ hk)

/-- A first step that hands out no temporary. -/
theorem seq {m : Gen α} {k : α → Gen β} (first : Emits u b 0 S S₁ m)
    (second : ∀ a, Emits u b c S₁ S₂ (k a)) : Emits u b c S S₂ (m >>= k) :=
  (bind first second).mono (Nat.zero_add c).le

/-- The last step that hands out temporaries. -/
theorem tail {m : Gen α} {k : α → Gen β} (first : Emits u b c S S₁ m)
    (second : ∀ a, Emits u b 0 S₁ S₂ (k a)) : Emits u b c S S₂ (m >>= k) :=
  bind first second

/-- A step whose result determines what comes next. -/
theorem bind_of {m : Gen α} {k : α → Gen β}
    {P : α → Prop} (first : Emits u b c₁ S S₁ m)
    (result : ∀ cg a cg', cg.pushDepth = b + S.length → Yields m cg a cg' → P a)
    (second : ∀ a, P a → Emits u b c₂ S₁ S₂ (k a)) : Emits u b (c₁ + c₂) S S₂ (m >>= k) := by
  intro cg a cg' depth fns run
  obtain ⟨x, cg₁, hm, hk⟩ := yields_bind.mp run
  have h₁ := first cg x cg₁ depth fns hm
  have fns₁ := (functions_of_context h₁.context).trans fns
  exact h₁.trans (second x (result cg x cg₁ depth hm) cg₁ a cg' h₁.depth fns₁ hk)

theorem seq_of {m : Gen α} {k : α → Gen β} {P : α → Prop} (first : Emits u b 0 S S₁ m)
    (result : ∀ cg a cg', cg.pushDepth = b + S.length → Yields m cg a cg' → P a)
    (second : ∀ a, P a → Emits u b c S₁ S₂ (k a)) : Emits u b c S S₂ (m >>= k) :=
  (bind_of first result second).mono (Nat.zero_add c).le

theorem tail_of {m : Gen α} {k : α → Gen β} {P : α → Prop} (first : Emits u b c S S₁ m)
    (result : ∀ cg a cg', cg.pushDepth = b + S.length → Yields m cg a cg' → P a)
    (second : ∀ a, P a → Emits u b 0 S₁ S₂ (k a)) : Emits u b c S S₂ (m >>= k) :=
  bind_of first result second

protected theorem pure (a : α) : Emits u b c S S (pure a : Gen α) := by
  intro cg x cg' depth _ run
  obtain ⟨_, rfl⟩ := yields_pure.mp run
  exact (Extends.refl depth).mono (Nat.zero_le c)

protected theorem throw (message : String) : Emits u b c S S' (throw message : Gen α) :=
  fun _ _ _ _ _ run => absurd run yields_throw

theorem lift (x : Except String α) : Emits u b c S S (liftM x : Gen α) := by
  intro cg a cg' depth _ run
  obtain ⟨_, rfl⟩ := yields_lift.mp run
  exact (Extends.refl depth).mono (Nat.zero_le c)

theorem get_bind {k : CodeGen → Gen α}
    (rest : ∀ cg, cg.pushDepth = b + S.length → cg.functions = u.functions →
      Emits u b c S S' (k cg)) : Emits u b c S S' (get >>= k) := by
  intro cg a cg' depth fns run
  obtain ⟨x, cg₁, hm, hk⟩ := yields_bind.mp run
  obtain ⟨rfl, rfl⟩ := yields_get.mp hm
  exact rest cg depth fns cg a cg' depth fns hk

theorem errorIf (p : Prop) [Decidable p] (message : String) :
    Emits u b c S S (ClaudeC99.errorIf p message) := by
  unfold ClaudeC99.errorIf
  split
  · exact .throw _
  · exact .pure _

theorem onlyIf (p : Prop) [Decidable p] {m : Gen Unit} (h : p → Emits u b c S S m) :
    Emits u b c S S (ClaudeC99.onlyIf p m) := by
  unfold ClaudeC99.onlyIf
  split
  · exact h ‹p›
  · exact .pure _

/-- Code that uses no word of its caller's may run above any words. -/
theorem within {m : Gen α} (h : Emits u (b + S.length) c [] [] m) : Emits u b c S S m := by
  intro cg a cg' depth fns run
  obtain ⟨⟨seg, out, code⟩, hdepth, temps, budget, context⟩ := h cg a cg' depth fns run
  refine ⟨⟨seg, out, ?_⟩, hdepth, temps, budget, context⟩
  simpa using (ExprCode.nil b S cg.labelCount).sub code

end Emits

theorem yields_emit {i : Asm} {cg cg' : CodeGen} {x : Unit} :
    Yields (emit i) cg x cg' ↔ cg.print [i] = cg' := yields_modify

theorem yields_emitAll {is : List Asm} {cg cg' : CodeGen} {x : Unit} :
    Yields (emitAll is) cg x cg' ↔ cg.print is = cg' := by
  induction is generalizing cg with
  | nil => simp [emitAll, CodeGen.print, lines]
  | cons i is ih =>
    simp only [emitAll, yields_bind, yields_emit, ih]
    constructor
    · rintro ⟨_, _, rfl, rfl⟩
      exact (CodeGen.print_append cg [i] is).symm
    · rintro rfl
      exact ⟨(), _, rfl, CodeGen.print_append cg [i] is⟩

/-- Printed lines, and a new push depth. -/
theorem Extends.print {cg : CodeGen} {is : List Asm} {depth : Nat}
    (hdepth : depth = b + S'.length)
    (code : ExprCode b S cg.labelCount (lines cg.pushDepth is) S' cg.labelCount) :
    Extends b c cg.labelCount S S' cg { cg.print is with pushDepth := depth } :=
  ⟨⟨_, rfl, code⟩, hdepth, ⟨[], (List.append_nil _).symm, .nil _⟩, Nat.le_add_right _ _, rfl⟩

theorem emits_emitAll {is : List Asm} (plain : Plain is) : Emits u b c S S (emitAll is) := by
  intro cg a cg' depth _ run
  obtain rfl := yields_emitAll.mp run
  refine Extends.print depth ?_
  rw [depth]
  exact .lines plain

theorem emits_emit {i : Asm} (keeps : i.keepsStack = true) : Emits u b c S S (emit i) := by
  intro cg a cg' depth _ run
  obtain rfl := yields_emit.mp run
  refine Extends.print depth ?_
  rw [depth]
  exact (ExprCode.nil b S _).plain keeps

theorem emits_call {i : Asm} (call : isCall i = true) (even : (b + S.length) % 2 = 0) :
    Emits u b c S S (emit i) := by
  intro cg a cg' depth _ run
  obtain rfl := yields_emit.mp run
  refine Extends.print depth ?_
  rw [depth]
  exact (ExprCode.nil b S _).call call even

theorem emits_pushReg (r : Reg) : Emits u b c S (.pushed :: S) (pushReg r) := by
  intro cg a cg' depth _ run
  obtain ⟨_, cg₁, hm, hk⟩ := yields_bind.mp run
  obtain rfl := yields_emit.mp hm
  obtain rfl := yields_modify.mp hk
  refine Extends.print ?_ ?_
  · simp [CodeGen.print, depth, Nat.add_assoc]
  · rw [depth]
    exact (ExprCode.nil b S _).push r

theorem emits_popReg {r : Reg} (scratch : r.isStack = false) :
    Emits u b c (.pushed :: S) S (popReg r) := by
  intro cg a cg' depth _ run
  obtain ⟨_, cg₁, hm, hk⟩ := yields_bind.mp run
  obtain rfl := yields_emit.mp hm
  obtain rfl := yields_modify.mp hk
  refine Extends.print ?_ ?_
  · simp [CodeGen.print, depth]
  · rw [depth]
    exact (ExprCode.nil b _ _).pop scratch

theorem emits_reserveSlots (n : Nat) :
    Emits u b c S (List.replicate n .reserved ++ S) (reserveSlots n) := by
  intro cg a cg' depth _ run
  obtain ⟨_, cg₁, hm, hk⟩ := yields_bind.mp run
  obtain rfl := yields_emit.mp hm
  obtain rfl := yields_modify.mp hk
  refine Extends.print ?_ ?_
  · simp [CodeGen.print, depth]
    omega
  · rw [depth]
    exact (ExprCode.nil b S _).reserve n

theorem emits_releaseSlots {n : Nat} (count : n = T.length) :
    Emits u b c (T ++ S) S (releaseSlots n) := by
  intro cg a cg' depth _ run
  obtain ⟨_, cg₁, hm, hk⟩ := yields_bind.mp run
  obtain rfl := yields_emit.mp hm
  obtain rfl := yields_modify.mp hk
  refine Extends.print ?_ ?_
  · simp [CodeGen.print, depth, count]
    omega
  · rw [depth, count]
    exact (ExprCode.nil b _ _).release

/-- The push of `xmm0`: the counter follows the store. -/
theorem emits_pushXmm (p : FpWidth) {k : Gen α} (rest : Emits u b c (.reserved :: S) S' k) :
    Emits u b c S S' (do
      emit (subRsp 8)
      emit (.fstore p (stackArg 0) 0)
      pushDepthInc
      k) := by
  intro cg a cg' depth fns run
  obtain ⟨_, cg₁, h₁, run₁⟩ := yields_bind.mp run
  obtain ⟨_, cg₂, h₂, run₂⟩ := yields_bind.mp run₁
  obtain ⟨_, cg₃, h₃, run₃⟩ := yields_bind.mp run₂
  obtain rfl := yields_emit.mp h₁
  obtain rfl := yields_emit.mp h₂
  obtain rfl := yields_modify.mp h₃
  have pushed : Extends b 0 cg.labelCount S (.reserved :: S) cg
      { cg.print [subRsp 8, .fstore p (stackArg 0) 0] with pushDepth := cg.pushDepth + 1 } := by
    refine Extends.print ?_ ?_
    · simp [depth, Nat.add_assoc]
    · rw [depth]
      exact (ExprCode.nil b S _).pushXmm p
  rw [CodeGen.print_append] at run₃
  exact (pushed.trans (rest _ a cg' pushed.depth fns run₃)).mono (Nat.zero_add c).le

theorem emits_popXmm {h : Held} : Emits u b c (h :: S) S (do
    emit (addRsp 8)
    pushDepthDec) := by
  intro cg a cg' depth _ run
  obtain ⟨_, cg₁, hm, hk⟩ := yields_bind.mp run
  obtain rfl := yields_emit.mp hm
  obtain rfl := yields_modify.mp hk
  refine Extends.print ?_ ?_
  · simp [CodeGen.print, depth]
  · rw [depth]
    exact (ExprCode.nil b ([h] ++ S) _).release

theorem emits_emitPaddedCall {setup : List Asm} {call : Asm} (plain : Plain setup)
    (hcall : isCall call = true) : Emits u b c S S (emitPaddedCall setup call) := by
  refine .get_bind fun cg depth _ => ?_
  rw [depth]
  split
  next odd =>
    intro cg a cg' depth _ run
    obtain ⟨_, cg₁, h₁, run₁⟩ := yields_bind.mp run
    obtain ⟨_, cg₂, h₂, run₂⟩ := yields_bind.mp run₁
    obtain ⟨_, cg₃, h₃, run₃⟩ := yields_bind.mp run₂
    obtain rfl := yields_emit.mp h₁
    obtain rfl := yields_emitAll.mp h₂
    obtain rfl := yields_emit.mp h₃
    obtain rfl := yields_emit.mp run₃
    simp only [CodeGen.print_append]
    refine Extends.print depth ?_
    rw [depth, List.append_assoc ([subRsp 8] ++ setup)]
    exact (ExprCode.nil b S _).paddedCall plain hcall (by omega)
  next even =>
    refine .seq (emits_emitAll plain) fun _ => emits_call hcall ?_
    omega

/-- The state after a struct temporary of `size` bytes is handed out. -/
def CodeGen.claim (cg : CodeGen) (size : Nat) : CodeGen :=
  { cg with
    structRetScratchCursor := cg.structRetScratchCursor + alignUp size 8
    temps := cg.temps ++ [⟨cg.structRetScratchCursor + alignUp size 8, size, 8⟩] }

theorem Extends.claim {lo size : Nat} {cg cg' : CodeGen}
    (rest : Extends b c lo S S' (cg.claim size) cg') :
    Extends b (alignUp size 8 + c) lo S S' cg cg' := by
  obtain ⟨ts, grown, temps⟩ := rest.temps
  refine ⟨rest.code, rest.depth, ⟨_, ?_, ((Temps.nil _).snoc size).append temps⟩, ?_,
    rest.context⟩
  · rw [grown]
    simp [CodeGen.claim]
  · have := rest.budget
    simp only [CodeGen.claim] at this
    omega

theorem yields_claim {size offset : Nat} {cg cg' : CodeGen}
    (run : Yields (claimStructRetTemp size) cg offset cg') : cg' = cg.claim size := by
  obtain ⟨_, _, hget, run₁⟩ := yields_bind.mp run
  obtain ⟨rfl, rfl⟩ := yields_get.mp hget
  obtain ⟨_, _, hset, run₂⟩ := yields_bind.mp run₁
  obtain rfl := yields_set.mp hset
  exact (yields_pure.mp run₂).2.symm

theorem Emits.claim_bind {size : Nat} {k : Nat → Gen α}
    (rest : ∀ offset, Emits u b c S S' (k offset)) :
    Emits u b (alignUp size 8 + c) S S' (claimStructRetTemp size >>= k) := by
  intro cg a cg' depth fns run
  obtain ⟨offset, cg₁, hclaim, hk⟩ := yields_bind.mp run
  obtain rfl := yields_claim hclaim
  exact (rest offset (cg.claim size) a cg' depth fns hk).claim

namespace EmitsFrom

theorem mono {m : Gen α} (h : EmitsFrom u b c₁ id S S' m) (le : c₁ ≤ c₂) :
    EmitsFrom u b c₂ id S S' m :=
  fun cg a cg' depth fns count run => (h cg a cg' depth fns count run).mono le

theorem claim_bind {size : Nat} {k : Nat → Gen α}
    (rest : ∀ offset, EmitsFrom u b c id S S' (k offset)) :
    EmitsFrom u b (alignUp size 8 + c) id S S' (claimStructRetTemp size >>= k) := by
  intro cg a cg' depth fns count run
  obtain ⟨offset, cg₁, hclaim, hk⟩ := yields_bind.mp run
  obtain rfl := yields_claim hclaim
  exact (rest offset (cg.claim size) a cg' depth fns count hk).claim

/-- Code that leaves the label id unused. -/
theorem of_emits {m : Gen α} (h : Emits u b c S S' m) : EmitsFrom u b c id S S' m := by
  intro cg a cg' depth fns count run
  obtain ⟨⟨seg, out, code⟩, hdepth, temps, budget, context⟩ := h cg a cg' depth fns run
  refine ⟨⟨seg, out, ?_⟩, hdepth, temps, budget, context⟩
  rw [count] at code
  exact (ExprCode.nil b S id).skip.append code

theorem bind {m : Gen α} {k : α → Gen β} (first : EmitsFrom u b c₁ id S S₁ m)
    (second : ∀ a, Emits u b c₂ S₁ S₂ (k a)) : EmitsFrom u b (c₁ + c₂) id S S₂ (m >>= k) := by
  intro cg a cg' depth fns count run
  obtain ⟨x, cg₁, hm, hk⟩ := yields_bind.mp run
  have h₁ := first cg x cg₁ depth fns count hm
  have fns₁ := (functions_of_context h₁.context).trans fns
  exact h₁.trans (second x cg₁ a cg' h₁.depth fns₁ hk)

theorem tail {m : Gen α} {k : α → Gen β} (first : EmitsFrom u b c id S S₁ m)
    (second : ∀ a, Emits u b 0 S₁ S₂ (k a)) : EmitsFrom u b c id S S₂ (m >>= k) :=
  bind first second

theorem get_bind {k : CodeGen → Gen α} (rest : ∀ cg, EmitsFrom u b c id S S' (k cg)) :
    EmitsFrom u b c id S S' (get >>= k) := by
  intro cg a cg' depth fns count run
  obtain ⟨x, cg₁, hm, hk⟩ := yields_bind.mp run
  obtain ⟨rfl, rfl⟩ := yields_get.mp hm
  exact rest cg cg a cg' depth fns count hk

/-- The two labels of a branch have the id drawn for it. -/
theorem branch {test : Gen Unit} {first : Gen α} {second : Gen β} {ct cf cs : Nat} {cond : Cond}
    {k₁ k₂ : LabelKind} (htest : Emits u (b + S.length) ct [] [] test)
    (hfirst : Emits u (b + S.length) cf [] [] first)
    (hsecond : Emits u (b + S.length) cs [] [] second)
    (op : ∀ t f s, Printed test (b + S.length) t → Printed first (b + S.length) f →
      Printed second (b + S.length) s → Branching (b + S.length) cond k₁ k₂ t f s) :
    EmitsFrom u b (ct + cf + cs) id S S (emitBranch cond k₁ k₂ id test first second) := by
  intro cg a cg' depth fns count run
  obtain ⟨_, cg₁, run₁, rest⟩ := yields_bind.mp run
  obtain ⟨_, cg₂, run₂, rest⟩ := yields_bind.mp rest
  obtain ⟨_, cg₃, run₃, rest⟩ := yields_bind.mp rest
  obtain ⟨_, cg₄, run₄, rest⟩ := yields_bind.mp rest
  obtain ⟨_, cg₅, run₅, rest⟩ := yields_bind.mp rest
  obtain ⟨_, cg₆, run₆, rest⟩ := yields_bind.mp rest
  obtain ⟨_, cg₇, run₇, rest⟩ := yields_bind.mp rest
  obtain ⟨_, rfl⟩ := yields_pure.mp rest
  obtain rfl := yields_emit.mp run₂
  obtain rfl := yields_emit.mp run₄
  obtain rfl := yields_emit.mp run₅
  obtain rfl := yields_emit.mp run₇
  have h₁ := htest cg _ cg₁ depth fns run₁
  have fns₁ := (functions_of_context h₁.context).trans fns
  have h₂ := hfirst (cg₁.print _) _ cg₃ h₁.depth fns₁ run₃
  have fns₂ := (functions_of_context h₂.context).trans fns₁
  have h₃ := hsecond ((cg₃.print _).print _) _ cg₆ h₂.depth fns₂ run₆
  obtain ⟨testSeg, out₁, code₁⟩ := h₁.code
  obtain ⟨firstSeg, out₂, code₂⟩ := h₂.code
  obtain ⟨secondSeg, out₃, code₃⟩ := h₃.code
  obtain ⟨ts₁, grown₁, temps₁⟩ := h₁.temps
  obtain ⟨ts₂, grown₂, temps₂⟩ := h₂.temps
  obtain ⟨ts₃, grown₃, temps₃⟩ := h₃.temps
  have d₁ := h₁.depth
  have d₂ := h₂.depth
  have d₃ := h₃.depth
  have origin := op testSeg firstSeg secondSeg ⟨_, _, _, run₁, depth, out₁⟩
    ⟨_, _, _, run₃, d₁, out₂⟩ ⟨_, _, _, run₆, d₂, out₃⟩
  have budget₁ := h₁.budget
  have budget₂ := h₂.budget
  have budget₃ := h₃.budget
  simp only [List.length_nil, Nat.add_zero] at d₁ d₂ d₃
  rw [count] at code₁
  simp only [CodeGen.print, lines, List.map_cons, List.map_nil] at *
  refine ⟨⟨_, ?_, (ExprCode.nil b S id).branch code₁ code₂ code₃ origin⟩, d₃, ⟨_, ?_,
    (temps₁.append temps₂).append temps₃⟩, ?_,
    (h₃.context.trans h₂.context).trans h₁.context⟩
  · simp [out₃, out₂, out₁, d₁, d₂, d₃, lines]
  · simp [grown₁, grown₂, grown₃]
  · change cg₆.structRetScratchCursor ≤ cg.structRetScratchCursor + (ct + cf + cs)
    omega

end EmitsFrom

theorem Emits.newLabel_bind {k : Nat → Gen α}
    (rest : ∀ id, EmitsFrom u b c id S S' (k id)) : Emits u b c S S' (newLabel >>= k) := by
  intro cg a cg' depth fns run
  obtain ⟨id, cg₁, hnew, hk⟩ := yields_bind.mp run
  obtain ⟨_, _, hget, hnew⟩ := yields_bind.mp hnew
  obtain ⟨rfl, rfl⟩ := yields_get.mp hget
  obtain ⟨_, _, hset, hnew⟩ := yields_bind.mp hnew
  obtain rfl := yields_set.mp hset
  obtain ⟨rfl, rfl⟩ := yields_pure.mp hnew
  obtain ⟨code, hdepth, temps, budget, context⟩ :=
    rest cg.labelCount { cg with labelCount := cg.labelCount + 1 } a cg' depth fns rfl hk
  exact ⟨code, hdepth, temps, budget, context⟩

/-- Code that leaves the words of its caller alone. -/
def Neutral (u : CodeGen) (c : Nat) (m : Gen α) : Prop := ∀ b, Emits u b c [] [] m

namespace Neutral

theorem emits {m : Gen α} (h : Neutral u c m) : Emits u b c S S m := .within (h _)

theorem mono {m : Gen α} (h : Neutral u c₁ m) (le : c₁ ≤ c₂) : Neutral u c₂ m :=
  fun b => (h b).mono le

end Neutral

theorem neutral_emit {i : Asm} (keeps : i.keepsStack = true) : Neutral u c (emit i) :=
  fun _ => emits_emit keeps

theorem neutral_nonNull (a : Option α) : Neutral u c (nonNull a) := by
  intro b
  cases a with
  | none => exact .throw _
  | some a => exact .pure a

theorem neutral_warn (message : String) : Neutral u c (warn message) :=
  fun _ => .get_bind fun _ _ _ => .errorIf _ _

end rules

end ClaudeC99
