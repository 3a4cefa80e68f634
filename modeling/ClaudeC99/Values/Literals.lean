import ClaudeC99.Optimize.Folding
import ClaudeC99.Optimize.Stmt
import ClaudeC99.Values.Conversions

/-! The literals that the optimizer puts in place of constants and casts: what their code loads. -/

namespace ClaudeC99

open X86 StateExcept
open IntArith (IntType)

/-- The type of a register that holds a value of the type. -/
def registerType (t : IntType) : IntType := if t.width = 64 then t else ⟨.int, t.signed, by simp⟩

/-- The code of a literal leaves the value `v` of type `t` in the register, whatever stands before
it. -/
def LiteralGives (env : Env Symbol) (e : Expr) (t : IntType) (v : Int) : Prop :=
  ∀ cg σ, ∃ a cg' code σ' touched, Yields (codegenExpression e) cg a cg' ∧
    cg'.code = cg.code ++ code ∧ Runs env code σ σ' touched ∧ Carries σ' t v

/-- The initializers, by type and text, from which a constant of type `d` gets the right literal.
From `2 ^ 63` on, `strtol` gives the largest `long`. -/
def Recordable (s d : IntType) (n : Int) : Prop :=
  match d.rank with
  | .long | .longLong => n < 2 ^ 63 ∧ (s.width = 64 ∨ (registerType s).Holds n)
  | .int => n < 2 ^ 63 ∨ n % 2 ^ 32 = 2 ^ 32 - 1
  | .char | .short =>
    if n < 2 ^ 63 then d.Holds (IntType.int.convert n)
    else d.signed = true ∧ n % 2 ^ d.width = 2 ^ d.width - 1
  | .bool => n < 2 ^ 63 ∧ (n % 2 ^ 32 = 1 ∨ n = 0 ∨ s.width ≠ 64 ∧ n % 2 ^ 32 = 0)

instance (s d : IntType) (n : Int) : Decidable (Recordable s d n) :=
  match d with
  | ⟨.bool, _, _⟩ | ⟨.long, _, _⟩ | ⟨.longLong, _, _⟩ => inferInstanceAs (Decidable (_ ∧ _))
  | ⟨.int, _, _⟩ => inferInstanceAs (Decidable (_ ∨ _))
  | ⟨.char, _, _⟩ | ⟨.short, _, _⟩ => inferInstanceAs (Decidable (ite _ _ _))

/-- The operands from which a cast to `d`, when it is folded, gets the right literal. -/
def Castable (s d : IntType) (n : Int) : Prop :=
  n < 2 ^ 63 ∧ (d.width = 64 → s.width = 64 ∨ (registerType s).Holds n)

instance (s d : IntType) (n : Int) : Decidable (Castable s d n) :=
  inferInstanceAs (Decidable (_ ∧ _))

section literals

variable {env : Env Symbol} {text : NumText} {kind : TypeKind} {isUnsigned : Bool} {s d t : IntType}
  {v : Int}

theorem registerType_width (t : IntType) : (registerType t).width = (regWidth t).bits := by
  unfold registerType regWidth
  by_cases wide : t.width = 64
  · rw [if_pos wide, if_pos wide, wide]
    rfl
  · rw [if_neg wide, if_neg wide]
    rfl

theorem notBool_of_wide (wide : t.width = 64) : t.rank ≠ .bool := by
  intro bool
  rw [IntType.width, bool] at wide
  cases wide

theorem regWidth_registerType (t : IntType) : regWidth (registerType t) = regWidth t := by
  unfold registerType regWidth
  by_cases wide : t.width = 64
  · simp only [if_pos wide]
  · simp only [if_neg wide]
    rfl

/-- The code of a literal, and what it loads. -/
theorem literal_code (type : intTypeOf kind isUnsigned = some t) (cg : CodeGen) (σ : State) :
    ∃ a σ', Yields (codegenExpression (.intLiteral text kind isUnsigned)) cg a
        (cg.print [movImm (regWidth t) .rax text.toInt]) ∧
      Runs env [movImm (regWidth t) .rax text.toInt] σ σ' [] ∧
      σ'.get (regWidth t) .rax = BitVec.ofInt (regWidth t).bits text.toInt := by
  have dword (flags : Flags) : (({ σ with flags := flags } : State).setFull .rax
      ((BitVec.ofInt 32 text.toInt).setWidth 64)).get .dword .rax = BitVec.ofInt 32 text.toInt :=
    low32_setFull _ .rax _
  have qword : (σ.setFull .rax (BitVec.ofInt 64 text.toInt)).get .qword .rax =
      BitVec.ofInt 64 text.toInt := by
    rw [State.get, State.setFull_reg_self]
    exact BitVec.setWidth_eq _
  cases kind <;> cases type
  all_goals cases isUnsigned
  all_goals first
    | exact ⟨_, _, rfl, ⟨rfl, rfl⟩, dword σ.flags⟩
    | exact ⟨_, _, rfl, ⟨rfl, rfl⟩, qword⟩

theorem literalGives_iff (type : intTypeOf kind isUnsigned = some s)
    (width : regWidth t = regWidth s) :
    LiteralGives env (.intLiteral text kind isUnsigned) t v ↔
      t.Holds v ∧ BitVec.ofInt (regWidth s).bits text.toInt = BitVec.ofInt _ v := by
  constructor
  · intro gives
    let cg := codegenInit [] fun _ => []
    let σ := stateWithX 0
    obtain ⟨a, cg', code, σ', touched, run, printed, runs, carries⟩ := gives cg σ
    obtain ⟨a', τ, run', runs', loaded⟩ := literal_code type cg σ
    rw [(yields_unique run run').2, code_print] at printed
    obtain rfl := List.append_cancel_left printed
    obtain ⟨rfl, -⟩ := runs.unique runs'
    have inReg := carries.inReg
    rw [width] at inReg
    exact ⟨carries.inType, loaded.symm.trans inReg⟩
  · rintro ⟨holds, same⟩ cg σ
    obtain ⟨a, σ', run, runs, loaded⟩ := literal_code type cg σ
    refine ⟨a, _, _, σ', [], run, code_print _ _, runs, holds, ?_⟩
    rw [width, loaded, same]

/-- The value that the code of a literal with the number `n` loads. -/
theorem convert_registerType (t : IntType) (n : Int) : (registerType t).convert n =
    if t.width = 64 then (if t.signed then n.bmod (2 ^ 64) else n % 2 ^ 64)
    else if t.signed then n.bmod (2 ^ 32) else n % 2 ^ 32 := by
  unfold registerType
  by_cases wide : t.width = 64
  · rw [if_pos wide, if_pos wide, IntType.convert, if_neg (notBool_of_wide wide), wide]
  · rw [if_neg wide, if_neg wide]
    rfl

theorem holds_registerType (t : IntType) (n : Int) : (registerType t).Holds n ↔
    if t.width = 64 then (if t.signed then -2 ^ 63 ≤ n ∧ n < 2 ^ 63 else 0 ≤ n ∧ n < 2 ^ 64)
    else if t.signed then -2 ^ 31 ≤ n ∧ n < 2 ^ 31 else 0 ≤ n ∧ n < 2 ^ 32 := by
  unfold registerType
  by_cases wide : t.width = 64
  · rw [if_pos wide, if_pos wide, IntType.Holds, IntType.min, IntType.max, wide]
    cases t.signed <;> simp <;> omega
  · rw [if_neg wide, if_neg wide, IntType.Holds, IntType.min, IntType.max]
    simp only [IntType.width]
    split <;> omega

/-- The value `v` that the code of a literal with the number `n` loads, by its residues. -/
structure LiteralValue (s : IntType) (n v : Int) : Prop where
  low : v % 2 ^ 32 = n % 2 ^ 32
  wide : s.width = 64 → v % 2 ^ 64 = n % 2 ^ 64
  bounds : -2 ^ 63 ≤ v ∧ v < 2 ^ 64
  narrow : s.width ≠ 64 → -2 ^ 31 ≤ v ∧ v < 2 ^ 32
  exact : (registerType s).Holds n ↔ v = n

theorem literalValue_convert (s : IntType) (n : Int) : LiteralValue s n ((registerType s).convert n) where
  low := by
    rw [convert_registerType, Int.bmod_def, Int.bmod_def]
    (repeat' split) <;> omega
  wide := by
    intro wide
    rw [convert_registerType, if_pos wide, Int.bmod_def]
    (repeat' split) <;> omega
  bounds := by
    rw [convert_registerType, Int.bmod_def, Int.bmod_def]
    (repeat' split) <;> omega
  narrow := by
    intro narrow
    rw [convert_registerType, if_neg narrow, Int.bmod_def]
    (repeat' split) <;> omega
  exact := by
    rw [convert_registerType, holds_registerType, Int.bmod_def, Int.bmod_def]
    (repeat' split) <;> omega

section arithmetic

variable {n c : Int} (loaded : LiteralValue s n v) (least : -2 ^ 63 ≤ n) (most : n < 2 ^ 64)
  (read : c = if n < 2 ^ 63 then n else 2 ^ 63 - 1)

include loaded least most read

theorem recordable_long : c % 2 ^ 64 = v % 2 ^ 64 ↔
    n < 2 ^ 63 ∧ (s.width = 64 ∨ (registerType s).Holds n) := by
  obtain ⟨low, wide, bounds, narrow, exact⟩ := loaded
  rw [exact]
  clear exact
  by_cases full : s.width = 64
  · have same := wide full
    clear wide narrow low
    split at read <;> omega
  · have small := narrow full
    clear wide narrow bounds
    split at read <;> omega

theorem recordable_int : c % 2 ^ 32 = v % 2 ^ 32 ↔ n < 2 ^ 63 ∨ n % 2 ^ 32 = 2 ^ 32 - 1 := by
  have low := loaded.low
  split at read <;> omega

theorem recordable_bool : c % 2 ^ 32 = (if v = 0 then 0 else 1) % 2 ^ 32 ↔
    n < 2 ^ 63 ∧ (n % 2 ^ 32 = 1 ∨ n = 0 ∨ s.width ≠ 64 ∧ n % 2 ^ 32 = 0) := by
  obtain ⟨low, wide, bounds, narrow, -⟩ := loaded
  by_cases full : s.width = 64
  · have same := wide full
    clear wide narrow low
    simp only [full, ne_eq, not_true_eq_false, false_and, or_false]
    split at read <;> split <;> omega
  · have small := narrow full
    clear wide narrow bounds
    simp only [full, ne_eq, not_false_eq_true, true_and]
    split at read <;> split <;> omega

omit least most in
theorem recordable_short (short : d.rank = .char ∨ d.rank = .short) :
    c % 2 ^ 32 = d.convert v % 2 ^ 32 ↔
      if n < 2 ^ 63 then d.Holds (IntType.int.convert n)
      else d.signed = true ∧ n % 2 ^ d.width = 2 ^ d.width - 1 := by
  have low := loaded.low
  clear loaded
  obtain ⟨rank, signed, bool⟩ := d
  simp only [IntType.convert, IntType.Holds, IntType.min, IntType.max, IntType.width, IntType.int]
  rcases short with rfl | rfl <;> cases signed
  all_goals
    split at read
    all_goals
      simp only [*, Int.bmod_def, reduceCtorEq, if_false, if_true, Bool.false_eq_true, false_and,
        true_and, iff_false]
      (repeat' split) <;> omega

end arithmetic

theorem strtol_eq (least : -2 ^ 63 ≤ text.toInt) :
    strtol text = if text.toInt < 2 ^ 63 then text.toInt else 2 ^ 63 - 1 := by
  rw [strtol]
  split <;> omega

/-- The literal of a constant stands for the value converted to `d` exactly when the initializer
is recordable. -/
theorem recordable_iff (least : -2 ^ 63 ≤ text.toInt) (most : text.toInt < 2 ^ 64) :
    BitVec.ofInt (regWidth d).bits (strtol text) =
        BitVec.ofInt _ (d.convert ((registerType s).convert text.toInt)) ↔
      Recordable s d text.toInt := by
  have loaded := literalValue_convert s text.toInt
  have read := strtol_eq least
  have bits (notBool : d.rank ≠ .bool) (w : Nat) (width : d.width = w) (x : Int) :
      BitVec.ofInt w (d.convert x) = BitVec.ofInt w x := by
    subst width
    exact ofInt_reduce d d.width x notBool
  obtain ⟨rank, signed, bool⟩ := d
  cases rank with
  | bool =>
    rw [ofInt_eq_iff]
    exact recordable_bool loaded least most read
  | char =>
    rw [ofInt_eq_iff]
    exact recordable_short loaded read (.inl rfl)
  | short =>
    rw [ofInt_eq_iff]
    exact recordable_short loaded read (.inr rfl)
  | int =>
    have same := bits (by simp) 32 rfl ((registerType s).convert text.toInt)
    exact (congrArg (_ = ·) same).to_iff.trans
      (ofInt_eq_iff.trans (recordable_int loaded least most read))
  | long | longLong =>
    have same := bits (by simp) 64 rfl ((registerType s).convert text.toInt)
    exact (congrArg (_ = ·) same).to_iff.trans
      (ofInt_eq_iff.trans (recordable_long loaded least most read))

/-- A cast is folded only where the target holds what `strtol` reads. -/
theorem castable_iff {dkind : TypeKind} {toUnsigned : Bool} {n c : Int}
    (dest : intTypeOf dkind toUnsigned = some d) (least : -2 ^ 63 ≤ n)
    (read : c = if n < 2 ^ 63 then n else 2 ^ 63 - 1)
    (safe : castValueSafe c dkind toUnsigned = true) : Recordable s d n ↔ Castable s d n := by
  unfold Recordable Castable
  cases dkind <;> cases toUnsigned <;> cases dest
  all_goals
    simp [castValueSafe, IntType.Holds, IntType.min, IntType.max, IntType.width, IntType.convert,
      IntType.int, Int.bmod_def] at safe ⊢
  all_goals split at read <;> (repeat' split) <;> omega

end literals

/-- The uses of a constant after its declaration are given the value `x`, converted. -/
def ConstantRight (table : ConstTable) (info : DeclInfo) (value : Expr) (d : IntType) (x : Int) :
    Prop :=
  ∀ env, LiteralGives env
    (optimizeExpr (constsAfter table (.declaration info (some value))) (.varRef info.name)) d
    (d.convert x)

/-- When the cast becomes a literal, it is that of the value `x`, converted. -/
def CastRight (table : ConstTable) (dkind : TypeKind) (isUnsigned : Bool) (fullType : Option CType)
    (value : Expr) (d : IntType) (x : Int) : Prop :=
  (optimizeExpr table (.cast dkind isUnsigned fullType value)).literal.isSome = true →
    ∀ env, LiteralGives env (optimizeExpr table (.cast dkind isUnsigned fullType value)) d
      (d.convert x)

section substitution

variable {table : ConstTable} {value : Expr} {text : NumText} {kind : TypeKind} {isUnsigned : Bool}
  {s : IntType} {v : Int}

theorem literal_right_iff {dkind : TypeKind} {toUnsigned : Bool} {d : IntType} {x : Int}
    (dest : intTypeOf dkind toUnsigned = some d) :
    (∀ env, LiteralGives env (newLiteral (strtol text) dkind toUnsigned) d (d.convert x)) ↔
      BitVec.ofInt (regWidth d).bits (strtol text) = BitVec.ofInt _ (d.convert x) := by
  constructor
  · intro gives
    exact ((literalGives_iff dest rfl).mp (gives sampleEnv)).2
  · intro same env
    exact (literalGives_iff dest rfl).mpr ⟨d.holds_convert x, same⟩

/-- The number that the code of a literal loads. -/
theorem value_of_gives (source : intTypeOf kind isUnsigned = some s)
    (gives : ∀ env, LiteralGives env (.intLiteral text kind isUnsigned) (registerType s) v) :
    v = (registerType s).convert text.toInt := by
  obtain ⟨holds, same⟩ := (literalGives_iff source (regWidth_registerType s)).mp (gives sampleEnv)
  have notBool : (registerType s).rank ≠ .bool := by
    unfold registerType
    split
    · exact notBool_of_wide ‹_›
    · simp
  rw [← registerType_width] at same
  rw [← IntType.convert_of_holds holds, convert_eq_of_bits _ notBool, ← same,
    ← convert_eq_of_bits _ notBool]

theorem isScalarIntType_of_type {dkind : TypeKind} {toUnsigned : Bool} {d : IntType}
    (dest : intTypeOf dkind toUnsigned = some d) : isScalarIntType dkind = true := by
  cases dkind <;> first | rfl | cases dest

theorem substituted_const {info : DeclInfo} {d : IntType}
    (folds : optimizeExpr table value = .intLiteral text kind isUnsigned) (const : info.isConst = true)
    (dest : intTypeOf info.declType info.isUnsigned = some d) (room : table.length < constPropMax) :
    optimizeExpr (constsAfter table (.declaration info (some value))) (.varRef info.name) =
      newLiteral (strtol text) info.declType info.isUnsigned := by
  have scalar : isScalarIntType info.declType = true := isScalarIntType_of_type dest
  have entry : constEntry table info (some (optimizeExpr table value)) =
      some ⟨info.name, strtol text, info.declType, info.isUnsigned⟩ := by
    rw [folds]
    exact if_pos ⟨const, scalar, room⟩
  have recorded : constsAfter table (.declaration info (some value)) =
      ⟨info.name, strtol text, info.declType, info.isUnsigned⟩ :: table := by
    rw [constsAfter, recordConst, Option.map_some, entry]
    rfl
  have found : constPropLookup (⟨info.name, strtol text, info.declType, info.isUnsigned⟩ :: table)
      info.name = some ⟨info.name, strtol text, info.declType, info.isUnsigned⟩ :=
    List.find?_cons_of_pos (by simp)
  rw [recorded]
  change (propagateConst _ (.varRef info.name)).getD _ = _
  rw [propagateConst, found]
  rfl

theorem substituted_cast {dkind : TypeKind} {toUnsigned : Bool} {d : IntType}
    (folds : optimizeExpr table value = .intLiteral text kind isUnsigned)
    (dest : intTypeOf dkind toUnsigned = some d) (fullType : Option CType) :
    optimizeExpr table (.cast dkind toUnsigned fullType value) =
      if castValueSafe (strtol text) dkind toUnsigned = true then
        newLiteral (strtol text) dkind toUnsigned
      else .cast dkind toUnsigned fullType (.intLiteral text kind isUnsigned) := by
  have scalar : isScalarIntType dkind = true := isScalarIntType_of_type dest
  have node : optimizeExpr table (.cast dkind toUnsigned fullType value) =
      (foldCast (.cast dkind toUnsigned fullType (.intLiteral text kind isUnsigned))).getD
        (.cast dkind toUnsigned fullType (.intLiteral text kind isUnsigned)) := by
    rw [← folds]
    change (foldCast (.cast dkind toUnsigned fullType (optimizeExpr table value)) <|> none).getD _ = _
    cases foldCast (.cast dkind toUnsigned fullType (optimizeExpr table value)) <;> rfl
  rw [node, foldCast]
  simp only [Expr.literal, Option.bind_eq_bind, Option.bind_some, scalar, true_and]
  split <;> rfl

end substitution

def unsignedChar : IntType := ⟨.char, false, fun _ => rfl⟩

def unsignedLong : IntType := ⟨.long, false, fun _ => rfl⟩

end ClaudeC99
