import ClaudeC99.Codegen.Expression
import ClaudeC99.Codegen.Function
import ClaudeC99.Stack.Expressions
import ClaudeC99.Values.BitFields

/-! Conversions at casts, arguments and returns, and what `rax` holds when an integer becomes
floating. `emit_convert` sees the two kinds: no signedness, and no `_Bool`. -/

namespace ClaudeC99

open X86 StateExcept
open IntArith (IntType)

/-- The kind on the node of an expression of type `t` is the type's own or the promoted one. -/
def RecordedAs (t : IntType) (kind : TypeKind) : Prop :=
  ∃ own isUnsigned, intTypeOf own isUnsigned = some t ∧ (kind = own ∨ kind = promoteKind own)

/-- The values whose conversion from `kind` to `dkind` is right in the register. Code for one size
leaves the register alone, and other code sign-extends from the narrower size. -/
def RegisterExact (kind dkind : TypeKind) (t : IntType) (v : Int) : Prop :=
  if typeKindBytes kind = typeKindBytes dkind then t.width = 64 ∨ t.width = 32 ∨ t.Holds v
  else match t.rank with
    | .bool => v = 0 ∨ v % 256 = 1
    | .char | .short => t.signed = true ∨ v % 2 ^ t.width < 2 ^ (t.width - 1)
    | .int => True
    | .long | .longLong => -2 ^ 31 ≤ v ∧ v < 2 ^ 31

/-- The values whose conversion is right in the low bytes, which are all a parameter gets. -/
def BytesExact (kind dkind : TypeKind) (t : IntType) (v : Int) : Prop :=
  match t.rank with
  | .bool => v = 0 ∨ v % 256 = 1
  | .char | .short | .int => True
  | .long | .longLong => typeKindBytes kind = typeKindBytes dkind ∨ -2 ^ 31 ≤ v ∧ v < 2 ^ 31

/-- What the conversion code makes of a value. -/
def converted (kind dkind : TypeKind) (v : Int) : Int :=
  if typeKindBytes kind = typeKindBytes dkind then v
  else match typeKindBytes dkind with
    | 8 => v.bmod (2 ^ 32)
    | 2 => v.bmod (2 ^ 16)
    | 1 => v.bmod (2 ^ 8)
    | _ => v

/-! ### The conversion code -/

section code

variable {env : Env Symbol} {kind dkind : TypeKind} {isUnsigned : Bool} {s d : IntType} {v : Int}
  {σ : State}

theorem RecordedAs.size (recorded : RecordedAs s kind) :
    typeIsFp kind = false ∧ (typeKindBytes kind = 8 ↔ s.width = 64) ∧
      (typeKindBytes kind = 2 → s.width = 16) ∧ (typeKindBytes kind = 1 → s.width ≤ 8) := by
  obtain ⟨own, isUnsigned, type, own_or_promoted⟩ := recorded
  cases own <;> cases isUnsigned <;> cases type <;> rcases own_or_promoted with rfl | rfl <;> decide

theorem RecordedAs.range (recorded : RecordedAs s kind) (holds : s.Holds v) :
    typeKindBytes kind ≠ 8 → -2 ^ 31 ≤ v ∧ v < 2 ^ 32 := by
  intro narrow
  have wide := recorded.size.2.1
  have width := s.width_mem
  simp only [List.mem_cons, List.not_mem_nil, or_false] at width
  exact holds.bounds (n := 32) (by omega)

theorem intTypeOf_size (type : intTypeOf dkind isUnsigned = some d) :
    typeIsFp dkind = false ∧ typeKindBytes dkind = (d.width + 7) / 8 := by
  cases dkind <;> cases isUnsigned <;> cases type <;> decide

theorem RecordedAs.integer (recorded : RecordedAs s kind) : kind ≠ .pointer := by
  obtain ⟨own, isUnsigned, type, own_or_promoted⟩ := recorded
  cases own <;> cases isUnsigned <;> cases type <;> rcases own_or_promoted with rfl | rfl <;> decide

theorem kind_integer (type : intTypeOf dkind isUnsigned = some d) :
    dkind ≠ .pointer ∧ dkind ≠ .void ∧ isStructOrUnionKind dkind = false := by
  cases dkind <;> cases isUnsigned <;> cases type <;> decide

theorem emitConvert_integer (source : typeIsFp kind = false) (dest : typeIsFp dkind = false) :
    emitConvert kind dkind = emitIntConvert kind dkind := by
  have notFp : kind ≠ .float ∧ kind ≠ .double := by
    constructor <;> rintro rfl <;> cases source
  unfold emitConvert
  split
  · rename_i same
    rw [emitIntConvert, same, if_pos rfl]
  · simp [source, dest, notFp.1, notFp.2]

/-- `movsx` within `eax`. -/
theorem runs_movsx (ws : Width) (below : ws.bits ≤ 32) (env : Env Symbol)
    (low : low32 σ .rax = BitVec.ofInt 32 v) :
    ∃ σ', Runs env [(.movsx .dword ws .rax (.reg .rax) : Asm)] σ σ' [] ∧
      Eax (BitVec.ofInt 32 (v.bmod (2 ^ ws.bits))) σ σ' := by
  have source : σ.get ws .rax = BitVec.ofInt ws.bits v := by
    calc σ.get ws .rax = (low32 σ .rax).setWidth ws.bits := by
          rw [low32, BitVec.setWidth_setWidth_of_le _ below, State.get]
      _ = BitVec.ofInt ws.bits v := by rw [low, setWidth_ofInt below]
  refine ⟨_, ⟨rfl, rfl⟩, ?_⟩
  rw [← signExtend_ofInt, ← source]
  exact Eax.set _ σ σ.flags

theorem runs_movsxd (env : Env Symbol) (low : low32 σ .rax = BitVec.ofInt 32 v) :
    ∃ σ', Runs env [movsxdRax] σ σ' [] ∧ σ'.reg .rax = BitVec.ofInt 64 (v.bmod (2 ^ 32)) := by
  refine ⟨σ.setFull .rax (((low32 σ .rax).signExtend 64).setWidth 64), ⟨rfl, rfl⟩, ?_⟩
  rw [State.setFull_reg_self, BitVec.setWidth_eq, low, signExtend_ofInt]

/-- What is in the register after the conversion code. -/
theorem runs_emitConvert (env : Env Symbol) (recorded : RecordedAs s kind)
    (dest : intTypeOf dkind isUnsigned = some d) (carries : Carries σ s v) :
    ∃ σ', Runs env (emitConvert kind dkind) σ σ' [] ∧
      low32 σ' .rax = BitVec.ofInt 32 (converted kind dkind v) ∧
      (d.width = 64 → σ'.reg .rax = BitVec.ofInt 64 (converted kind dkind v)) := by
  obtain ⟨integer, wide, -, -⟩ := recorded.size
  obtain ⟨integer', size⟩ := intTypeOf_size dest
  have low : low32 σ .rax = BitVec.ofInt 32 v := carries.low
  rw [emitConvert_integer integer integer', emitIntConvert, converted]
  by_cases same : typeKindBytes kind = typeKindBytes dkind
  · rw [if_pos same, if_pos same]
    refine ⟨σ, Runs.nil σ, low, fun full => ?_⟩
    have full' : s.width = 64 := wide.mp (by omega)
    exact ((carries_wide full').mp carries).2
  rw [if_neg same, if_neg same]
  have sizes : typeKindBytes dkind = 1 ∨ typeKindBytes dkind = 2 ∨ typeKindBytes dkind = 4 ∨
      typeKindBytes dkind = 8 := by
    have width : d.width ∈ [1, 8, 16, 32, 64] := d.width_mem
    simp only [List.mem_cons, List.not_mem_nil, or_false] at width
    omega
  rcases sizes with size' | size' | size' | size' <;> rw [size']
  · obtain ⟨σ', run, eax⟩ := runs_movsx .byte (by decide) env low
    exact ⟨σ', run, eax.eax, by omega⟩
  · obtain ⟨σ', run, eax⟩ := runs_movsx .word (by decide) env low
    exact ⟨σ', run, eax.eax, by omega⟩
  · exact ⟨σ, Runs.nil σ, low, by omega⟩
  · obtain ⟨σ', run, rax⟩ := runs_movsxd env low
    have low' : low32 σ' .rax = BitVec.ofInt 32 (v.bmod (2 ^ 32)) := by
      rw [low32, rax, setWidth_ofInt (by decide)]
    exact ⟨σ', run, low', fun _ => rax⟩

theorem eq_convert_iff : v = d.convert v ↔ d.Holds v := by
  constructor
  · intro same
    rw [same]
    exact d.holds_convert v
  · intro holds
    exact (IntType.convert_of_holds holds).symm

/-- Outside `_Bool`, a conversion keeps the low bits. -/
theorem convert_emod (notBool : d.rank ≠ .bool) :
    d.convert v % (2 ^ d.width : Nat) = v % (2 ^ d.width : Nat) := by
  rw [IntType.convert, if_neg notBool]
  split
  · exact Int.bmod_emod
  · push_cast
    exact Int.emod_emod_of_dvd v (dvd_refl _)

theorem toNat_ofInt (n : Nat) (v : Int) : (v % 2 ^ n).toNat = (BitVec.ofInt n v).toNat := by
  rw [BitVec.toNat_ofInt]
  norm_cast

theorem convert_eq_convert_iff (notBool : d.rank ≠ .bool) {w : Int} :
    d.convert v = d.convert w ↔ v % (2 ^ d.width : Nat) = w % (2 ^ d.width : Nat) := by
  constructor
  · intro same
    rw [← convert_emod notBool, same, convert_emod notBool]
  · intro same
    have bits : BitVec.ofInt d.width v = BitVec.ofInt d.width w := ofInt_eq_iff.mpr same
    rw [convert_eq_of_bits d notBool, bits, ← convert_eq_of_bits d notBool]

/-- The low bytes of an object narrower than 64 bits are right. -/
theorem converted_low (size : typeKindBytes dkind = 1 ∨ typeKindBytes dkind = 2 ∨
    typeKindBytes dkind = 4) :
    converted kind dkind v % (2 ^ (8 * typeKindBytes dkind) : Nat) =
      v % (2 ^ (8 * typeKindBytes dkind) : Nat) := by
  rw [converted]
  split
  · rfl
  · rcases size with size | size | size <;> rw [size]
    · exact Int.bmod_emod
    · exact Int.bmod_emod
    · rfl

/-- Code for one size leaves the value alone. -/
theorem same_size_iff (word : d.width ≤ 16 → -2 ^ 15 ≤ v ∧ v < 2 ^ 16) :
    BitVec.ofInt (if d.width = 64 then 64 else 32) v =
        BitVec.ofInt (if d.width = 64 then 64 else 32) (d.convert v) ↔
      d.width = 64 ∨ d.width = 32 ∨ d.Holds v := by
  have notBool : d.width = 64 ∨ d.width = 32 → d.rank ≠ .bool := by
    intro wide bool
    simp [IntType.width, bool] at wide
  rw [ofInt_eq_iff]
  by_cases wide : d.width = 64
  · have kept := convert_emod (v := v) (notBool (.inl wide))
    rw [wide] at kept
    rw [if_pos wide]
    exact iff_of_true kept.symm (.inl wide)
  by_cases int : d.width = 32
  · have kept := convert_emod (v := v) (notBool (.inr int))
    rw [int] at kept
    rw [if_neg wide]
    exact iff_of_true kept.symm (.inr (.inl int))
  have width := d.width_mem
  simp only [List.mem_cons, List.not_mem_nil, or_false] at width
  have small : d.width ≤ 16 := by omega
  have value := word small
  have result := (d.holds_convert v).bounds (n := 16) small
  rw [if_neg wide, ← eq_convert_iff]
  simp only [wide, int, false_or]
  omega

/-- Other code sign-extends from the narrower size. -/
theorem other_size_iff (dest : intTypeOf dkind isUnsigned = some d)
    (differ : typeKindBytes kind ≠ typeKindBytes dkind)
    (range : typeKindBytes kind ≠ 8 → -2 ^ 31 ≤ v ∧ v < 2 ^ 32) :
    BitVec.ofInt (if d.width = 64 then 64 else 32) (converted kind dkind v) =
        BitVec.ofInt (if d.width = 64 then 64 else 32) (d.convert v) ↔
      RegisterExact kind dkind d v := by
  have size := (intTypeOf_size dest).2
  rw [ofInt_eq_iff, converted, RegisterExact, if_neg differ, if_neg differ]
  rw [size] at differ ⊢
  clear size dest
  obtain ⟨rank, signed, bool⟩ := d
  cases rank with
  | bool =>
    by_cases zero : v = 0 <;> simp [IntType.width, IntType.convert, Int.bmod_def, zero]
    split <;> omega
  | char | short =>
    cases signed <;> simp [IntType.width, IntType.convert, Int.bmod_def]
    split <;> omega
  | int =>
    cases signed <;> simp [IntType.width, IntType.convert, Int.bmod_def]
    omega
  | long | longLong =>
    have inWord := range (by simpa [IntType.width] using differ)
    cases signed <;> simp [IntType.width, IntType.convert, Int.bmod_def]
    all_goals (split <;> omega)

/-- In the register, the conversion code makes the value that C asks for of the exact ones. -/
theorem converted_eq_iff (recorded : RecordedAs s kind) (dest : intTypeOf dkind isUnsigned = some d)
    (holds : s.Holds v) :
    BitVec.ofInt (if d.width = 64 then 64 else 32) (converted kind dkind v) =
        BitVec.ofInt (if d.width = 64 then 64 else 32) (d.convert v) ↔
      RegisterExact kind dkind d v := by
  obtain ⟨-, -, word, byte⟩ := recorded.size
  by_cases same : typeKindBytes kind = typeKindBytes dkind
  · rw [converted, RegisterExact, if_pos same, if_pos same]
    refine same_size_iff fun narrow => ?_
    have size := (intTypeOf_size dest).2
    have width := d.width_mem
    simp only [List.mem_cons, List.not_mem_nil, or_false] at width
    refine holds.bounds (n := 16) ?_
    omega
  · exact other_size_iff dest same (recorded.range holds)

theorem carries_converted_iff {σ' : State} (recorded : RecordedAs s kind)
    (dest : intTypeOf dkind isUnsigned = some d) (holds : s.Holds v)
    (low : low32 σ' .rax = BitVec.ofInt 32 (converted kind dkind v))
    (full : d.width = 64 → σ'.reg .rax = BitVec.ofInt 64 (converted kind dkind v)) :
    Carries σ' d (d.convert v) ↔ RegisterExact kind dkind d v := by
  rw [← converted_eq_iff recorded dest holds]
  by_cases wide : d.width = 64
  · rw [carries_wide wide, full wide, if_pos wide]
    exact and_iff_right (d.holds_convert v)
  · rw [carries_narrow wide, low, if_neg wide]
    exact and_iff_right (d.holds_convert v)

end code

/-! ### Parameters -/

/-- The value of an object of type `t` at `p`. -/
def objectValue (t : IntType) (m : Mem) (p : BitVec 64) : Int :=
  t.ofBits (8 * storageSize t) (m.loadNat p (storageSize t))

/-- The code is behind the argument's in a call that passes `arg` for the parameter `p`. The kind
of a parameter of a function type is the declared one or the one of the type made from it. -/
inductive ArgumentConversion (arg : Expr) (p : Param) : (Ann → Gen Unit) → Prop
  | direct (name : String) : ArgumentConversion arg p (argConvert name (some p) arg)
  | indirect (index : Nat) (param : CType)
      (kind : param.kind = p.declType ∨ param = paramType p.declType p.fullType) :
      ArgumentConversion arg p (indirectArgConvert index param)

/-- The prologue's code for an integer parameter, and where the word handed over is. -/
inductive ParameterBinding (env : Env Symbol) (p : Param) : Gen Unit → (State → BitVec 64) → Prop
  | reg (i : Nat) : ParameterBinding env p (bindRegParam i p) fun τ => τ.reg (argReg i)
  | stack (src : Int) : ParameterBinding env p (bindStackParam src p) fun τ =>
      BitVec.ofNat 64 (τ.mem.loadNat (τ.ea env (incoming src)) 8)
  | placedReg (slot : ArgSlot) (general : slot.xmmIdx = none) :
      ParameterBinding env p (bindPassedInReg slot p) fun τ => τ.reg (argReg slot.gpStart)
  | placedStack (slot : ArgSlot) : ParameterBinding env p (bindPassedOnStack slot p) fun τ =>
      BitVec.ofNat 64 (τ.mem.loadNat (τ.ea env (incoming (16 + slot.stackOff))) 8)

section parameters

variable {env : Env Symbol} {σ : State} {p : BitVec 64}

/-- The low bytes of the word are at `[rbp - offset]` when the code is done. -/
def Moves (env : Env Symbol) (code : List Asm) (τ : State) (word : BitVec 64) (offset : Int)
    (size : Nat) : Prop :=
  ∃ τ' touched, Runs env code τ τ' touched ∧ τ'.reg .rbp = τ.reg .rbp ∧
    ∀ i, i < 8 * size → τ'.mem.bit (τ.ea env (frame offset)) i = word.getLsbD i

theorem moves_store (env : Env Symbol) (τ : State) (w : Width) (r : Reg) (offset : Int) :
    Moves env [(.store w (frame offset) r : Asm)] τ (τ.reg r) offset w.bytes :=
  ⟨_, _, ⟨rfl, rfl⟩, rfl, fun _ inside => bit_store τ w _ r inside⟩

theorem moves_storeParamReg (env : Env Symbol) (τ : State) (r : Reg) (offset : Int) {size : Nat}
    (sizes : size ∈ [1, 2, 4, 8]) :
    Moves env [storeParamReg size offset r] τ (τ.reg r) offset size := by
  simp only [List.mem_cons, List.not_mem_nil, or_false] at sizes
  rcases sizes with rfl | rfl | rfl | rfl
  · exact moves_store env τ .byte r offset
  · exact moves_store env τ .word r offset
  · exact moves_store env τ .dword r offset
  · exact moves_store env τ .qword r offset

theorem low_signExtend {n : Nat} (x : BitVec n) (le : n ≤ 32) :
    ((x.signExtend 32).setWidth 64).setWidth n = x := by
  apply BitVec.eq_of_getLsbD_eq
  intro i inside
  have small : i < 32 := by omega
  have wide : i < 64 := by omega
  rw [BitVec.getLsbD_setWidth, BitVec.getLsbD_setWidth, BitVec.getLsbD_signExtend, if_pos inside]
  simp [small, wide, inside]

theorem low_zeroExtend {n : Nat} (x : BitVec n) (le : n ≤ 32) :
    ((x.setWidth 32).setWidth 64).setWidth n = x := by
  rw [BitVec.setWidth_setWidth_of_le _ (by omega), BitVec.setWidth_setWidth_of_le _ le,
    BitVec.setWidth_eq]

/-- From `τ` to `τ'` only `rax` has changed, and its low bits are those of the object at `p`. -/
structure Loaded (p : BitVec 64) (bits : Nat) (τ τ' : State) : Prop where
  mem : τ'.mem = τ.mem
  other : ∀ q, q ≠ .rax → τ'.reg q = τ.reg q
  low : ∀ i, i < bits → (τ'.reg .rax).getLsbD i = τ.mem.bit p i

theorem Loaded.set (τ : State) (p : BitVec 64) (w : Width) {x : BitVec 64}
    (same : x.setWidth w.bits = τ.load w p) : Loaded p w.bits τ (τ.setFull .rax x) where
  mem := rfl
  other _ ne := State.setFull_reg_of_ne _ _ ne
  low i inside := by
    have bit := congrArg (BitVec.getLsbD · i) same
    have loaded : (τ.load w p).getLsbD i = τ.mem.bit p i := getLsbD_loadNat _ _ inside inside
    rwa [BitVec.getLsbD_setWidth, decide_eq_true inside, Bool.true_and, loaded] at bit

theorem runs_loadSized (env : Env Symbol) (τ : State) (a : Address) (isUnsigned : Bool) {size : Nat}
    (sizes : size ∈ [1, 2, 4, 8]) :
    ∃ τ' touched, Runs env [loadSized size isUnsigned a] τ τ' touched ∧
      Loaded (τ.ea env a) (8 * size) τ τ' := by
  have same (x : BitVec 64) : x.setWidth 64 = x := BitVec.setWidth_eq x
  simp only [List.mem_cons, List.not_mem_nil, or_false] at sizes
  rcases sizes with rfl | rfl | rfl | rfl
  · cases isUnsigned
    · exact ⟨_, _, ⟨rfl, rfl⟩, .set τ _ .byte (low_signExtend _ (by decide))⟩
    · exact ⟨_, _, ⟨rfl, rfl⟩, .set τ _ .byte (low_zeroExtend _ (by decide))⟩
  · cases isUnsigned
    · exact ⟨_, _, ⟨rfl, rfl⟩, .set τ _ .word (low_signExtend _ (by decide))⟩
    · exact ⟨_, _, ⟨rfl, rfl⟩, .set τ _ .word (low_zeroExtend _ (by decide))⟩
  · refine ⟨_, _, ⟨rfl, rfl⟩, .set τ _ .dword ?_⟩
    exact (BitVec.setWidth_setWidth_of_le _ (by decide)).trans (BitVec.setWidth_eq _)
  · refine ⟨_, _, ⟨rfl, rfl⟩, .set τ _ .qword ?_⟩
    exact (same _).trans (same _)

theorem storeSized_eq {size : Nat} (sizes : size ∈ [1, 2, 4, 8]) (a : Address) :
    ∃ w : Width, w.bytes = size ∧ storeSized size a = .store w a .rax := by
  simp only [List.mem_cons, List.not_mem_nil, or_false] at sizes
  rcases sizes with rfl | rfl | rfl | rfl
  · exact ⟨.byte, rfl, rfl⟩
  · exact ⟨.word, rfl, rfl⟩
  · exact ⟨.dword, rfl, rfl⟩
  · exact ⟨.qword, rfl, rfl⟩

theorem moves_copyParam (env : Env Symbol) (τ : State) (isUnsigned : Bool) (src offset : Int)
    {size : Nat} (sizes : size ∈ [1, 2, 4, 8]) :
    Moves env (copyParam size isUnsigned src offset) τ
      (BitVec.ofNat 64 (τ.mem.loadNat (τ.ea env (incoming src)) 8)) offset size := by
  obtain ⟨τ', touched, load, loaded⟩ := runs_loadSized env τ (incoming src) isUnsigned sizes
  obtain ⟨w, rfl, store⟩ := storeSized_eq sizes (frame offset)
  have code : copyParam w.bytes isUnsigned src offset =
      [loadSized w.bytes isUnsigned (incoming src)] ++ [(.store w (frame offset) .rax : Asm)] := by
    have sized : ¬ (w.bytes = 8 ∧ decide (w.bytes = 8) = false) := by simp
    rw [copyParam, emitStoreLocal, storeWidened, if_neg sized, store]
    rfl
  have frameReg : τ'.reg .rbp = τ.reg .rbp := loaded.other .rbp (by decide)
  obtain ⟨τ'', touched', stored, kept, bits⟩ := moves_store env τ' w .rax offset
  have address : τ'.ea env (frame offset) = τ.ea env (frame offset) := by
    simp only [frame, State.ea, frameReg]
  rw [code]
  refine ⟨τ'', _, load.append stored, kept.trans frameReg, fun i inside => ?_⟩
  have bound : i < w.bits := inside
  have wide := w.bits_le
  rw [← address, bits i inside, loaded.low i inside,
    getLsbD_loadNat _ _ (by omega) (by omega)]

theorem intTypeOf_storageSize {kind : TypeKind} {isUnsigned : Bool} {t : IntType}
    (type : intTypeOf kind isUnsigned = some t) :
    typeKindBytes kind = storageSize t ∧ storageSize t ∈ [1, 2, 4, 8] ∧
      isStructOrUnionKind kind = false ∧ typeIsFp kind = false := by
  cases kind <;> cases isUnsigned <;> cases type <;> decide

/-- The generator after a parameter's slot is handed out. -/
def CodeGen.withParam (fn : CodeGen) (p : Param) (size : Nat) : CodeGen :=
  let offset := alignUp (fn.stackOffset + size) size
  { fn with
    stackOffset := offset
    slots := fn.slots ++ [⟨offset, size, size⟩]
    locals := fn.locals ++ [{
      name := p.name, offset, size, kind := p.declType, fullType := p.fullType, isConst := false
      isUnsigned := p.isUnsigned, isStatic := false, staticLabel := .named "", isRegister := false }] }

theorem yields_addParam {fn fn' : CodeGen} {p : Param} {size offset : Nat} :
    Yields (addParam p size size p.isUnsigned) fn offset fn' ↔
      alignUp (fn.stackOffset + size) size = offset ∧ fn.withParam p size = fn' := by
  have run : addParam p size size p.isUnsigned fn =
    .ok (alignUp (fn.stackOffset + size) size, fn.withParam p size) := rfl
  rw [Yields, run, Except.ok.injEq, Prod.mk.injEq]

/-- The prologue moves the low bytes of the word into the parameter's slot. -/
theorem binding_moves {p : Param} {d : IntType} {bind : Gen Unit} {word : State → BitVec 64}
    (binding : ParameterBinding env p bind word) (named : p.name ≠ "")
    (type : intTypeOf p.declType p.isUnsigned = some d) (fn : CodeGen) :
    ∃ code, Yields bind fn () ((fn.withParam p (storageSize d)).print code) ∧
      ∀ τ, Moves env code τ (word τ) (alignUp (fn.stackOffset + storageSize d) (storageSize d) : Nat)
        (storageSize d) := by
  obtain ⟨size, sizes, notStruct, notFp⟩ := intTypeOf_storageSize type
  cases binding with
  | reg i =>
    refine ⟨[_], ?_, fun τ => moves_storeParamReg env τ (argReg i) _ sizes⟩
    rw [bindRegParam, if_pos named, size, yields_bind]
    exact ⟨_, _, yields_addParam.mpr ⟨rfl, rfl⟩, yields_emit.mpr rfl⟩
  | stack src =>
    refine ⟨_, ?_, fun τ => moves_copyParam env τ p.isUnsigned src _ sizes⟩
    rw [bindStackParam, if_pos named, size, yields_bind]
    exact ⟨_, _, yields_addParam.mpr ⟨rfl, rfl⟩, yields_emitAll.mpr rfl⟩
  | placedReg slot general =>
    refine ⟨[_], ?_, fun τ => moves_storeParamReg env τ (argReg slot.gpStart) _ sizes⟩
    rw [bindPassedInReg, notStruct, general, size]
    exact yields_bind.mpr ⟨_, _, yields_addParam.mpr ⟨rfl, rfl⟩, yields_emit.mpr rfl⟩
  | placedStack slot =>
    refine ⟨_, ?_, fun τ => moves_copyParam env τ p.isUnsigned _ _ sizes⟩
    rw [bindPassedOnStack, notStruct, notFp, size]
    exact yields_bind.mpr ⟨_, _, yields_addParam.mpr ⟨rfl, rfl⟩, yields_emitAll.mpr rfl⟩

/-- The value that the moved word gives the parameter. -/
theorem objectValue_of_bits {d : IntType} {m : Mem} {word : BitVec 64} {c : Int}
    (bits : ∀ i, i < 8 * storageSize d → m.bit p i = word.getLsbD i)
    (low : word.setWidth (8 * storageSize d) = BitVec.ofInt _ c) :
    objectValue d m p = d.ofBits (8 * storageSize d) (c % 2 ^ (8 * storageSize d)).toNat := by
  have number : m.loadNat p (storageSize d) = (BitVec.ofInt (8 * storageSize d) c).toNat := by
    apply Nat.eq_of_testBit_eq
    intro i
    rw [Mem.testBit_loadNat, BitVec.testBit_toNat, ← low, BitVec.getLsbD_setWidth]
    by_cases inside : i < 8 * storageSize d
    · rw [bits i inside]
    · rw [decide_eq_false inside, Bool.false_and, Bool.false_and]
  have modulus : ((2 ^ (8 * storageSize d) : Nat) : Int) = 2 ^ (8 * storageSize d) := by
    push_cast
    rfl
  rw [objectValue, number, BitVec.toNat_ofInt, modulus]

/-- The kind of an argument's conversion, for a parameter declared with kind `dkind`. -/
def PassedAs (dkind ckind : TypeKind) : Prop := ckind = dkind ∨ dkind = .bool ∧ ckind = .int

theorem PassedAs.type {dkind ckind : TypeKind} {isUnsigned : Bool} {d : IntType}
    (passed : PassedAs dkind ckind) (dest : intTypeOf dkind isUnsigned = some d) :
    ∃ isUnsigned' d', intTypeOf ckind isUnsigned' = some d' ∧ (d.width = 64 → d'.width = 64) := by
  rcases passed with rfl | ⟨rfl, rfl⟩
  · exact ⟨isUnsigned, d, dest, id⟩
  · cases dest
    exact ⟨false, .int, rfl, by decide⟩

theorem storageSize_of_wide {d : IntType} (wide : d.width = 64) : 8 * storageSize d = 64 := by
  rw [IntType.width] at wide
  rw [storageSize]
  cases rank : d.rank <;> simp [rank] at wide ⊢

theorem storageSize_of_narrow {d : IntType} (narrow : d.width ≠ 64) : 8 * storageSize d ≤ 32 := by
  rw [IntType.width] at narrow
  rw [storageSize]
  cases rank : d.rank <;> simp [rank] at narrow ⊢

theorem ofBits_converted_iff {d : IntType} {kind dkind ckind : TypeKind} {isUnsigned : Bool}
    {v : Int} (passed : PassedAs dkind ckind) (dest : intTypeOf dkind isUnsigned = some d)
    (range : typeKindBytes kind ≠ 8 → -2 ^ 31 ≤ v ∧ v < 2 ^ 32) :
    d.ofBits (8 * storageSize d) (converted kind ckind v % 2 ^ (8 * storageSize d)).toNat =
      d.convert v ↔ BytesExact kind dkind d v := by
  have size := (intTypeOf_size dest).2
  by_cases isBool : d.rank = .bool
  · have kept : converted kind ckind v % 256 = v % 256 := by
      have isDeclared : dkind = .bool := by
        cases dkind <;> cases isUnsigned <;> cases dest <;> first | rfl | cases isBool
      rcases passed with rfl | ⟨rfl, rfl⟩
      · rw [isDeclared]
        exact converted_low (.inl rfl)
      · have word : converted kind .int v % 4294967296 = v % 4294967296 :=
          converted_low (.inr (.inr rfl))
        omega
    have unsigned := d.bool_unsigned isBool
    rw [BytesExact, IntType.ofBits, IntType.convert, if_pos isBool, storageSize, isBool, unsigned]
    simp only [Bool.false_eq_true, if_false, Nat.reduceMul, Int.reducePow, kept]
    split <;> omega
  · have same : ckind = dkind := by
      rcases passed with same | ⟨rfl, -⟩
      · exact same
      · cases dest
        exact absurd rfl isBool
    subst same
    have bits : 8 * storageSize d = d.width := by
      rw [storageSize, IntType.width]
      cases rank : d.rank <;> first | rfl | exact absurd rank isBool
    have reduced : d.reduce d.width (converted kind ckind v) =
        d.convert (converted kind ckind v) := rfl
    rw [bits, toNat_ofInt, ofBits_ofInt d _ _ isBool, reduced, convert_eq_convert_iff isBool]
    by_cases wide : d.width = 64
    · rw [wide] at size ⊢
      have eight : typeKindBytes ckind = 8 := size
      have long : BytesExact kind ckind d v ↔
          typeKindBytes kind = typeKindBytes ckind ∨ -2 ^ 31 ≤ v ∧ v < 2 ^ 31 := by
        rw [IntType.width] at wide
        rw [BytesExact]
        cases rank : d.rank <;> simp [rank] at wide <;> rfl
      rw [long, converted, eight]
      by_cases same : typeKindBytes kind = 8
      · simp [same]
      · have inWord := range same
        rw [if_neg same, or_iff_right same]
        change v.bmod (2 ^ 32) % _ = _ ↔ _
        rw [Int.bmod_def]
        split <;> omega
    · have narrow : BytesExact kind ckind d v := by
        rw [IntType.width] at wide
        rw [BytesExact]
        cases rank : d.rank <;> simp [rank] at wide isBool ⊢
      have width := d.width_mem
      have some : d.width ≠ 1 := by
        rw [IntType.width]
        cases rank : d.rank <;> simp [rank] at isBool ⊢
      simp only [List.mem_cons, List.not_mem_nil, or_false] at width
      have bytes : d.width = 8 * typeKindBytes ckind := by omega
      rw [bytes]
      exact iff_of_true (converted_low (by omega)) narrow

end parameters

/-! ### The sites -/

section sites

variable {env : Env Symbol} {e : Expr} {a : Ann} {cg cg₁ : CodeGen} {s d : IntType} {v : Int}
  {dkind : TypeKind} {isUnsigned : Bool} {σ : State}

/-- In `σ` the code of `e` is done, and then the cast of `e` gives `x`. -/
def CastGives (env : Env Symbol) (e : Expr) (cg cg₁ : CodeGen) (σ : State) (dkind : TypeKind)
    (isUnsigned : Bool) (fullType : Option CType) (d : IntType) (x : Int) : Prop :=
  ∃ b cg₂ code σ' touched,
    Yields (codegenExpression (.cast dkind isUnsigned fullType e)) cg b cg₂ ∧
    cg₂.code = cg₁.code ++ code ∧ Runs env code σ σ' touched ∧ Carries σ' d x

/-- A call of the function in which `e` is returned gives `x`. -/
def ReturnGives (env : Env Symbol) (e : Expr) (cg cg₁ : CodeGen) (σ : State) (node : List Nat)
    (d : IntType) (x : Int) : Prop :=
  ∃ cg₂ code σ' touched, Yields (codegenStatement node (.returnStmt (some e))) cg () cg₂ ∧
    cg₂.code = cg₁.code ++ code ++ [.ret] ∧ Runs env code σ σ' touched ∧ Carries σ' d x

/-- A parameter for which `e` is passed gets the value `x`, whatever the prologue's function, when
the word that the caller's code leaves in `rax` is handed over. -/
def ParameterGets (env : Env Symbol) (e : Expr) (cg cg₁ : CodeGen) (σ : State) (p : Param)
    (convert : Ann → Gen Unit) (bind : Gen Unit) (word : State → BitVec 64) (d : IntType)
    (x : Int) : Prop :=
  ∃ cg₂ code σ' touched, Yields (evalArg ⟨codegen e, convert⟩) cg () cg₂ ∧
    cg₂.code = cg₁.code ++ code ∧ Runs env code σ σ' touched ∧
    ∀ fn τ, word τ = σ'.reg .rax → ∃ fn' lv code' τ' touched', Yields bind fn () fn' ∧
      fn'.locals = fn.locals ++ [lv] ∧ lv.name = p.name ∧ fn'.code = fn.code ++ code' ∧
      Runs env code' τ τ' touched' ∧ objectValue d τ'.mem (τ'.ea env lv.address) = x

/-- Every instruction that converts an operand of the kind to a floating type finds `v` in all of
its source register. -/
def FloatingSees (σ : State) (kind fkind : TypeKind) (v : Int) : Prop :=
  ∀ code ∈ [emitConvert kind fkind, emitFpWidenIfNeeded kind fkind,
      toCommonFp (fkind = .double) kind],
    ∃ p r, code = [.cvtFromInt p 0 r] ∧ σ.reg r = BitVec.ofInt 64 v

theorem cast_iff (done : Yields (codegenExpression e) cg a cg₁)
    (recorded : RecordedAs s a.resultType) (dest : intTypeOf dkind isUnsigned = some d)
    (carries : Carries σ s v) (fullType : Option CType) :
    CastGives env e cg cg₁ σ dkind isUnsigned fullType d (d.convert v) ↔
      RegisterExact a.resultType dkind d v := by
  obtain ⟨σ', run, low, full⟩ := runs_emitConvert env recorded dest carries
  rw [← carries_converted_iff recorded dest carries.inType low full]
  have cast : Yields (codegenExpression (.cast dkind isUnsigned fullType e)) cg
      ⟨dkind, fullType, isUnsigned⟩ (cg₁.print (emitConvert a.resultType dkind)) := by
    change Yields (genCast dkind isUnsigned fullType (codegen e)) cg _ _
    rw [genCast, yields_bind]
    exact ⟨a, cg₁, done, yields_bind.mpr ⟨(), _, yields_emitAll.mpr rfl, yields_pure.mpr ⟨rfl, rfl⟩⟩⟩
  constructor
  · rintro ⟨b, cg₂, code, σ₂, touched, run₂, printed, runs, result⟩
    rw [(yields_unique run₂ cast).2, code_print] at printed
    obtain rfl := List.append_cancel_left printed
    obtain ⟨rfl, -⟩ := runs.unique run
    exact result
  · intro result
    exact ⟨_, _, _, σ', [], cast, code_print _ _, run, result⟩

/-- What an epilogue restores before its `ret`. -/
def restoreFrame : List Asm :=
  [movMem .qword .r12 (frame 16), movMem .qword .r13 (frame 24), movMem .qword .r14 (frame 32),
    movMem .qword .r15 (frame 40), movMem .qword .rbx (frame 8), movReg .qword .rsp .rbp, .pop .rbp]

theorem runs_restoreFrame (env : Env Symbol) (σ : State) :
    ∃ σ' touched, Runs env restoreFrame σ σ' touched ∧ σ'.reg .rax = σ.reg .rax :=
  ⟨_, _, ⟨rfl, rfl⟩, rfl⟩

theorem yields_return (done : Yields (codegenExpression e) cg a cg₁)
    (recorded : RecordedAs s a.resultType) (dest : intTypeOf dkind isUnsigned = some d)
    (returns : cg.currentReturnType = dkind) (value : isVoidCall e = false) (node : List Nat) :
    Yields (codegenStatement node (.returnStmt (some e))) cg ()
      (cg₁.print (emitConvert a.resultType dkind ++ (restoreFrame ++ [.ret]))) := by
  have integer := kind_integer dest
  have operand := recorded.integer
  have kept : cg₁.currentReturnType = dkind := by
    have context := (neutral_codegenExpression (u := cg) e cg.pushDepth cg a cg₁ rfl rfl done).context
    exact (congrArg CodeGen.currentReturnType context).trans returns
  have convert : Yields (convertReturn cg₁ e a) cg₁ ()
      (cg₁.print (emitConvert a.resultType dkind)) := by
    rw [convertReturn, kept, if_neg (by simp [integer.1]), if_neg (by simp [integer.1, operand])]
    exact yields_emitAll.mpr rfl
  have leave (cg : CodeGen) : Yields emitEpilogue cg () (cg.print (restoreFrame ++ [.ret])) :=
    yields_emitAll.mpr rfl
  have scalar : Yields (genReturnScalar (codegen e)) cg ()
      (cg₁.print (emitConvert a.resultType dkind ++ (restoreFrame ++ [.ret]))) := by
    rw [← CodeGen.print_append, genReturnScalar, codegen_node, yields_bind]
    refine ⟨a, cg₁, done, yields_bind.mpr ⟨cg₁, cg₁, yields_get.mpr ⟨rfl, rfl⟩, ?_⟩⟩
    exact yields_bind.mpr ⟨(), _, convert, leave _⟩
  change Yields (genReturn (codegen e)) cg () _
  rw [genReturn, yields_bind]
  refine ⟨cg, cg, yields_get.mpr ⟨rfl, rfl⟩, ?_⟩
  rw [returns, codegen_node, value, integer.2.2]
  simp only [errorIf, integer.2.1, Bool.false_eq_true, if_false, pure_bind]
  exact scalar

theorem return_iff (done : Yields (codegenExpression e) cg a cg₁)
    (recorded : RecordedAs s a.resultType) (dest : intTypeOf dkind isUnsigned = some d)
    (carries : Carries σ s v) (returns : cg.currentReturnType = dkind)
    (value : isVoidCall e = false) (node : List Nat) :
    ReturnGives env e cg cg₁ σ node d (d.convert v) ↔ RegisterExact a.resultType dkind d v := by
  obtain ⟨σ₁, run, low, full⟩ := runs_emitConvert env recorded dest carries
  obtain ⟨σ', touched, restore, kept⟩ := runs_restoreFrame env σ₁
  rw [← carries_converted_iff recorded dest carries.inType low full, ← Carries.congr kept]
  have whole := run.append restore
  have printed := yields_return done recorded dest returns value node
  constructor
  · rintro ⟨cg₂, code, σ₂, touched₂, run₂, code_eq, runs, result⟩
    rw [(yields_unique run₂ printed).2, code_print, ← List.append_assoc, ← List.append_assoc]
      at code_eq
    have same := (List.append_inj' code_eq rfl).1
    rw [List.append_assoc] at same
    rw [← List.append_cancel_left same] at runs
    obtain ⟨rfl, -⟩ := runs.unique whole
    exact result
  · intro result
    refine ⟨_, _, σ', _, printed, ?_, whole, result⟩
    rw [code_print]
    simp only [List.append_assoc]

theorem argument_converted {p : Param} {convert : Ann → Gen Unit}
    (argument : ArgumentConversion e p convert) (recorded : RecordedAs s a.resultType)
    (dest : intTypeOf p.declType isUnsigned = some d) :
    ∃ ckind, PassedAs p.declType ckind ∧
      ∀ cg, Yields (convert a) cg () (cg.print (emitConvert a.resultType ckind)) := by
  have operand := recorded.integer
  have integer := kind_integer dest
  cases argument with
  | direct name =>
    refine ⟨p.declType, .inl rfl, fun cg => ?_⟩
    simp only [argConvert, operand, integer.1, or_self, if_false]
    exact yields_emitAll.mpr rfl
  | indirect index param kind =>
    have passed : PassedAs p.declType param.kind := by
      rcases kind with same | rfl
      · exact .inl same
      · revert dest
        unfold paramType
        cases p.declType <;> cases isUnsigned <;> intro dest <;> cases dest <;>
          first | exact .inl rfl | exact .inr ⟨rfl, rfl⟩
    have other : param.kind ≠ .pointer := by
      rcases passed with same | ⟨-, same⟩
      · rw [same]
        exact integer.1
      · rw [same]
        decide
    refine ⟨param.kind, passed, fun cg => ?_⟩
    simp only [indirectArgConvert, operand, other, or_self, if_false]
    exact yields_emitAll.mpr rfl

/-- Any word can be handed over. -/
theorem exists_handed {p : Param} {bind : Gen Unit} {word : State → BitVec 64}
    (binding : ParameterBinding env p bind word) (x : BitVec 64) : ∃ τ, word τ = x := by
  have stored (src : Int) : ∃ τ : State,
      BitVec.ofNat 64 (τ.mem.loadNat (τ.ea env (incoming src)) 8) = x := by
    let start : State := stateWith 0 0 0
    refine ⟨{ start with mem := start.mem.storeNat (start.ea env (incoming src)) 8 x.toNat }, ?_⟩
    apply BitVec.eq_of_getLsbD_eq
    intro i inside
    rw [getLsbD_loadNat _ _ inside inside]
    exact (Mem.bit_storeNat start.mem _ 8 x.toNat (by omega)).trans (if_pos inside)
  cases binding with
  | reg i => exact ⟨(stateWith 0 0 0).setFull (argReg i) x, State.setFull_reg_self ..⟩
  | stack src => exact stored src
  | placedReg slot _ =>
    exact ⟨(stateWith 0 0 0).setFull (argReg slot.gpStart) x, State.setFull_reg_self ..⟩
  | placedStack slot => exact stored _

theorem parameter_iff (done : Yields (codegenExpression e) cg a cg₁)
    (recorded : RecordedAs s a.resultType) {p : Param} (dest : intTypeOf p.declType p.isUnsigned = some d)
    (carries : Carries σ s v) (named : p.name ≠ "") {convert : Ann → Gen Unit}
    (argument : ArgumentConversion e p convert) {bind : Gen Unit} {word : State → BitVec 64}
    (binding : ParameterBinding env p bind word) :
    ParameterGets env e cg cg₁ σ p convert bind word d (d.convert v) ↔
      BytesExact a.resultType p.declType d v := by
  obtain ⟨ckind, passed, convert_code⟩ := argument_converted argument recorded dest
  obtain ⟨isUnsigned', d', dest', wider⟩ := passed.type dest
  obtain ⟨σ', run, low, full⟩ := runs_emitConvert env recorded dest' carries
  have word_low : (σ'.reg .rax).setWidth (8 * storageSize d) =
      BitVec.ofInt _ (converted a.resultType ckind v) := by
    have sizes := (intTypeOf_storageSize dest).2.1
    by_cases wide : d.width = 64
    · rw [full (wider wide), setWidth_ofInt (by rw [storageSize_of_wide wide])]
    · rw [← BitVec.setWidth_setWidth_of_le _ (storageSize_of_narrow wide)]
      exact (congrArg (BitVec.setWidth _) low).trans (setWidth_ofInt (storageSize_of_narrow wide) _)
  have argument_code : Yields (evalArg ⟨codegen e, convert⟩) cg ()
      (cg₁.print (emitConvert a.resultType ckind)) :=
    yields_bind.mpr ⟨a, cg₁, done, convert_code cg₁⟩
  rw [← ofBits_converted_iff passed dest (recorded.range carries.inType)]
  have bound (fn : CodeGen) (τ : State) (handed : word τ = σ'.reg .rax) :
      ∃ code τ' touched, Yields bind fn () ((fn.withParam p (storageSize d)).print code) ∧
        Runs env code τ τ' touched ∧
        objectValue d τ'.mem (τ'.ea env (frame
          (alignUp (fn.stackOffset + storageSize d) (storageSize d) : Nat))) =
          d.ofBits (8 * storageSize d)
            (converted a.resultType ckind v % 2 ^ (8 * storageSize d)).toNat := by
    obtain ⟨code, yields, moves⟩ := binding_moves binding named dest fn
    obtain ⟨τ', touched, runs, frameReg, bits⟩ := moves τ
    refine ⟨code, τ', touched, yields, runs, ?_⟩
    have address : τ'.ea env (frame (alignUp (fn.stackOffset + storageSize d) (storageSize d) : Nat))
        = τ.ea env (frame (alignUp (fn.stackOffset + storageSize d) (storageSize d) : Nat)) := by
      simp only [frame, State.ea, frameReg]
    rw [address]
    exact objectValue_of_bits bits (by rw [handed, word_low])
  constructor
  · rintro ⟨cg₂, code, σ₂, touched, run₂, printed, runs, gets⟩
    rw [(yields_unique run₂ argument_code).2, code_print] at printed
    obtain rfl := List.append_cancel_left printed
    obtain ⟨rfl, -⟩ := runs.unique run
    obtain ⟨τ, handed⟩ := exists_handed binding (σ₂.reg .rax)
    obtain ⟨fn', lv, code', τ', touched', yields, locals, -, printed', runs', value⟩ :=
      gets (codegenInit [] fun _ => []) τ handed
    obtain ⟨code'', τ'', touched'', yields', runs'', value'⟩ :=
      bound (codegenInit [] fun _ => []) τ handed
    obtain rfl := (yields_unique yields yields').2
    rw [code_print] at printed'
    obtain rfl := List.append_cancel_left printed'
    obtain ⟨rfl, -⟩ := runs'.unique runs''
    obtain rfl := List.singleton_inj.mp (List.append_cancel_left locals)
    exact value'.symm.trans value
  · intro exact
    refine ⟨_, _, σ', [], argument_code, code_print _ _, run, fun fn τ handed => ?_⟩
    obtain ⟨code, τ', touched, yields, runs, value⟩ := bound fn τ handed
    exact ⟨_, _, code, τ', touched, yields, rfl, rfl, code_print _ _, runs, value.trans exact⟩

theorem floatingSees_iff {kind fkind : TypeKind} (floating : typeIsFp fkind = true)
    (integer : typeIsFp kind = false) :
    FloatingSees σ kind fkind v ↔ σ.reg .rax = BitVec.ofInt 64 v := by
  have different : kind ≠ fkind := by
    rintro rfl
    rw [floating] at integer
    cases integer
  have code : ∀ code ∈ [emitConvert kind fkind, emitFpWidenIfNeeded kind fkind,
      toCommonFp (fkind = .double) kind], ∃ p, code = [.cvtFromInt p 0 .rax] := by
    simp only [List.forall_mem_cons, emitConvert, emitFpWidenIfNeeded, toCommonFp, different,
      integer, floating]
    exact ⟨⟨_, rfl⟩, ⟨_, rfl⟩, ⟨_, rfl⟩, by simp⟩
  constructor
  · intro sees
    obtain ⟨p, r, converts, full⟩ := sees _ List.mem_cons_self
    obtain ⟨q, converts'⟩ := code _ List.mem_cons_self
    rw [converts'] at converts
    cases converts
    exact full
  · intro full conversion member
    obtain ⟨p, converts⟩ := code conversion member
    exact ⟨p, .rax, converts, full⟩

/-- A number carried in `eax` fills `rax` when the upper half is its sign. -/
theorem full_iff_upper {x : BitVec 64} (low : x.setWidth 32 = BitVec.ofInt 32 v)
    (range : -2 ^ 31 ≤ v ∧ v < 2 ^ 32) :
    x = BitVec.ofInt 64 v ↔ x.toNat / 2 ^ 32 = if v < 0 then 2 ^ 32 - 1 else 0 := by
  have half := congrArg BitVec.toNat low
  rw [BitVec.toNat_setWidth, BitVec.toNat_ofInt] at half
  have whole : x = BitVec.ofInt 64 v ↔ x.toNat = (v % (2 ^ 64 : Nat)).toNat := by
    rw [← BitVec.toNat_ofInt]
    exact ⟨congrArg BitVec.toNat, BitVec.eq_of_toNat_eq⟩
  have bound := x.isLt
  rw [whole]
  split <;> omega

theorem floating_iff {fkind : TypeKind} (floating : typeIsFp fkind = true)
    (recorded : RecordedAs s a.resultType) (carries : Carries σ s v) :
    FloatingSees σ a.resultType fkind v ↔
      s.width = 64 ∨ (σ.reg .rax).toNat / 2 ^ 32 = if v < 0 then 2 ^ 32 - 1 else 0 := by
  obtain ⟨integer, wide, -, -⟩ := recorded.size
  rw [floatingSees_iff floating integer]
  by_cases full : s.width = 64
  · exact iff_of_true ((carries_wide full).mp carries).2 (.inl full)
  · rw [full_iff_upper carries.low (recorded.range carries.inType fun size => full (wide.mp size))]
    exact (or_iff_right full).symm

/-- The conversions of an integer operand are right exactly for these types and values. -/
theorem conversions_iff (env : Env Symbol) (done : Yields (codegenExpression e) cg a cg₁)
    (recorded : RecordedAs s a.resultType) (carries : Carries σ s v)
    (dest : intTypeOf dkind isUnsigned = some d) :
    (∀ fullType, CastGives env e cg cg₁ σ dkind isUnsigned fullType d (d.convert v) ↔
      RegisterExact a.resultType dkind d v) ∧
    (cg.currentReturnType = dkind → isVoidCall e = false → ∀ node,
      (ReturnGives env e cg cg₁ σ node d (d.convert v) ↔ RegisterExact a.resultType dkind d v)) ∧
    (∀ (p : Param) convert bind word, p.declType = dkind → p.isUnsigned = isUnsigned → p.name ≠ "" →
      ArgumentConversion e p convert → ParameterBinding env p bind word →
      (ParameterGets env e cg cg₁ σ p convert bind word d (d.convert v) ↔
        BytesExact a.resultType dkind d v)) ∧
    (∀ fkind, typeIsFp fkind = true → (FloatingSees σ a.resultType fkind v ↔
      s.width = 64 ∨ (σ.reg .rax).toNat / 2 ^ 32 = if v < 0 then 2 ^ 32 - 1 else 0)) := by
  refine ⟨cast_iff done recorded dest carries, return_iff done recorded dest carries, ?_,
    fun _ floating => floating_iff floating recorded carries⟩
  rintro p convert bind word rfl rfl named argument binding
  exact parameter_iff done recorded dest carries named argument binding

end sites

/-- A function with the variable `int x` in the four bytes at `rbp - 48`. -/
def functionWithX : CodeGen :=
  { codegenInit [] fun _ => [] with
    locals := [{
      name := "x", offset := 48, size := 4, kind := .int, fullType := none, isConst := false
      isUnsigned := false, isStatic := false, staticLabel := .named "", isRegister := false }] }

/-- The bytes of `x` hold `n`. -/
def stateWithX (n : Nat) : State :=
  { stateWith 0 0 0 with reg := fun _ => 48, mem := Mem.storeNat (fun _ => 0) 0 4 n }

/-- `(long)x` when `x` is 200. -/
theorem castX_to_long : ∃ a cg₁ σ, Yields (codegenExpression (.varRef "x")) functionWithX a cg₁ ∧
    CastGives sampleEnv (.varRef "x") functionWithX cg₁ σ .long false none
      { rank := .long, signed := true } 200 := by
  let σ := (stateWithX 200).setFull .rax 200
  have carries : Carries σ .int 200 := ⟨by decide, rfl⟩
  have done : Yields (codegenExpression (.varRef "x")) functionWithX ⟨.int, none, false⟩
      (functionWithX.print [movMem .dword .rax (frame 48)]) := rfl
  have long : intTypeOf .long false = some { rank := .long, signed := true } := rfl
  have cast := (conversions_iff sampleEnv done ⟨.int, false, rfl, .inl rfl⟩ carries long).1 none
  refine ⟨_, _, σ, rfl, cast.mpr ?_⟩
  rw [RegisterExact, if_neg (by decide)]
  exact ⟨by decide, by decide⟩

/-- `(unsigned char)x` when `x` is 200, and `(double)x` when `x` is -1. -/
theorem castX_not_right : ∃ a cg₁, Yields (codegenExpression (.varRef "x")) functionWithX a cg₁ ∧
    (∃ σ touched, Runs sampleEnv cg₁.code (stateWithX 200) σ touched ∧ Carries σ .int 200 ∧
      ¬ CastGives sampleEnv (.varRef "x") functionWithX cg₁ σ .char true none
        { rank := .char, signed := false } 200) ∧
    ∃ σ touched, Runs sampleEnv cg₁.code (stateWithX 0xFFFFFFFF) σ touched ∧
      Carries σ .int (-1) ∧ ¬ FloatingSees σ a.resultType .double (-1) := by
  have recorded : RecordedAs .int .int := ⟨.int, false, rfl, .inl rfl⟩
  have done : Yields (codegenExpression (.varRef "x")) functionWithX ⟨.int, none, false⟩
      (functionWithX.print [movMem .dword .rax (frame 48)]) := rfl
  have loads (n : Nat) : ∃ σ touched, Runs sampleEnv [movMem .dword .rax (frame 48)] (stateWithX n)
      σ touched ∧ σ.reg .rax = (dwordAt (stateWithX n).mem 0).setWidth 64 := by
    have address : (stateWithX n).ea sampleEnv (frame 48) = 0 := by
      change (48 : BitVec 64) + BitVec.ofInt 64 (-48) = 0
      decide
    refine ⟨_, _, runs_loadEax sampleEnv _ (frame 48), ?_⟩
    rw [State.setFull_reg_self, address]
  refine ⟨_, _, done, ?_, ?_⟩
  · obtain ⟨σ, touched, run, rax⟩ := loads 200
    have carries : Carries σ .int 200 :=
      (carries_narrow (by decide)).mpr ⟨by decide, by rw [low32, rax]; decide⟩
    refine ⟨σ, touched, run, carries, fun gives => ?_⟩
    have exact := (cast_iff done recorded rfl carries none).mp gives
    rw [RegisterExact, if_neg (by decide)] at exact
    exact absurd exact (by decide)
  · obtain ⟨σ, touched, run, rax⟩ := loads 0xFFFFFFFF
    have carries : Carries σ .int (-1) :=
      (carries_narrow (by decide)).mpr ⟨by decide, by rw [low32, rax]; decide⟩
    refine ⟨σ, touched, run, carries, fun sees => ?_⟩
    have full := (floatingSees_iff rfl rfl).mp sees
    rw [rax] at full
    exact absurd full (by decide)

end ClaudeC99
