import ClaudeC99.Codegen.Expression
import ClaudeC99.Struct.Members
import ClaudeC99.Values.Registers

/-! Reading and storing bit-fields. The code works on the four bytes at the start of the storage
unit, whatever the size and the signedness of the declared type. -/

namespace ClaudeC99

open X86 StateExcept
open IntArith (IntType)

/-- The storage unit of a bit-field has the size of its declared type. -/
def storageSize (t : IntType) : Nat :=
  match t.rank with
  | .bool | .char => 1
  | .short => 2
  | .int => 4
  | .long | .longLong => 8

/-- The bytes lie in the unit of so many bytes at `p`. -/
def WithinUnit (p : BitVec 64) (size : Nat) (touched : List Span) : Prop :=
  ∀ s ∈ touched, ∃ k, s.1 = p + BitVec.ofNat 64 k ∧ k + s.2 ≤ size

/-- An arithmetic right operand. -/
inductive Stored
  | integer (t : IntType)
  | floating (p : FpWidth)
  deriving DecidableEq

/-- The integer value of a right operand whose code is done; a floating one is truncated. -/
def Stored.Value {S : Type} (env : Env S) (σ : State) : Stored → Int → Prop
  | .integer t, v => Carries σ t v
  | .floating p, v => (env.fpu.toInt p (σ.fpSrc env p (.xmm 0))).toInt = v

/-- What follows the right operand's code in a store. -/
def bitfieldStore (f : StructField) : List Asm :=
  maskField f ++ shiftField .shl f ++
    [movReg .dword .rcx .rax, .pop .rbx, movMem .dword .rax (through .rbx),
      aluImm .and .dword .rax (bitfieldClearMask f), aluReg .or .dword .rax .rcx,
      .store .dword (through .rbx) .rax] ++
    shiftField .shr f ++ maskField f

/-- `code` is printed behind the right operand's code in every store into the member `f`, and the
assignment is recorded as `a`. -/
def StoreCode (f : StructField) (code : List Asm) (a : Ann) : Prop :=
  ∀ value cg b cg', Yields (storeMember f value) cg b cg' →
    b = a ∧ ∃ c mid, Yields value.codegenExpression (cg.pushed .rax) c mid ∧
      cg'.code = mid.code ++ code

/-- `code` is printed behind the address in every read of the member `f`, recorded as `a`. -/
def ReadCode (f : StructField) (code : List Asm) (a : Ann) : Prop :=
  ∀ addr cg mid b cg', Yields addr cg f mid → Yields (genMemberRead addr) cg b cg' →
    b = a ∧ cg'.code = mid.code ++ code

/-- A read, started with the unit's address in `rax`, gives the value of the field's `w` bits and
touches nothing outside of the unit. -/
def ReadsExactly (env : Env Symbol) (f : StructField) (t : IntType) (w : Nat) : Prop :=
  ∃ code a, ReadCode f code a ∧ ∀ σ, ∃ σ' touched, Runs env code σ σ' touched ∧
    WithinUnit (σ.reg .rax) (storageSize t) touched ∧ σ'.mem = σ.mem ∧
    number a.resultType a.isUnsigned σ' = t.ofBits w (σ.mem.field (σ.reg .rax) f.bitOffset w)

/-- A store, with the unit's address on the stack and the right operand evaluated, changes the
field's `w` bits and nothing else, and its value is the one stored. -/
def StoresExactly (env : Env Symbol) (f : StructField) (t : IntType) (w : Nat)
    (stored : Stored) : Prop :=
  ∃ code a, StoreCode f code a ∧ ∀ σ v, stored.Value env σ v →
    let p := topWord σ
    ∃ σ' touched, Runs env code σ σ' touched ∧ WithinUnit p (storageSize t) touched ∧
      σ.mem.Stored σ'.mem p (storageSize t) f.bitOffset w (t.reduce w v) ∧
      (∀ b, storageSize t ≤ (b - p).toNat → σ'.mem b = σ.mem b) ∧
      number a.resultType a.isUnsigned σ' = t.reduce w v

/-- The field lies in the four bytes at the start of its unit, and zero extension to `int` is
right for it. -/
def FourByteField (b w : Nat) (t : IntType) : Prop :=
  4 ≤ storageSize t ∧ b + w ≤ 32 ∧ (t.signed = true ↔ w = 32)

/-! ### The instructions -/

section runs

variable {env : Env Symbol} {f : StructField} {σ σ' σ'' : State}

/-- The low `w` bits of `x`, as `maskField` leaves them. -/
def lowBits (w : Nat) (x : BitVec 32) : BitVec 32 :=
  if w < 32 then x &&& BitVec.ofInt 32 ((2 ^ w - 1 : Nat) : Int) else x

theorem runs_maskField (env : Env Symbol) (f : StructField) (σ : State) :
    ∃ σ', Runs env (maskField f) σ σ' [] ∧ Eax (lowBits f.bitWidth (low32 σ .rax)) σ σ' := by
  by_cases narrow : f.bitWidth < 32
  · have mask : bitfieldMask f = 2 ^ f.bitWidth - 1 := by
      rw [bitfieldMask, if_neg (by omega)]
    rw [maskField, if_pos narrow, lowBits, if_pos narrow, mask]
    exact ⟨_, Runs.single rfl, Eax.set _ σ _⟩
  · rw [maskField, if_neg narrow, lowBits, if_neg narrow]
    exact ⟨σ, Runs.nil σ, Eax.refl σ⟩

theorem runs_shiftField (env : Env Symbol) (op : Shift) (f : StructField) (σ : State)
    (zero : ∀ x : BitVec 32, op.result x 0 = x) :
    ∃ σ', Runs env (shiftField op f) σ σ' [] ∧
      Eax (op.result (low32 σ .rax) (f.bitOffset % 32)) σ σ' := by
  by_cases shifted : f.bitOffset > 0
  · rw [shiftField, if_pos shifted]
    exact ⟨_, Runs.single rfl, Eax.set _ σ σ.flags⟩
  · have start : f.bitOffset % 32 = 0 := by omega
    rw [shiftField, if_neg shifted, start, zero]
    exact ⟨σ, Runs.nil σ, Eax.refl σ⟩

theorem runs_shr (env : Env Symbol) (f : StructField) (σ : State) :
    ∃ σ', Runs env (shiftField .shr f) σ σ' [] ∧
      Eax (low32 σ .rax >>> (f.bitOffset % 32)) σ σ' :=
  runs_shiftField env .shr f σ fun x => BitVec.ushiftRight_zero x

theorem runs_shl (env : Env Symbol) (f : StructField) (σ : State) :
    ∃ σ', Runs env (shiftField .shl f) σ σ' [] ∧
      Eax (low32 σ .rax <<< (f.bitOffset % 32)) σ σ' :=
  runs_shiftField env .shl f σ fun x => BitVec.shiftLeft_zero x

theorem runs_loadBitfield (env : Env Symbol) (f : StructField) (σ : State) :
    ∃ σ', Runs env (loadBitfield f) σ σ' [(σ.reg .rax, 4)] ∧
      Eax (lowBits f.bitWidth (dwordAt σ.mem (σ.reg .rax) >>> (f.bitOffset % 32))) σ σ' := by
  have load : Runs env [movMem .dword .rax (through .rax)] σ
      (σ.setFull .rax ((dwordAt σ.mem (σ.reg .rax)).setWidth 64)) [(σ.reg .rax, 4)] := by
    rw [← ea_through env σ .rax]
    exact Runs.single rfl
  have loaded := Eax.set (dwordAt σ.mem (σ.reg .rax)) σ σ.flags
  obtain ⟨σ₁, shift, shifted⟩ :=
    runs_shr env f (σ.setFull .rax ((dwordAt σ.mem (σ.reg .rax)).setWidth 64))
  obtain ⟨σ₂, mask, masked⟩ := runs_maskField env f σ₁
  rw [loaded.eax] at shifted
  rw [shifted.eax] at masked
  exact ⟨σ₂, load.append (shift.append mask), loaded.trans (shifted.trans masked)⟩

/-- The dword of the unit after a store. -/
def storedDword (f : StructField) (x value : BitVec 32) : BitVec 32 :=
  (x &&& BitVec.ofInt 32 (bitfieldClearMask f)) |||
    (lowBits f.bitWidth value <<< (f.bitOffset % 32))

/-- What a store leaves behind. -/
structure BitfieldStored (f : StructField) (p : BitVec 64) (σ σ' : State) : Prop where
  mem : σ'.mem = σ.mem.storeNat p 4 (storedDword f (dwordAt σ.mem p) (low32 σ .rax)).toNat
  eax : low32 σ' .rax = lowBits f.bitWidth
    (storedDword f (dwordAt σ.mem p) (low32 σ .rax) >>> (f.bitOffset % 32))

/-- The unit is rewritten with the bits that `eax` holds in place. -/
def rewriteUnit (f : StructField) : List Asm :=
  [movReg .dword .rcx .rax, .pop .rbx, movMem .dword .rax (through .rbx),
    aluImm .and .dword .rax (bitfieldClearMask f), aluReg .or .dword .rax .rcx,
    .store .dword (through .rbx) .rax]

theorem runs_rewriteUnit (env : Env Symbol) (f : StructField) (σ : State) :
    let p := topWord σ
    let x := (dwordAt σ.mem p &&& BitVec.ofInt 32 (bitfieldClearMask f)) ||| low32 σ .rax
    ∃ σ', Runs env (rewriteUnit f) σ σ' [(p, 4), (p, 4)] ∧
      σ'.mem = σ.mem.storeNat p 4 x.toNat ∧ low32 σ' .rax = x := by
  intro p x
  let σ₁ := σ.setFull .rcx ((low32 σ .rax).setWidth 64)
  let σ₂ := (σ₁.setFull .rsp (σ.reg .rsp + 8)).setFull .rbx p
  have rbx : σ₂.reg .rbx = p := rfl
  have moved : Runs env [movReg .dword .rcx .rax] σ σ₁ [] := .single rfl
  have popped : Runs env [movReg .dword .rcx .rax, .pop .rbx] σ σ₂ [] := moved.append (.single rfl)
  have load := runs_loadEax env σ₂ (through .rbx)
  rw [ea_through, rbx] at load
  have loaded := Eax.set (dwordAt σ₂.mem p) σ₂ σ₂.flags
  obtain ⟨σ₄, clear, cleared⟩ := runs_aluEax env _ .and (.imm (bitfieldClearMask f)) rfl rfl
  obtain ⟨σ₅, merge, merged⟩ := runs_aluEax env σ₄ .or (.reg .rcx) rfl rfl
  rw [loaded.eax] at cleared
  have rcx : low32 σ₄ .rcx = low32 σ .rax := by
    have kept := (loaded.trans cleared).other .rcx (by decide)
    rw [low32, kept]
    exact low32_setFull σ .rcx _
  have after := loaded.trans (cleared.trans merged)
  have whole : low32 σ₅ .rax = x := by
    rw [merged.eax, cleared.eax]
    exact congrArg (dwordAt σ.mem p &&& BitVec.ofInt 32 (bitfieldClearMask f) ||| ·) rcx
  have mem : σ₅.mem = σ.mem := after.mem
  have address : σ₅.reg .rbx = p := after.other .rbx (by decide)
  have store := runs_storeEax env σ₅ (through .rbx)
  rw [ea_through, address, whole, mem] at store
  exact ⟨_, popped.append (load.append (clear.append (merge.append store))), rfl, whole⟩

theorem runs_bitfieldStore (env : Env Symbol) (f : StructField) (σ : State) :
    let p := topWord σ
    ∃ σ', Runs env (bitfieldStore f) σ σ' [(p, 4), (p, 4)] ∧ BitfieldStored f p σ σ' := by
  intro p
  obtain ⟨σ₁, mask, masked⟩ := runs_maskField env f σ
  obtain ⟨σ₂, shift, shifted⟩ := runs_shl env f σ₁
  have before := masked.trans shifted
  obtain ⟨σ₃, rewrite, written, whole⟩ := runs_rewriteUnit env f σ₂
  have top : topWord σ₂ = p := by
    rw [topWord, before.mem, before.other .rsp (by decide)]
    rfl
  rw [top] at rewrite written whole
  rw [before.eax, before.mem, masked.eax] at written whole
  obtain ⟨σ₄, shift', shifted'⟩ := runs_shr env f σ₃
  obtain ⟨σ₅, mask', masked'⟩ := runs_maskField env f σ₄
  have after := shifted'.trans masked'
  refine ⟨σ₅, ?_, ?_, ?_⟩
  · have code : bitfieldStore f = maskField f ++ (shiftField .shl f ++ (rewriteUnit f ++
        (shiftField .shr f ++ maskField f))) := by
      simp [bitfieldStore, rewriteUnit]
    rw [code]
    exact mask.append (shift.append (rewrite.append (shift'.append mask')))
  · rw [after.mem, written]
    rfl
  · rw [after.eax, shifted'.eax, whole]
    rfl

end runs

/-! ### The printed code -/

section code

variable {f : StructField}

/-- The generator after a store whose right operand's code ends in `mid`. -/
def storeDone (f : StructField) (mid : CodeGen) : CodeGen :=
  ((mid.print (maskField f ++ shiftField .shl f ++ [movReg .dword .rcx .rax])).popped .rbx).print
    ((rewriteUnit f).drop 2 ++ shiftField .shr f ++ maskField f)

theorem code_storeDone (f : StructField) (mid : CodeGen) :
    (storeDone f mid).code = mid.code ++ bitfieldStore f := by
  simp [storeDone, bitfieldStore, rewriteUnit]

theorem yields_storeMember (bits : f.isBitfield = true) {value : ExprGen} {cg cg' : CodeGen}
    {b : Ann} : Yields (storeMember f value) cg b cg' ↔ .ofKind .int = b ∧
      ∃ c mid, Yields value.codegenExpression (cg.pushed .rax) c mid ∧ storeDone f mid = cg' := by
  simp only [storeMember, bits, if_true, storeBitfield, yields_bind, yields_pushReg, yields_popReg,
    yields_emit, yields_emitAll, yields_pure, exists_eq_left', exists_const,
    CodeGen.print_append]
  constructor
  · rintro ⟨_, ⟨c, mid, run, rfl⟩, rfl, rfl⟩
    exact ⟨rfl, c, mid, run, by simp [storeDone, rewriteUnit]⟩
  · rintro ⟨rfl, c, mid, run, rfl⟩
    exact ⟨_, ⟨c, mid, run, rfl⟩, rfl, by simp [storeDone, rewriteUnit]⟩

theorem storeCode_bitfieldStore (bits : f.isBitfield = true) :
    StoreCode f (bitfieldStore f) (.ofKind .int) := by
  intro value cg b cg' run
  obtain ⟨rfl, c, mid, operand, rfl⟩ := (yields_storeMember bits).mp run
  exact ⟨rfl, c, mid, operand, code_storeDone f mid⟩

theorem storeCode_unique (bits : f.isBitfield = true) {code : List Asm} {a : Ann}
    (prints : StoreCode f code a) : code = bitfieldStore f ∧ a = .ofKind .int := by
  let value := codegen (.intLiteral (.dec 0) .int false)
  let start := codegenInit [] fun _ => []
  obtain ⟨c, mid, operand⟩ : ∃ c mid, Yields value.codegenExpression (start.pushed .rax) c mid :=
    ⟨_, _, rfl⟩
  obtain ⟨recorded, c', mid', operand', printed⟩ :=
    prints value start _ _ ((yields_storeMember bits).mpr ⟨rfl, c, mid, operand, rfl⟩)
  obtain ⟨rfl, rfl⟩ : c = c' ∧ mid = mid' := by
    have same := Except.ok.inj (operand.symm.trans operand')
    exact Prod.mk.inj same
  rw [code_storeDone] at printed
  exact ⟨(List.append_cancel_left printed).symm, recorded.symm⟩

theorem yields_genMemberRead (bits : f.isBitfield = true) {addr : Gen StructField}
    {cg mid cg' : CodeGen} {b : Ann} (address : Yields addr cg f mid) :
    Yields (genMemberRead addr) cg b cg' ↔ .ofKind .int = b ∧ mid.print (loadBitfield f) = cg' := by
  have unique {g : StructField} {other : CodeGen} (run : Yields addr cg g other) :
      g = f ∧ other = mid := Prod.mk.inj (Except.ok.inj (run.symm.trans address))
  rw [genMemberRead, yields_bind]
  constructor
  · rintro ⟨g, other, run, rest⟩
    obtain ⟨rfl, rfl⟩ := unique run
    rw [bits, if_pos rfl, yields_bind] at rest
    obtain ⟨_, done, printed, recorded⟩ := rest
    rw [yields_emitAll] at printed
    obtain ⟨recorded, last⟩ := yields_pure.mp recorded
    exact ⟨recorded, printed.trans last⟩
  · rintro ⟨rfl, rfl⟩
    refine ⟨f, mid, address, ?_⟩
    rw [bits, if_pos rfl, yields_bind]
    exact ⟨(), _, yields_emitAll.mpr rfl, yields_pure.mpr ⟨rfl, rfl⟩⟩

theorem readCode_loadBitfield (bits : f.isBitfield = true) :
    ReadCode f (loadBitfield f) (.ofKind .int) := by
  intro addr cg mid b cg' address run
  obtain ⟨rfl, rfl⟩ := (yields_genMemberRead bits address).mp run
  exact ⟨rfl, code_print mid _⟩

theorem readCode_unique (bits : f.isBitfield = true) {code : List Asm} {a : Ann}
    (prints : ReadCode f code a) : code = loadBitfield f ∧ a = .ofKind .int := by
  let start := codegenInit [] fun _ => []
  have address : Yields (pure f : Gen StructField) start f start := rfl
  obtain ⟨recorded, printed⟩ :=
    prints _ _ _ _ _ address ((yields_genMemberRead bits address).mpr ⟨rfl, rfl⟩)
  rw [code_print] at printed
  exact ⟨(List.append_cancel_left printed).symm, recorded.symm⟩

end code

/-! ### Bits -/

section bits

variable {b w i : Nat}

theorem getLsbD_lowBits (w : Nat) (x : BitVec 32) (i : Nat) :
    (lowBits w x).getLsbD i = (decide (i < w) && x.getLsbD i) := by
  unfold lowBits
  split
  · rw [BitVec.getLsbD_and, BitVec.ofInt_natCast, BitVec.getLsbD_ofNat,
      Nat.testBit_two_pow_sub_one, Bool.and_comm]
    by_cases inside : i < 32
    · rw [decide_eq_true inside, Bool.true_and]
    · rw [BitVec.getLsbD_of_ge x i (by omega), Bool.and_false, Bool.and_false]
  · by_cases inside : i < w
    · rw [decide_eq_true inside, Bool.true_and]
    · rw [BitVec.getLsbD_of_ge x i (by omega), Bool.and_false]

theorem getLsbD_dwordAt (m : Mem) (p : BitVec 64) (i : Nat) :
    (dwordAt m p).getLsbD i = (decide (i < 32) && m.bit p i) := by
  rw [dwordAt, BitVec.getLsbD_ofNat, Mem.testBit_loadNat, ← Bool.and_assoc, Bool.and_self]

/-- The read of a field in the low four bytes. -/
theorem lowBits_dwordAt (fits : b + w ≤ 32) (m : Mem) (p : BitVec 64) :
    lowBits w (dwordAt m p >>> (b % 32)) = BitVec.ofNat 32 (m.field p b w) := by
  apply BitVec.eq_of_getLsbD_eq
  intro i inside
  rw [getLsbD_lowBits, BitVec.getLsbD_ushiftRight, getLsbD_dwordAt, BitVec.getLsbD_ofNat,
    Mem.testBit_field, decide_eq_true inside, Bool.true_and]
  by_cases own : i < w
  · have offset : b % 32 = b := by omega
    have small : b + i < 32 := by omega
    rw [offset, decide_eq_true small, Bool.true_and]
  · rw [decide_eq_false own, Bool.false_and, Bool.false_and]

theorem getLsbD_clearMask {f : StructField} (fits : f.bitOffset + f.bitWidth ≤ 32)
    (inside : i < 32) : (BitVec.ofInt 32 (bitfieldClearMask f)).getLsbD i =
      !(decide (f.bitOffset ≤ i) && decide (i < f.bitOffset + f.bitWidth)) := by
  have mask : bitfieldMask f = 2 ^ f.bitWidth - 1 := by
    unfold bitfieldMask
    split
    · have full : f.bitWidth = 32 := by omega
      rw [full]
      rfl
    · rfl
  have small : bitfieldMask f * 2 ^ f.bitOffset % 2 ^ 32 < 2 ^ 32 := Nat.mod_lt _ (by decide)
  have clear : bitfieldClearMask f = 2 ^ 32 - (bitfieldMask f * 2 ^ f.bitOffset % 2 ^ 32 + 1) := by
    unfold bitfieldClearMask
    omega
  rw [BitVec.ofInt_natCast, BitVec.getLsbD_ofNat, decide_eq_true inside, Bool.true_and, clear,
    Nat.testBit_two_pow_sub_succ small, Nat.testBit_mod_two_pow, Nat.testBit_mul_two_pow, mask,
    Nat.testBit_two_pow_sub_one, decide_eq_true inside, Bool.true_and, Bool.true_and]
  by_cases before : f.bitOffset ≤ i
  · have same : (i - f.bitOffset < f.bitWidth) = (i < f.bitOffset + f.bitWidth) :=
      propext (by omega)
    simp [before, same]
  · simp [before]

theorem getLsbD_storedDword {f : StructField} (fits : f.bitOffset + f.bitWidth ≤ 32)
    (x value : BitVec 32) (inside : i < 32) : (storedDword f x value).getLsbD i =
      if f.bitOffset ≤ i ∧ i < f.bitOffset + f.bitWidth then value.getLsbD (i - f.bitOffset)
      else x.getLsbD i := by
  rw [storedDword, BitVec.getLsbD_or, BitVec.getLsbD_and, getLsbD_clearMask fits inside,
    BitVec.getLsbD_shiftLeft, getLsbD_lowBits]
  split
  · rename_i own
    have offset : f.bitOffset % 32 = f.bitOffset := by omega
    have low : i - f.bitOffset < f.bitWidth := by omega
    have notBelow : ¬ i < f.bitOffset := by omega
    rw [offset, decide_eq_true own.1, decide_eq_true own.2, decide_eq_true low,
      decide_eq_true inside, decide_eq_false notBelow]
    simp
  · rename_i other
    have keep : (!(decide (f.bitOffset ≤ i) && decide (i < f.bitOffset + f.bitWidth))) = true := by
      rw [← Bool.decide_and, Bool.not_eq_true', decide_eq_false_iff_not]
      exact other
    have none : ¬ (¬ i < f.bitOffset % 32 ∧ i - f.bitOffset % 32 < f.bitWidth) := by
      by_cases full : f.bitOffset = 32
      · omega
      · have offset : f.bitOffset % 32 = f.bitOffset := by omega
        omega
    rw [keep, Bool.and_true]
    by_cases below : i < f.bitOffset % 32
    · simp [below]
    · have beyond : ¬ i - f.bitOffset % 32 < f.bitWidth := fun h => none ⟨below, h⟩
      simp [beyond]

/-- The value of a store of `value` into a field in the low four bytes. -/
theorem lowBits_storedDword {f : StructField} (fits : f.bitOffset + f.bitWidth ≤ 32)
    (x value : BitVec 32) :
    lowBits f.bitWidth (storedDword f x value >>> (f.bitOffset % 32)) = lowBits f.bitWidth value := by
  apply BitVec.eq_of_getLsbD_eq
  intro i inside
  rw [getLsbD_lowBits, getLsbD_lowBits, BitVec.getLsbD_ushiftRight]
  by_cases own : i < f.bitWidth
  · have offset : f.bitOffset % 32 = f.bitOffset := by omega
    rw [offset, getLsbD_storedDword fits x value (by omega), if_pos (by omega),
      Nat.add_sub_cancel_left]
  · rw [decide_eq_false own, Bool.false_and, Bool.false_and]

theorem lowBits_eq (w : Nat) (x : BitVec 32) : lowBits w x = (x.setWidth w).setWidth 32 := by
  apply BitVec.eq_of_getLsbD_eq
  intro i inside
  rw [getLsbD_lowBits, BitVec.getLsbD_setWidth, BitVec.getLsbD_setWidth, decide_eq_true inside,
    Bool.true_and]

/-- What `eax` stands for as an `int` when it holds the `w` bits of a field. -/
theorem toInt_field {t : IntType} (le : w ≤ 32) (sign : t.signed = true ↔ w = 32)
    (y : BitVec w) : (y.setWidth 32).toInt = t.ofBits w y.toNat := by
  unfold IntType.ofBits
  split
  · rename_i signed
    obtain rfl := sign.mp signed
    rw [BitVec.setWidth_eq, BitVec.toInt_eq_toNat_bmod]
  · rename_i unsigned
    have narrow : w < 32 := by
      have : ¬ w = 32 := fun h => unsigned (sign.mpr h)
      omega
    have small : y.toNat < 2 ^ 31 :=
      Nat.lt_of_lt_of_le y.isLt (Nat.pow_le_pow_right (by decide) (by omega))
    have toNat : (y.setWidth 32).toNat = y.toNat := by
      rw [BitVec.toNat_setWidth, Nat.mod_eq_of_lt (by omega)]
    rw [BitVec.toInt_eq_toNat_of_lt (by omega), toNat]

theorem ofBits_ofInt (t : IntType) (w : Nat) (v : Int) (notBool : t.rank ≠ .bool) :
    t.ofBits w (BitVec.ofInt w v).toNat = t.reduce w v := by
  have modulus : ((2 ^ w : Nat) : Int) = 2 ^ w := by norm_cast
  have nonneg : 0 ≤ v % (2 ^ w : Nat) :=
    Int.emod_nonneg v (by exact_mod_cast (Nat.two_pow_pos w).ne')
  rw [IntType.ofBits, IntType.reduce, if_neg notBool, BitVec.toNat_ofInt,
    Int.toNat_of_nonneg nonneg]
  split
  · exact Int.emod_bmod v (2 ^ w)
  · rw [modulus]

end bits

/-! ### Exactness -/

section exactness

variable {env : Env Symbol} {f : StructField} {t : IntType} {w : Nat}

theorem number_int (σ : State) : number .int false σ = (low32 σ .rax).toInt := rfl

theorem within_iff {p : BitVec 64} {size : Nat} {touched : List Span} (some : touched ≠ [])
    (all : ∀ s ∈ touched, s = (p, 4)) : WithinUnit p size touched ↔ 4 ≤ size := by
  constructor
  · intro within
    obtain ⟨s, mem⟩ := List.exists_mem_of_ne_nil _ some
    obtain ⟨k, -, le⟩ := within s mem
    rw [all s mem] at le
    simp only at le
    omega
  · intro le s mem
    rw [all s mem]
    exact ⟨0, by simp, by simpa using le⟩

/-- What a read of a field in the low four bytes leaves in `eax`. -/
theorem read_eq (m : Mem) (p : BitVec 64) (fits : f.bitOffset + w ≤ 32) :
    lowBits w (dwordAt m p >>> (f.bitOffset % 32)) =
      (BitVec.ofNat w (m.field p f.bitOffset w)).setWidth 32 := by
  rw [lowBits_dwordAt fits]
  apply BitVec.eq_of_toNat_eq
  have lt := m.field_lt p f.bitOffset w
  rw [BitVec.toNat_setWidth, BitVec.toNat_ofNat, BitVec.toNat_ofNat, Nat.mod_eq_of_lt lt]

theorem readsExactly_of_four (bits : f.isBitfield = true) (recorded : f.bitWidth = w)
    (four : FourByteField f.bitOffset w t) : ReadsExactly env f t w := by
  obtain ⟨size, fits, sign⟩ := four
  refine ⟨_, _, readCode_loadBitfield bits, fun σ => ?_⟩
  obtain ⟨σ', run, eax⟩ := runs_loadBitfield env f σ
  refine ⟨σ', _, run, (within_iff (by simp) (by simp)).mpr size, eax.mem, ?_⟩
  have lt := σ.mem.field_lt (σ.reg .rax) f.bitOffset w
  calc number .int false σ'
      = ((BitVec.ofNat w (σ.mem.field (σ.reg .rax) f.bitOffset w)).setWidth 32).toInt := by
        rw [number_int, eax.eax, recorded, read_eq _ _ fits]
    _ = t.ofBits w (BitVec.ofNat w (σ.mem.field (σ.reg .rax) f.bitOffset w)).toNat :=
        toInt_field (by omega) sign _
    _ = t.ofBits w (σ.mem.field (σ.reg .rax) f.bitOffset w) := by
        rw [BitVec.toNat_ofNat, Nat.mod_eq_of_lt lt]

theorem storesExactly_of_four (bits : f.isBitfield = true) (recorded : f.bitWidth = w)
    (four : FourByteField f.bitOffset w t) (s : IntType) :
    StoresExactly env f t w (.integer s) := by
  obtain ⟨size, fits, sign⟩ := four
  refine ⟨_, _, storeCode_bitfieldStore bits, fun σ v carries => ?_⟩
  obtain ⟨σ', run, stored⟩ := runs_bitfieldStore env f σ
  have notBool : t.rank ≠ .bool := by
    intro bool
    rw [storageSize, bool] at size
    exact absurd size (by decide)
  have low : low32 σ .rax = BitVec.ofInt 32 v := carries.low
  have narrow : f.bitOffset + f.bitWidth ≤ 32 := by omega
  refine ⟨σ', _, run, (within_iff (by simp) (by simp)).mpr size, ?_, ?_, ?_⟩
  · intro i inside
    have small : i < 2 ^ 64 := by
      have le : storageSize t ≤ 8 := by
        unfold storageSize
        split <;> decide
      omega
    rw [stored.mem, Mem.bit_storeNat _ _ _ _ small, low, ofInt_reduce t w v notBool]
    by_cases lowWord : i < 8 * 4
    · rw [if_pos lowWord, BitVec.testBit_toNat, getLsbD_storedDword narrow _ _ lowWord, recorded]
      split
      · rename_i own
        have low : i - f.bitOffset < w := by omega
        rw [← setWidth_ofInt (by omega : w ≤ 32), BitVec.getLsbD_setWidth, decide_eq_true low,
          Bool.true_and]
      · rw [getLsbD_dwordAt, decide_eq_true lowWord, Bool.true_and]
    · rw [if_neg lowWord, if_neg (by omega)]
  · intro a outside
    rw [stored.mem]
    exact Mem.storeNat_of_not_within (Nat.not_lt.mpr (size.trans outside))
  · calc number .int false σ'
        = (lowBits w (BitVec.ofInt 32 v)).toInt := by
          rw [number_int, stored.eax, lowBits_storedDword narrow, low, recorded]
      _ = ((BitVec.ofInt w v).setWidth 32).toInt := by
          rw [lowBits_eq, setWidth_ofInt (by omega)]
      _ = t.ofBits w (BitVec.ofInt w v).toNat := toInt_field (by omega) sign _
      _ = t.reduce w v := ofBits_ofInt t w v notBool

/-- A state with the unit at address 0 and the number `n` in the field. -/
def stateWith (b w n : Nat) : State where
  reg := fun _ => 0
  xmm := fun _ => 0
  mem := Mem.storeNat (fun _ => 0) 0 ((b + w + 7) / 8) (n * 2 ^ b)
  flags := { zf := false, sf := false, cf := false, of := false, pf := false }

theorem mem_stateWith {b w : Nat} (n : Nat) (range : b + w < 2 ^ 64) (k : Nat)
    (le : k ≤ (b + w + 7) / 8) :
    (stateWith b w n).mem.loadNat 0 k = n * 2 ^ b % 256 ^ k := by
  have load := Mem.loadNat_storeNat (fun _ => 0) 0 (n := (b + w + 7) / 8) (k := 0) (j := k)
    (v := n * 2 ^ b) (by omega) (by omega)
  simpa [stateWith] using load

theorem field_stateWith {b w n : Nat} (lt : n < 2 ^ w) (range : b + w < 2 ^ 64) :
    (stateWith b w n).mem.field 0 b w = n := by
  have bytes : n * 2 ^ b < 256 ^ ((b + w + 7) / 8) := by
    calc n * 2 ^ b < 2 ^ w * 2 ^ b := Nat.mul_lt_mul_of_pos_right lt (Nat.two_pow_pos b)
      _ = 2 ^ (b + w) := by rw [← Nat.pow_add, Nat.add_comm]
      _ ≤ 2 ^ (8 * ((b + w + 7) / 8)) := Nat.pow_le_pow_right (by decide) (by omega)
      _ = 256 ^ ((b + w + 7) / 8) := by rw [Nat.pow_mul]
  rw [Mem.field, mem_stateWith n range _ le_rfl, Nat.mod_eq_of_lt bytes,
    Nat.mul_div_cancel _ (Nat.two_pow_pos b), Nat.mod_eq_of_lt lt]

theorem ofBits_top (t : IntType) (k : Nat) :
    t.ofBits (k + 1) (2 ^ k) = if t.signed then -2 ^ k else 2 ^ k := by
  have lt : (2 : Int) ^ k < 2 ^ (k + 1) := by
    rw [pow_succ]
    have pos : (0 : Int) < 2 ^ k := Int.pow_pos (by decide)
    omega
  have pos : (0 : Int) ≤ 2 ^ k := Int.pow_nonneg (by decide)
  unfold IntType.ofBits
  split
  · have half : (((2 ^ (k + 1) : Nat) : Int) + 1) / 2 = 2 ^ k := by
      push_cast
      rw [pow_succ]
      omega
    rw [Int.bmod_def, half]
    push_cast
    rw [Int.emod_eq_of_lt pos lt, if_neg (lt_irrefl _), pow_succ]
    ring
  · push_cast
    rfl

/-- Only the number 0 stands for 0. -/
theorem ofBits_ne_zero (t : IntType) {w n : Nat} (lt : n < 2 ^ w) (some : n ≠ 0) :
    t.ofBits w n ≠ 0 := by
  unfold IntType.ofBits
  split
  · have own : (n : Int) % (2 ^ w : Nat) = n := by exact_mod_cast Nat.mod_eq_of_lt lt
    rw [Int.bmod_def, own]
    split <;> omega
  · exact_mod_cast some

section necessary

variable (exact : ReadsExactly env f t w) (bits : f.isBitfield = true)
include exact bits

theorem four_le_of_readsExactly : 4 ≤ storageSize t := by
  obtain ⟨code, a, prints, reads⟩ := exact
  obtain ⟨rfl, rfl⟩ := readCode_unique bits prints
  obtain ⟨σ', touched, run, within, -, -⟩ := reads (stateWith 0 0 0)
  obtain ⟨σ₂, run₂, -⟩ := runs_loadBitfield env f (stateWith 0 0 0)
  obtain ⟨rfl, rfl⟩ := run.unique run₂
  exact (within_iff (by simp) (by simp)).mp within

/-- A read that is exact gives every number in the field back. -/
theorem readBack (σ : State) :
    (lowBits f.bitWidth (dwordAt σ.mem (σ.reg .rax) >>> (f.bitOffset % 32))).toInt =
      t.ofBits w (σ.mem.field (σ.reg .rax) f.bitOffset w) := by
  obtain ⟨code, a, prints, reads⟩ := exact
  obtain ⟨rfl, rfl⟩ := readCode_unique bits prints
  obtain ⟨σ', touched, run, -, -, value⟩ := reads σ
  obtain ⟨σ₂, run₂, eax⟩ := runs_loadBitfield env f σ
  obtain ⟨rfl, rfl⟩ := run.unique run₂
  rw [← value, ← eax.eax]
  rfl

/-- A bit of the field outside of the low four bytes is not read. -/
theorem fits_of_readsExactly (wide : 0 < w) (range : f.bitOffset < 2 ^ 32) :
    f.bitOffset + w ≤ 32 := by
  by_contra far
  obtain ⟨k, own, small, high⟩ : ∃ k, k < w ∧ k < 2 ^ 32 ∧ 32 ≤ k + f.bitOffset :=
    ⟨min (w - 1) 40, by omega, by omega, by omega⟩
  have read := readBack exact bits (stateWith f.bitOffset (k + 1) (2 ^ k))
  have start : (stateWith f.bitOffset (k + 1) (2 ^ k)).reg .rax = 0 := rfl
  have multiple : 2 ^ k * 2 ^ f.bitOffset % 256 ^ 4 = 0 := by
    apply Nat.mod_eq_zero_of_dvd
    rw [← Nat.pow_add]
    exact Nat.pow_dvd_pow 2 high
  have empty : dwordAt (stateWith f.bitOffset (k + 1) (2 ^ k)).mem 0 = 0 := by
    rw [dwordAt, mem_stateWith _ (by omega) _ (by omega), multiple]
    rfl
  have zero : (lowBits f.bitWidth ((0 : BitVec 32) >>> (f.bitOffset % 32))).toInt = 0 := by
    rw [lowBits_eq]
    simp
  rw [start, empty, zero] at read
  refine ofBits_ne_zero t (Mem.field_lt _ _ _ _) ?_ read.symm
  intro none
  have bit : ((stateWith f.bitOffset (k + 1) (2 ^ k)).mem.field 0 f.bitOffset w).testBit k =
      true := by
    rw [Mem.testBit_field, decide_eq_true own, Bool.true_and, stateWith,
      Mem.bit_storeNat _ _ _ _ (by omega), if_pos (by omega), ← Nat.pow_add, Nat.add_comm k]
    exact Nat.testBit_two_pow_self
  rw [none] at bit
  simp at bit

theorem four_of_readsExactly (recorded : w < 2 ^ 31 → f.bitWidth = w) (wide : 0 < w)
    (range : f.bitOffset < 2 ^ 32) : FourByteField f.bitOffset w t := by
  have fits := fits_of_readsExactly exact bits wide range
  obtain ⟨k, rfl⟩ : ∃ k, w = k + 1 := ⟨w - 1, by omega⟩
  have lt : 2 ^ k < 2 ^ (k + 1) := Nat.pow_lt_pow_right (by decide) (by omega)
  have read := readBack exact bits (stateWith f.bitOffset (k + 1) (2 ^ k))
  have start : (stateWith f.bitOffset (k + 1) (2 ^ k)).reg .rax = 0 := rfl
  have own := recorded (by omega)
  rw [start, own, read_eq _ _ fits, field_stateWith lt (by omega), ofBits_top] at read
  refine ⟨four_le_of_readsExactly exact bits, fits, ?_, ?_⟩
  · intro signed
    rw [if_pos signed] at read
    by_contra narrow
    have small : 2 ^ k < 2 ^ 31 := Nat.pow_lt_pow_right (by decide) (by omega)
    have toNat : ((BitVec.ofNat (k + 1) (2 ^ k)).setWidth 32).toNat = 2 ^ k := by
      rw [BitVec.toNat_setWidth, BitVec.toNat_ofNat, Nat.mod_eq_of_lt lt, Nat.mod_eq_of_lt (by omega)]
    have pos : 0 < 2 ^ k := Nat.two_pow_pos k
    rw [BitVec.toInt_eq_toNat_of_lt (by omega), toNat] at read
    push_cast at read
    have pos : (0 : Int) < 2 ^ k := Int.pow_pos (by decide)
    omega
  · intro full
    obtain rfl : k = 31 := by omega
    by_contra unsigned
    rw [if_neg unsigned] at read
    exact absurd read (by decide)

end necessary

/-- The code for a floating right operand stores whatever `eax` holds. -/
theorem not_storesExactly_floating (bits : f.isBitfield = true) (recorded : f.bitWidth = w)
    (wide : 0 < w) (fits : f.bitOffset + w ≤ 32) (p : FpWidth) :
    ¬ StoresExactly env f t w (.floating p) := by
  rintro ⟨code, a, prints, stores⟩
  obtain ⟨rfl, rfl⟩ := storeCode_unique bits prints
  have narrow : f.bitOffset + f.bitWidth ≤ 32 := by omega
  let start (x : BitVec 64) : State := (stateWith 0 0 0).setFull .rax x
  have same (x : BitVec 64) : (lowBits w (x.setWidth 32)).toInt =
      t.reduce w (env.fpu.toInt p ((start 0).fpSrc env p (.xmm 0))).toInt := by
    obtain ⟨σ', touched, run, -, -, -, value⟩ := stores (start x) _ rfl
    obtain ⟨σ₂, run₂, stored⟩ := runs_bitfieldStore env f (start x)
    obtain ⟨rfl, rfl⟩ := run.unique run₂
    have result := stored.eax
    rw [lowBits_storedDword narrow, recorded] at result
    have eax : low32 (start x) .rax = x.setWidth 32 := by
      rw [low32, State.setFull_reg_self]
    rw [← eax, ← result]
    exact value
  have zero : (lowBits w ((0 : BitVec 64).setWidth 32)).toInt = 0 := by
    rw [lowBits_eq]
    simp
  have one : (lowBits w ((1 : BitVec 64).setWidth 32)).toInt ≠ 0 := by
    intro none
    have bit : (lowBits w ((1 : BitVec 64).setWidth 32)).getLsbD 0 = false := by
      rw [BitVec.eq_of_toInt_eq (none.trans BitVec.toInt_zero.symm)]
      simp
    rw [getLsbD_lowBits, decide_eq_true wide] at bit
    exact absurd bit (by decide)
  exact one ((same 1).trans ((same 0).symm.trans zero))

/-- Reads and stores are exact for the values of one type when the field lies in the low four
bytes and the value is an integer. -/
theorem access_iff (bits : f.isBitfield = true) (recorded : w < 2 ^ 31 → f.bitWidth = w)
    (wide : 0 < w) (range : f.bitOffset < 2 ^ 32) (stored : Stored) :
    ReadsExactly env f t w ∧ StoresExactly env f t w stored ↔
      FourByteField f.bitOffset w t ∧ ∃ s, stored = .integer s := by
  constructor
  · rintro ⟨reads, stores⟩
    have four := four_of_readsExactly reads bits recorded wide range
    have fits := four.2.1
    refine ⟨four, ?_⟩
    cases stored with
    | integer s => exact ⟨s, rfl⟩
    | floating p =>
      exact absurd stores (not_storesExactly_floating bits (recorded (by omega)) wide fits p)
  · rintro ⟨four, s, rfl⟩
    have fits := four.2.1
    have own := recorded (by omega)
    exact ⟨readsExactly_of_four bits own four, storesExactly_of_four bits own four s⟩

end exactness

/-! ### The bit-fields that the parser accepts -/

namespace Struct

open Front (ParsedDeclarator)

/-- A row of the field table as code generation reads it; the masks use its numbers unsigned. -/
def Field.row (f : Field) : StructField where
  name := f.name
  offset := (f.offset % 2 ^ 32).toNat
  kind := f.kind
  fullType := f.fullType
  isConst := f.isConst
  isBitfield := f.isBitfield
  bitWidth := (f.bitWidth % 2 ^ 32).toNat
  bitOffset := (f.bitOffset % 2 ^ 32).toNat

/-- The row made for a bit-field of a declaration, with the width it is declared with. -/
structure RowOf (decl : MemberDeclaration) (width : Int) (f : Field) : Prop where
  declared : ∃ d : ParsedDeclarator, .bitField d width ∈ decl.declarators ∧ f.name = d.name
  kind : f.kind = decl.base.kind
  positive : 0 < width
  recorded : f.bitWidth = wrap32 width

/-- Every row of a bit-field comes from one of the declarations. -/
def AllDeclared (members : List MemberDeclaration) (fields : List Field) : Prop :=
  ∀ f ∈ fields, f.isBitfield = true → ∃ decl ∈ members, ∃ width, RowOf decl width f

section rows

variable {members : List MemberDeclaration} {decl : MemberDeclaration} {s s' : LayoutState}

theorem makeRoom_fields (s : LayoutState) (base : CType) (bits : Int) :
    (s.makeRoom base bits).fields = s.fields := by
  unfold LayoutState.makeRoom
  split <;> rfl

theorem namedBitField_fields {d : ParsedDeclarator} {width : Int}
    (declared : .bitField d width ∈ decl.declarators)
    (accepted : namedBitField decl d width s = .ok s') :
    ∃ f, s'.fields = s.fields ++ [f] ∧ RowOf decl width f := by
  unfold namedBitField at accepted
  split at accepted
  · cases accepted
  rename_i positive
  dsimp only at accepted
  split at accepted
  · cases accepted
  cases accepted
  refine ⟨_, congrArg (· ++ _) (makeRoom_fields _ _ _), ⟨d, declared, rfl⟩, rfl, ?_, rfl⟩
  omega

theorem regularMember_fields {d : ParsedDeclarator} {copy : Nat}
    (accepted : regularMember decl d copy s = .ok s') :
    ∃ f, s'.fields = s.fields ++ [f] ∧ f.isBitfield = false := by
  unfold regularMember at accepted
  dsimp only at accepted
  have sized {t : CType} (accepted : sizedMember decl d t s.closeUnit = .ok s') :
      ∃ f, s'.fields = s.fields ++ [f] ∧ f.isBitfield = false := by
    unfold sizedMember at accepted
    split at accepted
    · cases accepted
    split at accepted
    · cases accepted
    cases accepted
    exact ⟨_, rfl, rfl⟩
  split at accepted
  · split at accepted
    · unfold flexibleArray at accepted
      split at accepted
      · cases accepted
      cases accepted
      exact ⟨_, rfl, rfl⟩
    · exact sized accepted
  · exact sized accepted

theorem declare_declared (mem : decl ∈ members) {m : MemberDeclarator}
    (own : m ∈ decl.declarators) (before : AllDeclared members s.fields)
    (accepted : declare decl s m = .ok s') : AllDeclared members s'.fields := by
  have snoc {f : Field} (fields : s'.fields = s.fields ++ [f])
      (last : f.isBitfield = true → ∃ width, RowOf decl width f) :
      AllDeclared members s'.fields := by
    intro g inside bits
    rw [fields, List.mem_append, List.mem_singleton] at inside
    rcases inside with old | rfl
    · exact before g old bits
    · exact ⟨decl, mem, last bits⟩
  cases m with
  | unnamed width =>
    have same : s'.fields = s.fields := by
      have accepted : unnamedBitField decl.base width s = .ok s' := accepted
      unfold unnamedBitField at accepted
      split at accepted
      · cases accepted
      dsimp only at accepted
      split at accepted
      · cases accepted
        rfl
      · cases accepted
        exact makeRoom_fields _ _ _
    rwa [same]
  | bitField d width =>
    obtain ⟨f, fields, row⟩ := namedBitField_fields own accepted
    exact snoc fields fun _ => ⟨width, row⟩
  | member d copy =>
    obtain ⟨f, fields, plain⟩ := regularMember_fields accepted
    exact snoc fields fun bits => by simp [plain] at bits

theorem declareAll_declared (mem : decl ∈ members) (before : AllDeclared members s.fields)
    (accepted : declareAll s decl = .ok s') : AllDeclared members s'.fields := by
  have all : ∀ ms : List MemberDeclarator, (∀ m ∈ ms, m ∈ decl.declarators) → ∀ s,
      AllDeclared members s.fields → ms.foldlM (declare decl) s = .ok s' →
      AllDeclared members s'.fields := by
    intro ms
    induction ms with
    | nil =>
      intro _ s before accepted
      cases accepted
      exact before
    | cons m ms ih =>
      intro own s before accepted
      rw [List.foldlM_cons] at accepted
      obtain ⟨s₁, first, rest⟩ := bind_eq_ok.mp accepted
      exact ih (fun k mem => own k (List.mem_cons_of_mem m mem)) s₁
        (declare_declared mem (own m List.mem_cons_self) before first) rest
  unfold declareAll at accepted
  split at accepted
  · cases accepted
  split at accepted
  · split at accepted
    · cases accepted
      exact before
    · cases accepted
  · exact all _ (fun _ own => own) s before accepted

theorem parse_declared {S : StructType} (accepted : parseStructSpecifier members = .ok S) :
    AllDeclared members S.fields := by
  have all : ∀ ms : List MemberDeclaration, (∀ m ∈ ms, m ∈ members) → ∀ s s',
      AllDeclared members s.fields → ms.foldlM declareAll s = .ok s' →
      AllDeclared members s'.fields := by
    intro ms
    induction ms with
    | nil =>
      intro _ s s' before accepted
      cases accepted
      exact before
    | cons m ms ih =>
      intro own s s' before accepted
      rw [List.foldlM_cons] at accepted
      obtain ⟨s₁, first, rest⟩ := bind_eq_ok.mp accepted
      exact ih (fun k mem => own k (List.mem_cons_of_mem m mem)) s₁ s'
        (declareAll_declared (own m List.mem_cons_self) before first) rest
  obtain ⟨s, parsed, result⟩ := bind_eq_ok.mp accepted
  cases result
  exact all members (fun _ own => own) {} s (by simp [AllDeclared]) parsed

end rows

end Struct

open Struct (MemberDeclaration parseStructSpecifier RowOf)

/-- The accesses to an accepted bit-field of type `t` are exact for right operands of one type when
the field lies in the low four bytes and zero extension to `int` is right for it. -/
theorem bitfield_access_iff (env : Env Symbol) {members : List MemberDeclaration}
    {S : Struct.StructType} (accepted : parseStructSpecifier members = .ok S) {field : Struct.Field}
    (member : field ∈ S.fields) (bits : field.isBitfield = true) :
    ∃ decl ∈ members, ∃ width, RowOf decl width field ∧
      ∀ t, intTypeOf decl.base.kind (!decl.base.isSigned) = some t → ∀ stored,
        (ReadsExactly env field.row t width.toNat ∧
            StoresExactly env field.row t width.toNat stored ↔
          FourByteField field.row.bitOffset width.toNat t ∧ ∃ s, stored = .integer s) := by
  obtain ⟨decl, mem, width, row⟩ := Struct.parse_declared accepted field member bits
  have positive := row.positive
  have recorded : width.toNat < 2 ^ 31 → field.row.bitWidth = width.toNat := by
    intro small
    have exact : wrap32 width = width := wrap32_of_fits (by omega) (by omega)
    change (field.bitWidth % 2 ^ 32).toNat = width.toNat
    rw [row.recorded, exact]
    omega
  have range : field.row.bitOffset < 2 ^ 32 := by
    change (field.bitOffset % 2 ^ 32).toNat < 2 ^ 32
    omega
  exact ⟨decl, mem, width, row, fun t _ stored =>
    access_iff bits recorded (by omega) range stored⟩

/-- A floating-point unit for samples, in which every result is 0. -/
def sampleEnv : Env Symbol where
  fpu :=
    { arith := fun _ _ _ _ => 0
      compare := fun _ _ _ => .equal
      ofInt := fun _ _ => 0
      toInt := fun _ _ => 0
      widen := fun _ => 0
      narrow := fun _ => 0 }
  addrOf := fun _ => 0

/-- `struct { unsigned int a : 3; int b : 3; }` -/
def threeBits : List MemberDeclaration :=
  [{ isConst := false, isVolatile := false, base := .typeUnsignedInt
     declarators := [.bitField { name := "a" } 3] },
   { isConst := false, isVolatile := false, base := .typeInt
     declarators := [.bitField { name := "b" } 3] }]

theorem threeBits_unsigned_exact : ∃ S, parseStructSpecifier threeBits = .ok S ∧
    ∃ field ∈ S.fields, field.name = "a" ∧
      ReadsExactly sampleEnv field.row { rank := .int, signed := false } 3 ∧
      StoresExactly sampleEnv field.row { rank := .int, signed := false } 3 (.integer .int) := by
  refine ⟨_, rfl, _, List.mem_cons_self, rfl, ?_⟩
  obtain ⟨decl, mem, width, row, exact⟩ :=
    @bitfield_access_iff sampleEnv threeBits _ rfl _ List.mem_cons_self rfl
  obtain ⟨d, own, name⟩ := row.declared
  simp only [threeBits, List.mem_cons, List.not_mem_nil, or_false] at mem
  rcases mem with rfl | rfl
  · simp only [List.mem_cons, List.not_mem_nil, or_false, Struct.MemberDeclarator.bitField.injEq]
      at own
    obtain ⟨rfl, rfl⟩ := own
    exact (exact _ rfl (.integer .int)).mpr ⟨⟨by decide, by decide, by decide⟩, .int, rfl⟩
  · simp only [List.mem_cons, List.not_mem_nil, or_false, Struct.MemberDeclarator.bitField.injEq]
      at own
    rw [own.1] at name
    exact absurd name (by decide)

/-- A read of the signed field gives no negative number. -/
theorem threeBits_signed_not_exact : ∃ S, parseStructSpecifier threeBits = .ok S ∧
    ∃ field ∈ S.fields, field.isBitfield = true ∧ field.name = "b" ∧
      ¬ ReadsExactly sampleEnv field.row .int 3 := by
  refine ⟨_, rfl, _, List.mem_cons_of_mem _ List.mem_cons_self, rfl, rfl, fun exact => ?_⟩
  have four := four_of_readsExactly exact rfl (fun _ => rfl) (by decide) (by decide)
  exact absurd four.2.2 (by decide)

end ClaudeC99
