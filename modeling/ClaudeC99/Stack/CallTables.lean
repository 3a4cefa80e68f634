import ClaudeC99.Codegen.Expression
import ClaudeC99.Lib.Traced
import ClaudeC99.Stack.Calls

/-! Calls with the elements they use of the arrays of the call site. -/

namespace ClaudeC99

open StateExcept Traced X86

/-- The arrays of a call site. The three arrays of the spills are used in step. -/
inductive Table
  | actualTypes | items | spills
  deriving DecidableEq, Repr

def Table.length : Table → Nat
  | .actualTypes | .spills => 26
  | .items => maxCallLayoutItems

structure Access where
  table : Table
  index : Nat
  deriving DecidableEq, Repr

def Access.Inside (a : Access) : Prop := a.index < a.table.length

instance (a : Access) : Decidable a.Inside := Nat.decLt _ _

/-- A generator that leaves the accesses it makes. -/
abbrev TableGen := Traced CodeGen String Access

def use (table : Table) (index : Nat) : TableGen Unit := touch ⟨table, index⟩

def useIf (c : Bool) (table : Table) (index : Nat) : TableGen Unit :=
  if c then use table index else pure ()

/-- A loop over `n` elements. -/
def useFrom (table : Table) (start : Nat) : Nat → TableGen Unit
  | 0 => pure ()
  | n + 1 => do
    use table start
    useFrom table (start + 1) n

/-- The loop that fills `actual_types` from index `i`. -/
def fillTypes (cg : CodeGen) (i : Nat) : List ExprGen → TableGen (List TypeKind)
  | [] => pure []
  | arg :: args => do
    let t ← silent (liftM (exprResultType cg arg.node))
    use .actualTypes i
    let ts ← fillTypes cg (i + 1) args
    pure (t :: ts)

/-- The loop of `compute_call_layout`: an argument beyond the parameters is placed by its own
type. -/
def useLayout (callee : Option FunctionSig) (i : Nat) : Nat → TableGen Unit
  | 0 => pure ()
  | n + 1 => do
    use .items i
    useIf (calleeParam callee i).isNone .actualTypes i
    useLayout callee (i + 1) n

/-- Phase 1. Only a direct call looks at the type of a floating argument. -/
def storeStackArgsIn (direct : Bool) (i : Nat) : List PlacedArg → TableGen Unit
  | [] => pure ()
  | arg :: args => do
    use .items i
    silent (passOnStack arg)
    useIf (direct && arg.slot.mem && arg.slot.isFp) .actualTypes i
    storeStackArgsIn direct (i + 1) args

/-- Phase 2, with `nspill` spills before. -/
def spillRegArgsIn (direct : Bool) (i nspill : Nat) : List PlacedArg → TableGen (List Spill)
  | [] => pure []
  | arg :: args => do
    use .items i
    let spills ← silent (spillArg arg)
    useIf (direct && !arg.slot.mem && arg.slot.xmmIdx.isSome) .actualTypes i
    useFrom .spills nspill spills.length
    let rest ← spillRegArgsIn direct (i + 1) (nspill + spills.length) args
    pure (spills ++ rest)

def spillSretIn (sret : Bool) (retTemp : Nat) : TableGen (List Spill) := do
  let spills ← silent (spillSret sret retTemp)
  useFrom .spills 0 spills.length
  pure spills

def restoreSpillsIn (spills : List Spill) : TableGen Unit := do
  useFrom .spills 0 spills.length
  silent (restoreSpills spills)

def emitLayoutCallIn (slots : Nat) (args : List PlacedArg) (sret : Bool) (retTemp : Nat)
    (setup : List Asm) (call : Asm) : TableGen Unit := do
  silent (onlyIf (slots > 0) (reserveSlots slots))
  storeStackArgsIn true 0 args
  let sretSpill ← spillSretIn sret retTemp
  let spills ← spillRegArgsIn true 0 sretSpill.length args
  restoreSpillsIn (sretSpill ++ spills)
  silent (do
    emitAll setup
    emit call
    onlyIf (slots > 0) (releaseSlots slots))

def genSpecialCallIn (name : String) (declType : TypeKind) (callee : Option FunctionSig)
    (args : List ExprGen) : TableGen Ann := do
  let cg ← silent get
  let actual ← fillTypes cg 0 args
  silent (errorIf (args.length > maxCallLayoutItems)
    s!"error: call has {args.length} arguments; max supported is {maxCallLayoutItems}")
  useLayout callee 0 args.length
  useFrom .items 0 args.length
  let sret := callee.elim false fun f => returnIsMemoryStruct f.declType f.fullType
  let layout := computeCallLayout sret
    ((args.zip actual).zipIdx.map fun ((arg, kind), i) => directArgClass cg callee arg.node kind i)
  let ret ← silent (calleeStructType callee)
  let retTemp ← silent (claimResult ret)
  emitLayoutCallIn (outgoingSlots cg.pushDepth layout.stackBytes)
    (placeCallArgs callee (calleeArgs name callee args) layout.items actual) sret retTemp
    (if isVariadicCallee callee then [movImm .byte .rax (xmmArgCount layout.items)] else [])
    (.call (.named name))
  silent (match ret with
  | some t => do
    emitAll (structResult retTemp t.size)
    pure ⟨t.kind, some t, false⟩
  | none => pure (callAnn declType callee))

def genFunctionCallIn (name : String) (declType : TypeKind) (args : List ExprGen) :
    TableGen Ann := do
  let cg ← silent get
  let callee := cg.findFunctionDecl name
  let special ← silent (liftM (isSpecialCall cg callee args))
  if special then genSpecialCallIn name declType callee args
  else silent do
    genScalarCall name callee (calleeArgs name callee args)
    pure (callAnn declType callee)

def placeIndirectArgs (args : List CallArg) (slots : List ArgSlot) : List PlacedArg :=
  (args.zip slots).map fun p => { toCallArg := p.1, slot := p.2, promote := false }

def genIndirectLayoutCallIn (params : List CType) (args : List CallArg) : TableGen Unit := do
  let cg ← silent get
  useFrom .items 0 args.length
  let layout := computeCallLayout false (params.map indirectArgClass)
  let slots := outgoingSlots cg.pushDepth layout.stackBytes
  silent (onlyIf (slots > 0) (reserveSlots slots))
  let placed := placeIndirectArgs args layout.items
  storeStackArgsIn false 0 placed
  let spills ← spillRegArgsIn false 0 0 placed
  restoreSpillsIn spills
  silent (do
    emit (movMem .qword .r10 (stackArg (8 * slots)))
    emit (.callReg .r10)
    releaseSlots (slots + 1))

def genIndirectCallIn (callee : ExprGen) (args : List ExprGen) : TableGen Ann := do
  let cg ← silent get
  silent (checkKnownCallee cg callee.node)
  let a ← silent callee.codegenExpression
  match a.resultType, a.fullType.bind CType.base with
  | .pointer, some (.function ret params) => do
    silent (errorIf (params.length ≠ args.length)
      s!"error: indirect call expects {params.length} arguments, got {args.length}")
    silent (pushReg .rax)
    if params.any fun p => typeIsFp p.kind then
      genIndirectLayoutCallIn params (indirectArgs params args)
    else silent (genIndirectScalarCall (indirectArgs params args))
    pure ⟨ret.kind, pointerFullType ret, false⟩
  | _, _ => silent (throw "error: expression is not callable")

section programs

@[simp] theorem program_use (table : Table) (index : Nat) :
    (use table index).program = pure () := rfl

@[simp] theorem program_useIf (c : Bool) (table : Table) (index : Nat) :
    (useIf c table index).program = pure () := by
  cases c <;> rfl

@[simp] theorem program_useFrom (table : Table) (start n : Nat) :
    (useFrom table start n).program = pure () := by
  induction n generalizing start with
  | zero => rfl
  | succ n ih => simp [useFrom, ih]

@[simp] theorem program_fillTypes (cg : CodeGen) (i : Nat) (args : List ExprGen) :
    (fillTypes cg i args).program = liftM (exprResultTypes cg args) := by
  induction args generalizing i with
  | nil => simp [fillTypes, exprResultTypes]
  | cons arg args ih => simp [fillTypes, exprResultTypes, ih]

@[simp] theorem program_useLayout (callee : Option FunctionSig) (i n : Nat) :
    (useLayout callee i n).program = pure () := by
  induction n generalizing i with
  | zero => rfl
  | succ n ih => simp [useLayout, ih]

@[simp] theorem program_storeStackArgsIn (direct : Bool) (i : Nat) (args : List PlacedArg) :
    (storeStackArgsIn direct i args).program = storeStackArgs args := by
  induction args generalizing i with
  | nil => rfl
  | cons arg args ih => simp [storeStackArgsIn, storeStackArgs, ih]

@[simp] theorem program_spillRegArgsIn (direct : Bool) (i nspill : Nat) (args : List PlacedArg) :
    (spillRegArgsIn direct i nspill args).program = spillRegArgs args := by
  induction args generalizing i nspill with
  | nil => rfl
  | cons arg args ih => simp [spillRegArgsIn, spillRegArgs, ih]

@[simp] theorem program_spillSretIn (sret : Bool) (retTemp : Nat) :
    (spillSretIn sret retTemp).program = spillSret sret retTemp := by
  simp [spillSretIn]

@[simp] theorem program_restoreSpillsIn (spills : List Spill) :
    (restoreSpillsIn spills).program = restoreSpills spills := by
  simp [restoreSpillsIn]

theorem program_emitLayoutCallIn (slots : Nat) (args : List PlacedArg) (sret : Bool)
    (retTemp : Nat) (setup : List Asm) (call : Asm) :
    (emitLayoutCallIn slots args sret retTemp setup call).program =
      emitLayoutCall slots args sret retTemp setup call := by
  simp [emitLayoutCallIn, emitLayoutCall]

theorem program_genSpecialCallIn (name : String) (declType : TypeKind)
    (callee : Option FunctionSig) (args : List ExprGen) :
    (genSpecialCallIn name declType callee args).program =
      genSpecialCall name declType callee args := by
  simp [genSpecialCallIn, genSpecialCall, program_emitLayoutCallIn] <;> rfl

theorem program_genFunctionCallIn (name : String) (declType : TypeKind) (args : List ExprGen) :
    (genFunctionCallIn name declType args).program = genFunctionCall name declType args := by
  simp [genFunctionCallIn, genFunctionCall, program_genSpecialCallIn]

theorem program_genIndirectLayoutCallIn (params : List CType) (args : List CallArg) :
    (genIndirectLayoutCallIn params args).program = genIndirectLayoutCall params args := by
  simp [genIndirectLayoutCallIn, genIndirectLayoutCall, placeIndirectArgs]

theorem program_genIndirectCallIn (callee : ExprGen) (args : List ExprGen) :
    (genIndirectCallIn callee args).program = genIndirectCall callee args := by
  rw [genIndirectCallIn, genIndirectCall]
  simp only [program_bind, program_silent]
  refine bind_congr fun cg => bind_congr fun _ => bind_congr fun a => ?_
  generalize a.resultType = kind
  generalize a.fullType.bind CType.base = base
  cases kind
  case pointer =>
    cases base with
    | none => rfl
    | some t =>
      cases t
      case function ret params => simp [program_genIndirectLayoutCallIn]
      all_goals rfl
  all_goals rfl

end programs

section registers

/-- The spills of an argument: one for each register. -/
def slotWords (slot : ArgSlot) : Nat :=
  if slot.mem then 0 else if slot.isStruct ∧ slot.gpCount = 2 then 2 else 1

theorem spilledWords_length (arg : PlacedArg) : (spilledWords arg).length = slotWords arg.slot := by
  unfold spilledWords slotWords
  cases arg.slot.mem <;> cases arg.slot.isStruct <;> cases arg.slot.xmmIdx <;>
    by_cases two : arg.slot.gpCount = 2 <;> simp [two]

theorem spillWords_length (args : List PlacedArg) :
    (spillWords args).length = (args.map fun arg => slotWords arg.slot).sum := by
  induction args with
  | nil => rfl
  | cons arg args ih =>
    rw [spillWords, List.length_append, ih, spilledWords_length, List.map_cons, List.sum_cons,
      Nat.add_comm]

/-- The registers given out: six general ones, one of which a hidden pointer may have taken, and
eight for floating values. -/
structure LayoutState.Bounded (st : LayoutState) : Prop where
  gp : st.gpNext ≤ 6
  xmm : st.xmmNext ≤ 8

theorem placeArg_words {st : LayoutState} (bounded : st.Bounded) (c : ArgClass) :
    (placeArg st c).2.Bounded ∧ slotWords (placeArg st c).1 + (st.gpNext + st.xmmNext) ≤
      (placeArg st c).2.gpNext + (placeArg st c).2.xmmNext := by
  obtain ⟨gp, xmm⟩ := bounded
  cases c with
  | struct size =>
    rw [placeArg]
    split
    · rename_i fits
      refine ⟨⟨fits.2, xmm⟩, ?_⟩
      rw [slotWords, if_neg (by simp [gpSlot])]
      split
      · rename_i two
        have count : structRegEightbytes size = 2 := two.2
        simp only [count]
        omega
      · simp only
        omega
    · exact ⟨⟨gp, xmm⟩, by simp [slotWords, stackSlot]⟩
  | floating nbytes =>
    rw [placeArg]
    split
    · refine ⟨⟨gp, by simpa using ‹_›⟩, ?_⟩
      simp only [slotWords, xmmSlot, Bool.false_eq_true, if_false, false_and]
      omega
    · exact ⟨⟨gp, xmm⟩, by simp [slotWords, stackSlot]⟩
  | general =>
    rw [placeArg]
    split
    · refine ⟨⟨by simpa using ‹_›, xmm⟩, ?_⟩
      simp only [slotWords, gpSlot, Bool.false_eq_true, if_false, false_and]
      omega
    · exact ⟨⟨gp, xmm⟩, by simp [slotWords, stackSlot]⟩

theorem placeArgs_words {st : LayoutState} (bounded : st.Bounded) (cs : List ArgClass) :
    ((placeArgs st cs).1.map slotWords).sum + (st.gpNext + st.xmmNext) ≤ 14 := by
  induction cs generalizing st with
  | nil =>
    have gp := bounded.gp
    have xmm := bounded.xmm
    simp only [placeArgs, List.map_nil, List.sum_nil]
    omega
  | cons c cs ih =>
    obtain ⟨next, words⟩ := placeArg_words bounded c
    have rest := ih next
    simp only [placeArgs, List.map_cons, List.sum_cons]
    omega

/-- A layout spills at most fourteen words, with the hidden pointer. -/
theorem computeCallLayout_words (sret : Bool) (cs : List ArgClass) :
    ((computeCallLayout sret cs).items.map slotWords).sum + (if sret then 1 else 0) ≤ 14 := by
  have start : (⟨if sret then 1 else 0, 0, 0⟩ : LayoutState).Bounded := by
    constructor
    · cases sret <;> decide
    · exact Nat.zero_le 8
  exact placeArgs_words start cs

end registers

section bounds

variable {direct : Bool} {cg : CodeGen}

theorem inside_useIf {c : Bool} {table : Table} {index : Nat} (inside : index < table.length) :
    Leaves Access.Inside (useIf c table index) cg := by
  unfold useIf
  split
  · exact (leaves_touch _ cg).mpr inside
  · exact leaves_pure () cg

theorem inside_useFrom {table : Table} {start n : Nat} (inside : start + n ≤ table.length) :
    Leaves Access.Inside (useFrom table start n) cg := by
  induction n generalizing start cg with
  | zero => exact leaves_pure () cg
  | succ n ih =>
    refine leaves_bind.mpr ⟨(leaves_touch _ cg).mpr ?_, fun _ _ _ => ih (by omega)⟩
    change start < table.length
    omega

theorem inside_useLayout {callee : Option FunctionSig} {i n : Nat} (inside : i + n ≤ 24) :
    Leaves Access.Inside (useLayout callee i n) cg := by
  induction n generalizing i cg with
  | zero => exact leaves_pure () cg
  | succ n ih =>
    have item : i < Table.items.length := Nat.lt_of_lt_of_le (by omega) inside
    have type : i < Table.actualTypes.length := Nat.lt_of_lt_of_le (m := 24) (by omega) (by decide)
    refine leaves_bind.mpr ⟨(leaves_touch _ cg).mpr item, fun _ _ _ => ?_⟩
    exact leaves_bind.mpr ⟨inside_useIf type, fun _ _ _ => ih (by omega)⟩

theorem inside_storeStackArgsIn {i : Nat} {args : List PlacedArg} (inside : i + args.length ≤ 24) :
    Leaves Access.Inside (storeStackArgsIn direct i args) cg := by
  induction args generalizing i cg with
  | nil => exact leaves_pure () cg
  | cons arg args ih =>
    rw [List.length_cons] at inside
    have item : i < Table.items.length := Nat.lt_of_lt_of_le (m := 24) (by omega) (by decide)
    have type : i < Table.actualTypes.length := Nat.lt_of_lt_of_le (m := 24) (by omega) (by decide)
    refine leaves_bind.mpr ⟨(leaves_touch _ cg).mpr item, fun _ _ _ => ?_⟩
    refine leaves_bind.mpr ⟨leaves_silent _ _, fun _ _ _ => ?_⟩
    exact leaves_bind.mpr ⟨inside_useIf type, fun _ _ _ => ih (by omega)⟩

theorem inside_spillRegArgsIn {i nspill : Nat} {args : List PlacedArg}
    (inside : i + args.length ≤ 24) (room : nspill + (spillWords args).length ≤ 26) :
    Leaves Access.Inside (spillRegArgsIn direct i nspill args) cg := by
  induction args generalizing i nspill cg with
  | nil => exact leaves_pure [] cg
  | cons arg args ih =>
    rw [List.length_cons] at inside
    rw [spillWords, List.length_append] at room
    have item : i < Table.items.length := Nat.lt_of_lt_of_le (m := 24) (by omega) (by decide)
    have type : i < Table.actualTypes.length := Nat.lt_of_lt_of_le (m := 24) (by omega) (by decide)
    refine leaves_bind.mpr ⟨(leaves_touch _ cg).mpr item, fun _ _ _ => ?_⟩
    refine leaves_bind.mpr ⟨leaves_silent _ _, fun spills _ run => ?_⟩
    have count := spillArg_length run
    refine leaves_bind.mpr ⟨inside_useIf type, fun _ _ _ => ?_⟩
    refine leaves_bind.mpr ⟨inside_useFrom ?_, fun _ _ _ => ?_⟩
    · exact Nat.le_trans (m := 26) (by omega) (by decide)
    refine leaves_bind.mpr ⟨ih (by omega) (by omega), fun _ _ _ => leaves_pure _ _⟩

theorem inside_restoreSpillsIn {spills : List Spill} (inside : spills.length ≤ 26) :
    Leaves Access.Inside (restoreSpillsIn spills) cg := by
  refine leaves_bind.mpr ⟨inside_useFrom ?_, fun _ _ _ => leaves_silent _ _⟩
  rw [Nat.zero_add]
  exact inside

theorem inside_emitLayoutCallIn {slots : Nat} {args : List PlacedArg} {sret : Bool}
    {retTemp : Nat} {setup : List Asm} {call : Asm} (inside : args.length ≤ 24)
    (room : (spillWords args).length + (if sret then 1 else 0) ≤ 14) :
    Leaves Access.Inside (emitLayoutCallIn slots args sret retTemp setup call) cg := by
  refine leaves_bind.mpr ⟨leaves_silent _ _, fun _ _ _ => ?_⟩
  refine leaves_bind.mpr ⟨inside_storeStackArgsIn (by omega), fun _ _ _ => ?_⟩
  refine leaves_bind.mpr ⟨?_, fun sretSpill _ sretRun => ?_⟩
  · refine leaves_bind.mpr ⟨leaves_silent _ _, fun spills _ run => ?_⟩
    refine leaves_bind.mpr ⟨inside_useFrom ?_, fun _ _ _ => leaves_pure _ _⟩
    rw [spillSret_length run]
    cases sret <;> decide
  rw [program_spillSretIn] at sretRun
  have sretCount : sretSpill.length = if sret then 1 else 0 := by
    rw [spillSret_length sretRun]
    cases sret <;> rfl
  refine leaves_bind.mpr ⟨inside_spillRegArgsIn (by omega) (by omega), fun spills _ run => ?_⟩
  rw [program_spillRegArgsIn] at run
  have count := spillRegArgs_length run
  refine leaves_bind.mpr ⟨inside_restoreSpillsIn ?_, fun _ _ _ => leaves_silent _ _⟩
  rw [List.length_append]
  omega

/-- The arguments before the first whose type `expr_result_type` does not find. -/
def typedArgs (cg : CodeGen) (args : List ExprGen) : Nat :=
  (args.takeWhile fun arg => (exprResultType cg arg.node).isOk).length

theorem trace_useFrom (table : Table) (start n : Nat) (cg : CodeGen) :
    (useFrom table start n).trace cg = (List.range' start n).map (⟨table, ·⟩) := by
  induction n generalizing start cg with
  | zero => rfl
  | succ n ih =>
    have first : Yields (use table start).program cg () cg := rfl
    rw [useFrom, trace_bind_of_yields first, ih, List.range'_succ, List.map_cons]
    rfl

theorem inside_useFrom_iff {table : Table} {n : Nat} :
    Leaves Access.Inside (useFrom table 0 n) cg ↔ n ≤ table.length := by
  constructor
  · intro inside
    by_contra beyond
    have last : (⟨table, table.length⟩ : Access) ∈ (useFrom table 0 n).trace cg := by
      rw [trace_useFrom]
      exact List.mem_map.mpr ⟨table.length, List.mem_range'_1.mpr ⟨by omega, by omega⟩, rfl⟩
    exact Nat.lt_irrefl _ (inside _ last)
  · intro small
    exact inside_useFrom (by omega)

theorem typedArgs_error {arg : ExprGen} {e : String} (type : exprResultType cg arg.node = .error e)
    (args : List ExprGen) : typedArgs cg (arg :: args) = 0 := by
  have unknown : ¬ (exprResultType cg arg.node).isOk = true := by
    rw [type]
    exact Bool.false_ne_true
  have stop := List.takeWhile_cons_of_neg (p := fun arg => (exprResultType cg arg.node).isOk)
    (l := args) unknown
  rw [typedArgs, stop, List.length_nil]

theorem typedArgs_ok {arg : ExprGen} {t : TypeKind} (type : exprResultType cg arg.node = .ok t)
    (args : List ExprGen) : typedArgs cg (arg :: args) = typedArgs cg args + 1 := by
  have known : (exprResultType cg arg.node).isOk = true := by
    rw [type]
    rfl
  have step := List.takeWhile_cons_of_pos (p := fun arg => (exprResultType cg arg.node).isOk)
    (l := args) known
  rw [typedArgs, step, List.length_cons, typedArgs]

theorem trace_fillTypes (cg τ : CodeGen) (i : Nat) (args : List ExprGen) :
    (fillTypes cg i args).trace τ = (useFrom .actualTypes i (typedArgs cg args)).trace τ := by
  induction args generalizing i with
  | nil => rfl
  | cons arg args ih =>
    cases type : exprResultType cg arg.node with
    | error e =>
      have stop : (silent (liftM (exprResultType cg arg.node)) : TableGen TypeKind).program τ =
          .error e := by
        rw [type]
        rfl
      rw [fillTypes, trace_bind_of_error stop, typedArgs_error type]
      rfl
    | ok t =>
      have known : Yields (silent (liftM (exprResultType cg arg.node)) : TableGen TypeKind).program
          τ t τ := by
        rw [type]
        rfl
      have stored : Yields (use .actualTypes i).program τ () τ := rfl
      rw [fillTypes, trace_bind_of_yields known, trace_bind_of_yields stored, typedArgs_ok type,
        useFrom, trace_bind_of_yields stored, ← ih, trace_silent, List.nil_append]
      congr 1
      cases rest : (fillTypes cg (i + 1) args).program τ with
      | error e => exact trace_bind_of_error rest
      | ok p =>
        have yields : Yields (fillTypes cg (i + 1) args).program τ p.1 p.2 := rest
        rw [trace_bind_of_yields yields, trace_pure, List.append_nil]

/-- The types of the arguments fit exactly when at most 26 of them are found. -/
theorem inside_fillTypes_iff (cg τ : CodeGen) (args : List ExprGen) :
    Leaves Access.Inside (fillTypes cg 0 args) τ ↔ typedArgs cg args ≤ 26 := by
  unfold Leaves
  rw [trace_fillTypes]
  exact inside_useFrom_iff

theorem placedArgs_slots (callee : Option FunctionSig) (args : List CallArg)
    (slots : List ArgSlot) (actual : List TypeKind) :
    ((placeCallArgs callee args slots actual).map PlacedArg.slot).Sublist slots := by
  induction args generalizing slots actual with
  | nil => exact List.nil_sublist slots
  | cons arg args ih =>
    cases slots with
    | nil => exact List.Sublist.refl []
    | cons slot slots =>
      cases actual with
      | nil => exact List.nil_sublist _
      | cons kind actual => exact (ih slots actual).cons_cons slot

theorem placedArgs_length (name : String) (callee : Option FunctionSig) (args : List ExprGen)
    (slots : List ArgSlot) (actual : List TypeKind) :
    (placeCallArgs callee (calleeArgs name callee args) slots actual).length ≤ args.length := by
  have values := (placeCallArgs_values callee (calleeArgs name callee args) slots actual).length_le
  rw [List.length_map, calleeArgs, List.length_map, List.length_zipIdx] at values
  exact values

theorem spillWords_le {args : List PlacedArg} {slots : List ArgSlot}
    (placed : (args.map PlacedArg.slot).Sublist slots) :
    (spillWords args).length ≤ (slots.map slotWords).sum := by
  have own : (spillWords args).length = ((args.map PlacedArg.slot).map slotWords).sum := by
    rw [spillWords_length, List.map_map]
    rfl
  rw [own]
  exact (placed.map slotWords).sum_le_sum fun _ _ => Nat.zero_le _

theorem not_of_yields_errorIf {c : Prop} [Decidable c] {message : String} {τ τ' : CodeGen}
    {x : Unit} (passed : Yields (errorIf c message) τ x τ') : ¬ c := by
  intro holds
  rw [errorIf, if_pos holds] at passed
  cases passed

/-- A direct call over structs or floats stays inside its arrays exactly when at most 26 types are
found: the other arrays are used only behind the length check. -/
theorem inside_genSpecialCallIn_iff (name : String) (declType : TypeKind)
    (callee : Option FunctionSig) (args : List ExprGen) :
    Leaves Access.Inside (genSpecialCallIn name declType callee args) cg ↔
      typedArgs cg args ≤ 26 := by
  have state : Yields (silent get : TableGen CodeGen).program cg cg cg := rfl
  constructor
  · intro inside
    have rest := (leaves_bind.mp inside).2 cg cg state
    exact (inside_fillTypes_iff cg cg args).mp (leaves_bind.mp rest).1
  · intro found
    refine leaves_bind.mpr ⟨leaves_silent _ _, fun cg' _ own => ?_⟩
    obtain ⟨rfl, rfl⟩ := yields_get.mp own
    refine leaves_bind.mpr ⟨(inside_fillTypes_iff _ _ args).mpr found, fun actual _ _ => ?_⟩
    refine leaves_bind.mpr ⟨leaves_silent _ _, fun _ _ checked => ?_⟩
    have fits : args.length ≤ 24 := Nat.le_of_not_lt (not_of_yields_errorIf checked)
    refine leaves_bind.mpr ⟨inside_useLayout (by omega), fun _ _ _ => ?_⟩
    refine leaves_bind.mpr ⟨inside_useFrom_iff.mpr fits, fun _ _ _ => ?_⟩
    refine leaves_bind.mpr ⟨leaves_silent _ _, fun ret _ _ => ?_⟩
    refine leaves_bind.mpr ⟨leaves_silent _ _, fun retTemp _ _ => ?_⟩
    refine leaves_bind.mpr ⟨inside_emitLayoutCallIn ?_ ?_, fun _ _ _ => leaves_silent _ _⟩
    · exact Nat.le_trans (placedArgs_length name callee args _ actual) fits
    · exact Nat.le_trans (Nat.add_le_add_right (spillWords_le (placedArgs_slots ..)) _)
        (computeCallLayout_words ..)

/-- A direct call over structs or floats that is too long leaves nothing but the types it found. -/
theorem trace_genSpecialCallIn_of_long (name : String) (declType : TypeKind)
    (callee : Option FunctionSig) {args : List ExprGen} (long : maxCallLayoutItems < args.length) :
    (genSpecialCallIn name declType callee args).trace cg = (fillTypes cg 0 args).trace cg := by
  have state : Yields (silent get : TableGen CodeGen).program cg cg cg := rfl
  rw [genSpecialCallIn, trace_bind_of_yields state, trace_silent, List.nil_append]
  cases types : (fillTypes cg 0 args).program cg with
  | error e => exact trace_bind_of_error types
  | ok p =>
    have known : Yields (fillTypes cg 0 args).program cg p.1 p.2 := types
    have rejected : (silent (errorIf (args.length > maxCallLayoutItems)
        s!"error: call has {args.length} arguments; max supported is {maxCallLayoutItems}") :
          TableGen Unit).program p.2 = .error
        s!"error: call has {args.length} arguments; max supported is {maxCallLayoutItems}" := by
      rw [program_silent, errorIf, if_pos long]
      rfl
    rw [trace_bind_of_yields known, trace_bind_of_error rejected, trace_silent, List.append_nil]

/-- A call through a function pointer that has a floating parameter, with its parameters. -/
def FloatingCallee (cg : CodeGen) (callee : ExprGen) (args : List ExprGen) (params : List CType) :
    Prop :=
  ∃ cg₁ cg₂ a ret, Yields (checkKnownCallee cg callee.node) cg () cg₁ ∧
    Yields callee.codegenExpression cg₁ a cg₂ ∧ a.resultType = .pointer ∧
    a.fullType.bind CType.base = some (.function ret params) ∧ params.length = args.length ∧
    (params.any fun p => typeIsFp p.kind) = true

theorem zip_second_sublist {α β : Type} (xs : List α) (ys : List β) :
    ((xs.zip ys).map Prod.snd).Sublist ys := by
  induction xs generalizing ys with
  | nil => exact List.nil_sublist ys
  | cons x xs ih =>
    cases ys with
    | nil => exact List.Sublist.refl []
    | cons y ys => exact (ih ys).cons_cons y

theorem placeIndirectArgs_length (args : List CallArg) (slots : List ArgSlot) :
    (placeIndirectArgs args slots).length ≤ args.length := by
  rw [placeIndirectArgs, List.length_map, List.length_zip]
  exact Nat.min_le_left _ _

theorem placeIndirectArgs_words (args : List CallArg) (cs : List ArgClass) :
    (spillWords (placeIndirectArgs args (computeCallLayout false cs).items)).length ≤ 14 := by
  have slots : ((placeIndirectArgs args (computeCallLayout false cs).items).map
      PlacedArg.slot).Sublist (computeCallLayout false cs).items := by
    rw [placeIndirectArgs, List.map_map]
    exact zip_second_sublist args _
  exact Nat.le_trans (spillWords_le slots) (computeCallLayout_words false cs)

theorem inside_genIndirectLayoutCallIn_iff {params : List CType} {args : List CallArg}
    (count : params.length = args.length) :
    Leaves Access.Inside (genIndirectLayoutCallIn params args) cg ↔
      params.length ≤ maxCallLayoutItems := by
  have state : Yields (silent get : TableGen CodeGen).program cg cg cg := rfl
  rw [count]
  constructor
  · intro inside
    have rest := (leaves_bind.mp inside).2 cg cg state
    exact inside_useFrom_iff.mp (leaves_bind.mp rest).1
  · intro fits
    refine leaves_bind.mpr ⟨leaves_silent _ _, fun _ _ _ => ?_⟩
    refine leaves_bind.mpr ⟨inside_useFrom_iff.mpr fits, fun _ _ _ => ?_⟩
    refine leaves_bind.mpr ⟨leaves_silent _ _, fun _ _ _ => ?_⟩
    refine leaves_bind.mpr ⟨inside_storeStackArgsIn ?_, fun _ _ _ => ?_⟩
    · rw [Nat.zero_add]
      exact Nat.le_trans (placeIndirectArgs_length args _) fits
    have words := placeIndirectArgs_words args (params.map indirectArgClass)
    refine leaves_bind.mpr ⟨inside_spillRegArgsIn ?_ ?_, fun spills _ run => ?_⟩
    · rw [Nat.zero_add]
      exact Nat.le_trans (placeIndirectArgs_length args _) fits
    · omega
    rw [program_spillRegArgsIn] at run
    refine leaves_bind.mpr ⟨inside_restoreSpillsIn ?_, fun _ _ _ => leaves_silent _ _⟩
    rw [spillRegArgs_length run]
    omega

theorem inside_genIndirectCallIn_iff (callee : ExprGen) (args : List ExprGen) :
    Leaves Access.Inside (genIndirectCallIn callee args) cg ↔
      ∀ params, FloatingCallee cg callee args params → params.length ≤ maxCallLayoutItems := by
  constructor
  · rintro inside params ⟨cg₁, cg₂, a, ret, check, value, pointer, base, count, floating⟩
    have afterState := (leaves_bind.mp inside).2 cg cg rfl
    have afterCheck := (leaves_bind.mp afterState).2 () cg₁ check
    have afterValue := (leaves_bind.mp afterCheck).2 a cg₂ value
    rw [pointer, base] at afterValue
    have checked : Yields (silent (errorIf (params.length ≠ args.length)
        s!"error: indirect call expects {params.length} arguments, got {args.length}") :
          TableGen Unit).program cg₂ () cg₂ := by
      rw [program_silent, errorIf, if_neg (not_not.mpr count)]
      rfl
    have afterCount := (leaves_bind.mp afterValue).2 () cg₂ checked
    have afterPush := (leaves_bind.mp afterCount).2 () _ rfl
    rw [if_pos floating] at afterPush
    have args_length : (indirectArgs params args).length = params.length := by
      simp [indirectArgs, count]
    exact (inside_genIndirectLayoutCallIn_iff args_length.symm).mp (leaves_bind.mp afterPush).1
  · intro fits
    refine leaves_bind.mpr ⟨leaves_silent _ _, fun cg' _ own => ?_⟩
    obtain ⟨rfl, rfl⟩ := yields_get.mp own
    refine leaves_bind.mpr ⟨leaves_silent _ _, fun _ cg₁ check => ?_⟩
    refine leaves_bind.mpr ⟨leaves_silent _ _, fun a cg₂ value => ?_⟩
    have within (ret : CType) (params : List CType) (pointer : a.resultType = .pointer)
        (base : a.fullType.bind CType.base = some (.function ret params))
        (count : params.length = args.length)
        (floating : (params.any fun p => typeIsFp p.kind) = true) :
        params.length ≤ maxCallLayoutItems :=
      fits params ⟨cg₁, cg₂, a, ret, check, value, pointer, base, count, floating⟩
    generalize a.resultType = kind at within ⊢
    generalize a.fullType.bind CType.base = base at within ⊢
    cases kind
    case pointer =>
      cases base with
      | none => exact leaves_silent _ _
      | some t =>
        cases t
        case function ret params =>
          refine leaves_bind.mpr ⟨leaves_silent _ _, fun _ _ checked => ?_⟩
          have count : params.length = args.length := not_not.mp (not_of_yields_errorIf checked)
          have args_length : (indirectArgs params args).length = params.length := by
            simp [indirectArgs, count]
          refine leaves_bind.mpr ⟨leaves_silent _ _, fun _ _ _ => ?_⟩
          split
          · rename_i floating
            refine leaves_bind.mpr ⟨?_, fun _ _ _ => leaves_pure _ _⟩
            exact (inside_genIndirectLayoutCallIn_iff args_length.symm).mpr
              (within ret params rfl rfl count floating)
          · exact leaves_bind.mpr ⟨leaves_silent _ _, fun _ _ _ => leaves_pure _ _⟩
        all_goals exact leaves_silent _ _
    all_goals exact leaves_silent _ _

/-- The direct call behind the test whether it goes over structs or floats. -/
theorem trace_genFunctionCallIn (name : String) (declType : TypeKind) (args : List ExprGen)
    (special : isSpecialCall cg (cg.findFunctionDecl name) args = .ok true) :
    (genFunctionCallIn name declType args).trace cg =
        (genSpecialCallIn name declType (cg.findFunctionDecl name) args).trace cg ∧
      genFunctionCall name declType args cg =
        genSpecialCall name declType (cg.findFunctionDecl name) args cg := by
  have state : Yields (silent get : TableGen CodeGen).program cg cg cg := rfl
  have test : Yields (silent (liftM (isSpecialCall cg (cg.findFunctionDecl name) args)) :
      TableGen Bool).program cg true cg := by
    rw [special]
    rfl
  constructor
  · rw [genFunctionCallIn, trace_bind_of_yields state, trace_bind_of_yields test, if_pos rfl]
    rfl
  · have own : Yields (get : Gen CodeGen) cg cg cg := rfl
    have known : Yields (liftM (isSpecialCall cg (cg.findFunctionDecl name) args) : Gen Bool) cg true
        cg := yields_lift.mpr ⟨special, rfl⟩
    rw [genFunctionCall, run_bind_of own, run_bind_of known, if_pos rfl]

/-- A direct call over structs or floats that is too long is rejected. -/
theorem genSpecialCall_rejects (name : String) (declType : TypeKind)
    (callee : Option FunctionSig) {args : List ExprGen} (long : maxCallLayoutItems < args.length) :
    (genSpecialCall name declType callee args cg).isOk = false := by
  rw [Bool.eq_false_iff]
  intro ok
  obtain ⟨a, cg', run⟩ := exists_yields ok
  obtain ⟨_, _, _, run⟩ := yields_bind.mp run
  obtain ⟨_, _, _, run⟩ := yields_bind.mp run
  obtain ⟨_, _, passed, _⟩ := yields_bind.mp run
  exact not_of_yields_errorIf passed long

theorem inside_genFunctionCallIn_iff (name : String) (declType : TypeKind) (args : List ExprGen) :
    Leaves Access.Inside (genFunctionCallIn name declType args) cg ↔
      (isSpecialCall cg (cg.findFunctionDecl name) args = .ok true → typedArgs cg args ≤ 26) := by
  have state : Yields (silent get : TableGen CodeGen).program cg cg cg := rfl
  constructor
  · intro inside special
    unfold Leaves at inside
    rw [(trace_genFunctionCallIn name declType args special).1] at inside
    exact (inside_genSpecialCallIn_iff name declType _ args).mp inside
  · intro found
    refine leaves_bind.mpr ⟨leaves_silent _ _, fun cg' _ own => ?_⟩
    obtain ⟨rfl, rfl⟩ := yields_get.mp own
    refine leaves_bind.mpr ⟨leaves_silent _ _, fun special τ test => ?_⟩
    obtain ⟨known, rfl⟩ := yields_lift.mp test
    cases special with
    | false => exact leaves_silent _ _
    | true => exact (inside_genSpecialCallIn_iff name declType _ args).mpr (found known)

/-- The calls leave the code of the plain ones. A direct call stays inside its arrays exactly when
it finds at most 26 types on the path for structs and floats, and one that is too long is rejected
there, before it uses an array exactly when it does not find the first type; a call through a
pointer stays inside them exactly when a type with floating parameters has at most 24. -/
theorem calls_inside_tables_iff (cg : CodeGen) :
    (∀ name declType args,
      (genFunctionCallIn name declType args).program = genFunctionCall name declType args ∧
      (Leaves Access.Inside (genFunctionCallIn name declType args) cg ↔
        (isSpecialCall cg (cg.findFunctionDecl name) args = .ok true →
          typedArgs cg args ≤ 26)) ∧
      (isSpecialCall cg (cg.findFunctionDecl name) args = .ok true →
        maxCallLayoutItems < args.length →
          (genFunctionCall name declType args cg).isOk = false ∧
          ((genFunctionCallIn name declType args).trace cg = [] ↔ typedArgs cg args = 0))) ∧
    (∀ callee args, (genIndirectCallIn callee args).program = genIndirectCall callee args ∧
      (Leaves Access.Inside (genIndirectCallIn callee args) cg ↔
        ∀ params, FloatingCallee cg callee args params →
          params.length ≤ maxCallLayoutItems)) := by
  constructor
  · intro name declType args
    refine ⟨program_genFunctionCallIn .., inside_genFunctionCallIn_iff .., fun special long => ?_⟩
    obtain ⟨trace, run⟩ := trace_genFunctionCallIn name declType args special
    constructor
    · rw [run]
      exact genSpecialCall_rejects name declType _ long
    · rw [trace, trace_genSpecialCallIn_of_long name declType _ long, trace_fillTypes,
        trace_useFrom, List.map_eq_nil_iff, List.range'_eq_nil_iff]
  · intro callee args
    exact ⟨program_genIndirectCallIn .., inside_genIndirectCallIn_iff callee args⟩

end bounds

/-- `int printf(const char *format, ...);` -/
def printf : FunctionSig where
  name := "printf"
  declType := .int
  fullType := none
  params := [⟨"format", .pointer, some (.pointer .typeChar false), false, false⟩]
  isVariadic := true
  isNoPrototype := false

/-- `"", 1.0, 1, ..., 1`, with 25 times `1`. -/
def longArgs : List ExprGen :=
  (.stringLiteral [] :: .floatLiteral "1.0" .double ::
    List.replicate 25 (.intLiteral (.dec 1) .int false)).map codegen

/-- The call `printf("", 1.0, 1, ..., 1)` writes `actual_types[26]`. -/
theorem long_call_overruns : ∃ access ∈
    (genFunctionCallIn "printf" .int longArgs).trace (codegenInit [printf] fun _ => []),
      access.table = .actualTypes ∧ ¬ access.Inside := by
  decide +kernel

end ClaudeC99
