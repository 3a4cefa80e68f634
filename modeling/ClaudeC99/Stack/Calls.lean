import ClaudeC99.Stack.Operators

/-! Calls leave the stack as they found it, and the call instruction sees an even depth. -/

namespace ClaudeC99

open X86 StateExcept

variable {u : CodeGen} {b c : Nat} {S : List Held} {α β : Type}

/-- An argument whose code and conversion keep the stack. -/
structure GoodArg (u : CodeGen) (arg : CallArg) : Prop where
  value : Good u arg.value
  convert : ∀ a, Neutral u 0 (arg.convert a)

def argsCost (u : CodeGen) (args : List CallArg) : Nat :=
  (args.map fun arg => arg.value.cost u).sum

theorem emits_evalArg {arg : CallArg} (h : GoodArg u arg) :
    Emits u b (arg.value.cost u) S S (evalArg arg) :=
  .tail h.value.value fun a => (h.convert a).emits

theorem neutral_argConvert (name : String) (param : Option Param) (arg : Expr) (a : Ann) :
    Neutral u c (argConvert name param arg a) := by
  intro b
  unfold argConvert
  split
  · exact .pure _
  · dsimp only
    split
    · exact .seq (.errorIf _ _) fun _ => .seq (.errorIf _ _) fun _ => .errorIf _ _
    · exact emits_emitAll (by simp)

theorem neutral_indirectArgConvert (i : Nat) (param : CType) (a : Ann) :
    Neutral u c (indirectArgConvert i param a) := by
  intro b
  unfold indirectArgConvert
  dsimp only
  split
  · exact .seq (.errorIf _ _) fun _ => .errorIf _ _
  · exact emits_emitAll (by simp)

theorem emits_pushArgs {args : List CallArg} (h : ∀ arg ∈ args, GoodArg u arg) :
    Emits u b (argsCost u args) S (List.replicate args.length .pushed ++ S) (pushArgs args) := by
  induction args generalizing S with
  | nil => exact .pure _
  | cons arg args ih =>
    have rest := ih (S := .pushed :: S) fun a ha => h a (List.mem_cons_of_mem _ ha)
    have words : List.replicate args.length Held.pushed ++ .pushed :: S =
        List.replicate (arg :: args).length Held.pushed ++ S := by
      rw [List.length_cons, List.replicate_succ', List.append_assoc]
      rfl
    rw [words] at rest
    exact .bind (emits_evalArg (h arg (by simp))) fun _ =>
      .seq (emits_pushReg .rax) fun _ => rest

theorem emits_popArgRegs (n : Nat) :
    Emits u b c (List.replicate n .pushed ++ S) S (popArgRegs n) := by
  induction n with
  | zero => exact .pure _
  | succ n ih =>
    rw [List.replicate_succ]
    exact .seq (emits_popReg (argReg_scratch n)) fun _ => ih

theorem emits_reserveSome (n : Nat) :
    Emits u b c S (List.replicate n .reserved ++ S) (onlyIf (n > 0) (reserveSlots n)) := by
  unfold onlyIf
  split
  · exact emits_reserveSlots n
  · obtain rfl : n = 0 := by omega
    exact .pure _

theorem emits_releaseSome {T : List Held} {n : Nat} (count : n = T.length) :
    Emits u b c (T ++ S) S (onlyIf (n > 0) (releaseSlots n)) := by
  unfold onlyIf
  split
  · exact emits_releaseSlots count
  · obtain rfl : T = [] := List.length_eq_zero_iff.mp (by omega)
    exact .pure _

/-- The words that the arguments beyond the sixth and their pad take. -/
def stackArgWords (depth count : Nat) : List Held :=
  List.replicate (count - 6) .pushed ++ List.replicate (padSlots depth (count - 6)) .reserved

theorem stackArgWords_even (depth count : Nat) :
    (depth + (stackArgWords depth count).length) % 2 = 0 := by
  simp only [stackArgWords, padSlots, List.length_append, List.length_replicate]
  omega

theorem emits_pushManyArgs {args : List CallArg} (many : 6 < args.length)
    (h : ∀ arg ∈ args, GoodArg u arg) :
    Emits u b (argsCost u args) S (stackArgWords (b + S.length) args.length ++ S)
      (pushManyArgs args) := by
  have cost : argsCost u args =
      argsCost u (args.drop 6).reverse + argsCost u (args.take 6) := by
    have split := congrArg (argsCost u) (List.take_append_drop 6 args).symm
    simp only [argsCost, List.map_append, List.sum_append, List.map_reverse,
      List.sum_reverse] at split ⊢
    omega
  refine .get_bind fun cg depth _ => ?_
  rw [cost, depth]
  refine .seq (emits_reserveSome _) fun _ => ?_
  refine .bind (emits_pushArgs fun a ha => h a ?_) fun _ => ?_
  · exact List.mem_of_mem_drop (List.mem_reverse.mp ha)
  refine .tail (emits_pushArgs fun a ha => h a (List.mem_of_mem_take ha)) fun _ => ?_
  have six : (args.take 6).length = 6 := by
    rw [List.length_take]
    omega
  have rest : (args.drop 6).reverse.length = args.length - 6 := by simp
  rw [six, rest, stackArgWords, List.append_assoc]
  exact .seq (emits_popArgRegs 6) fun _ => .pure _

theorem pushManyArgs_slots {args : List CallArg} {cg cg' : CodeGen} {slots : Nat}
    (run : Yields (pushManyArgs args) cg slots cg') :
    slots = (stackArgWords cg.pushDepth args.length).length := by
  obtain ⟨_, _, hget, run⟩ := yields_bind.mp run
  obtain ⟨rfl, rfl⟩ := yields_get.mp hget
  obtain ⟨_, _, _, run⟩ := yields_bind.mp run
  obtain ⟨_, _, _, run⟩ := yields_bind.mp run
  obtain ⟨_, _, _, run⟩ := yields_bind.mp run
  obtain ⟨_, _, _, run⟩ := yields_bind.mp run
  obtain ⟨rfl, _⟩ := yields_pure.mp run
  simp [stackArgWords]

theorem emits_genScalarCall (name : String) (callee : Option FunctionSig) {args : List CallArg}
    (h : ∀ arg ∈ args, GoodArg u arg) :
    Emits u b (argsCost u args) S S (genScalarCall name callee args) := by
  unfold genScalarCall
  split
  · refine .tail (emits_pushArgs h) fun _ => ?_
    refine .seq (emits_popArgRegs _) fun _ => ?_
    exact emits_emitPaddedCall (by simp) rfl
  · refine .tail_of (emits_pushManyArgs (by omega) h)
      (fun cg a cg' depth run => depth ▸ pushManyArgs_slots run) fun slots hslots => ?_
    refine .seq (emits_emitAll (by simp)) fun _ => ?_
    refine .seq (emits_call rfl ?_) fun _ => emits_releaseSlots hslots
    have := stackArgWords_even (b + S.length) args.length
    rw [List.length_append]
    omega

def PlacedArg.memCost (u : CodeGen) (arg : PlacedArg) : Nat :=
  if arg.slot.mem then arg.value.cost u else 0

def PlacedArg.regCost (u : CodeGen) (arg : PlacedArg) : Nat :=
  if arg.slot.mem then 0 else arg.value.cost u

theorem emits_passOnStack {arg : PlacedArg} (h : GoodArg u arg.toCallArg) :
    Emits u b (arg.memCost u) S S (passOnStack arg) := by
  unfold passOnStack PlacedArg.memCost
  by_cases mem : arg.slot.mem = false
  · rw [if_pos mem]
    exact .pure _
  rw [if_neg mem, if_pos (eq_true_of_ne_false mem)]
  split
  · refine .tail h.value.struct fun st => ?_
    refine .seq (emits_emit rfl) fun _ => ?_
    refine .seq (emits_emit rfl) fun _ => ?_
    exact emits_emitAll (by simp)
  · exact .tail (emits_evalArg h) fun _ => emits_emitAll (by simp)

theorem emits_storeStackArgs {args : List PlacedArg} (h : ∀ a ∈ args, GoodArg u a.toCallArg) :
    Emits u b (args.map (PlacedArg.memCost u)).sum S S (storeStackArgs args) := by
  induction args with
  | nil => exact .pure _
  | cons arg args ih =>
    exact .bind (emits_passOnStack (h arg (by simp))) fun _ =>
      ih fun a ha => h a (List.mem_cons_of_mem _ ha)

/-- The words that one register argument spills. -/
def spilledWords (arg : PlacedArg) : List Held :=
  if arg.slot.mem then []
  else if arg.slot.isStruct then
    if arg.slot.gpCount = 2 then [.pushed, .pushed] else [.pushed]
  else match arg.slot.xmmIdx with
    | none => [.pushed]
    | some _ => [.reserved]

def spillWords : List PlacedArg → List Held
  | [] => []
  | arg :: args => spillWords args ++ spilledWords arg

theorem emits_spillXmm (isFloat : Bool) : Emits u b c S (.reserved :: S) (spillXmm isFloat) := by
  have reserve : spillXmm isFloat = reserveSlots 1 >>= fun _ =>
      emit (.fstore (if isFloat then .single else .double) (stackArg 0) 0) := by
    simp [spillXmm, reserveSlots, pushDepthInc, bind_assoc]
  rw [reserve]
  exact .seq (emits_reserveSlots 1) fun _ => emits_emit rfl

theorem emits_spillStruct {arg : PlacedArg} (h : Good u arg.value) :
    Emits u b (arg.value.cost u) S
      ((if arg.slot.gpCount = 2 then [.pushed, .pushed] else [.pushed]) ++ S)
      (spillStruct arg) := by
  refine .tail h.struct fun _ => ?_
  refine .seq (emits_emit rfl) fun _ => ?_
  refine .seq (emits_emit rfl) fun _ => ?_
  refine .seq (emits_pushReg .rax) fun _ => ?_
  split
  · refine .seq (emits_emit rfl) fun _ => ?_
    exact .seq (emits_pushReg .rax) fun _ => .pure _
  · exact .pure _

theorem emits_spillArg {arg : PlacedArg} (h : GoodArg u arg.toCallArg) :
    Emits u b (arg.regCost u) S (spilledWords arg ++ S) (spillArg arg) := by
  unfold spillArg spilledWords PlacedArg.regCost
  split
  · exact .pure _
  split
  · exact emits_spillStruct h.value
  · cases arg.slot.xmmIdx with
    | none =>
      refine .tail (emits_evalArg h) fun _ => ?_
      exact .seq (emits_pushReg .rax) fun _ => .pure _
    | some idx =>
      refine .tail (emits_evalArg h) fun _ => ?_
      refine .seq (emits_emitAll (by simp [Instr.keepsStack])) fun _ => ?_
      exact .seq (emits_spillXmm _) fun _ => .pure _

theorem spillArg_length {arg : PlacedArg} {cg cg' : CodeGen} {spills : List Spill}
    (run : Yields (spillArg arg) cg spills cg') : spills.length = (spilledWords arg).length := by
  unfold spillArg at run
  unfold spilledWords
  split at run
  · obtain ⟨rfl, _⟩ := yields_pure.mp run
    simp [*]
  split at run
  · obtain ⟨_, _, _, run⟩ := yields_bind.mp run
    obtain ⟨_, _, _, run⟩ := yields_bind.mp run
    obtain ⟨_, _, _, run⟩ := yields_bind.mp run
    obtain ⟨_, _, _, run⟩ := yields_bind.mp run
    split at run
    · obtain ⟨_, _, _, run⟩ := yields_bind.mp run
      obtain ⟨_, _, _, run⟩ := yields_bind.mp run
      obtain ⟨rfl, _⟩ := yields_pure.mp run
      simp [*]
    · obtain ⟨rfl, _⟩ := yields_pure.mp run
      simp [*]
  · split at run
    · obtain ⟨_, _, _, run⟩ := yields_bind.mp run
      obtain ⟨_, _, _, run⟩ := yields_bind.mp run
      obtain ⟨rfl, _⟩ := yields_pure.mp run
      simp [*]
    · obtain ⟨_, _, _, run⟩ := yields_bind.mp run
      obtain ⟨_, _, _, run⟩ := yields_bind.mp run
      obtain ⟨_, _, _, run⟩ := yields_bind.mp run
      obtain ⟨rfl, _⟩ := yields_pure.mp run
      simp [*]

theorem emits_spillRegArgs {args : List PlacedArg} (h : ∀ a ∈ args, GoodArg u a.toCallArg) :
    Emits u b (args.map (PlacedArg.regCost u)).sum S (spillWords args ++ S)
      (spillRegArgs args) := by
  induction args generalizing S with
  | nil => exact .pure _
  | cons arg args ih =>
    rw [spillWords, List.append_assoc]
    refine .bind (emits_spillArg (h arg (by simp))) fun spills => ?_
    exact .tail (ih fun a ha => h a (List.mem_cons_of_mem _ ha)) fun _ => .pure _

theorem spillRegArgs_length {args : List PlacedArg} {cg cg' : CodeGen} {spills : List Spill}
    (run : Yields (spillRegArgs args) cg spills cg') :
    spills.length = (spillWords args).length := by
  induction args generalizing cg spills with
  | nil =>
    obtain ⟨rfl, _⟩ := yields_pure.mp run
    rfl
  | cons arg args ih =>
    obtain ⟨first, _, hfirst, run⟩ := yields_bind.mp run
    obtain ⟨rest, _, hrest, run⟩ := yields_bind.mp run
    obtain ⟨rfl, rfl⟩ := yields_pure.mp run
    rw [spillWords, List.length_append, List.length_append, spillArg_length hfirst, ih hrest]
    omega

theorem emits_restoreSpills {T : List Held} {spills : List Spill}
    (count : spills.length = T.length) : Emits u b c (T ++ S) S (restoreSpills spills) :=
  .seq (emits_emitAll (by simp)) fun _ => emits_releaseSome count

theorem outgoingSlots_even (depth stackBytes : Nat) :
    (depth + outgoingSlots depth stackBytes) % 2 = 0 := by
  unfold outgoingSlots
  dsimp only
  split <;> omega

theorem emits_spillSret (sret : Bool) (retTemp : Nat) :
    Emits u b c S ((if sret then [.pushed] else []) ++ S) (spillSret sret retTemp) := by
  unfold spillSret
  split
  · refine .seq (emits_emit rfl) fun _ => ?_
    exact .seq (emits_pushReg .rax) fun _ => .pure _
  · exact .pure _

theorem spillSret_length {sret : Bool} {retTemp : Nat} {cg cg' : CodeGen} {spills : List Spill}
    (run : Yields (spillSret sret retTemp) cg spills cg') :
    spills.length = (if sret then [Held.pushed] else []).length := by
  unfold spillSret at run
  split at run
  · obtain ⟨_, _, _, run⟩ := yields_bind.mp run
    obtain ⟨_, _, _, run⟩ := yields_bind.mp run
    obtain ⟨rfl, _⟩ := yields_pure.mp run
    simp [*]
  · obtain ⟨rfl, _⟩ := yields_pure.mp run
    simp [*]

def placedCost (u : CodeGen) (args : List PlacedArg) : Nat :=
  (args.map fun arg => arg.value.cost u).sum

theorem placedCost_eq (args : List PlacedArg) : placedCost u args =
    (args.map (PlacedArg.memCost u)).sum + (args.map (PlacedArg.regCost u)).sum := by
  induction args with
  | nil => rfl
  | cons arg args ih =>
    have parts : arg.value.cost u = arg.memCost u + arg.regCost u := by
      unfold PlacedArg.memCost PlacedArg.regCost
      split <;> omega
    simp only [placedCost, List.map_cons, List.sum_cons] at ih ⊢
    omega

theorem emits_emitLayoutCall {slots : Nat} {args : List PlacedArg} (sret : Bool) (retTemp : Nat)
    {setup : List Asm} {call : Asm} (h : ∀ a ∈ args, GoodArg u a.toCallArg)
    (even : (b + S.length + slots) % 2 = 0) (plain : Plain setup) (hcall : isCall call = true) :
    Emits u b (placedCost u args) S S (emitLayoutCall slots args sret retTemp setup call) := by
  rw [placedCost_eq]
  refine .seq (emits_reserveSome slots) fun _ => ?_
  refine .bind (emits_storeStackArgs h) fun _ => ?_
  refine .seq_of (emits_spillSret sret retTemp) (fun _ _ _ _ run => spillSret_length run)
    fun sretSpill hsret => ?_
  refine .tail_of (emits_spillRegArgs h) (fun _ _ _ _ run => spillRegArgs_length run)
    fun spills hspills => ?_
  rw [← List.append_assoc]
  refine .seq (emits_restoreSpills ?_) fun _ => ?_
  · rw [List.length_append, List.length_append, hsret, hspills]
    omega
  refine .seq (emits_emitAll plain) fun _ => ?_
  refine .seq (emits_call hcall ?_) fun _ => emits_releaseSome (by simp)
  rw [List.length_append, List.length_replicate]
  omega

theorem zip_values_sublist (args : List CallArg) (slots : List (ArgSlot × TypeKind)) :
    ((args.zip slots).map Prod.fst).Sublist args := by
  induction args generalizing slots with
  | nil => simp
  | cons arg args ih =>
    cases slots with
    | nil => simp
    | cons slot slots => simpa using (ih slots).cons_cons arg

theorem placeCallArgs_values (callee : Option FunctionSig) (args : List CallArg)
    (slots : List ArgSlot) (actual : List TypeKind) :
    ((placeCallArgs callee args slots actual).map PlacedArg.toCallArg).Sublist args := by
  have values : (placeCallArgs callee args slots actual).map PlacedArg.toCallArg =
      (args.zip (slots.zip actual)).map Prod.fst := by
    rw [placeCallArgs, List.map_map]
    rfl
  rw [values]
  exact zip_values_sublist args _

theorem argsCost_le_of_sublist {args args' : List CallArg} (h : args.Sublist args') :
    argsCost u args ≤ argsCost u args' := by
  induction h with
  | slnil => rfl
  | cons a _ ih =>
    simp only [argsCost, List.map_cons, List.sum_cons] at ih ⊢
    omega
  | cons_cons a _ ih =>
    simp only [argsCost, List.map_cons, List.sum_cons] at ih ⊢
    omega

theorem placedCost_le {placed : List PlacedArg} {args : List CallArg}
    (h : (placed.map PlacedArg.toCallArg).Sublist args) : placedCost u placed ≤ argsCost u args := by
  have := argsCost_le_of_sublist (u := u) h
  rwa [argsCost, List.map_map] at this

theorem goodArg_of_sublist {placed : List PlacedArg} {args : List CallArg}
    (h : (placed.map PlacedArg.toCallArg).Sublist args) (good : ∀ arg ∈ args, GoodArg u arg) :
    ∀ p ∈ placed, GoodArg u p.toCallArg :=
  fun _ hp => good _ (h.subset (List.mem_map_of_mem hp))

theorem goodArg_calleeArgs (name : String) (callee : Option FunctionSig) {args : List ExprGen}
    (h : ∀ a ∈ args, Good u a) : ∀ arg ∈ calleeArgs name callee args, GoodArg u arg := by
  intro arg harg
  obtain ⟨⟨g, i⟩, hg, rfl⟩ := List.mem_map.mp harg
  exact ⟨h g (List.fst_mem_of_mem_zipIdx hg), fun a => neutral_argConvert _ _ _ _⟩

theorem argsCost_calleeArgs (name : String) (callee : Option FunctionSig) (args : List ExprGen) :
    argsCost u (calleeArgs name callee args) = itemsCost u args := by
  have values : (calleeArgs name callee args).map CallArg.value = args := by
    rw [calleeArgs, List.map_map]
    exact List.zipIdx_map_fst _ _
  have cost : argsCost u (calleeArgs name callee args) =
      itemsCost u ((calleeArgs name callee args).map CallArg.value) := by
    rw [argsCost, itemsCost, List.map_map]
    rfl
  rw [cost, values]

/-- What `compute_struct_ret_bytes` reserves for a call of `name`. -/
def callBytes (u : CodeGen) (name : String) : Nat :=
  structRetBytes u (.functionCall name .void [])

/-- What the call really takes. -/
def resultBytes (ret : Option CType) : Nat := ret.elim 0 fun t => alignUp t.size 8

theorem emits_claimResult_bind (ret : Option CType) {k : Nat → Gen α}
    (rest : ∀ temp, Emits u b c S S (k temp)) :
    Emits u b (resultBytes ret + c) S S (claimResult ret >>= k) := by
  cases ret with
  | none =>
    rw [show resultBytes none = 0 from rfl, Nat.zero_add]
    exact .seq (.pure 0) rest
  | some t => exact .claim_bind rest

theorem calleeStructType_bytes {name : String} {cg cg' : CodeGen} {ret : Option CType}
    (run : Yields (calleeStructType (u.findFunctionDecl name)) cg ret cg') :
    resultBytes ret ≤ callBytes u name := by
  unfold calleeStructType at run
  unfold callBytes structRetBytes
  split at run
  next none =>
    obtain ⟨rfl, _⟩ := yields_pure.mp run
    exact Nat.zero_le _
  next f hf =>
    split at run
    next isRecord =>
      obtain ⟨t, _, ht, run⟩ := yields_bind.mp run
      obtain ⟨rfl, _⟩ := yields_pure.mp run
      have type : f.fullType = some t := by
        cases h : f.fullType with
        | none =>
          rw [h] at ht
          exact absurd ht yields_throw
        | some t' =>
          rw [h] at ht
          rw [(yields_pure.mp ht).1]
      simp [hf, recordType, isRecord, type, resultBytes]
    next =>
      obtain ⟨rfl, _⟩ := yields_pure.mp run
      exact Nat.zero_le _

theorem neutral_calleeStructType (callee : Option FunctionSig) :
    Neutral u c (calleeStructType callee) := by
  intro b
  unfold calleeStructType
  split
  · exact .pure _
  · split
    · exact .seq (neutral_nonNull _).emits fun _ => .pure _
    · exact .pure _

theorem emits_genSpecialCall (name : String) (declType : TypeKind) {args : List ExprGen}
    (h : ∀ a ∈ args, Good u a) :
    Emits u b (callBytes u name + itemsCost u args) S S
      (genSpecialCall name declType (u.findFunctionDecl name) args) := by
  refine .get_bind fun cg depth _ => ?_
  refine .seq (.lift _) fun actual => ?_
  refine .seq (.errorIf _ _) fun _ => ?_
  refine .seq_of (neutral_calleeStructType _).emits
    (fun _ _ _ _ run => calleeStructType_bytes run) fun ret hret => ?_
  refine .mono (emits_claimResult_bind ret fun temp => ?_)
    (Nat.add_le_add_right hret _)
  have values := placeCallArgs_values (u.findFunctionDecl name)
    (calleeArgs name (u.findFunctionDecl name) args)
  refine .tail (.mono (emits_emitLayoutCall _ _ (goodArg_of_sublist (values _ _) ?_) ?_ ?_ rfl)
    ?_) fun _ => ?_
  · exact goodArg_calleeArgs _ _ h
  · rw [depth]
    exact outgoingSlots_even _ _
  · simp [movImm, Instr.keepsStack, Reg.isStack]
  · rw [← argsCost_calleeArgs name (u.findFunctionDecl name)]
    exact placedCost_le (values _ _)
  · cases ret with
    | some t => exact .seq (emits_emitAll (by simp)) fun _ => .pure _
    | none => exact .pure _

theorem findFunctionDecl_of_functions {cg : CodeGen} (h : cg.functions = u.functions)
    (name : String) : cg.findFunctionDecl name = u.findFunctionDecl name := by
  rw [CodeGen.findFunctionDecl, CodeGen.findFunctionDecl, h]

theorem emits_genFunctionCall (name : String) (declType : TypeKind) {args : List ExprGen}
    (h : ∀ a ∈ args, Good u a) :
    Emits u b (callBytes u name + itemsCost u args) S S
      (genFunctionCall name declType args) := by
  refine .get_bind fun cg depth fns => ?_
  dsimp only
  rw [findFunctionDecl_of_functions fns]
  refine .seq (.lift _) fun special => ?_
  split
  · exact emits_genSpecialCall name declType h
  · have scalar := emits_genScalarCall (b := b) (S := S) name (u.findFunctionDecl name)
      (goodArg_calleeArgs name (u.findFunctionDecl name) h)
    rw [argsCost_calleeArgs] at scalar
    exact .tail (scalar.mono (Nat.le_add_left _ _)) fun _ => .pure _

theorem goodArg_indirectArgs (params : List CType) {args : List ExprGen}
    (h : ∀ a ∈ args, Good u a) : ∀ arg ∈ indirectArgs params args, GoodArg u arg := by
  intro arg harg
  obtain ⟨⟨⟨g, p⟩, i⟩, hg, rfl⟩ := List.mem_map.mp harg
  exact ⟨h g (List.of_mem_zip (List.fst_mem_of_mem_zipIdx hg)).1,
    fun a => neutral_indirectArgConvert _ _ _⟩

theorem itemsCost_zip_le (args : List ExprGen) (params : List CType) :
    itemsCost u ((args.zip params).map Prod.fst) ≤ itemsCost u args := by
  induction args generalizing params with
  | nil => simp
  | cons arg args ih =>
    cases params with
    | nil => simp [itemsCost]
    | cons param params =>
      have := ih params
      simp only [itemsCost, List.zip_cons_cons, List.map_cons, List.sum_cons] at this ⊢
      omega

theorem argsCost_indirectArgs_le (params : List CType) (args : List ExprGen) :
    argsCost u (indirectArgs params args) ≤ itemsCost u args := by
  have values : (indirectArgs params args).map CallArg.value =
      (args.zip params).map Prod.fst := by
    rw [indirectArgs, List.map_map]
    have fst := congrArg (List.map Prod.fst) (List.zipIdx_map_fst 0 (args.zip params))
    rwa [List.map_map] at fst
  have cost : argsCost u (indirectArgs params args) =
      itemsCost u ((indirectArgs params args).map CallArg.value) := by
    rw [argsCost, itemsCost, List.map_map]
    rfl
  rw [cost, values]
  exact itemsCost_zip_le args params

theorem emits_genIndirectScalarCall {args : List CallArg} (h : ∀ arg ∈ args, GoodArg u arg) :
    Emits u b (argsCost u args) (.pushed :: S) S (genIndirectScalarCall args) := by
  unfold genIndirectScalarCall
  split
  · refine .tail (emits_pushArgs h) fun _ => ?_
    refine .seq (emits_popArgRegs _) fun _ => ?_
    refine .seq (emits_popReg rfl) fun _ => ?_
    exact emits_emitPaddedCall (by simp) rfl
  · refine .tail_of (emits_pushManyArgs (by omega) h)
      (fun cg a cg' depth run => depth ▸ pushManyArgs_slots run) fun slots hslots => ?_
    refine .seq (emits_emit rfl) fun _ => ?_
    refine .seq (emits_call rfl ?_) fun _ => ?_
    · have := stackArgWords_even (b + (Held.pushed :: S).length) args.length
      rw [List.length_append]
      omega
    · rw [List.append_cons]
      refine emits_releaseSlots ?_
      rw [hslots, List.length_append]
      rfl

theorem zip_placed_values (args : List CallArg) (slots : List ArgSlot) :
    (((args.zip slots).map fun (arg, slot) =>
      ({ toCallArg := arg, slot, promote := false } : PlacedArg)).map
        PlacedArg.toCallArg).Sublist args := by
  induction args generalizing slots with
  | nil => simp
  | cons arg args ih =>
    cases slots with
    | nil => simp
    | cons slot slots => simpa using (ih slots).cons_cons arg

theorem emits_genIndirectLayoutCall (params : List CType) {args : List CallArg}
    (h : ∀ arg ∈ args, GoodArg u arg) :
    Emits u b (argsCost u args) (.pushed :: S) S (genIndirectLayoutCall params args) := by
  refine .get_bind fun cg depth _ => ?_
  dsimp only
  have even := outgoingSlots_even cg.pushDepth
    (computeCallLayout false (params.map indirectArgClass)).stackBytes
  rw [depth] at even ⊢
  have values := zip_placed_values args
    (computeCallLayout false (params.map indirectArgClass)).items
  have good := goodArg_of_sublist values h
  refine .mono ?_ (placedCost_le values)
  rw [placedCost_eq]
  refine .seq (emits_reserveSome _) fun _ => ?_
  refine .bind (emits_storeStackArgs good) fun _ => ?_
  refine .tail_of (emits_spillRegArgs good) (fun _ _ _ _ run => spillRegArgs_length run)
    fun spills hspills => ?_
  refine .seq (emits_restoreSpills hspills) fun _ => ?_
  refine .seq (emits_emit rfl) fun _ => ?_
  refine .seq (emits_call rfl ?_) fun _ => ?_
  · rw [List.length_append, List.length_replicate]
    omega
  · rw [List.append_cons]
    exact emits_releaseSlots (by simp)

theorem emits_checkKnownCallee (cg : CodeGen) (node : Expr) :
    Emits u b c S S (checkKnownCallee cg node) := by
  unfold checkKnownCallee
  split
  · exact .errorIf _ _
  · exact .pure _

theorem emits_genIndirectCall {callee : ExprGen} {args : List ExprGen} (hc : Good u callee)
    (h : ∀ a ∈ args, Good u a) :
    Emits u b (callee.cost u + itemsCost u args) S S (genIndirectCall callee args) := by
  refine .get_bind fun cg depth _ => ?_
  refine .seq (emits_checkKnownCallee _ _) fun _ => ?_
  refine .bind hc.value fun a => ?_
  split
  next ret params _ _ =>
    refine .seq (.errorIf _ _) fun _ => ?_
    refine .seq (emits_pushReg .rax) fun _ => ?_
    have good := goodArg_indirectArgs params h
    have le := argsCost_indirectArgs_le (u := u) params args
    split
    · exact .tail ((emits_genIndirectLayoutCall params good).mono le) fun _ => .pure _
    · exact .tail ((emits_genIndirectScalarCall good).mono le) fun _ => .pure _
  next => exact .throw _

end ClaudeC99
