import ClaudeC99.Stack.Calls

/-! Every expression's code leaves the stack as it found it. -/

namespace ClaudeC99

open X86 StateExcept

variable {u : CodeGen} {b c id : Nat} {S : List Held} {g : ExprGen} {α : Type}

theorem emits_vaListLocal (ap : Expr) (message : String) :
    Emits u b c S S (vaListLocal ap message) := by
  refine .get_bind fun cg _ _ => ?_
  split
  · exact .pure _
  · exact .throw _

theorem emits_genVaStart (ap : Expr) : Emits u b c S S (genVaStart ap) := by
  refine .seq (emits_vaListLocal _ _) fun lv => ?_
  refine .get_bind fun cg _ _ => ?_
  refine .seq (emits_emitAll ?_) fun _ => .pure _
  simp [storeFrame, Instr.keepsStack, Reg.isStack]

theorem emits_genVaCopy (dst src : Expr) : Emits u b c S S (genVaCopy dst src) := by
  refine .seq (emits_vaListLocal _ _) fun d => ?_
  refine .seq (emits_vaListLocal _ _) fun s => ?_
  refine .seq (emits_emitAll ?_) fun _ => .pure _
  simp [loadFrame, storeFrame, movMem, Instr.keepsStack, Reg.isStack]

theorem emits_checkVaArgType (type : CType) : Emits u b c S S (checkVaArgType type) := by
  unfold checkVaArgType
  split
  all_goals first | exact .throw _ | exact .errorIf _ _ | exact .pure _

theorem emitsFrom_emitVaPaths (exhausted : Cond) {join : LabelKind} {test reg overflow : List Asm}
    (distinct : .vaArgOvf ≠ join) (htest : Plain test) (hreg : Plain reg)
    (hoverflow : Plain overflow) :
    EmitsFrom u b c id S S (emitVaPaths id exhausted join test reg overflow) := by
  have free {is : List Asm} (plain : Plain is) : Emits u (b + S.length) 0 [] [] (emitAll is) :=
    emits_emitAll plain
  have paths : EmitsFrom u b 0 id S S
      (emitBranch exhausted .vaArgOvf join id (emitAll test) (emitAll reg) (emitAll overflow)) :=
    .branch (free htest) (free hreg) (free hoverflow) fun _ _ _ _ _ _ => .vaArg distinct
  exact .mono (.tail paths fun _ => .pure _) (Nat.zero_le c)

theorem emitsFrom_genVaArgDouble (off : Int) :
    EmitsFrom u b c id S S (genVaArgDouble off id) := by
  refine emitsFrom_emitVaPaths _ (by decide) ?_ ?_ ?_ <;>
    simp [loadFrame, movMem, aluImm, aluReg, Instr.keepsStack, Reg.isStack]

theorem emitsFrom_fetchVaStruct (off tempOff : Int) (size : Nat) :
    EmitsFrom u b 0 id S S (fetchVaStruct off tempOff id size) := by
  unfold fetchVaStruct
  split
  · refine .of_emits (emits_emitAll ?_)
    simp [loadFrame, storeFrame, movMem, movReg, Instr.keepsStack, Reg.isStack]
  · refine .tail (emitsFrom_emitVaPaths _ (by decide) ?_ ?_ (by simp)) fun _ =>
      emits_emitAll ?_ <;>
    simp [loadFrame, storeFrame, movMem, aluImm, Instr.keepsStack, Reg.isStack]
  · refine emitsFrom_emitVaPaths _ (by decide) ?_ ?_ ?_ <;>
    simp [loadFrame, storeFrame, movMem, aluImm, aluReg, Instr.keepsStack, Reg.isStack]

theorem emitsFrom_genVaArgStruct (off : Int) (type : CType) :
    EmitsFrom u b (alignUp type.size 8) id S S (genVaArgStruct off id type) :=
  .claim_bind fun _ => .tail (emitsFrom_fetchVaStruct _ _ _) fun _ => emits_emit rfl

theorem emitsFrom_genVaArgGeneral (off : Int) (type : CType) :
    EmitsFrom u b c id S S (genVaArgGeneral off id type) := by
  refine .tail (emitsFrom_emitVaPaths _ (by decide) ?_ ?_ (by simp)) fun _ => ?_
  · simp [loadFrame, movMem, aluImm, Instr.keepsStack, Reg.isStack]
  · simp [loadFrame, storeFrame, movMem, aluImm, Instr.keepsStack, Reg.isStack]
  · split
    all_goals first | exact emits_emit rfl | exact .throw _

/-- What `compute_struct_ret_bytes` reserves for a `va_arg`. -/
def vaArgBytes (u : CodeGen) (type : CType) : Nat :=
  structRetBytes u (.vaArg (.varRef "") type)

theorem emits_genVaArg (ap : Expr) (type : CType) :
    Emits u b (vaArgBytes u type) S S (genVaArg ap type) := by
  refine .seq (emits_checkVaArgType _) fun _ => ?_
  refine .seq (emits_vaListLocal _ _) fun lv => ?_
  refine .newLabel_bind fun id => ?_
  split
  · exact .tail (emitsFrom_genVaArgDouble _) fun _ => .pure _
  split
  next isRecord =>
    refine .tail ((emitsFrom_genVaArgStruct _ _).mono ?_) fun _ => .pure _
    by_cases empty : type.size = 0
    · simp [empty, alignUp, Bump.roundUp]
    · have reserved : vaArgBytes u type = alignUp type.size 8 + 8 :=
        if_pos ⟨isRecord, Nat.pos_of_ne_zero empty⟩
      omega
  · exact .tail (emitsFrom_genVaArgGeneral _ _) fun _ => .pure _

theorem emits_initElement (elemType : CType) (offset : Int) (h : Good u g) :
    Emits u b (g.cost u) S S (initElement elemType offset g) := by
  unfold initElement
  split
  · exact h.structInit _ _
  split
  · exact h.arrayInit _ _
  · refine .tail h.value fun a => ?_
    split
    · exact .seq (emits_emitAll (by simp)) fun _ => emits_emit rfl
    · exact emits_emitAll (by simp)

/-- The value that an item of a brace list gives, and its budget. -/
def ItemValue (u : CodeGen) (child value : ExprGen) : Prop :=
  Good u value ∧ value.cost u ≤ child.cost u

theorem itemValue_head {child value : ExprGen} {rest : List ExprGen} (h : Good u child)
    (first : child.children = value :: rest) : ItemValue u child value := by
  refine ⟨h.children value (by simp [first]), ?_⟩
  have := h.childCost
  rw [first, itemsCost, List.map_cons, List.sum_cons] at this
  omega

theorem neutral_arrayItem (length cur : Nat) (child : ExprGen) :
    Neutral u c (arrayItem length cur child) := by
  intro b
  unfold arrayItem
  split
  · split
    · exact .throw _
    · exact .pure _
  · exact .throw _
  · exact .pure _

theorem arrayItem_value {length cur : Nat} {child : ExprGen} {cg cg' : CodeGen}
    {item : Nat × ExprGen} (h : Good u child)
    (run : Yields (arrayItem length cur child) cg item cg') : ItemValue u child item.2 := by
  unfold arrayItem at run
  split at run
  next value rest _ first =>
    split at run
    · exact absurd run yields_throw
    · obtain ⟨rfl, _⟩ := yields_pure.mp run
      exact itemValue_head h first
  · exact absurd run yields_throw
  · obtain ⟨rfl, _⟩ := yields_pure.mp run
    exact ⟨h, Nat.le_refl _⟩

theorem emits_initArray (elemType : CType) (length : Nat) (tooMany : String) (offset : Int)
    {items : List ExprGen} (h : ∀ item ∈ items, Good u item) (cur : Nat) :
    Emits u b (itemsCost u items) S S (initArray elemType length tooMany offset cur items) := by
  induction items generalizing cur with
  | nil => exact .pure _
  | cons child rest ih =>
    have hchild := h child (by simp)
    have tail := fun cur => ih (fun item hi => h item (List.mem_cons_of_mem _ hi)) cur
    refine .seq_of (neutral_arrayItem _ _ _).emits
      (fun _ _ _ _ run => arrayItem_value hchild run) fun (idx, value) ⟨good, le⟩ => ?_
    refine .seq (.errorIf _ _) fun _ => ?_
    exact .bind ((emits_initElement _ _ good).mono le) fun _ => tail _

theorem emits_emitLocalArrayInit (arrType : CType) (offset : Int) {items : List ExprGen}
    (h : ∀ item ∈ items, Good u item) :
    Emits u b (itemsCost u items) S S (emitLocalArrayInit arrType offset items) := by
  unfold emitLocalArrayInit
  split
  · exact emits_initArray _ _ _ _ h _
  · exact .throw _

theorem emits_initField (f : StructField) (offset : Int) (h : Good u g) :
    Emits u b (g.cost u) S S (initField f offset g) := by
  unfold initField
  split
  · exact h.structInit _ _
  · exact emits_emitAll (by simp)
  · refine .tail h.value fun a => ?_
    exact .seq (.errorIf _ _) fun _ => emits_emitAll (by simp [emitStoreLocal])
  · refine .seq (.errorIf _ _) fun _ => ?_
    exact .tail h.value fun a => emits_emitAll (by simp)

theorem neutral_fieldItem (fields : List StructField) (cur : Nat) (child : ExprGen) :
    Neutral u c (fieldItem fields cur child) := by
  intro b
  unfold fieldItem
  split
  · split
    · exact .pure _
    · exact .throw _
  · exact .throw _
  · exact .pure _

theorem fieldItem_value {fields : List StructField} {cur : Nat} {child : ExprGen}
    {cg cg' : CodeGen} {item : Nat × ExprGen} (h : Good u child)
    (run : Yields (fieldItem fields cur child) cg item cg') : ItemValue u child item.2 := by
  unfold fieldItem at run
  split at run
  next name value rest _ first =>
    split at run
    · obtain ⟨rfl, _⟩ := yields_pure.mp run
      exact itemValue_head h first
    · exact absurd run yields_throw
  · exact absurd run yields_throw
  · obtain ⟨rfl, _⟩ := yields_pure.mp run
    exact ⟨h, Nat.le_refl _⟩

theorem emits_initFields (fields : List StructField) (offset : Int) {items : List ExprGen}
    (h : ∀ item ∈ items, Good u item) (cur : Nat) :
    Emits u b (itemsCost u items) S S (initFields fields offset cur items) := by
  induction items generalizing cur with
  | nil => exact .pure _
  | cons child rest ih =>
    have hchild := h child (by simp)
    have tail := fun cur => ih (fun item hi => h item (List.mem_cons_of_mem _ hi)) cur
    refine .seq_of (neutral_fieldItem _ _ _).emits
      (fun _ _ _ _ run => fieldItem_value hchild run) fun (idx, value) ⟨good, le⟩ => ?_
    dsimp only
    split
    · exact .throw _
    · exact .bind ((emits_initField _ _ good).mono le) fun _ => tail _

theorem emits_emitLocalStructInit (st : CType) (offset : Int) {items : List ExprGen}
    (h : ∀ item ∈ items, Good u item) :
    Emits u b (itemsCost u items) S S (emitLocalStructInit st offset items) :=
  .get_bind fun _ _ _ => emits_initFields _ _ h _

theorem emits_initUnionMember (f : StructField) (offset : Int) (h : Good u g) :
    Emits u b (g.cost u) S S (initUnionMember f offset g) :=
  .tail h.value fun _ => emits_emitAll (by simp)

theorem emits_initUnionLiteral (st : CType) (offset : Int) {items : List ExprGen}
    (h : ∀ item ∈ items, Good u item) :
    Emits u b (itemsCost u items) S S (initUnionLiteral st offset items) := by
  refine .get_bind fun cg _ _ => ?_
  split
  · exact .pure _
  · exact .throw _
  next child rest f fs _ =>
    have hchild := h child (by simp)
    have le : child.cost u ≤ itemsCost u (child :: rest) := by
      rw [itemsCost, List.map_cons, List.sum_cons]
      exact Nat.le_add_right _ _
    split
    next name value _ _ first =>
      split
      · obtain ⟨good, cheap⟩ := itemValue_head hchild first
        exact (emits_initUnionMember _ _ good).mono (cheap.trans le)
      · exact .throw _
    · exact .throw _
    · exact (emits_initUnionMember _ _ hchild).mono le

theorem emits_genRecordLiteral (declType : TypeKind) (st : CType) (slot : Nat) (h : Good u g) :
    Emits u b (g.cost u) S S (genRecordLiteral declType st slot g) := by
  refine .seq (emits_emitAll (by simp)) fun _ => ?_
  refine .tail ?_ fun _ => .seq (emits_emit rfl) fun _ => .pure _
  unfold initRecordLiteral
  split
  · exact (emits_initUnionLiteral _ _ h.children).mono h.childCost
  · exact h.structInit _ _

theorem emits_genArrayLiteral (arrType : CType) (slot : Nat) (h : Good u g) :
    Emits u b (g.cost u) S S (genArrayLiteral arrType slot g) := by
  unfold genArrayLiteral
  split
  · refine .seq (emits_emitAll (by simp)) fun _ => ?_
    refine .tail ((emits_initArray _ _ _ _ h.children _).mono h.childCost) fun _ => ?_
    exact .seq (emits_emit rfl) fun _ => .pure _
  · exact .throw _

theorem emits_genCompoundLiteral (declType : TypeKind) (fullType : Option CType) (slot : Nat)
    (h : Good u g) :
    Emits u b (g.cost u) S S (genCompoundLiteral declType fullType slot g) := by
  refine .seq (.errorIf _ _) fun _ => ?_
  split
  · exact .seq (neutral_nonNull _).emits fun st => emits_genRecordLiteral _ _ _ h
  split
  · exact .seq (neutral_nonNull _).emits fun t => emits_genArrayLiteral _ _ h
  · refine .tail h.value fun _ => ?_
    exact .seq (emits_emitAll (by simp [emitStoreLocal])) fun _ => .pure _

theorem emits_genIntLiteral (value : NumText) (declType : TypeKind) (isUnsigned : Bool) :
    Emits u b c S S (genIntLiteral value declType isUnsigned) := by
  unfold genIntLiteral
  split
  all_goals exact .seq (emits_emit rfl) fun _ => .pure _

theorem emits_codegenInternFpLiteral (text : String) (kind : TypeKind) :
    Emits u b c S S (codegenInternFpLiteral text kind) := by
  intro cg i cg' depth _ run
  obtain ⟨_, _, hget, run⟩ := yields_bind.mp run
  obtain ⟨rfl, rfl⟩ := yields_get.mp hget
  split at run
  · obtain ⟨_, rfl⟩ := yields_pure.mp run
    exact .tables depth cg.stringPool cg.fpLiterals
  · obtain ⟨_, _, hset, run⟩ := yields_bind.mp run
    obtain rfl := yields_set.mp hset
    obtain ⟨_, rfl⟩ := yields_pure.mp run
    exact .tables depth cg.stringPool _

theorem emits_genFloatLiteral (text : String) (declType : TypeKind) :
    Emits u b c S S (genFloatLiteral text declType) := by
  refine .seq (emits_codegenInternFpLiteral _ _) fun idx => ?_
  exact .seq (emits_emit rfl) fun _ => .pure _

theorem emits_genStringLiteral (bytes : List UInt8) :
    Emits u b c S S (genStringLiteral bytes) := by
  intro cg a cg' depth fns run
  obtain ⟨_, _, hget, run⟩ := yields_bind.mp run
  obtain ⟨rfl, rfl⟩ := yields_get.mp hget
  obtain ⟨_, _, hset, run⟩ := yields_bind.mp run
  obtain rfl := yields_set.mp hset
  have lea : Emits u b c S S (do
      emit (.lea .rax (rel (.string cg.stringPool.length)))
      pure (Ann.pointerTo .typeChar)) := .seq (emits_emit rfl) fun _ => .pure _
  have pooled : Extends b 0 cg.labelCount S S cg
      { cg with stringPool := cg.stringPool ++ [bytes] } := .tables depth _ cg.fpLiterals
  exact (pooled.trans (lea _ a cg' depth fns run)).mono (Nat.zero_add c).le

theorem emits_genVarLoad (kind : TypeKind) (fullType : Option CType) (size : Nat)
    (isUnsigned : Bool) (a : Address) {load : List Asm} (plain : Plain load) :
    Emits u b c S S (genVarLoad kind fullType size isUnsigned a load) := by
  unfold genVarLoad
  split
  · refine .seq (neutral_nonNull _).emits fun _ => ?_
    exact .seq (emits_emit rfl) fun _ => .pure _
  split
  · exact .seq (emits_emit rfl) fun _ => .pure _
  · refine .seq (emits_emitAll plain) fun _ => ?_
    split
    · exact .pure _
    · exact .pure _

theorem emits_genVarRef (name : String) : Emits u b c S S (genVarRef name) := by
  refine .get_bind fun cg _ _ => ?_
  split
  · exact emits_genVarLoad _ _ _ _ _ (by simp)
  · split
    · exact emits_genVarLoad _ _ _ _ _ (by simp [emitLoadGlobal])
    · split
      · exact .seq (emits_emit rfl) fun _ => .pure _
      · exact .throw _

theorem neutral_notAnAddress : Neutral u c (notAnAddress : Gen α) := fun _ => .throw _

theorem neutral_noCode : Neutral u c noCode := fun _ => .pure _

theorem good_ofValue {node : Expr} {children : List ExprGen} {gen : Gen Ann}
    (hchildren : ∀ g ∈ children, Good u g)
    (cost : itemsCost u children ≤ node.total (structRetBytes u))
    (value : Neutral u (node.total (structRetBytes u)) gen) :
    Good u (.ofValue node children gen) :=
  .mk hchildren cost value neutral_notAnAddress neutral_notAnAddress neutral_notAnAddress
    (fun b => emits_emitStructAddr node (value b) (neutral_notAnAddress b) (neutral_notAnAddress b)
      (neutral_notAnAddress b) (neutral_notAnAddress b))
    (fun _ _ => neutral_notAnAddress) (fun _ _ => neutral_notAnAddress)

section addresses

variable {base idx operand : ExprGen}

theorem itemsCost_singleton (g : ExprGen) : itemsCost u [g] = g.cost u := by
  simp [itemsCost]

theorem good_ofArrayIndex (hb : Good u base) (hi : Good u idx) :
    Good u (.ofArrayIndex base idx) := by
  have cost : (ExprGen.ofArrayIndex base idx).cost u = base.cost u + idx.cost u := by
    simp [ExprGen.cost, ExprGen.ofArrayIndex, ExprGen.ofValue, Expr.total, structRetBytes]
  have addr : Neutral u ((ExprGen.ofArrayIndex base idx).cost u) (emitArrayIndexAddr base idx) :=
    fun b => cost ▸ emits_emitArrayIndexAddr hb hi
  refine .mk ?_ ?_ (fun b => emits_genArrayIndex (addr b)) addr neutral_notAnAddress
    neutral_notAnAddress (fun b => emits_emitStructAddr (.arrayIndex base.node idx.node) (neutral_notAnAddress b) (addr b)
      (neutral_notAnAddress b) (neutral_notAnAddress b) (neutral_notAnAddress b))
    (fun _ _ => neutral_notAnAddress) (fun _ _ => neutral_notAnAddress)
  · intro g hg
    simp only [ExprGen.ofArrayIndex, ExprGen.ofValue, List.mem_cons, List.not_mem_nil,
      or_false] at hg
    rcases hg with rfl | rfl
    · exact hb
    · exact hi
  · rw [cost]
    simp [ExprGen.ofArrayIndex, ExprGen.ofValue, itemsCost]

theorem good_ofMemberAccess (hb : Good u base) (field : String) :
    Good u (.ofMemberAccess base field) := by
  have cost : (ExprGen.ofMemberAccess base field).cost u = base.cost u := by
    simp [ExprGen.cost, ExprGen.ofMemberAccess, ExprGen.ofValue, Expr.total, structRetBytes]
  have addr : Neutral u ((ExprGen.ofMemberAccess base field).cost u) (emitMemberAddr base field) :=
    fun b => cost ▸ emits_emitMemberAddr hb field
  refine .mk ?_ ?_ (fun b => emits_genMemberRead (addr b)) neutral_notAnAddress addr
    neutral_notAnAddress (fun b => emits_emitStructAddr (.memberAccess base.node field) (neutral_notAnAddress b)
      (neutral_notAnAddress b) (addr b) (neutral_notAnAddress b) (neutral_notAnAddress b))
    (fun _ _ => neutral_notAnAddress) (fun _ _ => neutral_notAnAddress)
  · intro g hg
    obtain rfl := List.mem_singleton.mp hg
    exact hb
  · rw [cost]
    exact (itemsCost_singleton base).le

theorem good_ofArrowAccess (hb : Good u base) (field : String) :
    Good u (.ofArrowAccess base field) := by
  have cost : (ExprGen.ofArrowAccess base field).cost u = base.cost u := by
    simp [ExprGen.cost, ExprGen.ofArrowAccess, ExprGen.ofValue, Expr.total, structRetBytes]
  have addr : Neutral u ((ExprGen.ofArrowAccess base field).cost u) (emitArrowAddr base field) :=
    fun b => cost ▸ emits_emitArrowAddr hb field
  refine .mk ?_ ?_ (fun b => emits_genMemberRead (addr b)) neutral_notAnAddress
    neutral_notAnAddress addr (fun b => emits_emitStructAddr (.arrowAccess base.node field) (neutral_notAnAddress b)
      (neutral_notAnAddress b) (neutral_notAnAddress b) (addr b) (neutral_notAnAddress b))
    (fun _ _ => neutral_notAnAddress) (fun _ _ => neutral_notAnAddress)
  · intro g hg
    obtain rfl := List.mem_singleton.mp hg
    exact hb
  · rw [cost]
    exact (itemsCost_singleton base).le

theorem good_ofDeref (ho : Good u operand) : Good u (.ofDeref operand) := by
  have cost : (ExprGen.ofDeref operand).cost u = operand.cost u := by
    simp [ExprGen.cost, ExprGen.ofDeref, ExprGen.ofValue, Expr.total, structRetBytes]
  have value : Neutral u ((ExprGen.ofDeref operand).cost u) operand.codegenExpression :=
    fun b => cost ▸ ho.value
  refine .mk ?_ ?_ (fun b => cost ▸ emits_genDeref ho) neutral_notAnAddress neutral_notAnAddress
    neutral_notAnAddress (fun b => emits_emitStructAddr (.deref operand.node) (neutral_notAnAddress b)
      (neutral_notAnAddress b) (neutral_notAnAddress b) (neutral_notAnAddress b) (value b))
    (fun _ _ => neutral_notAnAddress) (fun _ _ => neutral_notAnAddress)
  · intro g hg
    obtain rfl := List.mem_singleton.mp hg
    exact ho
  · rw [cost]
    exact (itemsCost_singleton operand).le

theorem totalList_nodes (items : List ExprGen) :
    Expr.totalList (structRetBytes u) (items.map ExprGen.node) = itemsCost u items := by
  induction items with
  | nil => rfl
  | cons g items ih =>
    rw [List.map_cons, Expr.totalList, ih, itemsCost, itemsCost, List.map_cons, List.sum_cons]
    rfl

theorem good_ofInitializerList {items : List ExprGen} (h : ∀ g ∈ items, Good u g) :
    Good u (.ofInitializerList items) := by
  have cost : (ExprGen.ofInitializerList items).cost u = itemsCost u items := by
    simp [ExprGen.cost, ExprGen.ofInitializerList, ExprGen.ofValue, Expr.total, structRetBytes,
      totalList_nodes]
  refine .mk h cost.ge neutral_noCode neutral_notAnAddress neutral_notAnAddress
    neutral_notAnAddress (fun b => emits_emitStructAddr (.initializerList (items.map ExprGen.node)) (neutral_noCode b) (neutral_notAnAddress b)
      (neutral_notAnAddress b) (neutral_notAnAddress b) (neutral_notAnAddress b)) ?_ ?_
  · exact fun st offset b => cost ▸ emits_emitLocalStructInit st offset h
  · exact fun t offset b => cost ▸ emits_emitLocalArrayInit t offset h

end addresses

mutual

@[simp] theorem codegen_node : ∀ e : Expr, (codegen e).node = e
  | .arrayIndex base index => by
    simp [codegen, ExprGen.ofArrayIndex, ExprGen.ofValue, codegen_node base, codegen_node index]
  | .memberAccess base _ => by
    simp [codegen, ExprGen.ofMemberAccess, ExprGen.ofValue, codegen_node base]
  | .arrowAccess base _ => by
    simp [codegen, ExprGen.ofArrowAccess, ExprGen.ofValue, codegen_node base]
  | .deref operand => by simp [codegen, ExprGen.ofDeref, ExprGen.ofValue, codegen_node operand]
  | .initializerList items => by
    simp [codegen, ExprGen.ofInitializerList, ExprGen.ofValue, codegenList_nodes items]
  | .intLiteral _ _ _ | .charLiteral _ | .floatLiteral _ _ | .stringLiteral _ | .varRef _
  | .assignment _ _ | .assignmentTo _ _ | .addrOf _ | .sizeofType _ _ | .sizeofExpr _
  | .unaryOp _ _ | .binaryOp _ _ _ _ | .prefixIncDec _ _ | .postfixIncDec _ _ | .cast _ _ _ _
  | .functionCall _ _ _ | .indirectCall _ _ | .conditional _ _ _ | .comma _ _
  | .designatedMember _ _ | .designatedIndex _ _ | .compoundLiteral _ _ _ _ _ | .vaStart _ _
  | .vaEnd _ | .vaCopy _ _ | .vaArg _ _ => by simp [codegen, ExprGen.ofValue]

theorem codegenList_nodes : ∀ es : List Expr, (codegenList es).map ExprGen.node = es
  | [] => rfl
  | e :: es => by simp [codegenList, codegen_node e, codegenList_nodes es]

end

theorem cost_codegen (e : Expr) : (codegen e).cost u = e.total (structRetBytes u) := by
  rw [ExprGen.cost, codegen_node]

theorem itemsCost_codegenList (es : List Expr) :
    itemsCost u (codegenList es) = Expr.totalList (structRetBytes u) es := by
  rw [← totalList_nodes, codegenList_nodes]

theorem good_leaf {node : Expr} {gen : Gen Ann} (value : ∀ c, Neutral u c gen) :
    Good u (.ofValue node [] gen) :=
  good_ofValue (by simp) (Nat.zero_le _) (value _)

theorem good_unary {node : Expr} {gen : Gen Ann} {e : Expr} (h : Good u (codegen e))
    (budget : e.total (structRetBytes u) ≤ node.total (structRetBytes u))
    (value : Neutral u ((codegen e).cost u) gen) : Good u (.ofValue node [codegen e] gen) := by
  refine good_ofValue ?_ ?_ (value.mono ?_)
  · simpa using h
  · simpa [itemsCost, cost_codegen] using budget
  · simpa [cost_codegen] using budget

theorem good_binary {node : Expr} {gen : Gen Ann} {e₁ e₂ : Expr} (h₁ : Good u (codegen e₁))
    (h₂ : Good u (codegen e₂))
    (budget : e₁.total (structRetBytes u) + e₂.total (structRetBytes u) ≤
      node.total (structRetBytes u))
    (value : Neutral u ((codegen e₁).cost u + (codegen e₂).cost u) gen) :
    Good u (.ofValue node [codegen e₁, codegen e₂] gen) := by
  refine good_ofValue ?_ ?_ (value.mono ?_)
  · simpa using ⟨h₁, h₂⟩
  · simpa [itemsCost, cost_codegen] using budget
  · simpa [cost_codegen] using budget

mutual

/-- The code of every expression, compiled in whatever way, keeps the stack and its budget. -/
theorem good_codegen : ∀ e : Expr, Good u (codegen e)
  | .intLiteral v k s => good_leaf fun _ _ => emits_genIntLiteral v k s
  | .charLiteral _ => good_leaf fun _ _ => .seq (emits_emit rfl) fun _ => .pure _
  | .floatLiteral t k => good_leaf fun _ _ => emits_genFloatLiteral t k
  | .stringLiteral bs => good_leaf fun _ _ => emits_genStringLiteral bs
  | .varRef n => good_leaf fun _ _ => emits_genVarRef n
  | .assignment n v =>
    good_unary (good_codegen v) (by simp [Expr.total]) fun _ =>
      emits_genAssignment n (good_codegen v)
  | .assignmentTo t v =>
    good_binary (good_codegen t) (good_codegen v) (by simp [Expr.total, structRetBytes])
      fun _ => emits_genAssignmentTo (good_codegen t) (good_codegen v)
  | .addrOf e =>
    good_unary (good_codegen e) (by simp [Expr.total]) fun _ => emits_genAddrOf (good_codegen e)
  | .deref e => good_ofDeref (good_codegen e)
  | .arrayIndex base index => good_ofArrayIndex (good_codegen base) (good_codegen index)
  | .memberAccess base field => good_ofMemberAccess (good_codegen base) field
  | .arrowAccess base field => good_ofArrowAccess (good_codegen base) field
  | .sizeofType k t => good_leaf fun _ _ => emits_genSizeofType k t
  | .sizeofExpr e =>
    good_unary (good_codegen e) (by simp [Expr.total]) fun _ => emits_genSizeofExpr e
  | .unaryOp op e =>
    good_unary (good_codegen e) (by simp [Expr.total]) fun _ =>
      emits_genUnaryOp op (good_codegen e)
  | .binaryOp op l r _ =>
    good_binary (good_codegen l) (good_codegen r) (by simp [Expr.total, structRetBytes])
      fun _ => emits_genBinaryOp op (good_codegen l) (good_codegen r)
  | .prefixIncDec op e =>
    good_unary (good_codegen e) (by simp [Expr.total]) fun _ =>
      emits_genIncDec op false (good_codegen e)
  | .postfixIncDec op e =>
    good_unary (good_codegen e) (by simp [Expr.total]) fun _ =>
      emits_genIncDec op true (good_codegen e)
  | .cast k s t e =>
    good_unary (good_codegen e) (by simp [Expr.total]) fun _ =>
      emits_genCast k s t (good_codegen e)
  | .functionCall name k args => by
    have budget : callBytes u name + itemsCost u (codegenList args) =
        (Expr.functionCall name k args).total (structRetBytes u) := by
      rw [itemsCost_codegenList, Expr.total]
      rfl
    refine good_ofValue (good_codegenList args) ?_ fun _ => budget ▸
      emits_genFunctionCall name k (good_codegenList args)
    omega
  | .indirectCall callee args => by
    have budget : (codegen callee).cost u + itemsCost u (codegenList args) =
        (Expr.indirectCall callee args).total (structRetBytes u) := by
      rw [itemsCost_codegenList, cost_codegen, Expr.total]
      simp [structRetBytes]
    refine good_ofValue ?_ budget.le fun _ => budget ▸
      emits_genIndirectCall (good_codegen callee) (good_codegenList args)
    rintro g (_ | ⟨_, hg⟩)
    · exact good_codegen callee
    · exact good_codegenList args g hg
  | .conditional c t e => by
    have budget : (codegen c).cost u + (codegen t).cost u + (codegen e).cost u =
        (Expr.conditional c t e).total (structRetBytes u) := by
      simp [cost_codegen, Expr.total, structRetBytes]
    refine good_ofValue ?_ ?_ fun _ => budget ▸
      emits_genConditional (good_codegen c) (good_codegen t) (good_codegen e)
    · simpa using ⟨good_codegen c, good_codegen t, good_codegen e⟩
    · rw [← budget]
      simp [itemsCost, Nat.add_assoc]
  | .comma l r =>
    good_binary (good_codegen l) (good_codegen r) (by simp [Expr.total, structRetBytes])
      fun _ => emits_genComma (good_codegen l) (good_codegen r)
  | .initializerList items => good_ofInitializerList (good_codegenList items)
  | .designatedMember _ v =>
    good_unary (good_codegen v) (by simp [Expr.total]) neutral_noCode
  | .designatedIndex _ v =>
    good_unary (good_codegen v) (by simp [Expr.total]) neutral_noCode
  | .compoundLiteral k t _ slot init =>
    good_unary (good_codegen init) (by simp [Expr.total]) fun _ =>
      emits_genCompoundLiteral k t slot (good_codegen init)
  | .vaStart ap last =>
    good_binary (good_codegen ap) (good_codegen last) (by simp [Expr.total, structRetBytes])
      fun _ => emits_genVaStart ap
  | .vaEnd ap => good_unary (good_codegen ap) (by simp [Expr.total]) neutral_noCode
  | .vaCopy dst src =>
    good_binary (good_codegen dst) (good_codegen src) (by simp [Expr.total, structRetBytes])
      fun _ => emits_genVaCopy dst src
  | .vaArg ap type => by
    refine good_ofValue ?_ ?_ fun _ => (emits_genVaArg ap type).mono ?_
    · simpa using good_codegen ap
    · simp [itemsCost, cost_codegen, Expr.total]
    · exact Nat.le_add_right _ _

theorem good_codegenList : ∀ es : List Expr, ∀ g ∈ codegenList es, Good u g
  | [], g, hg => absurd hg List.not_mem_nil
  | e :: es, g, hg => by
    rcases List.mem_cons.mp hg with rfl | hg
    · exact good_codegen e
    · exact good_codegenList es g hg

end

theorem neutral_codegenExpression (e : Expr) :
    Neutral u (e.total (structRetBytes u)) (codegenExpression e) :=
  fun _ => cost_codegen e ▸ (good_codegen e).value

end ClaudeC99
