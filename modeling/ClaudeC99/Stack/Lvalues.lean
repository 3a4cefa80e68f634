import ClaudeC99.Stack.Emits
import ClaudeC99.Stack.Plain

/-! Addresses, assignments and reads leave the stack as they found it. -/

namespace ClaudeC99

open X86 StateExcept

/-- The bytes that `compute_struct_ret_bytes` reserves for the temporaries of a node. -/
def ExprGen.cost (u : CodeGen) (g : ExprGen) : Nat := g.node.total (structRetBytes u)

def itemsCost (u : CodeGen) (items : List ExprGen) : Nat := (items.map (ExprGen.cost u)).sum

/-- Every way of compiling the node, or a node below it, keeps the stack and stays in budget. -/
inductive Good (u : CodeGen) : ExprGen → Prop
  | mk {g : ExprGen} (children : ∀ c ∈ g.children, Good u c)
      (childCost : itemsCost u g.children ≤ g.cost u)
      (value : Neutral u (g.cost u) g.codegenExpression)
      (index : Neutral u (g.cost u) g.emitArrayIndexAddr)
      (member : Neutral u (g.cost u) g.emitMemberAddr)
      (arrow : Neutral u (g.cost u) g.emitArrowAddr)
      (struct : Neutral u (g.cost u) g.emitStructAddr)
      (structInit : ∀ st offset, Neutral u (g.cost u) (g.emitLocalStructInit st offset))
      (arrayInit : ∀ t offset, Neutral u (g.cost u) (g.emitLocalArrayInit t offset)) : Good u g

variable {u : CodeGen} {b c : Nat} {S : List Held} {g base idx val tgt : ExprGen}

namespace Good

theorem children (h : Good u g) : ∀ c ∈ g.children, Good u c := by cases h; assumption

theorem childCost (h : Good u g) : itemsCost u g.children ≤ g.cost u := by cases h; assumption

theorem value (h : Good u g) : Emits u b (g.cost u) S S g.codegenExpression := by
  cases h with
  | mk _ _ value => exact value.emits

theorem index (h : Good u g) : Emits u b (g.cost u) S S g.emitArrayIndexAddr := by
  cases h with
  | mk _ _ _ index => exact index.emits

theorem member (h : Good u g) : Emits u b (g.cost u) S S g.emitMemberAddr := by
  cases h with
  | mk _ _ _ _ member => exact member.emits

theorem arrow (h : Good u g) : Emits u b (g.cost u) S S g.emitArrowAddr := by
  cases h with
  | mk _ _ _ _ _ arrow => exact arrow.emits

theorem struct (h : Good u g) : Emits u b (g.cost u) S S g.emitStructAddr := by
  cases h with
  | mk _ _ _ _ _ _ struct => exact struct.emits

theorem structInit (h : Good u g) (st : CType) (offset : Int) :
    Emits u b (g.cost u) S S (g.emitLocalStructInit st offset) := by
  cases h with
  | mk _ _ _ _ _ _ _ structInit => exact (structInit st offset).emits

theorem arrayInit (h : Good u g) (t : CType) (offset : Int) :
    Emits u b (g.cost u) S S (g.emitLocalArrayInit t offset) := by
  cases h with
  | mk _ _ _ _ _ _ _ _ arrayInit => exact (arrayInit t offset).emits

/-- The node's first child costs no more than the node. -/
theorem operand (h : Good u g) : Emits u b (g.cost u) S S g.operand := by
  unfold ExprGen.operand
  split
  next child rest hc =>
    have le : child.cost u ≤ g.cost u := by
      have := h.childCost
      rw [hc, itemsCost, List.map_cons, List.sum_cons] at this
      omega
    exact (h.children child (by simp [hc])).value.mono le
  next => exact .throw _

end Good

theorem emits_requireField (st : CType) (kind : TypeKind) (field : String) :
    Emits u b c S S (requireField st kind field) := by
  refine .get_bind fun cg _ _ => ?_
  split
  · exact .pure _
  · exact .throw _

theorem emits_emitScaledIndex (elemSize : Nat) (h : Good u idx) :
    Emits u b (idx.cost u) S S (emitScaledIndex elemSize idx) := by
  refine .seq (emits_pushReg .rax) fun _ => ?_
  refine .tail h.value fun i => ?_
  refine .seq (.errorIf _ _) fun _ => ?_
  refine .seq (emits_emitAll (by simp [movsxdRax, Instr.keepsStack, Reg.isStack])) fun _ => ?_
  refine .seq (emits_emitAll (by simp [Instr.keepsStack, Reg.isStack])) fun _ => ?_
  refine .seq (emits_popReg rfl) fun _ => ?_
  exact emits_emit rfl

theorem emits_emitFieldBase (f : StructField) (name : String) :
    Emits u b c S S (emitFieldBase f name) := by
  unfold emitFieldBase
  split
  · refine .seq (emits_emitAll (by simp [movMem, Instr.keepsStack, Reg.isStack])) fun _ => ?_
    exact .pure _
  · exact .throw _

theorem emits_emitVarBase (name : String) (kind : TypeKind) (fullType : Option CType)
    (a : Address) : Emits u b c S S (emitVarBase name kind fullType a) := by
  unfold emitVarBase
  split
  · refine .seq (neutral_nonNull _).emits fun _ => ?_
    refine .seq (emits_emit rfl) fun _ => ?_
    exact .pure _
  · refine .seq (neutral_nonNull _).emits fun _ => ?_
    refine .seq (.errorIf _ _) fun _ => ?_
    refine .seq (emits_emit rfl) fun _ => ?_
    exact .pure _
  · exact .throw _

theorem emits_emitSubscriptBase (h : Good u base) :
    Emits u b (base.cost u) S S (emitSubscriptBase base) := by
  unfold emitSubscriptBase
  split
  · refine .get_bind fun cg _ _ => ?_
    split
    · split
      · refine .seq (emits_emit rfl) fun _ => ?_
        exact .pure _
      · exact .throw _
    · exact .throw _
  · exact .throw _
  · refine .tail h.index fun inner => ?_
    split
    · refine .seq (.errorIf _ _) fun _ => ?_
      refine .seq (emits_emit rfl) fun _ => ?_
      exact .pure _
    · exact .pure _
    · exact .throw _
  · exact .tail h.member fun f => emits_emitFieldBase f _
  · exact .tail h.arrow fun f => emits_emitFieldBase f _
  · refine .tail h.value fun a => ?_
    split
    · exact .pure _
    · exact .throw _
  · exact .tail h.value fun _ => .pure _
  · refine .get_bind fun cg _ _ => ?_
    split
    · exact emits_emitVarBase _ _ _ _
    · split
      · exact emits_emitVarBase _ _ _ _
      · exact .throw _
  · exact .throw _

theorem emits_emitArrayIndexAddr (hb : Good u base) (hi : Good u idx) :
    Emits u b (base.cost u + idx.cost u) S S (emitArrayIndexAddr base idx) := by
  refine .bind (emits_emitSubscriptBase hb) fun element => ?_
  exact .tail (emits_emitScaledIndex _ hi) fun _ => .pure _

theorem emits_addOffset (f : StructField) :
    Emits u b c S S (do
      emitAll (addOffset f.offset)
      pure f) :=
  .seq (emits_emitAll (by simp)) fun _ => .pure f

theorem emits_emitInnerField (inner : StructField) (name field : String) :
    Emits u b c S S (emitInnerField inner name field) := by
  unfold emitInnerField
  split
  · exact .throw _
  · exact .seq (emits_requireField _ _ _) fun f => emits_addOffset f

theorem emits_emitPointedField (field : String) (a : Address) (st : CType) :
    Emits u b c S S (emitPointedField field a st) := by
  refine .seq (emits_requireField _ _ _) fun f => ?_
  exact .seq (emits_emit rfl) fun _ => emits_addOffset f

theorem emits_emitMemberAddr (h : Good u base) (field : String) :
    Emits u b (base.cost u) S S (emitMemberAddr base field) := by
  unfold emitMemberAddr
  split
  · refine .get_bind fun cg _ _ => ?_
    split
    · exact .throw _
    · split
      · exact .throw _
      · exact emits_emitPointedField _ _ _
  · exact .throw _
  · exact .tail h.member fun f => emits_emitInnerField _ _ _
  · refine .tail h.index fun element => ?_
    split
    · exact .seq (emits_requireField _ _ _) fun f => emits_addOffset f
    · exact .throw _
  · exact .tail h.arrow fun f => emits_emitInnerField _ _ _
  · refine .tail h.value fun a => ?_
    split
    · exact .throw _
    · exact .seq (emits_requireField _ _ _) fun f => emits_addOffset f
  · refine .get_bind fun cg _ _ => ?_
    split
    · split
      · exact .throw _
      · refine .seq (emits_requireField _ _ _) fun f => ?_
        exact .seq (emits_emit rfl) fun _ => .pure _
    · split
      · exact .throw _
      · split
        · exact .throw _
        · refine .seq (emits_requireField _ _ _) fun f => ?_
          exact .seq (emits_emit rfl) fun _ => .pure _
  · exact .throw _

theorem emits_emitArrowAddr (h : Good u base) (field : String) :
    Emits u b (base.cost u) S S (emitArrowAddr base field) := by
  unfold emitArrowAddr
  split
  · refine .tail h.member fun inner => ?_
    split
    · exact .throw _
    · exact emits_emitPointedField _ _ _
  · refine .get_bind fun cg _ _ => ?_
    split
    · split
      · exact .throw _
      · exact emits_emitPointedField _ _ _
    · split
      · exact .throw _
      · split
        · exact .throw _
        · exact emits_emitPointedField _ _ _
  · refine .tail h.value fun a => ?_
    split
    · exact .throw _
    · exact .seq (emits_requireField _ _ _) fun f => emits_addOffset f

theorem emits_requireRecordField (f : StructField) (field : String) :
    Emits u b c S S (requireRecordField f field) := by
  unfold requireRecordField
  split
  · exact .pure _
  · exact .throw _

theorem emits_emitStructAddr (node : Expr) {self operand : Gen Ann} {arrayIndexAddr : Gen CType}
    {memberAddr arrowAddr : Gen StructField} (hself : Emits u b c S S self)
    (hindex : Emits u b c S S arrayIndexAddr) (hmember : Emits u b c S S memberAddr)
    (harrow : Emits u b c S S arrowAddr) (hoperand : Emits u b c S S operand) :
    Emits u b c S S
      (emitStructAddr node self arrayIndexAddr memberAddr arrowAddr operand) := by
  unfold emitStructAddr
  split
  · refine .get_bind fun cg _ _ => ?_
    split
    · split
      · exact .throw _
      · exact .seq (emits_emit rfl) fun _ => .pure _
    · split
      · exact .throw _
      · exact .seq (emits_emit rfl) fun _ => .pure _
  · exact .tail hmember fun f => emits_requireRecordField _ _
  · exact .tail harrow fun f => emits_requireRecordField _ _
  · refine .tail hindex fun element => ?_
    split
    · exact .pure _
    · exact .throw _
  · refine .tail hoperand fun a => ?_
    split
    · exact .pure _
    · exact .throw _
  · refine .tail hself fun a => ?_
    split
    · exact .pure _
    · exact .throw _
  · refine .tail hself fun a => ?_
    split
    · split
      · exact (neutral_nonNull _).emits
      · exact .throw _
    · exact .throw _
  · refine .tail hself fun a => ?_
    split
    · exact .pure _
    · exact .throw _
  · exact .throw _

theorem emits_storeStruct (size : Nat) (h : Good u val) :
    Emits u b (val.cost u) S S (storeStruct size val) := by
  refine .seq (emits_pushReg .rax) fun _ => ?_
  refine .tail h.struct fun _ => ?_
  refine .seq (emits_emit rfl) fun _ => ?_
  refine .seq (emits_popReg rfl) fun _ => ?_
  exact emits_emitAll (by simp)

theorem emits_storeFloating (kind : TypeKind) (h : Good u val) :
    Emits u b (val.cost u) S S (storeFloating kind val) := by
  refine .seq (emits_pushReg .rax) fun _ => ?_
  refine .tail h.value fun a => ?_
  refine .seq (emits_emitAll (by simp)) fun _ => ?_
  refine .seq (emits_popReg rfl) fun _ => ?_
  exact emits_emit rfl

theorem emits_checkElementAssignment (element : CType) (val : ExprGen) (a : Ann) :
    Emits u b c S S (checkElementAssignment element val a) := by
  unfold checkElementAssignment
  split
  · exact .seq (.errorIf _ _) fun _ => .errorIf _ _
  · exact .pure _

theorem emits_assignElement (ht : Good u tgt) (hv : Good u val) :
    Emits u b (tgt.cost u + val.cost u) S S (assignElement tgt val) := by
  refine .bind ht.index fun element => ?_
  refine .seq (.errorIf _ _) fun _ => ?_
  split
  · exact .tail (emits_storeStruct _ hv) fun _ => .pure _
  split
  · exact .tail (emits_storeFloating _ hv) fun _ => .pure _
  · refine .seq (emits_pushReg .rax) fun _ => ?_
    refine .tail hv.value fun a => ?_
    refine .seq (emits_checkElementAssignment _ _ _) fun _ => ?_
    refine .seq (emits_emitAll (by simp)) fun _ => ?_
    refine .seq (emits_popReg rfl) fun _ => ?_
    exact .seq (emits_emit (by simp)) fun _ => .pure _

theorem emits_storeBitfield (f : StructField) (h : Good u val) :
    Emits u b (val.cost u) S S (storeBitfield f val) := by
  refine .seq (emits_pushReg .rax) fun _ => ?_
  refine .tail h.value fun _ => ?_
  refine .seq (emits_emitAll (by simp)) fun _ => ?_
  refine .seq (emits_emitAll (by simp)) fun _ => ?_
  refine .seq (emits_emit rfl) fun _ => ?_
  refine .seq (emits_popReg rfl) fun _ => ?_
  refine .seq (emits_emit rfl) fun _ => ?_
  refine .seq (emits_emit rfl) fun _ => ?_
  refine .seq (emits_emit rfl) fun _ => ?_
  refine .seq (emits_emit rfl) fun _ => ?_
  refine .seq (emits_emitAll (by simp)) fun _ => ?_
  exact emits_emitAll (by simp)

theorem emits_storeMember (f : StructField) (h : Good u val) :
    Emits u b (val.cost u) S S (storeMember f val) := by
  unfold storeMember
  split
  · exact .tail (emits_storeBitfield _ h) fun _ => .pure _
  split
  · exact .tail (emits_storeStruct _ h) fun _ => .pure _
  split
  · exact .tail (emits_storeFloating _ h) fun _ => .pure _
  · refine .seq (emits_pushReg .rax) fun _ => ?_
    refine .tail h.value fun _ => ?_
    refine .seq (emits_popReg rfl) fun _ => ?_
    exact .seq (emits_emit (by simp)) fun _ => .pure _

theorem emits_assignMember (ht : Good u tgt) (hv : Good u val) (field : String) :
    Emits u b (tgt.cost u + val.cost u) S S (assignMember tgt val field) := by
  refine .bind ht.member fun f => ?_
  refine .seq (.errorIf _ _) fun _ => ?_
  refine .get_bind fun cg _ _ => ?_
  exact .seq (.errorIf _ _) fun _ => emits_storeMember f hv

theorem emits_assignArrow (ht : Good u tgt) (hv : Good u val) (node : Expr) (field : String) :
    Emits u b (tgt.cost u + val.cost u) S S (assignArrow tgt val node field) := by
  refine .bind ht.arrow fun f => ?_
  refine .seq (.errorIf _ _) fun _ => ?_
  refine .get_bind fun cg _ _ => ?_
  exact .seq (.errorIf _ _) fun _ => emits_storeMember f hv

theorem emits_assignDeref (ht : Good u tgt) (hv : Good u val) :
    Emits u b (tgt.cost u + val.cost u) S S (assignDeref tgt val) := by
  refine .bind ht.operand fun p => ?_
  split
  · exact .throw _
  · refine .seq (.errorIf _ _) fun _ => ?_
    split
    · exact .tail (emits_storeStruct _ hv) fun _ => .pure _
    · refine .seq (emits_pushReg .rax) fun _ => ?_
      refine .tail hv.value fun a => ?_
      refine .seq (emits_emitAll (by simp)) fun _ => ?_
      refine .seq (emits_popReg rfl) fun _ => ?_
      exact .seq (emits_emit (by simp)) fun _ => .pure _

theorem emits_genAssignmentTo (ht : Good u tgt) (hv : Good u val) :
    Emits u b (tgt.cost u + val.cost u) S S (genAssignmentTo tgt val) := by
  unfold genAssignmentTo
  split
  · exact emits_assignElement ht hv
  · exact emits_assignMember ht hv _
  · exact emits_assignArrow ht hv _ _
  · exact emits_assignDeref ht hv
  · exact .throw _

theorem emits_copyLocalStruct (lv src : LocalVar) (st : CType) :
    Emits u b c S S (copyLocalStruct lv st src) := by
  unfold copyLocalStruct
  split
  · exact .throw _
  · refine .seq (.errorIf _ _) fun _ => ?_
    refine .seq (.errorIf _ _) fun _ => ?_
    exact emits_emitAll (by simp)

theorem emits_assignLocalStruct (lv : LocalVar) (st : CType) (h : Good u val) :
    Emits u b (val.cost u) S S (assignLocalStruct lv st val) := by
  refine .get_bind fun cg _ _ => ?_
  split
  · exact emits_copyLocalStruct _ _ _
  · refine .tail h.struct fun t => ?_
    refine .seq (.errorIf _ _) fun _ => ?_
    refine .seq (emits_emit rfl) fun _ => ?_
    refine .seq (emits_emit rfl) fun _ => ?_
    exact emits_emitAll (by simp)

theorem emits_checkPointerAssignment (name : String) (kind : TypeKind) (fullType : Option CType)
    (node : Expr) (a : Ann) :
    Emits u b c S S (checkPointerAssignment name kind fullType node a) := by
  refine .seq (.errorIf _ _) fun _ => ?_
  split
  · exact (neutral_warn _).emits
  · exact .pure _

theorem emits_assignScalar (name : String) (kind : TypeKind) (fullType : Option CType)
    (size : Nat) {store : Bool → List Asm} (plain : ∀ long, Plain (store long))
    (h : Good u val) :
    Emits u b (val.cost u) S S (assignScalar name kind fullType size store val) := by
  refine .seq (.errorIf _ _) fun _ => ?_
  refine .tail h.value fun a => ?_
  refine .seq (emits_checkPointerAssignment _ _ _ _ _) fun _ => ?_
  refine .seq (emits_emitAll (by simp)) fun _ => ?_
  refine .seq (emits_emitAll (plain _)) fun _ => ?_
  split
  · exact .pure _
  · exact .pure _

theorem emits_assignFloating (kind : TypeKind) (a : Address) (h : Good u val) :
    Emits u b (val.cost u) S S (assignFloating kind a val) := by
  refine .tail h.value fun v => ?_
  refine .seq (emits_emitAll (by simp)) fun _ => ?_
  exact .seq (emits_emit rfl) fun _ => .pure _

theorem emits_assignLocal (lv : LocalVar) (h : Good u val) :
    Emits u b (val.cost u) S S (assignLocal lv val) := by
  refine .seq (.errorIf _ _) fun _ => ?_
  refine .seq (.errorIf _ _) fun _ => ?_
  split
  · exact .tail (emits_assignLocalStruct _ _ h) fun _ => .pure _
  · split
    · exact emits_assignFloating _ _ h
    · exact emits_assignScalar _ _ _ _ (by simp) h

theorem emits_assignGlobal (gv : GlobalVar) (h : Good u val) :
    Emits u b (val.cost u) S S (assignGlobal gv val) := by
  refine .seq (.errorIf _ _) fun _ => ?_
  refine .seq (.errorIf _ _) fun _ => ?_
  split
  · exact emits_assignFloating _ _ h
  · exact emits_assignScalar _ _ _ _ (by simp [emitStoreGlobal]) h

theorem emits_genAssignment (name : String) (h : Good u val) :
    Emits u b (val.cost u) S S (genAssignment name val) := by
  refine .get_bind fun cg _ _ => ?_
  split
  · exact emits_assignLocal _ h
  · split
    · exact emits_assignGlobal _ h
    · exact .throw _

theorem emits_genAddrOfVar (name : String) : Emits u b c S S (genAddrOfVar name) := by
  refine .get_bind fun cg _ _ => ?_
  split
  · refine .seq (.errorIf _ _) fun _ => ?_
    refine .seq (emits_emit rfl) fun _ => ?_
    exact .seq (neutral_nonNull _).emits fun _ => .pure _
  · split
    · exact .throw _
    · exact .seq (emits_emit rfl) fun _ => .pure _

theorem emits_literalBase (t : Option CType) : Emits u b c S S (literalBase t) := by
  cases t with
  | none => exact .pure _
  | some t => exact (neutral_nonNull _).emits

theorem emits_genAddrOf (h : Good u g) : Emits u b (g.cost u) S S (genAddrOf g) := by
  unfold genAddrOf
  split
  · exact .tail h.index fun _ => .pure _
  · refine .tail h.value fun a => ?_
    split
    · exact .seq (emits_literalBase _) fun _ => .pure _
    · exact .seq (emits_emit rfl) fun _ => .pure _
  · exact .tail h.member fun _ => .pure _
  · exact .tail h.arrow fun _ => .pure _
  · exact emits_genAddrOfVar _
  · exact .throw _
  · exact .throw _

theorem emits_genDeref (h : Good u g) : Emits u b (g.cost u) S S (genDeref g) := by
  refine .tail h.value fun a => ?_
  split
  · exact .throw _
  · refine .seq (.errorIf _ _) fun _ => ?_
    split
    · exact .pure _
    · exact .seq (emits_emit (by simp)) fun _ => .pure _

theorem emits_genArrayIndex {addr : Gen CType} (h : Emits u b c S S addr) :
    Emits u b c S S (genArrayIndex addr) := by
  refine .tail h fun element => ?_
  split
  · exact .pure _
  · split
    · exact .seq (emits_emit rfl) fun _ => .pure _
    · exact .seq (emits_emit (by simp)) fun _ => .pure _

theorem emits_genMemberRead {addr : Gen StructField} (h : Emits u b c S S addr) :
    Emits u b c S S (genMemberRead addr) := by
  refine .tail h fun f => ?_
  split
  · exact .seq (emits_emitAll (by simp)) fun _ => .pure _
  · split
    · exact .pure _
    · split
      · exact .seq (emits_emit rfl) fun _ => .pure _
      · refine .seq (emits_emit (by simp)) fun _ => ?_
        split
        · exact .pure _
        · exact .pure _

end ClaudeC99
