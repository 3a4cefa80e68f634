import ClaudeC99.Stack.Functions

/-! Which functions get a frame that covers every slot handed out in it. -/

namespace ClaudeC99

open X86 StateExcept Bump

/-- The slots lie in the `stackSize` bytes below `rbp`, aligned and apart from each other. -/
structure FrameCovers (stackSize : Nat) (slots : List Slot) : Prop where
  below : ∀ s ∈ slots, s.size ≤ s.offset
  covered : ∀ s ∈ slots, s.offset ≤ stackSize
  aligned : ∀ s ∈ slots, s.Aligned
  apart : slots.Pairwise Block.Disjoint

theorem temps_within {c c' : Nat} {ts : List Slot} (h : Temps c ts c') :
    c ≤ c' ∧ ∀ t ∈ ts, t.Within c c' := by
  induction h with
  | nil => simp
  | @snoc ts c' before size ih =>
    have room : size ≤ alignUp size 8 := le_roundUp (by omega)
    refine ⟨by omega, fun t ht => ?_⟩
    rcases List.mem_append.mp ht with ht | ht
    · exact (ih.2 t ht).mono le_rfl (by omega)
    · obtain rfl := List.mem_singleton.mp ht
      exact ⟨by dsimp only; omega, le_rfl⟩

theorem temps_disjoint {c c' : Nat} {ts : List Slot} (h : Temps c ts c') :
    ts.Pairwise Block.Disjoint := by
  induction h with
  | nil => exact .nil
  | @snoc ts c' before size ih =>
    have room : size ≤ alignUp size 8 := le_roundUp (by omega)
    refine List.pairwise_append.mpr ⟨ih, List.pairwise_singleton _ _, fun t ht s hs => ?_⟩
    obtain rfl := List.mem_singleton.mp hs
    have own : Block.Within c' (c' + alignUp size 8) ⟨c' + alignUp size 8, size, 8⟩ :=
      ⟨by dsimp only; omega, le_rfl⟩
    exact ((temps_within before).2 t ht).disjoint own

theorem temps_aligned {c c' : Nat} {ts : List Slot} (h : Temps c ts c') (start : 8 ∣ c) :
    8 ∣ c' ∧ ∀ t ∈ ts, t.Aligned := by
  induction h with
  | nil => simpa using start
  | snoc before size ih =>
    have next := Nat.dvd_add ih.1 (dvd_roundUp size 8)
    refine ⟨next, fun t ht => ?_⟩
    rcases List.mem_append.mp ht with ht | ht
    · exact ih.2 t ht
    · obtain rfl := List.mem_singleton.mp ht
      exact next

section reserved

/-- What the frame reserves for objects with their worst padding. -/
def reserve (rs : List Request) : Nat := (rs.map fun r => r.size + (r.alignment - 1)).sum

theorem reserve_append (rs ts : List Request) : reserve (rs ++ ts) = reserve rs + reserve ts := by
  simp [reserve]

theorem sizes_append (rs ts : List Request) : sizes (rs ++ ts) = sizes rs + sizes ts := by
  simp [sizes]

theorem sizes_le_reserve (rs : List Request) : sizes rs ≤ reserve rs := by
  induction rs with
  | nil => exact le_rfl
  | cons r rs ih =>
    simp only [sizes, reserve, List.map_cons, List.sum_cons] at ih ⊢
    omega

theorem compoundLiteralBytes_eq (declType : TypeKind) (fullType : Option CType) (s : Bool)
    (slot : Nat) (init : Expr) :
    compoundLiteralBytes (.compoundLiteral declType fullType s slot init) =
      (literalRequest declType fullType).size +
        ((literalRequest declType fullType).alignment - 1) := by
  simp only [compoundLiteralBytes, literalRequest]
  split <;> omega

mutual

theorem total_literals : ∀ e : Expr, e.total compoundLiteralBytes = reserve e.literals
  | .intLiteral _ _ _ | .charLiteral _ | .floatLiteral _ _ | .stringLiteral _ | .varRef _
  | .sizeofType _ _ => rfl
  | .assignment _ e | .addrOf e | .deref e | .memberAccess e _ | .arrowAccess e _ | .sizeofExpr e
  | .unaryOp _ e | .prefixIncDec _ e | .postfixIncDec _ e | .cast _ _ _ e | .designatedMember _ e
  | .designatedIndex _ e | .vaEnd e | .vaArg e _ => by
    simp [Expr.total, Expr.literals, compoundLiteralBytes, total_literals e]
  | .assignmentTo e₁ e₂ | .arrayIndex e₁ e₂ | .binaryOp _ e₁ e₂ _ | .comma e₁ e₂ | .vaStart e₁ e₂
  | .vaCopy e₁ e₂ => by
    simp [Expr.total, Expr.literals, compoundLiteralBytes, total_literals e₁, total_literals e₂,
      reserve_append]
  | .conditional e₁ e₂ e₃ => by
    simp [Expr.total, Expr.literals, compoundLiteralBytes, total_literals e₁, total_literals e₂,
      total_literals e₃, reserve_append, Nat.add_assoc]
  | .functionCall _ _ args => by
    simp [Expr.total, Expr.literals, compoundLiteralBytes, totalList_literals args]
  | .indirectCall callee args => by
    simp [Expr.total, Expr.literals, compoundLiteralBytes, total_literals callee,
      totalList_literals args, reserve_append]
  | .initializerList items => by
    simp [Expr.total, Expr.literals, compoundLiteralBytes, totalList_literals items]
  | .compoundLiteral declType fullType s slot init => by
    rw [Expr.total, Expr.literals, compoundLiteralBytes_eq, total_literals init]
    simp [reserve]

theorem totalList_literals : ∀ es : List Expr,
    Expr.totalList compoundLiteralBytes es = reserve (Expr.literalsList es)
  | [] => rfl
  | e :: es => by
    rw [Expr.totalList, Expr.literalsList, reserve_append, total_literals e, totalList_literals es]

end

theorem totalOption_literals : ∀ e : Option Expr,
    Expr.totalOption compoundLiteralBytes e = reserve (Expr.literalsOption e)
  | none => rfl
  | some e => total_literals e

mutual

theorem stmtTotal_literals : ∀ s : Stmt,
    s.total (fun _ => 0) compoundLiteralBytes = reserve s.literals
  | .declaration _ init => by
    simp [Stmt.total, Stmt.literals, totalOption_literals]
  | .declList decls => stmtTotalList_literals decls
  | .returnStmt value => totalOption_literals value
  | .ifStmt cond thenBody elseBody => by
    simp [Stmt.total, Stmt.literals, total_literals, stmtTotal_literals thenBody,
      stmtTotalOption_literals elseBody, reserve_append, Nat.add_assoc]
  | .whileStmt cond body => by
    simp [Stmt.total, Stmt.literals, total_literals, stmtTotal_literals body, reserve_append]
  | .doWhileStmt body cond => by
    simp [Stmt.total, Stmt.literals, total_literals, stmtTotal_literals body, reserve_append]
  | .forStmt init cond update body => by
    simp [Stmt.total, Stmt.literals, totalOption_literals, stmtTotal_literals body,
      stmtTotalOption_literals init, reserve_append, Nat.add_assoc]
  | .switchStmt value body => by
    simp [Stmt.total, Stmt.literals, total_literals, stmtTotal_literals body, reserve_append]
  | .caseSection _ body | .defaultSection body | .labelStmt _ body => stmtTotal_literals body
  | .block stmts => stmtTotalList_literals stmts
  | .exprStmt value => total_literals value
  | .breakStmt | .continueStmt | .gotoStmt _ | .typedefDecl _ => rfl

theorem stmtTotalOption_literals : ∀ s : Option Stmt,
    Stmt.totalOption (fun _ => 0) compoundLiteralBytes s = reserve (Stmt.literalsOption s)
  | none => rfl
  | some s => stmtTotal_literals s

theorem stmtTotalList_literals : ∀ ss : List Stmt,
    Stmt.totalList (fun _ => 0) compoundLiteralBytes ss = reserve (Stmt.literalsList ss)
  | [] => rfl
  | s :: ss => by
    rw [Stmt.totalList, Stmt.literalsList, reserve_append, stmtTotal_literals s,
      stmtTotalList_literals ss]

end

theorem typeKindBytes_le (kind : TypeKind) : typeKindBytes kind ≤ 8 := by
  cases kind <;> decide

theorem sizes_object_le (info : DeclInfo) : sizes info.object.toList ≤ declBytes info := by
  have scalar := typeKindBytes_le info.declType
  unfold DeclInfo.object
  split
  · exact Nat.zero_le _
  cases kind : info.declType <;> cases full : info.fullType <;>
    simp [recordType, isStructOrUnionKind, TypeKind.isAggregate, declBytes, kind, full, sizes,
      typeKindBytes, TypeKind.size]

mutual

theorem sizes_objects_le : ∀ s : Stmt, sizes s.objects ≤ s.total declBytes (fun _ => 0)
  | .declaration info _ => Nat.le_add_right_of_le (sizes_object_le info)
  | .declList decls => sizes_objectsList_le decls
  | .ifStmt cond thenBody elseBody => by
    have first := sizes_objects_le thenBody
    have second := sizes_objectsOption_le elseBody
    rw [Stmt.objects, Stmt.total, sizes_append]
    omega
  | .whileStmt cond body => Nat.le_add_left_of_le (sizes_objects_le body)
  | .doWhileStmt body cond => Nat.le_add_right_of_le (sizes_objects_le body)
  | .forStmt init cond update body => by
    have first := sizes_objectsOption_le init
    have second := sizes_objects_le body
    rw [Stmt.objects, Stmt.total, sizes_append]
    omega
  | .switchStmt value body => Nat.le_add_left_of_le (sizes_objects_le body)
  | .caseSection _ body | .defaultSection body | .labelStmt _ body => sizes_objects_le body
  | .block stmts => sizes_objectsList_le stmts
  | .returnStmt _ | .exprStmt _ | .breakStmt | .continueStmt | .gotoStmt _ | .typedefDecl _ =>
    Nat.zero_le _

theorem sizes_objectsOption_le : ∀ s : Option Stmt,
    sizes (Stmt.objectsOption s) ≤ Stmt.totalOption declBytes (fun _ => 0) s
  | none => Nat.zero_le _
  | some s => sizes_objects_le s

theorem sizes_objectsList_le : ∀ ss : List Stmt,
    sizes (Stmt.objectsList ss) ≤ Stmt.totalList declBytes (fun _ => 0) ss
  | [] => Nat.zero_le _
  | s :: ss => by
    have first := sizes_objects_le s
    have second := sizes_objectsList_le ss
    rw [Stmt.objectsList, Stmt.totalList, sizes_append]
    omega

end

theorem sizes_param_le (p : Param) : sizes p.object.toList ≤ paramBytes p := by
  have scalar := typeKindBytes_le p.declType
  unfold Param.object paramBytes recordType
  split
  · exact Nat.zero_le _
  split
  · cases full : p.fullType <;> simp [sizes, structSlot]
  · simpa [sizes] using scalar

theorem sizes_params_le (ps : List Param) :
    sizes (ps.flatMap fun p => p.object.toList) ≤ (ps.map paramBytes).sum := by
  induction ps with
  | nil => exact le_rfl
  | cons p ps ih =>
    have own := sizes_param_le p
    rw [List.flatMap_cons, sizes_append, List.map_cons, List.sum_cons]
    omega

theorem sizes_passObjects (placed : List (ArgSlot × Param)) :
    sizes (passObjects false placed) + sizes (passObjects true placed) =
      sizes (placed.flatMap fun sp => sp.2.object.toList) := by
  induction placed with
  | nil => rfl
  | cons sp placed ih =>
    have split (mem : Bool) : passObjects mem (sp :: placed) =
        (if sp.1.mem = mem then sp.2.object.toList else []) ++ passObjects mem placed := rfl
    rw [split, split, List.flatMap_cons, sizes_append, sizes_append, sizes_append, ← ih]
    cases sp.1.mem with
    | false => simp [sizes]; omega
    | true => simp [sizes]; omega

theorem sizes_zip_le (slots : List ArgSlot) (ps : List Param) :
    sizes ((slots.zip ps).flatMap fun sp => sp.2.object.toList) ≤ (ps.map paramBytes).sum := by
  induction ps generalizing slots with
  | nil => simp [sizes]
  | cons p ps ih =>
    cases slots with
    | nil => simp [sizes]
    | cons slot slots =>
      have own := sizes_param_le p
      have rest := ih slots
      rw [List.zip_cons_cons, List.flatMap_cons, sizes_append, List.map_cons, List.sum_cons]
      dsimp only
      omega

theorem sizes_paramObjects_le (f : FunctionDef) :
    sizes (paramObjects f) ≤ (f.params.map paramBytes).sum := by
  unfold paramObjects
  split
  · dsimp only
    rw [sizes_append, sizes_passObjects]
    exact sizes_zip_le _ _
  · exact sizes_params_le f.params

/-- What the frame of `f` reserves for the objects it places. -/
def reservedBytes (f : FunctionDef) : Nat :=
  (if f.returnsMemoryStruct then 8 else 0) + (f.params.map paramBytes).sum +
    computeCompoundLiteralBytes f.body + computeDeclBytes f.body

/-- The reserve covers the objects: only padding can exceed it. -/
theorem sizes_frameObjects_le (f : FunctionDef) : sizes (frameObjects f) ≤ reservedBytes f := by
  have params := sizes_paramObjects_le f
  have literals := sizes_le_reserve (Stmt.literalsList f.body)
  have declared := sizes_objectsList_le f.body
  rw [← stmtTotalList_literals] at literals
  have sret : sizes (sretArea f) = if f.returnsMemoryStruct then 8 else 0 := by
    unfold sretArea
    split <;> rfl
  simp only [frameObjects, sizes_append, reservedBytes, computeCompoundLiteralBytes,
    computeDeclBytes, sret]
  omega

theorem frameBytes_eq (u : CodeGen) (f : FunctionDef) :
    frameBytes u f = scratchEnd u f + reservedBytes f := by
  have save : placeAll 40 (saveArea f) = 40 + if f.isVariadic then 8 + 176 else 0 := by
    unfold saveArea
    split <;> rfl
  unfold frameBytes scratchEnd scratchStart reservedBytes
  rw [save]
  omega

end reserved

/-- The padding that the reserve of a function leaves room for. -/
def paddingRoom (u : CodeGen) (f : FunctionDef) : Nat :=
  (reservedBytes f - sizes (frameObjects f)) + (frameSize u f - frameBytes u f)

/-- The objects, taken in order, lose no more bytes to alignment than the reserve has room for. -/
def PaddingFits (u : CodeGen) (f : FunctionDef) : Prop :=
  paddings (scratchEnd u f) (frameObjects f) ≤ paddingRoom u f

instance (u : CodeGen) (f : FunctionDef) : Decidable (PaddingFits u f) :=
  inferInstanceAs (Decidable (_ ≤ _))

theorem frameBytes_le (u : CodeGen) (f : FunctionDef) : frameBytes u f ≤ frameSize u f :=
  le_roundUp (by omega)

theorem scratchEnd_le (u : CodeGen) (f : FunctionDef) : scratchEnd u f ≤ frameSize u f := by
  have le := frameBytes_le u f
  rw [frameBytes_eq] at le
  omega

theorem paddingFits_iff (u : CodeGen) {f : FunctionDef}
    (complete : ∀ r ∈ frameObjects f, 0 < r.alignment) :
    PaddingFits u f ↔ placeAll (scratchEnd u f) (frameObjects f) ≤ frameSize u f := by
  have fits := sizes_frameObjects_le f
  have le := frameBytes_le u f
  have eq := frameBytes_eq u f
  rw [placeAll_eq complete, PaddingFits, paddingRoom]
  omega

section frame

variable {f : FunctionDef} {cg cg' : CodeGen} {body : List Stmt} {setup code : List Line}
  {mid : Nat}

theorem saved_within : ∀ s ∈ savedRegSlots, s.Within 0 40 := by
  simp [savedRegSlots, Block.within_iff]

theorem saveArea_pos (f : FunctionDef) : ∀ r ∈ saveArea f, 0 < r.alignment := by
  unfold saveArea
  split <;> simp

/-- The slots below the struct temporaries, the temporaries, and the objects above them. -/
theorem slots_within (h : FunctionCode f cg cg' body setup code mid)
    (complete : ∀ r ∈ frameObjects f, 0 < r.alignment) :
    (∀ s ∈ savedRegSlots ++ blocks 40 (saveArea f), s.Within 0 (scratchStart f)) ∧
    (∀ s ∈ cg'.temps, s.Within (scratchStart f) (scratchEnd cg f)) ∧
    ∀ s ∈ blocks (scratchEnd cg f) (frameObjects f),
      s.Within (scratchEnd cg f) (placeAll (scratchEnd cg f) (frameObjects f)) := by
  have start : 40 ≤ scratchStart f := le_placeAll (saveArea_pos f) 40
  obtain ⟨c, temps, le⟩ := h.temps
  refine ⟨fun s hs => ?_, fun s hs => ((temps_within temps).2 s hs).mono le_rfl le,
    blocks_within complete _⟩
  rcases List.mem_append.mp hs with hs | hs
  · exact (saved_within s hs).mono le_rfl start
  · exact (blocks_within (saveArea_pos f) 40 s hs).mono (by omega) le_rfl

theorem slots_apart (h : FunctionCode f cg cg' body setup code mid)
    (complete : ∀ r ∈ frameObjects f, 0 < r.alignment) :
    (cg'.slots ++ cg'.temps).Pairwise Block.Disjoint := by
  obtain ⟨c, temps, le⟩ := h.temps
  obtain ⟨fixed, scratch, objects⟩ := slots_within h complete
  have saved : savedRegSlots.Pairwise Block.Disjoint := by
    simp [savedRegSlots, Block.Disjoint]
  have area : (savedRegSlots ++ blocks 40 (saveArea f)).Pairwise Block.Disjoint :=
    pairwise_append saved (blocks_disjoint (saveArea_pos f) 40) saved_within
      (blocks_within (saveArea_pos f) 40)
  have le₁ : scratchStart f ≤ scratchEnd cg f := Nat.le_add_right _ _
  have lower := pairwise_append area (blocks_disjoint complete _)
    (fun s hs => (fixed s hs).mono le_rfl le₁) objects
  rw [h.slots]
  refine List.pairwise_append.mpr ⟨lower, temps_disjoint temps, fun s hs t ht => ?_⟩
  rcases List.mem_append.mp hs with hs | hs
  · exact (fixed s hs).disjoint (scratch t ht)
  · exact ((scratch t ht).disjoint (objects s hs)).symm

theorem slots_aligned (h : FunctionCode f cg cg' body setup code mid) :
    ∀ s ∈ cg'.slots ++ cg'.temps, s.Aligned := by
  obtain ⟨c, temps, _⟩ := h.temps
  have saved : ∀ s ∈ savedRegSlots, s.Aligned := by simp [savedRegSlots, Block.Aligned]
  rw [h.slots]
  intro s hs
  simp only [List.mem_append] at hs
  rcases hs with ((hs | hs) | hs) | hs
  · exact saved s hs
  · exact blocks_aligned 40 s hs
  · exact blocks_aligned _ s hs
  · exact (temps_aligned temps (dvd_scratchStart f)).2 s hs

theorem frameCovers_iff (h : FunctionCode f cg cg' body setup code mid)
    (complete : ∀ r ∈ frameObjects f, 0 < r.alignment) :
    FrameCovers (frameSize cg f) (cg'.slots ++ cg'.temps) ↔ PaddingFits cg f := by
  obtain ⟨fixed, scratch, objects⟩ := slots_within h complete
  have room := scratchEnd_le cg f
  have le₁ : scratchStart f ≤ scratchEnd cg f := Nat.le_add_right _ _
  rw [paddingFits_iff cg complete, ← blocks_le_iff complete room]
  constructor
  · intro covers s hs
    refine covers.covered s (List.mem_append_left _ ?_)
    rw [h.slots]
    exact List.mem_append_right _ hs
  · intro fits
    have within : ∀ s ∈ cg'.slots ++ cg'.temps, s.Within 0 (frameSize cg f) := by
      rw [h.slots]
      intro s hs
      rcases List.mem_append.mp hs with hs | hs
      · rcases List.mem_append.mp hs with hs | hs
        · exact (fixed s hs).mono le_rfl (le₁.trans room)
        · exact ⟨((objects s hs).mono (Nat.zero_le _) le_rfl).above, fits s hs⟩
      · exact (scratch s hs).mono (Nat.zero_le _) room
    exact ⟨fun s hs => by simpa using (within s hs).above, fun s hs => (within s hs).below,
      slots_aligned h, slots_apart h complete⟩

end frame

/-- Every object the frame holds has a complete type: alignment 0 is that of `void`, of functions
and of incomplete structs. -/
def CompleteObjects (f : FunctionDef) : Prop := ∀ r ∈ frameObjects f, 0 < r.alignment

instance (f : FunctionDef) : Decidable (CompleteObjects f) :=
  inferInstanceAs (Decidable (∀ r ∈ _, _))

/-- Where the reserve has room for every object rounded up to words, padding never exceeds it. -/
theorem paddingFits_of_words (u : CodeGen) {f : FunctionDef}
    (aligned : ∀ r ∈ frameObjects f, 0 < r.alignment ∧ r.alignment ∣ 8)
    (room : ((frameObjects f).map fun r => roundUp r.size 8).sum ≤ reservedBytes f) :
    PaddingFits u f := by
  have start : roundUp (scratchEnd u f) 8 = scratchEnd u f :=
    roundUp_of_dvd (by omega) (dvd_scratchEnd u f)
  have placed := placeAll_le_words (by omega) aligned (scratchEnd u f)
  have le := frameBytes_le u f
  rw [frameBytes_eq] at le
  rw [paddingFits_iff u fun r hr => (aligned r hr).1]
  omega

/-- `struct { char c[3]; }` -/
def charTriple : CType := .record false 0 0 (some ⟨3, 1, by decide⟩) false

def declare (name : String) (kind : TypeKind) (fullType : Option CType) : Stmt :=
  .declaration ⟨name, kind, fullType, false, false, .none⟩ none

def voidFunction (name : String) (body : List Stmt) : FunctionDef where
  name
  declType := .void
  fullType := none
  params := []
  isVariadic := false
  isNoPrototype := false
  storage := .none
  body

/-- Four structs of three bytes, each before a `long`. -/
def alternating : FunctionDef :=
  voidFunction "alternating" [declare "a" .struct charTriple, declare "b" .long none,
    declare "c" .struct charTriple, declare "d" .long none,
    declare "e" .struct charTriple, declare "f" .long none,
    declare "g" .struct charTriple, declare "h" .long none]

/-- With the structs first, the same objects fit. -/
def grouped : FunctionDef :=
  voidFunction "grouped" [declare "a" .struct charTriple, declare "c" .struct charTriple,
    declare "b" .long none, declare "d" .long none]

end ClaudeC99
