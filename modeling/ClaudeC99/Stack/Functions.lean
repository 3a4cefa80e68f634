import ClaudeC99.Stack.Scan

/-! The code of a function: prologue, parameters, body and implicit epilogue. -/

namespace ClaudeC99

open X86 StateExcept Bump

variable {u : CodeGen} {c lo : Nat} {objs : List Request} {Γ : Scope} {R : Outcome} {α : Type}

/-- The frame slot that a parameter is copied to, if it has a name. -/
def Param.object (p : Param) : Option Request :=
  if p.name = "" then none
  else if isStructOrUnionKind p.declType then
    p.fullType.map fun t => ⟨(structSlot t).1, (structSlot t).2⟩
  else some ⟨typeKindBytes p.declType, typeKindBytes p.declType⟩

theorem Param.object_scalar {p : Param} (named : p.name ≠ "")
    (scalar : isStructOrUnionKind p.declType = false) :
    p.object = some ⟨typeKindBytes p.declType, typeKindBytes p.declType⟩ := by
  simp [object, named, scalar]

theorem Param.object_record {p : Param} (named : p.name ≠ "")
    (record : isStructOrUnionKind p.declType = true) :
    p.object = p.fullType.map fun t => ⟨(structSlot t).1, (structSlot t).2⟩ := by
  simp [object, named, record]

theorem straight_addParam {p : Param} {size align : Nat} {isUnsigned : Bool} {k : Nat → Gen α}
    (rest : ∀ offset, Neutral u c (k offset)) :
    Straight u c [⟨size, align⟩] (addParam p size align isUnsigned >>= k) :=
  straight_declare _ _ _ _ _ _ _ _ rest

@[simp] theorem storeParamReg_keeps (size : Nat) (offset : Int) (r : Reg) :
    (storeParamReg size offset r).keepsStack = true := by
  unfold storeParamReg
  split <;> rfl

@[simp] theorem plain_copyParam (size : Nat) (isUnsigned : Bool) (src offset : Int) :
    Plain (copyParam size isUnsigned src offset) := by
  simp [copyParam, emitStoreLocal]

theorem straight_scalarParam {p : Param} (named : p.name ≠ "")
    (scalar : isStructOrUnionKind p.declType = false) {isUnsigned : Bool} {k : Nat → Gen α}
    (rest : ∀ offset, Neutral u c (k offset)) : Straight u c p.object.toList
      (addParam p (typeKindBytes p.declType) (typeKindBytes p.declType) isUnsigned >>= k) := by
  rw [p.object_scalar named scalar]
  exact straight_addParam rest

theorem straight_unnamed {p : Param} (unnamed : p.name = "") :
    Straight u c p.object.toList (pure () : Gen Unit) := by
  simp only [Param.object, unnamed, if_true, Option.toList_none]
  exact .of_neutral fun _ => .pure _

theorem straight_bindRegParam (i : Nat) {p : Param}
    (scalar : isStructOrUnionKind p.declType = false) :
    Straight u c p.object.toList (bindRegParam i p) := by
  unfold bindRegParam
  split
  next named => exact straight_scalarParam named scalar fun _ => neutral_emit (by simp)
  next unnamed => exact straight_unnamed (not_not.mp unnamed)

theorem straight_bindStackParam (src : Int) {p : Param}
    (scalar : isStructOrUnionKind p.declType = false) :
    Straight u c p.object.toList (bindStackParam src p) := by
  unfold bindStackParam
  split
  next named => exact straight_scalarParam named scalar fun _ _ => emits_emitAll (by simp)
  next unnamed => exact straight_unnamed (not_not.mp unnamed)

theorem straight_bindScalarParams {ps : List Param}
    (scalar : ∀ p ∈ ps, isStructOrUnionKind p.declType = false) (i : Nat) :
    Straight u 0 (ps.flatMap fun p => p.object.toList) (bindScalarParams i ps) := by
  induction ps generalizing i with
  | nil => exact .of_neutral fun _ => .pure _
  | cons p ps ih =>
    have own := scalar p List.mem_cons_self
    have rest := ih (fun q hq => scalar q (List.mem_cons_of_mem p hq)) (i + 1)
    rw [List.flatMap_cons, bindScalarParams]
    split
    · exact (straight_bindRegParam i own).bind fun _ => rest
    · exact (straight_bindStackParam _ own).bind fun _ => rest

theorem straight_recordParam {p : Param} (named : p.name ≠ "")
    (record : isStructOrUnionKind p.declType = true) {k : CType → Nat → Gen Unit}
    (rest : ∀ t offset, Neutral u c (k t offset)) : Straight u c p.object.toList (do
      let t ← nonNull p.fullType
      let offset ← addParam p (structSlot t).1 (structSlot t).2 false
      k t offset) := by
  rw [p.object_record named record]
  cases p.fullType with
  | none =>
    intro cg a cg' _ run
    obtain ⟨_, _, hnull, _⟩ := yields_bind.mp run
    exact absurd hnull yields_throw
  | some t =>
    rw [nonNull, pure_bind]
    exact straight_addParam (rest t)

theorem straight_bindPassedInReg (slot : ArgSlot) {p : Param} (named : p.name ≠ "") :
    Straight u 0 p.object.toList (bindPassedInReg slot p) := by
  unfold bindPassedInReg
  split
  next record =>
    refine straight_recordParam named record fun t offset _ => ?_
    refine .seq (emits_emit rfl) fun _ => ?_
    exact emits_emitAll (by simp [Instr.keepsStack])
  next scalar =>
    have scalar : isStructOrUnionKind p.declType = false := by simpa using scalar
    split
    · exact straight_scalarParam named scalar fun _ => neutral_emit rfl
    · exact straight_scalarParam named scalar fun _ => neutral_emit (by simp)

theorem straight_bindPassedOnStack (slot : ArgSlot) {p : Param} (named : p.name ≠ "") :
    Straight u 0 p.object.toList (bindPassedOnStack slot p) := by
  unfold bindPassedOnStack
  dsimp only
  split
  next record =>
    refine straight_recordParam named record fun t offset _ => emits_emitAll ?_
    simp [Instr.keepsStack, Reg.isStack]
  next scalar =>
    have scalar : isStructOrUnionKind p.declType = false := by simpa using scalar
    split
    · refine straight_scalarParam named scalar fun _ _ => emits_emitAll ?_
      simp [loadFp, storeFp, Instr.keepsStack]
    · exact straight_scalarParam named scalar fun _ _ => emits_emitAll (by simp)

/-- The objects of one pass over the placed parameters. -/
def passObjects (mem : Bool) (placed : List (ArgSlot × Param)) : List Request :=
  placed.flatMap fun sp => if sp.1.mem = mem then sp.2.object.toList else []

theorem straight_bindPlaced (mem : Bool) (slot : ArgSlot) (p : Param) :
    Straight u 0 (if slot.mem = mem then p.object.toList else []) (bindPlaced mem slot p) := by
  unfold bindPlaced
  by_cases named : p.name = ""
  · rw [if_pos (Or.inl named)]
    split
    · exact straight_unnamed named
    · exact .of_neutral fun _ => .pure _
  by_cases same : slot.mem = mem
  · have placed : ¬(p.name = "" ∨ slot.mem ≠ mem) := by simp [named, same]
    rw [if_pos same, if_neg placed]
    split
    · exact straight_bindPassedOnStack slot named
    · exact straight_bindPassedInReg slot named
  · rw [if_neg same, if_pos (Or.inr same)]
    exact .of_neutral fun _ => .pure _

theorem straight_bindPass (mem : Bool) (placed : List (ArgSlot × Param)) :
    Straight u 0 (passObjects mem placed) (bindPass mem placed) := by
  induction placed with
  | nil => exact .of_neutral fun _ => .pure _
  | cons sp rest ih => exact (straight_bindPlaced mem sp.1 sp.2).bind fun _ => ih

/-- The objects of the parameters, in the order in which the prologue places them. -/
def paramObjects (f : FunctionDef) : List Request :=
  if needsLayoutPrologue f then
    let placed := (paramLayout f.toFunctionSig).items.zip f.params
    passObjects false placed ++ passObjects true placed
  else f.params.flatMap fun p => p.object.toList

theorem straight_bindParams (f : FunctionDef) :
    Straight u 0 (paramObjects f) (bindParams f) := by
  unfold bindParams paramObjects
  split
  · exact .seq (fun _ => .errorIf _ _) fun _ =>
      (straight_bindPass false _).bind fun _ => straight_bindPass true _
  next scalar =>
    refine straight_bindScalarParams (fun p hp => ?_) 0
    have plain := scalar
    simp only [needsLayoutPrologue, Bool.or_eq_true, not_or, List.any_eq_true, not_exists,
      not_and] at plain
    simpa using (plain.2 p hp).1

def prologue (stackSize : Nat) : List Asm :=
  [.push .rbp, movReg .qword .rbp .rsp, subRsp stackSize]

def saveCalleeRegs : List Asm :=
  [.store .qword (frame 8) .rbx, .store .qword (frame 16) .r12, .store .qword (frame 24) .r13,
    .store .qword (frame 32) .r14, .store .qword (frame 40) .r15]

theorem yields_emitPrologue {n : Nat} (pos : 0 < n) {cg cg' : CodeGen} {x : Unit}
    (run : Yields (emitPrologue n) cg x cg') :
    cg' = (cg.print (prologue n)).print saveCalleeRegs := by
  unfold emitPrologue at run
  rw [if_pos pos] at run
  obtain ⟨_, _, h₁, run⟩ := yields_bind.mp run
  obtain rfl := yields_emitAll.mp h₁
  obtain ⟨_, _, h₂, run⟩ := yields_bind.mp run
  obtain rfl := yields_emitAll.mp h₂
  obtain rfl := yields_emitAll.mp run
  simp only [CodeGen.print_append]
  rfl

/-- The register save area of a variadic function. -/
def saveArea (f : FunctionDef) : List Request := if f.isVariadic then [⟨176, 16⟩] else []

/-- The slot of the hidden return pointer. -/
def sretArea (f : FunctionDef) : List Request := if f.returnsMemoryStruct then [⟨8, 8⟩] else []

@[simp] theorem plain_saveArgRegs (rso : Int) : Plain (saveArgRegs rso) := by
  rw [saveArgRegs, plain_append]
  refine ⟨by simp [Instr.keepsStack], ?_⟩
  intro i hi
  obtain ⟨_, _, rfl⟩ := List.mem_map.mp hi
  rfl

/-- What a part of the prologue does: it prints plain lines and places objects. -/
structure Prepares (objs : List Request) (cg cg' : CodeGen) : Prop where
  code : ∃ seg, cg'.output = cg.output ++ seg ∧
    ExprCode cg.pushDepth [] cg.labelCount seg [] cg'.labelCount
  scope : cg'.scope = cg.scope
  functions : cg'.functions = cg.functions
  slots : cg'.slots = cg.slots ++ blocks cg.stackOffset objs
  offset : cg'.stackOffset = placeAll cg.stackOffset objs

/-- No struct temporary is handed out. -/
structure KeepsTemps (cg cg' : CodeGen) : Prop where
  temps : cg'.temps = cg.temps
  cursor : cg'.structRetScratchCursor = cg.structRetScratchCursor

theorem Prepares.trans {objs₁ objs₂ : List Request} {cg cg₁ cg₂ : CodeGen}
    (first : Prepares objs₁ cg cg₁) (second : Prepares objs₂ cg₁ cg₂) :
    Prepares (objs₁ ++ objs₂) cg cg₂ := by
  obtain ⟨seg₁, out₁, code₁⟩ := first.code
  obtain ⟨seg₂, out₂, code₂⟩ := second.code
  have depth : cg₁.pushDepth = cg.pushDepth := congrArg Scope.depth first.scope
  rw [depth] at code₂
  refine ⟨⟨seg₁ ++ seg₂, ?_, code₁.append code₂⟩, second.scope.trans first.scope,
    second.functions.trans first.functions, ?_, ?_⟩
  · rw [out₂, out₁, List.append_assoc]
  · rw [second.slots, first.slots, first.offset, blocks_append, List.append_assoc]
  · rw [second.offset, first.offset, placeAll_append]

theorem prepares_print (cg : CodeGen) {is : List Asm} (plain : Plain is) :
    Prepares [] cg (cg.print is) := by
  refine ⟨⟨_, rfl, ?_⟩, rfl, rfl, (List.append_nil _).symm, rfl⟩
  exact ExprCode.lines (S := []) plain

theorem prepares_setupVariadic {f : FunctionDef} {cg cg' : CodeGen} {x : Unit}
    (run : Yields (setupVariadic f) cg x cg') : Prepares (saveArea f) cg cg' ∧
      KeepsTemps cg cg' := by
  obtain ⟨_, _, hget, run⟩ := yields_bind.mp run
  obtain ⟨rfl, rfl⟩ := yields_get.mp hget
  unfold saveArea
  split at run
  next variadic =>
    rw [if_pos variadic]
    obtain ⟨_, _, hset, run⟩ := yields_bind.mp run
    obtain rfl := yields_set.mp hset
    obtain ⟨_, _, hrec, run⟩ := yields_bind.mp run
    obtain rfl := yields_modify.mp hrec
    obtain rfl := yields_emitAll.mp run
    have place : alignUp cg.stackOffset 16 + 176 = Request.place cg.stackOffset ⟨176, 16⟩ := by
      simp only [alignUp, Request.place, roundUp]
      omega
    refine ⟨⟨⟨_, rfl, ?_⟩, rfl, rfl, ?_, place⟩, rfl, rfl⟩
    · exact ExprCode.lines (S := []) (plain_saveArgRegs _)
    · rw [blocks, ← place]
      rfl
  next fixed =>
    rw [if_neg fixed]
    obtain rfl := yields_set.mp run
    exact ⟨⟨⟨[], (List.append_nil _).symm, .nil _ _ _⟩, rfl, rfl, (List.append_nil _).symm, rfl⟩,
      rfl, rfl⟩

theorem prepares_saveSret {f : FunctionDef} {cg cg' : CodeGen} {x : Unit}
    (aligned : 8 ∣ cg.stackOffset) (run : Yields (saveSret f) cg x cg') :
    Prepares (sretArea f) cg cg' ∧ KeepsTemps cg cg' := by
  obtain ⟨_, _, hget, run⟩ := yields_bind.mp run
  obtain ⟨rfl, rfl⟩ := yields_get.mp hget
  unfold sretArea
  split at run
  next memory =>
    rw [if_pos memory]
    obtain ⟨_, _, hset, run⟩ := yields_bind.mp run
    obtain rfl := yields_set.mp hset
    obtain ⟨_, _, hrec, run⟩ := yields_bind.mp run
    obtain rfl := yields_modify.mp hrec
    obtain rfl := yields_emit.mp run
    have place : cg.stackOffset + 8 = Request.place cg.stackOffset ⟨8, 8⟩ :=
      (roundUp_of_dvd (by omega) (Nat.dvd_add aligned (Nat.dvd_refl 8))).symm
    refine ⟨⟨⟨_, rfl, ?_⟩, rfl, rfl, ?_, place⟩, rfl, rfl⟩
    · exact ExprCode.lines (S := []) (by simp [Instr.keepsStack])
    · rw [blocks, ← place]
      rfl
  next regs =>
    rw [if_neg regs]
    obtain ⟨_, rfl⟩ := yields_pure.mp run
    exact ⟨⟨⟨[], (List.append_nil _).symm, .nil _ _ _⟩, rfl, rfl, (List.append_nil _).symm, rfl⟩,
      rfl, rfl⟩

theorem prepares_declareFuncName {name : String} {cg cg' : CodeGen} {x : Unit}
    (run : Yields (declareFuncName name) cg x cg') : Prepares [] cg cg' ∧
      KeepsTemps cg cg' := by
  obtain ⟨id, _, hnew, run⟩ := yields_bind.mp run
  obtain ⟨_, _, hget, hnew⟩ := yields_bind.mp hnew
  obtain ⟨rfl, rfl⟩ := yields_get.mp hget
  obtain ⟨_, _, hset, hnew⟩ := yields_bind.mp hnew
  obtain rfl := yields_set.mp hset
  obtain ⟨rfl, rfl⟩ := yields_pure.mp hnew
  obtain ⟨_, _, hstatic, run⟩ := yields_bind.mp run
  obtain rfl := yields_modify.mp hstatic
  obtain rfl := yields_modify.mp run
  refine ⟨⟨⟨[], (List.append_nil _).symm, ?_⟩, rfl, rfl, (List.append_nil _).symm, rfl⟩, rfl, rfl⟩
  exact (ExprCode.nil _ _ _).skip

theorem prepares_bindParams {f : FunctionDef} {cg cg' : CodeGen} {x : Unit}
    (run : Yields (bindParams f) cg x cg') :
    Prepares (paramObjects f) cg cg' ∧ Grows 0 (paramObjects f) cg cg' := by
  obtain ⟨scope, grows, code⟩ := straight_bindParams (u := cg) f cg x cg' rfl run
  exact ⟨⟨code, scope, grows.functions, grows.slots, grows.offset⟩, grows⟩

section divides

variable {d : Nat} {f : Expr → Nat} {g : DeclInfo → Nat}

mutual

theorem dvd_total (h : ∀ e, d ∣ f e) : ∀ e : Expr, d ∣ e.total f
  | .intLiteral _ _ _ | .charLiteral _ | .floatLiteral _ _ | .stringLiteral _ | .varRef _
  | .sizeofType _ _ => h _
  | .assignment _ e | .addrOf e | .deref e | .memberAccess e _ | .arrowAccess e _ | .sizeofExpr e
  | .unaryOp _ e | .prefixIncDec _ e | .postfixIncDec _ e | .cast _ _ _ e | .designatedMember _ e
  | .designatedIndex _ e | .vaEnd e | .vaArg e _ | .compoundLiteral _ _ _ _ e =>
    Nat.dvd_add (h _) (dvd_total h e)
  | .assignmentTo e₁ e₂ | .arrayIndex e₁ e₂ | .binaryOp _ e₁ e₂ _ | .comma e₁ e₂ | .vaStart e₁ e₂
  | .vaCopy e₁ e₂ => Nat.dvd_add (Nat.dvd_add (h _) (dvd_total h e₁)) (dvd_total h e₂)
  | .conditional e₁ e₂ e₃ =>
    Nat.dvd_add (Nat.dvd_add (Nat.dvd_add (h _) (dvd_total h e₁)) (dvd_total h e₂)) (dvd_total h e₃)
  | .functionCall _ _ args => Nat.dvd_add (h _) (dvd_totalList h args)
  | .indirectCall callee args =>
    Nat.dvd_add (Nat.dvd_add (h _) (dvd_total h callee)) (dvd_totalList h args)
  | .initializerList items => Nat.dvd_add (h _) (dvd_totalList h items)

theorem dvd_totalList (h : ∀ e, d ∣ f e) : ∀ es : List Expr, d ∣ Expr.totalList f es
  | [] => Nat.dvd_zero d
  | e :: es => Nat.dvd_add (dvd_total h e) (dvd_totalList h es)

end

theorem dvd_totalOption (h : ∀ e, d ∣ f e) : ∀ e : Option Expr, d ∣ Expr.totalOption f e
  | none => Nat.dvd_zero d
  | some e => dvd_total h e

mutual

theorem dvd_stmtTotal (h : ∀ e, d ∣ f e) (hg : ∀ info, d ∣ g info) :
    ∀ s : Stmt, d ∣ s.total g f
  | .declaration info init => Nat.dvd_add (hg info) (dvd_totalOption h init)
  | .declList decls => dvd_stmtTotalList h hg decls
  | .returnStmt value => dvd_totalOption h value
  | .ifStmt cond thenBody elseBody =>
    Nat.dvd_add (Nat.dvd_add (dvd_total h cond) (dvd_stmtTotal h hg thenBody))
      (dvd_stmtTotalOption h hg elseBody)
  | .whileStmt cond body => Nat.dvd_add (dvd_total h cond) (dvd_stmtTotal h hg body)
  | .doWhileStmt body cond => Nat.dvd_add (dvd_stmtTotal h hg body) (dvd_total h cond)
  | .forStmt init cond update body =>
    Nat.dvd_add (Nat.dvd_add (Nat.dvd_add (dvd_stmtTotalOption h hg init) (dvd_totalOption h cond))
      (dvd_totalOption h update)) (dvd_stmtTotal h hg body)
  | .switchStmt value body => Nat.dvd_add (dvd_total h value) (dvd_stmtTotal h hg body)
  | .caseSection _ body | .defaultSection body | .labelStmt _ body => dvd_stmtTotal h hg body
  | .block stmts => dvd_stmtTotalList h hg stmts
  | .exprStmt value => dvd_total h value
  | .breakStmt | .continueStmt | .gotoStmt _ | .typedefDecl _ => Nat.dvd_zero d

theorem dvd_stmtTotalOption (h : ∀ e, d ∣ f e) (hg : ∀ info, d ∣ g info) :
    ∀ s : Option Stmt, d ∣ Stmt.totalOption g f s
  | none => Nat.dvd_zero d
  | some s => dvd_stmtTotal h hg s

theorem dvd_stmtTotalList (h : ∀ e, d ∣ f e) (hg : ∀ info, d ∣ g info) :
    ∀ ss : List Stmt, d ∣ Stmt.totalList g f ss
  | [] => Nat.dvd_zero d
  | s :: ss => Nat.dvd_add (dvd_stmtTotal h hg s) (dvd_stmtTotalList h hg ss)

end

end divides

theorem dvd_structRetBytes (u : CodeGen) (e : Expr) : 8 ∣ structRetBytes u e := by
  have round (n : Nat) : 8 ∣ alignUp n 8 + 8 :=
    Nat.dvd_add (dvd_roundUp n 8) (Nat.dvd_refl 8)
  unfold structRetBytes
  split
  · split
    · exact round _
    · exact Nat.dvd_zero 8
  · split
    · exact round _
    · exact Nat.dvd_zero 8
  · exact Nat.dvd_zero 8

theorem dvd_computeStructRetBytes (u : CodeGen) (body : List Stmt) :
    8 ∣ computeStructRetBytes u body :=
  dvd_stmtTotalList (dvd_structRetBytes u) (fun _ => Nat.dvd_zero 8) body

/-- Where the struct temporaries of a function start, and where they end at the latest. -/
def scratchStart (f : FunctionDef) : Nat := placeAll 40 (saveArea f)

def scratchEnd (u : CodeGen) (f : FunctionDef) : Nat :=
  scratchStart f + computeStructRetBytes u f.body

theorem dvd_scratchStart (f : FunctionDef) : 8 ∣ scratchStart f := by
  unfold scratchStart saveArea
  split <;> decide

theorem dvd_scratchEnd (u : CodeGen) (f : FunctionDef) : 8 ∣ scratchEnd u f :=
  Nat.dvd_add (dvd_scratchStart f) (dvd_computeStructRetBytes u f.body)

theorem frameSize_pos (u : CodeGen) (f : FunctionDef) : 0 < frameSize u f := by
  have le : frameBytes u f ≤ frameSize u f := le_roundUp (by omega)
  unfold frameBytes at le
  omega

/-- What the prologue of `f` leaves behind. -/
structure SetUp (f : FunctionDef) (cg cg' : CodeGen) : Prop where
  code : ∃ seg, cg'.output = cg.output ++ lines cg.pushDepth (prologue (frameSize cg f)) ++ seg ∧
    ExprCode cg.pushDepth [] cg.labelCount seg [] cg'.labelCount
  scope : cg'.scope = cg.scope
  functions : cg'.functions = cg.functions
  slots : cg'.slots = cg.slots ++ blocks cg.stackOffset (saveArea f) ++
    blocks (scratchEnd cg f) (sretArea f ++ paramObjects f)
  offset : cg'.stackOffset = placeAll (scratchEnd cg f) (sretArea f ++ paramObjects f)
  temps : ∃ ts, cg'.temps = cg.temps ++ ts ∧ Temps (scratchStart f) ts cg'.structRetScratchCursor
  budget : cg'.structRetScratchCursor ≤ scratchStart f

theorem setUp_setupFrame {f : FunctionDef} {cg cg' : CodeGen} {x : Unit}
    (start : cg.stackOffset = 40) (run : Yields (setupFrame f) cg x cg') : SetUp f cg cg' := by
  obtain ⟨_, _, hget, run⟩ := yields_bind.mp run
  obtain ⟨rfl, rfl⟩ := yields_get.mp hget
  obtain ⟨_, cg₁, hprologue, run₁⟩ := yields_bind.mp run
  obtain ⟨_, cg₂, hvariadic, run₂⟩ := yields_bind.mp run₁
  obtain ⟨_, _, hreserve, run₃⟩ := yields_bind.mp run₂
  obtain rfl := yields_modify.mp hreserve
  obtain ⟨_, cg₄, hsret, run₄⟩ := yields_bind.mp run₃
  obtain ⟨_, cg₅, hname, run₅⟩ := yields_bind.mp run₄
  have printed := yields_emitPrologue (frameSize_pos cg f) hprologue
  rw [printed] at hvariadic
  obtain ⟨variadic, keeps₁⟩ := prepares_setupVariadic hvariadic
  have saves : Prepares (saveArea f) (cg.print (prologue (frameSize cg f))) cg₂ :=
    (prepares_print _ (by simp [saveCalleeRegs, Instr.keepsStack])).trans variadic
  have cursor : cg₂.stackOffset = scratchStart f := by
    rw [saves.offset]
    exact congrArg (placeAll · (saveArea f)) start
  have aligned : 8 ∣ cg₂.stackOffset + computeStructRetBytes cg f.body :=
    cursor ▸ dvd_scratchEnd cg f
  obtain ⟨sret, keeps₂⟩ := prepares_saveSret aligned hsret
  obtain ⟨named, keeps₃⟩ := prepares_declareFuncName hname
  obtain ⟨bound, grows⟩ := prepares_bindParams run₅
  have params := (sret.trans named).trans bound
  rw [List.append_nil] at params
  obtain ⟨seg₁, out₁, code₁⟩ := saves.code
  obtain ⟨seg₂, out₂, code₂⟩ := params.code
  have depth : cg₂.pushDepth = cg.pushDepth := congrArg Scope.depth saves.scope
  have cursor₅ : cg₅.structRetScratchCursor = scratchStart f := by
    rw [keeps₃.cursor, keeps₂.cursor]
    exact cursor
  have temps₅ : cg₅.temps = cg.temps := by
    rw [keeps₃.temps, keeps₂.temps]
    exact keeps₁.temps
  obtain ⟨ts, grown, temps⟩ := grows.temps
  refine ⟨⟨seg₁ ++ seg₂, ?_, ?_⟩, params.scope.trans saves.scope,
    params.functions.trans saves.functions, ?_, ?_, ⟨ts, ?_, ?_⟩, ?_⟩
  · rw [out₂]
    simp only [out₁, CodeGen.print, List.append_assoc]
  · rw [depth] at code₂
    exact code₁.append code₂
  · rw [params.slots, saves.slots]
    simp only [scratchEnd, cursor, CodeGen.print]
  · rw [params.offset]
    simp only [scratchEnd, cursor]
  · rw [grown, temps₅]
  · rwa [← cursor₅]
  · have le := grows.budget
    omega

theorem yields_addUserLabels {names : List String} {cg cg' : CodeGen} {x : Unit}
    (distinct : cg.userLabels.Nodup) (run : Yields (addUserLabels names) cg x cg') :
    cg' = { cg with userLabels := cg.userLabels ++ names } ∧ (cg.userLabels ++ names).Nodup := by
  induction names generalizing cg with
  | nil =>
    obtain ⟨_, rfl⟩ := yields_pure.mp run
    simpa using distinct
  | cons name names ih =>
    obtain ⟨_, _, hget, run⟩ := yields_bind.mp run
    obtain ⟨rfl, rfl⟩ := yields_get.mp hget
    obtain ⟨_, _, herr, run⟩ := yields_bind.mp run
    unfold errorIf at herr
    split at herr
    · exact absurd herr yields_throw
    next fresh =>
      obtain ⟨_, rfl⟩ := yields_pure.mp herr
      obtain ⟨_, _, hset, run⟩ := yields_bind.mp run
      obtain rfl := yields_set.mp hset
      have distinct' : (cg.userLabels ++ [name]).Nodup := by
        simpa [List.nodup_append, distinct] using fun a ha (h : a = name) => fresh (h ▸ ha)
      obtain ⟨rfl, nodup⟩ := ih distinct' run
      simpa using nodup

/-- The code after the last statement of a function. -/
def implicitEpilogue (f : FunctionDef) : List Asm :=
  if (f.declType = .void ∨ f.name = "main") ∧ endsInReturn f.body = false then
    (if f.name = "main" then [movImm .dword .rax 0] else []) ++ epilogue
  else []

theorem yields_emitImplicitEpilogue {f : FunctionDef} {cg cg' : CodeGen} {x : Unit}
    (run : Yields (emitImplicitEpilogue f) cg x cg') : cg' = cg.print (implicitEpilogue f) := by
  unfold emitImplicitEpilogue at run
  unfold implicitEpilogue
  split at run
  next implicit =>
    obtain ⟨_, _, h₁, run⟩ := yields_bind.mp run
    obtain rfl := yields_emitAll.mp h₁
    obtain rfl := yields_emitAll.mp run
    rw [if_pos implicit, CodeGen.print_append]
    rfl
  next explicit =>
    obtain ⟨_, rfl⟩ := yields_pure.mp run
    rw [if_neg explicit]
    simp [CodeGen.print, lines]

/-- The frame objects of a function, in the order they are placed. -/
def frameObjects (f : FunctionDef) : List Request :=
  sretArea f ++ paramObjects f ++ Stmt.literalsList f.body ++ Stmt.objectsList f.body

/-- `f`, compiled from `cg` to `cg'`: `body` is its body with the literals placed, `setup` the code
after the prologue and `code` that of the body. -/
structure FunctionCode (f : FunctionDef) (cg cg' : CodeGen) (body : List Stmt)
    (setup code : List Line) (mid : Nat) : Prop where
  output : cg'.output = cg.output ++ (lines 0 (prologue (frameSize cg f)) ++ setup ++ code ++
    lines 0 (implicitEpilogue f))
  setupCode : ExprCode 0 [] cg.labelCount setup [] mid
  scanned : ∃ before after, Yields (scanStmts f.body) before body after
  same : SameStmts cg f.body body
  bodyCode : StmtCode f.name (userLabelsOfList f.body) cg.breakStack cg.switchStack 0 mid []
    (.list 0 body) code cg'.labelCount
  labels : (userLabelsOfList f.body).Nodup
  slots : cg'.slots = savedRegSlots ++ blocks 40 (saveArea f) ++
    blocks (scratchEnd cg f) (frameObjects f)
  temps : ∃ c, Temps (scratchStart f) cg'.temps c ∧ c ≤ scratchEnd cg f
  breakStack : cg'.breakStack = cg.breakStack
  switchStack : cg'.switchStack = cg.switchStack

theorem functionCode {f : FunctionDef} {cg cg' : CodeGen} {x : Unit}
    (run : Yields (codegenFunction f) cg x cg') :
    ∃ body setup code mid, FunctionCode f cg cg' body setup code mid := by
  obtain ⟨_, cg₀, hbegin, run₀⟩ := yields_bind.mp run
  have begun := yields_modify.mp hbegin
  obtain ⟨_, cg₁, hlabels, run₁⟩ := yields_bind.mp run₀
  obtain ⟨_, cg₂, hsetup, run₂⟩ := yields_bind.mp run₁
  obtain ⟨body, cg₃, hscan, run₃⟩ := yields_bind.mp run₂
  obtain ⟨_, cg₄, hbody, run₄⟩ := yields_bind.mp run₃
  have ended := yields_emitImplicitEpilogue run₄
  subst begun
  obtain ⟨rfl, nodup⟩ := yields_addUserLabels List.nodup_nil hlabels
  have setUp := setUp_setupFrame rfl hsetup
  have fns₂ : cg₂.functions = cg.functions := setUp.functions
  obtain ⟨same, scanned⟩ := places_scanStmts (u := cg) f.body cg₂ body cg₃ hscan
  have at₃ {α : Type} (g : CodeGen → α) := congrArg g scanned
  have scope₃ : cg₃.scope = cg₂.scope := at₃ CodeGen.scope
  obtain ⟨scope, code, _, _, out, grows, bodyCode, rfl, rfl⟩ :=
    compiles_codegenStatements (u := cg) [] 0 body cg₃.scope cg₃.labelCount cg₃ _ cg₄
      ((at₃ CodeGen.functions).trans fns₂) rfl rfl hbody
  obtain ⟨setup, setupOut, setupCode⟩ := setUp.code
  obtain ⟨ts₁, grown₁, temps₁⟩ := setUp.temps
  obtain ⟨ts₂, grown₂, temps₂⟩ := grows.temps
  rw [at₃ CodeGen.structRetScratchCursor] at temps₂
  have budget : cg₄.structRetScratchCursor ≤ scratchEnd cg f := by
    have start := setUp.budget
    have spent := grows.budget
    rw [at₃ CodeGen.structRetScratchCursor, same.cost] at spent
    exact spent.trans (Nat.add_le_add_right start _)
  have scope₂ : cg₂.scope =
      ⟨f.name, userLabelsOfList f.body, cg.breakStack, cg.switchStack, 0⟩ := setUp.scope
  have scope₄ : cg₄.scope = cg₂.scope := scope.trans scope₃
  rw [scope₃, scope₂, at₃ CodeGen.labelCount] at bodyCode
  refine ⟨body, setup, code, cg₂.labelCount, ?_, setupCode, ⟨_, _, hscan⟩, same, ?_, nodup, ?_, ?_, ?_, ?_⟩
  · have depth : cg₄.pushDepth = 0 := congrArg Scope.depth (scope₄.trans scope₂)
    rw [ended, CodeGen.print, depth]
    simp only [out, at₃ CodeGen.output, setupOut, List.append_assoc]
    rfl
  · rw [ended]
    exact bodyCode
  · have fixed := setUp.slots
    have moved := setUp.offset
    rw [ended]
    change cg₄.slots = _
    rw [grows.slots, at₃ CodeGen.slots, at₃ CodeGen.stackOffset, fixed, moved, same.objects]
    simp only [frameObjects, blocks_append, placeAll_append, List.append_assoc]
    rfl
  · rw [ended]
    refine ⟨cg₄.structRetScratchCursor, ?_, budget⟩
    change Temps _ cg₄.temps _
    rw [grown₂, at₃ CodeGen.temps, grown₁]
    exact temps₁.append temps₂
  · rw [ended]
    exact congrArg Scope.breakStack (scope₄.trans scope₂)
  · rw [ended]
    exact congrArg Scope.switchStack (scope₄.trans scope₂)

end ClaudeC99
