import ClaudeC99.Codegen.Declaration
import ClaudeC99.Stack.Expressions

/-! Declarations: the objects they place in the frame, and the stack they leave alone. -/

namespace ClaudeC99

open X86 StateExcept Bump

/-- Where a statement stands: its function, the loops and switches around it, the words pushed. -/
structure Scope where
  func : String
  labels : List String
  breakStack : List BreakFrame
  switchStack : List SwitchCtx
  depth : Nat

def CodeGen.scope (cg : CodeGen) : Scope :=
  ⟨cg.currentFunc, cg.userLabels, cg.breakStack, cg.switchStack, cg.pushDepth⟩

/-- The part of the state that no statement changes, not even for a while. -/
def CodeGen.outline (cg : CodeGen) : CodeGen :=
  { cg.context with
    locals := []
    stackOffset := 0
    scopeStart := 0
    breakStack := []
    switchStack := []
    localStatics := []
    slots := [] }

/-- From `cg` to `cg'`, the objects `objs` are placed below the ones already there, and at most
`cost` bytes of struct temporaries are handed out. -/
structure Grows (cost : Nat) (objs : List Request) (cg cg' : CodeGen) : Prop where
  temps : ∃ ts, cg'.temps = cg.temps ++ ts ∧
    Temps cg.structRetScratchCursor ts cg'.structRetScratchCursor
  budget : cg'.structRetScratchCursor ≤ cg.structRetScratchCursor + cost
  slots : cg'.slots = cg.slots ++ blocks cg.stackOffset objs
  offset : cg'.stackOffset = placeAll cg.stackOffset objs
  outline : cg'.outline = cg.outline

namespace Grows

variable {c c₁ c₂ : Nat} {objs objs₁ objs₂ : List Request} {cg cg₁ cg₂ : CodeGen}

theorem trans (first : Grows c₁ objs₁ cg cg₁) (second : Grows c₂ objs₂ cg₁ cg₂) :
    Grows (c₁ + c₂) (objs₁ ++ objs₂) cg cg₂ := by
  obtain ⟨ts₁, grown₁, temps₁⟩ := first.temps
  obtain ⟨ts₂, grown₂, temps₂⟩ := second.temps
  have budget₁ := first.budget
  have budget₂ := second.budget
  refine ⟨⟨ts₁ ++ ts₂, ?_, temps₁.append temps₂⟩, by omega, ?_, ?_,
    second.outline.trans first.outline⟩
  · rw [grown₂, grown₁, List.append_assoc]
  · rw [second.slots, first.slots, first.offset, blocks_append, List.append_assoc]
  · rw [second.offset, first.offset, placeAll_append]

theorem mono (h : Grows c₁ objs cg cg₁) (le : c₁ ≤ c₂) : Grows c₂ objs cg cg₁ :=
  ⟨h.temps, h.budget.trans (Nat.add_le_add_left le _), h.slots, h.offset, h.outline⟩

theorem functions (h : Grows c objs cg cg₁) : cg₁.functions = cg.functions := by
  have same : cg₁.outline.functions = cg.outline.functions := by rw [h.outline]
  exact same

/-- A step that hands nothing out. -/
theorem still (temps : cg₁.temps = cg.temps)
    (cursor : cg₁.structRetScratchCursor = cg.structRetScratchCursor)
    (slots : cg₁.slots = cg.slots) (offset : cg₁.stackOffset = cg.stackOffset)
    (outline : cg₁.outline = cg.outline) : Grows 0 [] cg cg₁ := by
  refine ⟨⟨[], ?_, ?_⟩, cursor.le, ?_, offset, outline⟩
  · rw [temps, List.append_nil]
  · rw [cursor]
    exact .nil _
  · rw [slots, blocks, List.append_nil]

end Grows

theorem Extends.scope {b c lo : Nat} {cg cg' : CodeGen} (h : Extends b c lo [] [] cg cg')
    (depth : cg.pushDepth = b) : cg'.scope = cg.scope := by
  have same : ({ cg'.context with pushDepth := b }).scope =
      ({ cg.context with pushDepth := b }).scope := by rw [h.context]
  have depth' : cg'.pushDepth = b := h.depth
  unfold CodeGen.scope at same ⊢
  rw [depth, depth']
  exact same

theorem Extends.grows {b c lo : Nat} {cg cg' : CodeGen} (h : Extends b c lo [] [] cg cg') :
    Grows c [] cg cg' := by
  have same : ∀ {α : Type} (f : CodeGen → α), f cg'.context = f cg.context := fun f => by
    rw [h.context]
  refine ⟨h.temps, h.budget, ?_, same CodeGen.stackOffset, same CodeGen.outline⟩
  rw [blocks, List.append_nil]
  exact same CodeGen.slots

/-- `m` prints code of expressions only, and places the objects `objs`. -/
def Straight (u : CodeGen) (cost : Nat) (objs : List Request) {α : Type} (m : Gen α) : Prop :=
  ∀ cg a cg', cg.functions = u.functions → Yields m cg a cg' →
    cg'.scope = cg.scope ∧ Grows cost objs cg cg' ∧ ∃ seg, cg'.output = cg.output ++ seg ∧
      ExprCode cg.pushDepth [] cg.labelCount seg [] cg'.labelCount

section

variable {u : CodeGen} {c c₁ c₂ : Nat} {objs objs₁ objs₂ : List Request} {α β : Type}

namespace Straight

theorem of_neutral {m : Gen α} (h : Neutral u c m) : Straight u c [] m := by
  intro cg a cg' fns run
  have ext := h cg.pushDepth cg a cg' rfl fns run
  exact ⟨ext.scope rfl, ext.grows, ext.code⟩

theorem bind {m : Gen α} {k : α → Gen β} (first : Straight u c₁ objs₁ m)
    (second : ∀ a, Straight u c₂ objs₂ (k a)) :
    Straight u (c₁ + c₂) (objs₁ ++ objs₂) (m >>= k) := by
  intro cg a cg' fns run
  obtain ⟨x, cg₁, hm, hk⟩ := yields_bind.mp run
  obtain ⟨scope₁, grows₁, seg₁, out₁, code₁⟩ := first cg x cg₁ fns hm
  obtain ⟨scope₂, grows₂, seg₂, out₂, code₂⟩ := second x cg₁ a cg' (grows₁.functions.trans fns) hk
  have depth₁ : cg₁.pushDepth = cg.pushDepth := congrArg Scope.depth scope₁
  rw [depth₁] at code₂
  exact ⟨scope₂.trans scope₁, grows₁.trans grows₂, seg₁ ++ seg₂,
    by rw [out₂, out₁, List.append_assoc], code₁.append code₂⟩

/-- A first step that places nothing. -/
theorem seq {m : Gen α} {k : α → Gen β} (first : Neutral u 0 m)
    (second : ∀ a, Straight u c objs (k a)) : Straight u c objs (m >>= k) := by
  have both := bind (of_neutral first) second
  rwa [Nat.zero_add] at both

theorem mono {m : Gen α} (h : Straight u c₁ objs m) (le : c₁ ≤ c₂) : Straight u c₂ objs m :=
  fun cg a cg' fns run =>
    have ⟨scope, grows, code⟩ := h cg a cg' fns run
    ⟨scope, grows.mono le, code⟩

theorem get_bind {k : CodeGen → Gen α} (rest : ∀ cg, Straight u c objs (k cg)) :
    Straight u c objs (get >>= k) := by
  intro cg a cg' fns run
  obtain ⟨x, cg₁, hm, hk⟩ := yields_bind.mp run
  obtain ⟨rfl, rfl⟩ := yields_get.mp hm
  exact rest cg cg a cg' fns hk

protected theorem throw (message : String) : Straight u c objs (throw message : Gen α) :=
  fun _ _ _ _ run => absurd run yields_throw

end Straight

/-- The state with one more object placed in the frame. -/
def CodeGen.allocate (cg : CodeGen) (r : Request) (lv : LocalVar) : CodeGen :=
  { cg with
    stackOffset := r.place cg.stackOffset
    slots := cg.slots ++ [⟨r.place cg.stackOffset, r.size, r.alignment⟩]
    locals := cg.locals ++ [lv] }

theorem grows_allocate (cg : CodeGen) (r : Request) (lv : LocalVar) :
    Grows 0 [r] cg (cg.allocate r lv) :=
  ⟨⟨[], by simp [CodeGen.allocate], .nil _⟩, Nat.le_refl _, rfl, rfl, rfl⟩

theorem yields_codegenAddVar {name : String} {size align : Nat} {kind : TypeKind}
    {fullType : Option CType} {isConst isUnsigned isRegister : Bool} {cg cg' : CodeGen}
    {offset : Nat}
    (run : Yields (codegenAddVar name size align kind fullType isConst isUnsigned isRegister)
      cg offset cg') : offset = Request.place cg.stackOffset ⟨size, align⟩ ∧
      ∃ lv : LocalVar, lv.offset = offset ∧ cg' = cg.allocate ⟨size, align⟩ lv := by
  obtain ⟨_, _, hget, run⟩ := yields_bind.mp run
  obtain ⟨rfl, rfl⟩ := yields_get.mp hget
  obtain ⟨_, _, hset, run⟩ := yields_bind.mp run
  obtain rfl := yields_set.mp hset
  obtain ⟨_, _, hrec, run⟩ := yields_bind.mp run
  obtain rfl := yields_modify.mp hrec
  obtain ⟨_, _, hadd, run⟩ := yields_bind.mp run
  obtain rfl := yields_modify.mp hadd
  obtain ⟨rfl, rfl⟩ := yields_pure.mp run
  exact ⟨rfl, _, rfl, rfl⟩

theorem straight_codegenAddVar (name : String) (size align : Nat) (kind : TypeKind)
    (fullType : Option CType) (isConst isUnsigned isRegister : Bool) :
    Straight u 0 [⟨size, align⟩]
      (codegenAddVar name size align kind fullType isConst isUnsigned isRegister) := by
  intro cg a cg' _ run
  obtain ⟨_, lv, _, rfl⟩ := yields_codegenAddVar run
  exact ⟨rfl, grows_allocate cg _ lv, [], (List.append_nil _).symm, .nil _ _ _⟩

/-- A declared object with its initializer. -/
theorem straight_declare (name : String) (size align : Nat) (kind : TypeKind)
    (fullType : Option CType) (isConst isUnsigned isRegister : Bool) {k : Nat → Gen α}
    (init : ∀ offset, Neutral u c (k offset)) :
    Straight u c [⟨size, align⟩]
      (codegenAddVar name size align kind fullType isConst isUnsigned isRegister >>= k) := by
  have both := (straight_codegenAddVar (u := u) name size align kind fullType isConst isUnsigned
    isRegister).bind fun offset => .of_neutral (init offset)
  rwa [Nat.zero_add] at both

theorem straight_addLocalStatic (name : String) (localSize : Nat) (isConst isUnsigned : Bool)
    (sv : LocalStaticVar) : Straight u c [] (addLocalStatic name localSize isConst isUnsigned sv) := by
  intro cg a cg' _ run
  obtain ⟨id, _, hnew, run⟩ := yields_bind.mp run
  obtain ⟨_, _, hget, hnew⟩ := yields_bind.mp hnew
  obtain ⟨rfl, rfl⟩ := yields_get.mp hget
  obtain ⟨_, _, hset, hnew⟩ := yields_bind.mp hnew
  obtain rfl := yields_set.mp hset
  obtain ⟨rfl, rfl⟩ := yields_pure.mp hnew
  obtain ⟨_, _, hget, run⟩ := yields_bind.mp run
  obtain ⟨rfl, rfl⟩ := yields_get.mp hget
  obtain ⟨_, _, hadd, run⟩ := yields_bind.mp run
  obtain rfl := yields_modify.mp hadd
  obtain rfl := yields_modify.mp run
  refine ⟨rfl, Grows.mono ?_ (Nat.zero_le c), [], (List.append_nil _).symm,
    (ExprCode.nil _ _ _).skip⟩
  exact .still rfl rfl rfl rfl rfl

theorem neutral_checkStaticList (name : String) (allowed : Bool) :
    Neutral u c (checkStaticList name allowed) := fun _ => .errorIf _ _

theorem straight_genStaticArray (info : DeclInfo) (t : CType) (init : Option Expr) :
    Straight u c [] (genStaticArray info t init) := by
  refine .seq (neutral_nonNull _) fun elem => ?_
  refine .seq (neutral_checkStaticList _ _) fun _ => ?_
  exact straight_addLocalStatic _ _ _ _ _

theorem straight_genStaticRecord (info : DeclInfo) (t : CType) (init : Option Expr) :
    Straight u c [] (genStaticRecord info t init) := by
  refine .seq (fun _ => .errorIf _ _) fun _ => ?_
  refine .seq (neutral_checkStaticList _ _) fun _ => ?_
  exact straight_addLocalStatic _ _ _ _ _

theorem straight_genStaticScalar (info : DeclInfo) (init : Option Expr) :
    Straight u c [] (genStaticScalar info init) := by
  unfold genStaticScalar
  dsimp only
  split
  · exact straight_addLocalStatic _ _ _ _ _
  split
  · exact straight_addLocalStatic _ _ _ _ _
  · exact .seq (fun _ => .lift _) fun _ => straight_addLocalStatic _ _ _ _ _

theorem straight_genStaticDeclaration (info : DeclInfo) (init : Option Expr) :
    Straight u c [] (genStaticDeclaration info init) := by
  unfold genStaticDeclaration
  split
  · exact straight_genStaticArray _ _ _
  · exact straight_genStaticRecord _ _ _
  · exact straight_genStaticRecord _ _ _
  · exact straight_genStaticScalar _ _

variable {g : ExprGen}

theorem neutral_initDeclaredUnion (name : String) (t : CType) (offset : Int)
    {items : List ExprGen} (h : ∀ item ∈ items, Good u item) :
    Neutral u (itemsCost u items) (initDeclaredUnion name t offset items) := by
  refine fun _ => .get_bind fun cg _ _ => ?_
  split
  · exact .throw _
  · rw [itemsCost_singleton]
    exact emits_initUnionMember _ _ (h _ List.mem_cons_self)
  · exact .pure _

theorem neutral_copyDeclaredRecord (info : DeclInfo) (t : CType) (offset : Int) (src : LocalVar) :
    Neutral u c (copyDeclaredRecord info t offset src) := by
  intro b
  unfold copyDeclaredRecord
  split
  · exact .throw _
  · refine .seq (.errorIf _ _) fun _ => ?_
    refine .seq (.errorIf _ _) fun _ => ?_
    exact emits_emitAll (by simp)

theorem neutral_initRecordFromValue (info : DeclInfo) (t : CType) (offset : Int)
    (h : Good u g) : Neutral u (g.cost u) (initRecordFromValue info t offset g) := by
  refine fun _ => .get_bind fun cg _ _ => ?_
  split
  · exact neutral_copyDeclaredRecord _ _ _ _ _
  · refine .tail h.struct fun st => ?_
    refine .seq (.errorIf _ _) fun _ => ?_
    refine .seq (emits_emit rfl) fun _ => ?_
    refine .seq (emits_emit rfl) fun _ => ?_
    exact emits_emitAll (by simp)

theorem neutral_initRecord (info : DeclInfo) (t : CType) (offset : Int) (h : Good u g) :
    Neutral u (g.cost u) (initRecord info t offset g) := by
  intro b
  unfold initRecord
  split
  · refine .seq (emits_emitAll (by simp)) fun _ => ?_
    split
    · exact (neutral_initDeclaredUnion _ _ _ h.children).mono h.childCost b
    · exact h.structInit _ _
  · exact neutral_initRecordFromValue _ _ _ h b

theorem neutral_literalBytes (e : Expr) : Neutral u c (literalBytes e) := by
  intro b
  unfold literalBytes
  split
  all_goals first | exact .pure _ | exact .throw _

@[simp] theorem plain_initStringBytes (offset : Int) (n : Nat) (bytes : List UInt8) :
    Plain (initStringBytes offset n bytes) := by
  induction n generalizing offset bytes with
  | zero => simp [initStringBytes]
  | succ n ih =>
    rw [initStringBytes, plain_cons]
    exact ⟨rfl, ih _ _⟩

theorem neutral_initArrayObject (info : DeclInfo) (elem : CType) (length size : Nat)
    (offset : Int) (h : Good u g) :
    Neutral u (g.cost u) (initArrayObject info elem length size offset g) := by
  intro b
  unfold initArrayObject
  split
  · refine .seq (emits_emitAll (by simp)) fun _ => ?_
    exact (emits_initArray _ _ _ _ h.children _).mono h.childCost
  · exact .seq (neutral_literalBytes _ b) fun _ => emits_emitAll (by simp)

theorem neutral_checkPointerInit (info : DeclInfo) (a : Ann) :
    Neutral u c (checkPointerInit info a) := by
  refine fun _ => .seq (.errorIf _ _) fun _ => ?_
  refine .seq (.errorIf _ _) fun _ => ?_
  refine .seq (.errorIf _ _) fun _ => ?_
  split
  · exact neutral_warn _ _
  · exact .pure _

theorem neutral_initScalar (info : DeclInfo) (size : Nat) (offset : Int) (h : Good u g) :
    Neutral u (g.cost u) (initScalar info size offset g) := by
  refine fun _ => .tail h.value fun a => ?_
  refine .seq (.onlyIf _ fun _ => neutral_checkPointerInit _ _ _) fun _ => ?_
  refine .seq (emits_emitAll (by simp)) fun _ => ?_
  exact emits_emitAll (by simp [emitStoreLocal])

theorem neutral_genFloatingInit (kind : TypeKind) (offset : Nat) (h : Good u g) :
    Neutral u (g.cost u) (do
      let a ← g.codegenExpression
      emitAll (emitFpWidenIfNeeded a.resultType kind)
      emit (storeFp kind (frame offset))) := by
  refine fun _ => .tail h.value fun a => ?_
  exact .seq (emits_emitAll (by simp)) fun _ => emits_emit rfl

/-- The frame object of a declaration, if it gets one. -/
def DeclInfo.object (info : DeclInfo) : Option Request :=
  if info.storage = .static then none
  else
    match recordType info.declType info.fullType with
    | some t => some ⟨t.size, t.alignment⟩
    | none =>
      if info.declType = .array then info.fullType.map fun t => ⟨t.size, t.alignment⟩
      else some ⟨typeKindBytes info.declType, typeKindBytes info.declType⟩

/-- The budget of an initializer. -/
def initCost (u : CodeGen) (init : Option Expr) : Nat := Expr.totalOption (structRetBytes u) init

theorem neutral_optionalInit {init : Option Expr} {k : ExprGen → Gen Unit}
    (h : ∀ e, Neutral u ((codegen e).cost u) (k (codegen e))) :
    Neutral u (initCost u init) (match init.map codegen with
      | none => pure ()
      | some e => k e) := by
  cases init with
  | none => exact fun _ => .pure _
  | some e =>
    have own := h e
    rw [cost_codegen] at own
    exact own

theorem straight_genRecordDeclaration (info : DeclInfo) (t : CType) (init : Option Expr) :
    Straight u (initCost u init) [⟨t.size, t.alignment⟩]
      (genRecordDeclaration info t (init.map codegen)) := by
  refine .seq (fun _ => .errorIf _ _) fun _ => ?_
  exact straight_declare _ _ _ _ _ _ _ _ fun _ =>
    neutral_optionalInit fun e => neutral_initRecord _ _ _ (good_codegen e)

theorem straight_genArrayDeclaration (info : DeclInfo) (init : Option Expr) :
    Straight u (initCost u init) (info.fullType.map fun t => ⟨t.size, t.alignment⟩).toList
      (genArrayDeclaration info (init.map codegen)) := by
  unfold genArrayDeclaration
  split
  next elem length quals array =>
    rw [array]
    exact straight_declare _ _ _ _ _ _ _ _ fun _ =>
      neutral_optionalInit fun e => neutral_initArrayObject _ _ _ _ _ (good_codegen e)
  · exact .throw _

theorem straight_genFloatingDeclaration (info : DeclInfo) (init : Option Expr) :
    Straight u (initCost u init) [⟨typeKindBytes info.declType, typeKindBytes info.declType⟩]
      (genFloatingDeclaration info (init.map codegen)) :=
  straight_declare _ _ _ _ _ _ _ _ fun _ =>
    neutral_optionalInit fun e => neutral_genFloatingInit _ _ (good_codegen e)

theorem straight_genScalarDeclaration (info : DeclInfo) (init : Option Expr) :
    Straight u (initCost u init) [⟨typeKindBytes info.declType, typeKindBytes info.declType⟩]
      (genScalarDeclaration info (init.map codegen)) :=
  straight_declare _ _ _ _ _ _ _ _ fun _ =>
    neutral_optionalInit fun e => neutral_initScalar _ _ _ (good_codegen e)

theorem neutral_checkDuplicate (name : String) : Neutral u c (checkDuplicate name) :=
  fun _ => .get_bind fun _ _ _ => .errorIf _ _

theorem straight_genDeclaration (info : DeclInfo) (init : Option Expr) :
    Straight u (initCost u init) info.object.toList (genDeclaration info (init.map codegen)) := by
  refine .seq (neutral_checkDuplicate _) fun _ => ?_
  unfold DeclInfo.object
  split
  · exact straight_genStaticDeclaration _ _
  cases recordType info.declType info.fullType with
  | some t => exact straight_genRecordDeclaration _ _ _
  | none =>
    dsimp only
    split
    · exact straight_genArrayDeclaration _ _
    split
    · exact straight_genFloatingDeclaration _ _
    · exact straight_genScalarDeclaration _ _

end

end ClaudeC99
