import ClaudeC99.Codegen.Globals
import ClaudeC99.Front.Globals
import ClaudeC99.Lib.StateExcept

/-! An object that is declared before it is defined has the data of its definition, where the two
copies of the initializer's classification treat the initializer alike and the first declaration
has the definition's qualifiers. -/

namespace ClaudeC99

open Tables
open Front (GlobalObjSig parserFindGlobal parserRegisterGlobal)

/-- The parser's checks of the declarations, one after another. -/
def registerGlobals (globals : List GlobalObjSig) (decls : List GlobalDecl) :
    Except String (List GlobalObjSig) :=
  decls.foldlM (fun gs d => parserRegisterGlobal gs d.name d.declType d.storage d.fullType
    d.init.isSome) globals

/-- The text of the data section. -/
def dataText (cg : DataGen) : Except String (List String) :=
  (codegenEmitData cg).map fun result => result.2.output

variable (printed : TypeKind → Int → String)

/-- The object's table row and the data section after the declarations and the definition are
those after the definition alone. -/
def SameDefinition (cg : DataGen) (earlier : List GlobalDecl) (decl : GlobalDecl) : Prop :=
  let declared := addGlobals printed cg (earlier ++ [decl])
  let alone := codegenAddGlobal printed cg decl
  declared.findGlobal decl.name = alone.findGlobal decl.name ∧ dataText declared = dataText alone

/-- The initializers that `promote` and `initNew` treat alike in an object of the kind: a function
designator, a string literal of a pointer and a cast are among those left out. -/
def ClassifiedAlike (kind : TypeKind) : Expr → Prop
  | .floatLiteral _ _ => True
  | .intLiteral _ _ _ => True
  | .charLiteral byte => kind = .bool → byte.toNat ≤ 1
  | .stringLiteral _ => kind = .array
  | .initializerList _ => kind = .array ∨ kind = .struct ∨ kind = .union
  | .addrOf _ => kind = .pointer
  | .compoundLiteral _ _ _ _ _ => kind = .pointer
  | _ => False

section Parser

variable {globals after : List GlobalObjSig} {name : String} {kind : TypeKind}
  {sc : StorageClass} {fullType : Option CType} {hasInit : Bool}

theorem register_kind {sig : GlobalObjSig} (found : parserFindGlobal globals name = some sig)
    (accepted : parserRegisterGlobal globals name kind sc fullType hasInit = .ok after) :
    sig.kind = kind := by
  by_contra other
  have conflict : Front.conflictingType sig kind fullType = true := by
    simp [Front.conflictingType, other]
  simp [parserRegisterGlobal, found, conflict] at accepted

theorem find_updated {sig : GlobalObjSig} {f : GlobalObjSig → GlobalObjSig}
    (keeps : ∀ sig, (f sig).name = sig.name ∧ (f sig).kind = sig.kind)
    (found : parserFindGlobal globals name = some sig) :
    ∃ sig', parserFindGlobal (updateFirst (·.name = name) f globals) name = some sig' ∧
      sig'.kind = sig.kind := by
  refine ⟨f sig, ?_, (keeps sig).2⟩
  rw [parserFindGlobal, find?_updateFirst (fun sig same => by simpa [keeps] using same)]
  exact congrArg (Option.map f) found

theorem register_found
    (accepted : parserRegisterGlobal globals name kind sc fullType hasInit = .ok after) :
    ∃ sig, parserFindGlobal after name = some sig ∧ sig.kind = kind := by
  cases found : parserFindGlobal globals name with
  | none =>
    simp only [parserRegisterGlobal, found, Except.ok.injEq] at accepted
    subst accepted
    exact ⟨_, find?_last found (by simp), rfl⟩
  | some sig =>
    rw [← register_kind found accepted]
    simp only [parserRegisterGlobal, found] at accepted
    -- an accepted declaration keeps the table or changes one field of the object's row
    split at accepted
    · cases accepted
    split at accepted
    · cases accepted
    split at accepted
    · split at accepted
      · cases accepted
      cases accepted
      split
      · exact find_updated (fun _ => ⟨rfl, rfl⟩) found
      · exact ⟨sig, found, rfl⟩
    · cases accepted
      split
      · exact find_updated (fun _ => ⟨rfl, rfl⟩) found
      · exact ⟨sig, found, rfl⟩

/-- All declarations of an accepted sequence have the first one's kind. -/
theorem registerGlobals_kind {decls : List GlobalDecl} {sig : GlobalObjSig}
    (found : parserFindGlobal globals name = some sig) (named : ∀ d ∈ decls, d.name = name)
    (accepted : registerGlobals globals decls = .ok after) :
    ∀ d ∈ decls, d.declType = sig.kind := by
  induction decls generalizing globals sig with
  | nil => simp
  | cons d rest ih =>
    have d_name : d.name = name := named d (by simp)
    rw [registerGlobals, List.foldlM_cons] at accepted
    obtain ⟨next, first, others⟩ := StateExcept.bind_eq_ok.mp accepted
    rw [d_name] at first
    have d_kind := register_kind found first
    obtain ⟨sig', found', kind'⟩ := register_found first
    intro e member
    rcases List.mem_cons.mp member with rfl | member
    · exact d_kind.symm
    · rw [ih found' (fun e member => named e (by simp [member])) others e member, kind', d_kind]

end Parser

section Classification

variable {printed} {gv : GlobalEntry} {pool : List (List UInt8)} {init : Expr}

@[simp] theorem initFloat_var (text : String) :
    (gv.initFloat text).toGlobalVar = gv.toGlobalVar := rfl

@[simp] theorem initLabelled_var (label : String) :
    (gv.initLabelled label).toGlobalVar = gv.toGlobalVar := rfl

@[simp] theorem initFromNode_var : (gv.initFromNode init).toGlobalVar = gv.toGlobalVar := rfl

@[simp] theorem initInteger_var (v : Int) :
    (gv.initInteger printed v).toGlobalVar = gv.toGlobalVar := by
  rw [GlobalEntry.initInteger]
  split <;> rfl

theorem promote_var : (gv.promote printed init).toGlobalVar = gv.toGlobalVar := by
  cases init <;> simp [GlobalEntry.promote]

theorem initNew_var : (gv.initNew printed pool init).1.toGlobalVar = gv.toGlobalVar := by
  cases init
  case stringLiteral | initializerList | addrOf | compoundLiteral | cast =>
    simp only [GlobalEntry.initNew]
    repeat' split
    all_goals rfl
  all_goals simp [GlobalEntry.initNew]

theorem initNew_pool (alike : ClassifiedAlike gv.kind init) :
    (gv.initNew printed pool init).2 = pool := by
  cases init <;> simp_all [GlobalEntry.initNew, ClassifiedAlike]

theorem initFromNode_ne {other : GlobalEntry} (unset : other.initNode = none) :
    gv.initFromNode init ≠ other := by
  intro same
  cases (congrArg GlobalEntry.initNode same).trans unset

theorem initFromNode_iff {keeps : Prop} [Decidable keeps] {other : GlobalEntry × List (List UInt8)}
    (unset : other.1.initNode = none) :
    gv.initFromNode init = (if keeps then (gv.initFromNode init, pool) else other).1 ↔ keeps := by
  split
  next yes => exact iff_of_true rfl yes
  next no => exact iff_of_false (initFromNode_ne unset) no

theorem truncateBool_eq_iff (n : Nat) :
    (n : Int) = gv.truncateBool n ↔ (gv.kind = .bool → n ≤ 1) := by
  rw [GlobalEntry.truncateBool]
  by_cases isBool : gv.kind = .bool
  · simp only [isBool, if_true, forall_const]
    split <;> omega
  · simp [isBool]

/-- The two copies of the classification differ where `promote` alone keeps the node. -/
theorem classified_iff (unset : gv.initNode = none) (zero : gv.initValue = 0) :
    gv.promote printed init = (gv.initNew printed pool init).1 ↔ ClassifiedAlike gv.kind init := by
  have node (e : Expr) :
      { gv with initValue := 0, initNode := some e, isInitialized := true } = gv.initFromNode e := by
    rw [← zero]
    rfl
  cases init
  case intLiteral | floatLiteral => exact iff_of_true rfl trivial
  case charLiteral byte =>
    simpa [GlobalEntry.promote, GlobalEntry.initNew, ClassifiedAlike] using truncateBool_eq_iff byte.toNat
  case stringLiteral bytes =>
    refine (node _).congr_left.trans (initFromNode_iff ?_)
    split <;> exact unset
  case initializerList | addrOf | compoundLiteral =>
    exact (node _).congr_left.trans (initFromNode_iff unset)
  case cast =>
    refine (node _).congr_left.trans (iff_of_false (initFromNode_ne ?_) id)
    rw [GlobalEntry.initNew]
    split <;> exact unset
  all_goals exact (node _).congr_left.trans (iff_of_false (initFromNode_ne unset) id)

end Classification

section Generator

variable {cg : DataGen} {name : String} {gv : GlobalEntry} {decl : GlobalDecl}

/-- The generator with one more row. -/
def DataGen.withEntry (cg : DataGen) (gv : GlobalEntry) : DataGen :=
  { cg with globals := cg.globals ++ [gv] }

theorem findGlobal_withEntry (fresh : cg.findGlobal name = none) (named : gv.name = name) :
    (cg.withEntry gv).findGlobal name = some gv :=
  find?_last fresh (by simp [named])

theorem updateGlobal_withEntry (fresh : cg.findGlobal gv.name = none)
    (f : GlobalEntry → GlobalEntry) :
    updateGlobal (cg.withEntry gv) gv.name f = cg.withEntry (f gv) :=
  congrArg (fun globals => { cg with globals }) (updateFirst_last fresh (by simp))

theorem addGlobal_new (fresh : cg.findGlobal decl.name = none) (tentative : decl.init = none) :
    codegenAddGlobal printed cg decl = cg.withEntry decl.newEntry := by
  simp only [codegenAddGlobal, fresh, tentative]
  rfl

/-- A declaration without an initializer only makes an external object a local one. -/
theorem addGlobal_again (fresh : cg.findGlobal gv.name = none) (same : decl.name = gv.name)
    (tentative : decl.init = none) :
    ∃ isExtern, codegenAddGlobal printed (cg.withEntry gv) decl =
      cg.withEntry { gv with isExtern } := by
  simp only [codegenAddGlobal, same, findGlobal_withEntry fresh rfl, tentative]
  split
  · exact ⟨false, updateGlobal_withEntry fresh _⟩
  · exact ⟨gv.isExtern, rfl⟩

theorem addGlobals_again {decls : List GlobalDecl} (fresh : cg.findGlobal gv.name = none)
    (same : ∀ d ∈ decls, d.name = gv.name ∧ d.init = none) :
    ∃ isExtern, addGlobals printed (cg.withEntry gv) decls =
      cg.withEntry { gv with isExtern } := by
  induction decls generalizing gv with
  | nil => exact ⟨gv.isExtern, rfl⟩
  | cons d rest ih =>
    have first := same d (by simp)
    obtain ⟨_, step⟩ := addGlobal_again printed fresh first.1 first.2
    rw [addGlobals, List.foldl_cons, step]
    exact ih fresh fun e member => same e (by simp [member])

/-- A sequence without an initializer gives the object the row of its first declaration. -/
theorem addGlobals_tentative {first : GlobalDecl} {rest : List GlobalDecl}
    (fresh : cg.findGlobal first.name = none) (tentative : first.init = none)
    (same : ∀ d ∈ rest, d.name = first.name ∧ d.init = none) :
    ∃ gv, addGlobals printed cg (first :: rest) = cg.withEntry gv ∧
      gv.name = first.name ∧ gv.kind = first.declType ∧
        gv.isConst = first.isConst ∧ gv.isUnsigned = first.isUnsigned := by
  have row : cg.findGlobal first.newEntry.name = none := fresh
  obtain ⟨isExtern, again⟩ := addGlobals_again printed row same
  refine ⟨{ first.newEntry with isExtern }, ?_, rfl, rfl, rfl, rfl⟩
  rw [addGlobals, List.foldl_cons, addGlobal_new printed fresh tentative]
  exact again

theorem addGlobal_defined {init : Expr} (fresh : cg.findGlobal gv.name = none)
    (same : decl.name = gv.name) (defines : decl.init = some init) :
    codegenAddGlobal printed (cg.withEntry gv) decl =
      cg.withEntry ((gv.redeclare decl.toDeclInfo).promote printed init) := by
  simp only [codegenAddGlobal, same, findGlobal_withEntry fresh rfl, defines]
  exact updateGlobal_withEntry fresh _

theorem addGlobal_alone {init : Expr} (fresh : cg.findGlobal decl.name = none)
    (defines : decl.init = some init) :
    codegenAddGlobal printed cg decl =
      { cg.withEntry (decl.newEntry.initNew printed cg.stringPool init).1 with
        stringPool := (decl.newEntry.initNew printed cg.stringPool init).2 } := by
  simp only [codegenAddGlobal, fresh, defines]
  rfl

theorem redeclare_eq_iff (sameName : gv.name = decl.name) (sameKind : gv.kind = decl.declType) :
    gv.redeclare decl.toDeclInfo = decl.newEntry ↔
      gv.isConst = decl.isConst ∧ gv.isUnsigned = decl.isUnsigned := by
  simp [GlobalEntry.redeclare, DeclInfo.newEntry, sameName, sameKind]

/-- An object's row after a first declaration without initializer and its definition. -/
theorem declared_row_iff {init : Expr} {pool : List (List UInt8)} (sameName : gv.name = decl.name)
    (sameKind : gv.kind = decl.declType) :
    (gv.redeclare decl.toDeclInfo).promote printed init =
        (decl.newEntry.initNew printed pool init).1 ↔
      gv.isConst = decl.isConst ∧ gv.isUnsigned = decl.isUnsigned ∧
        ClassifiedAlike decl.declType init := by
  rw [← and_assoc, ← redeclare_eq_iff sameName sameKind]
  constructor
  · intro same
    have row : gv.redeclare decl.toDeclInfo = decl.newEntry := by
      have flags := (promote_var.symm.trans (congrArg GlobalEntry.toGlobalVar same)).trans initNew_var
      exact (redeclare_eq_iff sameName sameKind).mpr
        ⟨congrArg GlobalVar.isConst flags, congrArg GlobalVar.isUnsigned flags⟩
    rw [row] at same
    exact ⟨row, (classified_iff rfl rfl).mp same⟩
  · rintro ⟨row, alike⟩
    rw [row]
    exact (classified_iff rfl rfl).mpr alike

end Generator

/-- Earlier declarations leave the definition's row and data as they are exactly when the first of
them has the definition's `const` and signedness and the initializer is classified alike. -/
theorem sameDefinition_iff {cg : DataGen} {globals after : List GlobalObjSig}
    {earlier : List GlobalDecl} {decl : GlobalDecl} {init : Expr}
    (fresh : cg.findGlobal decl.name = none)
    (accepted : registerGlobals globals (earlier ++ [decl]) = .ok after)
    (tentative : ∀ d ∈ earlier, d.name = decl.name ∧ d.init = none)
    (defines : decl.init = some init) :
    SameDefinition printed cg earlier decl ↔
      ∀ first ∈ earlier.head?, first.isConst = decl.isConst ∧
        first.isUnsigned = decl.isUnsigned ∧ ClassifiedAlike decl.declType init := by
  cases earlier with
  | nil => exact iff_of_true ⟨rfl, rfl⟩ (by simp)
  | cons first rest =>
    obtain ⟨first_name, first_init⟩ := tentative first (by simp)
    have named : ∀ d ∈ rest ++ [decl], d.name = first.name := by
      intro d member
      rcases List.mem_append.mp member with inRest | last
      · rw [(tentative d (by simp [inRest])).1, first_name]
      · rw [List.mem_singleton.mp last, first_name]
    have first_kind : first.declType = decl.declType := by
      rw [registerGlobals, List.cons_append, List.foldlM_cons] at accepted
      obtain ⟨next, registered, others⟩ := StateExcept.bind_eq_ok.mp accepted
      obtain ⟨sig, found, kind⟩ := register_found registered
      exact kind.symm.trans (registerGlobals_kind found named others decl (by simp)).symm
    have again : ∀ d ∈ rest, d.name = first.name ∧ d.init = none := fun d member =>
      ⟨named d (by simp [member]), (tentative d (by simp [member])).2⟩
    obtain ⟨gv, declared, gv_name, gv_kind, gv_const, gv_unsigned⟩ :=
      addGlobals_tentative printed (first_name ▸ fresh) first_init again
    have sameName : gv.name = decl.name := gv_name.trans first_name
    have gv_fresh : cg.findGlobal gv.name = none := by rw [sameName, fresh]
    have defined : addGlobals printed cg (first :: rest ++ [decl]) =
        cg.withEntry ((gv.redeclare decl.toDeclInfo).promote printed init) := by
      rw [← addGlobal_defined printed gv_fresh sameName.symm defines, ← declared]
      exact List.foldl_append
    have alone := addGlobal_alone printed fresh defines
    have rows : (gv.redeclare decl.toDeclInfo).promote printed init =
          (decl.newEntry.initNew printed cg.stringPool init).1 ↔
        first.isConst = decl.isConst ∧ first.isUnsigned = decl.isUnsigned ∧
          ClassifiedAlike decl.declType init := by
      rw [← gv_const, ← gv_unsigned]
      exact declared_row_iff printed sameName (gv_kind.trans first_kind)
    simp only [List.head?_cons, Option.mem_some_iff, forall_eq']
    rw [SameDefinition, defined, alone, ← rows]
    constructor
    · intro same
      have promoted : ((gv.redeclare decl.toDeclInfo).promote printed init).name = decl.name :=
        (congrArg GlobalVar.name promote_var).trans sameName
      have created : (decl.newEntry.initNew printed cg.stringPool init).1.name = decl.name :=
        congrArg GlobalVar.name initNew_var
      exact Option.some.inj ((findGlobal_withEntry fresh promoted).symm.trans
        (same.1.trans (findGlobal_withEntry fresh created)))
    · intro same
      rw [initNew_pool (rows.mp same).2.2, same]
      exact ⟨rfl, rfl⟩

def emptyData : DataGen where
  globals := []
  stringPool := []
  compoundLiteralCount := 0
  structFields := fun _ => []
  output := []

def intArray (storage : StorageClass) (length : Nat) (init : Option Expr) : GlobalDecl where
  name := "a"
  declType := .array
  fullType := some (.array .typeInt length false)
  isUnsigned := false
  isConst := false
  storage
  init

/-- `extern int a[];` before `int a[2] = {7};` -/
theorem declared_array_same :
    SameDefinition (fun _ _ => "") emptyData [intArray .external 0 none]
      (intArray .none 2 (some (.initializerList [.intLiteral (.dec 7) .int false]))) :=
  (sameDefinition_iff (fun _ _ => "") rfl (rfl : registerGlobals [] _ = .ok _)
    (by simp [intArray]) rfl).mpr (by simp [intArray, ClassifiedAlike])

def functionPointer (storage : StorageClass) (init : Option Expr) : GlobalDecl where
  name := "fp"
  declType := .pointer
  fullType := some (.pointer (.function .typeInt []) false)
  isUnsigned := false
  isConst := false
  storage
  init

/-- `extern int (*fp)(void);` makes `int (*fp)(void) = f;` a null pointer. -/
theorem declared_pointer_is_null :
    (registerGlobals [] [functionPointer .external none, functionPointer .none (some (.varRef "f"))]
      ).isOk = true ∧
    dataText (addGlobals (fun _ _ => "") emptyData
      [functionPointer .external none, functionPointer .none (some (.varRef "f"))]) =
        .ok ["section .data", "global fp", "fp: dq 0"] ∧
    dataText (addGlobals (fun _ _ => "") emptyData [functionPointer .none (some (.varRef "f"))]) =
        .ok ["section .data", "global fp", "fp: dq f"] ∧
    ¬ SameDefinition (fun _ _ => "") emptyData [functionPointer .external none]
      (functionPointer .none (some (.varRef "f"))) := by
  refine ⟨rfl, rfl, rfl, ?_⟩
  intro same
  have texts : Except.ok ["section .data", "global fp", "fp: dq 0"] =
      (Except.ok ["section .data", "global fp", "fp: dq f"] : Except String (List String)) :=
    same.2
  simp at texts

end ClaudeC99
