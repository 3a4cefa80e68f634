import ClaudeC99.Front.Functions
import ClaudeC99.Lib.Registries

/-! What the declarations of one function, accepted one after another, have in common, and which
of their parameters its row has in the end. -/

namespace ClaudeC99.Globals

open Tables
open Registries
open StateExcept (bind_eq_ok)
open Front (FuncSig GlobalObjSig overwriteTypes typeMismatch parserFindFunction
  parserRegisterFunction)

/-- What a declaration says of the parameters: at block scope the list is skipped. -/
inductive Parameters
  | unknown
  | empty
  | prototype (kinds : List TypeKind) (variadic : Bool)
  deriving DecidableEq

namespace Parameters

def kinds : Parameters → Option (List TypeKind)
  | unknown => none
  | empty => some []
  | prototype kinds _ => some kinds

def count (p : Parameters) : Int := p.kinds.elim (-1) fun kinds => kinds.length

def isVariadic : Parameters → Bool
  | prototype _ variadic => variadic
  | _ => false

def isNoPrototype (p : Parameters) : Bool := decide (p = .empty)

end Parameters

/-- A call of `parser_register_function`, made when the objects `globals` are declared. -/
structure FunctionDeclaration where
  globals : List GlobalObjSig
  name : String
  parameters : Parameters
  isDefinition : Bool
  returnType : TypeKind
  storage : StorageClass

def FunctionDeclaration.isStatic (d : FunctionDeclaration) : Bool := decide (d.storage = .static)

def functions : Registry (List FuncSig) FunctionDeclaration String FuncSig String where
  name := FunctionDeclaration.name
  find := parserFindFunction
  register funcs d :=
    parserRegisterFunction d.globals funcs d.name d.parameters.count d.isDefinition d.returnType
      d.parameters.kinds d.storage d.parameters.isVariadic d.parameters.isNoPrototype

def HasParameters (sig : FuncSig) (kinds : List TypeKind) : Prop :=
  sig.paramCount = kinds.length ∧ sig.paramTypes.take kinds.length = kinds

theorem hasParameters_unique {sig : FuncSig} {kinds kinds' : List TypeKind}
    (has : HasParameters sig kinds) (has' : HasParameters sig kinds') : kinds = kinds' := by
  have lengths : kinds.length = kinds'.length := by
    have := has.1.symm.trans has'.1
    omega
  rw [← has.2, ← has'.2, lengths]

/-- One definition at most, the same return kind, linkage and prototype everywhere, and the
prototype's parameters in the row. -/
structure OneSignature (ds : List FunctionDeclaration) (sig : FuncSig) : Prop where
  atMostOne : (ds.filter FunctionDeclaration.isDefinition).length ≤ 1
  returns : ∀ d ∈ ds, ∀ e ∈ ds, d.returnType = e.returnType
  linkages : ∀ d ∈ ds, ∀ e ∈ ds, d.isStatic = e.isStatic
  prototypes : ∀ d ∈ ds, ∀ e ∈ ds, ∀ {kinds variadic kinds' variadic'},
    d.parameters = .prototype kinds variadic → e.parameters = .prototype kinds' variadic' →
      kinds = kinds' ∧ variadic = variadic'
  signature : ∀ d ∈ ds, ∀ {kinds variadic}, d.parameters = .prototype kinds variadic →
    HasParameters sig kinds ∧ sig.isVariadic = variadic

/-- The parameter lists, where a declaration has one. -/
def lists (ds : List FunctionDeclaration) : List (List TypeKind) :=
  ds.filterMap fun d => d.parameters.kinds

def startsEmpty (ds : List FunctionDeclaration) : Bool :=
  ds.head?.any fun d => d.parameters.isNoPrototype

def startsVariadic (ds : List FunctionDeclaration) : Bool :=
  ds.head?.any fun d => d.parameters.isVariadic

/-- The declaration's return type and parameters replace those of the row unseen. -/
def Overwrites (before : List FunctionDeclaration) (d : FunctionDeclaration) : Prop :=
  startsEmpty before = true ∧ d.parameters ≠ .unknown ∨ lists before = []

/-- The row of a declaration's name after the declaration, from the one before it. -/
inductive FunctionRow : Option FuncSig → FunctionDeclaration → FuncSig → Prop where
  | new (d : FunctionDeclaration) :
      FunctionRow none d ⟨d.name, d.parameters.count, d.isDefinition, d.returnType,
        overwriteTypes d.parameters.count (d.parameters.kinds.getD [])
          (List.replicate Front.funcMaxParams .void),
        d.storage, d.parameters.isVariadic, d.parameters.isNoPrototype⟩
  | patched {sig : FuncSig} {d : FunctionDeclaration}
      (linkages : sig.storage = .static ↔ d.storage = .static)
      (once : ¬ (d.isDefinition = true ∧ sig.hasDefinition = true))
      (unseen : sig.hasNoPrototype = true ∧ d.parameters ≠ .unknown ∨ sig.paramCount = -1) :
      FunctionRow (some sig) d
        { sig.patch d.parameters.count d.returnType d.parameters.kinds with
          hasDefinition := sig.hasDefinition || d.isDefinition }
  | checked {sig : FuncSig} {d : FunctionDeclaration}
      (linkages : sig.storage = .static ↔ d.storage = .static)
      (once : ¬ (d.isDefinition = true ∧ sig.hasDefinition = true))
      (seen : ¬ (sig.hasNoPrototype = true ∧ d.parameters ≠ .unknown ∨ sig.paramCount = -1))
      (returns : sig.returnType = d.returnType)
      (agree : ∀ {kinds}, d.parameters.kinds = some kinds → HasParameters sig kinds) :
      FunctionRow (some sig) d { sig with hasDefinition := sig.hasDefinition || d.isDefinition }

theorem count_of_kinds {p : Parameters} {kinds : List TypeKind} (known : p.kinds = some kinds) :
    p.count = kinds.length := by
  rw [Parameters.count, known]
  rfl

theorem known_iff {p : Parameters} : 0 ≤ p.count ↔ p ≠ .unknown := by
  cases p <;> simp [Parameters.count, Parameters.kinds]

theorem kinds_eq_none {p : Parameters} : p.kinds = none ↔ p = .unknown := by
  cases p <;> simp [Parameters.kinds]

theorem count_eq_unknown {p : Parameters} : p.count = -1 ↔ p.kinds = none := by
  cases known : p.kinds with
  | none => simp [Parameters.count, known]
  | some kinds =>
    rw [count_of_kinds known]
    simp

theorem take_of_typeMismatch {existing kinds : List TypeKind}
    (same : typeMismatch kinds.length existing kinds = none) :
    existing.take kinds.length = kinds := by
  simp only [typeMismatch, Int.toNat_natCast, List.find?_eq_none, List.mem_range] at same
  apply List.ext_getElem?
  intro i
  rw [List.getElem?_take]
  split
  next inside => simpa using same i inside
  next outside => rw [List.getElem?_eq_none (Nat.le_of_not_lt outside)]

theorem resolve_row {sig sig' : FuncSig} {d : FunctionDeclaration}
    (resolved : sig.resolve d.name d.parameters.count d.returnType d.parameters.kinds = .ok sig')
    (checked : sig'.checkTypes d.name d.parameters.count d.returnType d.parameters.kinds = .ok ())
    (linkages : sig.storage = .static ↔ d.storage = .static)
    (once : ¬ (d.isDefinition = true ∧ sig'.hasDefinition = true)) :
    FunctionRow (some sig) d
      { sig' with hasDefinition := sig'.hasDefinition || d.isDefinition } := by
  rw [FuncSig.resolve] at resolved
  simp only [known_iff] at resolved
  split at resolved
  next unseen =>
    cases resolved
    exact .patched linkages once (.inl unseen)
  next known =>
    split at resolved
    next unknown =>
      cases resolved
      exact .patched linkages once (.inr unknown)
    next other =>
      split at resolved
      · cases resolved
      next counts =>
      cases resolved
      have seen := not_or.mpr ⟨known, other⟩
      rw [FuncSig.checkTypes] at checked
      split at checked
      · cases checked
      next returns =>
      refine .checked linkages once seen (not_not.mp returns) ?_
      intro kinds listed
      have isKnown : d.parameters ≠ .unknown := by
        intro unknown
        rw [kinds_eq_none.mpr unknown] at listed
        cases listed
      have prototyped : ¬ sig.hasNoPrototype = true := fun empty => known ⟨empty, isKnown⟩
      rw [if_neg prototyped] at checked
      rw [count_of_kinds listed] at counts checked
      constructor
      · by_contra different
        exact counts ⟨by omega, different⟩
      · split at checked
        · cases checked
        next same =>
        simp only [listed, Option.getD_some] at same
        exact take_of_typeMismatch same

theorem resolve_name {sig sig' : FuncSig} {name : String} {count : Int} {returnType : TypeKind}
    {kinds : Option (List TypeKind)}
    (resolved : sig.resolve name count returnType kinds = .ok sig') : sig'.name = sig.name := by
  rw [FuncSig.resolve] at resolved
  split at resolved
  · cases resolved
    rfl
  · split at resolved
    · cases resolved
      rfl
    · split at resolved
      · cases resolved
      · cases resolved
        rfl

/-- What an accepted declaration of a function that is there has done. -/
theorem register_known {funcs after : List FuncSig} {d : FunctionDeclaration} {sig : FuncSig}
    (found : parserFindFunction funcs d.name = some sig)
    (accepted : functions.register funcs d = .ok after) :
    ∃ sig', FunctionRow (some sig) d sig' ∧ sig'.name = d.name ∧
      after = updateFirst (·.name = d.name) (fun _ => sig') funcs := by
  simp only [functions, parserRegisterFunction] at accepted
  split at accepted
  · cases accepted
  simp only [found] at accepted
  split at accepted
  · cases accepted
  next linkages =>
  have linkages : sig.storage = .static ↔ d.storage = .static := by simpa using linkages
  obtain ⟨sig', resolved, accepted⟩ := bind_eq_ok.mp accepted
  obtain ⟨_, checked, accepted⟩ := bind_eq_ok.mp accepted
  split at accepted
  · cases accepted
  next once =>
  cases accepted
  have named : sig.name = d.name := by simpa using List.find?_some found
  exact ⟨_, resolve_row resolved checked linkages once, (resolve_name resolved).trans named, rfl⟩

theorem register_unknown {funcs after : List FuncSig} {d : FunctionDeclaration}
    (unknown : parserFindFunction funcs d.name = none)
    (accepted : functions.register funcs d = .ok after) :
    ∃ sig, FunctionRow none d sig ∧ sig.name = d.name ∧ after = funcs ++ [sig] := by
  simp only [functions, parserRegisterFunction] at accepted
  split at accepted
  · cases accepted
  simp only [unknown] at accepted
  split at accepted
  · cases accepted
  cases accepted
  exact ⟨_, .new d, rfl, rfl⟩

theorem functions_governed : functions.Governed FunctionRow where
  declared := by
    intro funcs d after accepted
    change ∃ sig, parserFindFunction after d.name = some sig ∧
      FunctionRow (parserFindFunction funcs d.name) d sig
    cases found : parserFindFunction funcs d.name with
    | none =>
      obtain ⟨sig, row, named, rfl⟩ := register_unknown found accepted
      exact ⟨sig, find?_last found (by simp [named]), row⟩
    | some sig =>
      obtain ⟨sig', row, named, rfl⟩ := register_known found accepted
      refine ⟨sig', ?_, row⟩
      rw [parserFindFunction, find?_updateFirst fun _ _ => by simp [named]]
      exact congrArg (Option.map fun _ => sig') found
  others := by
    intro funcs d after k accepted other
    change parserFindFunction after k = parserFindFunction funcs k
    change k ≠ d.name at other
    cases found : parserFindFunction funcs d.name with
    | none =>
      obtain ⟨sig, _, named, rfl⟩ := register_unknown found accepted
      simp [parserFindFunction, List.find?_append, named, Ne.symm other]
    | some sig =>
      obtain ⟨sig', _, named, rfl⟩ := register_known found accepted
      apply find?_updateFirst_of_not
      intro a same
      simp_all [Ne.symm other]

/-- The declarations that overwrite the row return what those before them return. -/
def ReturnsKept (ds : List FunctionDeclaration) : Prop :=
  Each (fun before d => Overwrites before d → ∀ b ∈ before, b.returnType = d.returnType) ds

/-- What the row says of the declarations so far. -/
structure Registered (ds : List FunctionDeclaration) (sig : FuncSig) : Prop where
  declared : ds ≠ []
  linkages : ∀ d ∈ ds, d.isStatic = decide (sig.storage = .static)
  definitions : (ds.filter FunctionDeclaration.isDefinition).length =
    if sig.hasDefinition = true then 1 else 0
  noPrototype : sig.hasNoPrototype = startsEmpty ds
  variadic : sig.isVariadic = startsVariadic ds
  unknown : sig.paramCount = -1 ↔ lists ds = []
  latest : ∀ kinds, (lists ds).getLast? = some kinds → HasParameters sig kinds
  agreed : startsEmpty ds = false → ∀ kinds ∈ lists ds, HasParameters sig kinds
  returned : ∃ d ∈ ds, d.returnType = sig.returnType
  returns : (∀ d ∈ ds, d.returnType = sig.returnType) ↔ ReturnsKept ds

variable {ds : List FunctionDeclaration} {d : FunctionDeclaration} {sig after : FuncSig}

theorem lists_snoc : lists (ds ++ [d]) = lists ds ++ d.parameters.kinds.toList := by
  cases listed : d.parameters.kinds <;> simp [lists, List.filterMap_append, listed]

theorem getLast?_toList {α : Type} {o : Option α} : o.toList.getLast? = o := by
  cases o <;> rfl

theorem startsEmpty_snoc (declared : ds ≠ []) : startsEmpty (ds ++ [d]) = startsEmpty ds := by
  rw [startsEmpty, startsEmpty, List.head?_append_of_ne_nil _ declared]

theorem startsVariadic_snoc (declared : ds ≠ []) :
    startsVariadic (ds ++ [d]) = startsVariadic ds := by
  rw [startsVariadic, startsVariadic, List.head?_append_of_ne_nil _ declared]

theorem definitions_snoc {old : Bool}
    (count : (ds.filter FunctionDeclaration.isDefinition).length = if old = true then 1 else 0)
    (once : ¬ (d.isDefinition = true ∧ old = true)) :
    ((ds ++ [d]).filter FunctionDeclaration.isDefinition).length =
      if (old || d.isDefinition) = true then 1 else 0 := by
  rw [List.filter_append, List.length_append, count]
  cases old <;> cases new : d.isDefinition <;> simp_all

theorem hasParameters_overwrite {sig : FuncSig} {kinds old : List TypeKind}
    (count : sig.paramCount = kinds.length)
    (types : sig.paramTypes = overwriteTypes kinds.length kinds old) :
    HasParameters sig kinds := by
  refine ⟨count, ?_⟩
  rw [types, overwriteTypes, Int.toNat_natCast, List.take_length, List.take_left']
  rfl

/-- A row that took the declaration's parameters has them. -/
theorem hasParameters_patch {kinds : List TypeKind} (listed : d.parameters.kinds = some kinds) :
    HasParameters (sig.patch d.parameters.count d.returnType d.parameters.kinds) kinds := by
  rw [count_of_kinds listed, listed]
  exact hasParameters_overwrite rfl rfl

theorem registered_first (row : FunctionRow none d sig) : Registered [d] sig := by
  cases row
  have alone : lists [d] = d.parameters.kinds.toList := by
    simp only [lists, List.filterMap_cons, List.filterMap_nil]
    cases d.parameters.kinds <;> rfl
  have has : ∀ {kinds}, d.parameters.kinds = some kinds → HasParameters
      ⟨d.name, d.parameters.count, d.isDefinition, d.returnType,
        overwriteTypes d.parameters.count (d.parameters.kinds.getD [])
          (List.replicate Front.funcMaxParams .void),
        d.storage, d.parameters.isVariadic, d.parameters.isNoPrototype⟩ kinds := by
    intro kinds listed
    rw [count_of_kinds listed, listed]
    exact hasParameters_overwrite rfl rfl
  constructor
  · simp
  · simp [FunctionDeclaration.isStatic]
  · cases new : d.isDefinition <;> simp [new]
  · simp [startsEmpty]
  · simp [startsVariadic]
  · rw [alone, count_eq_unknown]
    simp
  · rw [alone]
    intro kinds last
    exact has (getLast?_toList.symm.trans last)
  · rw [alone]
    intro _ kinds member
    exact has (by simpa using member)
  · exact ⟨d, by simp, rfl⟩
  · rw [ReturnsKept, ← List.nil_append [d], each_snoc]
    simp [each_nil]

theorem registered_next (registered : Registered ds sig) (row : FunctionRow (some sig) d after) :
    Registered (ds ++ [d]) after := by
  obtain ⟨declared, linkages, definitions, noPrototype, variadic, unknown, latest, agreed,
    ⟨e, member, returned⟩, returns⟩ := registered
  have overwrites : Overwrites ds d ↔
      sig.hasNoPrototype = true ∧ d.parameters ≠ .unknown ∨ sig.paramCount = -1 := by
    rw [Overwrites, noPrototype, unknown]
  have linked (same : sig.storage = .static ↔ d.storage = .static) :
      ∀ e ∈ ds ++ [d], e.isStatic = decide (sig.storage = .static) := by
    simp only [List.forall_mem_append, List.forall_mem_singleton]
    exact ⟨linkages, by simp [FunctionDeclaration.isStatic, same]⟩
  cases row with
  | patched same once unseen =>
    have noneBefore (unlisted : d.parameters.kinds = none) : lists ds = [] := by
      simpa [kinds_eq_none.mp unlisted, unknown] using unseen
    constructor
    · simp
    · exact linked same
    · exact definitions_snoc definitions once
    · rw [startsEmpty_snoc declared, ← noPrototype]
      rfl
    · rw [startsVariadic_snoc declared, ← variadic]
      rfl
    · change d.parameters.count = -1 ↔ _
      rw [lists_snoc, List.append_eq_nil_iff, count_eq_unknown, Option.toList_eq_nil_iff]
      exact ⟨fun unlisted => ⟨noneBefore unlisted, unlisted⟩, And.right⟩
    · intro kinds last
      cases listed : d.parameters.kinds with
      | none =>
        rw [lists_snoc, noneBefore listed, listed] at last
        cases last
      | some new =>
        rw [lists_snoc, listed] at last
        obtain rfl : new = kinds := by simpa using last
        have has : HasParameters (sig.patch d.parameters.count d.returnType d.parameters.kinds)
            new := hasParameters_patch listed
        rw [listed] at has
        exact has
    · intro prototyped kinds member
      rw [startsEmpty_snoc declared, ← noPrototype] at prototyped
      have unlisted : lists ds = [] := by simpa [prototyped, unknown] using unseen
      rw [lists_snoc, unlisted, List.nil_append, Option.mem_toList] at member
      exact hasParameters_patch member
    · exact ⟨d, by simp, rfl⟩
    · rw [ReturnsKept, each_snoc, ← ReturnsKept, ← returns]
      simp only [List.forall_mem_append, List.forall_mem_singleton]
      constructor
      · intro ⟨same, _⟩
        have e_same := same e member
        exact ⟨fun b before => (same b before).trans (e_same.symm.trans returned),
          fun _ => same⟩
      · intro ⟨_, same⟩
        exact ⟨same (overwrites.mpr unseen), rfl⟩
  | checked same once seen kept agree =>
    constructor
    · simp
    · exact linked same
    · exact definitions_snoc definitions once
    · rw [startsEmpty_snoc declared, ← noPrototype]
    · rw [startsVariadic_snoc declared, ← variadic]
    · have listed : lists ds ≠ [] := fun unlisted => seen (.inr (unknown.mpr unlisted))
      have counted : sig.paramCount ≠ -1 := fun uncounted => seen (.inr uncounted)
      simp [lists_snoc, listed, counted]
    · intro kinds last
      cases listed : d.parameters.kinds with
      | none =>
        rw [lists_snoc, listed, Option.toList_none, List.append_nil] at last
        exact latest kinds last
      | some new =>
        rw [lists_snoc, listed] at last
        obtain rfl : new = kinds := by simpa using last
        exact agree listed
    · intro prototyped kinds member
      rw [startsEmpty_snoc declared] at prototyped
      rw [lists_snoc, List.mem_append, Option.mem_toList] at member
      rcases member with earlier | new
      · exact agreed prototyped kinds earlier
      · exact agree new
    · exact ⟨d, by simp, kept.symm⟩
    · rw [ReturnsKept, each_snoc, ← ReturnsKept, ← returns]
      simp only [List.forall_mem_append, List.forall_mem_singleton, overwrites]
      exact ⟨fun same => ⟨same.1, fun unseen => absurd unseen seen⟩,
        fun same => ⟨same.1, kept.symm⟩⟩

/-- What the row does not compare: the return types that replace others, the variadic flags, and
the parameters where the first declaration has `()`. -/
structure UncomparedAgree (ds : List FunctionDeclaration) : Prop where
  returns : ReturnsKept ds
  variadics : ∀ d ∈ ds, ∀ {kinds variadic}, d.parameters = .prototype kinds variadic →
    variadic = startsVariadic ds
  parameters : startsEmpty ds = true → ∀ d ∈ ds, ∀ {kinds variadic},
    d.parameters = .prototype kinds variadic → (lists ds).getLast? = some kinds

theorem mem_lists {kinds : List TypeKind} {variadic : Bool} (member : d ∈ ds)
    (form : d.parameters = .prototype kinds variadic) : kinds ∈ lists ds :=
  List.mem_filterMap.mpr ⟨d, member, by rw [form]; rfl⟩

theorem registered_iff (registered : Registered ds sig) :
    OneSignature ds sig ↔ UncomparedAgree ds := by
  constructor
  · intro one
    constructor
    · obtain ⟨e, member, returned⟩ := registered.returned
      rw [← registered.returns, ← returned]
      intro d declared
      exact one.returns d declared e member
    · intro d member kinds variadic form
      rw [← registered.variadic]
      exact (one.signature d member form).2.symm
    · intro _ d member kinds variadic form
      obtain ⟨last, isLast⟩ : ∃ last, (lists ds).getLast? = some last :=
        ⟨_, List.getLast?_eq_some_getLast (List.ne_nil_of_mem (mem_lists member form))⟩
      rw [isLast, hasParameters_unique (one.signature d member form).1
        (registered.latest last isLast)]
  · intro agree
    have returned := registered.returns.mpr agree.returns
    have signature : ∀ d ∈ ds, ∀ {kinds variadic}, d.parameters = .prototype kinds variadic →
        HasParameters sig kinds ∧ sig.isVariadic = variadic := by
      intro d member kinds variadic form
      constructor
      · cases first : startsEmpty ds with
        | true => exact registered.latest kinds (agree.parameters first d member form)
        | false => exact registered.agreed first kinds (mem_lists member form)
      · rw [registered.variadic]
        exact (agree.variadics d member form).symm
    constructor
    · rw [registered.definitions]
      split <;> omega
    · intro d member e member'
      rw [returned d member, returned e member']
    · intro d member e member'
      rw [registered.linkages d member, registered.linkages e member']
    · intro d member e member' kinds variadic kinds' variadic' form form'
      obtain ⟨has, flag⟩ := signature d member form
      obtain ⟨has', flag'⟩ := signature e member' form'
      exact ⟨hasParameters_unique has has', flag.symm.trans flag'⟩
    · exact signature

/-- The declarations of a function, accepted one after another, leave it with one signature exactly
where what the row does not compare agrees. -/
theorem one_signature_iff (funcs : List FuncSig) {funcs' : List FuncSig}
    (ds : List FunctionDeclaration) (name : String)
    (fresh : parserFindFunction funcs name = none) (declared : functions.named name ds ≠ [])
    (accepted : functions.run funcs ds = .ok funcs') :
    ∃ sig, parserFindFunction funcs' name = some sig ∧
      (OneSignature (functions.named name ds) sig ↔
        UncomparedAgree (functions.named name ds)) := by
  obtain ⟨sig, found, registered⟩ := Registry.run_invariant functions_governed registered_first
    registered_next fresh accepted declared
  exact ⟨sig, found, registered_iff registered⟩

/-- `static long f(int);` and a definition of it. -/
def prototypeThenDefinition : List FunctionDeclaration :=
  [⟨[], "f", .prototype [.int] false, false, .long, .static⟩,
    ⟨[], "f", .prototype [.int] false, true, .long, .static⟩]

theorem prototypeThenDefinition_iff :
    ∃ sig, parserFindFunction [⟨"f", 1, true, .long, .int :: List.replicate 15 .void, .static,
      false, false⟩] "f" = some sig ∧
        (OneSignature (functions.named "f" prototypeThenDefinition) sig ↔
          UncomparedAgree (functions.named "f" prototypeThenDefinition)) :=
  one_signature_iff [] prototypeThenDefinition "f" rfl (by decide) rfl

/-- `int f(); int f(int); long f(int, int);` is accepted. -/
theorem two_prototypes_accepted :
    ∃ (ds : List FunctionDeclaration) (funcs : List FuncSig),
      functions.run [] ds = .ok funcs ∧ (∀ d ∈ ds, d.name = "f") ∧
        (∃ d ∈ ds, d.parameters = .prototype [.int] false ∧ d.returnType = .int) ∧
          ∃ d ∈ ds, d.parameters = .prototype [.int, .int] false ∧ d.returnType = .long :=
  ⟨[⟨[], "f", .empty, false, .int, .none⟩, ⟨[], "f", .prototype [.int] false, false, .int, .none⟩,
      ⟨[], "f", .prototype [.int, .int] false, false, .long, .none⟩], _, rfl, by decide, by decide,
    by decide⟩

end ClaudeC99.Globals
