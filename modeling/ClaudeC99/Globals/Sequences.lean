import ClaudeC99.Globals.Redeclarations
import ClaudeC99.Lib.Registries

/-! What the declarations of one object, accepted one after another, have in common, and what
becomes of their initializers in its row. -/

namespace ClaudeC99.Globals

open Tables
open Registries
open Front (GlobalObjSig parserFindGlobal parserRegisterGlobal)

/-- What `parse_external_declaration` registers. -/
structure ObjectDeclaration where
  name : String
  kind : TypeKind
  storage : StorageClass
  fullType : Option CType
  hasInit : Bool
  fileScope : storage ∈ [StorageClass.none, StorageClass.external, StorageClass.static]

namespace ObjectDeclaration

def isStatic (d : ObjectDeclaration) : Bool := decide (d.storage = .static)

def isExternal (d : ObjectDeclaration) : Bool := decide (d.storage = .external)

end ObjectDeclaration

def objects : Registry (List GlobalObjSig) ObjectDeclaration String GlobalObjSig String where
  name := ObjectDeclaration.name
  find := parserFindGlobal
  register globals d :=
    parserRegisterGlobal globals d.name d.kind d.storage d.fullType d.hasInit

def initialized (ds : List ObjectDeclaration) : List ObjectDeclaration :=
  ds.filter ObjectDeclaration.hasInit

/-- One definition at most, of one kind and one linkage, and `isDefined` says if there is one. -/
structure OneDefinition (ds : List ObjectDeclaration) (sig : GlobalObjSig) : Prop where
  atMostOne : (initialized ds).length ≤ 1
  kinds : ∀ d ∈ ds, ∀ e ∈ ds, d.kind = e.kind
  linkages : ∀ d ∈ ds, ∀ e ∈ ds, d.isStatic = e.isStatic
  defined : sig.isDefined = true ↔ ∃ d ∈ ds, d.hasInit = true

/-- The initializer of `d` is not noted: the row is there, and it or `d` is extern. -/
def Missed (before : List ObjectDeclaration) (d : ObjectDeclaration) : Prop :=
  before ≠ [] ∧ d.hasInit = true ∧ d.isStatic = false ∧
    (d.isExternal = true ∨ ∀ b ∈ before, b.isExternal = true)

/-- The row of a declaration's name after the declaration, from the one before it. -/
inductive ObjectRow : Option GlobalObjSig → ObjectDeclaration → GlobalObjSig → Prop where
  | new (d : ObjectDeclaration) :
      ObjectRow .none d ⟨d.name, d.kind, d.storage, d.fullType, d.hasInit⟩
  | merged {sig : GlobalObjSig} {d : ObjectDeclaration} (kinds : sig.kind = d.kind)
      (linkages : sig.storage = .static ↔ d.storage = .static)
      (neither : sig.storage ≠ .external ∧ d.storage ≠ .external)
      (once : ¬ (sig.isDefined = true ∧ d.hasInit = true)) :
      ObjectRow (some sig) d { sig with isDefined := sig.isDefined || d.hasInit }
  | external {sig : GlobalObjSig} {d : ObjectDeclaration} (kinds : sig.kind = d.kind)
      (linkages : sig.storage ≠ .static ∧ d.storage ≠ .static)
      (either : sig.storage = .external ∨ d.storage = .external) :
      ObjectRow (some sig) d
        { sig with storage := if d.storage = .none then .none else sig.storage }

theorem find_row {globals : List GlobalObjSig} {name : String} {sig : GlobalObjSig}
    {f : GlobalObjSig → GlobalObjSig} (keeps : ∀ sig, (f sig).name = sig.name)
    (found : parserFindGlobal globals name = some sig) :
    parserFindGlobal (updateFirst (·.name = name) f globals) name = some (f sig) := by
  rw [parserFindGlobal, find?_updateFirst fun sig same => by simpa [keeps] using same]
  exact congrArg (Option.map f) found

theorem find_other {globals : List GlobalObjSig} {name k : String}
    {f : GlobalObjSig → GlobalObjSig} (keeps : ∀ sig, (f sig).name = sig.name) (other : k ≠ name) :
    parserFindGlobal (updateFirst (·.name = name) f globals) k = parserFindGlobal globals k := by
  apply find?_updateFirst_of_not
  intro sig same
  simp_all [Ne.symm other]

theorem register_row {globals after : List GlobalObjSig} {d : ObjectDeclaration}
    (accepted : objects.register globals d = .ok after) :
    ∃ sig, parserFindGlobal after d.name = some sig ∧
      ObjectRow (parserFindGlobal globals d.name) d sig := by
  have kinds : ∀ sig, parserFindGlobal globals d.name = some sig → sig.kind = d.kind :=
    fun _ found => register_kind found accepted
  simp only [objects, parserRegisterGlobal] at accepted
  cases found : parserFindGlobal globals d.name with
  | none =>
    simp only [found, Except.ok.injEq] at accepted
    subst accepted
    exact ⟨_, find?_last found (by simp), .new d⟩
  | some sig =>
    simp only [found] at accepted
    split at accepted
    · cases accepted
    split at accepted
    · cases accepted
    next linkages =>
    have linkages : sig.storage = .static ↔ d.storage = .static := by simpa using linkages
    split at accepted
    next static =>
      have neither : sig.storage ≠ .external ∧ d.storage ≠ .external := by
        rcases static with static | neither
        · simp [static, linkages.mp static]
        · exact neither
      split at accepted
      · cases accepted
      next once =>
      have row := ObjectRow.merged (kinds sig found) linkages neither once
      cases accepted
      split
      next init =>
        refine ⟨_, find_row (fun _ => rfl) found, ?_⟩
        simpa [init] using row
      next init =>
        refine ⟨sig, found, ?_⟩
        simpa [init] using row
    next static =>
      obtain ⟨notStatic, either⟩ := not_or.mp static
      have either : sig.storage = .external ∨ d.storage = .external := by
        by_contra neither
        exact either (not_or.mp neither)
      have row := ObjectRow.external (kinds sig found)
        ⟨notStatic, fun new => notStatic (linkages.mpr new)⟩ either
      cases accepted
      split
      next plain =>
        refine ⟨_, find_row (fun _ => rfl) found, ?_⟩
        simpa [plain] using row
      next plain =>
        refine ⟨sig, found, ?_⟩
        simpa [plain] using row

theorem register_others {globals after : List GlobalObjSig} {d : ObjectDeclaration} {k : String}
    (accepted : objects.register globals d = .ok after) (other : k ≠ d.name) :
    parserFindGlobal after k = parserFindGlobal globals k := by
  simp only [objects, parserRegisterGlobal] at accepted
  split at accepted
  · cases accepted
    simp [parserFindGlobal, List.find?_append, Ne.symm other]
  · split at accepted
    · cases accepted
    split at accepted
    · cases accepted
    split at accepted
    · split at accepted
      · cases accepted
      cases accepted
      split
      · exact find_other (fun _ => rfl) other
      · rfl
    · cases accepted
      split
      · exact find_other (fun _ => rfl) other
      · rfl

theorem objects_governed : objects.Governed ObjectRow where
  declared := register_row
  others := register_others

/-- What the row says of the declarations so far. The initializers are the missed ones and the one
that made the object defined. -/
structure Recorded (ds : List ObjectDeclaration) (sig : GlobalObjSig) : Prop where
  declared : ds ≠ []
  kinds : ∀ d ∈ ds, d.kind = sig.kind
  linkages : ∀ d ∈ ds, d.isStatic = decide (sig.storage = .static)
  external : sig.storage = .external ↔ ∀ d ∈ ds, d.isExternal = true
  inits : ∃ missed, (initialized ds).length = missed + (if sig.isDefined = true then 1 else 0) ∧
    (missed = 0 ↔ Each (fun before d => ¬ Missed before d) ds)

variable {ds : List ObjectDeclaration} {d : ObjectDeclaration} {sig after : GlobalObjSig}

theorem recorded_first (row : ObjectRow none d sig) : Recorded [d] sig := by
  cases row
  constructor
  · simp
  · simp
  · simp [ObjectDeclaration.isStatic]
  · simp [ObjectDeclaration.isExternal]
  · refine ⟨0, ?_, ?_⟩
    · cases init : d.hasInit <;> simp [initialized, init]
    · rw [← List.nil_append [d], each_snoc]
      simp [each_nil, Missed]

theorem initialized_snoc :
    (initialized (ds ++ [d])).length =
      (initialized ds).length + if d.hasInit = true then 1 else 0 := by
  cases init : d.hasInit <;> simp [initialized, List.filter_append, init]

theorem recorded_next (recorded : Recorded ds sig) (row : ObjectRow (some sig) d after) :
    Recorded (ds ++ [d]) after := by
  obtain ⟨missed, count, none⟩ := recorded.inits
  have allKinds := recorded.kinds
  have allLinkages := recorded.linkages
  cases row with
  | merged kinds linkages neither once =>
    have notMissed : ¬ Missed ds d := by
      intro ⟨_, _, _, external⟩
      rcases external with itself | earlier
      · exact neither.2 (by simpa [ObjectDeclaration.isExternal] using itself)
      · exact neither.1 (recorded.external.mpr earlier)
    constructor
    · simp
    · simp only [List.forall_mem_append, List.forall_mem_singleton]
      exact ⟨allKinds, kinds.symm⟩
    · simp only [List.forall_mem_append, List.forall_mem_singleton]
      exact ⟨allLinkages, by simp [ObjectDeclaration.isStatic, linkages]⟩
    · simp [ObjectDeclaration.isExternal, neither]
    · refine ⟨missed, ?_, ?_⟩
      · rw [initialized_snoc, count]
        cases old : sig.isDefined <;> cases init : d.hasInit <;> simp_all
      · rw [each_snoc, none]
        simp [notMissed]
  | external kinds linkages either =>
    have kept : d.storage = .none ∨ d.storage = .external := by
      have := d.fileScope
      simp_all
    have isMissed : Missed ds d ↔ d.hasInit = true := by
      have external : d.isExternal = true ∨ ∀ b ∈ ds, b.isExternal = true := by
        rcases either with earlier | itself
        · exact .inr (recorded.external.mp earlier)
        · exact .inl (by simpa [ObjectDeclaration.isExternal] using itself)
      simp [Missed, recorded.declared, ObjectDeclaration.isStatic, linkages, external]
    constructor
    · simp
    · simp only [List.forall_mem_append, List.forall_mem_singleton]
      exact ⟨allKinds, kinds.symm⟩
    · have unchanged : decide ((if d.storage = .none then StorageClass.none else sig.storage) =
          .static) = decide (sig.storage = .static) := by
        split <;> simp [linkages]
      simp only [List.forall_mem_append, List.forall_mem_singleton, unchanged]
      exact ⟨allLinkages, by simp [ObjectDeclaration.isStatic, linkages]⟩
    · simp only [List.forall_mem_append, List.forall_mem_singleton, ← recorded.external]
      rcases kept with plain | external
      · simp [plain, ObjectDeclaration.isExternal]
      · simp [external, ObjectDeclaration.isExternal]
    · refine ⟨missed + if d.hasInit = true then 1 else 0, ?_, ?_⟩
      · rw [initialized_snoc, count]
        exact Nat.add_right_comm _ _ _
      · rw [each_snoc, isMissed, ← none]
        cases init : d.hasInit <;> simp

/-- The row is right about the definition if and only if no initializer was missed. -/
theorem recorded_iff (recorded : Recorded ds sig) :
    OneDefinition ds sig ↔ Each (fun before d => ¬ Missed before d) ds := by
  obtain ⟨missed, count, none⟩ := recorded.inits
  have some : (initialized ds).length ≠ 0 ↔ ∃ d ∈ ds, d.hasInit = true := by
    simp [initialized, List.filter_eq_nil_iff]
  rw [← none]
  constructor
  · intro one
    have atMostOne := one.atMostOne
    have defined := some.trans one.defined.symm
    rw [count] at atMostOne defined
    cases old : sig.isDefined with
    | false => simpa [old] using defined
    | true => simpa [old] using atMostOne
  · intro nothing
    constructor
    · split at count <;> omega
    · intro d member e member'
      rw [recorded.kinds d member, recorded.kinds e member']
    · intro d member e member'
      rw [recorded.linkages d member, recorded.linkages e member']
    · rw [← some, count, nothing]
      cases sig.isDefined <;> simp

/-- The declarations of an object, accepted one after another, leave it with one definition at
most, and known as defined just if it is, exactly where none but the first declaration has an
initializer while it or all before it are extern. -/
theorem one_definition_iff (globals : List GlobalObjSig) {globals' : List GlobalObjSig}
    (ds : List ObjectDeclaration) (name : String)
    (fresh : parserFindGlobal globals name = none) (declared : objects.named name ds ≠ [])
    (accepted : objects.run globals ds = .ok globals') :
    ∃ sig, parserFindGlobal globals' name = some sig ∧
      (OneDefinition (objects.named name ds) sig ↔
        Each (fun before d => ¬ Missed before d) (objects.named name ds)) := by
  obtain ⟨sig, found, recorded⟩ := Registry.run_invariant objects_governed recorded_first
    recorded_next fresh accepted declared
  exact ⟨sig, found, recorded_iff recorded⟩

/-- `extern int x; int y = 2; int x = 1;` -/
def declaredThenInitialized : List ObjectDeclaration :=
  [⟨"x", .int, .external, none, false, by decide⟩, ⟨"y", .int, .none, none, true, by decide⟩,
    ⟨"x", .int, .none, none, true, by decide⟩]

theorem declaredThenInitialized_iff :
    ∃ sig, parserFindGlobal [⟨"x", .int, .none, none, false⟩, ⟨"y", .int, .none, none, true⟩] "x" =
      some sig ∧
        (OneDefinition (objects.named "x" declaredThenInitialized) sig ↔
          Each (fun before d => ¬ Missed before d) (objects.named "x" declaredThenInitialized)) :=
  one_definition_iff [] declaredThenInitialized "x" rfl (by decide) rfl

/-- `extern int x; int x = 1; int x = 2;` is accepted. -/
theorem two_definitions_accepted :
    ∃ (ds : List ObjectDeclaration) (globals : List GlobalObjSig),
      objects.run [] ds = .ok globals ∧ (∀ d ∈ ds, d.name = "x") ∧ 1 < (initialized ds).length :=
  ⟨[⟨"x", .int, .external, none, false, by decide⟩, ⟨"x", .int, .none, none, true, by decide⟩,
      ⟨"x", .int, .none, none, true, by decide⟩], _, rfl, by decide, by decide⟩

end ClaudeC99.Globals
