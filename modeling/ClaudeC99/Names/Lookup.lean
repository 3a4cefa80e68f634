import ClaudeC99.Names.Scoping

/-! What the tables hold after every run, and when a lookup gives what the scopes of C say. -/

namespace ClaudeC99.Names

open Preprocessor (Text)
open Scopes (Env Token)
open Struct (Change Denotes TagKey TypeId TypeNode TypeOp TypeTables)

/-! ### Typedef names -/

/-- The rows are the typedefs of the blocks that are still open, in the order of their places. -/
structure TypedefsKept (log : List Event) (p : Tables) : Prop where
  depth : p.scopeDepth = depth log
  rows : ∀ e, e ∈ p.typedefs ↔
    log[e.declaredAt]? = some (.typedefName e.name e.kind e.fullType) ∧
      e.scopeDepth = Names.depth (log.take e.declaredAt) ∧ StillOpen log e.declaredAt
  ordered : p.typedefs.Pairwise fun e e' => e.declaredAt < e'.declaredAt

section Typedefs

variable {log : List Event} {p p' : Tables} {event : Event} {name : Text}

theorem typedefsKept_init : TypedefsKept [] Tables.parserInit where
  depth := rfl
  rows e := by simp [Tables.parserInit]
  ordered := List.Pairwise.nil

/-- An event that leaves the typedefs of the open blocks. -/
theorem TypedefsKept.filtered (kept : TypedefsKept log p)
    (depth : p'.scopeDepth = p.scopeDepth + event.deeper)
    (other : ∀ name kind fullType, event ≠ .typedefName name kind fullType)
    (rows : p'.typedefs = p.typedefs.filter fun e => e.scopeDepth ≤ p'.scopeDepth) :
    TypedefsKept (log ++ [event]) p' := by
  have new_depth : p'.scopeDepth = Names.depth (log ++ [event]) := by
    rw [depth, kept.depth, depth_concat]
  refine ⟨new_depth, ?_, ?_⟩
  · intro e
    have old : (log ++ [event])[e.declaredAt]? = some (.typedefName e.name e.kind e.fullType) ↔
        log[e.declaredAt]? = some (.typedefName e.name e.kind e.fullType) := by
      rw [at_concat]
      simp [other]
    rw [rows, List.mem_filter, kept.rows, old, decide_eq_true_iff, new_depth]
    constructor
    · rintro ⟨⟨here, level, still⟩, shallow⟩
      rw [level] at shallow
      rw [take_concat (Nat.le_of_lt (inside here)), stillOpen_concat (inside here)]
      exact ⟨here, level, still, shallow⟩
    · rintro ⟨here, level, still⟩
      rw [take_concat (Nat.le_of_lt (inside here))] at level
      obtain ⟨still, shallow⟩ := (stillOpen_concat (inside here)).mp still
      exact ⟨⟨here, level, still⟩, level ▸ shallow⟩
  · rw [rows]
    exact kept.ordered.filter _

/-- All rows stay when the depth does not shrink. -/
theorem TypedefsKept.same (kept : TypedefsKept log p)
    (depth : p'.scopeDepth = p.scopeDepth + event.deeper) (level : 0 ≤ event.deeper)
    (other : ∀ name kind fullType, event ≠ .typedefName name kind fullType)
    (rows : p'.typedefs = p.typedefs) : TypedefsKept (log ++ [event]) p' := by
  apply kept.filtered depth other
  rw [rows, eq_comm, List.filter_eq_self]
  intro e member
  obtain ⟨here, shallow, still⟩ := (kept.rows e).mp member
  have before := still.before (inside here)
  rw [decide_eq_true_iff, depth, kept.depth, shallow]
  omega

theorem registerTypedef_ok {kind : TypeKind} {fullType : Option TypeId} {place : Nat}
    (registered : (p.registerTypedef name kind fullType place).toOption = some p') :
    p' = { p with typedefs := p.typedefs ++ [⟨name, kind, fullType, p.scopeDepth, place⟩] } := by
  unfold Tables.registerTypedef at registered
  split at registered
  · cases registered
  · cases registered
    rfl

theorem TypedefsKept.register {kind : TypeKind} {fullType : Option TypeId}
    (kept : TypedefsKept log p) (depth : p'.scopeDepth = p.scopeDepth)
    (rows : p'.typedefs =
      p.typedefs ++ [⟨name, kind, fullType, p.scopeDepth, log.length⟩]) :
    TypedefsKept (log ++ [.typedefName name kind fullType]) p' := by
  have new_depth : Names.depth (log ++ [.typedefName name kind fullType]) = Names.depth log := by
    simp [depth_concat, Event.deeper]
  refine ⟨by rw [depth, kept.depth, new_depth], ?_, ?_⟩
  · intro e
    rw [rows, List.mem_append, List.mem_singleton, kept.rows, at_concat]
    constructor
    · rintro (⟨here, level, still⟩ | rfl)
      · rw [take_concat (Nat.le_of_lt (inside here)), stillOpen_concat (inside here), new_depth]
        exact ⟨.inl here, level, still, still.before (inside here)⟩
      · refine ⟨.inr ⟨rfl, rfl⟩, ?_, stillOpen_new (Int.le_refl 0)⟩
        rw [take_concat (Nat.le_refl _), List.take_length]
        exact kept.depth
    · rintro ⟨here | ⟨last, same⟩, level, still⟩
      · rw [take_concat (Nat.le_of_lt (inside here))] at level
        exact .inl ⟨here, level, ((stillOpen_concat (inside here)).mp still).1⟩
      · rw [last, take_concat (Nat.le_refl _), List.take_length, ← kept.depth] at level
        cases e
        cases same
        simp only at last level
        rw [last, level]
        exact .inr rfl
  · rw [rows, List.pairwise_append]
    refine ⟨kept.ordered, List.pairwise_singleton _ _, ?_⟩
    intro e member new last
    cases List.mem_singleton.mp last
    exact inside ((kept.rows e).mp member).1

theorem TypedefsKept.step (kept : TypedefsKept log p) (ran : p.step log.length event = some p') :
    TypedefsKept (log ++ [event]) p' := by
  cases event with
  | enter counted =>
    cases ran
    apply kept.same _ _ (by simp) <;> cases counted <;> simp [Event.deeper, Tables.enterScope]
  | leave counted =>
    cases ran
    cases counted with
    | false => apply kept.same <;> simp [Event.deeper]
    | true =>
      apply kept.filtered
      · rfl
      · simp
      · simp [Tables.leaveScope]
  | typedefName name kind fullType =>
    rw [registerTypedef_ok ran]
    exact kept.register rfl rfl
  | enumeratorName name =>
    rw [Tables.step, Tables.checkEnumerator] at ran
    split at ran
    · cases ran
    · cases ran
      apply kept.same <;> simp [Event.deeper]
  | enumerator name value | object name | declareTag key =>
    cases ran
    apply kept.same <;> simp [Event.deeper, Tables.pushEnumerator]
  | types op =>
    obtain ⟨types, -, rfl⟩ := Option.map_eq_some_iff.mp ran
    apply kept.same <;> simp [Event.deeper]

theorem findTypedef_eq_some (kept : TypedefsKept log p) {e : NamedTypedef} :
    p.findTypedef name = some e ↔
      (e ∈ p.typedefs ∧ e.name = name) ∧ NoOpenTypedef log name (e.declaredAt + 1) := by
  have ordered := List.pairwise_reverse.mpr kept.ordered
  rw [Tables.findTypedef, Tables.find?_ordered (fun a b => Nat.lt_asymm) ordered]
  simp only [List.mem_reverse, decide_eq_true_iff]
  apply and_congr_right
  rintro ⟨member, named⟩
  constructor
  · rintro last place after ⟨kind, fullType, here⟩ still
    have row := (kept.rows ⟨name, kind, fullType, depth (log.take place), place⟩).mpr
      ⟨here, rfl, still⟩
    rcases last _ row rfl with rfl | before
    · exact Nat.lt_irrefl _ after
    · exact Nat.lt_asymm after before
  · intro none e' member' named'
    obtain ⟨here', level', still'⟩ := (kept.rows e').mp member'
    rcases Nat.lt_trichotomy e'.declaredAt e.declaredAt with before | same | after
    · exact .inr before
    · obtain ⟨here, level, -⟩ := (kept.rows e).mp member
      rw [same] at here' level'
      have events := Option.some.inj (here'.symm.trans here)
      cases e
      cases e'
      cases same
      cases events
      cases level.trans level'.symm
      exact .inl rfl
    · exact absurd still' (none _ after ⟨_, _, named' ▸ here'⟩)

theorem findTypedef_eq_none (kept : TypedefsKept log p) :
    p.findTypedef name = none ↔ NoOpenTypedef log name 0 := by
  rw [Tables.findTypedef, List.find?_eq_none]
  simp only [List.mem_reverse, decide_eq_true_iff]
  constructor
  · rintro none place - ⟨kind, fullType, here⟩ still
    exact none ⟨name, kind, fullType, depth (log.take place), place⟩
      ((kept.rows _).mpr ⟨here, rfl, still⟩) rfl
  · intro none e member named
    obtain ⟨here, -, still⟩ := (kept.rows e).mp member
    exact none _ (Nat.zero_le _) ⟨_, _, named ▸ here⟩ still

end Typedefs

/-! ### Enumerators -/

/-- The rows are all enumerators, in the order of their places. -/
structure EnumConstsKept (log : List Event) (p : Tables) : Prop where
  rows : ∀ c, c ∈ p.enumConsts ↔ log[c.declaredAt]? = some (.enumerator c.name c.value)
  ordered : p.enumConsts.Pairwise fun c c' => c.declaredAt < c'.declaredAt

section EnumConsts

variable {log : List Event} {p p' : Tables} {event : Event} {name : Text}

theorem enumConstsKept_init : EnumConstsKept [] Tables.parserInit where
  rows c := by simp [Tables.parserInit]
  ordered := List.Pairwise.nil

theorem EnumConstsKept.same (kept : EnumConstsKept log p)
    (other : ∀ name value, event ≠ .enumerator name value) (rows : p'.enumConsts = p.enumConsts) :
    EnumConstsKept (log ++ [event]) p' := by
  constructor
  · intro c
    rw [rows, kept.rows, at_concat]
    simp [other]
  · rw [rows]
    exact kept.ordered

theorem EnumConstsKept.push {value : Int} (kept : EnumConstsKept log p) :
    EnumConstsKept (log ++ [.enumerator name value])
      (p.pushEnumerator name value log.length) := by
  constructor
  · intro c
    rw [Tables.pushEnumerator, List.mem_append, List.mem_singleton, kept.rows, at_concat]
    apply or_congr_right
    constructor
    · rintro rfl
      exact ⟨rfl, rfl⟩
    · rintro ⟨last, same⟩
      obtain ⟨⟨name', value'⟩, place⟩ := c
      cases same
      cases last
      rfl
  · rw [Tables.pushEnumerator, List.pairwise_append]
    refine ⟨kept.ordered, List.pairwise_singleton _ _, ?_⟩
    intro c member new last
    cases List.mem_singleton.mp last
    exact inside ((kept.rows c).mp member)

theorem EnumConstsKept.step (kept : EnumConstsKept log p)
    (ran : p.step log.length event = some p') : EnumConstsKept (log ++ [event]) p' := by
  cases event with
  | enter counted | leave counted =>
    cases ran
    apply kept.same <;> cases counted <;> simp [Tables.enterScope, Tables.leaveScope]
  | typedefName name kind fullType =>
    rw [registerTypedef_ok ran]
    apply kept.same <;> simp
  | enumeratorName name =>
    rw [Tables.step, Tables.checkEnumerator] at ran
    split at ran
    · cases ran
    · cases ran
      apply kept.same <;> simp
  | enumerator name value =>
    cases ran
    exact kept.push
  | object name | declareTag key =>
    cases ran
    apply kept.same <;> simp
  | types op =>
    obtain ⟨types, -, rfl⟩ := Option.map_eq_some_iff.mp ran
    apply kept.same <;> simp

theorem findEnumConst_eq_some (kept : EnumConstsKept log p) {c : NamedConst} :
    p.findEnumConst name = some c ↔
      (log[c.declaredAt]? = some (.enumerator c.name c.value) ∧ c.name = name) ∧
        ∀ earlier < c.declaredAt, ¬ EnumeratorAt log name earlier := by
  rw [Tables.findEnumConst, Tables.find?_ordered (fun a b => Nat.lt_asymm) kept.ordered, kept.rows]
  simp only [decide_eq_true_iff]
  apply and_congr_right
  rintro ⟨here, named⟩
  constructor
  · rintro first earlier before ⟨value, there⟩
    rcases first ⟨⟨name, value⟩, earlier⟩ ((kept.rows _).mpr there) rfl with rfl | after
    · exact Nat.lt_irrefl _ before
    · exact Nat.lt_asymm before after
  · intro none c' member named'
    have there := (kept.rows c').mp member
    rcases Nat.lt_trichotomy c'.declaredAt c.declaredAt with before | same | after
    · exact absurd ⟨_, named' ▸ there⟩ (none _ before)
    · rw [same] at there
      have events := Option.some.inj (there.symm.trans here)
      obtain ⟨⟨name', value'⟩, place'⟩ := c'
      obtain ⟨⟨name, value⟩, place⟩ := c
      cases same
      cases events
      exact .inl rfl
    · exact .inr after

theorem findEnumConst_eq_none (kept : EnumConstsKept log p) :
    p.findEnumConst name = none ↔ ∀ place, ¬ EnumeratorAt log name place := by
  rw [Tables.findEnumConst, List.find?_eq_none]
  simp only [decide_eq_true_iff]
  constructor
  · rintro none place ⟨value, here⟩
    exact none ⟨⟨name, value⟩, place⟩ ((kept.rows _).mpr here) rfl
  · intro none c member named
    exact none _ ⟨_, named ▸ (kept.rows c).mp member⟩

end EnumConsts

end ClaudeC99.Names
