import ClaudeC99.Names.Lookup

/-! The tables follow the scopes of C exactly where no table without scopes is in the way. -/

namespace ClaudeC99.Names

open Preprocessor (Text)
open Scopes (Env Token)
open Struct (Change Denotes TagKey TypeId TypeNode TypeOp TypeTables)

/-! ### The open scopes -/

/-- Every visible declaration stands in a block that is still open. -/
structure NamesKept (log : List Event) (scopes : List Bool) (env : Env Text) : Prop where
  depth : depth log = scopes.count true
  height : env.length = scopes.length + 1
  declared : ∀ level, ∀ d ∈ env.getD level [],
    ∃ event, log[d.id]? = some event ∧ event.nameToken = .declare d.name
  still : ∀ level, ∀ d ∈ env.getD level [], StillOpen log d.id
  shallow : ∀ level, ∀ d ∈ env.getD level [],
    Names.depth (log.take d.id) ≤ (scopes.drop level).count true

section Scopes

variable {log : List Event} {scopes scopes' : List Bool} {env env' : Env Text} {event : Event}

theorem namesKept_init : NamesKept [] [] [[]] where
  depth := rfl
  height := rfl
  declared level d member := by cases level <;> simp at member
  still level d member := by cases level <;> simp at member
  shallow level d member := by cases level <;> simp at member

/-- Declarations that stay are not above the depth after the event. -/
theorem NamesKept.stay (kept : NamesKept log scopes env)
    (depth : Names.depth (log ++ [event]) = scopes'.count true)
    (height : env'.length = scopes'.length + 1)
    (old : ∀ level, ∀ d ∈ env'.getD level [], ∃ level', d ∈ env.getD level' [] ∧
      (scopes.drop level').count true ≤ (scopes'.drop level).count true) :
    NamesKept (log ++ [event]) scopes' env' := by
  have shallow (level : Nat) (d : Scopes.Declared Text) (member : d ∈ env'.getD level []) :
      d.id < log.length ∧ Names.depth (log.take d.id) ≤ (scopes'.drop level).count true := by
    obtain ⟨level', before, lower⟩ := old level d member
    obtain ⟨event', here, -⟩ := kept.declared level' d before
    have bound := kept.shallow level' d before
    exact ⟨inside here, bound.trans (by exact_mod_cast lower)⟩
  refine ⟨depth, height, ?_, ?_, ?_⟩
  · intro level d member
    obtain ⟨level', before, -⟩ := old level d member
    obtain ⟨event', here, declares⟩ := kept.declared level' d before
    exact ⟨event', at_concat.mpr (.inl here), declares⟩
  · intro level d member
    obtain ⟨level', before, -⟩ := old level d member
    obtain ⟨within, bound⟩ := shallow level d member
    refine (stillOpen_concat within).mpr ⟨kept.still level' d before, ?_⟩
    rw [depth]
    refine bound.trans ?_
    exact_mod_cast List.Sublist.count_le true (List.drop_sublist level scopes')
  · intro level d member
    obtain ⟨within, bound⟩ := shallow level d member
    rwa [take_concat (Nat.le_of_lt within)]

theorem NamesKept.declare {name : Text} (kept : NamesKept log scopes env)
    (level : event.deeper = 0) (declares : event.nameToken = .declare name) :
    NamesKept (log ++ [event]) scopes (env.after log.length (.declare name)) := by
  have depth : Names.depth (log ++ [event]) = scopes.count true := by
    rw [depth_concat, level, kept.depth, Int.add_zero]
  have kept' : NamesKept (log ++ [event]) scopes env :=
    kept.stay depth kept.height fun level d member => ⟨level, member, Nat.le_refl _⟩
  obtain ⟨frame, outer, rfl⟩ := List.exists_cons_of_length_eq_add_one kept.height
  have cases_of (level : Nat) (d : Scopes.Declared Text)
      (member : d ∈ ((⟨name, log.length⟩ :: frame) :: outer).getD level []) :
      d = ⟨name, log.length⟩ ∧ level = 0 ∨ d ∈ (frame :: outer).getD level [] := by
    cases level with
    | zero => exact (List.mem_cons.mp member).imp (fun same => ⟨same, rfl⟩) id
    | succ level => exact .inr member
  refine ⟨depth, kept.height, ?_, ?_, ?_⟩
  · intro level d member
    rcases cases_of level d member with ⟨rfl, -⟩ | before
    · exact ⟨event, at_concat.mpr (.inr ⟨rfl, rfl⟩), declares⟩
    · exact kept'.declared level d before
  · intro level d member
    rcases cases_of level d member with ⟨rfl, -⟩ | before
    · exact stillOpen_new (by omega)
    · exact kept'.still level d before
  · intro level d member
    rcases cases_of level d member with ⟨rfl, rfl⟩ | before
    · rw [take_concat (Nat.le_refl _), List.take_length, kept.depth]
      exact Int.le_refl _
    · exact kept'.shallow level d before

theorem NamesKept.step (kept : NamesKept log scopes env)
    (nested : event.nest scopes = some scopes') :
    NamesKept (log ++ [event]) scopes' (env.after log.length event.nameToken) := by
  have depth := kept.depth
  have height := kept.height
  cases event with
  | enter counted =>
    cases nested
    apply kept.stay
    · cases counted <;> simp [depth_concat, Event.deeper, depth]
    · simp [Env.after, Event.nameToken, height]
    · intro level d member
      cases level with
      | zero => simp [Env.after, Event.nameToken] at member
      | succ level => exact ⟨level, member, by simp⟩
  | leave counted =>
    rw [Event.nest, Option.ite_none_right_eq_some] at nested
    obtain ⟨innermost, same⟩ := nested
    cases same
    obtain ⟨outer, rfl⟩ := List.head?_eq_some_iff.mp innermost
    apply kept.stay
    · rw [depth_concat, depth]
      cases counted <;> simp [Event.deeper]
    · simp [Env.after, Event.nameToken, height]
    · intro level d member
      refine ⟨level + 1, ?_, by simp⟩
      cases env with
      | nil => exact member
      | cons frame env => exact member
  | typedefName name kind fullType | enumerator name value | object name =>
    cases nested
    exact kept.declare rfl rfl
  | enumeratorName name | declareTag key | types op =>
    cases nested
    apply kept.stay _ height fun level d member => ⟨level, member, Nat.le_refl _⟩
    simp [depth_concat, Event.deeper, depth]

theorem names_concat : names (log ++ [event]) = (names log).after log.length event.nameToken := by
  simp [names, List.zipIdx_append]

theorem nesting_concat : nesting (log ++ [event]) = (nesting log).bind event.nest := by
  rw [nesting, List.foldlM_append]
  simp [nesting]

theorem namesKept_of_nesting (nested : nesting log = some scopes) :
    NamesKept log scopes (names log) := by
  induction log using List.reverseRecOn generalizing scopes with
  | nil =>
    cases nested
    exact namesKept_init
  | append_singleton log event ih =>
    rw [nesting_concat] at nested
    obtain ⟨before, nested_before, step⟩ := Option.bind_eq_some_iff.mp nested
    rw [names_concat]
    exact (ih nested_before).step step

/-- The innermost declaration of a name. -/
theorem NamesKept.referent {name : Text} {place : Nat} (kept : NamesKept log scopes env)
    (found : env.referent name = some place) :
    StillOpen log place ∧
      ∃ event, log[place]? = some event ∧ event.nameToken = .declare name := by
  obtain ⟨d, visible, rfl⟩ := List.mem_map.mp (List.mem_of_mem_head? found)
  obtain ⟨member, named⟩ := List.mem_filter.mp visible
  obtain ⟨frame, inside_env, inside_frame⟩ := List.mem_flatten.mp member
  obtain ⟨level, within, rfl⟩ := List.mem_iff_getElem.mp inside_env
  have at_level : d ∈ env.getD level [] := by
    rwa [List.getD_eq_getElem _ _ within]
  have same : d.name = name := by simpa using named
  obtain ⟨event, here, declares⟩ := kept.declared level d at_level
  exact ⟨kept.still level d at_level, event, here, same ▸ declares⟩

end Scopes

/-! ### Names -/

section Names

variable {log : List Event} {p : Tables} {name : Text} {place : Nat} {typeMayStart : Bool}

theorem meaningInC_typedefName {kind : TypeKind} {fullType : Option TypeId} {scopes : List Bool}
    (nested : nesting log = some scopes)
    (means : meaningInC log name = .typedefName place kind fullType) :
    log[place]? = some (.typedefName name kind fullType) ∧ StillOpen log place := by
  unfold meaningInC at means
  split at means
  · cases means
  next found =>
    obtain ⟨still, event, here, declares⟩ := (namesKept_of_nesting nested).referent found
    rw [here] at means
    cases event <;> cases means
    cases declares
    exact ⟨here, still⟩

theorem meaningInC_enumConst {value : Int} {scopes : List Bool}
    (nested : nesting log = some scopes) (means : meaningInC log name = .enumConst place value) :
    log[place]? = some (.enumerator name value) := by
  unfold meaningInC at means
  split at means
  · cases means
  next found =>
    obtain ⟨-, event, here, declares⟩ := (namesKept_of_nesting nested).referent found
    rw [here] at means
    cases event <;> cases means
    cases declares
    exact here

/-- Where the typedef table has no answer, the enumerators decide. -/
theorem meaning_of_none (none : typeMayStart = true → p.findTypedef name = none) :
    p.meaning typeMayStart name =
      (p.findEnumConst name).elim .ordinary fun c => .enumConst c.declaredAt c.value := by
  have looked : (if typeMayStart = true then p.findTypedef name else Option.none) =
      Option.none := by
    split
    next starts => exact none starts
    · rfl
  rw [Tables.meaning, looked]
  cases p.findEnumConst name <;> rfl

theorem meaning_of_some {e : NamedTypedef} (found : p.findTypedef name = some e) :
    p.meaning true name = .typedefName e.declaredAt e.kind e.fullType := by
  rw [Tables.meaning, if_pos rfl, found]

/-- Where the answer is no typedef name, the typedef table has none. -/
theorem none_of_meaning
    (other : ∀ place kind fullType, p.meaning typeMayStart name ≠ .typedefName place kind fullType)
    (starts : typeMayStart = true) : p.findTypedef name = none := by
  cases found : p.findTypedef name with
  | none => rfl
  | some e =>
    rw [starts, meaning_of_some found] at other
    exact absurd rfl (other _ _ _)

variable (typedefs : TypedefsKept log p) (consts : EnumConstsKept log p)

include typedefs

theorem meaning_typedefName {kind : TypeKind} {fullType : Option TypeId}
    (here : log[place]? = some (.typedefName name kind fullType)) (still : StillOpen log place) :
    p.meaning typeMayStart name = .typedefName place kind fullType ↔
      typeMayStart = true ∧ NoOpenTypedef log name (place + 1) := by
  constructor
  · intro means
    cases typeMayStart with
    | false =>
      rw [meaning_of_none (by simp)] at means
      cases found : p.findEnumConst name <;> rw [found] at means <;> cases means
    | true =>
      refine ⟨rfl, ?_⟩
      cases found : p.findTypedef name with
      | none =>
        have open_one := (findTypedef_eq_none typedefs).mp found
        exact absurd still (open_one place (Nat.zero_le _) ⟨kind, fullType, here⟩)
      | some e =>
        rw [meaning_of_some found] at means
        cases means
        exact ((findTypedef_eq_some typedefs).mp found).2
  · rintro ⟨rfl, none⟩
    have member := (typedefs.rows ⟨name, kind, fullType, depth (log.take place), place⟩).mpr
      ⟨here, rfl, still⟩
    exact meaning_of_some ((findTypedef_eq_some typedefs).mpr ⟨⟨member, rfl⟩, none⟩)

include consts

theorem meaning_enumConst {value : Int} (here : log[place]? = some (.enumerator name value)) :
    p.meaning typeMayStart name = .enumConst place value ↔
      (typeMayStart = true → NoOpenTypedef log name 0) ∧
        ∀ earlier < place, ¬ EnumeratorAt log name earlier := by
  have found_iff : p.findEnumConst name = some ⟨⟨name, value⟩, place⟩ ↔ _ :=
    findEnumConst_eq_some consts
  constructor
  · intro means
    have none (starts : typeMayStart = true) : p.findTypedef name = none :=
      none_of_meaning (fun _ _ _ other => by cases means.symm.trans other) starts
    rw [meaning_of_none none] at means
    refine ⟨fun starts => (findTypedef_eq_none typedefs).mp (none starts), ?_⟩
    cases found : p.findEnumConst name with
    | none =>
      rw [found] at means
      cases means
    | some c =>
      rw [found] at means
      cases means
      exact ((findEnumConst_eq_some consts).mp found).2
  · rintro ⟨none, first⟩
    rw [meaning_of_none fun starts => (findTypedef_eq_none typedefs).mpr (none starts),
      found_iff.mpr ⟨⟨here, rfl⟩, first⟩]
    rfl

theorem meaning_ordinary : p.meaning typeMayStart name = .ordinary ↔
    (typeMayStart = true → NoOpenTypedef log name 0) ∧
      ∀ place, ¬ EnumeratorAt log name place := by
  constructor
  · intro means
    have none (starts : typeMayStart = true) : p.findTypedef name = none :=
      none_of_meaning (fun _ _ _ other => by cases means.symm.trans other) starts
    rw [meaning_of_none none] at means
    refine ⟨fun starts => (findTypedef_eq_none typedefs).mp (none starts), ?_⟩
    cases found : p.findEnumConst name with
    | none => exact (findEnumConst_eq_none consts).mp found
    | some c =>
      rw [found] at means
      cases means
  · rintro ⟨none, absent⟩
    rw [meaning_of_none fun starts => (findTypedef_eq_none typedefs).mpr (none starts),
      (findEnumConst_eq_none consts).mpr absent]
    rfl

theorem meaning_iff {scopes : List Bool} (nested : nesting log = some scopes) :
    p.meaning typeMayStart name = meaningInC log name ↔ NameFollowed log typeMayStart name := by
  unfold NameFollowed
  cases means : meaningInC log name with
  | typedefName place kind fullType =>
    obtain ⟨here, still⟩ := meaningInC_typedefName nested means
    exact meaning_typedefName typedefs here still
  | enumConst place value =>
    exact meaning_enumConst typedefs consts (meaningInC_enumConst nested means)
  | ordinary => exact meaning_ordinary typedefs consts

end Names

/-! ### Tags -/

section Changes

variable {s s' : TypeTables} {op : TypeOp} {key : TagKey}

theorem known_change (change : Change s s' op)
    (known : ∀ k t, s.entry k = some t → Denotes s k t) :
    ∀ k t, s'.entry k = some t → Denotes s' k t := by
  have denotes : ∀ k t, Denotes s k t → Denotes s' k t := fun _ _ => change.denotes
  cases change with
  | same _ _ entries | plain _ _ _ _ entries | copy _ _ _ _ _ _ _ _ entries
  | complete _ _ _ _ _ _ _ _ entries =>
    intro k t entry
    exact denotes k t (known k t (entries k ▸ entry))
  | refer _ k _ types entry entries | define k _ _ _ _ _ types entry entries =>
    exact Struct.known_new known denotes rfl types entry entries

theorem length_change (change : Change s s' op) : s.types.length ≤ s'.types.length := by
  cases change with
  | same _ types => rw [types]
  | plain _ _ _ types | copy _ _ _ _ _ _ _ types | refer _ _ _ types | define _ _ _ _ _ _ types =>
    rw [types, List.length_append]
    exact Nat.le_add_right _ _
  | complete _ _ _ _ _ _ _ types => rw [types, List.length_modify]

/-- An operation that does not define the tag leaves its object, or gives the tag an incomplete
one. -/
theorem entry_change (change : Change s s' op)
    (known : ∀ k t, s.entry k = some t → Denotes s k t) (undefined : ¬ op.Defines key) :
    (s'.entry key = s.entry key ∧ ∀ t, s.entry key = some t → s'.types[t]? = s.types[t]?) ∨
      s.entry key = none ∧ ∃ t node, s'.entry key = some t ∧ s'.types[t]? = some node ∧
        node.size = 0 := by
  have grown {new : TypeNode} (types : s'.types = s.types ++ [new]) (t : TypeId)
      (entry : s.entry key = some t) : s'.types[t]? = s.types[t]? := by
    obtain ⟨node, at_t, -⟩ := known key t entry
    rw [types, at_t]
    exact Struct.getElem?_old at_t
  cases change with
  | same _ types entries =>
    refine .inl ⟨entries key, fun t _ => ?_⟩
    rw [types]
  | plain _ _ _ types entries => exact .inl ⟨entries key, grown types⟩
  | copy _ _ _ _ _ _ _ types entries => exact .inl ⟨entries key, grown types⟩
  | refer _ k new types entry entries =>
    by_cases same : key = k
    · rw [same]
      refine .inr ⟨new, _, _, entry, types ▸ Struct.getElem?_new, rfl⟩
    · exact .inl ⟨entries key same, grown types⟩
  | define k _ _ _ defines _ types entry entries =>
    have apart : key ≠ k := by
      rintro rfl
      exact undefined (defines ▸ rfl)
    exact .inl ⟨entries key apart, grown types⟩
  | complete k u _ _ _ defines found types entries =>
    refine .inl ⟨entries key, ?_⟩
    intro t entry
    have apart : u ≠ t := by
      rintro rfl
      obtain ⟨node, at_u, tag_k⟩ := known k u (Struct.entry_of_placeholder found)
      obtain ⟨node', at_u', tag_key⟩ := known key u entry
      cases at_u.symm.trans at_u'
      cases tag_k.symm.trans tag_key
      exact undefined (defines ▸ rfl)
    simp [types, apart]

/-- A definition leaves a complete object, a new one where the tag had a complete one before. -/
theorem entry_define (change : Change s s' op)
    (known : ∀ k t, s.entry k = some t → Denotes s k t) (defines : op.Defines key) :
    ∃ t node, s'.entry key = some t ∧ s'.types[t]? = some node ∧ 0 < node.size ∧
      ∀ t₀ node₀, s.entry key = some t₀ → s.types[t₀]? = some node₀ → 0 < node₀.size →
        s.types.length ≤ t := by
  have sized (size : Nat) : 0 < if size = 0 then 1 else size := by
    split <;> omega
  cases change with
  | same other | plain other | copy other | refer other => exact absurd defines (other key)
  | define k size _ _ op_eq _ types entry entries =>
    rw [op_eq] at defines
    cases defines
    exact ⟨_, _, entry, types ▸ Struct.getElem?_new, sized size, fun _ _ _ _ _ => Nat.le_refl _⟩
  | complete k u size alignment fields op_eq found types entries =>
    rw [op_eq] at defines
    cases defines
    have entry := Struct.entry_of_placeholder found
    obtain ⟨node, at_u, -⟩ := known _ u entry
    refine ⟨u, TypeTables.complete node (if size = 0 then 1 else size) alignment fields,
      (entries _).trans entry, ?_, sized size, ?_⟩
    · rw [types, List.getElem?_modify, at_u]
      simp
    · intro t₀ node₀ entry₀ at_t₀ positive
      cases entry.symm.trans entry₀
      have unsized := (Option.filter_eq_some_iff.mp found).2
      rw [at_t₀] at unsized
      simp only [Option.any_some, decide_eq_true_eq] at unsized
      omega

end Changes

/-- What the entries of the tags are after a run. -/
structure TagsKept (log : List Event) (p : Tables) : Prop where
  known : ∀ key t, p.types.entry key = some t → Denotes p.types key t
  undefined : ∀ key, (∀ place, ¬ DefinedAt log key place) →
    ∀ t node, p.types.entry key = some t → p.types.types[t]? = some node → node.size = 0
  sized : ∀ key place, DefinedAt log key place →
    ∃ t node, p.types.entry key = some t ∧ p.types.types[t]? = some node ∧ 0 < node.size
  made : ∀ key place, DefinedAt log key place → ∃ t, typeAt log key place = some t ∧
    t < p.types.types.length ∧
      (p.types.entry key = some t ↔ ∀ later > place, ¬ DefinedAt log key later)

section Tags

variable {log : List Event} {p p' : Tables} {event : Event}

theorem typeAt_concat {key : TagKey} {place : Nat} (within : place < log.length) :
    typeAt (log ++ [event]) key place = typeAt log key place := by
  rw [typeAt, typeAt, take_concat within]

theorem step_change (ran : p.step log.length event = some p') :
    ∃ op, Change p.types p'.types op ∧ ∀ key, op.Defines key ↔ event.defines key = true := by
  have unchanged (types : p'.types = p.types) (none : ∀ key, event.defines key = false) :
      ∃ op, Change p.types p'.types op ∧ ∀ key, op.Defines key ↔ event.defines key = true := by
    refine ⟨.pointer 0, types ▸ .same (fun _ => id) rfl fun _ => rfl, fun key => ?_⟩
    simp [none, TypeOp.Defines]
  cases event with
  | enter counted | leave counted =>
    cases ran
    apply unchanged _ fun _ => rfl
    cases counted <;> rfl
  | typedefName name kind fullType =>
    rw [registerTypedef_ok ran] at unchanged ⊢
    exact unchanged rfl fun _ => rfl
  | enumeratorName name =>
    rw [Tables.step, Tables.checkEnumerator] at ran
    split at ran
    · cases ran
    · cases ran
      exact unchanged rfl fun _ => rfl
  | enumerator name value | object name =>
    cases ran
    exact unchanged rfl fun _ => rfl
  | declareTag key =>
    cases ran
    refine ⟨.refer key, Struct.change_refer key, fun k => ?_⟩
    simp [Event.defines, TypeOp.Defines]
  | types op =>
    obtain ⟨types, stepped, rfl⟩ := Option.map_eq_some_iff.mp ran
    refine ⟨op, Struct.change_step stepped, fun k => ?_⟩
    cases op <;> simp [Event.defines, TypeOp.Defines]

theorem tagsKept_init : TagsKept [] Tables.parserInit where
  known key t entry := by cases entry
  undefined key _ t node entry := by cases entry
  sized key place defined := absurd defined.inside (Nat.not_lt_zero _)
  made key place defined := absurd defined.inside (Nat.not_lt_zero _)

/-- What the event leaves as it was for a tag that it does not define. -/
theorem TagsKept.others {key : TagKey} {op : TypeOp} (kept : TagsKept log p)
    (change : Change p.types p'.types op)
    (other : event.defines key ≠ true) (undefined : ¬ op.Defines key) :
    ((∀ place, ¬ DefinedAt (log ++ [event]) key place) →
      ∀ t node, p'.types.entry key = some t → p'.types.types[t]? = some node → node.size = 0) ∧
    ∀ place, DefinedAt (log ++ [event]) key place →
      (∃ t node, p'.types.entry key = some t ∧ p'.types.types[t]? = some node ∧ 0 < node.size) ∧
      ∃ t, typeAt (log ++ [event]) key place = some t ∧ t < p'.types.types.length ∧
        (p'.types.entry key = some t ↔
          ∀ later > place, ¬ DefinedAt (log ++ [event]) key later) := by
  have same (place : Nat) :
      DefinedAt (log ++ [event]) key place ↔ DefinedAt log key place := by
    rw [definedAt_concat]
    simp [other]
  simp only [same]
  rcases entry_change change kept.known undefined with
    ⟨entry, object⟩ | ⟨none, t, node, entry, at_t, unsized⟩
  · constructor
    · intro absent t node entry' at_t
      rw [entry] at entry'
      exact kept.undefined key absent t node entry' ((object t entry').symm.trans at_t)
    · intro place defined
      obtain ⟨t, node, entry_t, at_t, positive⟩ := kept.sized key place defined
      obtain ⟨made, type, below, last⟩ := kept.made key place defined
      refine ⟨⟨t, node, entry.trans entry_t, (object t entry_t).trans at_t, positive⟩, made, ?_⟩
      rw [typeAt_concat defined.inside, entry]
      exact ⟨type, below.trans_le (length_change change), last⟩
  · constructor
    · intro _ t' node' entry' at_t'
      cases entry.symm.trans entry'
      cases at_t.symm.trans at_t'
      exact unsized
    · intro place defined
      obtain ⟨t', node', entry', -⟩ := kept.sized key place defined
      cases none.symm.trans entry'

/-- What the event makes of the tag that it defines. -/
theorem TagsKept.defined {key : TagKey} {op : TypeOp} (kept : TagsKept log p)
    (change : Change p.types p'.types op) (ran : run (log ++ [event]) = some p')
    (here : event.defines key = true) (defines : op.Defines key) :
    (∃ t node, p'.types.entry key = some t ∧ p'.types.types[t]? = some node ∧ 0 < node.size) ∧
    ∀ place, DefinedAt (log ++ [event]) key place →
      ∃ t, typeAt (log ++ [event]) key place = some t ∧ t < p'.types.types.length ∧
        (p'.types.entry key = some t ↔
          ∀ later > place, ¬ DefinedAt (log ++ [event]) key later) := by
  obtain ⟨t, node, entry, at_t, positive, above⟩ := entry_define change kept.known defines
  refine ⟨⟨t, node, entry, at_t, positive⟩, ?_⟩
  intro place defined
  have new : DefinedAt (log ++ [event]) key log.length := definedAt_concat.mpr (.inr ⟨rfl, here⟩)
  rcases definedAt_concat.mp defined with old | ⟨rfl, -⟩
  · obtain ⟨made, type, below, last⟩ := kept.made key place old
    rw [typeAt_concat old.inside]
    refine ⟨made, type, below.trans_le (length_change change), ?_⟩
    constructor
    · intro entry'
      cases entry.symm.trans entry'
      obtain ⟨t₀, node₀, entry₀, at_t₀, positive₀⟩ := kept.sized key place old
      exact absurd below (Nat.not_lt_of_le (above t₀ node₀ entry₀ at_t₀ positive₀))
    · intro none
      exact absurd new (none _ old.inside)
  · refine ⟨t, ?_, (List.getElem?_eq_some_iff.mp at_t).1, ?_⟩
    · rw [typeAt, List.take_of_length_le (by simp), ran]
      exact entry
    · refine iff_of_true entry fun later after defined' => ?_
      have within := defined'.inside
      rw [List.length_append, List.length_singleton] at within
      omega

theorem TagsKept.step (kept : TagsKept log p) (ran : run log = some p)
    (stepped : p.step log.length event = some p') : TagsKept (log ++ [event]) p' := by
  have ran' : run (log ++ [event]) = some p' := by
    rw [run_concat, ran]
    exact stepped
  obtain ⟨op, change, same⟩ := step_change stepped
  have known := known_change change kept.known
  have new {key : TagKey} (here : event.defines key = true) :
      DefinedAt (log ++ [event]) key log.length := definedAt_concat.mpr (.inr ⟨rfl, here⟩)
  refine ⟨known, ?_, ?_, ?_⟩
  · intro key absent
    by_cases here : event.defines key = true
    · exact absurd (new here) (absent _)
    · exact (kept.others change here (mt (same key).mp here)).1 absent
  · intro key place defined
    by_cases here : event.defines key = true
    · exact (kept.defined change ran' here ((same key).mpr here)).1
    · exact ((kept.others change here (mt (same key).mp here)).2 place defined).1
  · intro key place defined
    by_cases here : event.defines key = true
    · exact (kept.defined change ran' here ((same key).mpr here)).2 place defined
    · exact ((kept.others change here (mt (same key).mp here)).2 place defined).2

theorem definitionOf_defined {key : TagKey} {place : Nat}
    (found : definitionOf log key = some place) : DefinedAt log key place := by
  have defines := (Option.filter_eq_some_iff.mp found).2
  cases here : log[place]? with
  | none =>
    rw [here] at defines
    cases defines
  | some event =>
    rw [here] at defines
    exact ⟨event, here, defines⟩

theorem denotesAsInC_iff (kept : TagsKept log p) (key : TagKey) :
    DenotesAsInC log p key ↔ TagFollowed log key := by
  unfold DenotesAsInC TagFollowed
  cases found : definitionOf log key with
  | some place =>
    obtain ⟨t, made, -, last⟩ := kept.made key place (definitionOf_defined found)
    simp only [made]
    exact last
  | none =>
    simp only
    constructor
    · intro unsized place defined
      obtain ⟨t, node, entry, at_t, positive⟩ := kept.sized key place defined
      exact absurd (unsized t node entry at_t) (Nat.ne_of_gt positive)
    · exact kept.undefined key

end Tags

/-! ### Every run -/

theorem kept_of_run {log : List Event} {p : Tables} (ran : run log = some p) :
    TypedefsKept log p ∧ EnumConstsKept log p ∧ TagsKept log p := by
  induction log using List.reverseRecOn generalizing p with
  | nil =>
    cases ran
    exact ⟨typedefsKept_init, enumConstsKept_init, tagsKept_init⟩
  | append_singleton log event ih =>
    rw [run_concat] at ran
    obtain ⟨before, ran_before, stepped⟩ := Option.bind_eq_some_iff.mp ran
    obtain ⟨typedefs, consts, tags⟩ := ih ran_before
    exact ⟨typedefs.step stepped, consts.step stepped, tags.step ran_before stepped⟩

/-- `typedef int T; void f(void) { typedef char T; }` -/
def innerTypedef : List Event :=
  [.typedefName ['T'] .int none, .enter false, .leave false, .enter false, .enter true,
    .typedefName ['T'] .char none, .leave true, .leave false]

/-- `enum { A = 3 }; int f(void) { int A = 5; return A; }` up to the last `A`. -/
def hiddenEnumerator : List Event :=
  [.enumeratorName ['A'], .enumerator ['A'] 3, .enter false, .leave false, .enter false,
    .enter true, .object ['A']]

/-- `struct S { int x; }; void f(void) { struct S { char c[16]; } s; }` -/
def innerStruct : List Event :=
  [.types (.openBody Struct.keyS), .types (.define Struct.keyS 4 4 [Struct.memberX]),
    .enter false, .leave false, .enter false, .enter true, .types (.openBody Struct.keyS),
    .types (.define Struct.keyS 16 1 []), .object ['s'], .leave true, .leave false]

end ClaudeC99.Names
