import ClaudeC99.Struct.Tags

/-! Completing a tag completes the one object that denotes it, so every reference to the tag is
complete exactly when no qualified copy of that object is made. -/

namespace ClaudeC99.Struct

open Tables TypeTables

/-- The type is the tag's object or a qualified copy of it. -/
def Denotes (s : TypeTables) (key : TagKey) (t : TypeId) : Prop :=
  ∃ node, s.types[t]? = some node ∧ node.key = some key

/-- The code compares struct types as objects when it checks an assignment. -/
def sameStruct (t t' : TypeId) : Prop := t = t'

/-- All types that denote the tag have the layout, and they are one type to the checks. -/
structure Completed (s : TypeTables) (key : TagKey) (size alignment : Nat)
    (fields : List NodeField) : Prop where
  layout : ∀ (t : TypeId) (node : TypeNode), s.types[t]? = some node → node.key = some key →
    node.size = size ∧ node.alignment = alignment ∧ node.fields = fields
  same : ∀ t t', Denotes s key t → Denotes s key t' → sameStruct t t'

/-- The operation makes a qualified copy of a type that denotes the tag. -/
def TypeOp.Copies (key : TagKey) (s : TypeTables) : TypeOp → Prop
  | constCopy t => Denotes s key t
  | volatileCopy t => Denotes s key t
  | _ => False

/-- No operation of the run makes a qualified copy of a type that denotes the tag. -/
def NeverCopied (key : TagKey) : TypeTables → List TypeOp → Prop
  | _, [] => True
  | s, op :: ops => ¬ op.Copies key s ∧ ∀ s', step s op = some s' → NeverCopied key s' ops

def TypeOp.Defines (key : TagKey) : TypeOp → Prop
  | define key' _ _ _ => key' = key
  | _ => False

section Entries

variable {s : TypeTables} {key k : TagKey} {t : TypeId}

theorem entry_register : (s.register key).entry k = s.entry k := by
  unfold register
  split
  · rfl
  next new =>
    simp only [entry, List.find?_append]
    cases found : s.tags.find? (·.1 = k) with
    | some e => rfl
    | none => by_cases same : key = k <;> simp [same]

theorem isRegistered_register : (s.register key).isRegistered key = true := by
  unfold register
  split
  next old => exact old
  · simp [isRegistered]

theorem entry_setEntry (registered : s.isRegistered key = true) :
    (s.setEntry key t).entry key = some t := by
  obtain ⟨e, found⟩ : ∃ e, s.tags.find? (·.1 = key) = some e := by
    rw [← Option.isSome_iff_exists, List.find?_isSome]
    simpa [isRegistered] using registered
  rw [entry, setEntry, find?_updateFirst (fun _ _ => by simp), found]
  rfl

theorem entry_setEntry_of_ne (other : k ≠ key) : (s.setEntry key t).entry k = s.entry k := by
  rw [entry, setEntry, find?_updateFirst_of_not]
  · rfl
  · intro e same
    simp only [decide_eq_true_eq] at same
    simp [same, other.symm]

theorem types_register : (s.register key).types = s.types := by
  unfold register
  split <;> rfl

end Entries

/-- What one operation can do to the tables. -/
inductive Change (s s' : TypeTables) (op : TypeOp) : Prop
  | same (other : ∀ k, ¬ op.Defines k) (types : s'.types = s.types) (entries : ∀ k, s'.entry k = s.entry k)
  | plain (other : ∀ k, ¬ op.Defines k) (node : TypeNode) (key : node.key = none)
    (types : s'.types = s.types ++ [node]) (entries : ∀ k, s'.entry k = s.entry k)
  | copy (other : ∀ k, ¬ op.Defines k) (t : TypeId) (node new : TypeNode)
    (at_t : s.types[t]? = some node) (key : new.key = node.key) (copies : ∀ k, Denotes s k t → op.Copies k s)
    (types : s'.types = s.types ++ [new]) (entries : ∀ k, s'.entry k = s.entry k)
  | refer (other : ∀ k, ¬ op.Defines k) (k : TagKey) (new : s.entry k = none)
    (types : s'.types = s.types ++ [incomplete k]) (entry : s'.entry k = some s.types.length)
    (entries : ∀ k', k' ≠ k → s'.entry k' = s.entry k')
  | define (k : TagKey) (size alignment : Nat) (fields : List NodeField)
    (defines : op = .define k size alignment fields) (new : s.placeholder k = none)
    (types : s'.types = s.types ++
      [complete (incomplete k) (if size = 0 then 1 else size) alignment fields])
    (entry : s'.entry k = some s.types.length)
    (entries : ∀ k', k' ≠ k → s'.entry k' = s.entry k')
  | complete (k : TagKey) (t : TypeId) (size alignment : Nat) (fields : List NodeField)
    (defines : op = .define k size alignment fields) (found : s.placeholder k = some t)
    (types : s'.types = s.types.modify t fun node =>
      complete node (if size = 0 then 1 else size) alignment fields)
    (entries : ∀ k, s'.entry k = s.entry k)

section Steps

variable {s s' : TypeTables}

theorem change_refer (key : TagKey) : Change s (s.refer key) (.refer key) := by
  unfold TypeTables.refer
  simp only
  split
  · exact .same (fun _ => id) types_register fun _ => entry_register
  next new =>
    rw [entry_register] at new
    have registered : ((s.register key).alloc (incomplete key)).isRegistered key = true :=
      isRegistered_register (s := s)
    refine .refer (fun _ => id) key new ?_ ?_ ?_
    · simp [setEntry, alloc, types_register]
    · rw [entry_setEntry registered, types_register]
    · intro k other
      exact (entry_setEntry_of_ne other).trans entry_register

theorem change_define {key : TagKey} (registered : s.isRegistered key = true)
    (size alignment : Nat) (fields : List NodeField) :
    Change s (s.define key size alignment fields) (.define key size alignment fields) := by
  cases found : s.placeholder key with
  | some t =>
    simp only [TypeTables.define, found]
    exact .complete key t size alignment fields rfl found rfl fun _ => rfl
  | none =>
    simp only [TypeTables.define, found]
    refine .define key size alignment fields rfl found rfl ?_ ?_
    · exact entry_setEntry (s := s.alloc _) registered
    · intro k other
      exact entry_setEntry_of_ne other

theorem change_step {op : TypeOp} (ran : step s op = some s') : Change s s' op := by
  cases op with
  | refer key =>
    cases ran
    exact change_refer key
  | openBody key =>
    cases ran
    exact .same (fun _ => id) types_register fun _ => entry_register
  | define key size alignment fields =>
    rw [step, Option.ite_none_right_eq_some] at ran
    obtain ⟨registered, ran⟩ := ran
    cases ran
    exact change_define registered size alignment fields
  | anonymous isUnion size alignment fields =>
    cases ran
    exact .plain (fun _ => id) _ rfl rfl fun _ => rfl
  | pointer base | array element length | function returnType params =>
    obtain ⟨node, -, rfl⟩ := Option.map_eq_some_iff.mp ran
    exact .plain (fun _ => id) _ rfl rfl fun _ => rfl
  | constCopy t =>
    obtain ⟨node, at_t, rfl⟩ := Option.map_eq_some_iff.mp ran
    exact .copy (fun _ => id) t node (typeConstCopy node) at_t rfl (fun _ denotes => denotes) rfl
      fun _ => rfl
  | volatileCopy t =>
    obtain ⟨node, at_t, rfl⟩ := Option.map_eq_some_iff.mp ran
    exact .copy (fun _ => id) t node (typeVolatileCopy node) at_t rfl (fun _ denotes => denotes)
      rfl fun _ => rfl

end Steps

section Objects

variable {types : List TypeNode} {t u : Nat} {node new : TypeNode}

theorem getElem?_old (at_t : types[t]? = some node) : (types ++ [new])[t]? = some node := by
  rw [List.getElem?_append_left (List.getElem?_eq_some_iff.mp at_t).1]
  exact at_t

theorem getElem?_new : (types ++ [new])[types.length]? = some new := by
  simp

theorem getElem?_cases (at_t : (types ++ [new])[t]? = some node) :
    types[t]? = some node ∨ t = types.length ∧ node = new := by
  rw [List.getElem?_append] at at_t
  split at at_t
  · exact .inl at_t
  next past =>
    rw [List.getElem?_singleton, Option.ite_none_right_eq_some] at at_t
    exact .inr ⟨by omega, (Option.some.inj at_t.2).symm⟩

theorem getElem?_modified {f : TypeNode → TypeNode}
    (at_t : (types.modify u f)[t]? = some node) :
    ∃ old, types[t]? = some old ∧ node = if u = t then f old else old := by
  rw [List.getElem?_modify] at at_t
  obtain ⟨old, at_old, same⟩ := Option.map_eq_some_iff.mp at_t
  exact ⟨old, at_old, same.symm⟩

end Objects

section Growth

variable {s s' : TypeTables} {key : TagKey} {t : TypeId}

/-- Objects are never taken away, and each keeps its tag. -/
theorem Change.denotes {op : TypeOp} (change : Change s s' op) (denotes : Denotes s key t) :
    Denotes s' key t := by
  obtain ⟨node, at_t, tagged⟩ := denotes
  cases change with
  | same _ types => exact ⟨node, types ▸ at_t, tagged⟩
  | plain _ _ _ types | copy _ _ _ _ _ _ _ types | refer _ _ _ types
  | define _ _ _ _ _ _ types =>
    exact ⟨node, types ▸ getElem?_old at_t, tagged⟩
  | complete k u size alignment fields _ _ types =>
    refine ⟨if u = t then TypeTables.complete node (if size = 0 then 1 else size) alignment fields else node,
      ?_, ?_⟩
    · rw [types, List.getElem?_modify, at_t]
      rfl
    · split <;> exact tagged

theorem denotes_run {ops : List TypeOp} (ran : runOps s ops = some s')
    (denotes : Denotes s key t) : Denotes s' key t := by
  induction ops generalizing s with
  | nil =>
    cases ran
    exact denotes
  | cons op ops ih =>
    obtain ⟨next, first, rest⟩ := Option.bind_eq_some_iff.mp ran
    exact ih rest ((change_step first).denotes denotes)

end Growth

/-- Every tag's entry is an object of the tag, and the objects of one tag `key` are its entry and
are as `P` demands. -/
structure Kept (key : TagKey) (P : TypeNode → Prop) (s : TypeTables) : Prop where
  known : ∀ k t, s.entry k = some t → Denotes s k t
  only : ∀ (t : TypeId) (node : TypeNode), s.types[t]? = some node → node.key = some key →
    s.entry key = some t ∧ P node

section Invariant

variable {s s' : TypeTables} {key k : TagKey} {P : TypeNode → Prop} {op : TypeOp}

/-- The entries after a new object of the tag `k`. -/
theorem known_new {new : TypeNode} (known : ∀ k t, s.entry k = some t → Denotes s k t)
    (denotes : ∀ k t, Denotes s k t → Denotes s' k t) (tagged : new.key = some k) (types : s'.types = s.types ++ [new])
    (entry : s'.entry k = some s.types.length)
    (entries : ∀ k', k' ≠ k → s'.entry k' = s.entry k') :
    ∀ k' t, s'.entry k' = some t → Denotes s' k' t := by
  intro k' t entry'
  by_cases same : k' = k
  · rw [same] at entry' ⊢
    cases entry.symm.trans entry'
    exact ⟨new, types ▸ getElem?_new, tagged⟩
  · exact denotes k' t (known k' t ((entries k' same).symm.trans entry'))

theorem entry_of_placeholder {t : TypeId} (found : s.placeholder key = some t) :
    s.entry key = some t :=
  (Option.filter_eq_some_iff.mp found).1

/-- A step that neither defines the tag nor copies one of its objects. -/
theorem Kept.step (kept : Kept key P s) (change : Change s s' op) (undefined : ¬ op.Defines key)
    (uncopied : ¬ op.Copies key s) (starts : s.entry key = none → P (incomplete key)) :
    Kept key P s' ∧ (s'.entry key = none → P (incomplete key)) := by
  have denotes : ∀ k t, Denotes s k t → Denotes s' k t := fun _ _ => change.denotes
  have known_of (entries : ∀ k, s'.entry k = s.entry k) :
      ∀ k t, s'.entry k = some t → Denotes s' k t :=
    fun k t entry => denotes k t (kept.known k t (entries k ▸ entry))
  cases change with
  | same _ types entries =>
    refine ⟨⟨known_of entries, ?_⟩, entries key ▸ starts⟩
    rw [types, entries]
    exact kept.only
  | plain _ new plainKey types entries =>
    refine ⟨⟨known_of entries, fun t node at_t tagged => ?_⟩, entries key ▸ starts⟩
    rw [types] at at_t
    rw [entries]
    rcases getElem?_cases at_t with old | ⟨-, rfl⟩
    · exact kept.only t node old tagged
    · cases plainKey.symm.trans tagged
  | copy _ u original new at_u sameKey copies types entries =>
    refine ⟨⟨known_of entries, fun t node at_t tagged => ?_⟩, entries key ▸ starts⟩
    rw [types] at at_t
    rw [entries]
    rcases getElem?_cases at_t with old | ⟨-, rfl⟩
    · exact kept.only t node old tagged
    · exact absurd (copies key ⟨original, at_u, sameKey ▸ tagged⟩) uncopied
  | refer _ k new types entry entries =>
    refine ⟨⟨known_new kept.known denotes rfl types entry entries, fun t node at_t tagged => ?_⟩, ?_⟩
    · rw [types] at at_t
      rcases getElem?_cases at_t with old | ⟨rfl, rfl⟩
      · obtain ⟨old_entry, holds⟩ := kept.only t node old tagged
        have other : key ≠ k := by
          rintro rfl
          cases new.symm.trans old_entry
        exact ⟨(entries key other).trans old_entry, holds⟩
      · cases Option.some.inj tagged
        exact ⟨entry, starts new⟩
    · intro none
      by_cases same : key = k
      · cases entry.symm.trans (same ▸ none)
      · exact starts ((entries key same).symm.trans none)
  | define k size alignment fields defines new types entry entries =>
    have other : key ≠ k := by
      rintro rfl
      exact undefined (defines ▸ rfl)
    refine ⟨⟨known_new kept.known denotes rfl types entry entries, fun t node at_t tagged => ?_⟩, ?_⟩
    · rw [types] at at_t
      rw [entries key other]
      rcases getElem?_cases at_t with old | ⟨-, rfl⟩
      · exact kept.only t node old tagged
      · exact absurd (Option.some.inj tagged).symm other
    · exact fun none => starts ((entries key other).symm.trans none)
  | complete k u size alignment fields defines found types entries =>
    have other : key ≠ k := by
      rintro rfl
      exact undefined (defines ▸ rfl)
    refine ⟨⟨known_of entries, fun t node at_t tagged => ?_⟩, entries key ▸ starts⟩
    rw [types] at at_t
    rw [entries]
    obtain ⟨old, at_old, rfl⟩ := getElem?_modified at_t
    split at tagged
    next here =>
      obtain ⟨node, at_u, tag_k⟩ := kept.known k u (entry_of_placeholder found)
      cases at_u.symm.trans (here ▸ at_old)
      exact absurd (Option.some.inj (tagged.symm.trans tag_k)) other
    next elsewhere =>
      rw [if_neg elsewhere]
      exact kept.only t old at_old tagged

/-- The step that defines the tag. -/
theorem Kept.define {size alignment : Nat} {fields : List NodeField}
    (kept : Kept key (fun node => node.size = 0 ∧ node.fields = []) s)
    (change : Change s s' (.define key size alignment fields)) :
    Kept key (fun node => node.size = (if size = 0 then 1 else size) ∧
      node.alignment = alignment ∧ node.fields = fields) s' ∧ s'.entry key ≠ none := by
  have denotes : ∀ k t, Denotes s k t → Denotes s' k t := fun _ _ => change.denotes
  have laid (node : TypeNode) (empty : node.fields = []) :
      (complete node (if size = 0 then 1 else size) alignment fields).fields = fields := by
    cases fields with
    | nil => exact empty
    | cons => rfl
  cases change with
  | same other | plain other | copy other | refer other => exact absurd rfl (other key)
  | define k size alignment fields defines new types entry entries =>
    cases defines
    refine ⟨⟨known_new kept.known denotes rfl types entry entries, fun t node at_t tagged => ?_⟩,
      by simp [entry]⟩
    rw [types] at at_t
    rcases getElem?_cases at_t with old | ⟨rfl, rfl⟩
    · obtain ⟨old_entry, unsized, -⟩ := kept.only t node old tagged
      have found : s.placeholder key = some t := by
        simp [placeholder, old_entry, old, unsized]
      cases new.symm.trans found
    · exact ⟨entry, rfl, rfl, laid _ rfl⟩
  | complete k u size alignment fields defines found types entries =>
    cases defines
    refine ⟨⟨fun k t entry => denotes k t (kept.known k t (entries k ▸ entry)),
      fun t node at_t tagged => ?_⟩, by simp [entries, entry_of_placeholder found]⟩
    rw [types] at at_t
    obtain ⟨old, at_old, rfl⟩ := getElem?_modified at_t
    have old_tagged : old.key = some key := by
      split at tagged <;> exact tagged
    obtain ⟨old_entry, -, empty⟩ := kept.only t old at_old old_tagged
    have same : u = t := Option.some.inj ((entry_of_placeholder found).symm.trans old_entry)
    rw [if_pos same, entries]
    exact ⟨old_entry, rfl, rfl, laid old empty⟩

/-- A run that neither defines the tag nor copies one of its objects. -/
theorem Kept.run {ops : List TypeOp} (kept : Kept key P s) (ran : runOps s ops = some s')
    (undefined : ∀ op ∈ ops, ¬ op.Defines key) (uncopied : NeverCopied key s ops)
    (starts : s.entry key = none → P (incomplete key)) :
    Kept key P s' := by
  induction ops generalizing s with
  | nil =>
    cases ran
    exact kept
  | cons op ops ih =>
    obtain ⟨next, first, rest⟩ := Option.bind_eq_some_iff.mp ran
    obtain ⟨uncopied, later⟩ := uncopied
    obtain ⟨kept, starts⟩ :=
      kept.step (change_step first) (undefined op List.mem_cons_self) uncopied starts
    exact ih kept rest (fun op member => undefined op (List.mem_cons_of_mem _ member))
      (later next first) starts

theorem NeverCopied.split {before after : List TypeOp} (uncopied : NeverCopied key s (before ++ after))
    (ran : runOps s before = some s') : NeverCopied key s before ∧ NeverCopied key s' after := by
  induction before generalizing s with
  | nil =>
    cases ran
    exact ⟨trivial, uncopied⟩
  | cons op ops ih =>
    obtain ⟨next, first, rest⟩ := Option.bind_eq_some_iff.mp ran
    obtain ⟨later, last⟩ := ih (uncopied.2 next first) rest
    refine ⟨⟨uncopied.1, fun s₁ other => ?_⟩, last⟩
    cases first.symm.trans other
    exact later

end Invariant

/-- A copy is a second object of its tag. -/
theorem two_objects {s s' : TypeTables} {key : TagKey} {op : TypeOp} (copies : op.Copies key s)
    (ran : step s op = some s') : ∃ t t', t ≠ t' ∧ Denotes s' key t ∧ Denotes s' key t' := by
  have second {t : TypeId} {node new : TypeNode} (at_t : s.types[t]? = some node)
      (tagged : new.key = some key) (denotes : Denotes s' key t)
      (types : s'.types = s.types ++ [new]) :
      ∃ t t', t ≠ t' ∧ Denotes s' key t ∧ Denotes s' key t' := by
    refine ⟨t, s.types.length, ?_, denotes, new, types ▸ getElem?_new, tagged⟩
    exact Nat.ne_of_lt (List.getElem?_eq_some_iff.mp at_t).1
  cases op with
  | constCopy t | volatileCopy t =>
    have denotes := (change_step ran).denotes copies
    obtain ⟨node, at_t, tagged⟩ := copies
    obtain ⟨original, at_t', rfl⟩ := Option.map_eq_some_iff.mp ran
    cases at_t.symm.trans at_t'
    refine second at_t ?_ denotes rfl
    exact tagged
  | _ => exact copies.elim

/-- A copy made in a run is a second object in the end. -/
theorem neverCopied_of_same {s s' : TypeTables} {key : TagKey} {ops : List TypeOp}
    (ran : runOps s ops = some s')
    (same : ∀ t t', Denotes s' key t → Denotes s' key t' → t = t') : NeverCopied key s ops := by
  induction ops generalizing s with
  | nil => trivial
  | cons op ops ih =>
    obtain ⟨next, first, rest⟩ := Option.bind_eq_some_iff.mp ran
    refine ⟨fun copies => ?_, fun s₁ other => ?_⟩
    · obtain ⟨t, t', apart, denotes, denotes'⟩ := two_objects copies first
      exact apart (same t t' (denotes_run rest denotes) (denotes_run rest denotes'))
    · cases first.symm.trans other
      exact ih rest

theorem kept_parserTables (key : TagKey) :
    Kept key (fun node => node.size = 0 ∧ node.fields = []) parserTables where
  known k t entry := by cases entry
  only t node at_t tagged := by
    have plain : ∀ node ∈ parserTables.types, node.key = none := by decide
    cases (plain node (List.mem_of_getElem? at_t)).symm.trans tagged

/-- In every run that defines the tag once, all references to it are complete and one type in the
end exactly when no operation made a qualified copy of a type that denotes it. -/
theorem completed_iff {s : TypeTables} {before after : List TypeOp} {key : TagKey}
    {size alignment : Nat} {fields : List NodeField}
    (ran : runOps parserTables (before ++ .define key size alignment fields :: after) = some s)
    (once : ∀ op ∈ before ++ after, ¬ op.Defines key) :
    Completed s key (if size = 0 then 1 else size) alignment fields ↔
      NeverCopied key parserTables (before ++ .define key size alignment fields :: after) := by
  constructor
  · intro completed
    exact neverCopied_of_same ran completed.same
  · intro uncopied
    rw [runOps, List.foldlM_append] at ran
    obtain ⟨first, ran_before, ran⟩ := Option.bind_eq_some_iff.mp ran
    obtain ⟨second, ran_define, ran_after⟩ := Option.bind_eq_some_iff.mp ran
    obtain ⟨uncopied_before, -, uncopied_after⟩ := uncopied.split ran_before
    have undefined {ops : List TypeOp} (part : ops ⊆ before ++ after) :
        ∀ op ∈ ops, ¬ op.Defines key := fun op member => once op (part member)
    have unsized := (kept_parserTables key).run ran_before (undefined (by simp)) uncopied_before
      fun _ => ⟨rfl, rfl⟩
    obtain ⟨laid, entered⟩ := unsized.define (change_step ran_define)
    have kept := laid.run ran_after (undefined (by simp)) (uncopied_after second ran_define)
      fun none => absurd none entered
    constructor
    · exact fun t node at_t tagged => (kept.only t node at_t tagged).2
    · rintro t t' ⟨node, at_t, tagged⟩ ⟨node', at_t', tagged'⟩
      have entry := (kept.only t node at_t tagged).1
      have entry' := (kept.only t' node' at_t' tagged').1
      exact Option.some.inj (entry.symm.trans entry')

def keyS : TagKey := ⟨false, "S"⟩

def memberX : NodeField := ⟨"x", 0, .int, none, false, false, false, 0, 0, false⟩

/-- `struct S; struct S *p; struct S { int x; };` -/
theorem pointer_completed : ∃ s,
    runOps parserTables [.refer keyS, .pointer 14, .openBody keyS, .define keyS 4 4 [memberX]] =
      some s ∧ Completed s keyS 4 4 [memberX] := by
  have ran : runOps parserTables ([.refer keyS, .pointer 14, .openBody keyS] ++
      .define keyS 4 4 [memberX] :: []) = some _ := rfl
  refine ⟨_, ran, (completed_iff ran ?_).mpr ?_⟩
  · simp [TypeOp.Defines]
  · simp [NeverCopied, TypeOp.Copies]

/-- `struct S; const struct S *p; struct S { int x; };` leaves `*p` without size and members. -/
theorem const_copy_stays_incomplete : ∃ s,
    runOps parserTables [.refer keyS, .constCopy 14, .pointer 15, .openBody keyS,
      .define keyS 4 4 [memberX]] = some s ∧
    (s.types[15]?).map (fun node => (node.key, node.size, node.fields)) =
      some (some keyS, 0, []) ∧
    ¬ Completed s keyS 4 4 [memberX] := by
  refine ⟨_, rfl, rfl, fun completed => ?_⟩
  have size : 0 = 4 := (completed.layout 15 _ rfl rfl).1
  cases size

end ClaudeC99.Struct
