import Mathlib.Data.List.Nodup
import Mathlib.Data.List.Infix

/-! Declarations and mentions of names as a sequence of tokens between the ends of scopes, and what
the names mean when some of the tokens are taken out of the sequence. -/

namespace Scopes

inductive Token (ν : Type)
  | enter
  | leave
  | declare (name : ν)
  | mention (names : List ν)
  deriving DecidableEq, Repr

/-- A declaration, known by its place in the sequence. -/
structure Declared (ν : Type) where
  name : ν
  id : Nat

/-- The open scopes, the innermost first, each with its declarations, the latest first. -/
abbrev Env (ν : Type) := List (List (Declared ν))

structure Point (ν : Type) where
  id : Nat
  token : Token ν
  env : Env ν

/-- A token with what is left of it. -/
abbrev Marked (ν : Type) := Token ν × Option (Token ν)

variable {ν : Type}

namespace Env

def after (env : Env ν) (id : Nat) : Token ν → Env ν
  | .enter => [] :: env
  | .leave => env.tail
  | .declare name => env.modifyHead (⟨name, id⟩ :: ·)
  | .mention _ => env

variable [DecidableEq ν]

def visible (env : Env ν) (name : ν) : List Nat :=
  (env.flatten.filter fun d => d.name = name).map Declared.id

/-- The declarations of a name in the innermost scope, with which another one clashes. -/
def current (env : Env ν) (name : ν) : List Nat :=
  ((env.headD []).filter fun d => d.name = name).map Declared.id

def referent (env : Env ν) (name : ν) : Option Nat := (env.visible name).head?

end Env

def points (env : Env ν) : List (Token ν × Nat) → List (Point ν)
  | [] => []
  | (token, id) :: rest => ⟨id, token, env⟩ :: points (env.after id token) rest

def original (next : Nat) : List (Marked ν) → List (Token ν × Nat)
  | [] => []
  | (token, _) :: rest => (token, next) :: original (next + 1) rest

/-- What is left of a sequence; a token keeps the number it had. -/
def remaining (next : Nat) : List (Marked ν) → List (Token ν × Nat)
  | [] => []
  | (_, none) :: rest => remaining (next + 1) rest
  | (_, some token) :: rest => (token, next) :: remaining (next + 1) rest

section preserving

variable [DecidableEq ν]

/-- What a declaration or a mention says at one point is what it says at another. -/
def Point.SameNames (p q : Point ν) : Prop :=
  match p.token with
  | .declare name =>
    (∀ id, id ∈ p.env.visible name ↔ id ∈ q.env.visible name) ∧
      ∀ id, id ∈ p.env.current name ↔ id ∈ q.env.current name
  | .mention names => ∀ name ∈ names, p.env.referent name = q.env.referent name
  | .enter | .leave => True

/-- Each declaration left sees the declarations of its name that it saw before, in its own scope and
around it, and each name still mentioned refers to the declaration it referred to. -/
def Preserved (marks : List (Marked ν)) : Prop :=
  ∀ p ∈ points [[]] (remaining 0 marks), ∀ q ∈ points [[]] (original 0 marks),
    p.id = q.id → p.SameNames q

end preserving

/-! ### The fate of each declaration -/

inductive Fate
  | kept
  | removed
  | moved
  deriving DecidableEq, Repr

structure Fated (ν : Type) extends Declared ν where
  fate : Fate

/-- A scope of the sequence. One that is dissolved has lost its ends: what is left of it belongs to
the scope around it. -/
structure FatedScope (ν : Type) where
  dissolved : Bool
  decls : List (Fated ν)

namespace FatedScope

def declare (d : Fated ν) (s : FatedScope ν) : FatedScope ν := { s with decls := d :: s.decls }

def before (s : FatedScope ν) : List (Declared ν) :=
  (s.decls.filter fun d => d.fate ≠ .moved).map Fated.toDeclared

def left (s : FatedScope ν) : List (Declared ν) :=
  (s.decls.filter fun d => d.fate ≠ .removed).map Fated.toDeclared

def movedOut (s : FatedScope ν) : List (Fated ν) :=
  (s.decls.filter fun d => d.fate ≠ .removed).map fun d => { d with fate := .moved }

def receive (moved : List (Fated ν)) (s : FatedScope ν) : FatedScope ν :=
  { s with decls := moved ++ s.decls }

end FatedScope

abbrev FatedEnv (ν : Type) := List (FatedScope ν)

namespace FatedEnv

def dissolve : FatedEnv ν → FatedEnv ν
  | [] => []
  | s :: outer => outer.modifyHead (FatedScope.receive s.movedOut)

def after (env : FatedEnv ν) (id : Nat) : Marked ν → FatedEnv ν
  | (.enter, left) => ⟨left.isNone, []⟩ :: env
  | (.leave, some _) => env.tail
  | (.leave, none) => env.dissolve
  | (.declare name, left) =>
    env.modifyHead (FatedScope.declare ⟨⟨name, id⟩, if left.isSome then .kept else .removed⟩)
  | (.mention _, _) => env

def before (env : FatedEnv ν) : Env ν := env.map FatedScope.before

/-- The scopes that are left. -/
def left : FatedEnv ν → Env ν
  | [] => []
  | s :: outer =>
    if s.dissolved then (left outer).modifyHead (s.left ++ ·) else s.left :: left outer

/-- The declarations of the scopes that have become one with the innermost. -/
def joined : FatedEnv ν → List (Fated ν)
  | [] => []
  | s :: outer => s.decls ++ if s.dissolved then joined outer else []

/-- Those of them that are not in the innermost scope itself. -/
def around : FatedEnv ν → List (Fated ν)
  | [] => []
  | s :: outer => if s.dissolved then joined outer else []

def decls (env : FatedEnv ν) : List (Fated ν) := env.flatMap FatedScope.decls

def ids (env : FatedEnv ν) : List Nat := env.decls.map fun d => d.id

variable [DecidableEq ν]

/-- The declarations of a name that are visible in one of the two sequences, the innermost first. -/
def named (env : FatedEnv ν) (name : ν) : List (Fated ν) := env.decls.filter fun d => d.name = name

end FatedEnv

structure FatedPoint (ν : Type) where
  id : Nat
  mark : Marked ν
  env : FatedEnv ν

def fatedPoints (env : FatedEnv ν) (next : Nat) : List (Marked ν) → List (FatedPoint ν)
  | [] => []
  | mark :: rest => ⟨next, mark, env⟩ :: fatedPoints (env.after next mark) (next + 1) rest

/-- A declaration that is left meets only declarations that stay where they are, and none of its
name in a scope that becomes its own; a name still mentioned has an innermost declaration that
stays. -/
def FatedPoint.Undisturbed [DecidableEq ν] (p : FatedPoint ν) : Prop :=
  match p.mark.2 with
  | some (.declare name) =>
    (∀ d ∈ p.env.named name, d.fate = .kept) ∧ ∀ d ∈ p.env.around, d.name ≠ name
  | some (.mention names) =>
    ∀ name ∈ names, ∀ d ∈ (p.env.named name).head?, d.fate = .kept
  | some .enter | some .leave | none => True

/-- Scopes end in order, and lose both ends or none. A flag tells for each open scope whether it
loses its ends. -/
inductive Matched : List Bool → List (Marked ν) → Prop
  | nil {flags} : Matched flags []
  | enter {flags rest} : Matched (false :: flags) rest →
      Matched flags ((.enter, some .enter) :: rest)
  | enterDissolved {flags rest} : Matched (true :: flags) rest →
      Matched flags ((.enter, none) :: rest)
  | leave {flag flags rest} : Matched (flag :: flags) rest →
      Matched (false :: flag :: flags) ((.leave, some .leave) :: rest)
  | leaveDissolved {flag flags rest} : Matched (flag :: flags) rest →
      Matched (true :: flag :: flags) ((.leave, none) :: rest)
  | declare {flags name rest} : Matched flags rest →
      Matched flags ((.declare name, some (.declare name)) :: rest)
  | declareRemoved {flags name rest} : Matched flags rest →
      Matched flags ((.declare name, none) :: rest)
  | mention {flags names names' rest} : Matched flags rest →
      Matched flags ((.mention names, some (.mention names')) :: rest)
  | mentionRemoved {flags names rest} : Matched flags rest →
      Matched flags ((.mention names, none) :: rest)

/-! ### One walk stands for both -/

namespace FatedEnv

@[simp] theorem before_movedOut (s : FatedScope ν) :
    s.movedOut.filter (fun d => d.fate ≠ .moved) = [] := by
  rw [List.filter_eq_nil_iff]
  intro d mem
  obtain ⟨d', -, rfl⟩ := List.mem_map.mp mem
  simp

theorem before_after (env : FatedEnv ν) (id : Nat) (mark : Marked ν) :
    (env.after id mark).before = env.before.after id mark.1 := by
  obtain ⟨token, left⟩ := mark
  cases token with
  | enter => rfl
  | leave =>
    cases left with
    | some _ => simp [after, before, Env.after]
    | none =>
      cases env with
      | nil => rfl
      | cons s outer =>
        cases outer with
        | nil => rfl
        | cons t outer =>
          simp only [after, dissolve, before, Env.after, List.modifyHead_cons, List.map_cons,
            List.tail_cons, FatedScope.before, FatedScope.receive, List.filter_append,
            before_movedOut, List.nil_append]
  | declare name =>
    cases env with
    | nil => rfl
    | cons s outer =>
      cases left <;>
        simp [after, before, Env.after, FatedScope.before, FatedScope.declare]
  | mention names => rfl

@[simp] theorem left_movedOut (s : FatedScope ν) :
    (s.movedOut.filter fun d => d.fate ≠ .removed).map Fated.toDeclared = s.left := by
  have all : s.movedOut.filter (fun d => d.fate ≠ .removed) = s.movedOut := by
    rw [List.filter_eq_self]
    intro d mem
    obtain ⟨d', -, rfl⟩ := List.mem_map.mp mem
    simp
  rw [all, FatedScope.movedOut, FatedScope.left, List.map_map]
  rfl

theorem left_receive (s t : FatedScope ν) :
    (FatedScope.receive s.movedOut t).left = s.left ++ t.left := by
  simp only [FatedScope.left, FatedScope.receive, List.filter_append, List.map_append]
  rw [left_movedOut, FatedScope.left]

/-- What a dissolved scope leaves to the one around it was already there. -/
theorem left_dissolve (s t : FatedScope ν) (outer : FatedEnv ν) (gone : s.dissolved = true) :
    (dissolve (s :: t :: outer)).left = FatedEnv.left (s :: t :: outer) := by
  simp only [dissolve, List.modifyHead_cons, left, gone, left_receive, if_true]
  simp only [FatedScope.receive]
  by_cases also : t.dissolved = true
  · cases left outer <;> simp [also]
  · simp [also]

theorem left_declare (s : FatedScope ν) (outer : FatedEnv ν) (d : Fated ν) :
    FatedEnv.left (s.declare d :: outer) =
      if d.fate = .removed then FatedEnv.left (s :: outer)
      else (FatedEnv.left (s :: outer)).modifyHead (d.toDeclared :: ·) := by
  simp only [left, FatedScope.declare, FatedScope.left]
  by_cases removed : d.fate = .removed
  · simp [removed]
  · by_cases gone : s.dissolved = true
    · cases left outer <;> simp [removed, gone]
    · simp [removed, gone]

theorem ids_after (env : FatedEnv ν) (id : Nat) (mark : Marked ν) :
    (env.after id mark).ids.Sublist (id :: env.ids) := by
  obtain ⟨token, left⟩ := mark
  cases token with
  | enter => simp [after, ids, decls]
  | mention names => simp [after]
  | declare name =>
    cases env with
    | nil => simp [after, ids, decls]
    | cons s outer => simp [after, ids, decls, FatedScope.declare]
  | leave =>
    cases env with
    | nil => cases left <;> simp [after, dissolve, ids, decls]
    | cons s outer =>
      apply List.Sublist.cons
      cases left with
      | some _ => simp [after, ids, decls]
      | none =>
        cases outer with
        | nil => simp [after, dissolve, ids, decls]
        | cons t outer =>
          simp only [after, dissolve, ids, decls, List.modifyHead_cons, List.flatMap_cons,
            FatedScope.receive, FatedScope.movedOut, List.map_append, List.map_map,
            List.append_assoc]
          apply List.Sublist.append_right
          exact List.filter_sublist.map _

end FatedEnv

namespace FatedEnv

/-- The outermost scope keeps its ends. -/
def Rooted (env : FatedEnv ν) : Prop := (env.map FatedScope.dissolved).getLast? = some false

theorem Rooted.outer {s : FatedScope ν} {outer : FatedEnv ν} (rooted : Rooted (s :: outer))
    (gone : s.dissolved = true) : Rooted outer := by
  cases outer with
  | nil => simp [Rooted, gone] at rooted
  | cons t outer => simpa [Rooted, List.getLast?_cons] using rooted

/-- At a point of a walk, numbers tell the declarations apart. -/
structure Sound (env : FatedEnv ν) (next : Nat) : Prop where
  rooted : env.Rooted
  distinct : env.ids.Nodup
  below : ∀ id ∈ env.ids, id < next

theorem Sound.after {env : FatedEnv ν} {next : Nat} {mark : Marked ν} (sound : Sound env next)
    (rooted : (env.after next mark).Rooted) : Sound (env.after next mark) (next + 1) := by
  have sub := ids_after env next mark
  have new : (next :: env.ids).Nodup := by
    rw [List.nodup_cons]
    constructor
    · intro mem
      exact Nat.lt_irrefl _ (sound.below next mem)
    · exact sound.distinct
  refine ⟨rooted, new.sublist sub, ?_⟩
  intro id mem
  rcases List.mem_cons.mp (sub.subset mem) with rfl | old
  · exact Nat.lt_succ_self _
  · exact Nat.lt_succ_of_lt (sound.below id old)

end FatedEnv

/-- What a matched token does to the scopes that are left. -/
theorem Matched.step {env : FatedEnv ν} {flags : List Bool} {next : Nat} {mark : Marked ν}
    {rest : List (Marked ν)} (matched : Matched flags (mark :: rest))
    (same : env.map FatedScope.dissolved = flags) (sound : env.Sound next) :
    ∃ flags', Matched flags' rest ∧ (env.after next mark).map FatedScope.dissolved = flags' ∧
      (env.after next mark).Sound (next + 1) ∧
      (env.after next mark).left = mark.2.elim env.left (env.left.after next) := by
  have rooted := sound.rooted
  unfold FatedEnv.Rooted at rooted
  rw [same] at rooted
  have declared (name : ν) (left : Option (Token ν)) :
      (env.after next (.declare name, left)).map FatedScope.dissolved = flags := by
    rw [← same]
    cases env <;> simp [FatedEnv.after, FatedScope.declare]
  have go {flags' : List Bool} (matched' : Matched flags' rest)
      (same' : (env.after next mark).map FatedScope.dissolved = flags')
      (rooted' : flags'.getLast? = some false)
      (left' : (env.after next mark).left = mark.2.elim env.left (env.left.after next)) :
      ∃ flags', Matched flags' rest ∧ (env.after next mark).map FatedScope.dissolved = flags' ∧
        (env.after next mark).Sound (next + 1) ∧
        (env.after next mark).left = mark.2.elim env.left (env.left.after next) := by
    have rooted_after : (env.after next mark).Rooted := by
      rw [FatedEnv.Rooted, same', rooted']
    exact ⟨flags', matched', same', sound.after rooted_after, left'⟩
  cases matched with
  | enter matched' =>
    apply go matched'
    · simp [FatedEnv.after, same]
    · simp [List.getLast?_cons, rooted]
    · simp [FatedEnv.after, FatedEnv.left, FatedScope.left, Env.after]
  | enterDissolved matched' =>
    apply go matched'
    · simp [FatedEnv.after, same]
    · simp [List.getLast?_cons, rooted]
    · cases h : env.left <;> simp [FatedEnv.after, FatedEnv.left, FatedScope.left, h]
  | leave matched' =>
    obtain ⟨s, outer, rfl, gone, same'⟩ := List.map_eq_cons_iff.mp same
    apply go matched'
    · simpa [FatedEnv.after] using same'
    · simpa [List.getLast?_cons] using rooted
    · simp [FatedEnv.after, FatedEnv.left, Env.after, gone]
  | leaveDissolved matched' =>
    obtain ⟨s, outer, rfl, gone, same'⟩ := List.map_eq_cons_iff.mp same
    obtain ⟨t, outer, rfl, flag, same'⟩ := List.map_eq_cons_iff.mp same'
    apply go matched'
    · simp [FatedEnv.after, FatedEnv.dissolve, FatedScope.receive, flag, same']
    · simpa [List.getLast?_cons] using rooted
    · exact FatedEnv.left_dissolve s t outer gone
  | declare matched' =>
    apply go matched' (declared _ _) rooted
    cases env with
    | nil => rfl
    | cons s outer => simp [FatedEnv.after, FatedEnv.left_declare, Env.after]
  | declareRemoved matched' =>
    apply go matched' (declared _ _) rooted
    cases env with
    | nil => rfl
    | cons s outer => simp [FatedEnv.after, FatedEnv.left_declare]
  | mention matched' => exact go matched' same rooted rfl
  | mentionRemoved matched' => exact go matched' same rooted rfl

def FatedPoint.before (p : FatedPoint ν) : Point ν := ⟨p.id, p.mark.1, p.env.before⟩

def FatedPoint.left (p : FatedPoint ν) : Option (Point ν) :=
  p.mark.2.map fun token => ⟨p.id, token, p.env.left⟩

theorem points_before (env : FatedEnv ν) (next : Nat) (marks : List (Marked ν)) :
    points env.before (original next marks) =
      (fatedPoints env next marks).map FatedPoint.before := by
  induction marks generalizing env next with
  | nil => rfl
  | cons mark rest ih =>
    simp only [original, points, fatedPoints, List.map_cons, ← ih, FatedEnv.before_after]
    rfl

theorem points_left {env : FatedEnv ν} {flags : List Bool} {next : Nat} {marks : List (Marked ν)}
    (matched : Matched flags marks) (same : env.map FatedScope.dissolved = flags)
    (sound : env.Sound next) :
    points env.left (remaining next marks) =
      (fatedPoints env next marks).filterMap FatedPoint.left := by
  induction marks generalizing env flags next with
  | nil => rfl
  | cons mark rest ih =>
    obtain ⟨flags', matched', same', sound', left'⟩ := matched.step same sound
    have tail := ih matched' same' sound'
    obtain ⟨token, kept⟩ := mark
    cases kept with
    | none =>
      rw [left'] at tail
      rw [remaining, fatedPoints, List.filterMap_cons_none rfl]
      exact tail
    | some token' =>
      rw [left'] at tail
      have head : FatedPoint.left ⟨next, (token, some token'), env⟩ =
          some ⟨next, token', env.left⟩ := rfl
      rw [remaining, points, fatedPoints, List.filterMap_cons_some head]
      exact congrArg _ tail

theorem sound_points {env : FatedEnv ν} {flags : List Bool} {next : Nat} {marks : List (Marked ν)}
    (matched : Matched flags marks) (same : env.map FatedScope.dissolved = flags)
    (sound : env.Sound next) :
    ∀ p ∈ fatedPoints env next marks, p.env.Sound p.id := by
  induction marks generalizing env flags next with
  | nil => simp [fatedPoints]
  | cons mark rest ih =>
    obtain ⟨flags', matched', same', sound', -⟩ := matched.step same sound
    intro p mem
    rcases List.mem_cons.mp mem with rfl | later
    · exact sound
    · exact ih matched' same' sound' p later

theorem fatedPoints_ids (env : FatedEnv ν) (next : Nat) (marks : List (Marked ν)) :
    (fatedPoints env next marks).map FatedPoint.id = List.range' next marks.length := by
  induction marks generalizing env next with
  | nil => rfl
  | cons mark rest ih => simp [fatedPoints, ih, List.range'_succ]

/-! ### The two meanings of a name at a point -/

namespace FatedEnv

theorem left_ne_nil {env : FatedEnv ν} (rooted : env.Rooted) : env.left ≠ [] := by
  induction env with
  | nil => simp [Rooted] at rooted
  | cons s outer ih =>
    rw [left]
    split
    next gone =>
      have nonempty := ih (rooted.outer gone)
      cases h : left outer with
      | nil => exact absurd h nonempty
      | cons head tail => simp
    next => simp

theorem headD_left {env : FatedEnv ν} (rooted : env.Rooted) :
    env.left.headD [] =
      (env.joined.filter fun d => d.fate ≠ .removed).map Fated.toDeclared := by
  induction env with
  | nil => rfl
  | cons s outer ih =>
    rw [left, joined]
    split
    next gone =>
      have nonempty := left_ne_nil (rooted.outer gone)
      have tail := ih (rooted.outer gone)
      cases h : left outer with
      | nil => exact absurd h nonempty
      | cons head rest =>
        rw [h, List.headD_cons] at tail
        simp [tail, FatedScope.left]
    next => simp [FatedScope.left]

theorem flatten_left {env : FatedEnv ν} (rooted : env.Rooted) :
    env.left.flatten = (env.decls.filter fun d => d.fate ≠ .removed).map Fated.toDeclared := by
  induction env with
  | nil => rfl
  | cons s outer ih =>
    rw [left, decls, List.flatMap_cons, List.filter_append, List.map_append]
    split
    next gone =>
      have nonempty := left_ne_nil (rooted.outer gone)
      have tail := ih (rooted.outer gone)
      cases h : left outer with
      | nil => exact absurd h nonempty
      | cons head rest =>
        rw [h, List.flatten_cons, decls] at tail
        rw [← tail]
        simp [FatedScope.left]
    next kept =>
      cases outer with
      | nil => simp [FatedScope.left, left]
      | cons t outer =>
        have tail := ih (by simpa [Rooted, List.getLast?_cons] using rooted)
        rw [decls] at tail
        rw [List.flatten_cons, tail, FatedScope.left]

theorem flatten_before (env : FatedEnv ν) :
    env.before.flatten = (env.decls.filter fun d => d.fate ≠ .moved).map Fated.toDeclared := by
  induction env with
  | nil => rfl
  | cons s outer ih =>
    simp only [before, decls] at ih
    simp [before, decls, ih, FatedScope.before]

theorem joined_prefix (env : FatedEnv ν) : env.joined <+: env.decls := by
  induction env with
  | nil => exact List.prefix_rfl
  | cons s outer ih =>
    rw [joined, decls, List.flatMap_cons, List.prefix_append_right_inj]
    split
    · exact ih
    · exact List.nil_prefix

variable [DecidableEq ν]

theorem named_filter (decls : List (Fated ν)) (name : ν) (p : Fated ν → Bool) :
    (((decls.filter p).map Fated.toDeclared).filter fun d => d.name = name).map Declared.id =
      ((decls.filter fun d => d.name = name).filter p).map fun d => d.id := by
  rw [List.filter_map, List.map_map, List.filter_filter, List.filter_filter]
  congr 1
  apply List.filter_congr
  intro d _
  exact Bool.and_comm _ _

theorem visible_before (env : FatedEnv ν) (name : ν) :
    env.before.visible name =
      ((env.named name).filter fun d => d.fate ≠ .moved).map fun d => d.id := by
  rw [Env.visible, flatten_before, named_filter, named]

theorem visible_left {env : FatedEnv ν} (rooted : env.Rooted) (name : ν) :
    env.left.visible name =
      ((env.named name).filter fun d => d.fate ≠ .removed).map fun d => d.id := by
  rw [Env.visible, flatten_left rooted, named_filter, named]

theorem named_distinct {env : FatedEnv ν} (distinct : env.ids.Nodup) (name : ν) :
    ((env.named name).map fun d => d.id).Nodup :=
  distinct.sublist (List.filter_sublist.map _)

end FatedEnv

/-- A declaration is seen both before and after exactly if it stays where it is. -/
theorem sameMembers_iff {decls : List (Fated ν)} (distinct : (decls.map fun d => d.id).Nodup) :
    (∀ id, id ∈ (decls.filter fun d => d.fate ≠ .removed).map (fun d => d.id) ↔
        id ∈ (decls.filter fun d => d.fate ≠ .moved).map (fun d => d.id)) ↔
      ∀ d ∈ decls, d.fate = .kept := by
  constructor
  · intro same d mem
    have alone {e : Fated ν} (mem_e : e ∈ decls) (eq : e.id = d.id) : e = d :=
      List.inj_on_of_nodup_map distinct mem_e mem eq
    cases fate : d.fate with
    | kept => rfl
    | removed =>
      have seen := (same d.id).mpr (List.mem_map_of_mem (by simp [mem, fate]))
      obtain ⟨e, mem_e, eq⟩ := List.mem_map.mp seen
      rw [List.mem_filter] at mem_e
      rw [alone mem_e.1 eq, fate] at mem_e
      simp at mem_e
    | moved =>
      have seen := (same d.id).mp (List.mem_map_of_mem (by simp [mem, fate]))
      obtain ⟨e, mem_e, eq⟩ := List.mem_map.mp seen
      rw [List.mem_filter] at mem_e
      rw [alone mem_e.1 eq, fate] at mem_e
      simp at mem_e
  · intro kept id
    rw [List.filter_eq_self.mpr (by simpa using fun d mem => by simp [kept d mem]),
      List.filter_eq_self.mpr (by simpa using fun d mem => by simp [kept d mem])]

theorem sameHead_iff {decls : List (Fated ν)} (distinct : (decls.map fun d => d.id).Nodup) :
    ((decls.filter fun d => d.fate ≠ .removed).map fun d => d.id).head? =
        ((decls.filter fun d => d.fate ≠ .moved).map fun d => d.id).head? ↔
      ∀ d ∈ decls.head?, d.fate = .kept := by
  cases decls with
  | nil => simp
  | cons d rest =>
    have absent (p : Fated ν → Bool) : ((rest.filter p).map fun d => d.id).head? ≠ some d.id := by
      intro head
      have mem := List.mem_of_head? head
      have mem' := (List.filter_sublist.map _).subset mem
      simp only [List.map_cons, List.nodup_cons] at distinct
      exact distinct.1 mem'
    cases fate : d.fate with
    | kept => simp [fate]
    | removed => simpa [fate] using absent _
    | moved => simpa [fate] using (absent _).symm

theorem mem_named [DecidableEq ν] {env : FatedEnv ν} {name : ν} {d : Fated ν} :
    d ∈ env.named name ↔ d ∈ env.decls ∧ d.name = name := by
  simp [FatedEnv.named]

/-- Where the visible declarations of a name stay, those in the innermost scope are the same as
before exactly if no other scope that declares the name has become one with it. -/
theorem sameCurrent_iff [DecidableEq ν] {env : FatedEnv ν} {next : Nat} (sound : env.Sound next)
    {name : ν} (kept : ∀ d ∈ env.named name, d.fate = .kept) :
    (∀ id, id ∈ env.left.current name ↔ id ∈ env.before.current name) ↔
      ∀ d ∈ env.around, d.name ≠ name := by
  rw [Env.current, FatedEnv.headD_left sound.rooted]
  cases env with
  | nil => simp [FatedEnv.around, FatedEnv.joined, FatedEnv.before, Env.current]
  | cons s outer =>
    have inside {d : Fated ν} (mem : d ∈ FatedEnv.around (s :: outer)) :
        d ∈ FatedEnv.decls outer := by
      rw [FatedEnv.around] at mem
      split at mem
      · exact (FatedEnv.joined_prefix outer).subset mem
      · cases mem
    have joined : FatedEnv.joined (s :: outer) = s.decls ++ FatedEnv.around (s :: outer) := rfl
    have all : FatedEnv.decls (s :: outer) = s.decls ++ FatedEnv.decls outer := by
      simp [FatedEnv.decls]
    have current (id : Nat) : id ∈ (FatedEnv.before (s :: outer)).current name ↔
        ∃ d ∈ s.decls, d.name = name ∧ d.fate ≠ .moved ∧ d.id = id := by
      simp [Env.current, FatedEnv.before, FatedScope.before]
      grind
    have seen (d : Fated ν) (mem : d ∈ s.decls ++ FatedEnv.around (s :: outer))
        (named : d.name = name) (stays : d.fate = .kept) :
        d.id ∈ ((((s.decls ++ FatedEnv.around (s :: outer)).filter fun d => d.fate ≠ .removed).map
          Fated.toDeclared).filter fun d => d.name = name).map Declared.id := by
      have left : d ∈ (s.decls ++ FatedEnv.around (s :: outer)).filter fun d => d.fate ≠ .removed :=
        List.mem_filter.mpr ⟨mem, by simp [stays]⟩
      exact List.mem_map_of_mem (List.mem_filter.mpr ⟨List.mem_map_of_mem left, by simp [named]⟩)
    rw [joined]
    simp only [current]
    have distinct := sound.distinct
    rw [FatedEnv.ids, all, List.map_append, List.nodup_append] at distinct
    constructor
    · intro same d mem named
      have stays := kept d (mem_named.mpr ⟨all ▸ List.mem_append_right _ (inside mem), named⟩)
      have before := seen d (List.mem_append_right _ mem) named stays
      obtain ⟨e, mem_e, -, -, eq⟩ := (same d.id).mp before
      exact distinct.2.2 _ (List.mem_map_of_mem mem_e) _ (List.mem_map_of_mem (inside mem)) eq
    · intro none id
      constructor
      · intro found
        simp only [List.mem_map, List.mem_filter] at found
        obtain ⟨_, ⟨⟨d, ⟨mem, -⟩, rfl⟩, named⟩, rfl⟩ := found
        have named : d.name = name := by simpa using named
        rcases List.mem_append.mp mem with mem | mem
        · have stays := kept d (mem_named.mpr ⟨all ▸ List.mem_append_left _ mem, named⟩)
          exact ⟨d, mem, named, by simp [stays], rfl⟩
        · exact absurd named (none d mem)
      · intro found
        obtain ⟨d, mem, named, -, rfl⟩ := found
        have stays := kept d (mem_named.mpr ⟨all ▸ List.mem_append_left _ mem, named⟩)
        exact seen d (List.mem_append_left _ mem) named stays

theorem undisturbed_iff [DecidableEq ν] {p : FatedPoint ν} (sound : p.env.Sound p.id)
    {q : Point ν} (left : p.left = some q) : q.SameNames p.before ↔ p.Undisturbed := by
  obtain ⟨id, ⟨token, kept⟩, env⟩ := p
  obtain ⟨token', rfl, rfl⟩ := Option.map_eq_some_iff.mp left
  have rooted : env.Rooted := sound.rooted
  have distinct : env.ids.Nodup := sound.distinct
  cases token' with
  | enter => exact Iff.rfl
  | leave => exact Iff.rfl
  | mention names =>
    simp only [Point.SameNames, FatedPoint.Undisturbed, FatedPoint.before, Env.referent]
    refine forall₂_congr fun name _ => ?_
    rw [FatedEnv.visible_left rooted, FatedEnv.visible_before]
    exact sameHead_iff (FatedEnv.named_distinct distinct name)
  | declare name =>
    simp only [Point.SameNames, FatedPoint.Undisturbed, FatedPoint.before]
    rw [FatedEnv.visible_left rooted, FatedEnv.visible_before,
      sameMembers_iff (FatedEnv.named_distinct distinct name)]
    exact and_congr_right fun kept => sameCurrent_iff sound kept

theorem sound_start : FatedEnv.Sound ([⟨false, []⟩] : FatedEnv ν) 0 :=
  ⟨rfl, by simp [FatedEnv.ids, FatedEnv.decls], by simp [FatedEnv.ids, FatedEnv.decls]⟩

theorem preserved_iff [DecidableEq ν] {marks : List (Marked ν)} (matched : Matched [false] marks) :
    Preserved marks ↔ ∀ p ∈ fatedPoints [⟨false, []⟩] 0 marks, p.Undisturbed := by
  have before := points_before [⟨false, []⟩] 0 marks
  have left := points_left matched rfl sound_start
  have sound := sound_points matched rfl sound_start
  have distinct : ((fatedPoints [⟨false, []⟩] 0 marks).map FatedPoint.id).Nodup := by
    rw [fatedPoints_ids]
    exact List.nodup_range'
  simp only [Preserved]
  have start : FatedEnv.before ([⟨false, []⟩] : FatedEnv ν) = [[]] := rfl
  have start' : FatedEnv.left ([⟨false, []⟩] : FatedEnv ν) = [[]] := rfl
  rw [start] at before
  rw [start'] at left
  rw [before, left]
  constructor
  · intro preserved p mem
    cases h : p.left with
    | none =>
      have gone : p.mark.2 = none := Option.map_eq_none_iff.mp h
      simp [FatedPoint.Undisturbed, gone]
    | some q =>
      have same_id : q.id = p.before.id := by
        obtain ⟨token', -, rfl⟩ := Option.map_eq_some_iff.mp h
        rfl
      apply (undisturbed_iff (sound p mem) h).mp
      exact preserved q (List.mem_filterMap.mpr ⟨p, mem, h⟩) _ (List.mem_map_of_mem mem) same_id
  · intro undisturbed q mem_q r mem_r eq
    obtain ⟨p, mem, h⟩ := List.mem_filterMap.mp mem_q
    obtain ⟨p', mem', rfl⟩ := List.mem_map.mp mem_r
    have same_id : q.id = p.id := by
      obtain ⟨token', -, rfl⟩ := Option.map_eq_some_iff.mp h
      rfl
    have same : p = p' := List.inj_on_of_nodup_map distinct mem mem' (same_id.symm.trans eq)
    rw [← same]
    exact (undisturbed_iff (sound p mem) h).mpr (undisturbed p mem)

/-! ### Marked sequences from marked pieces -/

/-- The tokens of a scope. -/
def scope (tokens : List (Token ν)) : List (Token ν) := .enter :: (tokens ++ [.leave])

/-- Tokens that are all left, or all removed. -/
def marked (keep : Bool) (tokens : List (Token ν)) : List (Marked ν) :=
  tokens.map fun token => (token, if keep then some token else none)

/-- A scope that keeps both of its ends, or none. -/
def markedScope (keep : Bool) (marks : List (Marked ν)) : List (Marked ν) :=
  marked keep [.enter] ++ (marks ++ marked keep [.leave])

/-- The scopes that begin in these tokens also end in them. -/
def Closed (marks : List (Marked ν)) : Prop :=
  ∀ flag flags rest, Matched (flag :: flags) rest → Matched (flag :: flags) (marks ++ rest)

@[simp] theorem marked_nil (keep : Bool) : marked keep ([] : List (Token ν)) = [] := rfl

@[simp] theorem marked_append (keep : Bool) (tokens tokens' : List (Token ν)) :
    marked keep (tokens ++ tokens') = marked keep tokens ++ marked keep tokens' := by
  simp [marked]

@[simp] theorem marked_scope (keep : Bool) (tokens : List (Token ν)) :
    marked keep (scope tokens) = markedScope keep (marked keep tokens) := by
  simp [marked, scope, markedScope]

@[simp] theorem marked_fst (keep : Bool) (tokens : List (Token ν)) :
    (marked keep tokens).map Prod.fst = tokens := by
  simp [marked, Function.comp_def]

@[simp] theorem marked_kept (tokens : List (Token ν)) :
    (marked true tokens).filterMap Prod.snd = tokens := by
  simp [marked, List.filterMap_map]

@[simp] theorem marked_removed (tokens : List (Token ν)) :
    (marked false tokens).filterMap Prod.snd = [] := by
  simp [marked, List.filterMap_map]

@[simp] theorem markedScope_fst (keep : Bool) (marks : List (Marked ν)) :
    (markedScope keep marks).map Prod.fst = scope (marks.map Prod.fst) := by
  simp [markedScope, scope]

@[simp] theorem markedScope_kept (marks : List (Marked ν)) :
    (markedScope true marks).filterMap Prod.snd = scope (marks.filterMap Prod.snd) := by
  simp [markedScope, scope]

@[simp] theorem markedScope_removed (marks : List (Marked ν)) :
    (markedScope false marks).filterMap Prod.snd = marks.filterMap Prod.snd := by
  simp [markedScope]

theorem Closed.nil : Closed ([] : List (Marked ν)) := fun _ _ _ matched => matched

theorem Closed.append {marks marks' : List (Marked ν)} (closed : Closed marks)
    (closed' : Closed marks') : Closed (marks ++ marks') := by
  intro flag flags rest matched
  rw [List.append_assoc]
  exact closed flag flags _ (closed' flag flags rest matched)

theorem Closed.scope {marks : List (Marked ν)} (closed : Closed marks) (keep : Bool) :
    Closed (markedScope keep marks) := by
  intro flag flags rest matched
  simp only [markedScope, List.append_assoc]
  cases keep with
  | true => exact .enter (closed _ _ _ (.leave matched))
  | false => exact .enterDissolved (closed _ _ _ (.leaveDissolved matched))

theorem Closed.declare (keep : Bool) (name : ν) : Closed (marked keep [.declare name]) := by
  intro flag flags rest matched
  cases keep with
  | true => exact .declare matched
  | false => exact .declareRemoved matched

theorem Closed.mention (names names' : List ν) :
    Closed ([(.mention names, some (.mention names'))] : List (Marked ν)) :=
  fun _ _ _ matched => .mention matched

theorem Closed.marked_mention (keep : Bool) (names : List ν) :
    Closed (marked keep [.mention names]) := by
  cases keep with
  | true => exact Closed.mention names names
  | false => exact fun _ _ _ matched => .mentionRemoved matched

theorem Closed.matched {marks : List (Marked ν)} (closed : Closed marks) (flag : Bool) :
    Matched [flag] marks := by
  have whole := closed flag [] [] .nil
  rwa [List.append_nil] at whole

end Scopes
