import ClaudeC99.Declarators.Reading

/-! When a parameter gets the type of its declarator, arrays and functions adjusted to pointers. -/

namespace ClaudeC99.Declarators

open Front (TokenType ParsedDeclarator pointers buildArrayTypeFromDims)

/-- Kinds whose types differ in their sign alone. -/
def signMatters : TypeKind → Bool
  | .char | .short | .int | .long => true
  | _ => false

/-- The parameter record stands for the type: by its kind and sign, or by its full type. -/
def Records (p : Param) : CType → Prop
  | .scalar kind isSigned _ =>
    p.declType = kind ∧ p.fullType = none ∧ (signMatters kind = true → p.isUnsigned = !isSigned)
  | .pointer base isConst => p.declType = .pointer ∧ p.fullType = some (.pointer base isConst)
  | .record isUnion tag copy layout isConst =>
    p.declType = (if isUnion then .union else .struct) ∧
      p.fullType = some (.record isUnion tag copy layout isConst)
  | .array _ _ _ | .function _ _ => False

def SameType (p q : Param) : Prop := ∀ t, Records p t ↔ Records q t

/-- Types that a parameter without a declarator keeps. -/
def keptUnnamed : CType → Bool
  | .scalar kind isSigned _ => !signMatters kind || isSigned
  | .array _ _ _ => true
  | _ => false

/-- Types that a name alone keeps. -/
def keptNamed : CType → Bool
  | .pointer _ _ | .function _ _ => false
  | _ => true

/-- One dimension at most, and no array or function type of its own. -/
def InnerParameter.Kept (p : InnerParameter) : Prop :=
  p.dims.length = 1 ∨
    p.dims = [] ∧ (p.stars ≠ 0 ∨ p.specifier.type.kind ≠ .array ∧ p.specifier.type.kind ≠ .function)

/-- A list of one void is written with the keyword. -/
def VoidKept (ps : List InnerParameter) : Prop :=
  ∀ p, ps = [p] → p.isVoid = true → p.specifier.token.type = .void

/-- The declarators whose parameters get their type. -/
def Written.Kept (base : CType) : Written → Prop
  | absent => keptUnnamed base = true
  | pointer _ _ => True
  | brackets _ more => more = []
  | name stars _ => stars ≠ [] ∨ keptNamed base = true
  | nameArray stars _ _ later => stars = [] ∧ later = []
  | nameFunction stars _ list => stars = [] ∧ list.types = []
  | paren stars inner _ none => (stars ≠ [] ∨ inner ≠ 0) ∨ keptNamed base = true
  | paren stars inner _ (some _) => stars = [] ∧ inner = 0
  | parenArray stars inner _ none _ => stars = [] ∧ inner ≠ 0
  | parenArray stars inner _ (some _) _ => stars = [] ∧ inner = 0
  | parenFunction stars _ list => stars = [] ∧ list.types = []
  | functionPointer stars _ _ array params =>
    stars = [] ∧ array = none ∧ (∀ p ∈ params, p.Kept) ∧ VoidKept params
  | returnsFunctionPointer _ _ _ _ _ => False

section Types

def depth : CType → Nat
  | .pointer base _ | .array base _ _ => depth base + 1
  | .function returnType _ => depth returnType + 1
  | _ => 0

variable {s t : CType} {n m : Nat}

theorem pointers_succ (t : CType) : ∀ n : Nat, pointers t (n + 1) = (pointers t n).typePointer
  | 0 => rfl
  | n + 1 => pointers_succ t.typePointer n

theorem pointers_add (t : CType) (n : Nat) : ∀ m : Nat,
    pointers t (n + m) = pointers (pointers t n) m
  | 0 => rfl
  | m + 1 => by
    rw [← Nat.add_assoc, pointers_succ, pointers_succ, pointers_add t n m]

theorem depth_pointers (t : CType) : ∀ n : Nat, depth (pointers t n) = depth t + n
  | 0 => rfl
  | n + 1 => by
    rw [pointers_succ]
    change depth (pointers t n) + 1 = _
    rw [depth_pointers t n, Nat.add_assoc]

theorem depth_build (t : CType) : ∀ dims : List Nat,
    depth (buildArrayTypeFromDims t dims) = depth t + dims.length
  | [] => rfl
  | n :: dims => by
    change depth (buildArrayTypeFromDims t dims) + 1 = _
    rw [depth_build t dims, List.length_cons, Nat.add_assoc]

theorem typePointer_inj : s.typePointer = t.typePointer ↔ s = t := by
  constructor
  · intro same
    cases same
    rfl
  · exact congrArg CType.typePointer

theorem pointers_inj : ∀ n : Nat, pointers s n = pointers t n ↔ s = t
  | 0 => Iff.rfl
  | n + 1 => by rw [pointers_succ, pointers_succ, typePointer_inj, pointers_inj n]

/-- Stars in front of a type change it, except none. -/
theorem pointers_eq_self : pointers t n = t ↔ n = 0 := by
  constructor
  · intro same
    have depths := congrArg depth same
    rw [depth_pointers] at depths
    omega
  · rintro rfl
    rfl

theorem eq_adjust (proper : properScalar t = true) :
    t = adjust t ↔ t.kind ≠ .array ∧ t.kind ≠ .function := by
  cases t with
  | array base n c =>
    have differ : CType.array base n c ≠ base.typePointer := fun same => by cases same
    simp [adjust, CType.kind, differ]
  | function r ps =>
    have differ : CType.function r ps ≠ (CType.function r ps).typePointer :=
      fun same => by cases same
    simp [adjust, CType.kind, differ]
  | scalar k s c => cases k <;> simp_all [adjust, CType.kind, properScalar]
  | pointer base c => simp [adjust, CType.kind]
  | record isUnion tag copy layout c => cases isUnion <;> simp [adjust, CType.kind]

theorem read_eq_iff (p : InnerParameter) : p.read = adjust p.declared ↔ p.Kept := by
  unfold InnerParameter.read InnerParameter.declared InnerParameter.Kept
  cases p.dims with
  | nil =>
    cases p.stars with
    | zero =>
      have self := eq_adjust p.specifier.proper
      change p.specifier.type = adjust p.specifier.type ↔ _
      simp [self]
    | succ n =>
      change pointers _ (n + 1) = adjust (pointers _ (n + 1)) ↔ _
      rw [pointers_succ]
      simp [adjust, CType.typePointer]
  | cons dim dims =>
    change pointers _ _ =
      (buildArrayTypeFromDims (pointers p.specifier.type p.stars) (dims.map _)).typePointer ↔ _
    rw [List.length_cons, ← Nat.add_assoc, pointers_succ, typePointer_inj, pointers_add]
    cases dims with
    | nil => simp [buildArrayTypeFromDims, pointers]
    | cons next dims =>
      have differ : pointers (pointers p.specifier.type p.stars) (next :: dims).length ≠
          buildArrayTypeFromDims (pointers p.specifier.type p.stars)
            ((next :: dims).map InnerDimension.length) := by
        rw [List.length_cons, pointers_succ]
        exact fun same => by cases same
      constructor
      · exact fun same => absurd same differ
      · rintro (single | ⟨none, _⟩)
        · cases single
        · cases none

theorem readTypes_eq_iff (ps : List InnerParameter) :
    readTypes ps = innerTypes ps ↔ (∀ p ∈ ps, p.Kept) ∧ VoidKept ps := by
  have general (ps : List InnerParameter) : ps.map InnerParameter.read =
      (ps.map fun p => adjust p.declared) ↔ ∀ p ∈ ps, p.Kept := by
    rw [List.map_inj_left]
    exact forall₂_congr fun p _ => read_eq_iff p
  cases ps with
  | nil =>
    have void : VoidKept [] := fun _ same => by cases same
    simp [readTypes, innerTypes, void]
  | cons p ps =>
    cases ps with
    | cons q qs =>
      have void : VoidKept (p :: q :: qs) := fun _ same => by cases same
      exact (general (p :: q :: qs)).trans (and_iff_left void).symm
    | nil =>
      have single : VoidKept [p] ↔ (p.isVoid = true → p.specifier.token.type = .void) := by
        constructor
        · exact fun kept => kept p rfl
        · intro kept q same
          cases same
          exact kept
      rw [readTypes, innerTypes, single]
      by_cases void : p.isVoid = true
      · have kept : p.Kept := by
          simp only [InnerParameter.isVoid, Bool.and_eq_true, decide_eq_true_eq,
            List.isEmpty_iff] at void
          obtain ⟨⟨⟨⟨⟨_, kind⟩, _⟩, _⟩, _⟩, dims⟩ := void
          refine .inr ⟨dims, .inr ?_⟩
          rw [kind]
          decide
        by_cases keyword : p.specifier.token.type = .void <;> simp [void, keyword, kept]
      · simp [void, read_eq_iff]

end Types

section Forms

variable {base : CType} {p : Param} {ss : List Qualifiers} {x : String} {inner n : Nat}
  {array : Option (Option Nat)} {rest us : Tokens}

@[simp] theorem records_pointerParam {t u : CType} :
    Records (pointerParam x t) u.typePointer ↔ t = u.typePointer := by
  simp [Records, pointerParam, CType.typePointer]

theorem parameter_named {ts : Tokens} (start : current ts = .identifier ∨ current ts = .lparen) :
    parameterDeclarator base (spellStars ss ++ ts) = namedParameter base ss.length ts := by
  have star : current ts ≠ .star := by rcases start with same | same <;> rw [same] <;> decide
  have other : isQualifier (current ts) = false := by
    rcases start with same | same <;> rw [same] <;> rfl
  have noStop : ¬(current ts = .comma ∨ current ts = .rparen) := by
    rcases start with same | same <;> rw [same] <;> decide
  have bracket : current ts ≠ .lbracket := by
    rcases start with same | same <;> rw [same] <;> decide
  have front : ¬(current (spellStars ss ++ ts) = .comma ∨
      current (spellStars ss ++ ts) = .rparen) := by
    cases ss with
    | nil => exact noStop
    | cons q ss =>
      rintro (same | same) <;> cases same
  obtain ⟨isConst, starred⟩ := stars_spell ss star other
  simp only [parameterDeclarator, if_neg front, starred]
  rw [if_neg (fun both => noStop both.2), if_neg (fun both => bracket both.2)]

theorem namedParameter_ok {ts : Tokens} (accepted : namedParameter base n ts = .ok (p, us)) :
    ∃ d ts', parseDeclarator ts = .ok (d, ts') ∧
      p = declaredParam base { d with pointerCount := d.pointerCount + n } := by
  obtain ⟨⟨d, ts'⟩, parsed, accepted⟩ := StateExcept.bind_eq_ok.mp accepted
  refine ⟨d, ts', parsed, ?_⟩
  simp only at accepted
  split at accepted
  · obtain ⟨_, _, accepted⟩ := StateExcept.bind_eq_ok.mp accepted
    obtain ⟨_, _, accepted⟩ := StateExcept.bind_eq_ok.mp accepted
    cases accepted
    rfl
  · cases accepted
    rfl

theorem kept_absent (stop : Stops rest) (proper : properScalar base = true)
    (accepted : parameterDeclarator base rest = .ok (p, us)) :
    Records p (adjust base) ↔ keptUnnamed base = true := by
  have ends : current rest = .comma ∨ current rest = .rparen := stop
  rw [parameterDeclarator, if_pos ends] at accepted
  split at accepted
  · rename_i isArray
    cases accepted
    cases base with
    | array b m c => simp [adjust, arrayElement, keptUnnamed]
    | scalar k s c => cases k <;> simp_all [CType.kind, properScalar]
    | record isUnion tag copy layout c => cases isUnion <;> simp [CType.kind] at isArray
    | _ => simp [CType.kind] at isArray
  · rename_i notArray
    cases accepted
    cases base with
    | array b m c => exact absurd rfl notArray
    | scalar k s c =>
      simp only [adjust, Records, newParam, CType.kind, keptUnnamed, true_and]
      cases signMatters k <;> cases s <;> decide
    | _ => simp [adjust, Records, newParam, keptUnnamed, CType.typePointer]

theorem kept_named_plain {d : Front.ParsedDeclarator} (proper : properScalar base = true)
    (plain : d.isFuncPointer = false ∧ d.isFunction = false ∧ d.isPtrToArray = false ∧
      d.isArray = false) :
    Records (declaredParam base d) (adjust (pointers base d.pointerCount)) ↔
      d.pointerCount ≠ 0 ∨ keptNamed base = true := by
  obtain ⟨fp, f, pa, a⟩ := plain
  rw [declaredParam, fp, f, pa, a]
  cases count : d.pointerCount with
  | succ n =>
    rw [pointers_succ]
    simp [adjust, Records, pointerParam, CType.typePointer]
  | zero =>
    cases base with
    | array b m c => simp [pointers, adjust, arrayElement, keptNamed, CType.kind]
    | scalar k s c =>
      cases k <;> simp_all [pointers, adjust, Records, newParam, CType.kind, keptNamed,
        properScalar, CType.isSigned, TypeKind.isAggregate]
    | record isUnion tag copy layout c =>
      cases isUnion <;>
        simp [pointers, adjust, Records, newParam, CType.kind, keptNamed, TypeKind.isAggregate]
    | pointer b c =>
      simp [pointers, adjust, Records, newParam, CType.kind, keptNamed, TypeKind.isAggregate]
    | function r ps =>
      simp [pointers, adjust, Records, newParam, CType.kind, keptNamed, TypeKind.isAggregate,
        CType.typePointer]

theorem kept_pointer {first : Qualifiers} {more : List Qualifiers} (stop : Stops rest)
    (accepted : parameterDeclarator base (spellStars (first :: more) ++ rest) = .ok (p, us)) :
    Records p (adjust (pointers base (more.length + 1))) := by
  have star := stop.ne .star (by decide) (by decide)
  have other : isQualifier (current rest) = false := by
    rcases stop with same | same <;> rw [same] <;> rfl
  have front : ¬(current (spellStars (first :: more) ++ rest) = .comma ∨
      current (spellStars (first :: more) ++ rest) = .rparen) := by
    rintro (same | same) <;> cases same
  obtain ⟨isConst, starred⟩ := stars_spell (first :: more) star other
  have ends : (first :: more).length > 0 ∧ (current rest = .comma ∨ current rest = .rparen) :=
    ⟨Nat.succ_pos _, stop⟩
  simp only [parameterDeclarator, if_neg front, starred] at accepted
  rw [if_pos ends] at accepted
  cases accepted
  rw [List.length_cons, pointers_succ]
  exact records_pointerParam.mpr rfl

theorem kept_brackets {first : SkippedDimension} {more : List SkippedDimension}
    (accepted : parameterDeclarator base
      ((first :: more).flatMap SkippedDimension.spell ++ rest) = .ok (p, us)) :
    Records p (adjust (buildArrayTypeFromDims base
      (first.length :: more.map SkippedDimension.length))) ↔ more = [] := by
  cases accepted
  change Records _ (buildArrayTypeFromDims base (more.map SkippedDimension.length)).typePointer ↔ _
  rw [records_pointerParam, typePointer_inj]
  constructor
  · intro same
    have depths := congrArg depth same
    rw [depth_build, List.length_map] at depths
    exact List.eq_nil_of_length_eq_zero (by omega)
  · rintro rfl
    rfl

theorem kept_array_named {hasSize : Bool} {length : Nat} {dims : List Nat} {later : List Nat}
    {first : Nat} :
    Records (declaredParam base
      { name := x, isArray := true, hasSize := hasSize, arrayLength := length, arrayDims := dims
        pointerCount := n })
      (adjust (buildArrayTypeFromDims (pointers base n) (first :: later))) ↔
        n = 0 ∧ later = [] := by
  change Records _ (buildArrayTypeFromDims (pointers base n) later).typePointer ↔ _
  cases n with
  | zero =>
    change Records (pointerParam x base.typePointer) _ ↔ _
    rw [records_pointerParam, typePointer_inj]
    constructor
    · intro same
      have depths := congrArg depth same
      rw [depth_build, depth_pointers] at depths
      exact ⟨rfl, List.eq_nil_of_length_eq_zero (by omega)⟩
    · rintro ⟨_, rfl⟩
      rfl
  | succ n =>
    change Records (pointerParam x (pointers base (n + 1))) _ ↔ _
    rw [records_pointerParam]
    constructor
    · intro same
      have depths := congrArg depth same
      change _ = depth (buildArrayTypeFromDims _ later) + 1 at depths
      rw [depth_build, depth_pointers] at depths
      omega
    · rintro ⟨zero, _⟩
      cases zero

theorem kept_function {types : List CType} :
    Records (pointerParam x (.typePointer (.function base [])))
      (adjust (.function (pointers base n) types)) ↔ n = 0 ∧ types = [] := by
  change Records _ (CType.function (pointers base n) types).typePointer ↔ _
  rw [records_pointerParam, typePointer_inj]
  constructor
  · intro same
    injection same with returns params
    exact ⟨pointers_eq_self.mp returns.symm, params.symm⟩
  · rintro ⟨rfl, rfl⟩
    rfl

theorem kept_parenArray_pointer {bound : Nat} :
    Records (pointerParam x (pointers (base.typeArray bound)
        (if inner + n > 0 then inner + n else 1)))
      (adjust (pointers ((pointers base n).typeArray bound) inner)) ↔ n = 0 ∧ inner ≠ 0 := by
  cases inner with
  | zero =>
    change Records _ (pointers base n).typePointer ↔ _
    rw [records_pointerParam, ← pointers_succ]
    constructor
    · intro same
      exfalso
      cases n with
      | zero =>
        have depths := congrArg depth same
        rw [depth_pointers, depth_pointers] at depths
        change depth base + 1 + 1 = _ at depths
        omega
      | succ n =>
        rw [if_pos (by omega), Nat.zero_add] at same
        have stripped := (pointers_inj (n + 1)).mp (same : _ = pointers base.typePointer (n + 1))
        cases stripped
    · rintro ⟨_, absurd⟩
      exact (absurd rfl).elim
  | succ inner =>
    rw [if_pos (by omega), pointers_succ ((pointers base n).typeArray bound) inner]
    change Records _ (pointers ((pointers base n).typeArray bound) inner).typePointer ↔ _
    rw [records_pointerParam, ← pointers_succ, Nat.add_comm, pointers_add, pointers_inj]
    constructor
    · intro same
      cases n with
      | zero => exact ⟨rfl, Nat.succ_ne_zero inner⟩
      | succ n =>
        rw [pointers_succ] at same
        cases same
    · rintro ⟨rfl, _⟩
      rfl

theorem kept_parenArray_array {bound length : Nat} :
    Records (pointerParam x (pointers (base.typeArray bound)
        (if inner + n > 0 then inner + n else 1)))
      (adjust ((pointers ((pointers base n).typeArray bound) inner).typeArray length)) ↔
        n = 0 ∧ inner = 0 := by
  change Records _ (pointers ((pointers base n).typeArray bound) inner).typePointer ↔ _
  rw [records_pointerParam, ← pointers_succ]
  constructor
  · intro same
    have depths := congrArg depth same
    rw [depth_pointers, depth_pointers] at depths
    change depth base + 1 + _ = depth (pointers base n) + 1 + _ at depths
    rw [depth_pointers] at depths
    split at depths <;> omega
  · rintro ⟨rfl, rfl⟩
    rfl

theorem kept_functionPointer {params : List InnerParameter} :
    Records (pointerParam x (pointers (.function base (readTypes params)) (inner + 1)))
      (adjust (pointers (.function (pointers base n) (innerTypes params)) (inner + 1))) ↔
        n = 0 ∧ (∀ p ∈ params, p.Kept) ∧ VoidKept params := by
  rw [pointers_succ (.function (pointers base n) (innerTypes params))]
  change Records _
    (pointers (.function (pointers base n) (innerTypes params)) inner).typePointer ↔ _
  rw [records_pointerParam, ← pointers_succ, pointers_inj, ← readTypes_eq_iff]
  constructor
  · intro same
    injection same with returns types
    exact ⟨pointers_eq_self.mp returns.symm, types⟩
  · rintro ⟨rfl, types⟩
    rw [types]
    rfl

theorem kept_functionPointer_array {params : List InnerParameter} {length : Nat} :
    ¬Records (pointerParam x (pointers (.function base (readTypes params)) (inner + 1)))
      (adjust ((pointers (.function (pointers base n) (innerTypes params)) (inner + 1)).typeArray
        length)) := by
  change ¬Records _
    (pointers (.function (pointers base n) (innerTypes params)) (inner + 1)).typePointer
  rw [records_pointerParam, ← pointers_succ]
  intro same
  have depths := congrArg depth same
  rw [depth_pointers, depth_pointers] at depths
  change depth base + 1 + _ = depth (pointers base n) + 1 + _ at depths
  rw [depth_pointers] at depths
  omega

theorem length_eq_zero : ss.length = 0 ↔ ss = [] := List.length_eq_zero_iff

theorem kept_name (proper : properScalar base = true) (stop : Stops rest)
    (accepted : parameterDeclarator base (spellStars ss ++ nameToken x :: rest) = .ok (p, us)) :
    Records p (adjust (pointers base ss.length)) ↔ ss ≠ [] ∨ keptNamed base = true := by
  rw [parameter_named (.inl rfl)] at accepted
  obtain ⟨d, ts, parsed, rfl⟩ := namedParameter_ok accepted
  rw [parse_name stop] at parsed
  cases parsed
  have plain : Records (declaredParam base { name := x, pointerCount := 0 + ss.length })
      (adjust (pointers base (0 + ss.length))) ↔ 0 + ss.length ≠ 0 ∨ keptNamed base = true :=
    kept_named_plain proper ⟨rfl, rfl, rfl, rfl⟩
  rw [Nat.zero_add, Ne, length_eq_zero] at plain
  rw [Nat.zero_add]
  exact plain

theorem kept_nameArray {first : Option Nat} {later : List Nat} {ts : Tokens}
    (accepted : parameterDeclarator base
      (spellStars ss ++ nameToken x :: tok .lbracket :: ts) = .ok (p, us)) :
    Records p (adjust (buildArrayTypeFromDims (pointers base ss.length)
      (first.getD 0 :: later))) ↔ ss = [] ∧ later = [] := by
  rw [parameter_named (.inl rfl)] at accepted
  obtain ⟨d, _, parsed, rfl⟩ := namedParameter_ok accepted
  obtain ⟨hasSize, length, dims, rfl⟩ := parse_nameArray parsed
  rw [← length_eq_zero, Nat.zero_add]
  exact kept_array_named

theorem kept_nameFunction {list : FunctionParameters} {ts : Tokens}
    (accepted : parameterDeclarator base
      (spellStars ss ++ nameToken x :: tok .lparen :: ts) = .ok (p, us)) :
    Records p (adjust (.function (pointers base ss.length) list.types)) ↔
      ss = [] ∧ list.types = [] := by
  rw [parameter_named (.inl rfl)] at accepted
  obtain ⟨d, _, parsed, rfl⟩ := namedParameter_ok accepted
  rw [parse_nameFunction] at parsed
  cases parsed
  rw [← length_eq_zero]
  exact kept_function

theorem kept_paren (proper : properScalar base = true) (stop : Stops rest)
    (accepted : parameterDeclarator base
      (spellStars ss ++ (spellParen inner x (spellInnerArray array) ++ rest)) = .ok (p, us)) :
    Records p (adjust ((Written.paren ss inner x array).type base)) ↔
      (Written.paren ss inner x array).Kept base := by
  rw [parameter_named (.inr rfl)] at accepted
  obtain ⟨d, ts, parsed, rfl⟩ := namedParameter_ok accepted
  obtain ⟨hasSize, length, suffix⟩ := parse_paren parsed
  rw [outer_stops stop suffix]
  have count : 0 + inner + ss.length = ss.length + inner := by omega
  cases array with
  | none =>
    have plain : Records (declaredParam base
        { name := x, hasSize := hasSize, arrayLength := length
          pointerCount := 0 + inner + ss.length })
        (adjust (pointers base (0 + inner + ss.length))) ↔
          0 + inner + ss.length ≠ 0 ∨ keptNamed base = true :=
      kept_named_plain proper ⟨rfl, rfl, rfl, rfl⟩
    change Records _ (adjust (pointers base (ss.length + inner))) ↔
      (ss ≠ [] ∨ inner ≠ 0) ∨ keptNamed base = true
    rw [← count]
    refine plain.trans (or_congr_left ?_)
    rw [Ne, Ne, ← length_eq_zero]
    omega
  | some bound =>
    have one : Records (declaredParam base
        { name := x, isArray := true, hasSize := hasSize, arrayLength := length
          pointerCount := 0 + inner + ss.length })
        (adjust (buildArrayTypeFromDims (pointers base (0 + inner + ss.length))
          [bound.getD 0])) ↔ 0 + inner + ss.length = 0 ∧ [] = [] := kept_array_named
    change Records _ (adjust ((pointers base (ss.length + inner)).typeArray (bound.getD 0))) ↔
      ss = [] ∧ inner = 0
    rw [← count]
    refine one.trans ?_
    rw [← length_eq_zero]
    constructor
    · rintro ⟨zero, _⟩
      omega
    · rintro ⟨stars, none⟩
      exact ⟨by omega, rfl⟩

theorem kept_parenArray {bound : Option Nat} (accepted : parameterDeclarator base
      (spellStars ss ++ (spellParen inner x (spellInnerArray array) ++
        (spellBound bound ++ rest))) = .ok (p, us)) :
    Records p (adjust ((Written.parenArray ss inner x array bound).type base)) ↔
      (Written.parenArray ss inner x array bound).Kept base := by
  rw [parameter_named (.inr rfl)] at accepted
  obtain ⟨d, ts, parsed, rfl⟩ := namedParameter_ok accepted
  obtain ⟨hasSize, length, suffix⟩ := parse_paren parsed
  obtain ⟨known, rfl⟩ := outer_bound suffix
  have levels : declaredParam base
      { name := x, isArray := array.isSome, hasSize := hasSize, arrayLength := length
        isPtrToArray := true, pointerCount := 0 + inner + ss.length
        ptrToArrayLength := bound.getD 0, ptrToArrayHasSize := known } =
      pointerParam x (pointers (base.typeArray (bound.getD 0))
        (if inner + ss.length > 0 then inner + ss.length else 1)) := by
    rw [Nat.zero_add]
    rfl
  rw [levels]
  cases array with
  | none =>
    refine kept_parenArray_pointer.trans ?_
    rw [length_eq_zero]
    rfl
  | some size =>
    change Records _ (adjust ((pointers ((pointers base ss.length).typeArray (bound.getD 0))
      inner).typeArray (size.getD 0))) ↔ ss = [] ∧ inner = 0
    rw [kept_parenArray_array, length_eq_zero]

theorem kept_parenFunction {list : FunctionParameters} {ts : Tokens}
    (accepted : parameterDeclarator base
      (spellStars ss ++ (spellParen 0 x [] ++ tok .lparen :: ts)) = .ok (p, us)) :
    Records p (adjust (.function (pointers base ss.length) list.types)) ↔
      ss = [] ∧ list.types = [] := by
  rw [parameter_named (.inr rfl)] at accepted
  obtain ⟨d, _, parsed, rfl⟩ := namedParameter_ok accepted
  have plain : parseDeclarator (spellParen 0 x (spellInnerArray none) ++ tok .lparen :: ts) =
      .ok (d, _) := parsed
  obtain ⟨hasSize, length, suffix⟩ := parse_paren plain
  rw [outer_function suffix, ← length_eq_zero]
  exact kept_function

theorem kept_functionPointer_spelled {params : List InnerParameter} (accepted : parameterDeclarator
      base (spellStars ss ++ (spellParen (inner + 1) x (spellInnerArray array) ++
        (inParens (spellInnerParameters params) ++ rest))) = .ok (p, us)) :
    Records p (adjust ((Written.functionPointer ss inner x array params).type base)) ↔
      (Written.functionPointer ss inner x array params).Kept base := by
  rw [parameter_named (.inr rfl)] at accepted
  obtain ⟨d, ts, parsed, rfl⟩ := namedParameter_ok accepted
  obtain ⟨hasSize, length, suffix⟩ := parse_paren parsed
  rw [outer_functionPointer suffix]
  cases array with
  | none =>
    refine kept_functionPointer.trans ?_
    rw [length_eq_zero]
    change _ ↔ ss = [] ∧ none = none ∧ _
    simp
  | some size =>
    refine iff_of_false kept_functionPointer_array ?_
    rintro ⟨_, none, _⟩
    cases none

/-- Without its flags a declarator adds its stars and one pointer at most. -/
theorem depth_fullType {d : ParsedDeclarator} {t : CType} (plain : d.isFuncPointer = false ∧
      d.isFunction = false ∧ d.isPtrToArray = false ∧ d.isArray = false)
    (full : (declaredParam base { d with pointerCount := d.pointerCount + n }).fullType = some t) :
    depth t ≤ depth base + (d.pointerCount + n) + 1 := by
  obtain ⟨fp, f, pa, a⟩ := plain
  simp only [declaredParam, fp, f, pa, a, Bool.false_eq_true, if_false] at full
  split at full
  · cases full
    rw [depth_pointers]
    omega
  · split at full
    · cases full
      change depth (arrayElement base) + 1 ≤ _
      cases base <;> simp only [arrayElement, depth] <;> omega
    · split at full
      · cases full
        omega
      · cases full

theorem kept_returnsFunctionPointer {own params : List InnerParameter} {suffix : Tokens}
    (accepted : parameterDeclarator base
      (spellStars ss ++ (spellParen (inner + 1) x (tok .lparen :: suffix) ++ rest)) = .ok (p, us)) :
    ¬Records p (adjust ((Written.returnsFunctionPointer ss inner x own params).type base)) := by
  rw [parameter_named (.inr rfl)] at accepted
  obtain ⟨d, ts, parsed, rfl⟩ := namedParameter_ok accepted
  obtain ⟨fp, f, pa, a, zero⟩ := parse_returnsFunctionPointer parsed
  change ¬Records _ (CType.function (pointers (.function (pointers base ss.length)
    (innerTypes params)) (inner + 1)) (innerTypes own)).typePointer
  rintro ⟨_, full⟩
  have bound := depth_fullType ⟨fp, f, pa, a⟩ full
  change depth (pointers _ (inner + 1)) + 1 + 1 ≤ _ at bound
  rw [depth_pointers] at bound
  change depth (pointers base ss.length) + 1 + _ + 1 + 1 ≤ _ at bound
  rw [depth_pointers, zero] at bound
  omega

/-- Behind its specifier, a parameter has the adjusted type of its declarator exactly where the
declarator is kept. -/
theorem parameterDeclarator_iff (w : Written) (proper : properScalar base = true)
    (stop : Stops rest) (accepted : parameterDeclarator base (w.spell ++ rest) = .ok (p, us)) :
    Records p (adjust (w.type base)) ↔ w.Kept base := by
  cases w with
  | absent => exact kept_absent stop proper accepted
  | pointer first more => exact iff_of_true (kept_pointer stop accepted) trivial
  | brackets first more => exact kept_brackets accepted
  | name ss x =>
    rw [Written.spell, List.append_assoc] at accepted
    exact kept_name proper stop accepted
  | nameArray ss x first later =>
    rw [Written.spell, List.append_assoc] at accepted
    exact kept_nameArray accepted
  | nameFunction ss x list =>
    rw [Written.spell, List.append_assoc] at accepted
    exact kept_nameFunction accepted
  | paren ss inner x array =>
    rw [Written.spell, List.append_assoc] at accepted
    exact kept_paren proper stop accepted
  | parenArray ss inner x array bound =>
    rw [Written.spell, List.append_assoc, List.append_assoc] at accepted
    exact kept_parenArray accepted
  | parenFunction ss x list =>
    rw [Written.spell, List.append_assoc, List.append_assoc] at accepted
    exact kept_parenFunction accepted
  | functionPointer ss inner x array params =>
    rw [Written.spell, List.append_assoc, List.append_assoc] at accepted
    exact kept_functionPointer_spelled accepted
  | returnsFunctionPointer ss inner x own params =>
    rw [Written.spell, List.append_assoc, List.append_assoc] at accepted
    exact iff_of_false (kept_returnsFunctionPointer accepted) id

/-- No declarator starts with a qualifier. -/
theorem current_spell (w : Written) (stop : Stops rest) :
    isQualifier (current (w.spell ++ rest)) = false := by
  have stars (ss : List Qualifiers) (ts : Tokens) (start : isQualifier (current ts) = false) :
      isQualifier (current (spellStars ss ++ ts)) = false := by
    cases ss with
    | nil => exact start
    | cons q ss => rfl
  cases w with
  | absent => rcases stop with same | same <;> exact same ▸ rfl
  | pointer first more => rfl
  | brackets first more => rfl
  | _ =>
    simp only [Written.spell, List.append_assoc]
    exact stars _ _ rfl

/-- The type of a written parameter. -/
def WrittenParameter.type (w : WrittenParameter) : CType := w.declarator.type w.specifier.type

def WrittenParameter.Kept (w : WrittenParameter) : Prop := w.declarator.Kept w.specifier.type

theorem written_iff (w : WrittenParameter) (stop : Stops rest)
    (accepted : parseParameterDeclaration (w.spell ++ rest) = .ok (p, us)) :
    Records p (adjust w.type) ↔ w.Kept := by
  have leading : skipLeading (w.spell ++ rest) =
      w.specifier.token :: (w.trailing.tokens ++ (w.declarator.spell ++ rest)) := by
    have front : isQualifier w.specifier.token.type = false ∧ w.specifier.token.type ≠ .register :=
      ⟨w.specifier.not_qualifier, w.specifier.current_ne rfl⟩
    rw [WrittenParameter.spell]
    cases w.leading with
    | none =>
      simp [skipLeading, front]
    | some t =>
      have skipped : (isQualifier t.val.type || decide (t.val.type = .register)) = true := by
        rcases t.property with q | r
        · rw [q]
          rfl
        · simp [r]
      simp [skipLeading, skipped]
  rw [parseParameterDeclaration, leading, parseTypeSpecifier_cons] at accepted
  change parameterDeclarator _ (skipQualifiers _) = _ at accepted
  rw [skipQualifiers_append, skipQualifiers_of_not (current_spell _ stop)] at accepted
  exact parameterDeclarator_iff w.declarator w.specifier.proper stop accepted

theorem sameType_of_records {q : Param} {t : CType} (left : Records p t) (right : Records q t) :
    SameType p q := by
  intro u
  cases t with
  | scalar kind isSigned isConst =>
    obtain ⟨kind₁, full₁, sign₁⟩ := left
    obtain ⟨kind₂, full₂, sign₂⟩ := right
    cases u with
    | scalar k s c =>
      simp only [Records, kind₁, full₁, kind₂, full₂, true_and]
      refine and_congr_right ?_
      rintro rfl
      refine forall_congr' fun matters => ?_
      rw [sign₁ matters, sign₂ matters]
    | _ => simp [Records, full₁, full₂]
  | pointer base isConst =>
    obtain ⟨kind₁, full₁⟩ := left
    obtain ⟨kind₂, full₂⟩ := right
    cases u <;> simp [Records, kind₁, full₁, kind₂, full₂]
  | record isUnion tag copy layout isConst =>
    obtain ⟨kind₁, full₁⟩ := left
    obtain ⟨kind₂, full₂⟩ := right
    cases u <;> simp [Records, kind₁, full₁, kind₂, full₂]
  | array base n c => exact left.elim
  | function r ps => exact left.elim

/-- A parameter has the type of its declarator, arrays and functions adjusted to pointers, and so
the same type as another form of the declarator, exactly where both forms are kept. -/
theorem parameter_type_iff {q : Param} {rest' us' : Tokens} (w w' : WrittenParameter)
    (stop : Stops rest) (stop' : Stops rest')
    (accepted : parseParameterDeclaration (w.spell ++ rest) = .ok (p, us))
    (accepted' : parseParameterDeclaration (w'.spell ++ rest') = .ok (q, us'))
    (same : w'.type = w.type) :
    Records p (adjust w.type) ∧ SameType p q ↔ w.Kept ∧ w'.Kept := by
  have here := written_iff w stop accepted
  have there := written_iff w' stop' accepted'
  rw [same] at there
  constructor
  · rintro ⟨kept, types⟩
    exact ⟨here.mp kept, there.mp ((types _).mp kept)⟩
  · rintro ⟨kept, kept'⟩
    have right := here.mpr kept
    exact ⟨right, sameType_of_records right (there.mpr kept')⟩

end Forms

def intToken : DeclToken := { type := .int, text := "int", specifier := some .typeInt }

theorem intToken_void : intToken.type = .void → CType.typeInt = .typeVoid := by
  intro same
  cases same

theorem none_qualifies : ∀ t ∈ ([] : Tokens), isQualifier t.type = true := by
  intro t none
  cases none

def intSpecifier : Specifier where
  token := intToken
  type := .typeInt
  proper := rfl
  reads := rfl
  starts := rfl
  void := intToken_void

def noQualifiers : Qualifiers := ⟨[], none_qualifies⟩

def intParameter (w : Written) : WrittenParameter := ⟨none, intSpecifier, noQualifiers, w⟩

/-- `int *p` and `int *` -/
theorem pointer_parameters :
    Records (pointerParam "p" (.typePointer .typeInt)) (.typePointer .typeInt) ∧
      SameType (pointerParam "p" (.typePointer .typeInt))
        (pointerParam "" (.typePointer .typeInt)) ↔
    (intParameter (.name [noQualifiers] "p")).Kept ∧
      (intParameter (.pointer noQualifiers [])).Kept :=
  have named : parseParameterDeclaration ((intParameter (.name [noQualifiers] "p")).spell ++
      [tok .rparen]) = .ok (pointerParam "p" (.typePointer .typeInt), [tok .rparen]) := rfl
  have unnamed : parseParameterDeclaration ((intParameter (.pointer noQualifiers [])).spell ++
      [tok .comma]) = .ok (pointerParam "" (.typePointer .typeInt), [tok .comma]) := rfl
  parameter_type_iff (intParameter (.name [noQualifiers] "p"))
    (intParameter (.pointer noQualifiers [])) (.inr rfl) (.inl rfl) named unnamed rfl

/-- `int *a[3]` and `int *(*f)()` -/
theorem stars_win :
    (∃ p us, parseParameterDeclaration ((intParameter (.nameArray [noQualifiers] "a" (some 3)
        [])).spell ++ [tok .rparen]) = .ok (p, us) ∧
      p.fullType = some (.typePointer .typeInt) ∧
      ¬Records p (adjust (intParameter (.nameArray [noQualifiers] "a" (some 3) [])).type)) ∧
    ∃ p us, parseParameterDeclaration ((intParameter (.functionPointer [noQualifiers] 0 "f" none
        [])).spell ++ [tok .rparen]) = .ok (p, us) ∧
      p.fullType = some (.typePointer (.function .typeInt [])) ∧
      ¬Records p (adjust (intParameter (.functionPointer [noQualifiers] 0 "f" none [])).type) := by
  refine ⟨⟨_, _, rfl, rfl, ?_⟩, _, _, rfl, rfl, ?_⟩
  · rintro ⟨_, full⟩
    cases full
  · rintro ⟨_, full⟩
    cases full

end ClaudeC99.Declarators
