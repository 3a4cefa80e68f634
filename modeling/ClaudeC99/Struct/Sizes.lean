import ClaudeC99.Struct.Layout
import ClaudeC99.Struct.TypeSpecs

/-! The sizes of types, as C adds and multiplies them and as the parser does in `int`. -/

namespace ClaudeC99.Struct

open BitLayout (Request Cursor)
open Front (ParsedDeclarator pointers arrayDimension buildArrayTypeFromDims)

/-! ### Sizes in `int` -/

/-- `type_array` multiplies two `int`s, of which one holds the bound. -/
theorem typeSize_typeArray (t : CType) (n : Nat) :
    typeSize (t.typeArray n) = wrap32 (typeSize t * wrap32 n) := by
  have product : BitVec.ofInt 32 (typeSize t * wrap32 n) =
      BitVec.ofInt 32 t.size * BitVec.ofInt 32 n := by
    rw [BitVec.ofInt_mul, typeSize, wrap32, wrap32, BitVec.ofInt_toInt, BitVec.ofInt_toInt]
  rw [wrap32, product, ← BitVec.ofInt_mul]
  simp [typeSize, wrap32, CType.typeArray, CType.size]

theorem layoutOf_size (size alignment : Nat) : (layoutOf size alignment).size = size := by
  unfold layoutOf
  split <;> rfl

theorem typeSize_recordType (isUnion : Bool) (S : StructType) :
    typeSize (recordType isUnion S) = wrap32 S.size := by
  have low : ((S.size % 2 ^ 32).toNat : Int) = S.size % 2 ^ 32 := by omega
  have size : ((recordType isUnion S).size : Int) = S.size % 2 ^ 32 := by
    rw [← low]
    exact congrArg Int.ofNat (layoutOf_size _ _)
  rw [typeSize, size, wrap32, wrap32, BitVec.toInt_ofInt, BitVec.toInt_ofInt]
  exact Int.emod_bmod S.size (2 ^ 32)

/-! ### Sizes without bounds -/

theorem align_pos (n : Nat) : 0 < max 1 n := Nat.lt_of_lt_of_le Nat.one_pos (Nat.le_max_left 1 n)

namespace Declared

/-- A bit-field has a type as large as its alignment, and no more bits than that. -/
def Legal : Declared → Prop
  | (decl, .unnamed width) =>
    width ≠ 0 → decl.base.alignment = decl.base.size ∧ width ≤ 8 * unitSize decl.base
  | (decl, .bitField _ width) =>
    decl.base.alignment = decl.base.size ∧ width ≤ 8 * unitSize decl.base
  | (_, .member _ _) => True

instance : DecidablePred Legal
  | (_, .unnamed _) => inferInstanceAs (Decidable (_ → _ ∧ _))
  | (_, .bitField _ _) => inferInstanceAs (Decidable (_ ∧ _))
  | (_, .member _ _) => inferInstanceAs (Decidable True)

def IsFlexible : Declared → Prop
  | (_, .member d _) => d.isArray = true ∧ ¬ d.hasSize = true
  | _ => False

instance : DecidablePred IsFlexible
  | (_, .unnamed _) => inferInstanceAs (Decidable False)
  | (_, .bitField _ _) => inferInstanceAs (Decidable False)
  | (_, .member _ _) => inferInstanceAs (Decidable (_ ∧ _))

/-- What a declarator asks for in a struct. The elements of a flexible array take no room and are
aligned like the base type. -/
def sizeRequest (p : Declared) : Request :=
  if p.IsFlexible then .bytes 0 (max 1 p.1.base.alignment) (align_pos _)
  else p.request

/-- The room of a member of a union. -/
def unionSize : Declared → Nat
  | (decl, .member d copy) => max 1 (memberType decl d copy).size
  | _ => 0

def unionAlign : Declared → Nat
  | (decl, .member d copy) => max 1 (memberType decl d copy).alignment
  | _ => 1

end Declared

def structAlign (members : List MemberDeclaration) : Nat :=
  ((declared members).map fun p => p.sizeRequest.align).foldl max 1

def structTotal (members : List MemberDeclaration) : Nat :=
  Bump.roundUp (BitLayout.run .start ((declared members).map Declared.sizeRequest)).stop
    (structAlign members)

def unionAlign (members : List MemberDeclaration) : Nat :=
  ((declared members).map Declared.unionAlign).foldl max 1

def unionTotal (members : List MemberDeclaration) : Nat :=
  Bump.roundUp (((declared members).map Declared.unionSize).foldl max 0) (unionAlign members)

/-- An empty struct takes a byte. -/
def idealRecord (isUnion : Bool) (members : List MemberDeclaration) : CType :=
  let layout :=
    if isUnion then layoutOf (max 1 (unionTotal members)) (unionAlign members)
    else layoutOf (max 1 (structTotal members)) (structAlign members)
  .record isUnion 0 0 (some layout) false

def MemberSpec.ideal : MemberSpec → MemberDeclarator
  | .unnamed width => .unnamed width
  | .bitField name width => .bitField { name } width
  | .object name pointerCount => .member { name, pointerCount } 0
  | .array name pointerCount bounds =>
    .member { name, pointerCount, isArray := true, hasSize := true,
              arrayDims := bounds.map Int.toNat } 0
  | .flexible name pointerCount => .member { name, pointerCount, isArray := true } 0

mutual

/-- The type with its size in unbounded numbers, none where a bit-field is not legal. -/
def TypeSpec.ideal : TypeSpec → Option CType
  | .scalar kind isSigned => some (.scalar kind isSigned false)
  | .function => some (.function .typeVoid [])
  | .incomplete isUnion => some (.record isUnion 0 0 none false)
  | .declared base pointerCount bounds =>
    base.ideal.map fun t => buildArrayTypeFromDims (pointers t pointerCount) (bounds.map Int.toNat)
  | .record isUnion members =>
    members.ideal.bind fun declarations =>
      if ∀ p ∈ declared declarations, p.Legal then some (idealRecord isUnion declarations) else none

def MemberSpecs.ideal : MemberSpecs → Option (List MemberDeclaration)
  | .nil => some []
  | .cons isConst isVolatile base declarators rest =>
    base.ideal.bind fun base => rest.ideal.map fun rest =>
      { isConst, isVolatile, base, declarators := declarators.map MemberSpec.ideal } :: rest

end

/-- The types that a declarator makes of the base type. -/
def MemberSpec.types (base : TypeSpec) : MemberSpec → List TypeSpec
  | .unnamed _ | .bitField _ _ => []
  | .object _ pointerCount | .flexible _ pointerCount => [.declared base pointerCount []]
  | .array _ pointerCount bounds => bounds.tails.map (TypeSpec.declared base pointerCount)

mutual

/-- The types that are made for a type: of all rows of an array, and of all members. -/
def TypeSpec.parts : TypeSpec → List TypeSpec
  | .scalar kind isSigned => [.scalar kind isSigned]
  | .function => [.function]
  | .incomplete isUnion => [.incomplete isUnion]
  | .declared base pointerCount bounds =>
    bounds.tails.map (TypeSpec.declared base pointerCount) ++ base.parts
  | .record isUnion members => .record isUnion members :: members.parts

def MemberSpecs.parts : MemberSpecs → List TypeSpec
  | .nil => []
  | .cons _ _ base declarators rest =>
    declarators.flatMap (MemberSpec.types base) ++ (base.parts ++ rest.parts)

end

namespace TypeSpec

def bounds : TypeSpec → List Int
  | .declared _ _ bounds => bounds
  | _ => []

/-- The size as a number without bound. -/
def mathSize (e : TypeSpec) : Option Nat := e.ideal.map CType.size

/-- The `int` that holds a bound is the bound, and the one that holds the size is the size. -/
structure Exact (e : TypeSpec) : Prop where
  bounds : ∀ b ∈ e.bounds, wrap32 b = b
  size : ∀ t, e.parse = .ok t → ∀ n ∈ e.mathSize, typeSize t = n

/-- The bounds and the size are at most `INT_MAX`. -/
structure Fits (e : TypeSpec) : Prop where
  bounds : ∀ b ∈ e.bounds, b < 2 ^ 31
  size : ∀ n ∈ e.mathSize, n < 2 ^ 31

theorem fits_iff {e : TypeSpec} :
    e.Fits ↔ (∀ b ∈ e.bounds, b < 2 ^ 31) ∧ ∀ n ∈ e.mathSize, n < 2 ^ 31 :=
  ⟨fun fits => ⟨fits.bounds, fits.size⟩, fun both => ⟨both.1, both.2⟩⟩

instance : DecidablePred Fits := fun _ => decidable_of_iff _ fits_iff.symm

end TypeSpec

/-! ### Structs -/

/-- What a declarator does to the room taken so far. -/
structure Grows (p : Declared) (s : LayoutState) (c : Cursor) (s' : LayoutState) : Prop where
  tracks : Tracks s' (c.next p.sizeRequest)
  maxAlign : s'.maxAlign = max s.maxAlign p.sizeRequest.align

section Structs

variable {p : Declared} {s s' : LayoutState} {c : Cursor} {members : List MemberDeclaration}

theorem sizeRequest_align_mem (legal : p.Legal) : p.sizeRequest.align ∈ [1, 2, 4, 8] := by
  obtain ⟨decl, declarator⟩ := p
  cases declarator with
  | unnamed width => exact request_align_mem (p := (decl, .unnamed width)) legal
  | bitField d width => exact request_align_mem (p := (decl, .bitField d width)) legal
  | member d copy =>
    unfold Declared.sizeRequest
    split
    · exact objectAlign_mem _
    · exact objectAlign_mem _

theorem flexible_grows {decl : MemberDeclaration} {d : ParsedDeclarator} {elem : CType}
    (tracks : Tracks s c) (fits : c.stop + max 1 decl.base.alignment ≤ 2 ^ 31)
    (accepted : flexibleArray decl d elem s.closeUnit = .ok s') :
    s'.currentOffset = Bump.roundUp c.stop (max 1 decl.base.alignment) ∧ s'.bfUnitOffset < 0 ∧
      s'.maxAlign = max s.maxAlign (max 1 decl.base.alignment : Nat) := by
  have place : (s.closeUnit.alignTo (max 1 decl.base.alignment : Nat)).currentOffset =
      Bump.roundUp c.stop (max 1 decl.base.alignment) :=
    offset_alignTo tracks.offset (objectAlign_mem decl.base) fits
  unfold flexibleArray at accepted
  split at accepted
  · cases accepted
  · dsimp only at accepted
    rw [typeAlignment_max] at accepted
    cases accepted
    exact ⟨place, by simp [LayoutState.push, LayoutState.alignTo, LayoutState.closeUnit],
      maxAlign_alignTo _ _⟩

theorem declare_grows (tracks : Tracks s c) (legal : p.Legal) (aligns : 1 ≤ s.maxAlign)
    (fits : c.stop + p.sizeRequest.align ≤ 2 ^ 31) (small : (c.next p.sizeRequest).stop < 2 ^ 31)
    (accepted : declare p.1 s p.2 = .ok s') : Grows p s c s' := by
  obtain ⟨decl, declarator⟩ := p
  by_cases flexible : Declared.IsFlexible (decl, declarator)
  · have request : Declared.sizeRequest (decl, declarator) =
        .bytes 0 (max 1 decl.base.alignment) (align_pos _) := if_pos flexible
    rw [request] at fits
    cases declarator with
    | unnamed width => exact flexible.elim
    | bitField d width => exact flexible.elim
    | member d copy =>
      obtain ⟨isArray, unsized⟩ := flexible
      simp only [declare, regularMember, isArray, unsized, ↓reduceIte] at accepted
      obtain ⟨offset, closed, maxAlign⟩ := flexible_grows tracks fits accepted
      constructor
      · rw [request]
        refine ⟨?_, fun _ => closed, ?_⟩
        · simpa [Cursor.next] using offset
        · intro u opened
          simp [Cursor.next] at opened
      · rw [request]
        exact maxAlign
  · have inRange : Declared.InRange (decl, declarator) := by
      cases declarator with
      | unnamed width => exact legal
      | bitField d width => exact legal
      | member d copy =>
        intro isArray unsized
        exact absurd ⟨isArray, unsized⟩ flexible
    have same : Declared.sizeRequest (decl, declarator) = Declared.request (decl, declarator) :=
      if_neg flexible
    rw [same] at fits small
    have advances := declare_advances tracks inRange aligns fits small accepted
    constructor
    · rw [same]
      exact advances.tracks
    · rw [same]
      exact advances.maxAlign

theorem run_grows {ps : List Declared} (tracks : Tracks s c) (legal : ∀ p ∈ ps, p.Legal)
    (aligns : 1 ≤ s.maxAlign)
    (fits : ∀ p ∈ ps,
      (BitLayout.run c (ps.map Declared.sizeRequest)).stop + p.sizeRequest.align ≤ 2 ^ 31)
    (small : (BitLayout.run c (ps.map Declared.sizeRequest)).stop < 2 ^ 31)
    (accepted : ps.foldlM (fun s p => declare p.1 s p.2) s = .ok s') :
    Tracks s' (BitLayout.run c (ps.map Declared.sizeRequest)) ∧
      s'.maxAlign = (ps.map fun p => (p.sizeRequest.align : Int)).foldl max s.maxAlign := by
  induction ps generalizing s c with
  | nil =>
    cases accepted
    exact ⟨tracks, rfl⟩
  | cons p ps ih =>
    obtain ⟨t, first, rest⟩ := StateExcept.bind_eq_ok.mp accepted
    rw [List.map_cons, BitLayout.run] at fits small
    have below : (c.next p.sizeRequest).stop ≤
        (BitLayout.run (c.next p.sizeRequest) (ps.map Declared.sizeRequest)).stop :=
      BitLayout.stop_le_run
    have own := fits p List.mem_cons_self
    have grows := c.stop_le_next p.sizeRequest
    have step : Grows p s c t :=
      declare_grows tracks (legal p List.mem_cons_self) aligns (by omega) (by omega) first
    have maxAlign := step.maxAlign
    obtain ⟨later, aligned⟩ :=
      ih step.tracks (fun q member => legal q (List.mem_cons_of_mem p member)) (by omega)
        (fun q member => fits q (List.mem_cons_of_mem p member)) small rest
    refine ⟨later, ?_⟩
    rw [aligned, maxAlign]
    rfl

theorem structAlign_spec (legal : ∀ p ∈ declared members, p.Legal) :
    structAlign members ∈ [1, 2, 4, 8] ∧
      ∀ p ∈ declared members, p.sizeRequest.align ≤ structAlign members := by
  have powers : ∀ a ∈ (declared members).map fun p => p.sizeRequest.align, a ∈ [1, 2, 4, 8] := by
    intro a member
    obtain ⟨p, inside, rfl⟩ := List.mem_map.mp member
    exact sizeRequest_align_mem (legal p inside)
  obtain ⟨power, -, most⟩ := foldl_max_mem (n := 1) (by decide) powers
  exact ⟨power, fun p member => most _ (List.mem_map.mpr ⟨p, member, rfl⟩)⟩

theorem struct_result {S : StructType} (legal : ∀ p ∈ declared members, p.Legal)
    (small : structTotal members < 2 ^ 31) (parsed : parseStructSpecifier members = .ok S) :
    S.size = (max 1 (structTotal members) : Nat) ∧ S.alignment = structAlign members := by
  obtain ⟨s, run, result⟩ := StateExcept.bind_eq_ok.mp parsed
  cases result
  obtain ⟨power, most⟩ := structAlign_spec legal
  have fits := two_pow_of_roundUp power small
  obtain ⟨tracks, aligned⟩ := run_grows tracks_start legal (by decide)
    (fun p member => Nat.le_trans (Nat.add_le_add_left (most p member) _) fits)
    (by simp only [List.mem_cons, List.not_mem_nil, or_false] at power; omega)
    (declareAll_flat run)
  have maxAlign : s.maxAlign = (structAlign members : Int) := by
    have cast := foldl_max_cast ((declared members).map fun p => p.sizeRequest.align) 1
    rw [List.map_map] at cast
    exact aligned.trans cast
  have total : alignUp s.currentOffset s.maxAlign = (structTotal members : Int) := by
    rw [tracks.offset, maxAlign]
    exact alignUp_eq power fits
  refine ⟨?_, maxAlign⟩
  simp only [LayoutState.result, total]
  split <;> omega

end Structs

/-! ### Unions -/

section Unions

variable {p : Declared} {s s' : UnionState} {members : List MemberDeclaration}

theorem unionField_grows {decl : MemberDeclaration} {d : ParsedDeclarator} {t : CType}
    (small : max 1 t.size < 2 ^ 31) (accepted : unionField decl d t s = .ok s') :
    s'.maxSize = max s.maxSize (max 1 t.size : Nat) ∧
      s'.maxAlign = max s.maxAlign (max 1 t.alignment : Nat) := by
  have size : (if typeSize t < 1 then 1 else typeSize t) = ((max 1 t.size : Nat) : Int) := by
    unfold typeSize
    rw [wrap32_of_fits (by omega) (by omega)]
    split <;> omega
  unfold unionField at accepted
  split at accepted
  · cases accepted
  · dsimp only at accepted
    rw [typeAlignment_max, size] at accepted
    cases accepted
    dsimp only
    constructor
    · split <;> omega
    · split <;> omega

theorem unionMember_grows (small : p.unionSize < 2 ^ 31)
    (accepted : unionMember p.1 s p.2 = .ok s') :
    s'.maxSize = max s.maxSize p.unionSize ∧ s'.maxAlign = max s.maxAlign p.unionAlign := by
  obtain ⟨decl, declarator⟩ := p
  cases declarator with
  | unnamed width => cases accepted
  | bitField d width => cases accepted
  | member d copy =>
    have field : unionField decl d (memberType decl d copy) s = .ok s' := by
      unfold memberType
      simp only [unionMember] at accepted
      split at accepted
      · rename_i isArray
        split at accepted
        · cases accepted
        · rename_i sized
          simpa [isArray, not_not.mp sized] using accepted
      · rename_i isArray
        simpa [isArray] using accepted
    exact unionField_grows small field

theorem run_union {ps : List Declared} (small : ∀ p ∈ ps, p.unionSize < 2 ^ 31)
    (accepted : ps.foldlM (fun s p => unionMember p.1 s p.2) s = .ok s') :
    s'.maxSize = (ps.map fun p => (p.unionSize : Int)).foldl max s.maxSize ∧
      s'.maxAlign = (ps.map fun p => (p.unionAlign : Int)).foldl max s.maxAlign := by
  induction ps generalizing s with
  | nil =>
    cases accepted
    exact ⟨rfl, rfl⟩
  | cons p ps ih =>
    obtain ⟨t, first, rest⟩ := StateExcept.bind_eq_ok.mp accepted
    obtain ⟨size, align⟩ := unionMember_grows (small p List.mem_cons_self) first
    obtain ⟨sizes, aligns⟩ := ih (fun q member => small q (List.mem_cons_of_mem p member)) rest
    rw [sizes, aligns, size, align]
    exact ⟨rfl, rfl⟩

theorem unionMembers_flat (accepted : members.foldlM unionMembers s = .ok s') :
    (declared members).foldlM (fun s p => unionMember p.1 s p.2) s = .ok s' := by
  refine foldlM_declared (fun {s t decl} first => ?_) accepted
  unfold unionMembers at first
  split at first
  · rename_i none
    rw [none]
    split at first
    · exact first
    · cases first
  · exact first

theorem le_foldl_max (l : List Nat) (n : Nat) : n ≤ l.foldl max n ∧ ∀ a ∈ l, a ≤ l.foldl max n := by
  induction l generalizing n with
  | nil => exact ⟨Nat.le_refl n, by simp⟩
  | cons a l ih =>
    obtain ⟨start, rest⟩ := ih (max n a)
    refine ⟨Nat.le_trans (Nat.le_max_left n a) start, ?_⟩
    intro b member
    rcases List.mem_cons.mp member with rfl | member
    · exact Nat.le_trans (Nat.le_max_right n b) start
    · exact rest b member

theorem unionAlign_mem : unionAlign members ∈ [1, 2, 4, 8] := by
  refine (foldl_max_mem (by decide) ?_).1
  intro a member
  obtain ⟨⟨decl, declarator⟩, -, rfl⟩ := List.mem_map.mp member
  cases declarator with
  | unnamed width => simp [Declared.unionAlign]
  | bitField d width => simp [Declared.unionAlign]
  | member d copy => exact objectAlign_mem _

theorem union_result {S : StructType} (small : unionTotal members < 2 ^ 31)
    (parsed : parseUnionSpecifier members = .ok S) :
    S.size = (max 1 (unionTotal members) : Nat) ∧ S.alignment = unionAlign members := by
  obtain ⟨s, run, result⟩ := StateExcept.bind_eq_ok.mp parsed
  cases result
  have fits := two_pow_of_roundUp unionAlign_mem small
  have bounds := le_foldl_max ((declared members).map Declared.unionSize) 0
  have pos : 0 < unionAlign members := by
    have mem : unionAlign members ∈ [1, 2, 4, 8] := unionAlign_mem
    simp only [List.mem_cons, List.not_mem_nil, or_false] at mem
    omega
  obtain ⟨sizes, aligns⟩ := run_union (fun p member => by
    have le := bounds.2 _ (List.mem_map.mpr ⟨p, member, rfl⟩)
    omega) (unionMembers_flat run)
  have size : s.maxSize = (((declared members).map Declared.unionSize).foldl max 0 : Nat) := by
    have cast := foldl_max_cast ((declared members).map Declared.unionSize) 0
    rw [List.map_map] at cast
    exact sizes.trans cast
  have align : s.maxAlign = (unionAlign members : Nat) := by
    have cast := foldl_max_cast ((declared members).map Declared.unionAlign) 1
    rw [List.map_map] at cast
    exact aligns.trans cast
  have total : alignUp s.maxSize s.maxAlign = (unionTotal members : Int) := by
    rw [size, align]
    exact alignUp_eq unionAlign_mem fits
  refine ⟨?_, align⟩
  simp only [UnionState.result, total]
  split <;> omega

end Unions

/-! ### Types in types -/

theorem mapM_eq_map {α β : Type} {f : α → Except String β} {g : α → β}
    (each : ∀ {a b}, f a = .ok b → b = g a) {l : List α} {m : List β}
    (accepted : l.mapM f = .ok m) : m = l.map g := by
  induction l generalizing m with
  | nil =>
    cases accepted
    rfl
  | cons a l ih =>
    rw [List.mapM_cons] at accepted
    obtain ⟨b, first, rest⟩ := StateExcept.bind_eq_ok.mp accepted
    obtain ⟨bs, others, result⟩ := StateExcept.bind_eq_ok.mp rest
    cases result
    rw [each first, ih others]
    rfl

theorem arrayBounds_eq {bounds : List Int} {dims : List Nat}
    (accepted : arrayBounds bounds = .ok dims) : dims = bounds.map Int.toNat := by
  unfold arrayBounds at accepted
  split at accepted
  · cases accepted
  · refine mapM_eq_map (fun {b n} first => ?_) accepted
    unfold arrayDimension at first
    split at first
    · cases first
    · cases first
      rfl

theorem parse_memberSpec {m : MemberSpec} {declarator : MemberDeclarator}
    (accepted : m.parse = .ok declarator) : declarator = m.ideal := by
  cases m with
  | array name pointerCount bounds =>
    obtain ⟨dims, read, result⟩ := StateExcept.bind_eq_ok.mp accepted
    cases result
    rw [arrayBounds_eq read]
    rfl
  | unnamed width | bitField name width | object name n | flexible name n =>
    cases accepted
    rfl

theorem recordType_eq {isUnion : Bool} {members : List MemberDeclaration} {S : StructType}
    (legal : ∀ p ∈ declared members, p.Legal) (small : (idealRecord isUnion members).size < 2 ^ 31)
    (parsed : parseRecord isUnion members = .ok S) :
    recordType isUnion S = idealRecord isUnion members := by
  have whole {total : Nat} (below : total < 2 ^ 31) : ((total : Int) % 2 ^ 32).toNat = total := by
    omega
  cases isUnion with
  | true =>
    have below : max 1 (unionTotal members) < 2 ^ 31 := by
      simpa [idealRecord, CType.size, layoutOf_size] using small
    obtain ⟨size, align⟩ := union_result (by omega) parsed
    simp only [recordType, idealRecord, size, align, whole below, Int.toNat_natCast, if_true]
  | false =>
    have below : max 1 (structTotal members) < 2 ^ 31 := by
      simpa [idealRecord, CType.size, layoutOf_size] using small
    obtain ⟨size, align⟩ := struct_result legal (by omega) parsed
    simp only [recordType, idealRecord, size, align, whole below, Int.toNat_natCast,
      Bool.false_eq_true, if_false]

mutual

/-- Where everything fits, the type that is built is the one in unbounded numbers. -/
theorem parse_ideal : ∀ (e : TypeSpec) {t t' : CType}, e.parse = .ok t → e.ideal = some t' →
    (∀ part ∈ e.parts, part.Fits) → t = t'
  | .scalar kind isSigned, t, t', parsed, ideal, _ => by
    cases parsed
    exact Option.some.inj ideal
  | .function, t, t', parsed, ideal, _ => by
    cases parsed
    exact Option.some.inj ideal
  | .incomplete isUnion, t, t', parsed, ideal, _ => by
    cases parsed
    exact Option.some.inj ideal
  | .declared base pointerCount bounds, t, t', parsed, ideal, fits => by
    rw [TypeSpec.parse] at parsed
    rw [TypeSpec.ideal] at ideal
    obtain ⟨element, inner, rest⟩ := StateExcept.bind_eq_ok.mp parsed
    obtain ⟨dims, read, result⟩ := StateExcept.bind_eq_ok.mp rest
    obtain ⟨element', inner', result'⟩ := Option.map_eq_some_iff.mp ideal
    cases result
    rw [TypeSpec.parts, List.forall_mem_append] at fits
    rw [← result', arrayBounds_eq read, parse_ideal base inner inner' fits.2]
  | .record isUnion members, t, t', parsed, ideal, fits => by
    rw [TypeSpec.parts, List.forall_mem_cons] at fits
    have own := fits.1.size
    rw [TypeSpec.mathSize, ideal] at own
    rw [TypeSpec.parse] at parsed
    rw [TypeSpec.ideal] at ideal
    obtain ⟨declarations, inner, rest⟩ := StateExcept.bind_eq_ok.mp parsed
    obtain ⟨S, layout, result⟩ := StateExcept.bind_eq_ok.mp rest
    obtain ⟨declarations', inner', result'⟩ := Option.bind_eq_some_iff.mp ideal
    have same := parse_members_ideal members inner inner' fits.2
    rw [← same] at result'
    split at result'
    · rename_i legal
      cases result
      cases result'
      exact recordType_eq legal (own _ rfl) layout
    · cases result'

theorem parse_members_ideal : ∀ (members : MemberSpecs) {ms ms' : List MemberDeclaration},
    members.parse = .ok ms → members.ideal = some ms' → (∀ part ∈ members.parts, part.Fits) →
    ms = ms'
  | .nil, ms, ms', parsed, ideal, _ => by
    cases parsed
    exact Option.some.inj ideal
  | .cons isConst isVolatile base declarators rest, ms, ms', parsed, ideal, fits => by
    rw [MemberSpecs.parse] at parsed
    rw [MemberSpecs.ideal] at ideal
    rw [MemberSpecs.parts, List.forall_mem_append, List.forall_mem_append] at fits
    obtain ⟨t, first, parsed⟩ := StateExcept.bind_eq_ok.mp parsed
    obtain ⟨ds, names, parsed⟩ := StateExcept.bind_eq_ok.mp parsed
    obtain ⟨others, later, result⟩ := StateExcept.bind_eq_ok.mp parsed
    obtain ⟨t', first', ideal⟩ := Option.bind_eq_some_iff.mp ideal
    obtain ⟨others', later', result'⟩ := Option.map_eq_some_iff.mp ideal
    cases result
    rw [← result', parse_ideal base first first' fits.2.1,
      parse_members_ideal rest later later' fits.2.2, mapM_eq_map parse_memberSpec names]

end

/-! ### All types of a definition -/

theorem mapM_accepted {α β : Type} {f : α → Except String β} {l : List α} :
    (∃ m, l.mapM f = .ok m) ↔ ∀ a ∈ l, ∃ b, f a = .ok b := by
  induction l with
  | nil => simp [pure, Except.pure]
  | cons a l ih =>
    rw [List.mapM_cons, List.forall_mem_cons, ← ih]
    constructor
    · intro accepted
      obtain ⟨m, accepted⟩ := accepted
      obtain ⟨b, first, rest⟩ := StateExcept.bind_eq_ok.mp accepted
      obtain ⟨bs, others, -⟩ := StateExcept.bind_eq_ok.mp rest
      exact ⟨⟨b, first⟩, bs, others⟩
    · intro both
      obtain ⟨⟨b, first⟩, bs, others⟩ := both
      exact ⟨b :: bs, StateExcept.bind_eq_ok.mpr
        ⟨b, first, StateExcept.bind_eq_ok.mpr ⟨bs, others, rfl⟩⟩⟩

theorem arrayBounds_accepted {bounds : List Int} :
    (∃ dims, arrayBounds bounds = .ok dims) ↔ bounds.length ≤ 8 ∧ ∀ b ∈ bounds, 0 < b := by
  have one (b : Int) : (∃ n, arrayDimension b = .ok n) ↔ 0 < b := by
    unfold arrayDimension
    split
    · simp
      omega
    · simp
      omega
  unfold arrayBounds
  rw [Front.maxArrayDims]
  split
  · simp
    omega
  · rename_i few
    rw [mapM_accepted]
    simp only [one]
    exact (and_iff_right (Nat.not_lt.mp few)).symm

theorem declared_accepted {base : TypeSpec} {n : Nat} {bounds : List Int} :
    (∃ t, (TypeSpec.declared base n bounds).parse = .ok t) ↔
      (∃ t, base.parse = .ok t) ∧ bounds.length ≤ 8 ∧ ∀ b ∈ bounds, 0 < b := by
  rw [← arrayBounds_accepted]
  simp only [TypeSpec.parse, StateExcept.bind_eq_ok]
  constructor
  · intro accepted
    obtain ⟨_, t, first, dims, read, -⟩ := accepted
    exact ⟨⟨t, first⟩, dims, read⟩
  · intro both
    obtain ⟨⟨t, first⟩, dims, read⟩ := both
    exact ⟨_, t, first, dims, read, rfl⟩

/-- The rows of an array are accepted with it. -/
theorem suffix_accepted {base : TypeSpec} {n : Nat} {bounds bs : List Int} (suffix : bs <:+ bounds)
    (accepted : ∃ t, (TypeSpec.declared base n bounds).parse = .ok t) :
    ∃ t, (TypeSpec.declared base n bs).parse = .ok t := by
  rw [declared_accepted] at accepted ⊢
  obtain ⟨inner, few, positive⟩ := accepted
  exact ⟨inner, Nat.le_trans suffix.length_le few, fun b mem => positive b (suffix.subset mem)⟩

theorem types_accepted {m : MemberSpec} {base : TypeSpec} (inner : ∃ t, base.parse = .ok t)
    (accepted : ∃ declarator, m.parse = .ok declarator) :
    ∀ part ∈ m.types base, ∃ t, part.parse = .ok t := by
  have plain (n : Nat) : ∃ t, (TypeSpec.declared base n []).parse = .ok t :=
    declared_accepted.mpr ⟨inner, by simp, by simp⟩
  cases m with
  | unnamed width => simp [MemberSpec.types]
  | bitField name width => simp [MemberSpec.types]
  | object name n => simpa [MemberSpec.types] using plain n
  | flexible name n => simpa [MemberSpec.types] using plain n
  | array name n bounds =>
    obtain ⟨_, accepted⟩ := accepted
    obtain ⟨dims, read, -⟩ := StateExcept.bind_eq_ok.mp accepted
    have whole : ∃ t, (TypeSpec.declared base n bounds).parse = .ok t :=
      declared_accepted.mpr ⟨inner, arrayBounds_accepted.mp ⟨dims, read⟩⟩
    intro part mem
    obtain ⟨bs, suffix, rfl⟩ := List.mem_map.mp mem
    exact suffix_accepted ((List.mem_tails _ _).mp suffix) whole

mutual

theorem parts_accepted : ∀ e : TypeSpec, (∃ t, e.parse = .ok t) →
    ∀ part ∈ e.parts, ∃ t, part.parse = .ok t
  | .scalar kind isSigned, accepted => by simpa [TypeSpec.parts] using accepted
  | .function, accepted => by simpa [TypeSpec.parts] using accepted
  | .incomplete isUnion, accepted => by simpa [TypeSpec.parts] using accepted
  | .declared base n bounds, accepted => by
    rw [TypeSpec.parts, List.forall_mem_append]
    constructor
    · intro part mem
      obtain ⟨bs, suffix, rfl⟩ := List.mem_map.mp mem
      exact suffix_accepted ((List.mem_tails _ _).mp suffix) accepted
    · exact parts_accepted base (declared_accepted.mp accepted).1
  | .record isUnion members, accepted => by
    rw [TypeSpec.parts, List.forall_mem_cons]
    refine ⟨accepted, ?_⟩
    obtain ⟨_, accepted⟩ := accepted
    rw [TypeSpec.parse] at accepted
    obtain ⟨ms, inner, -⟩ := StateExcept.bind_eq_ok.mp accepted
    exact members_accepted members ⟨ms, inner⟩

theorem members_accepted : ∀ members : MemberSpecs, (∃ ms, members.parse = .ok ms) →
    ∀ part ∈ members.parts, ∃ t, part.parse = .ok t
  | .nil, _ => by simp [MemberSpecs.parts]
  | .cons isConst isVolatile base declarators rest, accepted => by
    obtain ⟨_, accepted⟩ := accepted
    rw [MemberSpecs.parse] at accepted
    obtain ⟨t, first, accepted⟩ := StateExcept.bind_eq_ok.mp accepted
    obtain ⟨ds, names, accepted⟩ := StateExcept.bind_eq_ok.mp accepted
    obtain ⟨others, later, -⟩ := StateExcept.bind_eq_ok.mp accepted
    rw [MemberSpecs.parts, List.forall_mem_append, List.forall_mem_append]
    refine ⟨?_, parts_accepted base ⟨t, first⟩, members_accepted rest ⟨others, later⟩⟩
    intro part mem
    obtain ⟨m, inside, mem⟩ := List.mem_flatMap.mp mem
    exact types_accepted ⟨t, first⟩ (mapM_accepted.mp ⟨ds, names⟩ m inside) part mem

end

/-- A type made by a declarator has all its rows among those types. -/
theorem types_closed {m : MemberSpec} {base part : TypeSpec} (mem : part ∈ m.types base) :
    ∀ inner ∈ part.parts, inner ∈ m.types base ∨ inner ∈ base.parts := by
  have rows {n : Nat} {bs : List Int} (same : part = .declared base n bs)
      (all : ∀ bs', bs' <:+ bs → TypeSpec.declared base n bs' ∈ m.types base) :
      ∀ inner ∈ part.parts, inner ∈ m.types base ∨ inner ∈ base.parts := by
    rw [same, TypeSpec.parts, List.forall_mem_append]
    refine ⟨?_, fun inner mem => .inr mem⟩
    intro inner mem
    obtain ⟨bs', suffix, rfl⟩ := List.mem_map.mp mem
    exact .inl (all bs' ((List.mem_tails _ _).mp suffix))
  cases m with
  | unnamed width => simp [MemberSpec.types] at mem
  | bitField name width => simp [MemberSpec.types] at mem
  | object name n =>
    have same : part = .declared base n [] := by simpa [MemberSpec.types] using mem
    refine rows same fun bs' suffix => ?_
    rw [List.suffix_nil.mp suffix]
    simp [MemberSpec.types]
  | flexible name n =>
    have same : part = .declared base n [] := by simpa [MemberSpec.types] using mem
    refine rows same fun bs' suffix => ?_
    rw [List.suffix_nil.mp suffix]
    simp [MemberSpec.types]
  | array name n bounds =>
    obtain ⟨bs, suffix, same⟩ := List.mem_map.mp mem
    refine rows same.symm fun bs' inner => ?_
    have outer := (List.mem_tails _ _).mp suffix
    exact List.mem_map.mpr ⟨bs', (List.mem_tails _ _).mpr (inner.trans outer), rfl⟩

mutual

theorem parts_closed : ∀ (e : TypeSpec) {part : TypeSpec}, part ∈ e.parts → part.parts ⊆ e.parts
  | .scalar kind isSigned, part, mem => by
    simp only [TypeSpec.parts, List.mem_singleton] at mem
    rw [mem]
    exact List.Subset.refl _
  | .function, part, mem => by
    simp only [TypeSpec.parts, List.mem_singleton] at mem
    rw [mem]
    exact List.Subset.refl _
  | .incomplete isUnion, part, mem => by
    simp only [TypeSpec.parts, List.mem_singleton] at mem
    rw [mem]
    exact List.Subset.refl _
  | .declared base n bounds, part, mem => by
    rw [TypeSpec.parts] at mem ⊢
    rcases List.mem_append.mp mem with row | inner
    · obtain ⟨bs, suffix, rfl⟩ := List.mem_map.mp row
      have rows : bs.tails ⊆ bounds.tails := by
        intro bs' mem
        rw [List.mem_tails] at mem suffix ⊢
        exact mem.trans suffix
      rw [TypeSpec.parts]
      exact List.append_subset.mpr ⟨List.subset_append_of_subset_left _ (List.map_subset _ rows),
        List.subset_append_right _ _⟩
    · exact List.subset_append_of_subset_right _ (parts_closed base inner)
  | .record isUnion members, part, mem => by
    rw [TypeSpec.parts] at mem
    rcases List.mem_cons.mp mem with rfl | inner
    · exact List.Subset.refl _
    · rw [TypeSpec.parts]
      exact List.subset_cons_of_subset _ (members_closed members inner)

theorem members_closed : ∀ (members : MemberSpecs) {part : TypeSpec}, part ∈ members.parts →
    part.parts ⊆ members.parts
  | .nil, part, mem => by simp [MemberSpecs.parts] at mem
  | .cons isConst isVolatile base declarators rest, part, mem => by
    rw [MemberSpecs.parts] at mem ⊢
    rcases List.mem_append.mp mem with own | mem
    · obtain ⟨m, inside, own⟩ := List.mem_flatMap.mp own
      intro inner mem
      rcases types_closed own inner mem with type | type
      · exact List.mem_append_left _ (List.mem_flatMap.mpr ⟨m, inside, type⟩)
      · exact List.mem_append_right _ (List.mem_append_left _ type)
    apply List.subset_append_of_subset_right
    rcases List.mem_append.mp mem with first | later
    · exact List.subset_append_of_subset_left _ (parts_closed base first)
    · exact List.subset_append_of_subset_right _ (members_closed rest later)

end

theorem bounds_positive {e : TypeSpec} (accepted : ∃ t, e.parse = .ok t) :
    ∀ b ∈ e.bounds, 0 < b := by
  cases e with
  | declared base n bounds => exact (declared_accepted.mp accepted).2.2
  | _ => simp [TypeSpec.bounds]

/-- The sizes of a definition are right exactly when its bounds and sizes are at most `INT_MAX`. -/
theorem sizes_exact_iff {e : TypeSpec} {t : CType} (accepted : e.parse = .ok t) :
    (∀ part ∈ e.parts, part.Exact) ↔ ∀ part ∈ e.parts, part.Fits := by
  have built := parts_accepted e ⟨t, accepted⟩
  constructor
  · intro right part mem
    have own := right part mem
    constructor
    · intro b bound
      rw [← own.bounds b bound]
      exact BitVec.toInt_lt
    · intro n size
      obtain ⟨t', parsed⟩ := built part mem
      have stored := own.size t' parsed n size
      have below : typeSize t' < 2 ^ 31 := BitVec.toInt_lt
      omega
  · intro fits part mem
    have own := fits part mem
    constructor
    · intro b bound
      have positive := bounds_positive (built part mem) b bound
      have below := own.bounds b bound
      exact wrap32_of_fits (by omega) below
    · intro t' parsed n size
      have below := own.size n size
      obtain ⟨t'', ideal, rfl⟩ := Option.map_eq_some_iff.mp size
      have inner : ∀ q ∈ part.parts, q.Fits := fun q inside => fits q (parts_closed e mem inside)
      rw [parse_ideal part parsed ideal inner]
      exact wrap32_of_fits (by omega) (by omega)

/-- `struct { char c; int a[3][5]; unsigned b : 3; }` -/
def tableRecord : TypeSpec :=
  .record false
    (.cons false false (.scalar .char true) [.object "c" 0]
      (.cons false false (.scalar .int true) [.array "a" 0 [3, 5]]
        (.cons false false (.scalar .int false) [.bitField "b" 3] .nil)))

theorem tableRecord_exact :
    ∃ t, tableRecord.parse = .ok t ∧ typeSize t = 68 ∧ ∀ part ∈ tableRecord.parts, part.Exact :=
  ⟨_, rfl, by decide +kernel, (sizes_exact_iff rfl).mpr (by decide +kernel)⟩

/-- `char a[4294967297];` is an array of one `char`. -/
theorem wide_bound_wraps :
    ¬ ∀ (e : TypeSpec) (t : CType), e.parse = .ok t → ∀ part ∈ e.parts, part.Exact := by
  intro claim
  have whole := claim (.declared (.scalar .char true) 0 [4294967297]) _ rfl
    (.declared (.scalar .char true) 0 [4294967297]) (by simp [TypeSpec.parts])
  have kept := whole.bounds 4294967297 (by simp [TypeSpec.bounds])
  exact absurd kept (by decide)

end ClaudeC99.Struct
