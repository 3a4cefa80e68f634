import ClaudeC99.Lib.BitLayout
import ClaudeC99.Lib.StateExcept
import ClaudeC99.Struct.Members
import Mathlib.Data.List.Forall2

/-! The layout of an accepted member list is that of `BitLayout`, where the widths of bit-fields
are in range and the size of the struct is an `int`. -/

namespace ClaudeC99.Struct

open BitLayout (Request Cursor slots)
open Front (ParsedDeclarator pointers buildArrayTypeFromDims)

/-- A declarator with the declaration it stands in. -/
abbrev Declared := MemberDeclaration × MemberDeclarator

def declared (members : List MemberDeclaration) : List Declared :=
  members.flatMap fun decl => decl.declarators.map fun m => (decl, m)

inductive Member
  | bitField (base : CType) (width : Int)
  | object (type : CType)

def memberType (decl : MemberDeclaration) (d : ParsedDeclarator) (copy : Nat) : CType :=
  let t := pointers (effectiveBase decl d copy) d.pointerCount
  if d.isArray then
    if d.hasSize then buildArrayTypeFromDims t d.arrayDims else t.typeArray 0
  else t

namespace Declared

/-- The named member a declarator declares. -/
def member : Declared → Option Member
  | (_, .unnamed _) => none
  | (decl, .bitField _ width) => some (.bitField decl.base width)
  | (decl, .member d copy) => some (.object (memberType decl d copy))

def align : Declared → Int
  | (decl, .unnamed width) => if width = 0 then 1 else unitAlign decl.base
  | (decl, .bitField _ _) => unitAlign decl.base
  | (decl, .member d copy) => max 1 (typeAlignment (memberType decl d copy))

end Declared

/-- A member with its row of the field table. -/
abbrev Placement := Member × Field

namespace Placement

def first (p : Placement) : Int := 8 * p.2.offset + p.2.bitOffset

def last : Placement → Int
  | (.bitField base width, f) => first (.bitField base width, f) + width
  | (.object t, f) => first (.object t, f) + 8 * t.size

/-- An object is aligned for its type, a bit-field lies in an aligned unit of its type. -/
def Aligned : Placement → Prop
  | (.bitField base width, f) => f.isBitfield = true ∧ unitAlign base ∣ f.offset ∧
      0 ≤ f.bitOffset ∧ f.bitOffset + width ≤ 8 * unitSize base
  | (.object t, f) => f.isBitfield = false ∧ f.bitOffset = 0 ∧ max 1 (typeAlignment t) ∣ f.offset

end Placement

def placements (members : List MemberDeclaration) (S : StructType) : List Placement :=
  ((declared members).filterMap Declared.member).zip S.fields

structure Sound (members : List MemberDeclaration) (S : StructType) : Prop where
  rows : S.fields.length = ((declared members).filterMap Declared.member).length
  disjoint : (placements members S).Pairwise fun a b => a.last ≤ b.first ∨ b.last ≤ a.first
  inside : ∀ p ∈ placements members S, 0 ≤ p.first ∧ p.last ≤ 8 * S.size
  aligned : ∀ p ∈ placements members S, p.Aligned
  alignment : S.alignment = ((declared members).map Declared.align).foldl max 1
  size_multiple : S.alignment ∣ S.size
  ordered : (placements members S).Pairwise fun a b => a.first ≤ b.first

/-! The ideal layout -/

def unitBytes (base : CType) : Nat := if base.size = 0 then 4 else base.size

theorem unitBytes_pos (base : CType) : 0 < unitBytes base := by
  unfold unitBytes
  split <;> omega

def bitRequest (base : CType) (width : Int) : Request :=
  .bits (min width.toNat (8 * unitBytes base)) (unitBytes base) (unitBytes_pos base)
    (Nat.min_le_right _ _)

namespace Declared

def request : Declared → Request
  | (decl, .unnamed width) => if width = 0 then .close else bitRequest decl.base width
  | (decl, .bitField _ width) => bitRequest decl.base width
  | (decl, .member d copy) =>
    let t := memberType decl d copy
    .bytes (if d.isArray ∧ ¬ d.hasSize then 0 else max 1 t.size) (max 1 t.alignment)
      (Nat.lt_of_lt_of_le Nat.one_pos (Nat.le_max_left _ _))

/-- A bit-field is no wider than its unit, whose size is its alignment; the elements of a flexible
array are aligned like the base type. -/
def InRange : Declared → Prop
  | (decl, .unnamed width) =>
    width ≠ 0 → decl.base.alignment = decl.base.size ∧ width ≤ 8 * unitSize decl.base
  | (decl, .bitField _ width) =>
    decl.base.alignment = decl.base.size ∧ width ≤ 8 * unitSize decl.base
  | (decl, .member d _) =>
    d.isArray → ¬ d.hasSize → 0 < d.pointerCount → decl.base.alignment = 8

end Declared

def idealEnd (members : List MemberDeclaration) : Nat :=
  (BitLayout.run .start ((declared members).map Declared.request)).stop

def idealAlign (members : List MemberDeclaration) : Nat :=
  ((declared members).map fun p => p.request.align).foldl max 1

/-- The size of the struct, whether or not it is an `int`. -/
def idealSize (members : List MemberDeclaration) : Nat :=
  Bump.roundUp (idealEnd members) (idealAlign members)

/-! Types and their sizes -/

theorem alignment_mem : ∀ t : CType, t.alignment ∈ [0, 1, 2, 4, 8]
  | .scalar kind _ _ => by cases kind <;> simp [CType.alignment, TypeKind.size]
  | .pointer _ _ | .function _ _ => by simp [CType.alignment]
  | .array base _ _ => alignment_mem base
  | .record _ _ _ none _ => by simp [CType.alignment]
  | .record _ _ _ (some layout) _ => List.mem_cons_of_mem 0 layout.alignment_mem

theorem objectAlign_mem (t : CType) : max 1 t.alignment ∈ [1, 2, 4, 8] := by
  have mem := alignment_mem t
  simp only [List.mem_cons, List.not_mem_nil, or_false] at mem ⊢
  omega

/-- The unit of a bit-field whose base type is as large as its alignment. -/
theorem unit_of_square {base : CType} (square : base.alignment = base.size) :
    unitBytes base ∈ [1, 2, 4, 8] ∧ unitSize base = unitBytes base ∧
      unitAlign base = unitBytes base := by
  have mem := alignment_mem base
  have fits : typeSize base = base.size := by
    refine wrap32_of_fits (by omega) ?_
    simp only [List.mem_cons, List.not_mem_nil, or_false] at mem
    omega
  have size : unitSize base = unitBytes base := by
    unfold unitSize unitBytes
    rw [fits]
    split <;> split <;> omega
  have align : unitAlign base = unitBytes base := by
    unfold unitAlign
    rw [size]
    unfold typeAlignment unitBytes
    split <;> split <;> omega
  refine ⟨?_, size, align⟩
  unfold unitBytes
  rw [← square]
  simp only [List.mem_cons, List.not_mem_nil, or_false] at mem ⊢
  split <;> omega

theorem ldiff_two_pow (m k : Nat) : Nat.ldiff m (2 ^ k - 1) = m / 2 ^ k * 2 ^ k := by
  apply Nat.eq_of_testBit_eq
  intro i
  rw [Nat.testBit_ldiff, Nat.testBit_two_pow_sub_one, Nat.testBit_mul_two_pow,
    Nat.testBit_div_two_pow]
  by_cases low : i < k
  · simp [low]
  · simp [low, Nat.not_lt.mp low]

theorem alignUp_eq {offset align : Nat} (mem : align ∈ [1, 2, 4, 8])
    (fits : offset + align ≤ 2 ^ 31) :
    alignUp offset align = Bump.roundUp offset align := by
  have pos : 0 < align := by
    simp only [List.mem_cons, List.not_mem_nil, or_false] at mem
    omega
  have power : ∃ k, align = 2 ^ k := by
    simp only [List.mem_cons, List.not_mem_nil, or_false] at mem
    rcases mem with rfl | rfl | rfl | rfl
    exacts [⟨0, rfl⟩, ⟨1, rfl⟩, ⟨2, rfl⟩, ⟨3, rfl⟩]
  obtain ⟨k, rfl⟩ := power
  have sum : ((offset : Int) + (2 ^ k : Nat) - 1) = ((offset + 2 ^ k - 1 : Nat) : Int) := by omega
  have mask : ((2 ^ k : Nat) : Int) - 1 = ((2 ^ k - 1 : Nat) : Int) := by omega
  unfold alignUp
  rw [sum, mask, wrap32_of_fits (by omega) (by omega)]
  have cut := ldiff_two_pow (offset + 2 ^ k - 1) k
  exact congrArg Int.ofNat cut

/-! One declarator -/

/-- The state of the loop in an ideal layout. -/
structure Tracks (s : LayoutState) (c : Cursor) : Prop where
  offset : s.currentOffset = c.stop
  closed : c.storage = none → s.bfUnitOffset < 0
  opened : ∀ u, c.storage = some u → s.bfUnitOffset = u.byte ∧ s.bfUnitSize = u.size ∧
    s.bfBitsUsed = u.used ∧ (u.size : Int) ≤ s.maxAlign ∧ u.size ≤ 8

/-- The place of a member in the slot it got. -/
structure Matches (p : Placement) (slot : BitLayout.Slot) : Prop where
  first : p.first = slot.first
  last : p.last ≤ slot.last
  aligned : p.Aligned

def Row (p : Declared) (slot : BitLayout.Slot) (fs : List Field) : Prop :=
  match p.member with
  | none => fs = []
  | some m => ∃ f, fs = [f] ∧ Matches (m, f) slot

structure Advances (p : Declared) (s : LayoutState) (c : Cursor) (s' : LayoutState) : Prop where
  tracks : Tracks s' (c.next p.request)
  maxAlign : s'.maxAlign = max s.maxAlign p.request.align
  rows : ∃ fs, s'.fields = s.fields ++ fs ∧ Row p (c.slot p.request) fs

/-- The field table does not bear on the layout. -/
theorem Tracks.push {s : LayoutState} {c : Cursor} (tracks : Tracks s c) (f : Field) :
    Tracks (s.push f) c :=
  ⟨tracks.offset, tracks.closed, tracks.opened⟩

theorem maxAlign_alignTo (s : LayoutState) (align : Int) :
    (s.alignTo align).maxAlign = max s.maxAlign align := by
  simp only [LayoutState.alignTo]
  split <;> omega

variable {s s' : LayoutState} {c : Cursor} {decl : MemberDeclaration} {d : ParsedDeclarator}

theorem offset_alignTo {stop align : Nat} (offset : s.currentOffset = stop)
    (mem : align ∈ [1, 2, 4, 8]) (fits : stop + align ≤ 2 ^ 31) :
    (s.alignTo align).currentOffset = Bump.roundUp stop align := by
  simp only [LayoutState.alignTo]
  rw [offset, alignUp_eq mem fits]

/-- The unit the loop chooses is the one of the ideal layout. -/
structure InUnit (s s' : LayoutState) (u : BitLayout.Storage) (unit : Nat) : Prop where
  offset : s'.bfUnitOffset = u.byte
  size : s'.bfUnitSize = unit
  used : s'.bfBitsUsed = u.used
  stop : s'.currentOffset = u.byte + unit
  maxAlign : s'.maxAlign = max s.maxAlign unit
  fields : s'.fields = s.fields

theorem makeRoom_inUnit {base : CType} {width : Nat} (tracks : Tracks s c)
    (square : base.alignment = base.size) (narrow : width ≤ 8 * unitBytes base)
    (fits : c.stop + unitBytes base ≤ 2 ^ 31)
    (small : (c.unitFor width (unitBytes base)).byte + unitBytes base < 2 ^ 31) :
    InUnit s (s.makeRoom base width) (c.unitFor width (unitBytes base)) (unitBytes base) := by
  obtain ⟨mem, size, align⟩ := unit_of_square square
  have small8 : unitBytes base ≤ 8 := by
    simp only [List.mem_cons, List.not_mem_nil, or_false] at mem
    omega
  have capacity : wrap32 (unitSize base * 8) = 8 * unitBytes base := by
    rw [size, wrap32_of_fits (by omega) (by omega)]
    omega
  unfold LayoutState.makeRoom
  rw [capacity, size]
  by_cases shared : ∃ u, c.Shares width (unitBytes base) u
  · obtain ⟨u, shares⟩ := shared
    rw [Cursor.unitFor_shared shares]
    obtain ⟨found, sizeEq, room⟩ := shares
    obtain ⟨hoffset, hsize, hused, hmax, -⟩ := tracks.opened u found
    have ends := c.at_end u found
    have inRange : wrap32 (s.bfBitsUsed + width) = (u.used + width : Nat) := by
      rw [hused, wrap32_of_fits (by omega) (by omega)]
      omega
    rw [inRange, if_neg (by omega)]
    exact ⟨hoffset, by omega, hused, by rw [tracks.offset]; omega, by omega, rfl⟩
  · have notShared := not_exists.mp shared
    rw [Cursor.unitFor_new notShared] at small ⊢
    have opens : s.bfUnitOffset < 0 ∨ s.bfUnitSize ≠ (unitBytes base : Int) ∨
        wrap32 (s.bfBitsUsed + width) > ((8 * unitBytes base : Nat) : Int) := by
      cases found : c.storage with
      | none => exact .inl (tracks.closed found)
      | some u =>
        obtain ⟨-, hsize, hused, -, hsmall⟩ := tracks.opened u found
        have usedFits := u.fits
        rw [hsize, hused, wrap32_of_fits (by omega) (by omega)]
        by_contra shares
        exact notShared u ⟨found, by omega, by omega⟩
    rw [if_pos (by simpa using opens)]
    have aligned := offset_alignTo tracks.offset mem fits
    unfold LayoutState.openUnit
    rw [size, align]
    refine ⟨aligned, rfl, rfl, ?_, maxAlign_alignTo _ _, rfl⟩
    simp only at small ⊢
    rw [aligned, wrap32_of_fits (by omega) (by omega)]

theorem bitRequest_of_le {base : CType} {width : Nat} (narrow : width ≤ 8 * unitBytes base) :
    bitRequest base width = .bits width (unitBytes base) (unitBytes_pos base) narrow := by
  unfold bitRequest
  congr
  rw [Int.toNat_natCast]
  exact Nat.min_eq_left narrow

theorem tracks_useBits {base : CType} {width : Nat} {s₁ : LayoutState}
    (square : base.alignment = base.size) (narrow : width ≤ 8 * unitBytes base)
    (inUnit : InUnit s s₁ (c.unitFor width (unitBytes base)) (unitBytes base)) :
    Tracks (s₁.useBits width) (c.next (bitRequest base width)) := by
  obtain ⟨mem, -, -⟩ := unit_of_square square
  have small8 : unitBytes base ≤ 8 := by
    simp only [List.mem_cons, List.not_mem_nil, or_false] at mem
    omega
  have hosts := Cursor.unitFor_hosts (c := c) (unitBytes_pos base) narrow
  have room := hosts.room
  rw [bitRequest_of_le narrow]
  constructor
  · simp only [LayoutState.useBits, Cursor.next]
    rw [inUnit.stop]
    omega
  · intro none
    simp [Cursor.next] at none
  · intro u opened
    simp only [Cursor.next, Option.some.injEq] at opened
    subst opened
    have maxAlign := inUnit.maxAlign
    refine ⟨inUnit.offset, inUnit.size, ?_, ?_, small8⟩
    · simp only [LayoutState.useBits]
      rw [inUnit.used, wrap32_of_fits (by omega) (by omega)]
      omega
    · simp only [LayoutState.useBits]
      omega

theorem closeUnit_tracks {stop : Nat} (offset : s.currentOffset = stop) :
    Tracks s.closeUnit ⟨stop, none, by simp⟩ := by
  refine ⟨offset, fun _ => by simp [LayoutState.closeUnit], ?_⟩
  intro u opened
  simp at opened

theorem unnamedBitField_advances {width : Int} (tracks : Tracks s c)
    (inRange : Declared.InRange (decl, .unnamed width))
    (aligns : 1 ≤ s.maxAlign)
    (fits : c.stop + (Declared.request (decl, .unnamed width)).align ≤ 2 ^ 31)
    (small : (c.next (Declared.request (decl, .unnamed width))).stop < 2 ^ 31)
    (accepted : unnamedBitField decl.base width s = .ok s') :
    Advances (decl, .unnamed width) s c s' := by
  unfold unnamedBitField at accepted
  split at accepted
  · cases accepted
  · rename_i nonneg
    by_cases zero : width = 0
    · subst zero
      cases accepted
      refine ⟨closeUnit_tracks tracks.offset, ?_, [], by simp [LayoutState.closeUnit], rfl⟩
      simp only [Declared.request, if_pos, Request.align, LayoutState.closeUnit]
      omega
    · obtain ⟨square, bound⟩ := inRange zero
      obtain ⟨mem, size, -⟩ := unit_of_square square
      lift width to Nat using by omega
      have narrow : width ≤ 8 * unitBytes decl.base := by omega
      have low : wrap32 width = width := by
        simp only [List.mem_cons, List.not_mem_nil, or_false] at mem
        exact wrap32_of_fits (by omega) (by omega)
      have request : Declared.request (decl, .unnamed width) = bitRequest decl.base width := by
        simp only [Declared.request, if_neg zero]
      rw [request, bitRequest_of_le narrow] at fits small
      rw [low, if_neg zero] at accepted
      cases accepted
      have inUnit := makeRoom_inUnit tracks square narrow fits small
      refine ⟨?_, ?_, [], by simp [LayoutState.useBits, inUnit.fields], rfl⟩
      · rw [request]
        exact tracks_useBits square narrow inUnit
      · rw [request]
        exact inUnit.maxAlign

theorem namedBitField_advances {width : Int} (tracks : Tracks s c)
    (inRange : Declared.InRange (decl, .bitField d width))
    (fits : c.stop + (Declared.request (decl, .bitField d width)).align ≤ 2 ^ 31)
    (small : (c.next (Declared.request (decl, .bitField d width))).stop < 2 ^ 31)
    (accepted : namedBitField decl d width s = .ok s') :
    Advances (decl, .bitField d width) s c s' := by
  obtain ⟨square, bound⟩ := inRange
  obtain ⟨mem, size, align⟩ := unit_of_square square
  unfold namedBitField at accepted
  split at accepted
  · cases accepted
  · rename_i positive
    lift width to Nat using by omega
    have narrow : width ≤ 8 * unitBytes decl.base := by omega
    have low : wrap32 width = width := by
      simp only [List.mem_cons, List.not_mem_nil, or_false] at mem
      exact wrap32_of_fits (by omega) (by omega)
    have request : Declared.request (decl, .bitField d width) = bitRequest decl.base width := rfl
    rw [request, bitRequest_of_le narrow] at fits small
    rw [low] at accepted
    have inUnit := makeRoom_inUnit tracks square narrow fits small
    have hosts := Cursor.unitFor_hosts (c := c) (unitBytes_pos decl.base) narrow
    have aligned := (c.unitFor width (unitBytes decl.base)).aligned
    have room := hosts.room
    dsimp only at accepted
    split at accepted
    · cases accepted
    · cases accepted
      refine ⟨?_, ?_, _, congrArg (· ++ _) inUnit.fields, _, rfl, ?_⟩
      · rw [request]
        exact (tracks_useBits square narrow inUnit).push _
      · rw [request]
        exact inUnit.maxAlign
      · rw [request, bitRequest_of_le narrow]
        constructor
        · simp only [Placement.first, Cursor.slot, BitLayout.Slot.first]
          rw [inUnit.offset, inUnit.used]
          omega
        · simp only [Placement.last, Placement.first, Cursor.slot, BitLayout.Slot.last, BitLayout.Slot.first]
          rw [inUnit.offset, inUnit.used]
          omega
        · simp only [Placement.Aligned]
          rw [inUnit.offset, inUnit.used, align, size]
          rw [hosts.size] at aligned
          exact ⟨trivial, Int.natCast_dvd_natCast.mpr aligned, by omega, by omega⟩

theorem alignment_pointers (t : CType) (n : Nat) :
    (pointers t n).alignment = if n = 0 then t.alignment else 8 := by
  induction n generalizing t with
  | zero => rfl
  | succ n ih =>
    rw [pointers, ih]
    split <;> rfl

theorem flexible_align {copy : Nat} (inRange : Declared.InRange (decl, .member d copy))
    (isArray : d.isArray = true) (unsized : d.hasSize = false) :
    (memberType decl d copy).alignment = decl.base.alignment := by
  have elements := inRange isArray (by simp [unsized])
  have flexible : memberType decl d copy =
      (pointers (effectiveBase decl d copy) d.pointerCount).typeArray 0 := by
    simp [memberType, isArray, unsized]
  rw [flexible]
  change (pointers _ _).alignment = _
  rw [alignment_pointers]
  split
  · rename_i plain
    simp [effectiveBase, plain]
  · exact (elements (by omega)).symm

/-- An object of `size` bytes, which closes the open unit. -/
theorem object_advances {copy : Nat} {f : Field} (size : Nat)
    (request : Declared.request (decl, .member d copy) =
      .bytes size (max 1 (memberType decl d copy).alignment)
        (Nat.lt_of_lt_of_le Nat.one_pos (Nat.le_max_left _ _)))
    (large : (memberType decl d copy).size ≤ size)
    (plain : f.isBitfield = false) (bit : f.bitOffset = 0)
    (place : f.offset = Bump.roundUp c.stop (max 1 (memberType decl d copy).alignment))
    (stop : s'.currentOffset = f.offset + size) (closed : s'.bfUnitOffset < 0)
    (maxAlign : s'.maxAlign = max s.maxAlign (max 1 (memberType decl d copy).alignment : Nat))
    (fields : s'.fields = s.fields ++ [f]) :
    Advances (decl, .member d copy) s c s' := by
  constructor
  · rw [request]
    refine ⟨?_, fun _ => closed, ?_⟩
    · rw [stop, place]
      simp only [Cursor.next]
      omega
    · intro u opened
      simp [Cursor.next] at opened
  · rw [request]
    exact maxAlign
  · refine ⟨[f], fields, f, rfl, ?_⟩
    rw [request]
    constructor
    · simp only [Placement.first, Cursor.slot, BitLayout.Slot.first]
      omega
    · simp only [Placement.last, Placement.first, Cursor.slot, BitLayout.Slot.last, BitLayout.Slot.first]
      omega
    · have aligned := Bump.dvd_roundUp c.stop (max 1 (memberType decl d copy).alignment)
      refine ⟨plain, bit, ?_⟩
      have cast : max 1 (typeAlignment (memberType decl d copy)) =
          ((max 1 (memberType decl d copy).alignment : Nat) : Int) := by
        unfold typeAlignment
        omega
      rw [cast, place]
      exact Int.natCast_dvd_natCast.mpr aligned

theorem typeAlignment_max (t : CType) :
    (if typeAlignment t < 1 then 1 else typeAlignment t) = ((max 1 t.alignment : Nat) : Int) := by
  unfold typeAlignment
  split <;> omega

theorem flexibleArray_advances {copy : Nat} (tracks : Tracks s c)
    (inRange : Declared.InRange (decl, .member d copy))
    (isArray : d.isArray = true) (unsized : d.hasSize = false)
    (fits : c.stop + max 1 (memberType decl d copy).alignment ≤ 2 ^ 31)
    (accepted : flexibleArray decl d (pointers (effectiveBase decl d copy) d.pointerCount)
      s.closeUnit = .ok s') :
    Advances (decl, .member d copy) s c s' := by
  have align := flexible_align inRange isArray unsized
  have mem := objectAlign_mem (memberType decl d copy)
  have flexible : memberType decl d copy =
      (pointers (effectiveBase decl d copy) d.pointerCount).typeArray 0 := by
    simp [memberType, isArray, unsized]
  have place : (s.closeUnit.alignTo (max 1 (memberType decl d copy).alignment : Nat)).currentOffset =
      Bump.roundUp c.stop (max 1 (memberType decl d copy).alignment) :=
    offset_alignTo tracks.offset mem fits
  unfold flexibleArray at accepted
  split at accepted
  · cases accepted
  · dsimp only at accepted
    rw [typeAlignment_max, ← align] at accepted
    cases accepted
    refine object_advances 0 ?_ ?_ rfl rfl place ?_ ?_ (maxAlign_alignTo _ _) rfl
    · simp [Declared.request, isArray, unsized]
    · simp [flexible, CType.typeArray, CType.size]
    · simp [LayoutState.push]
    · simp [LayoutState.push, LayoutState.alignTo, LayoutState.closeUnit]

theorem sizedMember_advances {copy : Nat} (tracks : Tracks s c)
    (sized : d.isArray = true → d.hasSize = true)
    (fits : c.stop + max 1 (memberType decl d copy).alignment ≤ 2 ^ 31)
    (small : Bump.roundUp c.stop (max 1 (memberType decl d copy).alignment) +
      max 1 (memberType decl d copy).size < 2 ^ 31)
    (accepted : sizedMember decl d (memberType decl d copy) s.closeUnit = .ok s') :
    Advances (decl, .member d copy) s c s' := by
  have mem := objectAlign_mem (memberType decl d copy)
  have place : (s.closeUnit.alignTo (max 1 (memberType decl d copy).alignment : Nat)).currentOffset =
      Bump.roundUp c.stop (max 1 (memberType decl d copy).alignment) :=
    offset_alignTo tracks.offset mem fits
  have size : (if typeSize (memberType decl d copy) < 1 then 1
      else typeSize (memberType decl d copy)) =
        ((max 1 (memberType decl d copy).size : Nat) : Int) := by
    unfold typeSize
    rw [wrap32_of_fits (by omega) (by omega)]
    split <;> omega
  unfold sizedMember at accepted
  split at accepted
  · cases accepted
  split at accepted
  · cases accepted
  dsimp only at accepted
  rw [typeAlignment_max, size] at accepted
  cases accepted
  refine object_advances (max 1 (memberType decl d copy).size) ?_ ?_ rfl rfl
    place ?_ ?_ (maxAlign_alignTo _ _) rfl
  · have sizes : ¬ (d.isArray = true ∧ ¬ d.hasSize = true) := by
      rintro ⟨isArray, unsized⟩
      exact unsized (sized isArray)
    simp only [Declared.request, if_neg sizes]
  · exact Nat.le_max_right _ _
  · simp only
    rw [place]
    exact wrap32_of_fits (by omega) (by omega)
  · simp [LayoutState.push, LayoutState.alignTo, LayoutState.closeUnit]

theorem regularMember_advances {copy : Nat} (tracks : Tracks s c)
    (inRange : Declared.InRange (decl, .member d copy))
    (fits : c.stop + (Declared.request (decl, .member d copy)).align ≤ 2 ^ 31)
    (small : (c.next (Declared.request (decl, .member d copy))).stop < 2 ^ 31)
    (accepted : regularMember decl d copy s = .ok s') :
    Advances (decl, .member d copy) s c s' := by
  unfold regularMember at accepted
  by_cases flexible : d.isArray = true ∧ ¬ d.hasSize = true
  · obtain ⟨isArray, unsized⟩ := flexible
    simp only [isArray, unsized, ↓reduceIte] at accepted
    exact flexibleArray_advances tracks inRange isArray (by simpa using unsized) fits accepted
  · have sized : d.isArray = true → d.hasSize = true := by
      intro isArray
      by_contra unsized
      exact flexible ⟨isArray, unsized⟩
    have type : sizedMember decl d (memberType decl d copy) s.closeUnit = .ok s' := by
      unfold memberType
      split at accepted
      · rename_i isArray
        simpa [isArray, sized isArray] using accepted
      · rename_i isArray
        simpa [isArray] using accepted
    simp only [Declared.request, if_neg flexible, Cursor.next] at small
    exact sizedMember_advances tracks sized fits small type

variable {p : Declared}

/-- What one declarator does to the layout. -/
theorem declare_advances (tracks : Tracks s c) (inRange : p.InRange) (aligns : 1 ≤ s.maxAlign)
    (fits : c.stop + p.request.align ≤ 2 ^ 31) (small : (c.next p.request).stop < 2 ^ 31)
    (accepted : declare p.1 s p.2 = .ok s') : Advances p s c s' := by
  obtain ⟨decl, declarator⟩ := p
  cases declarator with
  | unnamed width => exact unnamedBitField_advances tracks inRange aligns fits small accepted
  | bitField d width => exact namedBitField_advances tracks inRange fits small accepted
  | member d copy => exact regularMember_advances tracks inRange fits small accepted

theorem bitRequest_stop_pos (base : CType) (width : Int) :
    0 < (c.next (bitRequest base width)).stop := by
  have pos := unitBytes_pos base
  simp only [bitRequest, Cursor.next]
  omega

/-- Nothing is aligned before something takes room. -/
def Started (s : LayoutState) (c : Cursor) : Prop := c.stop = 0 → s.fields = [] ∧ s.maxAlign = 1

theorem declare_started (started : Started s c) (accepted : declare p.1 s p.2 = .ok s') :
    Started s' (c.next p.request) := by
  intro zero
  have before := Nat.le_zero.mp (zero ▸ c.stop_le_next p.request)
  obtain ⟨noFields, aligned⟩ := started before
  obtain ⟨decl, declarator⟩ := p
  cases declarator with
  | unnamed width =>
    by_cases noWidth : width = 0
    · subst noWidth
      cases accepted
      exact ⟨noFields, aligned⟩
    · have pos := bitRequest_stop_pos (c := c) decl.base width
      simp only [Declared.request, if_neg noWidth] at zero
      omega
  | bitField d width =>
    have pos := bitRequest_stop_pos (c := c) decl.base width
    simp only [Declared.request] at zero
    omega
  | member d copy =>
    by_cases flexible : d.isArray = true ∧ ¬ d.hasSize = true
    · obtain ⟨isArray, unsized⟩ := flexible
      simp [declare, regularMember, isArray, unsized, flexibleArray, LayoutState.closeUnit,
        noFields] at accepted
    · simp only [Declared.request, if_neg flexible, Cursor.next] at zero
      omega

/-! The member list -/

inductive Rows : List Declared → List BitLayout.Slot → List Field → Prop
  | nil : Rows [] [] []
  | cons {p : Declared} {slot : BitLayout.Slot} {ps : List Declared} {ss : List BitLayout.Slot} {fs gs : List Field}
      (row : Row p slot fs) (rest : Rows ps ss gs) : Rows (p :: ps) (slot :: ss) (fs ++ gs)

structure AdvancesAll (ps : List Declared) (s : LayoutState) (c : Cursor) (s' : LayoutState) :
    Prop where
  tracks : Tracks s' (BitLayout.run c (ps.map Declared.request))
  started : Started s' (BitLayout.run c (ps.map Declared.request))
  maxAlign : s'.maxAlign = (ps.map fun p => (p.request.align : Int)).foldl max s.maxAlign
  rows : ∃ fs, s'.fields = s.fields ++ fs ∧ Rows ps (slots c (ps.map Declared.request)) fs

theorem run_advances {ps : List Declared} (tracks : Tracks s c) (started : Started s c)
    (inRange : ∀ p ∈ ps, p.InRange) (aligns : 1 ≤ s.maxAlign)
    (fits : ∀ p ∈ ps, (BitLayout.run c (ps.map Declared.request)).stop + p.request.align ≤ 2 ^ 31)
    (small : (BitLayout.run c (ps.map Declared.request)).stop < 2 ^ 31)
    (accepted : ps.foldlM (fun s p => declare p.1 s p.2) s = .ok s') : AdvancesAll ps s c s' := by
  induction ps generalizing s c with
  | nil =>
    cases accepted
    exact ⟨tracks, started, rfl, [], by simp, .nil⟩
  | cons p ps ih =>
    obtain ⟨t, first, rest⟩ := StateExcept.bind_eq_ok.mp accepted
    rw [List.map_cons, BitLayout.run] at fits small
    have below : (c.next p.request).stop ≤ 
        (BitLayout.run (c.next p.request) (ps.map Declared.request)).stop := BitLayout.stop_le_run
    have own := fits p List.mem_cons_self
    have grows := c.stop_le_next p.request
    have step : Advances p s c t :=
      declare_advances tracks (inRange p List.mem_cons_self) aligns (by omega) (by omega) first
    have maxAlign := step.maxAlign
    have later : AdvancesAll ps t (c.next p.request) s' :=
      ih step.tracks (declare_started started first)
        (fun q member => inRange q (List.mem_cons_of_mem p member)) (by omega)
        (fun q member => fits q (List.mem_cons_of_mem p member)) small rest
    obtain ⟨fs, own, row⟩ := step.rows
    obtain ⟨gs, others, rows⟩ := later.rows
    refine ⟨later.tracks, later.started, ?_, fs ++ gs, ?_, .cons row rows⟩
    · rw [later.maxAlign, maxAlign]
      rfl
    · rw [others, own, List.append_assoc]

/-- Declarations that go through their declarators in turn go through those of the whole list. -/
theorem foldlM_declared {σ : Type} {step : σ → MemberDeclaration → Except String σ}
    {one : MemberDeclaration → σ → MemberDeclarator → Except String σ}
    (inTurn : ∀ {s t decl}, step s decl = .ok t → decl.declarators.foldlM (one decl) s = .ok t)
    {members : List MemberDeclaration} {s s' : σ} (accepted : members.foldlM step s = .ok s') :
    (declared members).foldlM (fun s p => one p.1 s p.2) s = .ok s' := by
  induction members generalizing s with
  | nil => exact accepted
  | cons decl members ih =>
    obtain ⟨t, first, rest⟩ := StateExcept.bind_eq_ok.mp accepted
    have own : (decl.declarators.map fun m => (decl, m)).foldlM
        (fun s p => one p.1 s p.2) s = .ok t := by
      rw [List.foldlM_map]
      exact inTurn first
    rw [declared, List.flatMap_cons, List.foldlM_append, own]
    exact ih rest

theorem declareAll_flat {members : List MemberDeclaration}
    (accepted : members.foldlM declareAll s = .ok s') :
    (declared members).foldlM (fun s p => declare p.1 s p.2) s = .ok s' := by
  refine foldlM_declared (fun {s t decl} first => ?_) accepted
  unfold declareAll at first
  split at first
  · cases first
  split at first
  · rename_i none
    rw [none]
    split at first
    · exact first
    · cases first
  · exact first

/-! Members in their slots -/

theorem Rows.length {ps : List Declared} {ss : List BitLayout.Slot} {fs : List Field}
    (rows : Rows ps ss fs) : fs.length = (ps.filterMap Declared.member).length := by
  induction rows with
  | nil => rfl
  | @cons p slot ps ss fs gs row rest ih =>
    unfold Row at row
    cases named : p.member with
    | none =>
      rw [named] at row
      simp [row, named, ih]
    | some m =>
      rw [named] at row
      obtain ⟨f, rfl, -⟩ := row
      simp [named, ih]

/-- The members of a layout with their rows and slots, one after the other. -/
theorem Row.zip_cases {slot : BitLayout.Slot} {fs : List Field} (row : Row p slot fs) (ps : List Declared)
    (gs : List Field) :
    (((p :: ps).filterMap Declared.member).zip (fs ++ gs) =
        (ps.filterMap Declared.member).zip gs) ∨
      ∃ q, Matches q slot ∧ ((p :: ps).filterMap Declared.member).zip (fs ++ gs) =
        q :: (ps.filterMap Declared.member).zip gs := by
  unfold Row at row
  cases named : p.member with
  | none =>
    rw [named] at row
    left
    simp [row, named]
  | some m =>
    rw [named] at row
    obtain ⟨f, rfl, held⟩ := row
    exact .inr ⟨(m, f), held, by simp [named]⟩

theorem Rows.slot_of {ps : List Declared} {ss : List BitLayout.Slot} {fs : List Field}
    (rows : Rows ps ss fs) :
    ∀ q ∈ (ps.filterMap Declared.member).zip fs, ∃ slot ∈ ss, Matches q slot := by
  induction rows with
  | nil => simp
  | @cons p slot ps ss fs gs row rest ih =>
    intro q member
    rcases row.zip_cases ps gs with same | ⟨m, held, named⟩
    · rw [same] at member
      obtain ⟨slot', inside, matched⟩ := ih q member
      exact ⟨slot', List.mem_cons_of_mem _ inside, matched⟩
    · rw [named] at member
      rcases List.mem_cons.mp member with rfl | member
      · exact ⟨slot, List.mem_cons_self, held⟩
      · obtain ⟨slot', inside, matched⟩ := ih q member
        exact ⟨slot', List.mem_cons_of_mem _ inside, matched⟩

theorem Rows.ordered {ps : List Declared} {ss : List BitLayout.Slot} {fs : List Field}
    (rows : Rows ps ss fs) (slots : ss.Pairwise fun a b => a.last ≤ b.first) :
    ((ps.filterMap Declared.member).zip fs).Pairwise
      fun (a b : Placement) => a.last ≤ b.first ∧ a.first ≤ b.first := by
  induction rows with
  | nil => exact .nil
  | @cons p slot ps ss fs gs row rest ih =>
    obtain ⟨later, others⟩ := List.pairwise_cons.mp slots
    rcases row.zip_cases ps gs with same | ⟨m, held, named⟩
    · rw [same]
      exact ih others
    · rw [named]
      refine .cons ?_ (ih others)
      intro q member
      obtain ⟨slot', inside, matched⟩ := rest.slot_of q member
      have before := later slot' inside
      have width : slot.first ≤ slot.last := Nat.le_add_right _ _
      have start := held.first
      have stop := held.last
      have next := matched.first
      omega

/-! The whole struct -/

theorem align_request (inRange : p.InRange) : p.align = p.request.align := by
  obtain ⟨decl, declarator⟩ := p
  cases declarator with
  | unnamed width =>
    by_cases zero : width = 0
    · simp [Declared.align, Declared.request, zero, Request.align]
    · obtain ⟨square, -⟩ := inRange zero
      simp only [Declared.align, Declared.request, if_neg zero]
      exact (unit_of_square square).2.2
  | bitField d width => exact (unit_of_square inRange.1).2.2
  | member d copy =>
    simp only [Declared.align, Declared.request, Request.align, typeAlignment]
    omega

theorem request_align_mem (inRange : p.InRange) : p.request.align ∈ [1, 2, 4, 8] := by
  obtain ⟨decl, declarator⟩ := p
  cases declarator with
  | unnamed width =>
    by_cases zero : width = 0
    · simp [Declared.request, zero, Request.align]
    · simp only [Declared.request, if_neg zero]
      exact (unit_of_square (inRange zero).1).1
  | bitField d width => exact (unit_of_square inRange.1).1
  | member d copy => exact objectAlign_mem _

theorem foldl_max_mem {l : List Nat} {n : Nat} (mem : n ∈ [1, 2, 4, 8])
    (all : ∀ a ∈ l, a ∈ [1, 2, 4, 8]) :
    l.foldl max n ∈ [1, 2, 4, 8] ∧ n ≤ l.foldl max n ∧ ∀ a ∈ l, a ≤ l.foldl max n := by
  induction l generalizing n with
  | nil => exact ⟨mem, le_rfl, by simp⟩
  | cons a l ih =>
    have first := all a List.mem_cons_self
    have larger : max n a ∈ [1, 2, 4, 8] := by
      rcases max_choice n a with h | h <;> rw [h] <;> assumption
    obtain ⟨power, le, rest⟩ := ih larger fun b member => all b (List.mem_cons_of_mem a member)
    refine ⟨power, (Nat.le_max_left n a).trans le, ?_⟩
    intro b member
    rcases List.mem_cons.mp member with rfl | member
    · exact (Nat.le_max_right n b).trans le
    · exact rest b member

theorem foldl_max_cast (l : List Nat) (n : Nat) :
    (l.map fun a : Nat => (a : Int)).foldl max (n : Int) = (l.foldl max n : Nat) := by
  induction l generalizing n with
  | nil => rfl
  | cons a l ih =>
    have cast : max (n : Int) a = (max n a : Nat) := by omega
    rw [List.map_cons, List.foldl_cons, List.foldl_cons, cast, ih]

theorem two_pow_of_roundUp {n align : Nat} (mem : align ∈ [1, 2, 4, 8])
    (fits : Bump.roundUp n align < 2 ^ 31) : n + align ≤ 2 ^ 31 := by
  obtain ⟨k, whole⟩ := Bump.dvd_roundUp n align
  simp only [List.mem_cons, List.not_mem_nil, or_false] at mem
  have le : n ≤ Bump.roundUp n align := Bump.le_roundUp (by omega)
  rcases mem with rfl | rfl | rfl | rfl <;> omega

theorem tracks_start : Tracks {} .start :=
  ⟨rfl, fun _ => by decide, fun u opened => by simp [Cursor.start] at opened⟩

section

variable {members : List MemberDeclaration} (inRange : ∀ p ∈ declared members, p.InRange)

include inRange

theorem idealAlign_spec : idealAlign members ∈ [1, 2, 4, 8] ∧
    ∀ p ∈ declared members, p.request.align ≤ idealAlign members := by
  have powers : ∀ a ∈ (declared members).map fun p => p.request.align, a ∈ [1, 2, 4, 8] := by
    intro a member
    obtain ⟨p, inside, rfl⟩ := List.mem_map.mp member
    exact request_align_mem (inRange p inside)
  obtain ⟨power, -, most⟩ := foldl_max_mem (n := 1) (by decide) powers
  exact ⟨power, fun p member => most _ (List.mem_map.mpr ⟨p, member, rfl⟩)⟩

theorem declaredAlign_eq :
    ((declared members).map Declared.align).foldl max 1 = (idealAlign members : Int) := by
  have same : (declared members).map Declared.align =
      ((declared members).map fun p => p.request.align).map fun a : Nat => (a : Int) := by
    rw [List.map_map]
    exact List.map_congr_left fun p member => align_request (inRange p member)
  rw [same]
  exact foldl_max_cast _ 1

variable (small : idealSize members < 2 ^ 31)

include small

theorem parse_advances (parsed : members.foldlM declareAll {} = .ok s) :
    AdvancesAll (declared members) {} .start s := by
  obtain ⟨power, most⟩ := idealAlign_spec inRange
  have fits := two_pow_of_roundUp power small
  unfold idealEnd at fits
  refine run_advances tracks_start (fun _ => ⟨rfl, rfl⟩) inRange (by decide) ?_ ?_
    (declareAll_flat parsed)
  · intro p member
    have le := most p member
    omega
  · simp only [List.mem_cons, List.not_mem_nil, or_false] at power
    omega

theorem result_alignment (parsed : members.foldlM declareAll {} = .ok s) :
    s.result.alignment = idealAlign members := by
  have maxAlign := (parse_advances inRange small parsed).maxAlign
  have cast := foldl_max_cast ((declared members).map fun p => p.request.align) 1
  rw [List.map_map] at cast
  exact maxAlign.trans cast

theorem result_size (parsed : members.foldlM declareAll {} = .ok s) :
    s.result.size = if idealSize members = 0 then 1 else (idealSize members : Int) := by
  obtain ⟨power, -⟩ := idealAlign_spec inRange
  have stop : s.currentOffset = (idealEnd members : Int) :=
    (parse_advances inRange small parsed).tracks.offset
  have maxAlign : s.maxAlign = (idealAlign members : Int) := result_alignment inRange small parsed
  have total : alignUp s.currentOffset s.maxAlign = (idealSize members : Int) := by
    rw [stop, maxAlign]
    exact alignUp_eq power (two_pow_of_roundUp power small)
  simp only [LayoutState.result, total]
  norm_cast

theorem size_multiple (parsed : members.foldlM declareAll {} = .ok s) :
    s.result.alignment ∣ s.result.size := by
  rw [result_size inRange small parsed, result_alignment inRange small parsed]
  split
  · rename_i zero
    obtain ⟨power, -⟩ := idealAlign_spec inRange
    have pos : 0 < idealAlign members := by
      simp only [List.mem_cons, List.not_mem_nil, or_false] at power
      omega
    have nothing : idealEnd members = 0 :=
      Nat.le_zero.mp ((Bump.le_roundUp pos).trans_eq zero)
    have one := ((parse_advances inRange small parsed).started nothing).2
    have maxAlign : s.maxAlign = (idealAlign members : Int) :=
      result_alignment inRange small parsed
    rw [← maxAlign, one]
  · exact Int.natCast_dvd_natCast.mpr (Bump.dvd_roundUp _ _)

end

/-- The layout of every accepted member list whose declarators are in range and whose size is an
`int`. -/
theorem layout_sound {members : List MemberDeclaration} {S : StructType}
    (accepted : parseStructSpecifier members = .ok S)
    (inRange : ∀ p ∈ declared members, p.InRange) (small : idealSize members < 2 ^ 31) :
    Sound members S := by
  obtain ⟨s, parsed, result⟩ := StateExcept.bind_eq_ok.mp accepted
  cases result
  obtain ⟨fs, fields, rows⟩ := (parse_advances inRange small parsed).rows
  have table : s.result.fields = fs := fields
  have ordered := rows.ordered BitLayout.slots_ordered
  constructor
  · rw [table]
    exact rows.length
  · rw [placements, table]
    exact ordered.imp fun before => .inl before.1
  · rw [placements, table]
    intro p member
    obtain ⟨slot, inside, matched⟩ := rows.slot_of p member
    have first := matched.first
    have last := matched.last
    have bound : slot.last ≤ 8 * idealEnd members := BitLayout.slots_inside slot inside
    obtain ⟨power, -⟩ := idealAlign_spec inRange
    have le : idealEnd members ≤ idealSize members := by
      refine Bump.le_roundUp ?_
      simp only [List.mem_cons, List.not_mem_nil, or_false] at power
      omega
    rw [result_size inRange small parsed]
    refine ⟨by omega, ?_⟩
    split <;> omega
  · rw [placements, table]
    intro p member
    obtain ⟨slot, -, matched⟩ := rows.slot_of p member
    exact matched.aligned
  · rw [result_alignment inRange small parsed, declaredAlign_eq inRange]
  · exact size_multiple inRange small parsed
  · rw [placements, table]
    exact ordered.imp fun before => before.2

/-- `struct { const char *s; unsigned a : 3, : 0, b : 30; char c, d[3]; }` -/
def sampleMembers : List MemberDeclaration :=
  [{ isConst := true, isVolatile := false, base := .typeChar
     declarators := [.member { name := "s", pointerCount := 1 } 1] },
   { isConst := false, isVolatile := false, base := .typeUnsignedInt
     declarators := [.bitField { name := "a" } 3, .unnamed 0, .bitField { name := "b" } 30] },
   { isConst := false, isVolatile := false, base := .typeChar
     declarators := [.member { name := "c" } 0,
       .member { name := "d", isArray := true, hasSize := true, arrayLength := 3,
                 arrayDims := [3] } 0] }]

theorem sample_layout_sound : ∃ S, parseStructSpecifier sampleMembers = .ok S ∧ S.size = 24 ∧
    Sound sampleMembers S := by
  refine ⟨_, rfl, by decide +kernel, layout_sound rfl ?_ (by decide +kernel)⟩
  simp [declared, sampleMembers, Declared.InRange, CType.typeChar, CType.typeUnsignedInt,
    CType.alignment, CType.size, TypeKind.size, unitSize, typeSize, wrap32]

/-- `struct { char c; char *p[]; }` -/
def flexiblePointers : List MemberDeclaration :=
  [{ isConst := false, isVolatile := false, base := .typeChar
     declarators := [.member { name := "c" } 0] },
   { isConst := false, isVolatile := false, base := .typeChar
     declarators := [.member { name := "p", pointerCount := 1, isArray := true } 0] }]

/-- The pointers of the flexible array lie at offset 1. -/
theorem flexible_pointers_misaligned :
    ¬ ∀ members S, parseStructSpecifier members = .ok S → Sound members S := by
  intro every
  have sound := every flexiblePointers _ rfl
  obtain ⟨-, -, aligned⟩ := sound.aligned _ (List.mem_cons_of_mem _ List.mem_cons_self)
  exact absurd aligned (by decide +kernel)

end ClaudeC99.Struct
