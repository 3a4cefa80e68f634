import ClaudeC99.Struct.Layout

/-! Where the flexible array member of an accepted struct stands. -/

namespace ClaudeC99.Struct

open Front (ParsedDeclarator pointers buildArrayTypeFromDims)

/-- The place of a flexible array in a member list, with the declarators of its own declaration
before and after it. -/
structure FlexiblePlace where
  membersBefore : List MemberDeclaration
  decl : MemberDeclaration
  declaratorsBefore : List MemberDeclarator
  d : ParsedDeclarator
  copy : Nat
  declaratorsAfter : List MemberDeclarator
  membersAfter : List MemberDeclaration
  list : decl.declarators = declaratorsBefore ++ .member d copy :: declaratorsAfter
  flexible : d.isArray = true ∧ d.hasSize = false

namespace FlexiblePlace

variable (at_ : FlexiblePlace)

def members : List MemberDeclaration := at_.membersBefore ++ at_.decl :: at_.membersAfter

/-- The declarators before the flexible array. -/
def before : List Declared :=
  declared at_.membersBefore ++ at_.declaratorsBefore.map fun m => (at_.decl, m)

/-- The layout reached before the flexible array. -/
def reached : Except String LayoutState :=
  at_.before.foldlM (fun s p => declare p.1 s p.2) {}

def element : CType := pointers (effectiveBase at_.decl at_.d at_.copy) at_.d.pointerCount

def elementAlign : Nat := max 1 at_.element.alignment

def baseAlign : Nat := max 1 at_.decl.base.alignment

/-- Elements that are no pointers are aligned like the base type. Pointers are where the base type
is, or where the members end at a multiple of 8 and one of them has the alignment of a pointer. -/
def Aligned (s : LayoutState) : Prop :=
  at_.d.pointerCount = 0 ∨ at_.baseAlign = 8 ∨
    (8 ∣ (s.alignTo at_.baseAlign).currentOffset ∧ s.maxAlign = 8)

end FlexiblePlace

/-- The flexible array is the last row of the table, behind the ends of the other members, and
nothing is declared after it; its elements are aligned in the struct. -/
structure LastAndPlaced (at_ : FlexiblePlace) (S : StructType) : Prop where
  last : at_.declaratorsAfter = [] ∧ at_.membersAfter = []
  row : ∃ fs f, S.fields = fs ++ [f] ∧ f.isFlexibleArray = true ∧
    f.fullType = some (at_.element.typeArray 0) ∧
    fs.length = (at_.before.filterMap Declared.member).length ∧
    (∀ q ∈ (at_.before.filterMap Declared.member).zip fs, Placement.last q ≤ 8 * f.offset) ∧
    (at_.elementAlign : Int) ∣ f.offset
  alignment : (at_.elementAlign : Int) ∣ S.alignment

/-- The unit of a bit-field and its bit count stay `int`s. -/
def BitRoom (s : LayoutState) (base : CType) (width : Int) : Prop :=
  s.currentOffset + 8 + unitBytes base ≤ 2 ^ 31 ∧ 8 * unitBytes base < 2 ^ 31 ∧
    s.bfBitsUsed + width < 2 ^ 31 ∧ width < 2 ^ 31

/-- The offsets and bit counts of one declarator stay `int`s. -/
def Room (s : LayoutState) : Declared → Prop
  | (decl, .unnamed width) => width ≠ 0 → BitRoom s decl.base width
  | (decl, .bitField _ width) => BitRoom s decl.base width
  | (decl, .member d copy) =>
    s.currentOffset + max 1 (memberType decl d copy).alignment +
      max 1 (memberType decl d copy).size ≤ 2 ^ 31

/-- No offset of a run of declarators overflows. -/
def Unwrapped : LayoutState → List Declared → Prop
  | _, [] => True
  | s, p :: ps => Room s p ∧ ∀ s', declare p.1 s p.2 = .ok s' → Unwrapped s' ps

/-! ### What a declarator does to the end of the members -/

/-- The members laid out so far end before the current offset. -/
structure Ended (s : LayoutState) (ms : List Member) : Prop where
  offset : 0 ≤ s.currentOffset
  rows : s.fields.length = ms.length
  ends : ∀ q ∈ ms.zip s.fields, Placement.last q ≤ 8 * s.currentOffset
  unit : s.bfUnitOffset < 0 ∨ s.bfUnitOffset + s.bfUnitSize ≤ s.currentOffset
  bits : 0 ≤ s.bfBitsUsed
  align : s.maxAlign ∈ [1, 2, 4, 8]

theorem ended_start : Ended {} [] where
  offset := le_rfl
  rows := rfl
  ends := by
    intro q none
    cases none
  unit := .inl (by decide)
  bits := le_rfl
  align := by decide

variable {s s' : LayoutState} {ms : List Member}

/-- The rows are kept and the offset does not shrink. -/
theorem Ended.grow (ended : Ended s ms) (fields : s'.fields = s.fields)
    (offset : s.currentOffset ≤ s'.currentOffset)
    (unit : s'.bfUnitOffset < 0 ∨ s'.bfUnitOffset + s'.bfUnitSize ≤ s'.currentOffset)
    (bits : 0 ≤ s'.bfBitsUsed) (align : s'.maxAlign ∈ [1, 2, 4, 8]) : Ended s' ms where
  offset := Int.le_trans ended.offset offset
  rows := by rw [fields, ended.rows]
  ends := by
    intro q member
    rw [fields] at member
    have before := ended.ends q member
    omega
  unit := unit
  bits := bits
  align := align

theorem Ended.push (ended : Ended s ms) {m : Member} {f : Field}
    (fields : s'.fields = s.fields ++ [f])
    (offset : s.currentOffset ≤ s'.currentOffset)
    (own : Placement.last (m, f) ≤ 8 * s'.currentOffset)
    (unit : s'.bfUnitOffset < 0 ∨ s'.bfUnitOffset + s'.bfUnitSize ≤ s'.currentOffset)
    (bits : 0 ≤ s'.bfBitsUsed) (align : s'.maxAlign ∈ [1, 2, 4, 8]) : Ended s' (ms ++ [m]) where
  offset := Int.le_trans ended.offset offset
  rows := by rw [fields, List.length_append, List.length_append, ended.rows]; rfl
  ends := by
    intro q member
    rw [fields, List.zip_append ended.rows.symm, List.mem_append] at member
    rcases member with earlier | last
    · have before := ended.ends q earlier
      omega
    · cases List.mem_singleton.mp last
      exact own
  unit := unit
  bits := bits
  align := align

theorem alignTo_spec {align : Nat} (mem : align ∈ [1, 2, 4, 8]) (offset : 0 ≤ s.currentOffset)
    (fits : s.currentOffset + align ≤ 2 ^ 31) :
    s.currentOffset ≤ (s.alignTo align).currentOffset ∧
      (s.alignTo align).currentOffset < s.currentOffset + align ∧
      (align : Int) ∣ (s.alignTo align).currentOffset := by
  obtain ⟨n, same⟩ := Int.eq_ofNat_of_zero_le offset
  have aligned := offset_alignTo same mem (by omega)
  have pos : 0 < align := by
    simp only [List.mem_cons, List.not_mem_nil, or_false] at mem
    omega
  have above := Bump.le_roundUp (n := n) pos
  have below := Bump.roundUp_lt (n := n) pos
  rw [aligned, same]
  exact ⟨by omega, by omega, Int.natCast_dvd_natCast.mpr (Bump.dvd_roundUp n align)⟩

theorem maxAlign_mem {align : Nat} (mem : align ∈ [1, 2, 4, 8])
    (known : s.maxAlign ∈ [1, 2, 4, 8]) :
    (s.alignTo align).maxAlign ∈ [1, 2, 4, 8] := by
  rw [maxAlign_alignTo]
  simp only [List.mem_cons, List.not_mem_nil, or_false] at mem known ⊢
  omega

theorem size_of_unaligned : ∀ t : CType, t.alignment = 0 → t.size = 0
  | .scalar _ _ _, unaligned => unaligned
  | .pointer _ _, unaligned => by cases unaligned
  | .function _ _, _ => rfl
  | .array base n _, unaligned => by
    rw [CType.size, size_of_unaligned base unaligned, Nat.zero_mul]
  | .record _ _ _ none _, _ => rfl
  | .record _ _ _ (some layout) _, unaligned => by
    have mem := layout.alignment_mem
    change layout.alignment = 0 at unaligned
    rw [unaligned] at mem
    exact absurd mem (by decide)

theorem unit_spec {base : CType} (small : 8 * unitBytes base < 2 ^ 31) :
    unitSize base = unitBytes base ∧
      ∃ align : Nat, align ∈ [1, 2, 4, 8] ∧ unitAlign base = align := by
  have positive := unitBytes_pos base
  have size : unitSize base = unitBytes base := by
    have fits : typeSize base = base.size := by
      apply wrap32_of_fits (by omega)
      unfold unitBytes at small
      split at small <;> omega
    unfold unitSize unitBytes
    rw [fits]
    split <;> split <;> omega
  refine ⟨size, ?_⟩
  have mem := alignment_mem base
  unfold unitAlign typeAlignment
  by_cases unaligned : base.alignment = 0
  · have none := size_of_unaligned base unaligned
    refine ⟨4, by decide, ?_⟩
    rw [size, unitBytes, none, if_pos rfl, if_pos (by omega)]
  · refine ⟨base.alignment, ?_, if_neg (by omega)⟩
    simp only [List.mem_cons, List.not_mem_nil, or_false] at mem ⊢
    omega

/-- A unit for a bit-field: the old one or a new one behind the members. -/
theorem makeRoom_spec {base : CType} {width : Int} (ended : Ended s ms)
    (room : BitRoom s base width) :
    Ended (s.makeRoom base width) ms ∧ (s.makeRoom base width).fields = s.fields ∧
      (s.makeRoom base width).bfUnitOffset + unitBytes base ≤
        (s.makeRoom base width).currentOffset ∧
      ((s.makeRoom base width).bfBitsUsed = 0 ∨
        ((s.makeRoom base width).bfBitsUsed = s.bfBitsUsed ∧
          wrap32 (s.bfBitsUsed + width) ≤ 8 * unitBytes base)) := by
  obtain ⟨fits, small, -, -⟩ := room
  obtain ⟨size, align, mem, alignEq⟩ := unit_spec small
  have capacity : wrap32 (unitSize base * 8) = 8 * unitBytes base := by
    rw [size, wrap32_of_fits (by omega) (by omega)]
    omega
  unfold LayoutState.makeRoom
  split
  · have offset := ended.offset
    have align8 : align ≤ 8 := by
      simp only [List.mem_cons, List.not_mem_nil, or_false] at mem
      omega
    obtain ⟨above, below, -⟩ := alignTo_spec mem offset (by omega)
    have stop : (s.openUnit base).currentOffset =
        (s.alignTo align).currentOffset + unitBytes base := by
      unfold LayoutState.openUnit
      rw [alignEq, size]
      exact wrap32_of_fits (by omega) (by omega)
    have start : (s.openUnit base).bfUnitOffset = (s.alignTo align).currentOffset := by
      unfold LayoutState.openUnit
      rw [alignEq]
    have unit : (s.openUnit base).bfUnitSize = unitBytes base := size
    have maxAlign : (s.openUnit base).maxAlign = (s.alignTo align).maxAlign := by
      unfold LayoutState.openUnit
      rw [alignEq]
    refine ⟨ended.grow rfl (by omega) (.inr (by omega)) le_rfl ?_, rfl, by omega, .inl rfl⟩
    rw [maxAlign]
    exact maxAlign_mem mem ended.align
  · rename_i shared
    obtain ⟨opened, same, room⟩ := not_or.mp shared |>.imp id not_or.mp
    refine ⟨ended, rfl, ?_, .inr ⟨rfl, ?_⟩⟩
    · have unit := ended.unit.resolve_left opened
      rw [not_not.mp same, size] at unit
      exact unit
    · rw [capacity] at room
      exact Int.not_lt.mp room

theorem closeUnit_closed (s : LayoutState) : s.closeUnit.bfUnitOffset < 0 := by
  simp [LayoutState.closeUnit]

theorem useBits_ended {width : Int} (ended : Ended s ms) (natural : 0 ≤ width)
    (room : s.bfBitsUsed + width < 2 ^ 31) : Ended (s.useBits width) ms := by
  have bits := ended.bits
  have used : 0 ≤ (s.useBits width).bfBitsUsed := by
    simp only [LayoutState.useBits]
    rw [wrap32_of_fits (by omega) room]
    omega
  exact ended.grow rfl le_rfl ended.unit used ended.align

theorem unnamed_ended {base : CType} {width : Int} (ended : Ended s ms)
    (room : width ≠ 0 → BitRoom s base width)
    (accepted : unnamedBitField base width s = .ok s') : Ended s' ms := by
  unfold unnamedBitField at accepted
  split at accepted
  · cases accepted
  · rename_i natural
    simp only at accepted
    split at accepted
    · cases accepted
      exact ended.grow rfl le_rfl (.inl (closeUnit_closed s)) le_rfl ended.align
    · rename_i some
      have width0 : width ≠ 0 := by
        rintro rfl
        exact some rfl
      obtain ⟨made, -, -, used⟩ := makeRoom_spec ended (room width0)
      obtain ⟨-, -, bits, below⟩ := room width0
      rw [wrap32_of_fits (by omega) below] at accepted
      cases accepted
      apply useBits_ended made (by omega)
      rcases used with new | ⟨old, -⟩
      · rw [new]
        omega
      · rw [old]
        exact bits

theorem named_ended {decl : MemberDeclaration} {d : ParsedDeclarator} {width : Int}
    (ended : Ended s ms) (room : BitRoom s decl.base width)
    (accepted : namedBitField decl d width s = .ok s') :
    Ended s' (ms ++ [.bitField decl.base width]) := by
  unfold namedBitField at accepted
  split at accepted
  · cases accepted
  · rename_i positive
    obtain ⟨made, fields, unit, used⟩ := makeRoom_spec ended room
    obtain ⟨-, small, bits, below⟩ := room
    obtain ⟨size, -⟩ := unit_spec small
    have capacity : wrap32 (unitSize decl.base * 8) = 8 * unitBytes decl.base := by
      rw [size, wrap32_of_fits (by omega) (by omega)]
      omega
    have natural := ended.bits
    have inUnit : (s.makeRoom decl.base width).bfBitsUsed + width < 2 ^ 31 := by
      rcases used with new | ⟨old, -⟩
      · rw [new]
        omega
      · rw [old]
        exact bits
    simp only [wrap32_of_fits (by omega : -2 ^ 31 ≤ width) below, capacity] at accepted
    split at accepted
    · cases accepted
    · rename_i fits
      cases accepted
      refine useBits_ended (made.push rfl le_rfl ?_ made.unit made.bits made.align) (by omega)
        inUnit
      -- the last bit of the field is in its unit
      have inside : (s.makeRoom decl.base width).bfBitsUsed + width ≤ 8 * unitBytes decl.base := by
        rcases used with new | ⟨old, shared⟩
        · rw [new]
          omega
        · rw [wrap32_of_fits (by omega) bits] at shared
          rw [old]
          exact shared
      simp only [Placement.last, Placement.first, LayoutState.push]
      omega

theorem closeUnit_ended (ended : Ended s ms) : Ended s.closeUnit ms :=
  ended.grow rfl le_rfl (.inl (closeUnit_closed s)) le_rfl ended.align

/-- An object behind the members, at a place aligned for it. -/
theorem object_ended {t : CType} {f : Field} {align : Nat} (ended : Ended s ms)
    (closed : s.bfUnitOffset < 0) (mem : align ∈ [1, 2, 4, 8])
    (fits : s.currentOffset + align ≤ 2 ^ 31) (fields : s'.fields = s.fields ++ [f])
    (place : f.offset = (s.alignTo align).currentOffset) (plain : f.bitOffset = 0)
    (stop : f.offset + t.size ≤ s'.currentOffset)
    (rest : s'.bfUnitOffset = s.bfUnitOffset ∧ s'.bfBitsUsed = s.bfBitsUsed ∧
      s'.maxAlign = (s.alignTo align).maxAlign) : Ended s' (ms ++ [.object t]) := by
  obtain ⟨unit, bits, maxAlign⟩ := rest
  obtain ⟨above, -, -⟩ := alignTo_spec mem ended.offset fits
  refine ended.push fields (by omega) ?_ (.inl (by omega)) (bits ▸ ended.bits) ?_
  · simp only [Placement.last, Placement.first]
    omega
  · rw [maxAlign]
    exact maxAlign_mem mem ended.align

theorem flexible_ended {decl : MemberDeclaration} {d : ParsedDeclarator} {elem : CType}
    (ended : Ended s ms) (closed : s.bfUnitOffset < 0)
    (fits : s.currentOffset + (max 1 decl.base.alignment : Nat) ≤ 2 ^ 31)
    (accepted : flexibleArray decl d elem s = .ok s') :
    Ended s' (ms ++ [.object (elem.typeArray 0)]) := by
  unfold flexibleArray at accepted
  split at accepted
  · cases accepted
  · dsimp only at accepted
    rw [typeAlignment_max] at accepted
    cases accepted
    refine object_ended ended closed (objectAlign_mem decl.base) fits rfl rfl rfl ?_
      ⟨rfl, rfl, rfl⟩
    simp [CType.typeArray, CType.size, LayoutState.push]

theorem sized_ended {decl : MemberDeclaration} {d : ParsedDeclarator} {t : CType}
    (ended : Ended s ms) (closed : s.bfUnitOffset < 0)
    (fits : s.currentOffset + (max 1 t.alignment : Nat) + (max 1 t.size : Nat) ≤ 2 ^ 31)
    (accepted : sizedMember decl d t s = .ok s') : Ended s' (ms ++ [.object t]) := by
  have offset := ended.offset
  have size : (if typeSize t < 1 then 1 else typeSize t) = ((max 1 t.size : Nat) : Int) := by
    have fits : typeSize t = t.size := wrap32_of_fits (by omega) (by omega)
    rw [fits]
    split <;> omega
  unfold sizedMember at accepted
  split at accepted
  · cases accepted
  · split at accepted
    · cases accepted
    · dsimp only at accepted
      rw [typeAlignment_max, size] at accepted
      cases accepted
      obtain ⟨above, below, -⟩ := alignTo_spec (objectAlign_mem t) offset (by omega)
      refine object_ended ended closed (objectAlign_mem t) (by omega) rfl rfl rfl ?_ ⟨rfl, rfl, rfl⟩
      dsimp only
      rw [wrap32_of_fits (by omega) (by omega)]
      omega

/-- The elements of an array are aligned like the base type at least. -/
theorem base_alignment_le (decl : MemberDeclaration) (d : ParsedDeclarator) (copy : Nat) :
    decl.base.alignment ≤ (pointers (effectiveBase decl d copy) d.pointerCount).alignment := by
  rw [alignment_pointers]
  split
  · rename_i plain
    simp [effectiveBase, plain]
  · have mem := alignment_mem decl.base
    simp only [List.mem_cons, List.not_mem_nil, or_false] at mem
    omega

theorem regular_ended {decl : MemberDeclaration} {d : ParsedDeclarator} {copy : Nat}
    (ended : Ended s ms) (room : Room s (decl, .member d copy))
    (accepted : regularMember decl d copy s = .ok s') :
    Ended s' (ms ++ [.object (memberType decl d copy)]) := by
  have closed := closeUnit_ended ended
  unfold regularMember at accepted
  dsimp only at accepted
  simp only [Room] at room
  unfold memberType at room ⊢
  dsimp only at room ⊢
  split at accepted
  · rename_i isArray
    rw [if_pos isArray] at room ⊢
    split at accepted
    · rename_i unsized
      rw [if_neg unsized] at room ⊢
      have align := base_alignment_le decl d copy
      change decl.base.alignment ≤ ((pointers _ _).typeArray 0).alignment at align
      exact flexible_ended closed (closeUnit_closed s) (by
        simp only [LayoutState.closeUnit]
        omega) accepted
    · rename_i sized
      rw [if_pos (not_not.mp sized)] at room ⊢
      exact sized_ended closed (closeUnit_closed s) room accepted
  · rename_i plain
    rw [if_neg plain] at room ⊢
    exact sized_ended closed (closeUnit_closed s) room accepted

theorem declare_ended {p : Declared} (ended : Ended s ms) (room : Room s p)
    (accepted : declare p.1 s p.2 = .ok s') : Ended s' (ms ++ p.member.toList) := by
  obtain ⟨decl, declarator⟩ := p
  cases declarator with
  | unnamed width =>
    rw [Declared.member, Option.toList_none, List.append_nil]
    exact unnamed_ended ended room accepted
  | bitField d width => exact named_ended ended room accepted
  | member d copy => exact regular_ended ended room accepted

theorem run_ended {ps : List Declared} (ended : Ended s ms) (room : Unwrapped s ps)
    (accepted : ps.foldlM (fun s p => declare p.1 s p.2) s = .ok s') :
    Ended s' (ms ++ ps.filterMap Declared.member) := by
  induction ps generalizing s ms with
  | nil =>
    cases accepted
    rw [List.filterMap_nil, List.append_nil]
    exact ended
  | cons p ps ih =>
    obtain ⟨t, first, rest⟩ := StateExcept.bind_eq_ok.mp accepted
    obtain ⟨own, later⟩ := room
    have after := ih (declare_ended ended own first) (later t first) rest
    have members : ms ++ (p :: ps).filterMap Declared.member =
        ms ++ p.member.toList ++ ps.filterMap Declared.member := by
      cases named : p.member <;> simp [named]
    rw [members]
    exact after

/-! ### The flexible array -/

theorem declare_keeps_flexible {decl : MemberDeclaration} {m : MemberDeclarator}
    (flexible : s.hasFlexibleArray = true) (accepted : declare decl s m = .ok s') :
    s'.hasFlexibleArray = true := by
  have opened (t : LayoutState) (base : CType) (width : Int) :
      (t.makeRoom base width).hasFlexibleArray = t.hasFlexibleArray := by
    unfold LayoutState.makeRoom
    split <;> rfl
  cases m with
  | unnamed width =>
    simp only [declare, unnamedBitField] at accepted
    split at accepted
    · cases accepted
    · split at accepted
      · cases accepted
        exact flexible
      · cases accepted
        exact (opened s decl.base _).trans flexible
  | bitField d width =>
    simp only [declare, namedBitField] at accepted
    split at accepted
    · cases accepted
    · split at accepted
      · cases accepted
      · cases accepted
        exact (opened s decl.base _).trans flexible
  | member d copy =>
    have sized {t : CType} (accepted : sizedMember decl d t s.closeUnit = .ok s') :
        s'.hasFlexibleArray = true := by
      simp only [sizedMember] at accepted
      split at accepted
      · cases accepted
      · split at accepted
        · cases accepted
        · cases accepted
          exact flexible
    simp only [declare, regularMember] at accepted
    split at accepted
    · split at accepted
      · simp only [flexibleArray] at accepted
        split at accepted
        · cases accepted
        · cases accepted
          rfl
      · exact sized accepted
    · exact sized accepted

theorem run_keeps_flexible {decl : MemberDeclaration} {ds : List MemberDeclarator}
    (flexible : s.hasFlexibleArray = true) (accepted : ds.foldlM (declare decl) s = .ok s') :
    s'.hasFlexibleArray = true := by
  induction ds generalizing s with
  | nil =>
    cases accepted
    exact flexible
  | cons m ds ih =>
    obtain ⟨t, first, rest⟩ := StateExcept.bind_eq_ok.mp accepted
    exact ih (declare_keeps_flexible flexible first) rest

/-- What the declarator of the flexible array does. -/
structure Appended (at_ : FlexiblePlace) (s s' : LayoutState) : Prop where
  row : ∃ f : Field, s'.fields = s.fields ++ [f] ∧ f.isFlexibleArray = true ∧
    f.fullType = some (at_.element.typeArray 0) ∧
    f.offset = (s.alignTo at_.baseAlign).currentOffset
  align : s'.maxAlign = (s.alignTo at_.baseAlign).maxAlign
  flexible : s'.hasFlexibleArray = true

theorem declare_flexible {at_ : FlexiblePlace}
    (accepted : declare at_.decl s (.member at_.d at_.copy) = .ok s') : Appended at_ s s' := by
  obtain ⟨isArray, unsized⟩ := at_.flexible
  simp only [declare, regularMember, isArray, unsized, if_true, Bool.false_eq_true,
    not_false_eq_true] at accepted
  unfold flexibleArray at accepted
  split at accepted
  · cases accepted
  · dsimp only at accepted
    rw [typeAlignment_max] at accepted
    cases accepted
    exact ⟨⟨_, rfl, rfl, rfl, rfl⟩, rfl, rfl⟩

/-- The parts of an accepted run around the flexible array. -/
theorem split_run {at_ : FlexiblePlace} {S : StructType}
    (accepted : parseStructSpecifier at_.members = .ok S) :
    ∃ s₁ s₂ s₃, at_.reached = .ok s₁ ∧ Appended at_ s₁ s₂ ∧
      at_.declaratorsAfter.foldlM (declare at_.decl) s₂ = .ok s₃ ∧ at_.membersAfter = [] ∧
      S = s₃.result := by
  obtain ⟨s₄, parsed, result⟩ := StateExcept.bind_eq_ok.mp accepted
  rw [FlexiblePlace.members, List.foldlM_append] at parsed
  obtain ⟨s₀, before, rest⟩ := StateExcept.bind_eq_ok.mp parsed
  obtain ⟨s₃, own, after⟩ := StateExcept.bind_eq_ok.mp rest
  have declarators : at_.decl.declarators.foldlM (declare at_.decl) s₀ = .ok s₃ := by
    unfold declareAll at own
    rw [if_neg (by rw [at_.list]; simp : ¬ at_.decl.declarators = [])] at own
    split at own
    · cases own
    · exact own
  rw [at_.list, List.foldlM_append] at declarators
  obtain ⟨s₁, first, rest⟩ := StateExcept.bind_eq_ok.mp declarators
  obtain ⟨s₂, array, later⟩ := StateExcept.bind_eq_ok.mp rest
  have appended := declare_flexible array
  have flexible := run_keeps_flexible appended.flexible later
  -- the check stands at the top of the loop over the declarations
  have done : at_.membersAfter = [] := by
    cases none : at_.membersAfter with
    | nil => rfl
    | cons decl members =>
      rw [none] at after
      obtain ⟨t, refused, -⟩ := StateExcept.bind_eq_ok.mp after
      rw [declareAll, if_pos flexible] at refused
      cases refused
  refine ⟨s₁, s₂, s₃, ?_, appended, later, done, ?_⟩
  · rw [FlexiblePlace.reached, FlexiblePlace.before, List.foldlM_append, declareAll_flat before]
    change (at_.declaratorsBefore.map _).foldlM _ s₀ = _
    rw [List.foldlM_map]
    exact first
  · rw [done] at after
    cases after
    cases result
    rfl

theorem elementAlign_cases (at_ : FlexiblePlace) :
    (at_.d.pointerCount = 0 → at_.elementAlign = at_.baseAlign) ∧
      (at_.d.pointerCount ≠ 0 → at_.elementAlign = 8) := by
  unfold FlexiblePlace.elementAlign FlexiblePlace.element
  rw [alignment_pointers]
  constructor
  · intro plain
    simp [plain, effectiveBase, FlexiblePlace.baseAlign]
  · intro stars
    rw [if_neg stars]
    rfl

theorem dvd_max {align : Nat} {n : Int} (mem : align ∈ [1, 2, 4, 8])
    (known : n ∈ ([1, 2, 4, 8] : List Int)) : (align : Int) ∣ max n align := by
  simp only [List.mem_cons, List.not_mem_nil, or_false] at mem known
  rcases mem with rfl | rfl | rfl | rfl <;> rcases known with rfl | rfl | rfl | rfl <;> decide

theorem aligned_iff {at_ : FlexiblePlace} (ended : Ended s ms)
    (fits : s.currentOffset + at_.baseAlign ≤ 2 ^ 31) :
    at_.Aligned s ↔ (at_.elementAlign : Int) ∣ (s.alignTo at_.baseAlign).currentOffset ∧
      (at_.elementAlign : Int) ∣ (s.alignTo at_.baseAlign).maxAlign := by
  have mem : at_.baseAlign ∈ [1, 2, 4, 8] := objectAlign_mem at_.decl.base
  obtain ⟨-, -, own⟩ := alignTo_spec mem ended.offset fits
  have known := ended.align
  rw [maxAlign_alignTo]
  obtain ⟨plain, stars⟩ := elementAlign_cases at_
  unfold FlexiblePlace.Aligned
  by_cases none : at_.d.pointerCount = 0
  · rw [plain none]
    constructor
    · intro _
      exact ⟨own, dvd_max mem known⟩
    · intro _
      exact .inl none
  · rw [stars none]
    simp only [List.mem_cons, List.not_mem_nil, or_false] at mem known
    constructor
    · rintro (zero | eight | ⟨behind, eight⟩)
      · exact absurd zero none
      · rw [eight] at own ⊢
        exact ⟨own, by omega⟩
      · exact ⟨behind, by omega⟩
    · rintro ⟨behind, above⟩
      by_cases eight : at_.baseAlign = 8
      · exact .inr (.inl eight)
      · exact .inr (.inr ⟨behind, by omega⟩)

/-- A flexible array member is last and well placed just when no declarator follows it in its list
and its pointers, if it has any, happen to be aligned. -/
theorem flexible_placed_iff {at_ : FlexiblePlace} {S : StructType} {s : LayoutState}
    (accepted : parseStructSpecifier at_.members = .ok S) (reached : at_.reached = .ok s)
    (unwrapped : Unwrapped {} at_.before) (fits : s.currentOffset + at_.baseAlign ≤ 2 ^ 31) :
    LastAndPlaced at_ S ↔ at_.declaratorsAfter = [] ∧ at_.Aligned s := by
  obtain ⟨s₁, s₂, s₃, same, appended, later, done, rfl⟩ := split_run accepted
  cases reached.symm.trans same
  have ended := run_ended ended_start unwrapped reached
  rw [List.nil_append] at ended
  have mem : at_.baseAlign ∈ [1, 2, 4, 8] := objectAlign_mem at_.decl.base
  obtain ⟨above, -, -⟩ := alignTo_spec mem ended.offset fits
  obtain ⟨f, fields, flexible, type, offset⟩ := appended.row
  constructor
  · intro placed
    obtain ⟨none, -⟩ := placed.last
    rw [none] at later
    cases later
    refine ⟨none, (aligned_iff ended fits).mpr ⟨?_, ?_⟩⟩
    · obtain ⟨fs, g, table, -, -, -, -, aligned⟩ := placed.row
      have last : f = g := by
        have rows : s.fields ++ [f] = fs ++ [g] := fields.symm.trans table
        exact List.singleton_inj.mp (List.append_inj_right' rows rfl)
      rw [← offset, last]
      exact aligned
    · rw [← appended.align]
      exact placed.alignment
  · rintro ⟨none, aligned⟩
    rw [none] at later
    cases later
    obtain ⟨place, align⟩ := (aligned_iff ended fits).mp aligned
    constructor
    · exact ⟨none, done⟩
    · refine ⟨s.fields, f, fields, flexible, type, ended.rows, ?_, offset ▸ place⟩
      intro q member
      have before := ended.ends q member
      omega
    · have same : s₂.result.alignment = (s.alignTo at_.baseAlign).maxAlign := appended.align
      rw [same]
      exact align

/-- `struct { long n; char *p[]; }` -/
def pointersAfterLong : FlexiblePlace where
  membersBefore := [{ isConst := false, isVolatile := false, base := .typeLong
                      declarators := [.member { name := "n" } 0] }]
  decl := { isConst := false, isVolatile := false, base := .typeChar
            declarators := [.member { name := "p", pointerCount := 1, isArray := true } 0] }
  declaratorsBefore := []
  d := { name := "p", pointerCount := 1, isArray := true }
  copy := 0
  declaratorsAfter := []
  membersAfter := []
  list := rfl
  flexible := ⟨rfl, rfl⟩

theorem pointers_after_long_placed : ∃ S s, parseStructSpecifier pointersAfterLong.members = .ok S ∧
    pointersAfterLong.reached = .ok s ∧
    (LastAndPlaced pointersAfterLong S ↔
      pointersAfterLong.declaratorsAfter = [] ∧ pointersAfterLong.Aligned s) := by
  refine ⟨_, _, rfl, rfl, flexible_placed_iff rfl rfl ⟨?_, fun _ _ => trivial⟩ ?_⟩
  · simp [Room, memberType, effectiveBase, pointers, CType.typeLong, CType.alignment, CType.size,
      TypeKind.size]
  · decide +kernel

/-- `struct { int n; int a[], b; }` -/
def arrayBeforeObject : FlexiblePlace where
  membersBefore := [{ isConst := false, isVolatile := false, base := .typeInt
                      declarators := [.member { name := "n" } 0] }]
  decl := { isConst := false, isVolatile := false, base := .typeInt
            declarators := [.member { name := "a", isArray := true } 0, .member { name := "b" } 0] }
  declaratorsBefore := []
  d := { name := "a", isArray := true }
  copy := 0
  declaratorsAfter := [.member { name := "b" } 0]
  membersAfter := []
  list := rfl
  flexible := ⟨rfl, rfl⟩

/-- The member `b` follows the flexible array `a` and lies in its place. -/
theorem flexible_not_last : ¬ ∀ (at_ : FlexiblePlace) (S : StructType),
    parseStructSpecifier at_.members = .ok S → LastAndPlaced at_ S := by
  intro every
  have placed := every arrayBeforeObject _ rfl
  obtain ⟨none, -⟩ := placed.last
  cases none

end ClaudeC99.Struct
