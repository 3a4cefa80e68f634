import ClaudeC99.Initializers.Arrays
import ClaudeC99.Lib.BraceLists

/-! When an array without its first dimension gets the type that its initializer needs. -/

namespace ClaudeC99.Initializers

open BraceLists (Shape Item Reading reach positions)
open Front (ParsedDeclarator pointers buildArrayTypeFromDims maxArrayDims arrayDimension)

/-- Objects of a type; the table gives the members of structs and unions by their tag. -/
def shapeOf (records : Nat → Shape) : CType → Shape
  | .scalar kind _ _ => .scalar (kind = .char)
  | .pointer _ _ | .function _ _ => .scalar false
  | .array base length _ => .array (shapeOf records base) length
  | .record _ tag _ _ _ => records tag

/-- The values of a brace list; `recordType` gives the tag of a struct or union value. -/
def exprReading (recordType : Expr → Option Nat) : Reading Expr where
  isList
    | .initializerList _ => true
    | _ => false
  text
    | .stringLiteral bytes => some bytes.length
    | _ => none
  record := recordType

def InitializerElement.item (child : InitializerElement) : Item Expr := ⟨child.index, child.value⟩

/-- An array `T name[][n₂]…[nₖ] = {…}`, or `(T[][n₂]…[nₖ]){…}`. -/
structure OmittedArray where
  name : String
  base : CType
  qualifier : Qualifier
  stars : Nat
  later : List Int
  elements : List InitializerElement
  /-- `static`, or no storage class at file scope. -/
  storage : StorageClass
  records : Nat → Shape
  recordType : Expr → Option Nat

namespace OmittedArray

variable (a : OmittedArray)

def blockType : Except String CType := do
  let d ← parseArrayDeclarator a.name a.stars none a.later
  blockArrayType a.base a.qualifier d (some (.list a.elements))

def fileType : Except String CType := do
  let d ← parseArrayDeclarator a.name a.stars none a.later
  fileArrayType a.storage a.base a.qualifier d (some (.list a.elements))

def literalType : Except String CType := do
  let t ← parseTypeName a.base a.qualifier a.stars none a.later
  pure (compoundArrayType t a.elements)

def items : List (Item Expr) := a.elements.map InitializerElement.item

/-- What the specifier and the stars declare. -/
def object : CType := pointers (a.qualifier.apply a.base) a.stars

/-- The element type, with the inner dimensions as written. -/
def element : CType := buildArrayTypeFromDims a.object (a.later.map Int.toNat)

/-- The elements that the initializer assigns to. -/
def assigned : List Nat :=
  (exprReading a.recordType).indices (shapeOf a.records a.element) a.items

/-- All three contexts make the array as long as the initializer needs. -/
structure Covered : Prop where
  block : a.blockType = .ok (a.element.typeArray (reach a.assigned))
  file : a.fileType = .ok (a.element.typeArray (reach a.assigned))
  literal : a.literalType = .ok (a.element.typeArray (reach a.assigned))

/-- One dimension, and as many items as elements, also when each item is read as an element of its
own. -/
structure OneEach : Prop where
  single : a.later = []
  nonempty : a.elements ≠ []
  small : a.elements.length < 2 ^ 31
  count : a.elements.length = reach a.assigned
  plain : reach (positions 0 a.items) = reach a.assigned

/-- A qualifier of the elements themselves changes nothing. -/
def QualifierKept : Prop := a.stars > 0 ∨ a.qualifier.apply a.base = a.base

end OmittedArray

/-! ### Ranks -/

/-- The number of array dimensions of a type. -/
def rank : CType → Nat
  | .array base _ _ => rank base + 1
  | _ => 0

theorem rank_build (elem : CType) : ∀ dims : List Nat,
    rank (buildArrayTypeFromDims elem dims) = rank elem + dims.length
  | [] => rfl
  | n :: dims => by
    change rank (buildArrayTypeFromDims elem dims) + 1 = _
    rw [rank_build elem dims, List.length_cons, Nat.add_assoc]

theorem rank_apply (q : Qualifier) (t : CType) : rank (q.apply t) = rank t := by
  cases q <;> cases t <;> rfl

theorem rank_pointers (t : CType) : ∀ n : Nat, 0 < n → rank (pointers t n) = 0
  | 1, _ => rfl
  | n + 2, _ => rank_pointers t.typePointer (n + 1) (Nat.succ_pos n)

theorem rank_effectiveBase (base : CType) (q : Qualifier) (stars : Nat) :
    rank (pointers (effectiveBase base q stars) stars) =
      rank (pointers (q.apply base) stars) := by
  cases stars with
  | zero => exact (rank_apply q base).symm
  | succ n => rw [rank_pointers _ _ (Nat.succ_pos n), rank_pointers _ _ (Nat.succ_pos n)]

theorem furtherDimensions_length : ∀ (lengths : List Int) (dims : List Nat) {all : List Nat},
    furtherDimensions dims lengths = .ok all → all.length = dims.length + lengths.length
  | [], dims, all, accepted => by
    cases accepted
    rfl
  | length :: lengths, dims, all, accepted => by
    rw [furtherDimensions] at accepted
    split at accepted
    · cases accepted
    · unfold arrayDimension at accepted
      split at accepted
      · cases accepted
      · have rest := furtherDimensions_length lengths _ accepted
        rw [rest, List.length_append, List.length_singleton, List.length_cons]
        omega

/-! ### The cursor of compound literals -/

variable {list : List InitializerElement}

def itemsOf (list : List InitializerElement) : List (Item Expr) :=
  list.map InitializerElement.item

/-- Designators that are `int`s are the positions. -/
theorem cursor_at {child : InitializerElement} {cur : Nat}
    (bound : ∀ n ∈ child.index, n < 2 ^ 31) :
    (child.index.elim (cur : Int) fun n => wrap32 n) = (child.index.getD cur : Nat) := by
  cases known : child.index with
  | none => rfl
  | some n =>
    have small := bound n known
    exact wrap32_of_fits (by omega) (by omega)

theorem step_at {child : InitializerElement} {cur : Nat} {m : Int}
    (bound : ∀ n ∈ child.index, n < 2 ^ 31) (fits : child.index.getD cur + 1 < 2 ^ 31) :
    LengthScan.step ⟨cur, m⟩ child =
      ⟨(child.index.getD cur + 1 : Nat), max m (child.index.getD cur)⟩ := by
  simp only [LengthScan.step, cursor_at bound]
  rw [wrap32_of_fits (by omega) (by omega)]
  rfl

/-- The scan follows the positions while they are `int`s. -/
theorem scan_fits : ∀ (list : List InitializerElement) (cur : Nat) (m : Int), 0 ≤ m →
    (∀ i ∈ positions cur (itemsOf list), i + 1 < 2 ^ 31) →
    (list.foldl LengthScan.step ⟨cur, m⟩).maxIdx + 1 =
      max (m + 1) (reach (positions cur (itemsOf list)))
  | [], cur, m, nonneg, _ => by
    change m + 1 = max (m + 1) 0
    omega
  | child :: list, cur, m, nonneg, fits => by
    have here := fits (child.index.getD cur) List.mem_cons_self
    have bound : ∀ n ∈ child.index, n < 2 ^ 31 := by
      intro n known
      rw [known, Option.getD_some] at here
      omega
    have rest := scan_fits list (child.index.getD cur + 1) (max m (child.index.getD cur))
      (by omega) (fun i later => fits i (List.mem_cons_of_mem _ later))
    rw [List.foldl_cons, step_at bound here, rest]
    change _ = max (m + 1) ((max (child.index.getD cur + 1)
      (reach (positions (child.index.getD cur + 1) (itemsOf list))) : Nat) : Int)
    omega

theorem wrap32_lt (n : Int) : wrap32 n < 2 ^ 31 := BitVec.toInt_lt

theorem scan_stays : ∀ (list : List InitializerElement) (s : LengthScan), s.cur < 2 ^ 31 →
    s.maxIdx = 2 ^ 31 - 1 → (list.foldl LengthScan.step s).maxIdx = 2 ^ 31 - 1
  | [], _, _, full => full
  | child :: list, s, small, full => by
    have below : (child.index.elim s.cur fun n => wrap32 n) < 2 ^ 31 := by
      cases child.index with
      | none => exact small
      | some n => exact wrap32_lt n
    apply scan_stays list (s.step child) (wrap32_lt _)
    simp only [LengthScan.step]
    split <;> omega

/-- A position that is too large takes the scan to the last `int`, where it stays. -/
theorem scan_full : ∀ (list : List InitializerElement) (cur : Nat) (m : Int), cur < 2 ^ 31 →
    m < 2 ^ 31 → (∀ child ∈ list, ∀ n ∈ child.index, n < 2 ^ 31) →
    (∃ i ∈ positions cur (itemsOf list), 2 ^ 31 ≤ i + 1) →
    (list.foldl LengthScan.step ⟨cur, m⟩).maxIdx = 2 ^ 31 - 1
  | [], _, _, _, _, _, ⟨_, mem, _⟩ => by cases mem
  | child :: list, cur, m, small, below, bounded, ⟨i, mem, large⟩ => by
    have bound := bounded child List.mem_cons_self
    have here : child.index.getD cur < 2 ^ 31 := by
      cases known : child.index with
      | none => exact small
      | some n => exact bound n known
    rw [List.foldl_cons]
    by_cases last : child.index.getD cur = 2 ^ 31 - 1
    · apply scan_stays
      · exact wrap32_lt _
      · simp only [LengthScan.step, cursor_at bound]
        split <;> omega
    · rw [step_at bound (by omega)]
      apply scan_full list _ _ (by omega) (by omega)
        (fun c later => bounded c (List.mem_cons_of_mem _ later))
      rcases List.mem_cons.mp mem with rfl | later
      · change 2 ^ 31 ≤ child.index.getD cur + 1 at large
        omega
      · exact ⟨i, later, large⟩

/-- The length of a compound literal whose positions are `int`s. -/
theorem literal_length (elem : CType) (isConst : Bool)
    (fits : ∀ i ∈ positions 0 (itemsOf list), i + 1 < 2 ^ 31) :
    compoundArrayType (.array elem 0 isConst) list =
      elem.typeArray (max 1 (reach (positions 0 (itemsOf list)))) := by
  have scanned := scan_fits list 0 0 (Int.le_refl 0) fits
  have reached : reach (positions 0 (itemsOf list)) ≤ 2 ^ 31 - 1 :=
    BraceLists.reach_le fun i mem => by
      have := fits i mem
      omega
  have inferred : inferCompoundLiteralArrayLength list =
      if list.isEmpty then (0 : Int) else (max 1 (reach (positions 0 (itemsOf list))) : Nat) := by
    rw [inferCompoundLiteralArrayLength]
    congr 1
    rw [show (list.foldl LengthScan.step {}).maxIdx + 1 = _ from scanned]
    rw [wrap32_of_fits (by omega) (by omega)]
    omega
  rw [compoundArrayType, inferred]
  cases list with
  | nil => rfl
  | cons child list =>
    congr 1
    simp only [List.isEmpty_cons, Bool.false_eq_true, if_false]
    rw [if_neg (by omega), Int.toNat_natCast]

/-- Where the scan ends at the last `int`, the length is negative. -/
theorem literal_length_full (elem : CType) (isConst : Bool)
    (bounded : ∀ child ∈ list, ∀ n ∈ child.index, n < 2 ^ 31)
    (large : ∃ i ∈ positions 0 (itemsOf list), 2 ^ 31 ≤ i + 1) :
    compoundArrayType (.array elem 0 isConst) list = elem.typeArray 0 := by
  have scanned := scan_full list 0 0 (by decide) (by decide) bounded large
  have nonempty : list.isEmpty = false := by
    cases list with
    | nil =>
      obtain ⟨_, mem, _⟩ := large
      cases mem
    | cons child list => rfl
  have inferred : inferCompoundLiteralArrayLength list = -2 ^ 31 := by
    rw [inferCompoundLiteralArrayLength, nonempty]
    rw [show (list.foldl LengthScan.step {}).maxIdx = _ from scanned]
    decide
  rw [compoundArrayType, inferred]
  rfl

namespace OmittedArray

variable {a : OmittedArray}

/-! ### The three types -/

/-- At block and file scope the length is the number of items, in the place of the first dimension
that has a slot. -/
theorem blockType_eq : a.blockType = (furtherDimensions [] a.later).map fun dims =>
    buildArrayTypeFromDims (pointers (effectiveBase a.base a.qualifier a.stars) a.stars)
      (a.elements.length :: dims.tail) := by
  unfold blockType parseArrayDeclarator
  cases furtherDimensions [] a.later <;> rfl

theorem fileType_eq : a.fileType = a.blockType := by
  rw [blockType_eq]
  unfold fileType parseArrayDeclarator
  cases furtherDimensions [] a.later <;> rfl

theorem literalType_eq : a.literalType = (furtherDimensions [0] a.later).map fun dims =>
    compoundArrayType (buildArrayTypeFromDims a.object dims) a.elements := by
  unfold literalType parseTypeName
  cases read : furtherDimensions [0] a.later <;>
    simp [read, object, Except.map, bind, Except.bind, pure, Except.pure]

theorem element_single (single : a.later = []) : a.element = a.object := by
  rw [element, single]
  rfl

/-- A written dimension makes the declared type one rank too small. -/
theorem single_of_block (block : a.blockType = .ok (a.element.typeArray (reach a.assigned))) :
    a.later = [] := by
  rw [blockType_eq] at block
  cases read : furtherDimensions [] a.later with
  | error e =>
    rw [read] at block
    cases block
  | ok dims =>
    have ranks : dims.length = a.later.length := by
      rw [furtherDimensions_length a.later [] read, List.length_nil, Nat.zero_add]
    rw [read] at block
    have same := congrArg rank (Except.ok.inj block)
    rw [rank_build, rank_effectiveBase] at same
    change _ = rank a.element + 1 at same
    rw [element, rank_build, List.length_map, List.length_cons, List.length_tail] at same
    change rank a.object + _ = _ at same
    exact List.eq_nil_of_length_eq_zero (by omega)

theorem elements_of_kept (kept : a.QualifierKept) :
    pointers (effectiveBase a.base a.qualifier a.stars) a.stars = a.object := by
  rw [object]
  congr 1
  unfold effectiveBase
  rcases kept with stars | same
  · rw [if_pos stars]
  · rw [same, ite_self]

theorem kept_of_elements
    (same : pointers (effectiveBase a.base a.qualifier a.stars) a.stars = a.object) :
    a.QualifierKept := by
  cases known : a.stars with
  | zero =>
    rw [object, known] at same
    exact .inr same.symm
  | succ n => exact .inl (by omega)

theorem block_single (single : a.later = []) : a.blockType =
    .ok ((pointers (effectiveBase a.base a.qualifier a.stars) a.stars).typeArray
      a.elements.length) := by
  rw [blockType_eq, single]
  rfl

theorem literal_single (single : a.later = []) :
    a.literalType = .ok (compoundArrayType (a.object.typeArray 0) a.elements) := by
  rw [literalType_eq, single]
  rfl

theorem typeArray_inj {t u : CType} {n m : Nat} (same : t.typeArray n = u.typeArray m) :
    t = u ∧ n = m := by
  cases same
  exact ⟨rfl, rfl⟩

/-- The length of a compound literal is an `int`. -/
theorem literal_small {elem : CType} {list : List InitializerElement} {n : Nat}
    (known : compoundArrayType (elem.typeArray 0) list = elem.typeArray n) : n < 2 ^ 31 := by
  have length := (typeArray_inj known).2
  have below : inferCompoundLiteralArrayLength list < 2 ^ 31 := by
    rw [inferCompoundLiteralArrayLength]
    split
    · decide
    · exact wrap32_lt _
  split at length <;> omega

/-- The compound literal needs its own count of positions to be right. -/
theorem plain_of_literal (count : a.elements.length = reach a.assigned)
    (literal : compoundArrayType (a.object.typeArray 0) a.elements =
      a.object.typeArray (reach a.assigned)) :
    a.elements ≠ [] ∧ reach (positions 0 a.items) = reach a.assigned := by
  have small := literal_small literal
  have bounded : ∀ child ∈ a.elements, ∀ n ∈ child.index, n < 2 ^ 31 := by
    intro child mem n known
    have item : child.item ∈ a.items := List.mem_map_of_mem mem
    have assigned : n < reach a.assigned :=
      (exprReading a.recordType).designator_lt_reach (shapeOf a.records a.element) known item
    omega
  by_cases fits : ∀ i ∈ positions 0 (itemsOf a.elements), i + 1 < 2 ^ 31
  · rw [CType.typeArray, literal_length a.object false fits] at literal
    have length : max 1 (reach (positions 0 a.items)) = reach a.assigned :=
      (typeArray_inj literal).2
    have nonempty : a.elements ≠ [] := by
      intro none
      rw [none, List.length_nil] at count
      omega
    refine ⟨nonempty, ?_⟩
    cases known : a.elements with
    | nil => exact absurd known nonempty
    | cons child rest =>
      have first : 0 < reach (positions 0 a.items) := by
        rw [items, known]
        exact Nat.lt_of_lt_of_le (Nat.succ_pos _) (Nat.le_max_left _ _)
      omega
  · have large : ∃ i ∈ positions 0 (itemsOf a.elements), 2 ^ 31 ≤ i + 1 := by
      by_contra none
      apply fits
      intro i mem
      by_contra large
      exact none ⟨i, mem, by omega⟩
    rw [CType.typeArray, literal_length_full a.object false bounded large] at literal
    have zero : 0 = reach a.assigned := (typeArray_inj literal).2
    obtain ⟨i, mem, _⟩ := large
    rw [List.eq_nil_of_length_eq_zero (by omega : a.elements.length = 0)] at mem
    cases mem

/-- The three contexts give the array the type its initializer needs exactly where one dimension is
written, each element has one item, and the element type has no qualifier of its own. -/
theorem inferred_covers_iff (a : OmittedArray) : a.Covered ↔ a.OneEach ∧ a.QualifierKept := by
  constructor
  · intro covered
    have single := single_of_block covered.block
    have block := covered.block
    have literal := covered.literal
    rw [block_single single, element_single single] at block
    rw [literal_single single, element_single single] at literal
    obtain ⟨elements, count⟩ := typeArray_inj (Except.ok.inj block)
    have positions := plain_of_literal count (Except.ok.inj literal)
    have small := literal_small (Except.ok.inj literal)
    exact ⟨⟨single, positions.1, by omega, count, positions.2⟩, kept_of_elements elements⟩
  · rintro ⟨each, kept⟩
    have block : a.blockType = .ok (a.element.typeArray (reach a.assigned)) := by
      rw [block_single each.single, elements_of_kept kept, each.count,
        element_single each.single]
    refine ⟨block, fileType_eq.trans block, ?_⟩
    have fits : ∀ i ∈ positions 0 (itemsOf a.elements), i + 1 < 2 ^ 31 := by
      intro i mem
      have below : i < reach (positions 0 a.items) := BraceLists.lt_reach mem
      have small := each.small
      rw [each.plain, ← each.count] at below
      omega
    have written := List.length_pos_of_ne_nil each.nonempty
    have literal : compoundArrayType (a.object.typeArray 0) a.elements =
        a.object.typeArray (max 1 (reach (positions 0 a.items))) :=
      literal_length a.object false fits
    rw [each.plain, ← each.count, max_eq_right written] at literal
    rw [literal_single each.single, literal, each.count, element_single each.single]

/-- `int a[later] = {elements};` -/
def ofInts (later : List Int) (elements : List InitializerElement) : OmittedArray where
  name := "a"
  base := .typeInt
  qualifier := .none
  stars := 0
  later := later
  elements := elements
  storage := .none
  records := fun _ => .scalar false
  recordType := fun _ => none

/-- `{[5] = 1}` needs six elements: a declared array has one, a compound literal six. With
`[3]` written behind the brackets, the declared array loses a dimension. -/
theorem designator_not_counted :
    let one : Expr := .intLiteral (.dec 1) .int false
    let designated := ofInts [] [⟨some 5, one⟩]
    let rows := ofInts [3] [⟨none, .initializerList [one, one, one]⟩]
    reach designated.assigned = 6 ∧ designated.blockType = .ok (CType.typeInt.typeArray 1) ∧
      designated.literalType = .ok (CType.typeInt.typeArray 6) ∧ ¬designated.Covered ∧
      reach rows.assigned = 1 ∧ rows.blockType = .ok (CType.typeInt.typeArray 1) ∧
      rows.literalType = .ok ((CType.typeInt.typeArray 3).typeArray 1) ∧ ¬rows.Covered := by
  refine ⟨by decide, rfl, rfl, ?_, by decide, rfl, rfl, ?_⟩
  · intro covered
    exact absurd (typeArray_inj (Except.ok.inj covered.block)).2 (by decide)
  · intro covered
    cases (typeArray_inj (Except.ok.inj covered.block)).1

end OmittedArray

end ClaudeC99.Initializers
