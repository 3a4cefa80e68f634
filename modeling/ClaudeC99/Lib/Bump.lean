import Mathlib.Data.Nat.Basic
import Mathlib.Data.List.Pairwise
import Mathlib.Tactic.Ring

/-! Bump allocation downwards from a base: every object's end is rounded up to its alignment. -/

namespace Bump

def roundUp (n align : Nat) : Nat := (n + align - 1) / align * align

theorem dvd_roundUp (n align : Nat) : align ∣ roundUp n align := Dvd.intro_left _ rfl

variable {n align : Nat}

theorem le_roundUp (pos : 0 < align) : n ≤ roundUp n align := by
  have split := Nat.div_add_mod (n + align - 1) align
  have rest := Nat.mod_lt (n + align - 1) pos
  rw [Nat.mul_comm] at split
  unfold roundUp
  omega

theorem roundUp_lt (pos : 0 < align) : roundUp n align < n + align := by
  have whole := Nat.div_mul_le_self (n + align - 1) align
  unfold roundUp
  omega

theorem roundUp_le {m : Nat} (pos : 0 < align) (le : n ≤ m) (aligned : align ∣ m) :
    roundUp n align ≤ m := by
  obtain ⟨k, rfl⟩ := aligned
  have below := roundUp_lt (n := n) pos
  obtain ⟨j, hj⟩ := dvd_roundUp n align
  rw [hj] at below ⊢
  have lt : align * j < align * (k + 1) := by
    rw [Nat.mul_add_one]
    omega
  exact Nat.mul_le_mul_left align (Nat.lt_succ_iff.mp (Nat.lt_of_mul_lt_mul_left lt))

theorem roundUp_of_dvd (pos : 0 < align) (aligned : align ∣ n) : roundUp n align = n :=
  Nat.le_antisymm (roundUp_le pos le_rfl aligned) (le_roundUp pos)

structure Request where
  size : Nat
  alignment : Nat
  deriving DecidableEq, Repr

/-- An object handed out at `[base - offset, base - offset + size)`. -/
structure Block where
  offset : Nat
  size : Nat
  alignment : Nat
  deriving DecidableEq, Repr

namespace Block

def Disjoint (a b : Block) : Prop := a.offset ≤ b.offset - b.size ∨ b.offset ≤ a.offset - a.size

def Aligned (b : Block) : Prop := b.alignment ∣ b.offset

/-- The block lies between the offsets `lo` and `hi`. -/
structure Within (lo hi : Nat) (b : Block) : Prop where
  above : lo + b.size ≤ b.offset
  below : b.offset ≤ hi

theorem within_iff {lo hi : Nat} {b : Block} :
    b.Within lo hi ↔ lo + b.size ≤ b.offset ∧ b.offset ≤ hi :=
  ⟨fun h => ⟨h.above, h.below⟩, fun h => ⟨h.1, h.2⟩⟩

theorem Disjoint.symm {a b : Block} (h : a.Disjoint b) : b.Disjoint a := Or.symm h

theorem Within.mono {lo hi lo' hi' : Nat} {b : Block} (h : b.Within lo hi) (hlo : lo' ≤ lo)
    (hhi : hi ≤ hi') : b.Within lo' hi' :=
  ⟨(Nat.add_le_add_right hlo _).trans h.above, h.below.trans hhi⟩

theorem Within.disjoint {lo mid hi : Nat} {a b : Block} (ha : a.Within lo mid)
    (hb : b.Within mid hi) : a.Disjoint b :=
  .inl (ha.below.trans (Nat.le_sub_of_add_le hb.above))

end Block

/-- Two groups of blocks, one above the other. -/
theorem pairwise_append {lo mid hi : Nat} {as bs : List Block} (first : as.Pairwise Block.Disjoint)
    (second : bs.Pairwise Block.Disjoint) (below : ∀ a ∈ as, a.Within lo mid)
    (above : ∀ b ∈ bs, b.Within mid hi) : (as ++ bs).Pairwise Block.Disjoint :=
  List.pairwise_append.mpr ⟨first, second, fun a ha b hb => (below a ha).disjoint (above b hb)⟩

/-- The offset after one more object. -/
def Request.place (start : Nat) (r : Request) : Nat := roundUp (start + r.size) r.alignment

/-- The bytes lost to the alignment of one more object. -/
def Request.padding (start : Nat) (r : Request) : Nat := r.place start - (start + r.size)

def placeAll : Nat → List Request → Nat
  | start, [] => start
  | start, r :: rs => placeAll (r.place start) rs

def blocks : Nat → List Request → List Block
  | _, [] => []
  | start, r :: rs => ⟨r.place start, r.size, r.alignment⟩ :: blocks (r.place start) rs

def paddings : Nat → List Request → Nat
  | _, [] => 0
  | start, r :: rs => r.padding start + paddings (r.place start) rs

def sizes (rs : List Request) : Nat := (rs.map Request.size).sum

theorem placeAll_append (start : Nat) (rs ts : List Request) :
    placeAll start (rs ++ ts) = placeAll (placeAll start rs) ts := by
  induction rs generalizing start with
  | nil => rfl
  | cons r rs ih => exact ih (r.place start)

theorem blocks_append (start : Nat) (rs ts : List Request) :
    blocks start (rs ++ ts) = blocks start rs ++ blocks (placeAll start rs) ts := by
  induction rs generalizing start with
  | nil => rfl
  | cons r rs ih => exact congrArg _ (ih (r.place start))

theorem place_eq {r : Request} (pos : 0 < r.alignment) (start : Nat) :
    r.place start = start + r.size + r.padding start := by
  have le := le_roundUp (n := start + r.size) pos
  unfold Request.padding Request.place
  omega

section

variable {rs : List Request}

theorem placeAll_eq (pos : ∀ r ∈ rs, 0 < r.alignment) (start : Nat) :
    placeAll start rs = start + sizes rs + paddings start rs := by
  induction rs generalizing start with
  | nil => rfl
  | cons r rs ih =>
    have rest := ih (fun t ht => pos t (List.mem_cons_of_mem r ht)) (r.place start)
    have first := place_eq (pos r List.mem_cons_self) start
    simp only [placeAll, paddings, sizes, List.map_cons, List.sum_cons] at rest ⊢
    omega

theorem le_placeAll (pos : ∀ r ∈ rs, 0 < r.alignment) (start : Nat) :
    start ≤ placeAll start rs := by
  rw [placeAll_eq pos]
  omega

theorem blocks_aligned (start : Nat) : ∀ b ∈ blocks start rs, b.Aligned := by
  induction rs generalizing start with
  | nil => simp [blocks]
  | cons r rs ih =>
    intro b hb
    rcases List.mem_cons.mp hb with rfl | hb
    · exact dvd_roundUp _ _
    · exact ih _ b hb

theorem blocks_within (pos : ∀ r ∈ rs, 0 < r.alignment) (start : Nat) :
    ∀ b ∈ blocks start rs, b.Within start (placeAll start rs) := by
  induction rs generalizing start with
  | nil => simp [blocks]
  | cons r rs ih =>
    have posRest : ∀ t ∈ rs, 0 < t.alignment := fun t ht => pos t (List.mem_cons_of_mem r ht)
    have first := place_eq (pos r List.mem_cons_self) start
    intro b hb
    rcases List.mem_cons.mp hb with rfl | hb
    · exact ⟨by simp only; omega, le_placeAll posRest _⟩
    · exact (ih posRest _ b hb).mono (by omega) le_rfl

theorem blocks_disjoint (pos : ∀ r ∈ rs, 0 < r.alignment) (start : Nat) :
    (blocks start rs).Pairwise Block.Disjoint := by
  induction rs generalizing start with
  | nil => exact .nil
  | cons r rs ih =>
    have posRest : ∀ t ∈ rs, 0 < t.alignment := fun t ht => pos t (List.mem_cons_of_mem r ht)
    have first := place_eq (pos r List.mem_cons_self) start
    refine .cons (fun b hb => ?_) (ih posRest _)
    have own : Block.Within start (r.place start) ⟨r.place start, r.size, r.alignment⟩ :=
      ⟨by simp only; omega, le_rfl⟩
    exact own.disjoint (blocks_within posRest _ b hb)

/-- The last block ends where the allocation ends. -/
theorem exists_block_at_end (start : Nat) (ne : rs ≠ []) :
    ∃ b ∈ blocks start rs, b.offset = placeAll start rs := by
  induction rs generalizing start with
  | nil => exact absurd rfl ne
  | cons r rs ih =>
    cases rs with
    | nil => exact ⟨_, List.mem_cons_self, rfl⟩
    | cons t rs =>
      obtain ⟨b, hb, hend⟩ := ih (r.place start) (by simp)
      exact ⟨b, List.mem_cons_of_mem _ hb, hend⟩

/-- A bound on every offset bounds the end, and conversely. -/
theorem blocks_le_iff (pos : ∀ r ∈ rs, 0 < r.alignment) {start limit : Nat}
    (le : start ≤ limit) :
    (∀ b ∈ blocks start rs, b.offset ≤ limit) ↔ placeAll start rs ≤ limit := by
  constructor
  · intro h
    by_cases ne : rs = []
    · rw [ne]
      exact le
    · obtain ⟨b, hb, hend⟩ := exists_block_at_end start ne
      exact hend ▸ h b hb
  · intro h b hb
    exact (blocks_within pos start b hb).below.trans h

/-- Objects aligned to divisors of `word` take no more room than whole words would. -/
theorem placeAll_le_words {word : Nat} (pos : 0 < word)
    (aligned : ∀ r ∈ rs, 0 < r.alignment ∧ r.alignment ∣ word) (start : Nat) :
    placeAll start rs ≤ roundUp start word + (rs.map fun r => roundUp r.size word).sum := by
  induction rs generalizing start with
  | nil => exact le_roundUp pos
  | cons r rs ih =>
    obtain ⟨posAlign, divides⟩ := aligned r List.mem_cons_self
    have whole : word ∣ roundUp start word + roundUp r.size word :=
      Nat.dvd_add (dvd_roundUp _ _) (dvd_roundUp _ _)
    have fits : start + r.size ≤ roundUp start word + roundUp r.size word :=
      Nat.add_le_add (le_roundUp pos) (le_roundUp pos)
    have placed : roundUp (r.place start) word ≤ roundUp start word + roundUp r.size word :=
      roundUp_le pos (roundUp_le posAlign fits (divides.trans whole)) whole
    have rest := ih (fun t ht => aligned t (List.mem_cons_of_mem r ht)) (r.place start)
    rw [placeAll, List.map_cons, List.sum_cons]
    omega

end

end Bump
