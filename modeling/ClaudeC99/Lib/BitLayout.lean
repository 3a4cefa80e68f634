import ClaudeC99.Lib.Bump

/-! Packing of byte objects and bit fields into consecutive storage. Bit fields share a storage
unit while it has room and the next one asks for a unit of the same size. -/

namespace BitLayout

inductive Request
  | bytes (size align : Nat) (align_pos : 0 < align)
  | bits (width unit : Nat) (unit_pos : 0 < unit) (fits : width ≤ 8 * unit)
  /-- The next bit field starts a new unit. -/
  | close

/-- A storage unit is aligned to its own size. -/
def Request.align : Request → Nat
  | bytes _ align _ => align
  | bits _ unit _ _ => unit
  | close => 1

/-- A storage unit whose first `used` bits are taken. -/
structure Storage where
  byte : Nat
  size : Nat
  used : Nat
  aligned : size ∣ byte
  fits : used ≤ 8 * size

/-- The layout so far; an open unit is its end. -/
structure Cursor where
  stop : Nat
  storage : Option Storage
  at_end : ∀ u ∈ storage, u.byte + u.size = stop

/-- A place in the layout: a range of bits counted from a byte. -/
structure Slot where
  byte : Nat
  bit : Nat
  width : Nat
  deriving DecidableEq

namespace Slot

def first (s : Slot) : Nat := 8 * s.byte + s.bit

def last (s : Slot) : Nat := s.first + s.width

end Slot

namespace Cursor

def start : Cursor := ⟨0, none, by simp⟩

/-- The first bit that is not taken. -/
def free (c : Cursor) : Nat :=
  match c.storage with
  | none => 8 * c.stop
  | some u => 8 * u.byte + u.used

theorem free_le (c : Cursor) : c.free ≤ 8 * c.stop := by
  unfold free
  split
  · exact le_rfl
  · rename_i u opened
    have ends := c.at_end u opened
    have fits := u.fits
    omega

/-- The open unit has the size and the room for a bit field. -/
def Shares (c : Cursor) (width unit : Nat) (u : Storage) : Prop :=
  c.storage = some u ∧ u.size = unit ∧ u.used + width ≤ 8 * unit

/-- The unit of a bit field: the open one, or a new one at the end. -/
def unitFor (c : Cursor) (width unit : Nat) : Storage :=
  match c.storage.filter fun u => u.size = unit ∧ u.used + width ≤ 8 * unit with
  | some u => u
  | none => ⟨Bump.roundUp c.stop unit, unit, 0, Bump.dvd_roundUp _ _, Nat.zero_le _⟩

variable {c : Cursor} {width unit : Nat}

theorem unitFor_shared {u : Storage} (shares : c.Shares width unit u) :
    c.unitFor width unit = u := by
  obtain ⟨opened, rfl, room⟩ := shares
  simp [unitFor, opened, Option.filter, room]

theorem unitFor_new (none : ∀ u, ¬ c.Shares width unit u) :
    c.unitFor width unit =
      ⟨Bump.roundUp c.stop unit, unit, 0, Bump.dvd_roundUp _ _, Nat.zero_le _⟩ := by
  unfold unitFor
  split
  · rename_i u found
    have found : c.storage = some u ∧ u.size = unit ∧ u.used + width ≤ 8 * unit := by
      simpa using found
    exact absurd found (none u)
  · rfl

structure Hosts (c : Cursor) (width unit : Nat) (u : Storage) : Prop where
  size : u.size = unit
  room : u.used + width ≤ 8 * unit
  after : c.free ≤ 8 * u.byte + u.used
  end_le : c.stop ≤ u.byte + unit

theorem unitFor_hosts (pos : 0 < unit) (fits : width ≤ 8 * unit) :
    c.Hosts width unit (c.unitFor width unit) := by
  by_cases shared : ∃ u, c.Shares width unit u
  · obtain ⟨u, shares⟩ := shared
    rw [unitFor_shared shares]
    obtain ⟨opened, size, room⟩ := shares
    have ends := c.at_end u opened
    refine ⟨size, room, ?_, by omega⟩
    simp [free, opened]
  · rw [unitFor_new (not_exists.mp shared)]
    have le := Bump.le_roundUp (n := c.stop) pos
    have free := c.free_le
    exact ⟨rfl, by simpa using fits, by simp only; omega, by simp only; omega⟩

def slot (c : Cursor) : Request → Slot
  | .bytes size align _ => ⟨Bump.roundUp c.stop align, 0, 8 * size⟩
  | .bits width unit _ _ => ⟨(c.unitFor width unit).byte, (c.unitFor width unit).used, width⟩
  | .close => ⟨c.stop, 0, 0⟩

def next (c : Cursor) : Request → Cursor
  | .bytes size align _ => ⟨Bump.roundUp c.stop align + size, none, by simp⟩
  | .bits width unit pos fits =>
    let u := c.unitFor width unit
    have hosts := unitFor_hosts pos fits
    ⟨u.byte + unit, some ⟨u.byte, unit, u.used + width, hosts.size ▸ u.aligned, hosts.room⟩,
      by simp⟩
  | .close => ⟨c.stop, none, by simp⟩

theorem stop_le_next (c : Cursor) (r : Request) : c.stop ≤ (c.next r).stop := by
  cases r with
  | bytes size align pos =>
    have le := Bump.le_roundUp (n := c.stop) pos
    simp only [next]
    omega
  | bits width unit pos fits => exact (unitFor_hosts pos fits).end_le
  | close => exact le_rfl

theorem slot_after (c : Cursor) (r : Request) : c.free ≤ (c.slot r).first := by
  have free := c.free_le
  cases r with
  | bytes size align pos =>
    have le := Bump.le_roundUp (n := c.stop) pos
    simp only [slot, Slot.first]
    omega
  | bits width unit pos fits => exact (unitFor_hosts pos fits).after
  | close => simpa [slot, Slot.first] using free

/-- After an object the first free bit is behind it. -/
theorem slot_before (c : Cursor) (r : Request) : (c.slot r).last ≤ (c.next r).free := by
  cases r with
  | bytes size align pos =>
    simp only [slot, next, free, Slot.last, Slot.first]
    omega
  | bits width unit pos fits =>
    simp only [slot, next, free, Slot.last, Slot.first]
    omega
  | close => simp [slot, next, free, Slot.last, Slot.first]

end Cursor

def run : Cursor → List Request → Cursor
  | c, [] => c
  | c, r :: rs => run (c.next r) rs

def slots : Cursor → List Request → List Slot
  | _, [] => []
  | c, r :: rs => c.slot r :: slots (c.next r) rs

variable {rs : List Request} {c : Cursor}

theorem stop_le_run : c.stop ≤ (run c rs).stop := by
  induction rs generalizing c with
  | nil => exact le_rfl
  | cons r rs ih => exact (c.stop_le_next r).trans ih

theorem free_le_run : c.free ≤ (run c rs).free := by
  induction rs generalizing c with
  | nil => exact le_rfl
  | cons r rs ih =>
    calc c.free ≤ (c.slot r).first := c.slot_after r
      _ ≤ (c.slot r).last := Nat.le_add_right _ _
      _ ≤ (c.next r).free := c.slot_before r
      _ ≤ (run (c.next r) rs).free := ih

/-- Everything is laid out between the first free bit before and the one after. -/
theorem slots_within : ∀ s ∈ slots c rs, c.free ≤ s.first ∧ s.last ≤ (run c rs).free := by
  induction rs generalizing c with
  | nil => simp [slots]
  | cons r rs ih =>
    intro s member
    have behind : (c.slot r).last ≤ (c.next r).free := c.slot_before r
    rcases List.mem_cons.mp member with rfl | member
    · exact ⟨c.slot_after r, behind.trans free_le_run⟩
    · obtain ⟨after, before⟩ := ih s member
      have own : (c.slot r).first ≤ (c.slot r).last := Nat.le_add_right _ _
      exact ⟨(c.slot_after r).trans (own.trans (behind.trans after)), before⟩

/-- Each slot ends before the later ones begin. -/
theorem slots_ordered : (slots c rs).Pairwise fun a b => a.last ≤ b.first := by
  induction rs generalizing c with
  | nil => exact .nil
  | cons r rs ih =>
    refine .cons ?_ ih
    intro s member
    exact (c.slot_before r).trans (slots_within s member).1

theorem slots_inside : ∀ s ∈ slots c rs, s.last ≤ 8 * (run c rs).stop := by
  intro s member
  exact (slots_within s member).2.trans (run c rs).free_le

/-- The place of one object among the others. -/
def Slot.Fits (s : Slot) : Request → Prop
  | .bytes size align _ => align ∣ s.byte ∧ s.bit = 0 ∧ s.width = 8 * size
  | .bits width unit _ _ => unit ∣ s.byte ∧ s.bit + s.width ≤ 8 * unit ∧ s.width = width
  | .close => s.width = 0

theorem slot_fits (c : Cursor) (r : Request) : (c.slot r).Fits r := by
  cases r with
  | bytes size align pos => exact ⟨Bump.dvd_roundUp _ _, rfl, rfl⟩
  | bits width unit pos fits =>
    have hosts := Cursor.unitFor_hosts (c := c) pos fits
    have aligned := (c.unitFor width unit).aligned
    rw [hosts.size] at aligned
    exact ⟨aligned, hosts.room, rfl⟩
  | close => rfl

theorem slots_fit : List.Forall₂ Slot.Fits (slots c rs) rs := by
  induction rs generalizing c with
  | nil => exact .nil
  | cons r rs ih => exact .cons (slot_fits c r) ih

end BitLayout
