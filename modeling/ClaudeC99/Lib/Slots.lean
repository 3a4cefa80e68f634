import Mathlib.Data.List.Basic

/-! Arrays that are filled entry by entry, and loops that copy a part of one array into another. -/

/-- An array whose entries may not have been written yet. -/
abbrev Slots (α : Type) := List (Option α)

namespace Slots

variable {α : Type}

/-- A fresh array of `n` entries. -/
def fresh (α : Type) (n : Int) : Slots α := List.replicate n.toNat none

/-- A write, which has to be inside the array. -/
def store (slots : Slots α) (index : Int) (a : α) : Option (Slots α) :=
  if 0 ≤ index ∧ index < slots.length then some (slots.set index.toNat (some a)) else none

/-- `for (; j < stop; j++) slots[j + shift] = source[j];` -/
def copy (source : List α) (shift : Int) (stop j : Nat) (slots : Slots α) : Option (Slots α) :=
  if j < stop then
    (source[j]?).bind fun a => (store slots (j + shift) a).bind (copy source shift stop (j + 1))
  else some slots
  termination_by stop - j

/-- The entries, all of which have to be written. -/
def contents : Slots α → Option (List α)
  | [] => some []
  | a :: slots => a.bind fun a => (contents slots).map (a :: ·)

@[simp] theorem contents_map_some (written : List α) : contents (written.map some) = some written := by
  induction written with
  | nil => rfl
  | cons a written ih => simp [contents, ih]

theorem store_append {front back : Slots α} {old : Option α} {index : Int}
    (place : (front.length : Int) = index) (a : α) :
    store (front ++ old :: back) index a = some (front ++ some a :: back) := by
  subst place
  have inside : (front.length : Int) < (front ++ old :: back).length := by
    rw [List.length_append, List.length_cons]
    omega
  rw [store, if_pos ⟨Int.natCast_nonneg _, inside⟩, Int.toNat_natCast,
    List.set_append_right _ _ (Nat.le_refl _), Nat.sub_self, List.set_cons_zero]

/-- The loop writes the part that it reads, and nothing else. -/
theorem copy_append (before part after : List α) (front hole back : Slots α) {shift : Int}
    {stop j : Nat} (start : before.length = j) (ends : stop = j + part.length)
    (place : (front.length : Int) = j + shift) (room : hole.length = part.length) :
    copy (before ++ part ++ after) shift stop j (front ++ hole ++ back) =
      some (front ++ part.map some ++ back) := by
  induction part generalizing before front hole j with
  | nil =>
    rw [List.length_nil] at ends room
    rw [copy, if_neg (by omega), List.length_eq_zero_iff.mp room]
    simp
  | cons a part ih =>
    cases hole with
    | nil => cases room
    | cons old hole =>
      rw [List.length_cons] at ends
      have read : (before ++ a :: part ++ after)[j]? = some a := by
        subst start
        simp
      have written : store (front ++ old :: (hole ++ back)) (j + shift) a =
          some (front ++ some a :: (hole ++ back)) := store_append place a
      rw [copy, if_pos (by omega), read, Option.bind_some, List.append_assoc front,
        List.cons_append, written, Option.bind_some]
      have next := ih (before ++ [a]) (front ++ [some a]) hole (j := j + 1)
        (by simp [start]) (by omega) (by simp; omega) (Nat.succ.inj room)
      simpa using next

theorem fresh_length (n : Nat) : (fresh α n).length = n := by simp [fresh]

end Slots
