import Mathlib.Data.List.Basic

/-! Which elements of an array a brace list initializes. Without braces of its own, an aggregate
takes as many items as it has members; a designator goes to the element of the enclosing list. -/

namespace BraceLists

/-- An object as an initializer sees it. A record has a first member, a union no other one. -/
inductive Shape
  | scalar (isChar : Bool)
  | array (part : Shape) (count : Nat)
  | record (id : Nat) (first : Shape) (others : List Shape)

structure Item (V : Type) where
  designator : Option Nat
  value : V

/-- What the values of a list are: lists in braces, string literals with their length, and
expressions, which may have the type of a record. -/
structure Reading (V : Type) where
  isList : V → Bool
  text : V → Option Nat
  record : V → Option Nat

namespace Reading

variable {V : Type} (r : Reading V)

/-- The value initializes an object of this shape as a whole. -/
def covers (v : V) : Shape → Bool
  | .scalar _ => true
  | .array part _ =>
    r.isList v || (r.text v).isSome &&
      match part with
      | .scalar isChar => isChar
      | _ => false
  | .record id _ _ => r.isList v || r.record v = some id

/-- The objects left of an element after `v` has initialized the first one of `s`. -/
def place (v : V) : Shape → List Shape → List Shape
  | .scalar _, pending => pending
  | .array part count, pending =>
    if r.covers v (.array part count) then pending
    else place v part (List.replicate (count - 1) part ++ pending)
  | .record id first others, pending =>
    if r.covers v (.record id first others) then pending else place v first (others ++ pending)

/-- Where the next item without a designator goes: to the `pending` objects of element `index`, or
to the whole element. -/
structure Place where
  index : Nat := 0
  pending : List Shape := []

def Place.after (index : Nat) (pending : List Shape) : Place :=
  ⟨if pending.isEmpty then index + 1 else index, pending⟩

/-- The element that an item goes to, and the place of the next one. -/
def step (element : Shape) (at_ : Place) (item : Item V) : Nat × Place :=
  match item.designator with
  | some n => (n, .after n (r.place item.value element []))
  | none =>
    match at_.pending with
    | [] => (at_.index, .after at_.index (r.place item.value element []))
    | s :: ss => (at_.index, .after at_.index (r.place item.value s ss))

def indicesFrom (element : Shape) : Place → List (Item V) → List Nat
  | _, [] => []
  | at_, item :: items =>
    (r.step element at_ item).1 :: indicesFrom element (r.step element at_ item).2 items

/-- The elements that a list assigns to. An array of characters takes a string literal in braces
character by character. -/
def indices (element : Shape) (items : List (Item V)) : List Nat :=
  match element, items with
  | .scalar true, [⟨none, v⟩] => ((r.text v).map fun n => List.range (n + 1)).getD [0]
  | _, _ => r.indicesFrom element {} items

end Reading

/-- One more than the largest index. -/
def reach : List Nat → Nat
  | [] => 0
  | i :: is => max (i + 1) (reach is)

theorem lt_reach {i : Nat} : ∀ {is : List Nat}, i ∈ is → i < reach is
  | _ :: _, mem => by
    rcases List.mem_cons.mp mem with rfl | later
    · exact Nat.lt_of_lt_of_le (Nat.lt_succ_self i) (Nat.le_max_left _ _)
    · exact Nat.lt_of_lt_of_le (lt_reach later) (Nat.le_max_right _ _)

theorem reach_le {n : Nat} : ∀ {is : List Nat}, (∀ i ∈ is, i + 1 ≤ n) → reach is ≤ n
  | [], _ => Nat.zero_le n
  | i :: _, below =>
    Nat.max_le.mpr ⟨below i List.mem_cons_self,
      reach_le fun j later => below j (List.mem_cons_of_mem i later)⟩

/-- The indices when every item is one element. -/
def positions {V : Type} : Nat → List (Item V) → List Nat
  | _, [] => []
  | cur, item :: items =>
    item.designator.getD cur :: positions (item.designator.getD cur + 1) items

namespace Reading

variable {V : Type} (r : Reading V)

theorem indicesFrom_scalar (isChar : Bool) : ∀ (items : List (Item V)) (cur : Nat),
    r.indicesFrom (.scalar isChar) ⟨cur, []⟩ items = positions cur items
  | [], _ => rfl
  | item :: items, cur => by
    have steps : r.step (.scalar isChar) ⟨cur, []⟩ item =
        (item.designator.getD cur, ⟨item.designator.getD cur + 1, []⟩) := by
      cases known : item.designator <;> simp [step, known, place, Place.after]
    rw [indicesFrom, positions, steps]
    exact congrArg _ (indicesFrom_scalar isChar items _)

/-- An element that has a designator is assigned in every reading. -/
theorem designator_mem_indicesFrom (element : Shape) {n : Nat} {item : Item V}
    (designated : item.designator = some n) : ∀ {items : List (Item V)} (at_ : Place),
    item ∈ items → n ∈ r.indicesFrom element at_ items
  | first :: items, at_, mem => by
    rw [indicesFrom]
    rcases List.mem_cons.mp mem with rfl | later
    · have here : (r.step element at_ item).1 = n := by simp [step, designated]
      rw [here]
      exact List.mem_cons_self
    · exact List.mem_cons_of_mem _ (designator_mem_indicesFrom element designated _ later)

theorem designator_lt_reach (element : Shape) {n : Nat} {item : Item V}
    (designated : item.designator = some n) {items : List (Item V)} (mem : item ∈ items) :
    n < reach (r.indices element items) := by
  have general := lt_reach (r.designator_mem_indicesFrom element designated {} mem)
  unfold indices
  split
  · rename_i v
    cases List.mem_singleton.mp mem
    cases designated
  · exact general

end Reading

end BraceLists
