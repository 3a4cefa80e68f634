import Mathlib.Data.List.Basic

/-! Lists of tokens with brackets, and fields that separators divide outside of the brackets. -/

namespace Brackets

inductive Kind
  | opening
  | closing
  | separator
  | plain
  deriving DecidableEq, Repr

variable {α : Type} (kind : α → Kind)

/-- Every bracket has its partner. -/
inductive Nested : List α → Prop
  | nil : Nested []
  | single {a : α} {w : List α} (noOpening : kind a ≠ .opening) (noClosing : kind a ≠ .closing)
      (rest : Nested w) : Nested (a :: w)
  | group {a b : α} {v w : List α} (opens : kind a = .opening) (inner : Nested v)
      (closes : kind b = .closing) (rest : Nested w) : Nested (a :: v ++ b :: w)

/-- Nested, with no separator outside of the brackets. -/
inductive Field : List α → Prop
  | nil : Field []
  | single {a : α} {w : List α} (plain : kind a = .plain) (rest : Field w) : Field (a :: w)
  | group {a b : α} {v w : List α} (opens : kind a = .opening) (inner : Nested kind v)
      (closes : kind b = .closing) (rest : Field w) : Field (a :: v ++ b :: w)

/-- Fields up to the bracket that closes them, and what follows it. -/
inductive Fields : List α → List (List α) → List α → Prop
  | last {v rest : List α} {b : α} (field : Field kind v) (closes : kind b = .closing) :
      Fields (v ++ b :: rest) [v] rest
  | more {v w rest : List α} {fields : List (List α)} {a : α} (field : Field kind v)
      (separates : kind a = .separator) (later : Fields w fields rest) :
      Fields (v ++ a :: w) (v :: fields) rest

/-- One pass with a depth; `v` is the field so far. The field that is not finished is dropped. -/
def split : Nat → List α → List α → List (List α) × Option (List α)
  | _, _, [] => ([], none)
  | depth, v, a :: w =>
    match kind a with
    | .opening => split (depth + 1) (v ++ [a]) w
    | .closing =>
      match depth with
      | 0 => ([v], some w)
      | depth + 1 => split depth (v ++ [a]) w
    | .separator =>
      match depth with
      | 0 => (v :: (split 0 [] w).1, (split 0 [] w).2)
      | depth + 1 => split (depth + 1) (v ++ [a]) w
    | .plain => split depth (v ++ [a]) w

/-- The separators outside of the brackets. -/
def separators : Nat → List α → Nat
  | _, [] => 0
  | depth, a :: w =>
    match kind a with
    | .opening => separators (depth + 1) w
    | .closing => separators (depth - 1) w
    | .separator => if depth = 0 then separators 0 w + 1 else separators depth w
    | .plain => separators depth w

variable {kind}

section Steps

variable {a : α} {depth : Nat} {v w : List α}

theorem split_opening (opens : kind a = .opening) :
    split kind depth v (a :: w) = split kind (depth + 1) (v ++ [a]) w := by
  cases depth <;> rw [split, opens]

theorem split_closing (closes : kind a = .closing) :
    split kind (depth + 1) v (a :: w) = split kind depth (v ++ [a]) w := by
  rw [split, closes]

theorem split_closed (closes : kind a = .closing) : split kind 0 v (a :: w) = ([v], some w) := by
  rw [split, closes]

theorem split_separator (separates : kind a = .separator) :
    split kind 0 v (a :: w) = (v :: (split kind 0 [] w).1, (split kind 0 [] w).2) := by
  rw [split, separates]

theorem split_plain (plain : kind a = .plain) :
    split kind depth v (a :: w) = split kind depth (v ++ [a]) w := by
  cases depth <;> rw [split, plain]

theorem split_inside (noOpening : kind a ≠ .opening) (noClosing : kind a ≠ .closing) :
    split kind (depth + 1) v (a :: w) = split kind (depth + 1) (v ++ [a]) w := by
  rw [split]
  cases here : kind a with
  | opening => exact absurd here noOpening
  | closing => exact absurd here noClosing
  | separator | plain => rfl

end Steps

theorem split_nested {u : List α} (nested : Nested kind u) (depth : Nat) (v w : List α) :
    split kind (depth + 1) v (u ++ w) = split kind (depth + 1) (v ++ u) w := by
  induction nested generalizing depth v w with
  | nil => simp
  | single noOpening noClosing _ ih =>
    rw [List.cons_append, split_inside noOpening noClosing, ih]
    simp
  | group opens _ closes _ inner rest =>
    rw [List.cons_append, List.cons_append, split_opening opens, List.append_assoc, inner,
      List.cons_append, split_closing closes, rest]
    simp

theorem split_field {u : List α} (field : Field kind u) (v w : List α) :
    split kind 0 v (u ++ w) = split kind 0 (v ++ u) w := by
  induction field generalizing v w with
  | nil => simp
  | single plain _ ih =>
    rw [List.cons_append, split_plain plain, ih]
    simp
  | group opens inner closes _ ih =>
    rw [List.cons_append, List.cons_append, split_opening opens, List.append_assoc,
      split_nested inner, List.cons_append, split_closing closes, ih]
    simp

/-- The pass finds the fields. -/
theorem Fields.split {w rest : List α} {fields : List (List α)} (closed : Fields kind w fields rest) :
    Brackets.split kind 0 [] w = (fields, some rest) := by
  induction closed with
  | last field closes => rw [split_field field, List.nil_append, split_closed closes]
  | more field separates _ ih =>
    rw [split_field field, List.nil_append, split_separator separates, ih]

theorem Nested.append {v w : List α} (left : Nested kind v) (right : Nested kind w) :
    Nested kind (v ++ w) := by
  induction left with
  | nil => exact right
  | single noOpening noClosing _ ih => exact .single noOpening noClosing ih
  | group opens inner closes _ _ ih =>
    rw [List.append_assoc, List.cons_append]
    exact .group opens inner closes ih

theorem Field.append {v w : List α} (left : Field kind v) (right : Field kind w) :
    Field kind (v ++ w) := by
  induction left with
  | nil => exact right
  | single plain _ ih => exact .single plain ih
  | group opens inner closes _ ih =>
    rw [List.append_assoc, List.cons_append]
    exact .group opens inner closes ih

variable (kind) in
/-- What has been read of a field inside some brackets. -/
inductive Open : Nat → List α → Prop
  | field {v : List α} (field : Field kind v) : Open 0 v
  | inside {depth : Nat} {v w : List α} {a : α} (outer : Open depth v) (opens : kind a = .opening)
      (inner : Nested kind w) : Open (depth + 1) (v ++ a :: w)

namespace Open

variable {depth : Nat} {v : List α} {a : α}

theorem opening (before : Open kind depth v) (opens : kind a = .opening) :
    Open kind (depth + 1) (v ++ [a]) := .inside before opens .nil

theorem group {b : α} {w : List α} (before : Open kind depth v)
    (opens : kind a = .opening) (inner : Nested kind w) (closes : kind b = .closing) :
    Open kind depth (v ++ (a :: w ++ [b])) := by
  cases before with
  | field field => exact .field (field.append (.group opens inner closes .nil))
  | inside outer opens' inner' =>
    rw [List.append_assoc, List.cons_append]
    exact .inside outer opens' (inner'.append (.group opens inner closes .nil))

theorem closing (before : Open kind (depth + 1) v) (closes : kind a = .closing) :
    Open kind depth (v ++ [a]) := by
  cases before with
  | inside outer opens inner =>
    have whole := outer.group opens inner closes
    simpa using whole

theorem plain (before : Open kind depth v) (plain : kind a = .plain) :
    Open kind depth (v ++ [a]) := by
  cases before with
  | field field => exact .field (field.append (.single plain .nil))
  | inside outer opens inner =>
    rw [List.append_assoc, List.cons_append]
    exact .inside outer opens (inner.append (.single (by simp [plain]) (by simp [plain]) .nil))

theorem separator (before : Open kind (depth + 1) v) (separates : kind a = .separator) :
    Open kind (depth + 1) (v ++ [a]) := by
  cases before with
  | inside outer opens inner =>
    rw [List.append_assoc, List.cons_append]
    exact .inside outer opens
      (inner.append (.single (by simp [separates]) (by simp [separates]) .nil))

end Open

/-- What the pass closes are fields. -/
theorem fields_of_split {depth : Nat} {v w rest : List α} {fields : List (List α)}
    (before : Open kind depth v) (closed : split kind depth v w = (fields, some rest)) :
    Fields kind (v ++ w) fields rest := by
  induction w generalizing depth v fields with
  | nil => cases closed
  | cons a w ih =>
    have push : v ++ a :: w = (v ++ [a]) ++ w := by simp
    cases here : kind a with
    | opening =>
      rw [split_opening here] at closed
      rw [push]
      exact ih (before.opening here) closed
    | plain =>
      rw [split_plain here] at closed
      rw [push]
      exact ih (before.plain here) closed
    | closing =>
      cases depth with
      | zero =>
        rw [split_closed here] at closed
        cases closed
        cases before with
        | field field => exact .last field here
      | succ depth =>
        rw [split_closing here] at closed
        rw [push]
        exact ih (before.closing here) closed
    | separator =>
      cases depth with
      | zero =>
        rw [split_separator here] at closed
        cases later : split kind 0 [] w with
        | mk fields' rest' =>
          rw [later] at closed
          cases closed
          cases before with
          | field field => exact .more field here (ih (.field .nil) later)
      | succ depth =>
        rw [split_inside (by simp [here]) (by simp [here])] at closed
        rw [push]
        exact ih (before.separator here) closed

theorem fields_iff {w rest : List α} {fields : List (List α)} :
    Fields kind w fields rest ↔ split kind 0 [] w = (fields, some rest) :=
  ⟨Fields.split, fields_of_split (.field .nil)⟩

/-- Without a closing bracket there is a field for each separator. -/
theorem split_open {depth : Nat} {v w : List α} (opened : (split kind depth v w).2 = none) :
    (split kind depth v w).1.length = separators kind depth w := by
  induction w generalizing depth v with
  | nil => rfl
  | cons a w ih =>
    cases here : kind a with
    | opening =>
      rw [split_opening here] at opened ⊢
      rw [ih opened, separators, here]
    | plain =>
      rw [split_plain here] at opened ⊢
      rw [ih opened, separators, here]
    | closing =>
      cases depth with
      | zero =>
        rw [split_closed here] at opened
        cases opened
      | succ depth =>
        rw [split_closing here] at opened ⊢
        rw [ih opened, separators, here]
        rfl
    | separator =>
      cases depth with
      | zero =>
        rw [split_separator here] at opened ⊢
        rw [List.length_cons, ih opened, separators, here]
        rfl
      | succ depth =>
        rw [split_inside (by simp [here]) (by simp [here])] at opened ⊢
        rw [ih opened, separators, here]
        rfl

/-- The field so far goes to the first field that is found. -/
def prepend (u : List α) : List (List α) → List (List α)
  | [] => []
  | v :: fields => (u ++ v) :: fields

variable (kind) in
theorem split_prepend (depth : Nat) (u v w : List α) :
    split kind depth (u ++ v) w =
      (prepend u (split kind depth v w).1, (split kind depth v w).2) := by
  induction w generalizing depth v with
  | nil => rfl
  | cons a w ih =>
    cases here : kind a with
    | opening => rw [split_opening here, split_opening here, List.append_assoc, ih]
    | plain => rw [split_plain here, split_plain here, List.append_assoc, ih]
    | closing =>
      cases depth with
      | zero => rw [split_closed here, split_closed here]; rfl
      | succ depth => rw [split_closing here, split_closing here, List.append_assoc, ih]
    | separator =>
      cases depth with
      | zero => rw [split_separator here, split_separator here]; rfl
      | succ depth =>
        rw [split_inside (by simp [here]) (by simp [here]),
          split_inside (by simp [here]) (by simp [here]), List.append_assoc, ih]

end Brackets
