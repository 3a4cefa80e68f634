import Mathlib.Data.List.Nodup

/-! Tables kept as lists, where a change is made to the first row that matches. -/

namespace Tables

variable {α : Type}

def updateFirst (p : α → Bool) (f : α → α) : List α → List α
  | [] => []
  | a :: rest => if p a = true then f a :: rest else a :: updateFirst p f rest

theorem find?_updateFirst {p : α → Bool} {f : α → α} (keeps : ∀ a, p a = true → p (f a) = true)
    (rows : List α) :
    (updateFirst p f rows).find? p = (rows.find? p).map f := by
  induction rows with
  | nil => rfl
  | cons a rest ih =>
    rw [updateFirst]
    by_cases first : p a = true
    · simp [first, keeps a first]
    · simp [first, ih]

theorem find?_updateFirst_of_not {p q : α → Bool} {f : α → α}
    (apart : ∀ a, p a = true → q a = false ∧ q (f a) = false) (rows : List α) :
    (updateFirst p f rows).find? q = rows.find? q := by
  induction rows with
  | nil => rfl
  | cons a rest ih =>
    rw [updateFirst]
    by_cases first : p a = true
    · simp [first, apart a first]
    · simp [first, List.find?_cons, ih]

theorem updateFirst_last {p : α → Bool} {f : α → α} {rows : List α} {a : α}
    (none : rows.find? p = none) (last : p a = true) :
    updateFirst p f (rows ++ [a]) = rows ++ [f a] := by
  induction rows with
  | nil => simp [updateFirst, last]
  | cons b rest ih =>
    rw [List.find?_cons] at none
    by_cases first : p b = true
    · simp [first] at none
    · simp only [first] at none
      simp [updateFirst, first, ih none]

theorem find?_last {p : α → Bool} {rows : List α} {a : α} (none : rows.find? p = none)
    (last : p a = true) : (rows ++ [a]).find? p = some a := by
  simp [List.find?_append, none, last]

/-- In an ordered table the first row that matches is the least of them. -/
theorem find?_ordered {r : α → α → Prop} (asymm : ∀ a b, r a b → ¬ r b a) {rows : List α}
    (ordered : rows.Pairwise r) {p : α → Bool} {a : α} :
    rows.find? p = some a ↔ (a ∈ rows ∧ p a = true) ∧ ∀ b ∈ rows, p b = true → b = a ∨ r a b := by
  induction rows with
  | nil => simp
  | cons c rest ih =>
    obtain ⟨first, ordered⟩ := List.pairwise_cons.mp ordered
    rw [List.find?_cons]
    cases matched : p c with
    | true =>
      constructor
      · intro found
        cases found
        refine ⟨⟨List.mem_cons_self, matched⟩, ?_⟩
        intro b member _
        exact (List.mem_cons.mp member).imp_right (first b)
      · rintro ⟨⟨member, -⟩, least⟩
        rcases List.mem_cons.mp member with rfl | later
        · rfl
        · rcases least c List.mem_cons_self matched with rfl | before
          · rfl
          · exact absurd before (asymm c a (first a later))
    | false =>
      refine (ih ordered).trans (and_congr (and_congr_left ?_) ?_)
      · intro holds
        have other : a ≠ c := by
          rintro rfl
          cases matched.symm.trans holds
        simp [other]
      · simp [matched]

/-! Rows with keys, where a row is removed by moving the last one to its place. -/

section Keyed

variable {κ : Type} {key : α → κ}

/-- No two rows have one key. -/
def Distinct (key : α → κ) (rows : List α) : Prop := (rows.map key).Nodup

theorem Distinct.perm {rows rows' : List α} (distinct : Distinct key rows)
    (same : rows.Perm rows') : Distinct key rows' :=
  (same.map key).nodup_iff.mp distinct

theorem Distinct.erase {rows : List α} (distinct : Distinct key rows) (p : α → Bool) :
    Distinct key (rows.eraseP p) :=
  distinct.sublist (List.eraseP_sublist.map key)

variable [DecidableEq κ]

def findKey (key : α → κ) (rows : List α) (k : κ) : Option α := rows.find? fun a => key a = k

def removeKey (key : α → κ) (rows : List α) (k : κ) : List α :=
  match rows.findIdx? (fun a => key a = k), rows.getLast? with
  | some i, some last => (rows.set i last).dropLast
  | _, _ => rows

theorem swap_perm {rows : List α} {i : Nat} {last : α} (inside : i < rows.length)
    (ends : rows.getLast? = some last) :
    ((rows.set i last).dropLast).Perm (rows.eraseIdx i) := by
  obtain ⟨front, rfl⟩ := List.getLast?_eq_some_iff.mp ends
  rw [List.length_append, List.length_singleton] at inside
  rcases Nat.lt_succ_iff_lt_or_eq.mp inside with before | rfl
  · have moved : (front.take i ++ last :: front.drop (i + 1)).Perm
        (last :: (front.take i ++ front.drop (i + 1))) := List.perm_middle
    rw [List.set_append_left _ _ before, List.dropLast_concat,
      List.eraseIdx_append_of_lt_length before, List.set_eq_take_append_cons_drop, if_pos before,
      List.eraseIdx_eq_take_drop_succ]
    exact moved.trans (List.perm_append_singleton _ _).symm
  · rw [List.set_append_right _ _ (Nat.le_refl _), Nat.sub_self, List.set_cons_zero,
      List.dropLast_concat, List.eraseIdx_append_of_length_le (Nat.le_refl _), Nat.sub_self]
    simp

theorem removeKey_perm (rows : List α) (k : κ) :
    (removeKey key rows k).Perm (rows.eraseP fun a => key a = k) := by
  rw [List.eraseP_eq_eraseIdx, removeKey]
  cases found : rows.findIdx? fun a => key a = k with
  | none => exact List.Perm.refl rows
  | some i =>
    have inside := (List.findIdx?_eq_some_iff_getElem.mp found).1
    cases ends : rows.getLast? with
    | none =>
      rw [List.getLast?_eq_none_iff.mp ends] at inside
      cases inside
    | some last => exact swap_perm inside ends

theorem findKey_eq_some {rows : List α} (distinct : Distinct key rows) {k : κ} {a : α} :
    findKey key rows k = some a ↔ a ∈ rows ∧ key a = k := by
  constructor
  · intro found
    exact ⟨List.mem_of_find?_eq_some found, by simpa using List.find?_some found⟩
  · rintro ⟨member, rfl⟩
    cases found : findKey key rows (key a) with
    | none =>
      have other := List.find?_eq_none.mp found a member
      simp at other
    | some b =>
      have named : key b = key a := by simpa using List.find?_some found
      rw [List.inj_on_of_nodup_map distinct (List.mem_of_find?_eq_some found) member named]

theorem Distinct.removeKey {rows : List α} (distinct : Distinct key rows) (k : κ) :
    Distinct key (removeKey key rows k) :=
  (distinct.erase _).perm (removeKey_perm rows k).symm

/-- Of rows with different keys, removing the row of a key removes nothing else. -/
theorem mem_erase {rows : List α} (distinct : Distinct key rows) {k : κ} {a : α} :
    a ∈ rows.eraseP (fun a => key a = k) ↔ a ∈ rows ∧ key a ≠ k := by
  induction rows with
  | nil => simp
  | cons b rows ih =>
    have apart := List.nodup_cons.mp distinct
    by_cases here : key b = k
    · rw [List.eraseP_cons_of_pos (by simp [here]), List.mem_cons]
      constructor
      · intro member
        refine ⟨.inr member, fun named => apart.1 ?_⟩
        rw [here, ← named]
        exact List.mem_map_of_mem member
      · rintro ⟨rfl | member, other⟩
        · exact absurd here other
        · exact member
    · rw [List.eraseP_cons_of_neg (by simp [here]), List.mem_cons, List.mem_cons, ih apart.2]
      constructor
      · rintro (rfl | later)
        · exact ⟨.inl rfl, here⟩
        · exact ⟨.inr later.1, later.2⟩
      · rintro ⟨rfl | member, other⟩
        · exact .inl rfl
        · exact .inr ⟨member, other⟩

theorem findKey_removeKey {rows : List α} (distinct : Distinct key rows) (k j : κ) :
    findKey key (removeKey key rows k) j = if k = j then none else findKey key rows j := by
  apply Option.ext
  intro a
  rw [findKey_eq_some (distinct.removeKey k), (removeKey_perm rows k).mem_iff, mem_erase distinct]
  split
  · next same =>
    constructor
    · rintro ⟨⟨-, other⟩, named⟩
      exact absurd (named.trans same.symm) other
    · intro none
      cases none
  · next apart =>
    rw [findKey_eq_some distinct]
    constructor
    · rintro ⟨⟨member, -⟩, named⟩
      exact ⟨member, named⟩
    · rintro ⟨member, named⟩
      exact ⟨⟨member, fun other => apart (other.symm.trans named)⟩, named⟩

theorem findKey_concat {rows : List α} {a : α} (fresh : findKey key rows (key a) = none) (j : κ) :
    findKey key (rows ++ [a]) j = if key a = j then some a else findKey key rows j := by
  rw [findKey, List.find?_append, List.find?_singleton]
  by_cases here : key a = j
  · subst here
    have none : rows.find? (fun b => key b = key a) = none := fresh
    simp [none]
  · simp [here, findKey]

theorem Distinct.concat {rows : List α} (distinct : Distinct key rows) {a : α}
    (fresh : findKey key rows (key a) = none) : Distinct key (rows ++ [a]) := by
  have absent : key a ∉ rows.map key := by
    intro member
    obtain ⟨b, inside, named⟩ := List.mem_map.mp member
    have other := List.find?_eq_none.mp fresh b inside
    simp [named] at other
  rw [Distinct, List.map_append, List.map_singleton]
  exact List.nodup_append.mpr ⟨distinct, by simp, by simpa using absent⟩

end Keyed

end Tables
