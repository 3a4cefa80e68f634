import ClaudeC99.Lib.StateExcept

/-! Tables to which declarations are registered one after another. A declaration is checked
against the row of its name and changes that row only. -/

namespace Registries

open StateExcept (bind_eq_ok)

variable {T D K R ε : Type}

structure Registry (T D K R ε : Type) where
  name : D → K
  find : T → K → Option R
  register : T → D → Except ε T

/-- `Q` holds of each declaration and those before it. -/
def Each (Q : List D → D → Prop) (ds : List D) : Prop :=
  ∀ before d after, ds = before ++ d :: after → Q before d

theorem each_nil {Q : List D → D → Prop} : Each Q [] := by
  intro before d after split
  simp at split

theorem each_snoc {Q : List D → D → Prop} {ds : List D} {d : D} :
    Each Q (ds ++ [d]) ↔ Each Q ds ∧ Q ds d := by
  constructor
  · intro all
    constructor
    · intro before e after split
      exact all before e (after ++ [d]) (by simp [split])
    · exact all ds d [] rfl
  · intro ⟨earlier, last⟩ before e after split
    rcases List.eq_nil_or_concat after with rfl | ⟨rest, f, rfl⟩
    · obtain ⟨rfl, same⟩ := List.append_inj' split rfl
      cases same
      exact last
    · rw [List.concat_eq_append, ← List.cons_append, ← List.append_assoc] at split
      exact earlier before e rest (List.append_inj' split rfl).1

namespace Registry

variable (G : Registry T D K R ε)

def run (t : T) (ds : List D) : Except ε T := ds.foldlM G.register t

/-- The declarations of one name. -/
def named [DecidableEq K] (k : K) (ds : List D) : List D := ds.filter fun d => G.name d = k

/-- An accepted declaration makes or changes the row of its name, as `Row` says, and no other. -/
structure Governed (Row : Option R → D → R → Prop) : Prop where
  declared : ∀ {t d t'}, G.register t d = .ok t' →
    ∃ r, G.find t' (G.name d) = some r ∧ Row (G.find t (G.name d)) d r
  others : ∀ {t d t' k}, G.register t d = .ok t' → k ≠ G.name d → G.find t' k = G.find t k

variable {G} [DecidableEq K] {Row : Option R → D → R → Prop} (governed : G.Governed Row)
  {Inv : List D → R → Prop}

include governed

/-- What the row says of the declarations so far, it says of those that are still to come. -/
theorem run_invariant_from
    (next : ∀ {ds d r r'}, Inv ds r → Row (some r) d r' → Inv (ds ++ [d]) r') {t t' : T}
    {ds seen : List D} {k : K} {r : R} (found : G.find t k = some r) (holds : Inv seen r)
    (accepted : G.run t ds = .ok t') :
    ∃ r', G.find t' k = some r' ∧ Inv (seen ++ G.named k ds) r' := by
  induction ds generalizing t seen r with
  | nil =>
    cases accepted
    exact ⟨r, found, by simpa [named] using holds⟩
  | cons d rest ih =>
    rw [run, List.foldlM_cons] at accepted
    obtain ⟨u, first, later⟩ := bind_eq_ok.mp accepted
    by_cases same : G.name d = k
    · subst same
      obtain ⟨r', found', row⟩ := governed.declared first
      rw [found] at row
      have ended := ih found' (next holds row) later
      have split : G.named (G.name d) (d :: rest) = d :: G.named (G.name d) rest := by simp [named]
      rw [List.append_assoc, List.singleton_append] at ended
      rw [split]
      exact ended
    · have kept := governed.others first (Ne.symm same)
      have split : G.named k (d :: rest) = G.named k rest := by simp [named, same]
      rw [split]
      exact ih (kept.trans found) holds later

/-- An invariant of a row and the declarations of its name that the first one establishes and each
further one keeps. -/
theorem run_invariant (first : ∀ {d r}, Row none d r → Inv [d] r)
    (next : ∀ {ds d r r'}, Inv ds r → Row (some r) d r' → Inv (ds ++ [d]) r') {t t' : T}
    {ds : List D} {k : K} (fresh : G.find t k = none) (accepted : G.run t ds = .ok t')
    (some : G.named k ds ≠ []) :
    ∃ r, G.find t' k = .some r ∧ Inv (G.named k ds) r := by
  induction ds generalizing t with
  | nil => exact absurd rfl some
  | cons d rest ih =>
    rw [run, List.foldlM_cons] at accepted
    obtain ⟨u, head, later⟩ := bind_eq_ok.mp accepted
    by_cases same : G.name d = k
    · subst same
      obtain ⟨r, found, row⟩ := governed.declared head
      rw [fresh] at row
      have split : G.named (G.name d) (d :: rest) = [d] ++ G.named (G.name d) rest := by
        simp [named]
      rw [split]
      exact run_invariant_from governed next found (first row) later
    · have kept := governed.others head (Ne.symm same)
      have split : G.named k (d :: rest) = G.named k rest := by simp [named, same]
      rw [split] at some ⊢
      exact ih (kept.trans fresh) later some

end Registry

end Registries
