import ClaudeC99.Lib.StateExcept
import Mathlib.Data.Nat.Init
import Mathlib.Order.Nat

/-! Operator precedence: expression trees printed with the fewest parentheses, and readers that
descend one function for each level of binary operators. The states of a reader are abstract. -/

namespace Precedence

open StateExcept (bind_eq_ok)

variable {σ ε V A U B : Type}

/-- Expressions over atoms, unary and binary operators. -/
inductive Tree (A U B : Type)
  | atom (a : A)
  | unary (op : U) (operand : Tree A U B)
  | binary (op : B) (left right : Tree A U B)
  | conditional (cond thenTree elseTree : Tree A U B)
  deriving DecidableEq, Repr

inductive Word (A U B : Type)
  | atom (a : A)
  | unary (op : U)
  | binary (op : B)
  | openParen | closeParen | question | colon
  deriving DecidableEq, Repr

/-- A word that may come after an operand. -/
def Word.Follows : Word A U B → Prop
  | .binary _ | .closeParen | .question | .colon => True
  | _ => False

/-- Binary operators bind at levels from 1 to `levels`, a looser one at a smaller level. -/
structure Grammar (B : Type) where
  levels : Nat
  level : B → Nat
  level_pos : ∀ op, 1 ≤ level op
  level_le : ∀ op, level op ≤ levels

namespace Tree

def level (G : Grammar B) : Tree A U B → Nat
  | conditional _ _ _ => 0
  | binary op _ _ => G.level op
  | unary _ _ => G.levels + 1
  | atom _ => G.levels + 2

/-- The words of a tree where a tree of level `k` may stand. -/
def bracket (k own : Nat) (words : List (Word A U B)) : List (Word A U B) :=
  if own < k then .openParen :: words ++ [.closeParen] else words

/-- The words of a tree that needs no parentheses around it. -/
def words (G : Grammar B) : Tree A U B → List (Word A U B)
  | atom a => [.atom a]
  | unary op e => .unary op :: bracket (G.levels + 1) (e.level G) (e.words G)
  | binary op l r =>
    bracket (G.level op) (l.level G) (l.words G) ++
      .binary op :: bracket (G.level op + 1) (r.level G) (r.words G)
  | conditional c t e =>
    bracket 1 (c.level G) (c.words G) ++ .question :: (t.words G ++ .colon :: e.words G)

def print (G : Grammar B) (k : Nat) (e : Tree A U B) : List (Word A U B) :=
  bracket k (e.level G) (e.words G)

theorem print_of_le {G : Grammar B} {k : Nat} {e : Tree A U B} (h : k ≤ e.level G) :
    e.print G k = e.words G := by
  simp only [print, bracket, if_neg (Nat.not_lt.mpr h)]

theorem print_of_lt {G : Grammar B} {k : Nat} {e : Tree A U B} (h : e.level G < k) :
    e.print G k = .openParen :: e.words G ++ [.closeParen] := by
  simp only [print, bracket, if_pos h]

/-- How deep a reader calls itself on the words of a tree. -/
def depth : Tree A U B → Nat
  | atom _ => 0
  | unary _ e => e.depth + 1
  | binary _ l r => max l.depth r.depth + 1
  | conditional c t e => max c.depth (max t.depth e.depth) + 1

theorem depth_lt_words (G : Grammar B) (e : Tree A U B) : e.depth < (e.words G).length := by
  have le_bracket (k own : Nat) (ws : List (Word A U B)) :
      ws.length ≤ (bracket k own ws).length := by
    unfold bracket
    split <;> simp
    omega
  induction e with
  | atom a => simp [depth, words]
  | unary op e ih =>
    have := le_bracket (G.levels + 1) (e.level G) (e.words G)
    simp only [depth, words, List.length_cons]
    omega
  | binary op l r ihl ihr =>
    have := le_bracket (G.level op) (l.level G) (l.words G)
    have := le_bracket (G.level op + 1) (r.level G) (r.words G)
    simp only [depth, words, List.length_append, List.length_cons]
    omega
  | conditional c t e ihc iht ihe =>
    have := le_bracket 1 (c.level G) (c.words G)
    simp only [depth, words, List.length_append, List.length_cons]
    omega

def atoms : Tree A U B → List A
  | atom a => [a]
  | unary _ e => e.atoms
  | binary _ l r => l.atoms ++ r.atoms
  | conditional c t e => c.atoms ++ t.atoms ++ e.atoms

theorem atom_mem_words (G : Grammar B) {a : A} {e : Tree A U B} :
    .atom a ∈ e.words G ↔ a ∈ e.atoms := by
  have mem_bracket (k own : Nat) (ws : List (Word A U B)) :
      .atom a ∈ bracket k own ws ↔ .atom a ∈ ws := by
    unfold bracket
    split <;> simp
  induction e with
  | atom b => simp [words, atoms]
  | unary op e ih => simp [words, atoms, mem_bracket, ih]
  | binary op l r ihl ihr => simp [words, atoms, mem_bracket, ihl, ihr]
  | conditional c t e ihc iht ihe => simp [words, atoms, mem_bracket, ihc, iht, ihe]

theorem words_ne_nil (G : Grammar B) (e : Tree A U B) : e.words G ≠ [] := by
  have := e.depth_lt_words G
  intro nil
  simp [nil] at this

end Tree

/-- What trees stand for, where they stand for anything. -/
structure Meaning (V A U B : Type) where
  atom : A → Option V
  unary : U → V → Option V
  binary : B → V → V → Option V
  conditional : V → V → V → V

def Meaning.eval (M : Meaning V A U B) : Tree A U B → Option V
  | .atom a => M.atom a
  | .unary op e => do M.unary op (← M.eval e)
  | .binary op l r => do M.binary op (← M.eval l) (← M.eval r)
  | .conditional c t e => do return M.conditional (← M.eval c) (← M.eval t) (← M.eval e)

/-- The atoms of a tree that stands for something stand for something. -/
theorem Meaning.atom_of_eval {M : Meaning V A U B} {e : Tree A U B} {v : V}
    (value : M.eval e = some v) {a : A} (mem : a ∈ e.atoms) : ∃ x, M.atom a = some x := by
  induction e generalizing v with
  | atom b =>
    obtain rfl : a = b := by simpa [Tree.atoms] using mem
    exact ⟨v, value⟩
  | unary op e ih =>
    obtain ⟨x, inner, -⟩ := Option.bind_eq_some_iff.mp value
    exact ih inner mem
  | binary op l r ihl ihr =>
    obtain ⟨x, left, value⟩ := Option.bind_eq_some_iff.mp value
    obtain ⟨y, right, -⟩ := Option.bind_eq_some_iff.mp value
    rcases List.mem_append.mp mem with mem | mem
    · exact ihl left mem
    · exact ihr right mem
  | conditional c t e ihc iht ihe =>
    obtain ⟨x, cond, value⟩ := Option.bind_eq_some_iff.mp value
    obtain ⟨y, thenValue, value⟩ := Option.bind_eq_some_iff.mp value
    obtain ⟨z, elseValue, -⟩ := Option.bind_eq_some_iff.mp value
    rcases List.mem_append.mp mem with mem | mem
    · rcases List.mem_append.mp mem with mem | mem
      · exact ihc cond mem
      · exact iht thenValue mem
    · exact ihe elseValue mem

abbrev Reader (σ ε V : Type) : Type := σ → Except ε (V × σ)

/-- The operators of one level and their operands after a first operand. `settle` steps over what
may stand before an operator; `rounds` bounds the operators. -/
def chainLoop (settle : σ → σ) (next : σ → Except ε (Option (B × σ))) (apply : σ → B → V → V → Except ε V)
    (operand : Reader σ ε V) : Nat → V → Reader σ ε V
  | 0, v, s => .ok (v, settle s)
  | rounds + 1, v, s => do
    match ← next (settle s) with
    | none => .ok (v, settle s)
    | some (op, s') =>
      let (right, s'') ← operand s'
      let v' ← apply s'' op v right
      chainLoop settle next apply operand rounds v' s''

/-- A left-associative level: operands joined by the operators that `next` finds. -/
def chain (settle : σ → σ) (size : σ → Nat) (next : σ → Except ε (Option (B × σ)))
    (apply : σ → B → V → V → Except ε V) (operand : Reader σ ε V) : Reader σ ε V := fun s => do
  let (v, s') ← operand s
  chainLoop settle next apply operand (size s') v s'

/-- Where operands lead from states with `I` to states with `J`, and an operator back, so does a
whole level. -/
theorem chainLoop_invariant {settle : σ → σ} {next : σ → Except ε (Option (B × σ))}
    {apply : σ → B → V → V → Except ε V} {operand : Reader σ ε V} {I J : σ → Prop}
    (read : ∀ {s v s'}, I s → operand s = .ok (v, s') → J s')
    (settled : ∀ {s}, J s → J (settle s))
    (found : ∀ {s op s'}, J s → next s = .ok (some (op, s')) → I s') {rounds : Nat} {v w : V}
    {s s' : σ} (before : J s)
    (ended : chainLoop settle next apply operand rounds v s = .ok (w, s')) : J s' := by
  induction rounds generalizing v s with
  | zero =>
    cases ended
    exact settled before
  | succ n ih =>
    obtain ⟨operator, next, ended⟩ := bind_eq_ok.mp ended
    cases operator with
    | none =>
      cases ended
      exact settled before
    | some pair =>
      obtain ⟨⟨right, t⟩, operand, ended⟩ := bind_eq_ok.mp ended
      obtain ⟨v', -, ended⟩ := bind_eq_ok.mp ended
      exact ih (read (found (settled before) next) operand) ended

theorem chain_invariant {settle : σ → σ} {size : σ → Nat} {next : σ → Except ε (Option (B × σ))}
    {apply : σ → B → V → V → Except ε V} {operand : Reader σ ε V} {I J : σ → Prop}
    (read : ∀ {s v s'}, I s → operand s = .ok (v, s') → J s')
    (settled : ∀ {s}, J s → J (settle s))
    (found : ∀ {s op s'}, J s → next s = .ok (some (op, s')) → I s') {w : V} {s s' : σ}
    (before : I s) (ended : chain settle size next apply operand s = .ok (w, s')) : J s' := by
  obtain ⟨⟨v, t⟩, first, ended⟩ := bind_eq_ok.mp ended
  exact chainLoop_invariant read settled found (read before first) ended

/-- A reader that calls itself, at most `rounds` deep. -/
def knot (stuck : ε) (top : Reader σ ε V → Reader σ ε V) : Nat → Reader σ ε V
  | 0, _ => .error stuck
  | rounds + 1, s => top (knot stuck top rounds) s

/-- A reader of expressions. `Step s w s'` says that the state `s` starts with the word `w`, and
`asks s` that it starts with a question mark. Readers start in settled states. -/
structure Ladder (σ ε V A U B : Type) extends Grammar B where
  meaning : Meaning V A U B
  Step : σ → Word A U B → σ → Prop
  settle : σ → σ
  size : σ → Nat
  next : Nat → σ → Except ε (Option (B × σ))
  asks : σ → Prop
  apply : σ → B → V → V → Except ε V
  read : Reader σ ε V → Nat → Reader σ ε V

namespace Ladder

variable (L : Ladder σ ε V A U B)

/-- `s` starts with a list of words. -/
def Reads (L : Ladder σ ε V A U B) : σ → List (Word A U B) → σ → Prop
  | s, [], s' => s = s'
  | s, w :: ws, s'' => ∃ s', L.Step s w s' ∧ Reads L s' ws s''

/-- A reader started in `s` ends with the value `v` in `s'`, up to what `settle` steps over. -/
def Gives (P : Reader σ ε V) (s : σ) (v : V) (s' : σ) : Prop :=
  ∃ t, P s = .ok (v, t) ∧ L.settle t = s'

/-- No operator that binds at level `k` or tighter continues an expression here. -/
def Stops (k : Nat) (s : σ) : Prop :=
  L.settle s = s ∧ (∀ j, k ≤ j → L.next j s = .ok none) ∧ (k = 0 → ¬ L.asks s)

/-- What the states and the readers of a ladder have to satisfy, for any reader `self` that they
call for a whole expression. -/
structure Lawful : Prop where
  settle_settle : ∀ s, L.settle (L.settle s) = L.settle s
  size_settle : ∀ s, L.size (L.settle s) ≤ L.size s
  step_settled : ∀ {s w s'}, L.Step s w s' → L.settle s = s ∧ L.settle s' = s'
  step_size : ∀ {s w s'}, L.Step s w s' → L.size s' < L.size s
  step_binary : ∀ {s op s'}, L.Step s (.binary op) s' → L.next (L.level op) s = .ok (some (op, s'))
  step_other : ∀ {s w s' k}, L.Step s w s' → w.Follows →
    (∀ op, w = .binary op → L.level op ≠ k) → L.next k s = .ok none
  step_asks : ∀ {s w s'}, L.Step s w s' → w.Follows → w ≠ .question → ¬ L.asks s
  chain : ∀ {k} self, 1 ≤ k → k ≤ L.levels →
    L.read self k = Precedence.chain L.settle L.size (L.next k) L.apply
      (L.read self (k + 1))
  apply : ∀ {op v r v'} s, L.meaning.binary op v r = some v' → L.apply s op v r = .ok v'
  atom : ∀ {self s a v s'}, L.Step s (.atom a) s' → L.meaning.atom a = some v →
    L.Gives (L.read self (L.levels + 1)) s v s'
  unary : ∀ {self s op s' x v s''}, L.Step s (.unary op) s' →
    L.Gives (L.read self (L.levels + 1)) s' x s'' → L.meaning.unary op x = some v →
    L.Gives (L.read self (L.levels + 1)) s v s''
  paren : ∀ {self s s₁ v s₂ s₃}, L.Step s .openParen s₁ → L.Gives self s₁ v s₂ →
    L.Step s₂ .closeParen s₃ → L.Gives (L.read self (L.levels + 1)) s v s₃
  conditional : ∀ {self s c s₁ s₂ t s₃ s₄ e s₅}, L.Gives (L.read self 1) s c s₁ →
    L.Step s₁ .question s₂ → L.Gives self s₂ t s₃ → L.Step s₃ .colon s₄ → L.Gives self s₄ e s₅ →
    L.Gives (L.read self 0) s (L.meaning.conditional c t e) s₅
  plain : ∀ {self s v s'}, L.Gives (L.read self 1) s v s' → ¬ L.asks s' →
    L.Gives (L.read self 0) s v s'

/-- The loop of level `k`, with the value `v` read so far, ends with the value `w`. -/
def Resumes (self : Reader σ ε V) (k : Nat) (v : V) (s : σ) (w : V) (s' : σ) : Prop :=
  ∀ rounds, L.size s ≤ rounds →
    ∃ t, chainLoop L.settle (L.next k) L.apply (L.read self (k + 1)) rounds v s =
      .ok (w, t) ∧ L.settle t = s'

variable {L}

theorem reads_append {s s' : σ} {ws ws' : List (Word A U B)} :
    L.Reads s (ws ++ ws') s' ↔ ∃ t, L.Reads s ws t ∧ L.Reads t ws' s' := by
  induction ws generalizing s with
  | nil => simp [Reads]
  | cons w ws ih =>
    simp only [List.cons_append, Reads, ih]
    constructor
    · rintro ⟨u, step, t, left, right⟩
      exact ⟨t, ⟨u, step, left⟩, right⟩
    · rintro ⟨t, ⟨u, step, left⟩, right⟩
      exact ⟨u, step, t, left, right⟩

theorem Stops.mono {j k : Nat} {s : σ} (le : j ≤ k) (stops : L.Stops j s) : L.Stops k s := by
  obtain ⟨settled, noOperator, asks⟩ := stops
  exact ⟨settled, fun i ki => noOperator i (Nat.le_trans le ki), fun zero => asks (by omega)⟩

theorem resumes_stop {self : Reader σ ε V} {k : Nat} {v : V} {s : σ} (stops : L.Stops k s) :
    L.Resumes self k v s v s := by
  obtain ⟨settled, noOperator, -⟩ := stops
  intro rounds _
  refine ⟨s, ?_, settled⟩
  cases rounds with
  | zero => simp only [chainLoop, settled]
  | succ n =>
    simp only [chainLoop, settled, noOperator k (Nat.le_refl k)]
    rfl

namespace Lawful

variable (lawful : L.Lawful)

include lawful

theorem reads_size {s s' : σ} {ws : List (Word A U B)} (reads : L.Reads s ws s') :
    L.size s' + ws.length ≤ L.size s := by
  induction ws generalizing s with
  | nil =>
    cases reads
    simp
  | cons w ws ih =>
    obtain ⟨t, step, rest⟩ := reads
    have := ih rest
    have := lawful.step_size step
    simp only [List.length_cons]
    omega

theorem stops_of_step {s s' : σ} {w : Word A U B} {k : Nat} (step : L.Step s w s')
    (follows : w.Follows) (looser : ∀ op, w = .binary op → L.level op < k) (question : k = 0 → w ≠ .question) :
    L.Stops k s := by
  refine ⟨(lawful.step_settled step).1, ?_, fun zero => lawful.step_asks step follows (question zero)⟩
  intro j kj
  exact lawful.step_other step follows fun op hw => by
    have := looser op hw
    omega

theorem chainLoop_settle (k : Nat) (operand : Reader σ ε V) (rounds : Nat) (v : V) (s : σ) :
    chainLoop L.settle (L.next k) L.apply operand rounds v (L.settle s) =
      chainLoop L.settle (L.next k) L.apply operand rounds v s := by
  cases rounds <;> simp only [chainLoop, lawful.settle_settle]

/-- One operator and its right operand. -/
theorem resumes_step {self : Reader σ ε V} {op : B} {v r v' w : V} {s s₁ s₂ s₃ : σ}
    (step : L.Step s (.binary op) s₁)
    (right : L.Gives (L.read self (L.level op + 1)) s₁ r s₂) (shorter : L.size s₂ ≤ L.size s₁)
    (value : L.meaning.binary op v r = some v')
    (rest : L.Resumes self (L.level op) v' s₂ w s₃) :
    L.Resumes self (L.level op) v s w s₃ := by
  obtain ⟨t, read, settled⟩ := right
  have consumed := lawful.step_size step
  intro rounds enough
  obtain ⟨n, rfl⟩ : ∃ n, rounds = n + 1 := ⟨rounds - 1, by omega⟩
  obtain ⟨u, loop, ended⟩ := rest n (by omega)
  refine ⟨u, ?_, ended⟩
  rw [← settled, lawful.chainLoop_settle] at loop
  simp only [chainLoop, (lawful.step_settled step).1, lawful.step_binary step]
  change (L.read self (L.level op + 1) s₁).bind _ = _
  rw [read]
  change (L.apply t op v r).bind _ = _
  rw [lawful.apply t value]
  exact loop

theorem gives_chain {self : Reader σ ε V} {k : Nat} {v w : V} {s s₁ s₂ : σ} (pos : 1 ≤ k)
    (le : k ≤ L.levels) (first : L.Gives (L.read self (k + 1)) s v s₁)
    (rest : L.Resumes self k v s₁ w s₂) : L.Gives (L.read self k) s w s₂ := by
  obtain ⟨t, read, settled⟩ := first
  have shorter := lawful.size_settle t
  rw [settled] at shorter
  obtain ⟨u, loop, ended⟩ := rest (L.size t) shorter
  refine ⟨u, ?_, ended⟩
  rw [← settled, lawful.chainLoop_settle] at loop
  rw [lawful.chain self pos le, Precedence.chain, read]
  exact loop

/-- What a tighter level reads is read by a looser one when no operator follows. -/
theorem gives_climb {self : Reader σ ε V} {k m : Nat} {v : V} {s s' : σ} (km : k ≤ m)
    (le : m ≤ L.levels + 1) (stops : L.Stops k s') (gives : L.Gives (L.read self m) s v s') :
    L.Gives (L.read self k) s v s' := by
  induction m, km using Nat.le_induction with
  | base => exact gives
  | succ m km ih =>
    apply ih (by omega)
    cases m with
    | zero =>
      have zero : k = 0 := by omega
      exact lawful.plain gives (stops.2.2 zero)
    | succ m =>
      exact lawful.gives_chain (by omega) (by omega) gives
        (resumes_stop (stops.mono km))

end Lawful

section Trees

variable (L) (stuck : ε)

/-- The reader of whole expressions that calls itself at most `rounds` deep. -/
def whole (rounds : Nat) : Reader σ ε V := knot stuck (fun self => L.read self 0) rounds

/-- The words of a tree are read by every level it may stand at. -/
def WordsRead (e : Tree A U B) : Prop :=
  ∀ ⦃rounds k s s' v⦄, e.depth ≤ rounds → k ≤ e.level L.toGrammar → k ≤ L.levels + 1 →
    L.Reads s (e.words L.toGrammar) s' → L.Stops k s' → L.meaning.eval e = some v →
    L.Gives (L.read (L.whole stuck rounds) k) s v s'

/-- The level of a tree's own operator reads the tree and goes on with what follows. -/
def WordsResumed (e : Tree A U B) : Prop :=
  ∀ ⦃rounds p s s₁ v w s₂⦄, e.depth ≤ rounds → 1 ≤ p → p ≤ L.levels →
    e.level L.toGrammar = p → L.Reads s (e.words L.toGrammar) s₁ → L.Stops (p + 1) s₁ →
    L.meaning.eval e = some v → L.Resumes (L.whole stuck rounds) p v s₁ w s₂ →
    L.Gives (L.read (L.whole stuck rounds) p) s w s₂

variable {L stuck} {e : Tree A U B} {rounds k : Nat} {s s' : σ} {v : V}

/-- A whole expression inside another one. -/
theorem gives_inner (words : L.WordsRead stuck e) (deep : e.depth + 1 ≤ rounds)
    (reads : L.Reads s (e.words L.toGrammar) s') (stops : L.Stops 0 s')
    (value : L.meaning.eval e = some v) : L.Gives (L.whole stuck rounds) s v s' := by
  obtain ⟨n, rfl⟩ : ∃ n, rounds = n + 1 := ⟨rounds - 1, by omega⟩
  exact words (by omega) (Nat.zero_le _) (Nat.zero_le _) reads stops value

variable (lawful : L.Lawful)

include lawful

theorem gives_print (words : L.WordsRead stuck e) (deep : e.depth + 1 ≤ rounds)
    (le : k ≤ L.levels + 1) (reads : L.Reads s (e.print L.toGrammar k) s')
    (stops : L.Stops k s') (value : L.meaning.eval e = some v) :
    L.Gives (L.read (L.whole stuck rounds) k) s v s' := by
  by_cases inParens : e.level L.toGrammar < k
  · rw [Tree.print_of_lt inParens, List.cons_append] at reads
    obtain ⟨s₁, opened, rest⟩ := reads
    obtain ⟨s₂, inside, s₃, closed, rfl⟩ := reads_append.mp rest
    have inner := gives_inner words deep inside
      (lawful.stops_of_step closed trivial (by simp) (by simp)) value
    exact lawful.gives_climb le le_rfl stops (lawful.paren opened inner closed)
  · rw [Tree.print_of_le (by omega)] at reads
    exact words (by omega) (by omega) le reads stops value

theorem gives_resumed {p : Nat} {w : V} {s₂ : σ} (words : L.WordsRead stuck e)
    (own : L.WordsResumed stuck e) (deep : e.depth + 1 ≤ rounds) (pos : 1 ≤ p)
    (le : p ≤ L.levels) (reads : L.Reads s (e.print L.toGrammar p) s')
    (stops : L.Stops (p + 1) s') (value : L.meaning.eval e = some v)
    (rest : L.Resumes (L.whole stuck rounds) p v s' w s₂) :
    L.Gives (L.read (L.whole stuck rounds) p) s w s₂ := by
  by_cases same : e.level L.toGrammar = p
  · rw [Tree.print_of_le same.ge] at reads
    exact own (by omega) pos le same reads stops value rest
  · -- a tree of another level is bracketed at `p` just when it is at the next level
    have bracketed : e.print L.toGrammar p = e.print L.toGrammar (p + 1) := by
      by_cases lower : e.level L.toGrammar < p
      · rw [Tree.print_of_lt lower, Tree.print_of_lt (by omega)]
      · rw [Tree.print_of_le (by omega), Tree.print_of_le (by omega)]
    rw [bracketed] at reads
    have first := gives_print lawful words deep (by omega) reads stops value
    exact lawful.gives_chain pos le first rest

theorem words_atom (a : A) : L.WordsRead stuck (.atom a) := by
  intro rounds k s s' v _ _ le reads stops value
  obtain ⟨t, step, rfl⟩ := reads
  exact lawful.gives_climb le (Nat.le_refl _) stops (lawful.atom step value)

theorem words_unary {op : U} (words : L.WordsRead stuck e) : L.WordsRead stuck (.unary op e) := by
  intro rounds k s s' v deep _ le reads stops value
  obtain ⟨t, step, operand⟩ := reads
  obtain ⟨x, inner, value⟩ := Option.bind_eq_some_iff.mp value
  have read := gives_print lawful words deep (Nat.le_refl _) operand (stops.mono le) inner
  exact lawful.gives_climb le (Nat.le_refl _) stops (lawful.unary step read value)

theorem resumed_binary (op : B) {l r : Tree A U B} (wordsLeft : L.WordsRead stuck l)
    (own : L.WordsResumed stuck l) (wordsRight : L.WordsRead stuck r) :
    L.WordsResumed stuck (.binary op l r) := by
  intro rounds p s s₁ v w s₂ deep pos le same reads stops value rest
  subst same
  obtain ⟨s₃, left, s₄, step, right⟩ := reads_append.mp reads
  obtain ⟨x, leftValue, value⟩ := Option.bind_eq_some_iff.mp value
  obtain ⟨y, rightValue, value⟩ := Option.bind_eq_some_iff.mp value
  have depths : l.depth + 1 ≤ rounds ∧ r.depth + 1 ≤ rounds := by
    simp only [Tree.depth] at deep
    omega
  have operand := gives_print lawful wordsRight depths.2 (by
    simp only [Tree.level] at le
    omega) right stops rightValue
  have shorter := lawful.reads_size right
  have resumed := lawful.resumes_step step operand (by omega) value rest
  have before := lawful.stops_of_step (k := L.level op + 1) step trivial
    (fun op' same => by cases same; omega) (by simp)
  exact gives_resumed lawful wordsLeft own depths.1 pos le left before leftValue resumed

theorem words_binary {op : B} {l r : Tree A U B}
    (own : L.WordsResumed stuck (.binary op l r)) : L.WordsRead stuck (.binary op l r) := by
  intro rounds k s s' v deep below _ reads stops value
  have stopped := stops.mono below
  have read := own deep (L.level_pos op) (L.level_le op) rfl reads
    (stopped.mono (Nat.le_succ _)) value (resumes_stop stopped)
  exact lawful.gives_climb below (Nat.le_succ_of_le (L.level_le op)) stops read

theorem words_conditional {c t e : Tree A U B} (wordsCond : L.WordsRead stuck c)
    (wordsThen : L.WordsRead stuck t) (wordsElse : L.WordsRead stuck e) :
    L.WordsRead stuck (.conditional c t e) := by
  intro rounds k s s' v deep below _ reads stops value
  obtain rfl : k = 0 := by simpa [Tree.level] using below
  obtain ⟨s₁, cond, s₂, asked, reads⟩ := reads_append.mp reads
  obtain ⟨s₃, thenReads, s₄, colon, elseReads⟩ := reads_append.mp reads
  obtain ⟨x, condValue, value⟩ := Option.bind_eq_some_iff.mp value
  obtain ⟨y, thenValue, value⟩ := Option.bind_eq_some_iff.mp value
  obtain ⟨z, elseValue, value⟩ := Option.bind_eq_some_iff.mp value
  cases value
  simp only [Tree.depth] at deep
  have condRead : L.Gives (L.read (L.whole stuck rounds) 1) s x s₁ := gives_print lawful
    wordsCond (by omega) (by omega) cond (lawful.stops_of_step asked trivial (by simp) (by simp)) condValue
  have thenRead : L.Gives (L.whole stuck rounds) s₂ y s₃ := gives_inner wordsThen (by omega)
    thenReads (lawful.stops_of_step colon trivial (by simp) (by simp)) thenValue
  exact lawful.conditional condRead asked thenRead colon
    (gives_inner wordsElse (by omega) elseReads stops elseValue)

theorem words_read (e : Tree A U B) : L.WordsRead stuck e ∧ L.WordsResumed stuck e := by
  induction e with
  | atom a =>
    refine ⟨words_atom lawful a, ?_⟩
    intro _ p _ _ _ _ _ _ _ le same
    simp only [Tree.level] at same
    omega
  | unary op e ih =>
    refine ⟨words_unary lawful ih.1, ?_⟩
    intro _ p _ _ _ _ _ _ _ le same
    simp only [Tree.level] at same
    omega
  | binary op l r ihl ihr =>
    have resumed := resumed_binary lawful op ihl.1 ihl.2 ihr.1
    exact ⟨words_binary lawful resumed, resumed⟩
  | conditional c t e ihc iht ihe =>
    refine ⟨words_conditional lawful ihc.1 iht.1 ihe.1, ?_⟩
    intro _ p _ _ _ _ _ _ pos le same
    simp only [Tree.level] at same
    omega

/-- Reading inverts printing, in as many rounds as the text is long. -/
theorem gives_words (stuck : ε) (reads : L.Reads s (e.words L.toGrammar) s') (stops : L.Stops 0 s')
    (value : L.meaning.eval e = some v) (enough : L.size s ≤ rounds) :
    L.Gives (L.whole stuck rounds) s v s' := by
  have short := lawful.reads_size reads
  have deep := e.depth_lt_words L.toGrammar
  exact gives_inner (words_read lawful e).1 (by omega) reads stops value

end Trees

end Ladder

end Precedence
