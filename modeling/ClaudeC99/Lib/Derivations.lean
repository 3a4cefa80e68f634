import ClaudeC99.Lib.Precedence

/-! Expressions with any parentheses, as they stand in the states of a reader, and readers that may
fail. The first failure of an evaluation from left to right decides. -/

namespace Precedence

variable {σ ε V A U B F : Type}

/-- What trees stand for, or why they stand for nothing. An operator may be refused before its
operand. -/
structure Trial (F V A U B : Type) where
  atom : A → Except F V
  refuses : U → Option F
  unary : U → V → V
  binary : B → V → V → Except F V
  conditional : V → V → V → V

def Trial.eval (M : Trial F V A U B) : Tree A U B → Except F V
  | .atom a => M.atom a
  | .unary op e =>
    match M.refuses op with
    | some f => .error f
    | none => (M.eval e).map (M.unary op)
  | .binary op l r => do M.binary op (← M.eval l) (← M.eval r)
  | .conditional c t e => do return M.conditional (← M.eval c) (← M.eval t) (← M.eval e)

namespace Ladder

variable (L : Ladder σ ε V A U B)

/-- `s` starts with an expression of level `k`, whose tree is `e`. -/
inductive Derives : Nat → σ → Tree A U B → σ → Prop
  | atom {a : A} {s s' : σ} (step : L.Step s (.atom a) s') :
      Derives (L.levels + 1) s (.atom a) s'
  | unary {op : U} {e : Tree A U B} {s s₁ s' : σ} (step : L.Step s (.unary op) s₁)
      (operand : Derives (L.levels + 1) s₁ e s') : Derives (L.levels + 1) s (.unary op e) s'
  | paren {e : Tree A U B} {s s₁ s₂ s' : σ} (opened : L.Step s .openParen s₁)
      (inside : Derives 0 s₁ e s₂) (closed : L.Step s₂ .closeParen s') :
      Derives (L.levels + 1) s e s'
  | climb {k : Nat} {e : Tree A U B} {s s' : σ} (le : k ≤ L.levels)
      (tighter : Derives (k + 1) s e s') : Derives k s e s'
  | binary {op : B} {l r : Tree A U B} {s s₁ s₂ s' : σ} (left : Derives (L.level op) s l s₁)
      (step : L.Step s₁ (.binary op) s₂) (right : Derives (L.level op + 1) s₂ r s') :
      Derives (L.level op) s (.binary op l r) s'
  | conditional {c t e : Tree A U B} {s s₁ s₂ s₃ s₄ s' : σ} (cond : Derives 1 s c s₁)
      (asked : L.Step s₁ .question s₂) (thenArm : Derives 0 s₂ t s₃)
      (colon : L.Step s₃ .colon s₄) (elseArm : Derives 0 s₄ e s') :
      Derives 0 s (.conditional c t e) s'

variable {L} in
/-- An expression of a tighter level stands where a looser one may. -/
theorem Derives.lower {j k : Nat} {s s' : σ} {e : Tree A U B} (d : L.Derives k s e s') (le : j ≤ k)
    (top : k ≤ L.levels + 1) : L.Derives j s e s' := by
  obtain ⟨n, rfl⟩ := Nat.exists_eq_add_of_le le
  clear le
  induction n with
  | zero => exact d
  | succ n ih => exact ih (.climb (by omega) d) (by omega)

variable (M : Trial F V A U B) (rule : Reader σ ε V → Nat → Reader σ ε V) (stuck : ε)
  (Report : F → ε → Prop)

/-- A reader started in `s` ends as a trial says: with the value in `s'`, up to what `settle` steps
over, or with a report of the failure. -/
def Ends (P : Reader σ ε V) (s : σ) (o : Except F V) (s' : σ) : Prop :=
  match o with
  | .ok v => L.Gives P s v s'
  | .error f => ∃ m, P s = .error m ∧ Report f m

/-- What the states and readers have to satisfy. The rule for operands calls itself, at most as
often as its number says. -/
structure Judged : Prop where
  settle_settle : ∀ s, L.settle (L.settle s) = L.settle s
  size_settle : ∀ s, L.size (L.settle s) ≤ L.size s
  step_settled : ∀ {s w s'}, L.Step s w s' → L.settle s = s ∧ L.settle s' = s'
  step_size : ∀ {s w s'}, L.Step s w s' → L.size s' < L.size s
  step_binary : ∀ {s op s'}, L.Step s (.binary op) s' → L.next (L.level op) s = .ok (some (op, s'))
  step_other : ∀ {s w s' k}, L.Step s w s' → w.Follows →
    (∀ op, w = .binary op → L.level op ≠ k) → L.next k s = .ok none
  step_asks : ∀ {s w s'}, L.Step s w s' → w.Follows → w ≠ .question → ¬L.asks s
  chain : ∀ {k} self, 1 ≤ k → k ≤ L.levels →
    L.read self k = Precedence.chain L.settle L.size (L.next k) L.apply (L.read self (k + 1))
  apply_ok : ∀ {op v r w} s, M.binary op v r = .ok w → L.apply s op v r = .ok w
  apply_error : ∀ {op v r f} s, M.binary op v r = .error f →
    ∃ m, L.apply s op v r = .error m ∧ Report f m
  operand : ∀ self s, L.read self (L.levels + 1) s = rule self (L.size s + 1) s
  atom : ∀ {self n s a s'}, L.Step s (.atom a) s' →
    L.Ends Report (rule self (n + 1)) s (M.atom a) s'
  refused : ∀ {rounds n s op s' f}, L.Step s (.unary op) s' → M.refuses op = some f →
    ∃ m, rule (L.whole stuck rounds) (n + 1) s = .error m ∧ Report f m
  unary : ∀ {self n s op s' o s''}, L.Step s (.unary op) s' → M.refuses op = none →
    L.Ends Report (rule self n) s' o s'' →
    L.Ends Report (rule self (n + 1)) s (o.map (M.unary op)) s''
  paren : ∀ {self n s s₁ o s₂ s₃}, L.Step s .openParen s₁ → L.Ends Report self s₁ o s₂ →
    L.Step s₂ .closeParen s₃ → L.Ends Report (rule self (n + 1)) s o s₃
  cond_error : ∀ {self s m}, L.read self 1 s = .error m → L.read self 0 s = .error m
  plain : ∀ {self s v s'}, L.Gives (L.read self 1) s v s' → ¬L.asks s' →
    L.Gives (L.read self 0) s v s'
  then_error : ∀ {self s c s₁ s₂ m}, L.Gives (L.read self 1) s c s₁ → L.Step s₁ .question s₂ →
    self s₂ = .error m → L.read self 0 s = .error m
  else_error : ∀ {self s c s₁ s₂ t s₃ s₄ m}, L.Gives (L.read self 1) s c s₁ →
    L.Step s₁ .question s₂ → L.Gives self s₂ t s₃ → L.Step s₃ .colon s₄ → self s₄ = .error m →
    L.read self 0 s = .error m
  conditional : ∀ {self s c s₁ s₂ t s₃ s₄ e s₅}, L.Gives (L.read self 1) s c s₁ →
    L.Step s₁ .question s₂ → L.Gives self s₂ t s₃ → L.Step s₃ .colon s₄ → L.Gives self s₄ e s₅ →
    L.Gives (L.read self 0) s (M.conditional c t e) s₅

/-- The loop of level `k`, with the value `v` read so far, ends as a trial says. -/
def LoopEnds (self : Reader σ ε V) (k : Nat) (v : V) (s : σ) (o : Except F V) (s' : σ) : Prop :=
  ∀ rounds, L.size s ≤ rounds → L.Ends Report
    (chainLoop L.settle (L.next k) L.apply (L.read self (k + 1)) rounds v) s o s'

variable {L M rule stuck Report}

theorem loopEnds_stop {self : Reader σ ε V} {k : Nat} {v : V} {s : σ} (stops : L.Stops k s) :
    L.LoopEnds Report self k v s (.ok v) s := fun rounds enough =>
  resumes_stop stops rounds enough

namespace Judged

variable (judged : L.Judged M rule stuck Report)

include judged

theorem derives_size {k : Nat} {s s' : σ} {e : Tree A U B} (d : L.Derives k s e s') :
    L.size s' < L.size s := by
  induction d with
  | atom step => exact judged.step_size step
  | unary step _ ih => exact Nat.lt_trans ih (judged.step_size step)
  | paren opened _ closed ih =>
    exact Nat.lt_trans (judged.step_size closed) (Nat.lt_trans ih (judged.step_size opened))
  | climb _ _ ih => exact ih
  | binary _ step _ ihl ihr => exact Nat.lt_trans ihr (Nat.lt_trans (judged.step_size step) ihl)
  | conditional _ asked _ colon _ ihc iht ihe =>
    have first := Nat.lt_trans (judged.step_size asked) ihc
    have second := Nat.lt_trans (judged.step_size colon) (Nat.lt_trans iht first)
    exact Nat.lt_trans ihe second

theorem stops_of_step {s s' : σ} {w : Word A U B} {k : Nat} (step : L.Step s w s')
    (follows : w.Follows) (looser : ∀ op, w = .binary op → L.level op < k)
    (question : k = 0 → w ≠ .question) : L.Stops k s := by
  refine ⟨(judged.step_settled step).1, ?_,
    fun zero => judged.step_asks step follows (question zero)⟩
  intro j kj
  apply judged.step_other step follows
  intro op word
  have := looser op word
  omega

theorem loop_settle (k : Nat) (P : Reader σ ε V) (rounds : Nat) (v : V) (s : σ) :
    chainLoop L.settle (L.next k) L.apply P rounds v (L.settle s) =
      chainLoop L.settle (L.next k) L.apply P rounds v s := by
  cases rounds <;> simp only [chainLoop, judged.settle_settle]

/-- One operator and its right operand. -/
theorem loopEnds_step {self : Reader σ ε V} {op : B} {v : V} {r o : Except F V} {s s₁ s₂ s₃ : σ}
    (step : L.Step s (.binary op) s₁)
    (right : L.Ends Report (L.read self (L.level op + 1)) s₁ r s₂)
    (shorter : L.size s₂ ≤ L.size s₁)
    (failed : ∀ f, r = .error f → o = .error f)
    (undefined : ∀ w f, r = .ok w → M.binary op v w = .error f → o = .error f)
    (rest : ∀ w x, r = .ok w → M.binary op v w = .ok x →
      L.LoopEnds Report self (L.level op) x s₂ o s₃) :
    L.LoopEnds Report self (L.level op) v s o s₃ := by
  have consumed := judged.step_size step
  intro rounds enough
  obtain ⟨n, rfl⟩ : ∃ n, rounds = n + 1 := ⟨rounds - 1, by omega⟩
  have loop : chainLoop L.settle (L.next (L.level op)) L.apply (L.read self (L.level op + 1)) (n + 1)
      v s = (L.read self (L.level op + 1) s₁).bind fun p =>
        (L.apply p.2 op v p.1).bind fun x => chainLoop L.settle (L.next (L.level op)) L.apply
          (L.read self (L.level op + 1)) n x p.2 := by
    simp only [chainLoop, (judged.step_settled step).1, judged.step_binary step]
    rfl
  cases r with
  | error f =>
    obtain ⟨m, read, report⟩ := right
    rw [failed f rfl]
    exact ⟨m, by rw [loop, read]; rfl, report⟩
  | ok w =>
    obtain ⟨t, read, settled⟩ := right
    have loop' : chainLoop L.settle (L.next (L.level op)) L.apply (L.read self (L.level op + 1))
        (n + 1) v s = (L.apply t op v w).bind fun x => chainLoop L.settle (L.next (L.level op))
          L.apply (L.read self (L.level op + 1)) n x t := by
      rw [loop, read]
      rfl
    cases applied : M.binary op v w with
    | error f =>
      obtain ⟨m, apply, report⟩ := judged.apply_error t applied
      rw [undefined w f rfl applied]
      exact ⟨m, by rw [loop', apply]; rfl, report⟩
    | ok x =>
      have later := rest w x rfl applied n (by omega)
      have same : chainLoop L.settle (L.next (L.level op)) L.apply
          (L.read self (L.level op + 1)) (n + 1) v s = chainLoop L.settle (L.next (L.level op))
            L.apply (L.read self (L.level op + 1)) n x s₂ := by
        rw [loop', judged.apply_ok t applied, ← settled, judged.loop_settle]
        rfl
      unfold Ends at later ⊢
      cases o with
      | ok y => exact later.imp fun _ ends => ⟨same.trans ends.1, ends.2⟩
      | error f => exact later.imp fun _ ends => ⟨same.trans ends.1, ends.2⟩

/-- A level reads a first operand and goes on with its loop. -/
theorem ends_chain {self : Reader σ ε V} {k : Nat} {first o : Except F V} {s s₁ s₂ : σ}
    (pos : 1 ≤ k) (le : k ≤ L.levels) (reads : L.Ends Report (L.read self (k + 1)) s first s₁)
    (failed : ∀ f, first = .error f → o = .error f)
    (rest : ∀ v, first = .ok v → L.LoopEnds Report self k v s₁ o s₂) :
    L.Ends Report (L.read self k) s o s₂ := by
  rw [judged.chain self pos le]
  cases first with
  | error f =>
    obtain ⟨m, read, report⟩ := reads
    rw [failed f rfl]
    exact ⟨m, by rw [Precedence.chain, read]; rfl, report⟩
  | ok v =>
    obtain ⟨t, read, settled⟩ := reads
    have shorter := judged.size_settle t
    rw [settled] at shorter
    have loop := rest v rfl (L.size t) shorter
    have same : Precedence.chain L.settle L.size (L.next k) L.apply (L.read self (k + 1)) s =
        chainLoop L.settle (L.next k) L.apply (L.read self (k + 1)) (L.size t) v s₁ := by
      rw [Precedence.chain, read, ← settled, judged.loop_settle]
      rfl
    unfold Ends at loop ⊢
    cases o with
    | ok y => exact loop.imp fun _ ends => ⟨same.trans ends.1, ends.2⟩
    | error f => exact loop.imp fun _ ends => ⟨same.trans ends.1, ends.2⟩

end Judged

section Derivations

variable (L M rule stuck Report)

/-- What is proved of a derivation: its level reads it where the expression stops, a level of
binary operators also goes on from it, and the rule for operands needs no stop. -/
structure Understood (k : Nat) (s : σ) (e : Tree A U B) (s' : σ) : Prop where
  stopped : ∀ rounds, L.size s ≤ rounds → L.Stops k s' →
    L.Ends Report (L.read (L.whole stuck rounds) k) s (M.eval e) s'
  resumed : 1 ≤ k → k ≤ L.levels → ∀ rounds o s'', L.size s ≤ rounds → L.Stops (k + 1) s' →
    (∀ f, M.eval e = .error f → o = .error f) →
    (∀ v, M.eval e = .ok v → L.LoopEnds Report (L.whole stuck rounds) k v s' o s'') →
    L.Ends Report (L.read (L.whole stuck rounds) k) s o s''
  operand : k = L.levels + 1 → ∀ rounds n, L.size s ≤ rounds → L.size s < n →
    L.Ends Report (rule (L.whole stuck rounds) n) s (M.eval e) s'

variable {L M rule stuck Report}

/-- For a level of binary operators it is enough that the level goes on. -/
theorem understood_level {k : Nat} {s s' : σ} {e : Tree A U B} (le : k ≤ L.levels)
    (resumed : ∀ rounds o s'', L.size s ≤ rounds → L.Stops (k + 1) s' →
      (∀ f, M.eval e = .error f → o = .error f) →
      (∀ v, M.eval e = .ok v → L.LoopEnds Report (L.whole stuck rounds) k v s' o s'') →
      L.Ends Report (L.read (L.whole stuck rounds) k) s o s'') :
    L.Understood M rule stuck Report k s e s' where
  stopped := by
    intro rounds enough stops
    apply resumed rounds _ _ enough (stops.mono (Nat.le_succ k)) (fun f failed => failed)
    intro v value
    rw [value]
    exact loopEnds_stop stops
  resumed := fun _ _ => resumed
  operand := by
    intro top
    omega

/-- A whole expression inside another one. -/
theorem inner {s s' : σ} {e : Tree A U B} (rounds : Nat)
    (inside : L.Understood M rule stuck Report 0 s e s') (stops : L.Stops 0 s')
    (enough : L.size s < rounds) : L.Ends Report (L.whole stuck rounds) s (M.eval e) s' := by
  obtain ⟨n, rfl⟩ : ∃ n, rounds = n + 1 := ⟨rounds - 1, by omega⟩
  exact inside.stopped n (by omega) stops

variable (judged : L.Judged M rule stuck Report)

include judged

/-- For an operand it is enough that the rule for operands reads it. -/
theorem understood_operand {s s' : σ} {e : Tree A U B}
    (reads : ∀ rounds n, L.size s ≤ rounds → L.size s < n →
      L.Ends Report (rule (L.whole stuck rounds) n) s (M.eval e) s') :
    L.Understood M rule stuck Report (L.levels + 1) s e s' where
  stopped := by
    intro rounds enough _
    have read := reads rounds (L.size s + 1) enough (Nat.lt_succ_self _)
    unfold Ends at read ⊢
    cases value : M.eval e with
    | ok v =>
      rw [value] at read
      exact read.imp fun _ ends => ⟨(judged.operand _ s).trans ends.1, ends.2⟩
    | error f =>
      rw [value] at read
      exact read.imp fun _ ends => ⟨(judged.operand _ s).trans ends.1, ends.2⟩
  resumed := by
    intro _ le
    omega
  operand := fun _ => reads

theorem understood_binary {op : B} {l r : Tree A U B} {s s₁ s₂ s' : σ}
    (step : L.Step s₁ (.binary op) s₂) (sizeLeft : L.size s₁ < L.size s)
    (sizeRight : L.size s' < L.size s₂)
    (left : L.Understood M rule stuck Report (L.level op) s l s₁)
    (right : L.Understood M rule stuck Report (L.level op + 1) s₂ r s') :
    L.Understood M rule stuck Report (L.level op) s (.binary op l r) s' := by
  apply understood_level (L.level_le op)
  intro rounds o s'' enough stops failed rest
  have consumed := judged.step_size step
  have before : L.Stops (L.level op + 1) s₁ := by
    apply judged.stops_of_step step trivial
    · intro op' same
      cases same
      exact Nat.lt_succ_self _
    · intro zero
      cases zero
  apply left.resumed (L.level_pos op) (L.level_le op) rounds o s'' enough before
  · intro f leftFailed
    exact failed f (by simp only [Trial.eval, leftFailed, bind, Except.bind])
  · intro v leftValue
    have operand := right.stopped rounds (by omega) stops
    apply judged.loopEnds_step step operand (by omega)
    · intro f rightFailed
      exact failed f (by simp only [Trial.eval, leftValue, rightFailed, bind, Except.bind])
    · intro w f rightValue undefined
      exact failed f (by simp only [Trial.eval, leftValue, rightValue, undefined, bind,
        Except.bind])
    · intro w x rightValue value
      exact rest x (by simp only [Trial.eval, leftValue, rightValue, value, bind, Except.bind])

theorem understood_climb {k : Nat} {s s' : σ} {e : Tree A U B} (le : k ≤ L.levels)
    (tighter : L.Understood M rule stuck Report (k + 1) s e s') :
    L.Understood M rule stuck Report k s e s' := by
  cases k with
  | zero =>
    refine ⟨?_, fun pos => absurd pos (by omega), fun top => absurd top (by omega)⟩
    intro rounds enough stops
    have read := tighter.stopped rounds enough (stops.mono (Nat.zero_le 1))
    cases value : M.eval e with
    | ok v =>
      rw [value] at read
      exact judged.plain read (stops.2.2 rfl)
    | error f =>
      rw [value] at read
      obtain ⟨m, failed, report⟩ := read
      exact ⟨m, judged.cond_error failed, report⟩
  | succ k =>
    apply understood_level le
    intro rounds o s'' enough stops failed rest
    exact judged.ends_chain (Nat.succ_pos k) le (tighter.stopped rounds enough stops) failed rest

theorem understood_conditional {c t e : Tree A U B} {s s₁ s₂ s₃ s₄ s' : σ}
    (asked : L.Step s₁ .question s₂) (colon : L.Step s₃ .colon s₄)
    (sizeCond : L.size s₁ < L.size s) (sizeThen : L.size s₃ < L.size s₂)
    (cond : L.Understood M rule stuck Report 1 s c s₁)
    (thenArm : L.Understood M rule stuck Report 0 s₂ t s₃)
    (elseArm : L.Understood M rule stuck Report 0 s₄ e s') :
    L.Understood M rule stuck Report 0 s (.conditional c t e) s' := by
  refine ⟨?_, fun pos => absurd pos (by omega), fun top => absurd top (by omega)⟩
  intro rounds enough stops
  have atQuestion : L.Stops 1 s₁ := judged.stops_of_step asked trivial (by simp) (by simp)
  have atColon : L.Stops 0 s₃ := judged.stops_of_step colon trivial (by simp) (by simp)
  have sizeAsked := judged.step_size asked
  have sizeColon := judged.step_size colon
  have condRead := cond.stopped rounds enough atQuestion
  have thenRead := inner rounds thenArm atColon (by omega)
  have elseRead := inner rounds elseArm stops (by omega)
  cases condValue : M.eval c with
  | error f =>
    rw [condValue] at condRead
    obtain ⟨m, failed, report⟩ := condRead
    have value : M.eval (.conditional c t e) = .error f := by
      simp only [Trial.eval, condValue, bind, Except.bind]
    rw [value]
    exact ⟨m, judged.cond_error failed, report⟩
  | ok x =>
    rw [condValue] at condRead
    cases thenValue : M.eval t with
    | error f =>
      rw [thenValue] at thenRead
      obtain ⟨m, failed, report⟩ := thenRead
      have value : M.eval (.conditional c t e) = .error f := by
        simp only [Trial.eval, condValue, thenValue, bind, Except.bind]
      rw [value]
      exact ⟨m, judged.then_error condRead asked failed, report⟩
    | ok y =>
      rw [thenValue] at thenRead
      cases elseValue : M.eval e with
      | error f =>
        rw [elseValue] at elseRead
        obtain ⟨m, failed, report⟩ := elseRead
        have value : M.eval (.conditional c t e) = .error f := by
          simp only [Trial.eval, condValue, thenValue, elseValue, bind, Except.bind]
        rw [value]
        exact ⟨m, judged.else_error condRead asked thenRead colon failed, report⟩
      | ok z =>
        rw [elseValue] at elseRead
        have value : M.eval (.conditional c t e) = .ok (M.conditional x y z) := by
          simp only [Trial.eval, condValue, thenValue, elseValue, bind, Except.bind, pure,
            Except.pure]
        rw [value]
        exact judged.conditional condRead asked thenRead colon elseRead

theorem understood {k : Nat} {s s' : σ} {e : Tree A U B} (d : L.Derives k s e s') :
    L.Understood M rule stuck Report k s e s' := by
  induction d with
  | atom step =>
    apply understood_operand judged
    intro rounds n _ more
    obtain ⟨m, rfl⟩ : ∃ m, n = m + 1 := ⟨n - 1, by omega⟩
    exact judged.atom step
  | @unary op e s s₁ s' step operand ih =>
    apply understood_operand judged
    intro rounds n enough more
    obtain ⟨m, rfl⟩ : ∃ m, n = m + 1 := ⟨n - 1, by omega⟩
    have consumed := judged.step_size step
    cases refused : M.refuses op with
    | some f =>
      have value : M.eval (.unary op e) = .error f := by simp only [Trial.eval, refused]
      rw [value]
      exact judged.refused step refused
    | none =>
      have value : M.eval (.unary op e) = (M.eval e).map (M.unary op) := by
        simp only [Trial.eval, refused]
      rw [value]
      exact judged.unary step refused (ih.operand rfl rounds m (by omega) (by omega))
  | paren opened inside closed ih =>
    apply understood_operand judged
    intro rounds n enough more
    obtain ⟨m, rfl⟩ : ∃ m, n = m + 1 := ⟨n - 1, by omega⟩
    have consumed := judged.step_size opened
    have atClose := judged.stops_of_step (k := 0) closed trivial (by simp) (by simp)
    exact judged.paren opened (inner rounds ih atClose (by omega)) closed
  | climb le tighter ih => exact understood_climb judged le ih
  | binary left step right ihl ihr =>
    exact understood_binary judged step (judged.derives_size left) (judged.derives_size right)
      ihl ihr
  | conditional cond asked thenArm colon elseArm ihc iht ihe =>
    exact understood_conditional judged asked colon (judged.derives_size cond)
      (judged.derives_size thenArm) ihc iht ihe

/-- The reader of whole expressions ends as the trial of the tree says, in as many rounds as the
text is long. -/
theorem ends_of_derives {s s' : σ} {e : Tree A U B} {rounds : Nat} (d : L.Derives 0 s e s')
    (stops : L.Stops 0 s') (enough : L.size s < rounds) :
    L.Ends Report (L.whole stuck rounds) s (M.eval e) s' :=
  inner rounds (understood judged d) stops enough

end Derivations

end Ladder

end Precedence
