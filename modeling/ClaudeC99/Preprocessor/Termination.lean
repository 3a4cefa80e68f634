import ClaudeC99.Preprocessor.Expand

/-! When macro expansion ends, and when it expands no macro inside that macro's own rescan. -/

namespace ClaudeC99.Preprocessor

/-- Why an expander that disables every macro it rescans can stop early. -/
inductive Stop
  | exits (message : String)
  | blocked (name : Text)
  deriving DecidableEq

abbrev Guarded (α : Type) := Option (Except Stop α)

namespace Guarded

variable {α β : Type}

def andThen (m : Guarded α) (k : α → Guarded β) : Guarded β :=
  match m with
  | none => none
  | some (.error stop) => some (.error stop)
  | some (.ok a) => k a

def forEach (f : α → Guarded β) : List α → Guarded (List β)
  | [] => some (.ok [])
  | a :: as => (f a).andThen fun b => (forEach f as).andThen fun bs => some (.ok (b :: bs))

/-- `r` has not finished, or `s` ends as it does. -/
def Refines (r s : Guarded α) : Prop := r = none ∨ r = s

theorem Refines.andThen {r s : Guarded α} {k l : α → Guarded β} (first : Refines r s)
    (next : ∀ a, Refines (k a) (l a)) : Refines (r.andThen k) (s.andThen l) := by
  rcases first with rfl | rfl
  · exact Or.inl rfl
  · match r with
    | none => exact Or.inl rfl
    | some (.error stop) => exact Or.inr rfl
    | some (.ok a) => exact next a

theorem Refines.forEach {f g : α → Guarded β} (each : ∀ a, Refines (f a) (g a)) (as : List α) :
    Refines (forEach f as) (forEach g as) := by
  induction as with
  | nil => exact Or.inr rfl
  | cons a as ih => exact (each a).andThen fun b => ih.andThen fun bs => Or.inr rfl

theorem Refines.eq_of_some {r s : Guarded α} {v : Except Stop α} (refines : Refines r s)
    (finished : r = some v) : s = some v := by
  rcases refines with rfl | rfl
  · cases finished
  · exact finished

end Guarded

def guardedPiece (expand : List Text → Text → Guarded Text) (disabled : List Text) :
    Piece → Guarded Text
  | .verbatim text => some (.ok text)
  | .objectLike m => expand (m.name :: disabled) m.replacement
  | .invocation m params args =>
    if argCountMatches m.isVariadic params args then
      (Guarded.forEach (expand disabled) args).andThen fun expandedArgs =>
        match substituteArgs m.replacement (bindArgs m.isVariadic params args expandedArgs) with
        | .error message => some (.error (.exits message))
        | .ok subst =>
          if m.name ∈ disabled then some (.error (.blocked m.name))
          else expand (m.name :: disabled) subst
    else some (.error (.exits (argCountError m params args)))

/-- The expander in which a function-like macro is disabled while its replacement is rescanned, as
an object-like one is. It stops where it would rescan a disabled function-like macro. -/
def expandDisabling (ctx : ExpandContext) (macros : MacroTable) :
    Nat → List Text → Text → Guarded Text
  | 0, _, _ => none
  | _ + 1, _, [] => some (.ok [])
  | fuel + 1, disabled, c :: s =>
    let next := nextPiece ctx macros disabled c s
    (guardedPiece (expandDisabling ctx macros fuel) disabled next.1).andThen fun out =>
      (expandDisabling ctx macros fuel disabled next.2).andThen fun tail => some (.ok (out ++ tail))

variable (ctx : ExpandContext) (macros : MacroTable)

theorem guardedPiece_refines {f g : List Text → Text → Guarded Text}
    (each : ∀ disabled s, (f disabled s).Refines (g disabled s)) (disabled : List Text)
    (piece : Piece) : (guardedPiece f disabled piece).Refines (guardedPiece g disabled piece) := by
  cases piece with
  | verbatim text => exact Or.inr rfl
  | objectLike m => exact each _ _
  | invocation m params args =>
    simp only [guardedPiece]
    split
    · refine (Guarded.Refines.forEach (each disabled) args).andThen fun expandedArgs => ?_
      split
      · exact Or.inr rfl
      · split
        · exact Or.inr rfl
        · exact each _ _
    · exact Or.inr rfl

theorem expandDisabling_succ (n : Nat) (disabled : List Text) (s : Text) :
    (expandDisabling ctx macros n disabled s).Refines
      (expandDisabling ctx macros (n + 1) disabled s) := by
  induction n generalizing disabled s with
  | zero => exact Or.inl rfl
  | succ n ih =>
    cases s with
    | nil => exact Or.inr rfl
    | cons c s =>
      rw [expandDisabling, expandDisabling]
      exact (guardedPiece_refines ih disabled _).andThen fun out =>
        (ih _ _).andThen fun tail => Or.inr rfl

theorem expandDisabling_mono {n k : Nat} {disabled : List Text} {s : Text}
    {v : Except Stop Text} (le : n ≤ k) (finished : expandDisabling ctx macros n disabled s = some v) :
    expandDisabling ctx macros k disabled s = some v := by
  induction le with
  | refl => exact finished
  | step _ ih => exact (expandDisabling_succ ctx macros _ disabled s).eq_of_some ih

theorem namePiece_rest_le (disabled : List Text) (name after : Text) :
    (namePiece ctx macros disabled name after).2.length ≤ after.length := by
  have plain : (plainName name after).2.length ≤ after.length := by
    have blanks := dropWhile_length_le isBlank after
    unfold plainName
    dsimp only
    split
    · split
      · next tail start =>
          have inner := dropWhile_length_le (fun c => c != ')' && c != '\n') tail
          rw [start, List.length_cons] at blanks
          split
          · next close =>
              rw [close, List.length_cons] at inner
              dsimp only
              omega
          · dsimp only
            omega
      · split
        · have ident := dropWhile_length_le isIdentChar (after.dropWhile isBlank)
          dsimp only
          omega
        · exact Nat.le_refl _
    · exact Nat.le_refl _
  unfold namePiece
  split
  · exact Nat.le_refl _
  split
  · exact Nat.le_refl _
  split
  · exact plain
  split
  · split
    · exact plain
    · exact Nat.le_refl _
  split
  · next tail start =>
      have blanks := dropWhile_length_le isBlank after
      have args := collectArgs_after_le tail
      rw [start, List.length_cons] at blanks
      dsimp only
      omega
  · exact Nat.le_refl _

theorem nextPiece_rest_le (disabled : List Text) (c : Char) (s : Text) :
    (nextPiece ctx macros disabled c s).2.length ≤ s.length := by
  unfold nextPiece
  split
  · have literal := takeQuoted_length c s
    dsimp only
    omega
  split
  · have ident := dropWhile_length_le isIdentChar s
    exact Nat.le_trans (namePiece_rest_le ctx macros disabled _ _) ident
  · exact Nat.le_refl _

theorem plainName_verbatim (name after : Text) : ∃ text, (plainName name after).1 = .verbatim text := by
  unfold plainName
  dsimp only
  split
  · split
    · split <;> exact ⟨_, rfl⟩
    · split <;> exact ⟨_, rfl⟩
  · exact ⟨_, rfl⟩

theorem namePiece_objectLike {disabled : List Text} {name after : Text} {m : MacroDef}
    (piece : (namePiece ctx macros disabled name after).1 = .objectLike m) :
    macroFind macros name = some m ∧ m.params = none ∧ m.name ∉ disabled := by
  obtain ⟨text, plain⟩ := plainName_verbatim name after
  unfold namePiece at piece
  split at piece
  · cases piece
  split at piece
  · cases piece
  split at piece
  · rw [plain] at piece
    cases piece
  next found =>
    split at piece
    · next objectLike =>
        split at piece
        · rw [plain] at piece
          cases piece
        · next enabled =>
            cases piece
            exact ⟨found, objectLike, enabled⟩
    · split at piece <;> cases piece

theorem namePiece_invocation {disabled : List Text} {name after : Text} {m : MacroDef}
    {params args : List Text}
    (piece : (namePiece ctx macros disabled name after).1 = .invocation m params args) :
    macroFind macros name = some m ∧ m.params = some params ∧
      ∀ a ∈ args, a.length ≤ after.length := by
  obtain ⟨text, plain⟩ := plainName_verbatim name after
  unfold namePiece at piece
  split at piece
  · cases piece
  split at piece
  · cases piece
  split at piece
  · rw [plain] at piece
    cases piece
  next found =>
    split at piece
    · split at piece
      · rw [plain] at piece
        cases piece
      · cases piece
    · next functionLike =>
        split at piece
        · next tail start =>
            cases piece
            refine ⟨found, functionLike, fun a member => ?_⟩
            have blanks := dropWhile_length_le isBlank after
            have bound := collectArgs_arg_le tail a member
            rw [start, List.length_cons] at blanks
            omega
        · cases piece

theorem nextPiece_objectLike {disabled : List Text} {c : Char} {s : Text} {m : MacroDef}
    (piece : (nextPiece ctx macros disabled c s).1 = .objectLike m) :
    macroFind macros m.name = some m ∧ m.params = none ∧ m.name ∉ disabled := by
  unfold nextPiece at piece
  split at piece
  · cases piece
  split at piece
  · obtain ⟨found, objectLike, fresh⟩ := namePiece_objectLike ctx macros piece
    exact ⟨by rwa [(macroFind_mem found).2], objectLike, fresh⟩
  · cases piece

theorem nextPiece_invocation {disabled : List Text} {c : Char} {s : Text} {m : MacroDef}
    {params args : List Text}
    (piece : (nextPiece ctx macros disabled c s).1 = .invocation m params args) :
    macroFind macros m.name = some m ∧ m.params = some params ∧
      ∀ a ∈ args, a.length ≤ s.length := by
  unfold nextPiece at piece
  split at piece
  · cases piece
  split at piece
  · obtain ⟨found, functionLike, shorter⟩ := namePiece_invocation ctx macros piece
    refine ⟨by rwa [(macroFind_mem found).2], functionLike, fun a member => ?_⟩
    exact Nat.le_trans (shorter a member) (dropWhile_length_le isIdentChar s)
  · cases piece

/-- The macros that a rescan can still expand. -/
def enabled (macros : MacroTable) (disabled : List Text) : List MacroDef :=
  macros.filter fun m => m.name ∉ disabled

theorem enabled_cons_lt {disabled : List Text} {m : MacroDef} (member : m ∈ macros)
    (fresh : m.name ∉ disabled) :
    (enabled macros (m.name :: disabled)).length < (enabled macros disabled).length := by
  have sub : enabled macros (m.name :: disabled) =
      (enabled macros disabled).filter fun other => other.name ≠ m.name := by
    unfold enabled
    rw [List.filter_filter]
    congr 1
    funext other
    simp only [List.mem_cons, not_or, Bool.decide_and, ne_eq]
  rw [sub]
  apply List.length_filter_lt_length_iff_exists.mpr
  refine ⟨m, ?_, by simp⟩
  simp [enabled, member, fresh]

/-- From some fuel on, the expander has finished with one and the same outcome. -/
def Settles (f : Nat → Guarded α) : Prop := ∃ least v, ∀ n, least ≤ n → f n = some v

theorem Settles.const (v : Except Stop α) : Settles fun _ => some v :=
  ⟨0, v, fun _ _ => rfl⟩

theorem Settles.andThen {f : Nat → Guarded α} {k : Nat → α → Guarded β} (first : Settles f)
    (next : ∀ a, Settles fun n => k n a) : Settles fun n => (f n).andThen (k n) := by
  obtain ⟨least, v, settled⟩ := first
  cases v with
  | error stop => exact ⟨least, .error stop, fun n le => by simp only [settled n le]; rfl⟩
  | ok a =>
    obtain ⟨least', w, settled'⟩ := next a
    refine ⟨max least least', w, fun n le => ?_⟩
    simp only [settled n (by omega)]
    exact settled' n (by omega)

theorem Settles.forEach {f : Nat → α → Guarded β} {as : List α}
    (each : ∀ a ∈ as, Settles fun n => f n a) : Settles fun n => Guarded.forEach (f n) as := by
  induction as with
  | nil => exact Settles.const _
  | cons a as ih =>
    refine (each a (by simp)).andThen fun b => Settles.andThen ?_ fun bs => Settles.const _
    exact ih fun a' member => each a' (List.mem_cons_of_mem a member)

theorem Settles.succ {f : Nat → Guarded α} (settles : Settles fun n => f (n + 1)) : Settles f := by
  obtain ⟨least, v, settled⟩ := settles
  refine ⟨least + 1, v, fun n le => ?_⟩
  obtain ⟨k, rfl⟩ : ∃ k, n = k + 1 := ⟨n - 1, by omega⟩
  exact settled k (by omega)

theorem guardedPiece_settles {disabled : List Text} {c : Char} {s : Text}
    (shorter : ∀ a : Text, a.length ≤ s.length →
      Settles fun n => expandDisabling ctx macros n disabled a)
    (fewer : ∀ names a, (enabled macros names).length < (enabled macros disabled).length →
      Settles fun n => expandDisabling ctx macros n names a) :
    Settles fun n => guardedPiece (expandDisabling ctx macros n) disabled
      (nextPiece ctx macros disabled c s).1 := by
  cases piece : (nextPiece ctx macros disabled c s).1 with
  | verbatim text => exact Settles.const _
  | objectLike m =>
    obtain ⟨found, -, fresh⟩ := nextPiece_objectLike ctx macros piece
    exact fewer _ _ (enabled_cons_lt macros (macroFind_mem found).1 fresh)
  | invocation m params args =>
    obtain ⟨found, -, argsShorter⟩ := nextPiece_invocation ctx macros piece
    simp only [guardedPiece]
    split
    · refine Settles.andThen (Settles.forEach fun a member => shorter a (argsShorter a member))
        fun expandedArgs => ?_
      split
      · exact Settles.const _
      · split
        · exact Settles.const _
        · next fresh => exact fewer _ _ (enabled_cons_lt macros (macroFind_mem found).1 fresh)
    · exact Settles.const _

/-- The measure is the number of enabled macros, then the length of the text. -/
theorem expandDisabling_settles (disabled : List Text) (s : Text) :
    Settles fun n => expandDisabling ctx macros n disabled s := by
  induction count : (enabled macros disabled).length using Nat.strongRecOn
    generalizing disabled s with
  | ind count fewer =>
    induction size : s.length using Nat.strongRecOn generalizing s with
    | ind size shorter =>
      subst count size
      apply Settles.succ
      cases s with
      | nil => exact Settles.const _
      | cons c s =>
        have below : ∀ a : Text, a.length ≤ s.length →
            Settles fun n => expandDisabling ctx macros n disabled a := fun a le =>
          shorter a.length (by simpa using Nat.lt_succ_of_le le) a rfl
        refine Settles.andThen ?_ fun out =>
          (below _ (nextPiece_rest_le ctx macros disabled c s)).andThen fun tail => Settles.const _
        exact guardedPiece_settles ctx macros below fun names a lt => fewer _ lt names a rfl

/-- No macro was expanded while its own replacement was being rescanned. -/
def Fresh (log : List Expansion) : Prop := ∀ e ∈ log, e.name ∉ e.rescanning

theorem fresh_nil : Fresh [] := by
  intro e member
  cases member

theorem fresh_append {first second : List Expansion} :
    Fresh (first ++ second) ↔ Fresh first ∧ Fresh second := by
  simp only [Fresh, List.mem_append]
  constructor
  · intro fresh
    exact ⟨fun e member => fresh e (Or.inl member), fun e member => fresh e (Or.inr member)⟩
  · rintro ⟨hfirst, hsecond⟩ e (member | member)
    · exact hfirst e member
    · exact hsecond e member

/-- The two expanders have the same outcome, or the guarded one is blocked where the other expands
a macro again. -/
inductive Agrees : Run α → Guarded α → Prop
  | running : Agrees none none
  | returns (log : List Expansion) (a : α) (fresh : Fresh log) :
    Agrees (some (log, .ok a)) (some (.ok a))
  | exits (log : List Expansion) (message : String) (fresh : Fresh log) :
    Agrees (some (log, .error message)) (some (.error (.exits message)))
  | blocked (m : Run α) (name : Text) (again : ∀ log r, m = some (log, r) → ¬ Fresh log) :
    Agrees m (some (.error (.blocked name)))

theorem Agrees.logged {m : Run α} {r : Guarded α} {log : List Expansion} (fresh : Fresh log)
    (agrees : Agrees m r) : Agrees (Run.logged log m) r := by
  cases agrees with
  | running => exact .running
  | returns log' a fresh' => exact .returns _ a (fresh_append.mpr ⟨fresh, fresh'⟩)
  | exits log' message fresh' => exact .exits _ message (fresh_append.mpr ⟨fresh, fresh'⟩)
  | blocked _ name again =>
    apply Agrees.blocked
    intro whole r finished
    match m with
    | none => cases finished
    | some (log', r') =>
      cases finished
      exact fun all => again log' r rfl (fresh_append.mp all).2

theorem Agrees.andThen {m : Run α} {r : Guarded α} {k : α → Run β} {l : α → Guarded β}
    (first : Agrees m r) (next : ∀ a, Agrees (k a) (l a)) : Agrees (m.andThen k) (r.andThen l) := by
  cases first with
  | running => exact .running
  | returns log a fresh => exact (next a).logged fresh
  | exits log message fresh => exact .exits log message fresh
  | blocked _ name again =>
    apply Agrees.blocked
    intro whole r finished
    match m with
    | none => cases finished
    | some (log, .error message) =>
      cases finished
      exact again _ _ rfl
    | some (log, .ok a) =>
      simp only [Run.andThen] at finished
      cases second : k a with
      | none => simp [second, Run.logged] at finished
      | some outcome =>
        rw [second] at finished
        cases finished
        exact fun all => again log _ rfl (fresh_append.mp all).1

theorem Agrees.forEach {f : α → Run β} {g : α → Guarded β} (each : ∀ a, Agrees (f a) (g a))
    (as : List α) : Agrees (Run.forEach f as) (Guarded.forEach g as) := by
  induction as with
  | nil => exact .returns _ _ fresh_nil
  | cons a as ih =>
    exact (each a).andThen fun b => ih.andThen fun bs => .returns _ _ fresh_nil

/-- The macros among `names` whose flag `expand_macros_text` sets while it rescans them. -/
def objectLikeNames (macros : MacroTable) (names : List Text) : List Text :=
  names.filter fun name => (macroFind macros name).any fun m => m.params.isNone

theorem namePiece_objectLikeNames (names : List Text) (name after : Text) :
    namePiece ctx macros (objectLikeNames macros names) name after =
      namePiece ctx macros names name after := by
  unfold namePiece
  cases found : macroFind macros name with
  | none => rfl
  | some m =>
    cases objectLike : m.params with
    | some params => simp only [objectLike]
    | none =>
      have named := (macroFind_mem found).2
      have flag : m.name ∈ objectLikeNames macros names ↔ m.name ∈ names := by
        simp [objectLikeNames, named, found, objectLike]
      simp only [flag]

theorem nextPiece_objectLikeNames (names : List Text) (c : Char) (s : Text) :
    nextPiece ctx macros (objectLikeNames macros names) c s = nextPiece ctx macros names c s := by
  unfold nextPiece
  rw [namePiece_objectLikeNames]

theorem objectLikeNames_cons {names : List Text} {m : MacroDef}
    (found : macroFind macros m.name = some m) :
    objectLikeNames macros (m.name :: names) =
      if m.params.isNone then m.name :: objectLikeNames macros names
      else objectLikeNames macros names := by
  simp only [objectLikeNames, List.filter_cons, found, Option.any_some]

theorem expandPiece_agrees {disabled : List Text} {c : Char} {s : Text}
    {expand : List Text → List Text → Text → Run Text} {guarded : List Text → Text → Guarded Text}
    (nested : ∀ names a, Agrees (expand (objectLikeNames macros names) names a) (guarded names a)) :
    Agrees
      (expandPiece expand (objectLikeNames macros disabled) disabled
        (nextPiece ctx macros disabled c s).1)
      (guardedPiece guarded disabled (nextPiece ctx macros disabled c s).1) := by
  cases piece : (nextPiece ctx macros disabled c s).1 with
  | verbatim text => exact .returns _ _ fresh_nil
  | objectLike m =>
    obtain ⟨found, objectLike, fresh⟩ := nextPiece_objectLike ctx macros piece
    have rescan := nested (m.name :: disabled) m.replacement
    rw [objectLikeNames_cons macros found, if_pos (by simp [objectLike])] at rescan
    exact rescan.logged (by simpa [Fresh] using fresh)
  | invocation m params args =>
    obtain ⟨found, functionLike, -⟩ := nextPiece_invocation ctx macros piece
    simp only [expandPiece, guardedPiece]
    split
    · refine (Agrees.forEach (nested disabled) args).andThen fun expandedArgs => ?_
      cases substituteArgs m.replacement
          (bindArgs m.isVariadic params args expandedArgs) with
      | error message => exact .exits _ _ fresh_nil
      | ok subst =>
        dsimp only
        split
        · next again =>
            apply Agrees.blocked
            intro log r finished all
            cases rescan : expand (objectLikeNames macros disabled) (m.name :: disabled) subst with
            | none => simp [rescan, Run.logged] at finished
            | some outcome =>
              rw [rescan] at finished
              cases finished
              exact (fresh_append.mp all).1 _ (List.mem_singleton.mpr rfl) again
        · next fresh =>
            have rescan := nested (m.name :: disabled) subst
            rw [objectLikeNames_cons macros found, if_neg (by simp [functionLike])] at rescan
            exact rescan.logged (by simpa [Fresh] using fresh)
    · exact .exits _ _ fresh_nil

theorem expandMacrosText_agrees (n : Nat) (rescanning : List Text) (s : Text) :
    Agrees (expandMacrosText ctx macros n (objectLikeNames macros rescanning) rescanning s)
      (expandDisabling ctx macros n rescanning s) := by
  induction n generalizing rescanning s with
  | zero => exact .running
  | succ n ih =>
    cases s with
    | nil => exact .returns _ _ fresh_nil
    | cons c s =>
      simp only [expandMacrosText, expandDisabling, nextPiece_objectLikeNames]
      exact (expandPiece_agrees ctx macros ih).andThen fun out =>
        (ih _ _).andThen fun tail => .returns _ _ fresh_nil

/-- Expansion ends without expanding a macro inside that macro's own rescan exactly when an
expander that disables function-like macros too is never blocked. -/
theorem expandMacrosText_returns_iff (rescanning : List Text) (s : Text) :
    (∃ n log r,
        expandMacrosText ctx macros n (objectLikeNames macros rescanning) rescanning s =
          some (log, r) ∧ Fresh log) ↔
      ∀ n name, expandDisabling ctx macros n rescanning s ≠ some (.error (.blocked name)) := by
  constructor
  · rintro ⟨n, log, r, finished, fresh⟩ k name blocked
    have agrees := expandMacrosText_agrees ctx macros n rescanning s
    rw [finished] at agrees
    have settled : ∃ v, expandDisabling ctx macros n rescanning s = some v ∧
        v ≠ .error (.blocked name) := by
      generalize expandDisabling ctx macros n rescanning s = outcome at agrees
      cases agrees with
      | returns => exact ⟨_, rfl, by simp⟩
      | exits => exact ⟨_, rfl, by simp⟩
      | blocked _ _ again => exact absurd fresh (again log r rfl)
    obtain ⟨v, finished', other⟩ := settled
    have early := expandDisabling_mono ctx macros (Nat.le_max_left n k) finished'
    have late := expandDisabling_mono ctx macros (Nat.le_max_right n k) blocked
    rw [early] at late
    exact other (Option.some.inj late)
  · intro unblocked
    obtain ⟨n, v, settled⟩ := expandDisabling_settles ctx macros rescanning s
    have agrees := expandMacrosText_agrees ctx macros n rescanning s
    have finished : expandDisabling ctx macros n rescanning s = some v := settled n (Nat.le_refl n)
    rw [finished] at agrees
    generalize outcome : expandMacrosText ctx macros n (objectLikeNames macros rescanning)
      rescanning s = run at agrees
    cases agrees with
    | returns log a fresh => exact ⟨n, log, _, outcome, fresh⟩
    | exits log message fresh => exact ⟨n, log, _, outcome, fresh⟩
    | blocked _ name => exact absurd finished (unblocked n name)

/-- `#define f(x) f(x)` -/
def selfCall : MacroDef := ⟨['f'], some [['x']], false, "f(x)".toList⟩

theorem forEach_digit (n : Nat) (rescanning : List Text) :
    Run.forEach (expandMacrosText ctx [selfCall] n [] rescanning) [['1']] = none ∨
      Run.forEach (expandMacrosText ctx [selfCall] n [] rescanning) [['1']] =
        some ([], .ok [['1']]) := by
  match n with
  | 0 => exact Or.inl rfl
  | 1 => exact Or.inl rfl
  | n + 2 => exact Or.inr rfl

theorem selfCall_invocation :
    nextPiece ⟨[], 1⟩ [selfCall] [] 'f' "(1)".toList = (.invocation selfCall [['x']] [['1']], []) := by
  decide +kernel

theorem selfCall_substituted :
    substituteArgs selfCall.replacement (bindArgs selfCall.isVariadic [['x']] [['1']] [['1']]) =
      .ok "f(1)".toList := by
  decide +kernel

theorem selfCall_not_finished (n : Nat) (rescanning : List Text) :
    expandMacrosText ⟨[], 1⟩ [selfCall] n [] rescanning "f(1)".toList = none := by
  induction n generalizing rescanning with
  | zero => rfl
  | succ n ih =>
    change ((expandPiece _ [] rescanning (nextPiece ⟨[], 1⟩ [selfCall] [] 'f' "(1)".toList).1).andThen
      _) = none
    rw [selfCall_invocation]
    have rescan : expandPiece (expandMacrosText ⟨[], 1⟩ [selfCall] n) [] rescanning
        (.invocation selfCall [['x']] [['1']]) = none := by
      simp only [expandPiece]
      rw [if_pos (by decide)]
      rcases forEach_digit ⟨[], 1⟩ n rescanning with running | digit
      · rw [running]
        rfl
      · rw [digit]
        simp only [Run.andThen]
        rw [selfCall_substituted]
        simp only [ih]
        rfl
    rw [rescan]
    rfl

/-- The self-referential function-like macro is accepted, and its expansion never ends. -/
theorem self_call_never_returns :
    macroDefine [] selfCall = .ok [selfCall] ∧
      ∀ n, expandMacrosText ⟨[], 1⟩ [selfCall] n [] [] "f(1)".toList = none :=
  ⟨by decide, fun n => selfCall_not_finished n []⟩

end ClaudeC99.Preprocessor
