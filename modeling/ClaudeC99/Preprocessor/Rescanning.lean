import Mathlib.Data.List.TakeWhile
import ClaudeC99.Preprocessor.TokenScan

/-! Where the rescans of the preprocessor agree with C99 6.10.3.4. -/

namespace ClaudeC99.Preprocessor

def TokenMacro.toDef (m : TokenMacro) : MacroDef :=
  ⟨m.name, m.params, m.isVariadic, render m.body⟩

def macrosOf (table : List TokenMacro) : MacroTable := table.map TokenMacro.toDef

/-- What the code does at this name when it is copied: a `defined` in a rescanned text takes its
operand with it. -/
def Site.operandFree (s : Site) (w : Text) : Bool :=
  w != "defined".toList || s.origin == .source || !protectsOperand (render s.rest)

/-- A word inside a number or literal is copied. -/
def Site.wordKept (table : List TokenMacro) (s : Site) (calls : Bool) (w : Text) : Bool :=
  decide (w ∉ predefinedWords) && (w != "defined".toList || s.origin == .source) &&
    match findMacro table w with
    | none => true
    | some m => if m.params = none then decide (w ∈ s.active) else !calls

/-- The arguments after the parenthesis on this line, if this text closes them. -/
def Site.argsHere (s : Site) : Option (List (List Item) × List Layer) :=
  match s.rest.dropWhile Item.isSpace with
  | .token .opening _ :: items => readArgs 0 [] (upcomingIn s.origin [] items)
  | _ => none

def opensCall (stack : List Layer) : Bool :=
  match afterBlanks stack with
  | (.token .opening _, _) :: _ => true
  | _ => false

def paramNames (isVariadic : Bool) (params : List Text) : List Text :=
  params ++ if isVariadic then ["__VA_ARGS__".toList] else []

/-- A call that the code makes is one of C99, lies in one text, gives a single parameter something,
and has a replacement list in which parameters stand alone. -/
def Site.callKept (s : Site) (m : TokenMacro) (params : List Text) : Bool :=
  !s.painted && decide (m.name ∉ s.active) &&
    decide (Inert (paramNames m.isVariadic params) m.body) &&
    s.argsHere.any fun r => r.1 != [[]] || m.isVariadic || params.length != 1

/-- A name that the code does not take for a call is none for C99 either. -/
def Site.noCallKept (s : Site) (w : Text) : Bool :=
  s.operandFree w && (s.painted || decide (w ∈ s.active) || !opensCall s.stack)

def Site.nameKept (table : List TokenMacro) (s : Site) (w : Text) : Bool :=
  decide (w ∉ predefinedWords) &&
    match findMacro table w with
    | none => s.operandFree w
    | some m =>
      match m.params with
      | none => if w ∈ s.active then s.operandFree w else !s.painted
      | some params => if callsHere s.rest then s.callKept m params else s.noCallKept w

/-- The code treats the token that is read here as C99 does. -/
def Site.kept (table : List TokenMacro) (s : Site) : Bool :=
  match s.token with
  | .name w => s.nameKept table w
  | .other atoms => atoms.all fun a =>
    match a with
    | .word w => s.wordKept table (callsHere s.rest && atoms.getLast? == some (.word w)) w
    | _ => true
  | _ => true

/-- No line of the text starts with a `#`. -/
def noDirective (lineStart : Bool) : List Item → Bool
  | [] => true
  | .blank c :: items => noDirective (c == '\n' || lineStart) items
  | .token t _ :: items => !(lineStart && t.spelling.head? == some '#') && noDirective false items

theorem macroFind_macrosOf (table : List TokenMacro) (w : Text) :
    macroFind (macrosOf table) w = (findMacro table w).map TokenMacro.toDef := by
  induction table with
  | nil => rfl
  | cons m table ih =>
    by_cases here : m.name = w
    · simp [macroFind, findMacro, macrosOf, TokenMacro.toDef, here]
    · have next : macroFind (macrosOf (m :: table)) w = macroFind (macrosOf table) w := by
        simp [macroFind, macrosOf, TokenMacro.toDef, here]
      have next' : findMacro (m :: table) w = findMacro table w := by
        simp [findMacro, here]
      rw [next, next', ih]

theorem findMacro_mem {table : List TokenMacro} {w : Text} {m : TokenMacro}
    (found : findMacro table w = some m) : m ∈ table ∧ m.name = w := by
  have named := List.find?_some found
  exact ⟨List.mem_of_find?_eq_some found, by simpa using named⟩

theorem noDirective_tail {t : Token} {painted : Bool} {items : List Item} {lineStart : Bool}
    (none : noDirective lineStart (.token t painted :: items) = true) :
    noDirective false items = true := by
  simp only [noDirective, Bool.and_eq_true] at none
  exact none.2

/-- What follows the parenthesis of a call does not start a line. -/
theorem noDirective_after {front rest : List Item} {t : Token} {painted lineStart : Bool}
    (none : noDirective lineStart (front ++ .token t painted :: rest) = true) :
    noDirective false rest = true := by
  induction front generalizing lineStart with
  | nil => exact noDirective_tail none
  | cons i front ih =>
    cases i with
    | blank c => exact ih none
    | token u p => exact ih (noDirective_tail none)

variable {table : List TokenMacro}

section Steps

variable {disabled : List Text} {top : Bool} {P : Bool → Text → Text → Prop}

/-- The names that the code finds disabled are the object-like macros that are being replaced. -/
def FlagsAgree (table : List TokenMacro) (disabled active : List Text) : Prop :=
  ∀ w m, findMacro table w = some m → m.params = none → (w ∈ disabled ↔ w ∈ active)

theorem copied_of_wordKept {s : Site} (flags : FlagsAgree table disabled s.active) {w after : Text}
    (kept : s.wordKept table (callsAhead after) w = true) :
    CopiedWord (macrosOf table) disabled w after := by
  intro d found
  rw [macroFind_macrosOf] at found
  obtain ⟨m, named, rfl⟩ := Option.map_eq_some_iff.mp found
  simp only [Site.wordKept, named, Bool.and_eq_true] at kept
  have macroKept := kept.2
  constructor
  · intro objectLike
    have params : m.params = none := objectLike
    rw [if_pos params, decide_eq_true_eq] at macroKept
    exact (flags w m named params).mpr macroKept
  · intro functionLike
    have params : m.params ≠ none := functionLike
    rw [if_neg params] at macroKept
    simpa using macroKept

theorem wordKept_uncalled {s : Site} {calls : Bool} {w : Text}
    (kept : s.wordKept table calls w = true) : s.wordKept table false w = true := by
  simp only [Site.wordKept, Bool.and_eq_true] at kept ⊢
  refine ⟨kept.1, ?_⟩
  cases named : findMacro table w with
  | none => rfl
  | some m =>
    have macroKept := kept.2
    simp only [named] at macroKept ⊢
    split
    · next objectLike => rwa [if_pos objectLike] at macroKept
    · rfl

theorem Scanner.atom (scanner : Scanner (macrosOf table) disabled top P) {s : Site}
    (flags : FlagsAgree table disabled s.active) (isTop : top = true ↔ s.origin = .source)
    {a : Atom} (valid : a.valid = true) {content : Bool} {after out : Text}
    (word : ∀ w, a = .word w →
      EndsWord after ∧ s.wordKept table (callsAhead after) w = true)
    (noHash : top = true → a = .char '#' → content = true)
    (noComment : a = .char '/' → after.head? ≠ some '/' ∧ after.head? ≠ some '*')
    (rest : P true after out) : P content (a.spelling ++ after) (a.spelling ++ out) := by
  cases a with
  | char c =>
    obtain ⟨noQuote, noStart, noSpace, -⟩ := plainChar_facts valid
    refine scanner.char noQuote noStart noSpace (fun isTop hash => noHash isTop ?_)
      (fun slash => noComment ?_) rest
    · rw [hash]
    · rw [slash]
  | word w =>
    obtain ⟨ends, kept⟩ := word w rfl
    have parts := kept
    simp only [Site.wordKept, Bool.and_eq_true, decide_eq_true_eq, Bool.or_eq_true, bne_iff_ne,
      beq_iff_eq] at parts
    refine scanner.plain valid ends parts.1.1 (copied_of_wordKept flags kept) (fun nested same => ?_)
      rest
    rcases parts.1.2 with other | source
    · exact absurd same other
    · rw [isTop.mpr source] at nested
      cases nested
  | quoted quote body =>
    simp only [Atom.valid, Bool.and_eq_true] at valid
    simpa [Atom.spelling] using scanner.quoted valid.1 valid.2 rest

/-- The atom that follows another one starts no call and, after a `/`, no comment. -/
theorem joined_head {a b : Atom} (valid : b.valid = true) (joins : a.joins b = true) (after : Text) :
    ∃ c, (b.spelling ++ after).head? = some c ∧ isBlank c = false ∧ c ≠ '(' ∧
      (a = .char '/' → c ≠ '/' ∧ c ≠ '*') := by
  cases b with
  | char c =>
    obtain ⟨-, -, noSpace, noOpen, -⟩ := plainChar_facts valid
    refine ⟨c, rfl, ?_, noOpen, ?_⟩
    · have noBlank := argBlank_of_not_space noSpace
      simp only [isArgBlank, Bool.or_eq_false_iff] at noBlank
      exact noBlank.1
    · rintro rfl
      simpa [Atom.joins] using joins
  | word w =>
    cases w with
    | nil => cases valid
    | cons c w =>
      have word : isWord (c :: w) = true := valid
      obtain ⟨-, -, -, noSlash, -⟩ := isWord_head word
      have ident := isWord_chars word c List.mem_cons_self
      obtain ⟨-, noBlank, noOpen, -, -⟩ := identChar_facts ident
      simp only [isArgBlank, Bool.or_eq_false_iff] at noBlank
      refine ⟨c, rfl, noBlank.1, noOpen, fun _ => ⟨noSlash, ?_⟩⟩
      rintro rfl
      cases ident
  | quoted quote body =>
    simp only [Atom.valid, Bool.and_eq_true] at valid
    refine ⟨quote, rfl, ?_⟩
    rcases quote_cases valid.1 with rfl | rfl <;>
      exact ⟨rfl, by decide, fun _ => ⟨by decide, by decide⟩⟩

theorem Scanner.atoms (scanner : Scanner (macrosOf table) disabled top P) {s : Site}
    (flags : FlagsAgree table disabled s.active) (isTop : top = true ↔ s.origin = .source)
    {atoms : List Atom} (valid : ∀ a ∈ atoms, a.valid = true)
    (chain : atoms.IsChain fun a b => a.joins b = true) {after : Text} (ends : EndsWord after)
    (kept : ∀ w, .word w ∈ atoms →
      s.wordKept table (callsAhead after && atoms.getLast? == some (.word w)) w = true)
    (noComment : after.head? ≠ some '/' ∧ after.head? ≠ some '*')
    {content : Bool} (noHash : top = true → atoms.head? = some (.char '#') → content = true)
    (nonempty : atoms ≠ []) {out : Text} (rest : P true after out) :
    P content (spellAtoms atoms ++ after) (spellAtoms atoms ++ out) := by
  induction atoms generalizing content with
  | nil => exact absurd rfl nonempty
  | cons a atoms ih =>
    have here := valid a List.mem_cons_self
    have hash (isTop : top = true) (first : a = .char '#') : content = true :=
      noHash isTop (by rw [first]; rfl)
    rw [spellAtoms_cons, List.append_assoc, List.append_assoc]
    cases atoms with
    | nil =>
      refine scanner.atom flags isTop here (fun w isW => ⟨ends, ?_⟩) hash (fun _ => noComment) rest
      subst isW
      simpa using kept w List.mem_cons_self
    | cons b atoms =>
      have joins := (List.isChain_cons_cons.mp chain).1
      have later := fun c member => valid c (List.mem_cons_of_mem a member)
      obtain ⟨c, head, noBlank, noOpen, slash⟩ := joined_head (later b List.mem_cons_self) joins
        (spellAtoms atoms ++ after)
      have shape : spellAtoms (b :: atoms) ++ after = b.spelling ++ (spellAtoms atoms ++ after) := by
        rw [spellAtoms_cons, List.append_assoc]
      have uncalled : callsAhead (spellAtoms (b :: atoms) ++ after) = false := by
        rw [shape, callsAhead]
        cases text : b.spelling ++ (spellAtoms atoms ++ after) with
        | nil => rfl
        | cons d s =>
          rw [text] at head
          cases head
          simp [noBlank, noOpen]
      have tail : P true (spellAtoms (b :: atoms) ++ after) (spellAtoms (b :: atoms) ++ out) := by
        refine ih later chain.tail (fun w member => ?_) (fun _ _ => rfl) (by simp)
        simpa using kept w (List.mem_cons_of_mem a member)
      refine scanner.atom flags isTop here (fun w isW => ?_) hash (fun isSlash => ?_) tail
      · refine ⟨endsWord_atoms later chain ends ⟨w, isW⟩, ?_⟩
        rw [uncalled]
        exact wordKept_uncalled (kept w (by rw [isW]; exact List.mem_cons_self))
      · rw [shape, head]
        simpa using slash isSlash

/-- The scan has turned `items` into a text that the code prints too, and goes on with what lies
beyond. -/
def Simulates (table : List TokenMacro) (n : Nat) (outer : List Text) (beyond : List Layer)
    (Q : Text → Text → Prop) (items out : List Item) : Prop :=
  ∃ here out' sites k, k < n ∧ out = here ++ out' ∧
    standardExpand table k outer beyond = some (out', sites) ∧
    (∀ s ∈ sites, s.kept table = true) ∧ Q (render items) (render here) ∧ Spaced here ∧
    (startsSoft items → startsSoft here)

variable {outer : List Text} {beyond : List Layer} {content : Bool}

/-- The head of the text has been replaced by `done`. -/
theorem Simulates.after {k n : Nat} {items rest done out : List Item} (lt : k < n)
    (inner : Simulates table k outer beyond (P true) rest out) (spaced : Spaced done)
    (softRest : startsSoft rest)
    (read : ∀ o, P true (render rest) o → P content (render items) (render done ++ o))
    (soft : startsSoft items → startsSoft done ∧ done ≠ []) :
    Simulates table n outer beyond (P content) items (done ++ out) := by
  obtain ⟨here, out', sites, j, below, rfl, run, kept, reads, spacedHere, softHere⟩ := inner
  refine ⟨done ++ here, out', sites, j, Nat.lt_trans below lt, by simp, run, kept, ?_,
    spaced.append spacedHere (softHere softRest), fun softItems => ?_⟩
  · rw [render_append]
    exact read _ reads
  · obtain ⟨softDone, nonempty⟩ := soft softItems
    cases done with
    | nil => exact absurd rfl nonempty
    | cons i done => exact softDone

theorem mapM_some {α β : Type} {f : α → Option β} {as : List α} {bs : List β}
    (all : as.mapM f = some bs) : List.Forall₂ (fun a b => f a = some b) as bs := by
  induction as generalizing bs with
  | nil =>
    cases all
    exact .nil
  | cons a as ih =>
    simp only [List.mapM_cons, Option.bind_eq_bind, Option.bind_eq_some_iff] at all
    obtain ⟨b, first, others, rest, whole⟩ := all
    cases whole
    exact .cons first (ih rest)

theorem standardExpand_nil {n : Nat} {out : List Item} {sites : List Site}
    (run : standardExpand table n outer [] = some (out, sites)) : out = [] := by
  cases n with
  | zero => cases run
  | succ n =>
    cases run
    rfl

/-- With no argument to expand, an empty one stays empty. -/
theorem standardExpand_empty {n : Nat} {origin : Origin} {out : List Item} {sites : List Site}
    (run : standardExpand table n outer [⟨origin, []⟩] = some (out, sites)) : out = [] := by
  cases n with
  | zero => cases run
  | succ n => exact standardExpand_nil run

end Steps

/-- A run of `n` steps over a text that meets only sites where the code does as C99 does. -/
def SimulatedAt (table : List TokenMacro) (n : Nat) : Prop :=
  ∀ {outer : List Text} {origin : Origin} {items : List Item} {beyond : List Layer}
    {out : List Item} {sites : List Site} {disabled : List Text} {top : Bool}
    {P : Bool → Text → Text → Prop} {content : Bool},
    standardExpand table n outer (⟨origin, items⟩ :: beyond) = some (out, sites) →
    (∀ s ∈ sites, s.kept table = true) → Spaced items →
    Scanner (macrosOf table) disabled top P → (top = true ↔ origin = .source) →
    FlagsAgree table disabled (activeMacros outer (⟨origin, items⟩ :: beyond)) →
    (top = true → noDirective (!content) items = true) →
    Simulates table n outer beyond (P content) items out

section Steps

variable {n : Nat} {outer : List Text} {origin : Origin} {rest : List Item} {beyond : List Layer}
variable {out : List Item} {sites : List Site} {disabled : List Text} {top : Bool}
variable {P : Bool → Text → Text → Prop} {content : Bool} {t : Token} {painted : Bool}

/-- The token is copied. -/
theorem simulates_keep (below : ∀ k, k < n + 1 → SimulatedAt table k) {painted' : Bool}
    {site : Site}
    (run : ((standardExpand table n outer (⟨origin, rest⟩ :: beyond)).map fun r =>
      ((Item.token t painted' :: r.1, site :: r.2) : List Item × List Site)) = some (out, sites))
    (kept : ∀ s ∈ sites, s.kept table = true) (spaced : Spaced (.token t painted :: rest))
    (scanner : Scanner (macrosOf table) disabled top P) (isTop : top = true ↔ origin = .source)
    (flags : FlagsAgree table disabled (activeMacros outer (⟨origin, rest⟩ :: beyond)))
    (none : top = true → noDirective false rest = true)
    (read : ∀ o, P true (render rest) o → P content (t.spelling ++ render rest) (t.spelling ++ o)) :
    Simulates table (n + 1) outer beyond (P content) (.token t painted :: rest) out := by
  obtain ⟨⟨out', sites'⟩, inner, split⟩ := Option.map_eq_some_iff.mp run
  cases split
  have later : ∀ s ∈ sites', s.kept table = true := fun s member =>
    kept s (List.mem_cons_of_mem _ member)
  have go : Simulates table n outer beyond (P true) rest out' :=
    below n (Nat.lt_succ_self n) inner later spaced.tail scanner isTop flags none
  have single : Spaced [Item.token t painted'] := spaced_token spaced.head spaced_nil startsSoft_nil
  refine go.after (Nat.lt_succ_self n) single spaced.soft (fun o reads => ?_) (fun soft => ?_)
  · simpa [Item.spelling] using read o reads
  · refine ⟨fun i member => ?_, List.cons_ne_nil _ _⟩
    cases member
    exact soft (.token t painted) rfl

/-- A text that is not the source is expanded by a nested call. -/
theorem nested_yields {k : Nat} (at_k : SimulatedAt table k) {items : List Item}
    (nested : origin ≠ .source)
    (run : standardExpand table k outer (⟨origin, items⟩ :: beyond) = some (out, sites))
    (kept : ∀ s ∈ sites, s.kept table = true) (spaced : Spaced items)
    (flags : FlagsAgree table disabled (activeMacros outer (⟨origin, items⟩ :: beyond))) :
    Simulates table k outer beyond (Yields (macrosOf table) disabled) items out := by
  have scanner := nestedScanner (macrosOf table) disabled
  have noDirectives : false = true → noDirective (!true) items = true := by simp
  exact at_k run kept spaced scanner (by simp [nested]) flags noDirectives

/-- An object-like macro is replaced and its replacement scanned again. -/
theorem simulates_rescan (below : ∀ k, k < n + 1 → SimulatedAt table k) {site : Site} {w : Text}
    {m : TokenMacro} (found : findMacro table w = some m) (objectLike : m.params = none)
    (spacedBody : Spaced m.body)
    (run : ((standardExpand table n outer
      (⟨.replacement m.name, m.body⟩ :: ⟨origin, rest⟩ :: beyond)).map fun r =>
      ((r.1, site :: r.2) : List Item × List Site)) = some (out, sites))
    (kept : ∀ s ∈ sites, s.kept table = true) (spaced : Spaced (.token (.name w) painted :: rest))
    (scanner : Scanner (macrosOf table) disabled top P) (isTop : top = true ↔ origin = .source)
    (flags : FlagsAgree table disabled (activeMacros outer (⟨origin, rest⟩ :: beyond)))
    (none : top = true → noDirective false rest = true) (ordinary : w ∉ predefinedWords)
    (enabled : w ∉ activeMacros outer (⟨origin, rest⟩ :: beyond)) :
    Simulates table (n + 1) outer beyond (P content) (.token (.name w) painted :: rest) out := by
  obtain ⟨⟨out', sites'⟩, inner, split⟩ := Option.map_eq_some_iff.mp run
  cases split
  have later : ∀ s ∈ sites', s.kept table = true := fun s member =>
    kept s (List.mem_cons_of_mem _ member)
  have named := (findMacro_mem found).2
  have nestedFlags : FlagsAgree table (w :: disabled)
      (activeMacros outer (⟨.replacement m.name, m.body⟩ :: ⟨origin, rest⟩ :: beyond)) := by
    intro v d isMacro plain
    have shared := flags v d isMacro plain
    simp only [activeMacros, List.filterMap_cons, Layer.replacing, named, List.mem_cons,
      List.cons_append] at shared ⊢
    rw [shared]
  obtain ⟨body, out₂, sites₂, j, lt, rfl, run₂, kept₂, rescanned, spacedDone, -⟩ :=
    nested_yields (below n (Nat.lt_succ_self n)) (by simp) inner later spacedBody nestedFlags
  have go : Simulates table j outer beyond (P true) rest out₂ :=
    below j (by omega) run₂ kept₂ spaced.tail scanner isTop flags none
  refine go.after (by omega) spacedDone spaced.soft (fun o reads => ?_) (fun soft => ?_)
  · have isMacro : macroFind (macrosOf table) w = some m.toDef := by
      rw [macroFind_macrosOf, found, Option.map_some]
    have off : w ∉ disabled := fun member => enabled ((flags w m found objectLike).mp member)
    rw [← named] at rescanned
    exact scanner.rescan spaced.head (endsWord_of_soft spaced.tail spaced.soft) ordinary isMacro
      objectLike off rescanned reads
  · rcases soft _ rfl with blank | comma
    · cases blank
    · cases comma

/-- The arguments as the code counts, expands and binds them. -/
theorem args_bound {isVariadic : Bool} {params : List Text} {args texts : List (List Item)}
    (fits : argsFit isVariadic params args = true)
    (given : args = [[]] → isVariadic = true ∨ params.length ≠ 1)
    (each : List.Forall₂ (fun arg text => Yields (macrosOf table) disabled (render arg) (render text) ∧
      (arg = [] → text = [])) args texts) :
    ∃ expanded, List.Forall₂ (Yields (macrosOf table) disabled) (codeArgs args) expanded ∧
      argCountMatches isVariadic params (codeArgs args) = true ∧
      List.Forall₂ Bound (bindArgs isVariadic params (codeArgs args) expanded)
        (bindItems isVariadic params texts) := by
  by_cases one : args = [[]]
  · subst one
    have noParams : params = [] := by
      rcases given rfl with variadic | other
      · simpa [argsFit, variadic] using fits
      · cases isVariadic with
        | true => simpa [argsFit] using fits
        | false =>
          have : 1 ≠ params.length := fun h => other h.symm
          simpa [argsFit, this] using fits
    subst noParams
    obtain _ | ⟨⟨-, empty⟩, _ | _⟩ := each
    rw [empty rfl]
    exact ⟨[], .nil, by cases isVariadic <;> rfl, bound_noArgs isVariadic⟩
  · have several : codeArgs args = args.map render := if_neg one
    have lengths := each.length_eq
    rw [several]
    refine ⟨texts.map render, ?_, ?_, bound_bindArgs (by simpa using lengths)⟩
    · rw [List.forall₂_map_left_iff, List.forall₂_map_right_iff]
      exact each.imp fun arg text both => both.1
    · cases isVariadic with
      | true =>
        have : params.length < args.length := by simpa [argsFit] using fits
        simp only [argCountMatches, if_true, List.length_map, decide_eq_true_eq]
        omega
      | false => simpa [argsFit, argCountMatches, one] using fits

theorem bindItems_names {isVariadic : Bool} {params : List Text} {texts : List (List Item)} :
    ∀ name ∈ (bindItems isVariadic params texts).map Prod.fst,
      name ∈ paramNames isVariadic params := by
  intro name member
  obtain ⟨p, inside, rfl⟩ := List.mem_map.mp member
  rcases List.mem_append.mp inside with fixed | rest
  · exact List.mem_append_left _ (List.of_mem_zip fixed).1
  · refine List.mem_append_right _ ?_
    cases isVariadic with
    | false => simp at rest
    | true =>
      rw [List.mem_singleton.mp rest]
      exact List.mem_singleton.mpr rfl

/-- An argument is expanded alone. -/
theorem argument_yields (at_n : SimulatedAt table n) {arg : List Item} {r : List Item × List Site}
    {active : List Text}
    (run : standardExpand table n active [⟨.argument, arg⟩] = some r)
    (kept : ∀ s ∈ r.2, s.kept table = true) (spaced : Spaced arg)
    (flags : FlagsAgree table disabled active) :
    Yields (macrosOf table) disabled (render arg) (render r.1) ∧ (arg = [] → r.1 = []) ∧
      Spaced r.1 := by
  obtain ⟨text, out', sites', j, -, whole, run', -, yields, spacedText, -⟩ :=
    nested_yields at_n (by simp) run kept spaced flags
  rw [standardExpand_nil run', List.append_nil] at whole
  rw [whole]
  refine ⟨yields, fun empty => ?_, spacedText⟩
  subst empty
  rw [← whole]
  exact standardExpand_empty run

/-- A call in one text is replaced and its replacement scanned again. -/
theorem simulates_call (below : ∀ k, k < n + 1 → SimulatedAt table k) {site : Site} {w : Text}
    {m : TokenMacro} {params : List Text} {args : List (List Item)} {items rest' : List Item}
    {p : Bool} (found : findMacro table w = some m) (functionLike : m.params = some params)
    (spacedBody : Spaced m.body) (hashFree : HashFree m.body)
    (run : ((args.mapM fun arg => standardExpand table n
        (activeMacros outer (⟨origin, rest'⟩ :: beyond)) [⟨.argument, arg⟩]).bind fun expanded =>
      (standardExpand table n outer (⟨.replacement m.name,
        substituteItems (bindItems m.isVariadic params (expanded.map Prod.fst)) m.body⟩ ::
          ⟨origin, rest'⟩ :: beyond)).map fun r =>
      ((r.1, site :: expanded.flatMap Prod.snd ++ r.2) : List Item × List Site)) =
        some (out, sites))
    (kept : ∀ s ∈ sites, s.kept table = true) (spaced : Spaced (.token (.name w) painted :: rest))
    (scanner : Scanner (macrosOf table) disabled top P) (isTop : top = true ↔ origin = .source)
    (flags : FlagsAgree table disabled (activeMacros outer (⟨origin, rest⟩ :: beyond)))
    (none : top = true → noDirective false rest = true) (ordinary : w ∉ predefinedWords)
    (opens : rest.dropWhile Item.isSpace = .token .opening p :: items)
    (read : readArgs 0 [] (upcomingIn origin [] items) = some (args, [⟨origin, rest'⟩]))
    (fits : argsFit m.isVariadic params args = true)
    (given : args = [[]] → m.isVariadic = true ∨ params.length ≠ 1)
    (inert : Inert (paramNames m.isVariadic params) m.body) :
    Simulates table (n + 1) outer beyond (P content) (.token (.name w) painted :: rest) out := by
  obtain ⟨expanded, all, run⟩ := Option.bind_eq_some_iff.mp run
  obtain ⟨⟨out', sites'⟩, inner, split⟩ := Option.map_eq_some_iff.mp run
  cases split
  have spacedItems : Spaced (.token .opening p :: items) := by
    obtain ⟨spaces, whole⟩ := List.dropWhile_suffix Item.isSpace (l := rest)
    have spacedRest := spaced.tail
    rw [← whole, opens] at spacedRest
    exact spacedRest.right
  have spacedArgs : ∀ a ∈ args, Spaced a := readArgs_spaced (by simpa using spacedItems.tail) read
  have sameFlags : FlagsAgree table disabled (activeMacros outer (⟨origin, rest'⟩ :: beyond)) :=
    flags
  have each : List.Forall₂ (fun arg (r : List Item × List Site) =>
      Yields (macrosOf table) disabled (render arg) (render r.1) ∧ (arg = [] → r.1 = []) ∧
        Spaced r.1) args expanded := by
    obtain ⟨sameLength, runs⟩ := List.forall₂_iff_zip.mp (mapM_some all)
    refine List.forall₂_iff_zip.mpr ⟨sameLength, fun {arg r} member => ?_⟩
    obtain ⟨inArgs, inExpanded⟩ := List.of_mem_zip member
    have argKept : ∀ s ∈ r.2, s.kept table = true := fun s inside =>
      kept s (List.mem_append_left _ (List.mem_cons_of_mem _
        (List.mem_flatMap.mpr ⟨r, inExpanded, inside⟩)))
    exact argument_yields (below n (Nat.lt_succ_self n)) (runs member) argKept
      (spacedArgs arg inArgs) sameFlags
  have spacedTexts : ∀ text ∈ expanded.map Prod.fst, Spaced text := by
    have flipped := each.flip.imp (S := fun r (_ : List Item) => Spaced r.1 ∧ True)
      fun r arg facts => ⟨facts.2.2, trivial⟩
    intro text member
    obtain ⟨r, inExpanded, rfl⟩ := List.mem_map.mp member
    exact ((List.forall₂_and_left _ _).mp flipped).1 r inExpanded
  have eachText : List.Forall₂ (fun arg text =>
      Yields (macrosOf table) disabled (render arg) (render text) ∧ (arg = [] → text = []))
      args (expanded.map Prod.fst) := by
    rw [List.forall₂_map_right_iff]
    exact each.imp fun arg r facts => ⟨facts.1, facts.2.1⟩
  obtain ⟨texts, yields, counts, bound⟩ := args_bound fits given eachText
  have named := (findMacro_mem found).2
  have nestedFlags : FlagsAgree table disabled (activeMacros outer
      (⟨.replacement m.name, substituteItems (bindItems m.isVariadic params
        (expanded.map Prod.fst)) m.body⟩ :: ⟨origin, rest'⟩ :: beyond)) := by
    intro v d isMacro plain
    have shared := sameFlags v d isMacro plain
    have other : v ≠ m.name := by
      rintro rfl
      rw [named, found] at isMacro
      cases isMacro
      rw [functionLike] at plain
      cases plain
    simp only [activeMacros, List.filterMap_cons, Layer.replacing, List.mem_cons,
      List.cons_append] at shared ⊢
    rw [shared]
    simp [other]
  have later : ∀ s ∈ sites', s.kept table = true := fun s member =>
    kept s (List.mem_append_right _ member)
  have spacedSubst : Spaced (substituteItems (bindItems m.isVariadic params
      (expanded.map Prod.fst)) m.body) :=
    (substituteItems_spaced (bindItems_spaced spacedTexts) spacedBody).1
  obtain ⟨body, out₂, sites₂, j, lt, rfl, run₂, kept₂, rescanned, spacedDone, -⟩ :=
    nested_yields (below n (Nat.lt_succ_self n)) (by simp) inner later spacedSubst nestedFlags
  obtain ⟨front, q, _, split, same, collected⟩ := collectArgs_render spacedItems.tail read
  cases same
  have closed : Spaced (.token .closing q :: rest') := by
    have whole := spacedItems.tail
    rw [split] at whole
    exact whole.right
  have noneAfter : top = true → noDirective false rest' = true := by
    intro isTop
    have whole := none isTop
    obtain ⟨spaces, cut⟩ := List.dropWhile_suffix Item.isSpace (l := rest)
    rw [opens, split, ← List.cons_append, ← List.append_assoc] at cut
    rw [← cut] at whole
    exact noDirective_after whole
  have go : Simulates table j outer beyond (P true) rest' out₂ :=
    below j (by omega) run₂ kept₂ closed.tail scanner isTop sameFlags noneAfter
  refine go.after (by omega) spacedDone closed.soft (fun o reads => ?_) (fun soft => ?_)
  · have isMacro : macroFind (macrosOf table) w = some m.toDef := by
      rw [macroFind_macrosOf, found, Option.map_some]
    have ahead : (render rest).dropWhile isBlank = '(' :: render items := by
      rw [dropSpaces_render spaced.tail.valid, opens]
      rfl
    have onlyParams : Inert ((bindItems m.isVariadic params (expanded.map Prod.fst)).map Prod.fst)
        m.body := fun i member name inside => inert i member name (bindItems_names name inside)
    have substituted := substituteArgsLoop_render bound spacedBody hashFree onlyParams []
    exact scanner.call spaced.head (endsWord_of_soft spaced.tail spaced.soft) ordinary isMacro
      functionLike ahead collected counts yields substituted rescanned reads
  · rcases soft _ rfl with blank | comma
    · cases blank
    · cases comma

theorem upcomingIn_skip (origin : Origin) (beyond : List Layer) (items : List Item) :
    (upcomingIn origin beyond items).dropWhile (fun u => u.1.isBlank) =
      upcomingIn origin beyond (items.dropWhile Item.isBlank) := by
  induction items with
  | nil => rfl
  | cons i items ih =>
    cases i with
    | blank c => exact ih
    | token t painted => rfl

theorem dropBlanks_of_dropSpaces {items : List Item} {t : Token} {p : Bool} {after : List Item}
    (skipped : items.dropWhile Item.isSpace = .token t p :: after) :
    items.dropWhile Item.isBlank = .token t p :: after := by
  have spaces : ∀ i ∈ items.takeWhile Item.isSpace, i.isBlank = true := by
    intro i member
    have space := List.mem_takeWhile_imp member
    cases i with
    | blank c => rfl
    | token t p => cases space
  rw [← List.takeWhile_append_dropWhile (p := Item.isSpace) (l := items),
    List.dropWhile_append_of_pos spaces, skipped]
  rfl

/-- What a site shows of a call that the code makes. -/
theorem reading_call {s : Site} {m : TokenMacro} {params : List Text} (spaced : Spaced s.rest)
    (called : callsHere s.rest = true) (kept : s.callKept m params = true) :
    ∃ p items args rest', s.rest.dropWhile Item.isSpace = .token .opening p :: items ∧
      readArgs 0 [] (upcomingIn s.origin [] items) = some (args, [⟨s.origin, rest'⟩]) ∧
      (args = [[]] → m.isVariadic = true ∨ params.length ≠ 1) ∧
      s.callReading m params =
        if argsFit m.isVariadic params args then .call m params args (⟨s.origin, rest'⟩ :: s.beyond)
        else .undefined := by
  rw [callsHere] at called
  split at called
  · next p items opens =>
    simp only [Site.callKept, Bool.and_eq_true] at kept
    obtain ⟨⟨args, after⟩, read, given⟩ := (Option.any_eq_true _ _).mp kept.2
    simp only [Site.argsHere, opens] at read
    have spacedItems : Spaced items := by
      obtain ⟨spaces, whole⟩ := List.dropWhile_suffix Item.isSpace (l := s.rest)
      rw [← whole, opens] at spaced
      exact spaced.right.tail
    obtain ⟨front, q, rest', -, rfl, -⟩ := collectArgs_render spacedItems read
    refine ⟨p, items, args, rest', opens, read, fun one => ?_, ?_⟩
    · simpa [one] using given
    · have ahead : afterBlanks s.stack = (.token .opening p, ⟨s.origin, items⟩ :: s.beyond) ::
          (upcomingIn s.origin s.beyond items ++ upcoming s.beyond) := by
        rw [afterBlanks, Site.stack, upcoming, List.dropWhile_append, upcomingIn_skip,
          dropBlanks_of_dropSpaces opens]
        rfl
      rw [Site.callReading, ahead]
      simp only [readArgs_upcoming s.beyond read]
  · cases called

theorem site_read (run : standardExpand table (n + 1) outer
      (⟨origin, .token t painted :: rest⟩ :: beyond) = some (out, sites)) :
    ⟨t, painted, activeMacros outer (⟨origin, rest⟩ :: beyond), origin, rest, beyond⟩ ∈
      sites := by
  rw [standardExpand] at run
  dsimp only at run
  split at run
  · obtain ⟨r, -, split⟩ := Option.map_eq_some_iff.mp run
    cases split
    exact List.mem_cons_self
  · obtain ⟨r, -, split⟩ := Option.map_eq_some_iff.mp run
    cases split
    exact List.mem_cons_self
  · obtain ⟨expanded, -, run⟩ := Option.bind_eq_some_iff.mp run
    obtain ⟨r, -, split⟩ := Option.map_eq_some_iff.mp run
    cases split
    exact List.mem_append_left _ List.mem_cons_self
  · cases run

/-- A function-like name that is not called stays. -/
theorem reading_uncalled {site : Site} {w : Text} (isName : site.token = .name w) {m : TokenMacro}
    {params : List Text} (found : findMacro table w = some m) (functionLike : m.params = some params)
    (uncalled : (site.painted || decide (w ∈ site.active) || !opensCall site.stack) = true) :
    ∃ painted', site.reading table = .keep painted' := by
  by_cases blocked : site.painted = true ∨ w ∈ site.active
  · exact ⟨true, by simp [Site.reading, isName, found, blocked]⟩
  · have closed : opensCall site.stack = false := by
      rw [not_or] at blocked
      simpa [blocked.1, blocked.2] using uncalled
    refine ⟨false, ?_⟩
    simp only [Site.reading, isName, found, if_neg blocked, functionLike, Site.callReading]
    rw [opensCall] at closed
    split
    · next heq => simp [heq] at closed
    · rfl

theorem simulates_name (spacedTable : ∀ m ∈ table, Spaced m.body)
    (hashFree : ∀ m ∈ table, HashFree m.body) (below : ∀ k, k < n + 1 → SimulatedAt table k)
    {w : Text}
    (run : standardExpand table (n + 1) outer
      (⟨origin, .token (.name w) painted :: rest⟩ :: beyond) = some (out, sites))
    (kept : ∀ s ∈ sites, s.kept table = true) (spaced : Spaced (.token (.name w) painted :: rest))
    (scanner : Scanner (macrosOf table) disabled top P) (isTop : top = true ↔ origin = .source)
    (flags : FlagsAgree table disabled (activeMacros outer (⟨origin, rest⟩ :: beyond)))
    (none : top = true → noDirective false rest = true) :
    Simulates table (n + 1) outer beyond (P content) (.token (.name w) painted :: rest) out := by
  obtain ⟨site, isSite⟩ : ∃ site : Site, site = ⟨.name w, painted,
      activeMacros outer (⟨origin, rest⟩ :: beyond), origin, rest, beyond⟩ := ⟨_, rfl⟩
  have here : site.nameKept table w = true := by
    have := kept _ (site_read run)
    rwa [isSite]
  have ordinary : w ∉ predefinedWords := by
    simp only [Site.nameKept, Bool.and_eq_true, decide_eq_true_eq] at here
    exact here.1
  have ends := endsWord_of_soft spaced.tail spaced.soft
  -- the reading decides the case of the run
  have copied (read : ∃ painted', site.reading table = .keep painted')
      (free : site.operandFree w = true)
      (plain : CopiedWord (macrosOf table) disabled w (render rest)) :
      Simulates table (n + 1) outer beyond (P content) (.token (.name w) painted :: rest) out := by
    obtain ⟨painted', read⟩ := read
    rw [standardExpand] at run
    simp only [← isSite, read] at run
    refine simulates_keep below run kept spaced scanner isTop flags none fun o reads => ?_
    refine scanner.plain spaced.head ends ordinary plain (fun nested same => ?_) reads
    subst isSite
    simp only [Site.operandFree, Bool.or_eq_true, bne_iff_ne, beq_iff_eq, Bool.not_eq_true'] at free
    rcases free with (other | source) | free
    · exact absurd same other
    · rw [isTop.mpr source] at nested
      cases nested
    · exact free
  cases found : findMacro table w with
  | none =>
    refine copied ⟨painted, by simp [Site.reading, isSite, found]⟩ ?_ fun d isMacro => ?_
    · simp only [Site.nameKept, found, Bool.and_eq_true] at here
      exact here.2
    · rw [macroFind_macrosOf, found] at isMacro
      cases isMacro
  | some m =>
    have isMacro : macroFind (macrosOf table) w = some m.toDef := by
      rw [macroFind_macrosOf, found, Option.map_some]
    obtain ⟨inTable, named⟩ := findMacro_mem found
    cases params : m.params with
    | none =>
      simp only [Site.nameKept, found, params, Bool.and_eq_true] at here
      by_cases active : w ∈ site.active
      · have free := here.2
        rw [if_pos active] at free
        refine copied ⟨true, by simp_all [Site.reading]⟩ free fun d other => ?_
        rw [isMacro] at other
        cases other
        refine ⟨fun _ => ?_, fun functionLike => absurd params functionLike⟩
        rw [isSite] at active
        exact (flags w m found params).mpr active
      · have clean := here.2
        rw [if_neg active] at clean
        have read : site.reading table = .rescan m := by
          subst isSite
          simp_all [Site.reading]
        rw [standardExpand] at run
        simp only [← isSite, read] at run
        rw [isSite] at active
        exact simulates_rescan below found params (spacedTable m inTable) run kept spaced scanner
          isTop flags none ordinary active
    | some ps =>
      simp only [Site.nameKept, found, params, Bool.and_eq_true] at here
      cases called : callsHere site.rest with
      | false =>
        have uncalled := here.2
        rw [called, if_neg (by simp), Site.noCallKept, Bool.and_eq_true] at uncalled
        refine copied (reading_uncalled (by rw [isSite]) found params uncalled.2) uncalled.1
          fun d other => ?_
        rw [isMacro] at other
        cases other
        refine ⟨fun objectLike => ?_, fun _ => ?_⟩
        · rw [show m.toDef.params = m.params from rfl, params] at objectLike
          cases objectLike
        · rw [callsAhead_render spaced.tail.valid]
          rwa [isSite] at called
      | true =>
        have callKept := here.2
        rw [called, if_pos rfl] at callKept
        have spacedRest : Spaced site.rest := by
          rw [isSite]
          exact spaced.tail
        obtain ⟨p, items, args, rest', opens, readHere, given, call⟩ :=
          reading_call spacedRest called callKept
        simp only [Site.callKept, Bool.and_eq_true, Bool.not_eq_true', decide_eq_true_eq] at callKept
        obtain ⟨⟨⟨unpainted, inactive⟩, inert⟩, -⟩ := callKept
        rw [named] at inactive
        have read : site.reading table = site.callReading m ps := by
          subst isSite
          simp_all [Site.reading]
        rw [standardExpand] at run
        simp only [← isSite, read, call] at run
        subst isSite
        cases fits : argsFit m.isVariadic ps args with
        | false => simp [fits] at run
        | true =>
          simp only [fits, if_true] at run
          exact simulates_call below found params (spacedTable m inTable) (hashFree m inTable) run
            kept spaced scanner isTop flags none ordinary opens readHere fits given inert

theorem simulatedAt (spacedTable : ∀ m ∈ table, Spaced m.body)
    (hashFree : ∀ m ∈ table, HashFree m.body) (k : Nat) : SimulatedAt table k := by
  induction k using Nat.strongRecOn with
  | ind k below =>
    intro outer origin items beyond out sites disabled top P content run kept spaced scanner isTop
      flags none
    cases k with
    | zero => cases run
    | succ n =>
      match items with
      | [] =>
        exact ⟨[], out, sites, n, Nat.lt_succ_self n, rfl, run, kept, scanner.nil _, spaced_nil, id⟩
      | .blank c :: rest =>
        obtain ⟨⟨out', sites'⟩, inner, split⟩ := Option.map_eq_some_iff.mp run
        cases split
        have noneAfter (isTop : top = true) : noDirective (!(c != '\n' && content)) rest = true := by
          have := none isTop
          simpa [noDirective, Bool.not_and, Bool.or_comm, bne] using this
        obtain ⟨here, out₂, sites₂, j, lt, rfl, run₂, kept₂, reads, spacedHere, softHere⟩ :=
          below n (Nat.lt_succ_self n) inner kept spaced.tail scanner isTop flags noneAfter
        exact ⟨.blank c :: here, out₂, sites₂, j, by omega, rfl, run₂, kept₂,
          scanner.blank spaced.head reads, spaced_blank spaced.head spacedHere,
          fun _ => startsSoft_blank _ _⟩
      | .token t painted :: rest =>
        have noneAfter : top = true → noDirective false rest = true := fun isTop =>
          noDirective_tail (none isTop)
        cases t with
        | name w =>
          exact simulates_name spacedTable hashFree below run kept spaced scanner isTop flags
            noneAfter
        | opening =>
          refine simulates_keep below run kept spaced scanner isTop flags noneAfter fun o => ?_
          exact scanner.char rfl rfl rfl (fun _ h => absurd h (by decide))
            (fun h => absurd h (by decide))
        | closing =>
          refine simulates_keep below run kept spaced scanner isTop flags noneAfter fun o => ?_
          exact scanner.char rfl rfl rfl (fun _ h => absurd h (by decide))
            (fun h => absurd h (by decide))
        | comma =>
          refine simulates_keep below run kept spaced scanner isTop flags noneAfter fun o => ?_
          exact scanner.char rfl rfl rfl (fun _ h => absurd h (by decide))
            (fun h => absurd h (by decide))
        | other atoms =>
          have here := kept _ (site_read run)
          have valid := spaced.head
          simp only [Item.valid, Token.valid, Bool.and_eq_true, List.all_eq_true,
            decide_eq_true_eq] at valid
          refine simulates_keep below run kept spaced scanner isTop flags noneAfter fun o reads => ?_
          have soft := soft_head spaced.tail spaced.soft
          have noComment : (render rest).head? ≠ some '/' ∧ (render rest).head? ≠ some '*' := by
            constructor
            all_goals
              intro head
              rcases soft _ head with blank | comma
              · cases blank
              · cases comma
          have words : ∀ w, .word w ∈ atoms → Site.wordKept table
              ⟨.other atoms, painted, activeMacros outer (⟨origin, rest⟩ :: beyond), origin, rest,
                beyond⟩
              (callsAhead (render rest) && atoms.getLast? == some (.word w)) w = true := by
            intro w member
            rw [callsAhead_render spaced.tail.valid]
            exact List.all_eq_true.mp here _ member
          refine scanner.atoms flags isTop valid.1.2 valid.2
            (endsWord_of_soft spaced.tail spaced.soft) words noComment (fun isTop hash => ?_) ?_ reads
          · have lineStart := none isTop
            cases atoms with
            | nil => cases hash
            | cons a atoms =>
              cases hash
              simp only [noDirective, Bool.and_eq_true] at lineStart
              cases content with
              | true => rfl
              | false => cases lineStart.1
          · rintro rfl
            cases valid.1.1

end Steps

/-- The text lines `source` are turned into a text with the tokens of their C99 expansion. -/
def RescansAsC99 (path : Text) (table : List TokenMacro) (source : List Item) : Prop :=
  ∀ n out sites, standardExpand table n [] [⟨.source, source⟩] = some (out, sites) →
    ∃ text, LineYields path (macrosOf table) false (render source) text ∧
      lexSpaced [] text = (tokensOf out).map Token.spelling

/-- The C99 scan of `source` meets no token that the code treats differently. -/
def MeetsOnlyKept (table : List TokenMacro) (source : List Item) : Prop :=
  ∀ n out sites, standardExpand table n [] [⟨.source, source⟩] = some (out, sites) →
    ∀ s ∈ sites, s.kept table = true

/-- Where every call lies in one line of one text, rescanning is that of C99. -/
theorem preprocessText_rescans_as_c99 (path : Text) {table : List TokenMacro} {source : List Item}
    (spacedTable : ∀ m ∈ table, Spaced m.body) (hashFree : ∀ m ∈ table, HashFree m.body)
    (spaced : Spaced source) (noDirectives : noDirective true source = true)
    (kept : MeetsOnlyKept table source) : RescansAsC99 path table source := by
  intro n out sites run
  have flags : FlagsAgree table [] (activeMacros [] [⟨.source, source⟩]) := fun w m _ _ => Iff.rfl
  have lines : true = true → noDirective (!false) source = true := fun _ => noDirectives
  obtain ⟨text, out', sites', k, -, rfl, run', -, yields, spacedText, -⟩ :=
    simulatedAt spacedTable hashFree n run (kept n out sites run) spaced
      (lineScanner path (macrosOf table)) (by simp) flags lines
  refine ⟨render text, yields, ?_⟩
  rw [standardExpand_nil run', List.append_nil]
  exact (lexSpaced_render spacedText).1

theorem mapM_weaken {α β : Type} {f g : α → Option β} {as : List α} {bs : List β}
    (more : ∀ a b, f a = some b → g a = some b) (all : as.mapM f = some bs) :
    as.mapM g = some bs := by
  induction as generalizing bs with
  | nil => exact all
  | cons a as ih =>
    simp only [List.mapM_cons, Option.bind_eq_bind, Option.bind_eq_some_iff] at all ⊢
    obtain ⟨b, first, others, rest, whole⟩ := all
    exact ⟨b, more a b first, others, ih rest, whole⟩

theorem standardExpand_succ {table : List TokenMacro} {n : Nat} {outer : List Text}
    {stack : List Layer} {r : List Item × List Site}
    (run : standardExpand table n outer stack = some r) :
    standardExpand table (n + 1) outer stack = some r := by
  induction n generalizing outer stack r with
  | zero => cases run
  | succ n ih =>
    match stack with
    | [] => exact run
    | ⟨_, []⟩ :: beyond =>
      rw [standardExpand] at run ⊢
      exact ih run
    | ⟨origin, .blank c :: rest⟩ :: beyond =>
      rw [standardExpand] at run ⊢
      obtain ⟨r', inner, whole⟩ := Option.map_eq_some_iff.mp run
      exact Option.map_eq_some_iff.mpr ⟨r', ih inner, whole⟩
    | ⟨origin, .token t painted :: rest⟩ :: beyond =>
      rw [standardExpand] at run ⊢
      dsimp only at run ⊢
      split at run
      · obtain ⟨r', inner, whole⟩ := Option.map_eq_some_iff.mp run
        exact Option.map_eq_some_iff.mpr ⟨r', ih inner, whole⟩
      · obtain ⟨r', inner, whole⟩ := Option.map_eq_some_iff.mp run
        exact Option.map_eq_some_iff.mpr ⟨r', ih inner, whole⟩
      · obtain ⟨expanded, all, run⟩ := Option.bind_eq_some_iff.mp run
        obtain ⟨r', inner, whole⟩ := Option.map_eq_some_iff.mp run
        refine Option.bind_eq_some_iff.mpr ⟨expanded, ?_, ?_⟩
        · exact mapM_weaken (fun arg b done => ih done) all
        · exact Option.map_eq_some_iff.mpr ⟨r', ih inner, whole⟩
      · cases run

theorem standardExpand_mono {table : List TokenMacro} {n k : Nat} {outer : List Text}
    {stack : List Layer} {r : List Item × List Site} (le : n ≤ k)
    (run : standardExpand table n outer stack = some r) :
    standardExpand table k outer stack = some r := by
  induction le with
  | refl => exact run
  | step _ ih => exact standardExpand_succ ih

theorem standardExpand_unique {table : List TokenMacro} {n k : Nat} {outer : List Text}
    {stack : List Layer} {r r' : List Item × List Site}
    (run : standardExpand table n outer stack = some r)
    (run' : standardExpand table k outer stack = some r') : r = r' := by
  have early := standardExpand_mono (Nat.le_max_left n k) run
  have late := standardExpand_mono (Nat.le_max_right n k) run'
  rw [early] at late
  exact Option.some.inj late

/-- One finished run decides what the scan meets. -/
theorem meetsOnlyKept_of_run {table : List TokenMacro} {source : List Item} {n : Nat}
    (run : (standardExpand table n [] [⟨.source, source⟩]).any
      (fun r => r.2.all (Site.kept table)) = true) : MeetsOnlyKept table source := by
  obtain ⟨r, finished, kept⟩ := (Option.any_eq_true _ _).mp run
  intro k out sites run' s member
  cases standardExpand_unique finished run'
  exact List.all_eq_true.mp kept s member

/-- `#define A B`, `#define B f ( 1 )` and `#define f(x) x + x` -/
def containedTable : List TokenMacro :=
  [⟨['A'], none, false, [.token (.name ['B']) false]⟩,
    ⟨['B'], none, false, [.token (.name ['f']) false, .blank ' ', .token .opening false,
      .blank ' ', .token (.other [.char '1']) false, .blank ' ', .token .closing false]⟩,
    ⟨['f'], some [['x']], false, [.token (.name ['x']) false, .blank ' ',
      .token (.other [.char '+']) false, .blank ' ', .token (.name ['x']) false]⟩]

/-- `A` in one line, and in the next `f ( A )` -/
def containedSource : List Item :=
  [.token (.name ['A']) false, .blank '\n', .token (.name ['f']) false, .blank ' ',
    .token .opening false, .blank ' ', .token (.name ['A']) false, .blank ' ',
    .token .closing false]

theorem contained_calls_rescan_as_c99 : RescansAsC99 [] containedTable containedSource :=
  preprocessText_rescans_as_c99 [] (by decide) (by decide) (by decide) (by decide)
    (meetsOnlyKept_of_run (n := 50) (by decide +kernel))

/-- No macro is mentioned, directly or through others, in its own replacement list. -/
def Acyclic (table : List TokenMacro) : Prop :=
  ∃ rank : Text → Nat, ∀ m ∈ table, ∀ w, .name w ∈ tokensOf m.body →
    findMacro table w ≠ none → rank w < rank m.name

/-- `#define A f` and `#define f(x) x + 1` -/
def splitTable : List TokenMacro :=
  [⟨['A'], none, false, [.token (.name ['f']) false]⟩,
    ⟨['f'], some [['x']], false, [.token (.name ['x']) false, .blank ' ',
      .token (.other [.char '+']) false, .blank ' ', .token (.other [.char '1']) false]⟩]

/-- `A ( 2 )` -/
def splitCall : List Item :=
  [.token (.name ['A']) false, .blank ' ', .token .opening false, .blank ' ',
    .token (.other [.char '2']) false, .blank ' ', .token .closing false]

theorem splitCall_expansion : (standardExpand splitTable 20 [] [⟨.source, splitCall⟩]).map
    (fun r => (tokensOf r.1).map Token.spelling) = some [['2'], ['+'], ['1']] := by
  decide

theorem splitCall_output (path : Text) (n line : Nat) :
    (preprocessText path (macrosOf splitTable) (n + 10) line false (render splitCall)).Gives
      ("f ( 2 )".toList, []) :=
  ⟨_, rfl⟩

theorem Run.Gives.unique {α : Type} {m : Run α} {a b : α} (first : m.Gives a) (second : m.Gives b) :
    a = b := by
  obtain ⟨log, rfl⟩ := first
  obtain ⟨log', same⟩ := second
  cases same
  rfl

/-- The parenthesis after an object-like macro is not seen by the function-like name that the macro
ends with. -/
theorem call_across_replacement_is_lost :
    ¬ ∀ path table source, Acyclic table → (∀ m ∈ table, Spaced m.body) →
      (∀ m ∈ table, HashFree m.body) → Spaced source → noDirective true source = true →
      RescansAsC99 path table source := by
  intro all
  have acyclic : Acyclic splitTable := by
    refine ⟨fun w => if w = ['A'] then 1 else 0, ?_⟩
    simp [splitTable, tokensOf, Item.token?, findMacro]
  have rescans := all [] splitTable splitCall acyclic (by decide) (by decide) (by decide) (by decide)
  obtain ⟨⟨out, sites⟩, run, tokens⟩ := Option.map_eq_some_iff.mp splitCall_expansion
  obtain ⟨text, yields, lexed⟩ := rescans 20 out sites run
  obtain ⟨n, reached, gives⟩ := ((yields 1).and (Filter.eventually_ge_atTop 10)).exists
  obtain ⟨k, rfl⟩ : ∃ k, n = k + 10 := Nat.exists_eq_add_of_le' gives
  have same := reached.unique (splitCall_output [] k 1)
  cases same
  rw [tokens] at lexed
  revert lexed
  decide +kernel

end ClaudeC99.Preprocessor
