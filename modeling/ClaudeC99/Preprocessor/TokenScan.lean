import ClaudeC99.Preprocessor.Scanner
import ClaudeC99.Preprocessor.Standard

/-! The text functions of macro expansion on the rendering of a spaced text. -/

namespace ClaudeC99.Preprocessor

/-- A blank inside a line. -/
def Item.isSpace : Item → Bool
  | blank c => Preprocessor.isBlank c
  | token _ _ => false

/-- The next token is a parenthesis on the same line of the same text. -/
def callsHere (rest : List Item) : Bool :=
  match rest.dropWhile Item.isSpace with
  | .token .opening _ :: _ => true
  | _ => false

/-- A spelling starts with a character that is no blank, and a parenthesis is spelled alone. -/
theorem spelling_head {t : Token} (valid : t.valid = true) :
    ∃ c s, t.spelling = c :: s ∧ isArgBlank c = false ∧ (c = '(' → t = .opening) ∧
      (c = ')' → t = .closing) := by
  have word {w : Text} (isW : isWord w = true) : ∃ c s, w = c :: s ∧ isArgBlank c = false ∧
      c ≠ '(' ∧ c ≠ ')' := by
    cases w with
    | nil => cases isW
    | cons c s =>
      obtain ⟨-, noBlank, noOpen, noClose, -⟩ :=
        identChar_facts (isWord_chars isW c List.mem_cons_self)
      exact ⟨c, s, rfl, noBlank, noOpen, noClose⟩
  cases t with
  | opening => exact ⟨'(', [], rfl, rfl, fun _ => rfl, by decide⟩
  | closing => exact ⟨')', [], rfl, rfl, by decide, fun _ => rfl⟩
  | comma => exact ⟨',', [], rfl, rfl, by decide, by decide⟩
  | name w =>
    obtain ⟨c, s, rfl, noBlank, noOpen, noClose⟩ := word valid
    exact ⟨c, s, rfl, noBlank, fun h => absurd h noOpen, fun h => absurd h noClose⟩
  | other atoms =>
    simp only [Token.valid, Bool.and_eq_true, List.all_eq_true] at valid
    cases atoms with
    | nil => cases valid.1.1
    | cons a atoms =>
      have here := valid.1.2 a List.mem_cons_self
      cases a with
      | char c =>
        obtain ⟨-, -, noSpace, noOpen, noClose, -⟩ := plainChar_facts here
        exact ⟨c, _, rfl, argBlank_of_not_space noSpace, fun h => absurd h noOpen,
          fun h => absurd h noClose⟩
      | word w =>
        obtain ⟨c, s, rfl, noBlank, noOpen, noClose⟩ := word here
        exact ⟨c, s ++ spellAtoms atoms, rfl, noBlank, fun h => absurd h noOpen,
          fun h => absurd h noClose⟩
      | quoted quote body =>
        simp only [Atom.valid, Bool.and_eq_true] at here
        refine ⟨quote, _, rfl, ?_⟩
        rcases quote_cases here.1 with rfl | rfl <;>
          exact ⟨rfl, fun h => absurd h (by decide), fun h => absurd h (by decide)⟩

theorem spelling_last {t : Token} (valid : t.valid = true) :
    ∃ s c, t.spelling = s ++ [c] ∧ isArgBlank c = false := by
  have word {w : Text} (isW : isWord w = true) :
      ∃ s c, w = s ++ [c] ∧ isArgBlank c = false := by
    rcases List.eq_nil_or_concat w with rfl | ⟨s, c, rfl⟩
    · cases isW
    · exact ⟨s, c, List.concat_eq_append, (identChar_facts (isWord_chars isW c (by simp))).2.1⟩
  cases t with
  | opening | closing | comma => exact ⟨[], _, rfl, rfl⟩
  | name w => exact word valid
  | other atoms =>
    simp only [Token.valid, Bool.and_eq_true, List.all_eq_true] at valid
    rcases List.eq_nil_or_concat atoms with rfl | ⟨front, a, rfl⟩
    · cases valid.1.1
    · have here := valid.1.2 a (by simp)
      have spelled : (Token.other (front.concat a)).spelling = spellAtoms front ++ a.spelling := by
        simp [Token.spelling, spellAtoms]
      cases a with
      | char c =>
        obtain ⟨-, -, noSpace, -⟩ := plainChar_facts here
        exact ⟨spellAtoms front, c, spelled, argBlank_of_not_space noSpace⟩
      | word w =>
        obtain ⟨s, c, rfl, noBlank⟩ := word here
        exact ⟨spellAtoms front ++ s, c, by rw [spelled, Atom.spelling, List.append_assoc], noBlank⟩
      | quoted quote body =>
        simp only [Atom.valid, Bool.and_eq_true] at here
        refine ⟨spellAtoms front ++ (quote :: body), quote, ?_, ?_⟩
        · rw [spelled, Atom.spelling, List.append_assoc]
        · rcases quote_cases here.1 with rfl | rfl <;> rfl

/-- What follows a token is a blank or a comma in the text too. -/
theorem soft_head {items : List Item} (spaced : Spaced items) (soft : startsSoft items) :
    ∀ c ∈ (render items).head?, isArgBlank c = true ∨ c = ',' := by
  intro c head
  cases items with
  | nil => cases head
  | cons i items =>
    cases i with
    | blank d =>
      cases head
      exact Or.inl spaced.head
    | token t painted =>
      rcases soft _ rfl with blank | comma
      · cases blank
      · cases comma
        cases head
        exact Or.inr rfl

theorem endsWord_of_soft {items : List Item} (spaced : Spaced items) (soft : startsSoft items) :
    EndsWord (render items) := by
  intro c head
  by_contra ident
  obtain ⟨-, noBlank, -, -, noComma⟩ := identChar_facts (by simpa using ident)
  rcases soft_head spaced soft c head with blank | comma
  · rw [noBlank] at blank
    cases blank
  · exact noComma comma

theorem dropWhile_render {p : Char → Bool} (p_blank : ∀ c, isArgBlank c = false → p c = false)
    {items : List Item} (valid : ∀ i ∈ items, i.valid = true) :
    (render items).dropWhile p = render (items.dropWhile fun i =>
      match i with
      | .blank c => p c
      | .token _ _ => false) := by
  induction items with
  | nil => rfl
  | cons i items ih =>
    have rest := ih fun j member => valid j (List.mem_cons_of_mem i member)
    cases i with
    | blank c =>
      rw [render_cons, Item.spelling, List.singleton_append, List.dropWhile_cons,
        List.dropWhile_cons]
      cases skipped : p c with
      | true => simpa [skipped] using rest
      | false => simp [skipped, Item.spelling]
    | token t painted =>
      obtain ⟨c, s, spelled, noBlank, -⟩ := spelling_head (valid _ List.mem_cons_self)
      simp [Item.spelling, spelled, p_blank c noBlank]

theorem dropSpaces_render {items : List Item} (valid : ∀ i ∈ items, i.valid = true) :
    (render items).dropWhile isBlank = render (items.dropWhile Item.isSpace) := by
  have inside : ∀ c, isArgBlank c = false → isBlank c = false := by
    intro c
    simp only [isArgBlank, Bool.or_eq_false_iff]
    exact fun h => h.1
  rw [dropWhile_render inside valid]
  congr 2

theorem dropBlanks_render {items : List Item} (valid : ∀ i ∈ items, i.valid = true) :
    (render items).dropWhile isArgBlank = render (items.dropWhile Item.isBlank) := by
  rw [dropWhile_render (fun _ h => h) valid]
  congr 1
  induction items with
  | nil => rfl
  | cons i items ih =>
    have rest := ih fun j member => valid j (List.mem_cons_of_mem i member)
    cases i with
    | blank c =>
      have blank : isArgBlank c = true := valid _ List.mem_cons_self
      simpa [List.dropWhile_cons, blank, Item.isBlank] using rest
    | token t painted => rfl

theorem head_render_opening {items : List Item} (valid : ∀ i ∈ items, i.valid = true) :
    (render items).head? = some '(' ↔ ∃ painted rest, items = .token .opening painted :: rest := by
  cases items with
  | nil => simp
  | cons i items =>
    have here := valid _ List.mem_cons_self
    cases i with
    | blank c =>
      have noOpen : c ≠ '(' := by
        rintro rfl
        cases here
      simp [Item.spelling, noOpen]
    | token t painted =>
      obtain ⟨c, s, spelled, -, opens, -⟩ := spelling_head here
      simp only [render_cons, Item.spelling, spelled, List.cons_append, List.head?_cons,
        Option.some.injEq, List.cons.injEq, Item.token.injEq]
      constructor
      · intro h
        exact ⟨painted, items, ⟨opens h, rfl⟩, rfl⟩
      · rintro ⟨_, _, ⟨rfl, -⟩, -⟩
        cases spelled
        rfl

theorem callsAhead_render {items : List Item} (valid : ∀ i ∈ items, i.valid = true) :
    callsAhead (render items) = callsHere items := by
  have validRest : ∀ i ∈ items.dropWhile Item.isSpace, i.valid = true := fun i member =>
    valid i ((List.dropWhile_sublist _).subset member)
  rw [callsAhead, dropSpaces_render valid, callsHere, Bool.eq_iff_iff, beq_iff_eq,
    head_render_opening validRest]
  split
  · next heq => simp [heq]
  · next other => simpa using fun painted rest => other painted rest

/-! ### Arguments -/

theorem trimItems_concat (front : List Item) (i : Item) :
    trimItems (front ++ [i]) = if i.isBlank then trimItems front else front ++ [i] := by
  cases blank : i.isBlank <;> simp [trimItems, blank]

theorem trimArg_render {items : List Item} (valid : ∀ i ∈ items, i.valid = true) :
    trimArg (render items) = render (trimItems items) := by
  induction items using List.reverseRecOn with
  | nil => rfl
  | append_singleton front i ih =>
    have before := ih fun j member => valid j (List.mem_append_left _ member)
    have here := valid i (by simp)
    rw [trimItems_concat]
    cases i with
    | blank c =>
      have blank : isArgBlank c = true := here
      have skipped : (Item.blank c).isBlank = true := rfl
      rw [if_pos skipped, ← before]
      simp [trimArg, render, Item.spelling, blank]
    | token t painted =>
      obtain ⟨s, c, spelled, noBlank⟩ := spelling_last here
      rw [if_neg (by simp [Item.isBlank])]
      simp [trimArg, render, Item.spelling, spelled, noBlank]

theorem collectArgsLoop_chars {t : Text} (depth : Nat) (arg rest : Text)
    (inside : ∀ c ∈ t, isQuote c = false ∧ isArgBlank c = false ∧ c ≠ '(' ∧ c ≠ ')' ∧ c ≠ ',') :
    collectArgsLoop depth arg (t ++ rest) = collectArgsLoop depth (arg ++ t) rest := by
  induction t generalizing arg with
  | nil => simp
  | cons c t ih =>
    obtain ⟨noQuote, -, noOpen, noClose, noComma⟩ := inside c List.mem_cons_self
    rw [List.cons_append, collectArgsLoop, if_neg (by simp [noQuote]), if_neg noOpen,
      if_neg (fun h => noClose h.1), if_neg noClose, if_neg (fun h => noComma h.1),
      ih (arg ++ [c]) fun d member => inside d (List.mem_cons_of_mem c member)]
    simp

theorem collectArgsLoop_atoms {atoms : List Atom} (valid : ∀ a ∈ atoms, a.valid = true)
    (depth : Nat) (arg rest : Text) : collectArgsLoop depth arg (spellAtoms atoms ++ rest) =
      collectArgsLoop depth (arg ++ spellAtoms atoms) rest := by
  induction atoms generalizing arg with
  | nil => simp
  | cons a atoms ih =>
    have first : collectArgsLoop depth arg (a.spelling ++ (spellAtoms atoms ++ rest)) =
        collectArgsLoop depth (arg ++ a.spelling) (spellAtoms atoms ++ rest) := by
      have here := valid a List.mem_cons_self
      cases a with
      | char c =>
        apply collectArgsLoop_chars
        intro d member
        obtain ⟨noQuote, -, noSpace, facts⟩ := plainChar_facts here
        rw [List.mem_singleton.mp member]
        exact ⟨noQuote, argBlank_of_not_space noSpace, facts⟩
      | word w =>
        apply collectArgsLoop_chars
        exact fun d member => identChar_facts (isWord_chars here d member)
      | quoted quote body =>
        simp only [Atom.valid, Bool.and_eq_true] at here
        simp only [Atom.spelling, List.cons_append, List.append_assoc, List.nil_append]
        rw [collectArgsLoop, if_pos here.1, takeQuoted_closed here.1 here.2]
    rw [spellAtoms_cons, List.append_assoc, first,
      ih (fun b member => valid b (List.mem_cons_of_mem a member)), List.append_assoc]

theorem collectArgsLoop_opening (depth : Nat) (arg rest : Text) :
    collectArgsLoop depth arg ('(' :: rest) = collectArgsLoop (depth + 1) (arg ++ ['(']) rest := by
  rw [collectArgsLoop, if_neg (by decide), if_pos rfl]

theorem collectArgsLoop_closing (arg rest : Text) :
    collectArgsLoop 0 arg (')' :: rest) = ([trimArg arg], rest) := by
  rw [collectArgsLoop, if_neg (by decide), if_neg (by decide), if_neg (by decide), if_pos rfl]

theorem collectArgsLoop_inner_closing {depth : Nat} (inner : depth ≠ 0) (arg rest : Text) :
    collectArgsLoop depth arg (')' :: rest) = collectArgsLoop (depth - 1) (arg ++ [')']) rest := by
  rw [collectArgsLoop, if_neg (by decide), if_neg (by decide),
    if_pos ⟨rfl, Nat.pos_of_ne_zero inner⟩]

theorem collectArgsLoop_comma (arg rest : Text) :
    collectArgsLoop 0 arg (',' :: rest) =
      (trimArg arg :: (collectArgsLoop 0 [] (rest.dropWhile isArgBlank)).1,
        (collectArgsLoop 0 [] (rest.dropWhile isArgBlank)).2) := by
  rw [collectArgsLoop, if_neg (by decide), if_neg (by decide), if_neg (by decide),
    if_neg (by decide), if_pos ⟨rfl, rfl⟩]

theorem collectArgsLoop_inner_comma {depth : Nat} (inner : depth ≠ 0) (arg rest : Text) :
    collectArgsLoop depth arg (',' :: rest) = collectArgsLoop depth (arg ++ [',']) rest := by
  rw [collectArgsLoop, if_neg (by decide), if_neg (by decide), if_neg (by simp),
    if_neg (by decide), if_neg (by simp [inner])]

/-- The loop on the rendering reads the arguments that `readArgs` finds within the text. At the
start of an argument the code has already skipped the blanks. -/
theorem collectArgsLoop_render {items : List Item} (valid : ∀ i ∈ items, i.valid = true)
    {depth : Nat} {arg : List Item} (argValid : ∀ i ∈ arg, i.valid = true) {origin : Origin}
    {args : List (List Item)} {after : List Layer}
    (read : readArgs depth arg (upcomingIn origin [] items) = some (args, after)) :
    ∃ front painted rest, items = front ++ .token .closing painted :: rest ∧
      after = [⟨origin, rest⟩] ∧
      collectArgsLoop depth (render arg)
        (if arg = [] then (render items).dropWhile isArgBlank else render items) =
          (args.map render, render rest) := by
  induction items generalizing depth arg args with
  | nil => cases read
  | cons i items ih =>
    have here := valid i List.mem_cons_self
    have later := fun j member => valid j (List.mem_cons_of_mem i member)
    have grown {i : Item} (ok : i.valid = true) : ∀ j ∈ arg ++ [i], j.valid = true := by
      intro j member
      rcases List.mem_append.mp member with member | member
      · exact argValid j member
      · rw [List.mem_singleton.mp member]
        exact ok
    cases i with
    | blank c =>
      have blank : isArgBlank c = true := here
      obtain ⟨noQuote, -, -⟩ := blank_facts blank
      have plain : c ≠ '(' ∧ c ≠ ')' ∧ c ≠ ',' := by
        refine ⟨?_, ?_, ?_⟩ <;> (rintro rfl; cases blank)
      by_cases empty : arg = []
      · subst empty
        obtain ⟨front, painted, rest, rfl, rfl, loop⟩ := ih later argValid read
        refine ⟨.blank c :: front, painted, rest, rfl, rfl, ?_⟩
        rw [if_pos rfl] at loop ⊢
        simpa [Item.spelling, List.dropWhile_cons, blank] using loop
      · rw [upcomingIn, readArgs, if_neg empty] at read
        obtain ⟨front, painted, rest, rfl, rfl, loop⟩ := ih later (grown here) read
        refine ⟨.blank c :: front, painted, rest, rfl, rfl, ?_⟩
        rw [if_neg (by simp)] at loop
        rw [if_neg empty, render_cons, Item.spelling, List.singleton_append, collectArgsLoop,
          if_neg (by simp [noQuote]), if_neg plain.1, if_neg (fun h => plain.2.1 h.1),
          if_neg plain.2.1, if_neg (fun h => plain.2.2 h.1)]
        simpa [Item.spelling] using loop
    | token t painted =>
      have text : (if arg = [] then (render (.token t painted :: items)).dropWhile isArgBlank
          else render (.token t painted :: items)) = t.spelling ++ render items := by
        obtain ⟨c, s, spelled, noBlank, -⟩ := spelling_head here
        split <;> simp [Item.spelling, spelled, noBlank]
      rw [text]
      have ordinary {depth' : Nat}
          (loop : ∀ rest, collectArgsLoop depth (render arg) (t.spelling ++ rest) =
            collectArgsLoop depth' (render arg ++ t.spelling) rest)
          (read : readArgs depth' (arg ++ [.token t painted]) (upcomingIn origin [] items) =
            some (args, after)) :
          ∃ front painted' rest,
            .token t painted :: items = front ++ .token .closing painted' :: rest ∧
            after = [⟨origin, rest⟩] ∧
            collectArgsLoop depth (render arg) (t.spelling ++ render items) =
              (args.map render, render rest) := by
        obtain ⟨front, painted', rest, rfl, rfl, inner⟩ := ih later (grown here) read
        refine ⟨.token t painted :: front, painted', rest, rfl, rfl, ?_⟩
        rw [if_neg (by simp), render_append, render_cons, render_nil, List.append_nil,
          Item.spelling] at inner
        rw [loop, inner]
      cases t with
      | name w =>
        apply ordinary _ read
        exact fun rest => collectArgsLoop_chars depth _ rest fun c member =>
          identChar_facts (isWord_chars here c member)
      | other atoms =>
        apply ordinary _ read
        have atomsValid : ∀ a ∈ atoms, a.valid = true := by
          simp only [Item.valid, Token.valid, Bool.and_eq_true, List.all_eq_true] at here
          exact here.1.2
        exact fun rest => collectArgsLoop_atoms atomsValid depth _ rest
      | opening =>
        apply ordinary _ read
        exact fun rest => collectArgsLoop_opening depth _ rest
      | closing =>
        rw [upcomingIn, readArgs] at read
        by_cases outermost : depth = 0
        · rw [if_pos outermost] at read
          cases read
          subst outermost
          refine ⟨[], painted, items, rfl, rfl, ?_⟩
          rw [Token.spelling, List.singleton_append, collectArgsLoop_closing, trimArg_render argValid]
          rfl
        · rw [if_neg outermost] at read
          apply ordinary _ read
          exact fun rest => collectArgsLoop_inner_closing outermost _ rest
      | comma =>
        rw [upcomingIn, readArgs] at read
        by_cases outermost : depth = 0
        · rw [if_pos outermost] at read
          obtain ⟨⟨others, after'⟩, readRest, split⟩ := Option.map_eq_some_iff.mp read
          cases split
          subst outermost
          have none : ∀ j ∈ ([] : List Item), j.valid = true := by simp
          obtain ⟨front, painted', rest, rfl, rfl, inner⟩ := ih later none readRest
          refine ⟨.token .comma painted :: front, painted', rest, rfl, rfl, ?_⟩
          rw [if_pos rfl, render_nil] at inner
          rw [Token.spelling, List.singleton_append, collectArgsLoop_comma, inner,
            trimArg_render argValid]
          rfl
        · rw [if_neg outermost] at read
          apply ordinary _ read
          exact fun rest => collectArgsLoop_inner_comma outermost _ rest

theorem upcomingIn_beyond (origin : Origin) (beyond : List Layer) (items : List Item) :
    upcomingIn origin beyond items =
      (upcomingIn origin [] items).map fun u => (u.1, u.2 ++ beyond) := by
  induction items with
  | nil => rfl
  | cons i items ih => rw [upcomingIn, ih, upcomingIn, List.map_cons, List.singleton_append]

theorem readArgs_beyond (beyond : List Layer) (depth : Nat) (arg : List Item)
    (ahead : List (Item × List Layer)) :
    readArgs depth arg (ahead.map fun u => (u.1, u.2 ++ beyond)) =
      (readArgs depth arg ahead).map fun r => (r.1, r.2 ++ beyond) := by
  fun_induction readArgs depth arg ahead with
  | case1 => rfl
  | case2 _ _ _ _ _ ih => simpa [readArgs] using ih
  | case3 _ _ _ _ _ ih => simpa [readArgs] using ih
  | case4 => simp [readArgs]
  | case5 _ _ _ _ _ inner ih => simpa [readArgs, inner] using ih
  | case6 _ _ _ _ ih => simp [readArgs, ih, Option.map_map, Function.comp_def]
  | case7 _ _ _ _ _ inner ih => simpa [readArgs, inner] using ih
  | case8 _ _ t p _ _ _ _ _ ih =>
    cases t <;> simp_all [readArgs]

theorem readArgs_append {depth : Nat} {arg : List Item} {ahead : List (Item × List Layer)}
    {r : List (List Item) × List Layer} (read : readArgs depth arg ahead = some r)
    (more : List (Item × List Layer)) : readArgs depth arg (ahead ++ more) = some r := by
  fun_induction readArgs depth arg ahead generalizing r with
  | case1 => cases read
  | case2 _ _ _ _ _ ih => simpa [readArgs] using ih read
  | case3 _ _ _ _ _ ih => simpa [readArgs] using ih read
  | case4 => simpa [readArgs] using read
  | case5 _ _ _ _ _ inner ih => simpa [readArgs, inner] using ih read
  | case6 _ _ _ _ ih =>
    obtain ⟨others, readRest, split⟩ := Option.map_eq_some_iff.mp read
    simpa [readArgs, ih readRest] using split
  | case7 _ _ _ _ _ inner ih => simpa [readArgs, inner] using ih read
  | case8 _ _ t p _ _ _ _ _ ih =>
    cases t <;> simp_all [readArgs]

/-- A call that its own text closes is read as if nothing followed that text. -/
theorem readArgs_upcoming {depth : Nat} {arg items rest : List Item} {origin : Origin}
    {args : List (List Item)} (beyond : List Layer)
    (read : readArgs depth arg (upcomingIn origin [] items) = some (args, [⟨origin, rest⟩])) :
    readArgs depth arg (upcomingIn origin beyond items ++ upcoming beyond) =
      some (args, ⟨origin, rest⟩ :: beyond) := by
  apply readArgs_append
  rw [upcomingIn_beyond, readArgs_beyond, read]
  rfl

theorem Spaced.left {a b : List Item} (spaced : Spaced (a ++ b)) : Spaced a :=
  ⟨fun i member => spaced.valid i (List.mem_append_left b member),
    (List.isChain_append.mp spaced.apart).1⟩

theorem Spaced.right {a b : List Item} (spaced : Spaced (a ++ b)) : Spaced b :=
  ⟨fun i member => spaced.valid i (List.mem_append_right a member),
    (List.isChain_append.mp spaced.apart).2.1⟩

theorem Spaced.trim {items : List Item} (spaced : Spaced items) : Spaced (trimItems items) := by
  obtain ⟨dropped, split⟩ := List.dropWhile_suffix Item.isBlank (l := items.reverse)
  have whole : trimItems items ++ dropped.reverse = items := by
    rw [trimItems, ← List.reverse_append, split, List.reverse_reverse]
  rw [← whole] at spaced
  exact spaced.left

theorem readArgs_spaced {items : List Item} {depth : Nat} {arg : List Item}
    (spaced : Spaced (arg ++ items)) {origin : Origin} {args : List (List Item)}
    {after : List Layer}
    (read : readArgs depth arg (upcomingIn origin [] items) = some (args, after)) :
    ∀ a ∈ args, Spaced a := by
  induction items generalizing depth arg args with
  | nil => cases read
  | cons i items ih =>
    have grown : Spaced ((arg ++ [i]) ++ items) := by simpa using spaced
    cases i with
    | blank c =>
      rw [upcomingIn, readArgs] at read
      split at read
      · exact ih (by simpa using spaced.right.tail) read
      · exact ih grown read
    | token t painted =>
      have finished : ∀ a ∈ [trimItems arg], Spaced a := by
        intro a member
        rw [List.mem_singleton.mp member]
        exact spaced.left.trim
      cases t with
      | name w => exact ih grown read
      | other atoms => exact ih grown read
      | opening => exact ih grown read
      | closing =>
        rw [upcomingIn, readArgs] at read
        split at read
        · cases read
          exact finished
        · exact ih grown read
      | comma =>
        rw [upcomingIn, readArgs] at read
        split at read
        · obtain ⟨⟨others, after'⟩, readRest, split⟩ := Option.map_eq_some_iff.mp read
          cases split
          intro a member
          rcases List.mem_cons.mp member with rfl | member
          · exact finished _ (List.mem_singleton.mpr rfl)
          · exact ih (by simpa using spaced.right.tail) readRest a member
        · exact ih grown read

theorem trimItems_token (t : Token) (painted : Bool) (rest : List Item) :
    trimItems (.token t painted :: rest) ≠ [] := by
  induction rest using List.reverseRecOn with
  | nil => simp [trimItems, Item.isBlank]
  | append_singleton front i ih =>
    rw [← List.cons_append, trimItems_concat]
    split
    · exact ih
    · simp

/-- An argument that has begun with a token is not empty. -/
theorem readArgs_begun {ahead : List (Item × List Layer)} {depth : Nat} {t : Token}
    {painted : Bool} {arg : List Item} {args : List (List Item)} {after : List Layer}
    (read : readArgs depth (.token t painted :: arg) ahead = some (args, after)) :
    args ≠ [[]] := by
  induction ahead generalizing depth arg args after with
  | nil => cases read
  | cons u ahead ih =>
    obtain ⟨i, rest⟩ := u
    cases i with
    | blank c =>
      rw [readArgs, if_neg (by simp)] at read
      exact ih read
    | token s p =>
      cases s with
      | name w => exact ih read
      | other atoms => exact ih read
      | opening => exact ih read
      | closing =>
        rw [readArgs] at read
        split at read
        · cases read
          simpa using trimItems_token t painted arg
        · exact ih read
      | comma =>
        rw [readArgs] at read
        split at read
        · obtain ⟨⟨others, after'⟩, readRest, split⟩ := Option.map_eq_some_iff.mp read
          cases split
          simp [trimItems_token t painted arg]
        · exact ih read

theorem readArgs_skip (depth : Nat) (origin : Origin) (items : List Item) :
    readArgs depth [] (upcomingIn origin [] items) =
      readArgs depth [] (upcomingIn origin [] (items.dropWhile Item.isBlank)) := by
  induction items with
  | nil => rfl
  | cons i items ih =>
    cases i with
    | blank c =>
      have skipped : (Item.blank c :: items).dropWhile Item.isBlank =
          items.dropWhile Item.isBlank := rfl
      rw [upcomingIn, readArgs, if_pos rfl, ih, skipped]
    | token t painted => simp [Item.isBlank]

theorem readArgs_ne_nil {ahead : List (Item × List Layer)} {depth : Nat} {arg : List Item}
    {args : List (List Item)} {after : List Layer}
    (read : readArgs depth arg ahead = some (args, after)) : args ≠ [] := by
  fun_induction readArgs depth arg ahead generalizing args after with
  | case1 => cases read
  | case4 =>
    cases read
    exact List.cons_ne_nil _ _
  | case6 =>
    obtain ⟨r, -, split⟩ := Option.map_eq_some_iff.mp read
    cases split
    exact List.cons_ne_nil _ _
  | case2 _ _ _ _ _ ih | case3 _ _ _ _ _ ih | case5 _ _ _ _ _ _ ih | case7 _ _ _ _ _ _ ih
  | case8 _ _ _ _ _ _ _ _ _ ih => exact ih read

/-- No argument at all and one empty argument are the same text; the code reads the first. -/
def codeArgs (args : List (List Item)) : List Text := if args = [[]] then [] else args.map render

theorem collectArgs_render {items : List Item} (spaced : Spaced items) {origin : Origin}
    {args : List (List Item)} {after : List Layer}
    (read : readArgs 0 [] (upcomingIn origin [] items) = some (args, after)) :
    ∃ front painted rest, items = front ++ .token .closing painted :: rest ∧
      after = [⟨origin, rest⟩] ∧ collectArgs (render items) = (codeArgs args, render rest) := by
  have none : ∀ i ∈ ([] : List Item), i.valid = true := by simp
  obtain ⟨front, painted, rest, split, rfl, loop⟩ := collectArgsLoop_render spaced.valid none read
  refine ⟨front, painted, rest, split, rfl, ?_⟩
  rw [if_pos rfl, dropBlanks_render spaced.valid] at loop
  rw [readArgs_skip] at read
  rw [collectArgs, dropBlanks_render spaced.valid]
  have validStart : ∀ i ∈ items.dropWhile Item.isBlank, i.valid = true := fun i member =>
    spaced.valid i ((List.dropWhile_sublist _).subset member)
  cases start : items.dropWhile Item.isBlank with
  | nil =>
    rw [start] at read
    cases read
  | cons i more =>
    rw [start] at read loop validStart
    cases i with
    | blank c =>
      have := List.head?_dropWhile_not Item.isBlank items
      simp [start, Item.isBlank] at this
    | token t painted' =>
      by_cases closes : t = .closing
      · subst closes
        rw [upcomingIn, readArgs, if_pos rfl] at read
        cases read
        rfl
      · obtain ⟨c, s, spelled, -, -, noClose⟩ := spelling_head (validStart _ List.mem_cons_self)
        have several : args ≠ [[]] := by
          cases t with
          | name w => exact readArgs_begun read
          | other atoms => exact readArgs_begun read
          | opening => exact readArgs_begun read
          | closing => exact absurd rfl closes
          | comma =>
            rw [upcomingIn, readArgs, if_pos rfl] at read
            obtain ⟨⟨others, after'⟩, readRest, split⟩ := Option.map_eq_some_iff.mp read
            cases split
            intro one
            exact readArgs_ne_nil readRest (List.cons.inj one).2
        have text : render (.token t painted' :: more) = c :: (s ++ render more) := by
          rw [render_cons, Item.spelling, spelled, List.cons_append]
        rw [codeArgs, if_neg several]
        rw [text] at loop ⊢
        split
        · next tail heq =>
          cases heq
          exact absurd (noClose rfl) closes
        · exact loop

/-! ### Substitution -/

/-- A parameter of the code with the argument that a binding of tokens gives it. -/
def Bound (b : Binding) (p : Text × List Item) : Prop := b.param = p.1 ∧ b.expanded = render p.2

theorem bound_find {bindings : List Binding} {items : List (Text × List Item)}
    (bound : List.Forall₂ Bound bindings items) (n : Text) :
    (bindings.find? fun b => b.param = n).map Binding.expanded =
      (items.find? fun p => p.1 = n).map fun p => render p.2 := by
  induction bound with
  | nil => rfl
  | @cons b p _ _ same _ ih =>
    obtain ⟨param, expanded⟩ := same
    by_cases here : p.1 = n
    · simp [param, here, expanded]
    · simpa [param, here] using ih

def Item.atoms : Item → List Atom
  | token (.other atoms) _ => atoms
  | _ => []

/-- No stringification and no pasting in a replacement list, under any spelling. -/
def HashFree (body : List Item) : Prop :=
  ∀ i ∈ body, Atom.char '#' ∉ i.atoms ∧ spellAtoms i.atoms ∉ ["%:".toList, "%:%:".toList]

/-- No number or literal of the replacement list contains a parameter's name as a word. -/
def Inert (params : List Text) (body : List Item) : Prop :=
  ∀ i ∈ body, ∀ w ∈ params, .word w ∉ i.atoms

instance (body : List Item) : Decidable (HashFree body) :=
  inferInstanceAs (Decidable (∀ i ∈ body, _))

instance (params : List Text) (body : List Item) : Decidable (Inert params body) :=
  inferInstanceAs (Decidable (∀ i ∈ body, _))

section Substitution

variable {bindings : List Binding} {items : List (Text × List Item)}

theorem substituteArgsLoop_char {c : Char} (noQuote : isQuote c = false) (noHash : c ≠ '#')
    (noStart : isIdentStart c = false) (out rest : Text) :
    substituteArgsLoop bindings out false (c :: rest) =
      substituteArgsLoop bindings (out ++ [c]) false rest := by
  rw [substituteArgsLoop, if_neg (by simp [noQuote]), if_neg fun h => noHash h.1, if_neg noHash,
    if_neg (by simp [noStart])]

theorem substituteArgsLoop_quoted {quote : Char} {body : Text} (isQ : isQuote quote = true)
    (closed : closesWith quote body = true) (out rest : Text) :
    substituteArgsLoop bindings out false (quote :: (body ++ quote :: rest)) =
      substituteArgsLoop bindings (out ++ quote :: (body ++ [quote])) false rest := by
  rw [substituteArgsLoop, if_pos isQ, takeQuoted_closed isQ closed]

theorem substituteArgsLoop_word {w rest : Text} (word : isWord w = true) (ends : EndsWord rest)
    (out : Text) : substituteArgsLoop bindings out false (w ++ rest) =
      substituteArgsLoop bindings
        (out ++ ((bindings.find? fun b => b.param = w).map Binding.expanded).getD w) false rest := by
  cases w with
  | nil => cases word
  | cons c w =>
    obtain ⟨start, noQuote, -, -, noHash⟩ := isWord_head word
    obtain ⟨front, back⟩ := splitWord word ends
    rw [List.cons_append, substituteArgsLoop, if_neg (by simp [noQuote]),
      if_neg fun h => noHash h.1, if_neg noHash, if_pos start, front, back]
    cases found : bindings.find? fun b => b.param = c :: w <;> simp [found]

theorem find_eq_none {w : Text} (other : w ∉ items.map Prod.fst) :
    (items.find? fun p => p.1 = w) = none := by
  rw [List.find?_eq_none]
  intro p member same
  exact other (List.mem_map.mpr ⟨p, member, by simpa using same⟩)

theorem endsWord_atoms {a : Atom} {atoms : List Atom} {rest : Text}
    (valid : ∀ b ∈ atoms, b.valid = true)
    (chain : (a :: atoms).IsChain fun a b => a.joins b = true) (ends : EndsWord rest)
    (isWord : ∃ w, a = .word w) : EndsWord (spellAtoms atoms ++ rest) := by
  obtain ⟨w, rfl⟩ := isWord
  cases atoms with
  | nil => exact ends
  | cons b atoms =>
    have joins := (List.isChain_cons_cons.mp chain).1
    have here := valid b List.mem_cons_self
    intro c head
    cases b with
    | word v => cases joins
    | char d =>
      cases head
      simpa [Atom.joins] using joins
    | quoted quote body =>
      cases head
      simp only [Atom.valid, Bool.and_eq_true] at here
      rcases quote_cases here.1 with rfl | rfl <;> rfl

theorem substituteArgsLoop_atoms (bound : List.Forall₂ Bound bindings items) {atoms : List Atom}
    (valid : ∀ a ∈ atoms, a.valid = true)
    (chain : atoms.IsChain fun a b => a.joins b = true)
    (noHash : Atom.char '#' ∉ atoms) (inert : ∀ w, .word w ∈ atoms → w ∉ items.map Prod.fst)
    {rest : Text} (ends : EndsWord rest) (out : Text) :
    substituteArgsLoop bindings out false (spellAtoms atoms ++ rest) =
      substituteArgsLoop bindings (out ++ spellAtoms atoms) false rest := by
  induction atoms generalizing out with
  | nil => simp
  | cons a atoms ih =>
    have later := fun b member => valid b (List.mem_cons_of_mem a member)
    have first : substituteArgsLoop bindings out false (a.spelling ++ (spellAtoms atoms ++ rest)) =
        substituteArgsLoop bindings (out ++ a.spelling) false (spellAtoms atoms ++ rest) := by
      have here := valid a List.mem_cons_self
      cases a with
      | char c =>
        obtain ⟨noQuote, noStart, -⟩ := plainChar_facts here
        refine substituteArgsLoop_char noQuote ?_ noStart out _
        rintro rfl
        exact noHash List.mem_cons_self
      | word w =>
        have unbound : ((bindings.find? fun b => b.param = w).map Binding.expanded).getD w = w := by
          rw [bound_find bound, find_eq_none (inert w List.mem_cons_self)]
          rfl
        rw [Atom.spelling,
          substituteArgsLoop_word here (endsWord_atoms later chain ends ⟨w, rfl⟩), unbound]
      | quoted quote body =>
        simp only [Atom.valid, Bool.and_eq_true] at here
        simpa [Atom.spelling] using substituteArgsLoop_quoted here.1 here.2 out _
    rw [spellAtoms_cons, List.append_assoc, first,
      ih later chain.tail (fun member => noHash (List.mem_cons_of_mem a member))
        (fun w member => inert w (List.mem_cons_of_mem a member)), List.append_assoc]

theorem substituteArgsLoop_render (bound : List.Forall₂ Bound bindings items) {body : List Item}
    (spaced : Spaced body) (noHash : HashFree body) (inert : Inert (items.map Prod.fst) body)
    (out : Text) : substituteArgsLoop bindings out false (render body) =
      .ok (out ++ render (substituteItems items body)) := by
  induction body generalizing out with
  | nil => simp [substituteArgsLoop, substituteItems]
  | cons i body ih =>
    have rest (out : Text) : substituteArgsLoop bindings out false (render body) =
        .ok (out ++ render (substituteItems items body)) :=
      ih spaced.tail (fun j member => noHash j (List.mem_cons_of_mem i member))
        (fun j member => inert j (List.mem_cons_of_mem i member)) out
    have step (first : substituteArgsLoop bindings out false (i.spelling ++ render body) =
        substituteArgsLoop bindings (out ++ render (substituteItem items i)) false (render body)) :
        substituteArgsLoop bindings out false (render (i :: body)) =
          .ok (out ++ render (substituteItems items (i :: body))) := by
      rw [render_cons, first, rest, List.append_assoc, ← render_append]
      rfl
    apply step
    have here := spaced.head
    cases i with
    | blank c =>
      obtain ⟨noQuote, noStart, -⟩ := blank_facts here
      refine substituteArgsLoop_char noQuote ?_ noStart out _
      rintro rfl
      cases here
    | token t painted =>
      have ends := endsWord_of_soft spaced.tail spaced.soft
      cases t with
      | opening => exact substituteArgsLoop_char rfl (by decide) rfl out _
      | closing => exact substituteArgsLoop_char rfl (by decide) rfl out _
      | comma => exact substituteArgsLoop_char rfl (by decide) rfl out _
      | name w =>
        have replaced : ((bindings.find? fun b => b.param = w).map Binding.expanded).getD w =
            render (substituteItem items (.token (.name w) painted)) := by
          rw [bound_find bound, substituteItem]
          cases items.find? fun p => p.1 = w <;> simp [Item.spelling, Token.spelling]
        rw [← replaced]
        exact substituteArgsLoop_word here ends out
      | other atoms =>
        simp only [Item.valid, Token.valid, Bool.and_eq_true, List.all_eq_true,
          decide_eq_true_eq] at here
        have kept : render (substituteItem items (.token (.other atoms) painted)) =
            spellAtoms atoms := by
          simp [substituteItem, Item.spelling, Token.spelling]
        rw [kept]
        exact substituteArgsLoop_atoms bound here.1.2 here.2 (noHash _ List.mem_cons_self).1
          (fun w inside param => inert _ List.mem_cons_self w param inside) ends out

end Substitution

theorem render_flatten (texts : List (List Item)) :
    render texts.flatten = (texts.map render).flatten := by
  induction texts with
  | nil => rfl
  | cons text texts ih => rw [List.flatten_cons, render_append, ih, List.map_cons, List.flatten_cons]

theorem joinArgs_render (texts : List (List Item)) :
    joinArgs (texts.map render) = render (joinItems texts) := by
  have spread : (texts.intersperse [.token .comma false, .blank ' ']).map render =
      (texts.map render).intersperse [',', ' '] := by
    induction texts with
    | nil => rfl
    | cons text texts ih =>
      cases texts with
      | nil => rfl
      | cons next texts =>
        rw [List.intersperse_cons_cons, List.map_cons, List.map_cons, ih]
        rfl
  rw [joinArgs, joinItems, render_flatten, spread]

theorem bound_zip (params : List Text) (raw : List Text) (texts : List (List Item))
    (sameLength : raw.length = texts.length) :
    List.Forall₂ Bound
      ((params.zip (raw.zip (texts.map render))).map fun p => ⟨p.1, p.2.1, p.2.2⟩)
      (params.zip texts) := by
  induction params generalizing raw texts with
  | nil => exact .nil
  | cons param params ih =>
    match raw, texts with
    | [], [] => exact .nil
    | [], _ :: _ | _ :: _, [] => cases sameLength
    | r :: raw, text :: texts =>
      exact .cons ⟨rfl, rfl⟩ (ih raw texts (by simpa using sameLength))

theorem bound_bindArgs {isVariadic : Bool} {params raw : List Text} {texts : List (List Item)}
    (sameLength : raw.length = texts.length) :
    List.Forall₂ Bound (bindArgs isVariadic params raw (texts.map render))
      (bindItems isVariadic params texts) := by
  have fixed : List.Forall₂ Bound
      ((params.zip (raw.zip (texts.map render))).map fun p => ⟨p.1, p.2.1, p.2.2⟩)
      (params.zip texts) := bound_zip params raw texts sameLength
  cases isVariadic with
  | false => simpa [bindArgs, bindItems] using fixed
  | true =>
    have rest : Bound
        ⟨"__VA_ARGS__".toList, joinArgs (raw.drop params.length),
          joinArgs ((texts.map render).drop params.length)⟩
        ("__VA_ARGS__".toList, joinItems (texts.drop params.length)) := by
      refine ⟨rfl, ?_⟩
      rw [← List.map_drop, joinArgs_render]
    simpa [bindArgs, bindItems] using List.rel_append fixed (.cons rest .nil)

theorem bound_noArgs (isVariadic : Bool) :
    List.Forall₂ Bound (bindArgs isVariadic [] [] []) (bindItems isVariadic [] [[]]) := by
  cases isVariadic with
  | false => exact .nil
  | true => exact .cons ⟨rfl, rfl⟩ .nil

theorem spaced_nil : Spaced [] := ⟨by simp, List.IsChain.nil⟩

theorem spaced_blank {c : Char} {items : List Item} (blank : isArgBlank c = true)
    (spaced : Spaced items) : Spaced (.blank c :: items) := by
  refine ⟨?_, ?_⟩
  · intro i member
    rcases List.mem_cons.mp member with rfl | member
    · exact blank
    · exact spaced.valid i member
  · exact List.isChain_cons.mpr ⟨fun j _ => rfl, spaced.apart⟩

theorem spaced_token {t : Token} {painted : Bool} {items : List Item} (valid : t.valid = true)
    (spaced : Spaced items) (soft : startsSoft items) : Spaced (.token t painted :: items) := by
  have single : Spaced [.token t painted] :=
    ⟨by simpa [Item.valid] using valid, List.IsChain.singleton _⟩
  exact single.append spaced soft

theorem joinItems_spaced {texts : List (List Item)} (each : ∀ text ∈ texts, Spaced text) :
    Spaced (joinItems texts) := by
  induction texts with
  | nil => exact spaced_nil
  | cons text texts ih =>
    have rest := ih fun t member => each t (List.mem_cons_of_mem text member)
    have here := each text List.mem_cons_self
    cases texts with
    | nil => simpa [joinItems] using here
    | cons next texts =>
      have comma : Spaced (.token .comma false :: .blank ' ' :: joinItems (next :: texts)) :=
        spaced_token rfl (spaced_blank rfl rest) (startsSoft_blank _ _)
      have soft : startsSoft (.token .comma false :: .blank ' ' :: joinItems (next :: texts)) := by
        intro i member
        cases member
        exact Or.inr rfl
      exact here.append comma soft

theorem bindItems_spaced {isVariadic : Bool} {params : List Text} {texts : List (List Item)}
    (each : ∀ text ∈ texts, Spaced text) : ∀ p ∈ bindItems isVariadic params texts, Spaced p.2 := by
  intro p member
  rcases List.mem_append.mp member with fixed | rest
  · exact each _ (List.of_mem_zip fixed).2
  · cases isVariadic with
    | false => simp at rest
    | true =>
      rw [List.mem_singleton.mp rest]
      exact joinItems_spaced fun text inside => each text (List.mem_of_mem_drop inside)

theorem substituteItems_spaced {items : List (Text × List Item)} (each : ∀ p ∈ items, Spaced p.2)
    {body : List Item} (spaced : Spaced body) :
    Spaced (substituteItems items body) ∧
      (startsSoft body → startsSoft (substituteItems items body)) := by
  induction body with
  | nil => exact ⟨spaced_nil, fun _ => startsSoft_nil⟩
  | cons i body ih =>
    obtain ⟨rest, soft⟩ := ih spaced.tail
    cases i with
    | blank c => exact ⟨spaced_blank spaced.head rest, fun _ => startsSoft_blank _ _⟩
    | token t painted =>
      have after := soft spaced.soft
      cases t with
      | name w =>
        have replaced : Spaced (substituteItem items (.token (.name w) painted)) := by
          rw [substituteItem]
          split
          · next b found => exact each b (List.mem_of_find?_eq_some found)
          · exact spaced_token spaced.head spaced_nil startsSoft_nil
        refine ⟨replaced.append rest after, fun hard => ?_⟩
        rcases hard _ rfl with blank | comma
        · cases blank
        · cases comma
      | opening | closing | comma | other =>
        refine ⟨spaced_token spaced.head rest after, fun hard => ?_⟩
        intro i member
        cases member
        exact hard _ rfl

end ClaudeC99.Preprocessor
