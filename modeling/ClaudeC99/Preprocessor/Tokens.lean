import Mathlib.Data.List.Chain
import ClaudeC99.Preprocessor.Macros

/-! Texts whose tokens are separated by blanks or newlines. -/

namespace ClaudeC99.Preprocessor

/-- What the scanning loops see inside a number, a punctuator or a literal. A `word` is a run of
identifier characters, such as the suffix in `10L` or the prefix of a wide literal. -/
inductive Atom
  | char (c : Char)
  | word (w : Text)
  | quoted (quote : Char) (body : Text)
  deriving DecidableEq, Repr

inductive Token
  | name (w : Text)
  | opening
  | closing
  | comma
  | other (atoms : List Atom)
  deriving DecidableEq, Repr

/-- A token is `painted` when it names a macro that must not be replaced there any more. -/
inductive Item
  | blank (c : Char)
  | token (t : Token) (painted : Bool)
  deriving DecidableEq, Repr

def Atom.spelling : Atom → Text
  | char c => [c]
  | word w => w
  | quoted quote body => quote :: body ++ [quote]

def spellAtoms (atoms : List Atom) : Text := atoms.flatMap Atom.spelling

def Token.spelling : Token → Text
  | name w => w
  | opening => ['(']
  | closing => [')']
  | comma => [',']
  | other atoms => spellAtoms atoms

def Item.spelling : Item → Text
  | blank c => [c]
  | token t _ => t.spelling

def Item.isBlank : Item → Bool
  | blank _ => true
  | token _ _ => false

def Item.token? : Item → Option Token
  | blank _ => none
  | token t _ => some t

def render (items : List Item) : Text := items.flatMap Item.spelling

def tokensOf (items : List Item) : List Token := items.filterMap Item.token?

@[simp] theorem render_nil : render [] = [] := rfl

@[simp] theorem render_cons (i : Item) (items : List Item) :
    render (i :: items) = i.spelling ++ render items := rfl

@[simp] theorem render_append (a b : List Item) : render (a ++ b) = render a ++ render b := by
  simp [render]

@[simp] theorem spellAtoms_nil : spellAtoms [] = [] := rfl

@[simp] theorem spellAtoms_cons (a : Atom) (atoms : List Atom) :
    spellAtoms (a :: atoms) = a.spelling ++ spellAtoms atoms := rfl

def isWord : Text → Bool
  | [] => false
  | c :: s => isIdentStart c && s.all isIdentChar

/-- The inside of a literal that the next quote closes. -/
def closesWith (quote : Char) : Text → Bool
  | [] => true
  | [c] => c != '\\' && c != quote && c != '\n'
  | c :: d :: s =>
    if c = '\\' then closesWith quote s
    else c != quote && c != '\n' && closesWith quote (d :: s)

def isPlainChar (c : Char) : Bool :=
  !isQuote c && !isIdentStart c && !isSpaceChar c && c != '(' && c != ')' && c != ','

def Atom.valid : Atom → Bool
  | char c => isPlainChar c
  | word w => isWord w
  | quoted quote body => isQuote quote && closesWith quote body

/-- `b` can follow `a` inside a token: it does not continue the word, and starts no comment. -/
def Atom.joins (a b : Atom) : Bool :=
  match a, b with
  | word _, word _ => false
  | word _, char c => !isIdentChar c
  | char c, char d => !(c == '/' && (d == '/' || d == '*'))
  | _, _ => true

/-- Only a wide literal starts with a word. -/
def startsToken : List Atom → Bool
  | [] => false
  | .word _ :: .quoted _ _ :: _ => true
  | .word _ :: _ => false
  | _ => true

def Token.valid : Token → Bool
  | name w => isWord w
  | other atoms =>
    startsToken atoms && atoms.all Atom.valid && decide (atoms.IsChain fun a b => a.joins b = true)
  | _ => true

def Item.valid : Item → Bool
  | blank c => isArgBlank c
  | token t _ => t.valid

/-- Of two tokens with nothing between them, the second is a comma. -/
def Item.apart : Item → Item → Bool
  | token _ _, token t _ => t == .comma
  | _, _ => true

structure Spaced (items : List Item) : Prop where
  valid : ∀ i ∈ items, i.valid = true
  apart : items.IsChain fun a b => a.apart b = true

instance (items : List Item) : Decidable (Spaced items) :=
  decidable_of_iff ((∀ i ∈ items, i.valid = true) ∧ items.IsChain fun a b => a.apart b = true)
    ⟨fun h => ⟨h.1, h.2⟩, fun h => ⟨h.valid, h.apart⟩⟩

/-- What may follow a token: nothing, a blank or a comma. -/
def startsSoft (items : List Item) : Prop := ∀ i ∈ items.head?, i.isBlank = true ∨ i.token? = some .comma

theorem startsSoft_nil : startsSoft [] := by
  intro i member
  cases member

theorem startsSoft_blank (c : Char) (items : List Item) : startsSoft (.blank c :: items) := by
  intro i member
  cases member
  exact Or.inl rfl

theorem Spaced.tail {i : Item} {items : List Item} (spaced : Spaced (i :: items)) : Spaced items :=
  ⟨fun j member => spaced.valid j (List.mem_cons_of_mem i member), spaced.apart.tail⟩

theorem Spaced.head {i : Item} {items : List Item} (spaced : Spaced (i :: items)) :
    i.valid = true :=
  spaced.valid i List.mem_cons_self

/-- After a token comes something soft. -/
theorem Spaced.soft {t : Token} {painted : Bool} {items : List Item}
    (spaced : Spaced (.token t painted :: items)) : startsSoft items := by
  cases items with
  | nil => exact startsSoft_nil
  | cons i items =>
    have apart := (List.isChain_cons_cons.mp spaced.apart).1
    intro j member
    cases member
    cases i with
    | blank c => exact Or.inl rfl
    | token u _ => exact Or.inr (by simpa [Item.apart, Item.token?] using apart)

theorem Spaced.append {a b : List Item} (left : Spaced a) (right : Spaced b) (soft : startsSoft b) :
    Spaced (a ++ b) := by
  constructor
  · intro i member
    rcases List.mem_append.mp member with member | member
    · exact left.valid i member
    · exact right.valid i member
  · refine List.isChain_append.mpr ⟨left.apart, right.apart, ?_⟩
    intro i last j head
    rcases soft j head with blank | comma
    · cases j with
      | blank c => cases i <;> rfl
      | token u _ => cases blank
    · cases j with
      | blank c => cases comma
      | token u _ =>
        cases comma
        cases i <;> rfl

/-! ### What a character can be -/

theorem identChar_facts {c : Char} (ident : isIdentChar c = true) :
    isQuote c = false ∧ isArgBlank c = false ∧ c ≠ '(' ∧ c ≠ ')' ∧ c ≠ ',' := by
  have differs : ∀ d : Char, isIdentChar d = false → c ≠ d := by
    rintro d other rfl
    rw [ident] at other
    cases other
  refine ⟨?_, ?_, differs _ rfl, differs _ rfl, differs _ rfl⟩
  · simp [isQuote, differs '"' rfl, differs '\'' rfl]
  · simp [isArgBlank, isBlank, differs ' ' rfl, differs '\t' rfl, differs '\n' rfl]

theorem identChar_of_start {c : Char} (start : isIdentStart c = true) : isIdentChar c = true := by
  simp only [isIdentStart, isIdentChar, Bool.or_eq_true, Char.isAlphanum] at start ⊢
  tauto

theorem isWord_chars {w : Text} (word : isWord w = true) : ∀ c ∈ w, isIdentChar c = true := by
  cases w with
  | nil => cases word
  | cons c s =>
    simp only [isWord, Bool.and_eq_true, List.all_eq_true] at word
    intro d member
    rcases List.mem_cons.mp member with rfl | member
    · exact identChar_of_start word.1
    · exact word.2 d member

theorem plainChar_facts {c : Char} (plain : isPlainChar c = true) :
    isQuote c = false ∧ isIdentStart c = false ∧ isSpaceChar c = false ∧
      c ≠ '(' ∧ c ≠ ')' ∧ c ≠ ',' := by
  simpa [isPlainChar, and_assoc] using plain

theorem argBlank_of_not_space {c : Char} (other : isSpaceChar c = false) : isArgBlank c = false := by
  simp only [isSpaceChar, Bool.or_eq_false_iff] at other
  exact other.1.1.1

theorem quote_cases {c : Char} (quote : isQuote c = true) : c = '"' ∨ c = '\'' := by
  simpa [isQuote] using quote

theorem takeQuoted_cons {quote c : Char} (unescaped : c ≠ '\\') (rest : Text) :
    takeQuoted quote (c :: rest) =
      if c = quote then ([c], rest)
      else if c = '\n' then ([], c :: rest)
      else (c :: (takeQuoted quote rest).1, (takeQuoted quote rest).2) := by
  rw [takeQuoted]
  intro d s escape
  exact absurd escape unescaped

theorem takeQuoted_closed {quote : Char} {body : Text} (isQ : isQuote quote = true)
    (closed : closesWith quote body = true) (rest : Text) :
    takeQuoted quote (body ++ quote :: rest) = (body ++ [quote], rest) := by
  have unescaped : quote ≠ '\\' := by
    rcases quote_cases isQ with rfl | rfl <;> decide
  have ends : takeQuoted quote (quote :: rest) = ([quote], rest) := by
    rw [takeQuoted_cons unescaped, if_pos rfl]
  fun_induction closesWith quote body with
  | case1 => exact ends
  | case2 c =>
    simp only [Bool.and_eq_true, bne_iff_ne, ne_eq] at closed
    obtain ⟨⟨noEscape, noQuote⟩, noLine⟩ := closed
    rw [List.cons_append, takeQuoted_cons noEscape, if_neg noQuote, if_neg noLine, List.nil_append,
      ends]
    rfl
  | case3 d s ih => simp [takeQuoted, ih closed]
  | case4 c d s noEscape ih =>
    simp only [Bool.and_eq_true, bne_iff_ne, ne_eq] at closed
    obtain ⟨⟨noQuote, noLine⟩, inside⟩ := closed
    rw [List.cons_append, takeQuoted_cons noEscape, if_neg noQuote, if_neg noLine, ih inside]
    rfl

/-! ### The tokens of a text -/

/-- The spellings of the tokens of a text that keeps them apart. `word` is the part of a token that
is read so far. -/
def lexSpaced (word : Text) : Text → List Text
  | [] => [word].filter (· ≠ [])
  | c :: s =>
    if isQuote c then lexSpaced (word ++ c :: (takeQuoted c s).1) (takeQuoted c s).2
    else if isArgBlank c then [word].filter (· ≠ []) ++ lexSpaced [] s
    else if c = '(' ∨ c = ')' ∨ c = ',' then [word].filter (· ≠ []) ++ [c] :: lexSpaced [] s
    else lexSpaced (word ++ [c]) s
  termination_by s => s.length
  decreasing_by
    all_goals simp only [List.length_cons]
    · have := takeQuoted_length c s
      omega
    all_goals omega

theorem lexSpaced_chars {t : Text} (word : Text) (rest : Text)
    (inside : ∀ c ∈ t, isQuote c = false ∧ isArgBlank c = false ∧ c ≠ '(' ∧ c ≠ ')' ∧ c ≠ ',') :
    lexSpaced word (t ++ rest) = lexSpaced (word ++ t) rest := by
  induction t generalizing word with
  | nil => simp
  | cons c t ih =>
    obtain ⟨noQuote, noBlank, noOpen, noClose, noComma⟩ := inside c List.mem_cons_self
    rw [List.cons_append, lexSpaced, if_neg (by simp [noQuote]), if_neg (by simp [noBlank]),
      if_neg (by simp [noOpen, noClose, noComma]),
      ih (word ++ [c]) fun d member => inside d (List.mem_cons_of_mem c member)]
    simp

theorem lexSpaced_atoms {atoms : List Atom} (valid : ∀ a ∈ atoms, a.valid = true) (word : Text)
    (rest : Text) : lexSpaced word (spellAtoms atoms ++ rest) =
      lexSpaced (word ++ spellAtoms atoms) rest := by
  induction atoms generalizing word with
  | nil => simp
  | cons a atoms ih =>
    have first : lexSpaced word (a.spelling ++ (spellAtoms atoms ++ rest)) =
        lexSpaced (word ++ a.spelling) (spellAtoms atoms ++ rest) := by
      have here := valid a List.mem_cons_self
      cases a with
      | char c =>
        apply lexSpaced_chars
        intro d member
        obtain ⟨noQuote, -, noSpace, facts⟩ := plainChar_facts here
        rw [List.mem_singleton.mp member]
        exact ⟨noQuote, argBlank_of_not_space noSpace, facts⟩
      | word w =>
        apply lexSpaced_chars
        exact fun d member => identChar_facts (isWord_chars here d member)
      | quoted quote body =>
        simp only [Atom.valid, Bool.and_eq_true] at here
        simp only [Atom.spelling, List.cons_append, List.append_assoc, List.nil_append]
        rw [lexSpaced, if_pos here.1, takeQuoted_closed here.1 here.2]
    rw [spellAtoms_cons, List.append_assoc, first,
      ih (fun b member => valid b (List.mem_cons_of_mem a member)), List.append_assoc]

theorem lexSpaced_single {c : Char} (splits : c = '(' ∨ c = ')' ∨ c = ',') (word s : Text) :
    lexSpaced word (c :: s) = [word].filter (· ≠ []) ++ [c] :: lexSpaced [] s := by
  have facts : isQuote c = false ∧ isArgBlank c = false := by
    rcases splits with rfl | rfl | rfl <;> decide
  rw [lexSpaced, if_neg (by simp [facts.1]), if_neg (by simp [facts.2]), if_pos splits]

theorem spelling_ne_nil {t : Token} (valid : t.valid = true) : t.spelling ≠ [] := by
  cases t with
  | name w =>
    intro empty
    rw [show w = [] from empty] at valid
    cases valid
  | opening | closing | comma => exact List.cons_ne_nil _ _
  | other atoms =>
    cases atoms with
    | nil => cases valid
    | cons a atoms =>
      simp only [Token.valid, List.all_cons, Bool.and_eq_true] at valid
      cases a with
      | char c => exact List.cons_ne_nil _ _
      | quoted quote body => exact List.cons_ne_nil _ _
      | word w =>
        intro empty
        have := (List.append_eq_nil_iff.mp empty).1
        simp_all [Atom.valid, Atom.spelling, isWord]

/-- A spaced text lexes to the tokens it was made of. -/
theorem lexSpaced_render {items : List Item} (spaced : Spaced items) :
    lexSpaced [] (render items) = (tokensOf items).map Token.spelling ∧
      ∀ word, word ≠ [] → startsSoft items →
        lexSpaced word (render items) = word :: (tokensOf items).map Token.spelling := by
  induction items with
  | nil =>
    refine ⟨by simp [lexSpaced, tokensOf], fun word nonempty _ => ?_⟩
    simp [lexSpaced, tokensOf, nonempty]
  | cons i items ih =>
    obtain ⟨fresh, pending⟩ := ih spaced.tail
    cases i with
    | blank c =>
      have blank : isArgBlank c = true := spaced.head
      have noQuote : isQuote c = false := by
        rcases Bool.eq_false_or_eq_true (isQuote c) with quote | other
        · rcases quote_cases quote with rfl | rfl <;> cases blank
        · exact other
      have tokens : tokensOf (.blank c :: items) = tokensOf items := rfl
      have splits (word : Text) : lexSpaced word (render (.blank c :: items)) =
          [word].filter (· ≠ []) ++ lexSpaced [] (render items) := by
        rw [render_cons, Item.spelling, List.cons_append, lexSpaced, if_neg (by simp [noQuote]),
          if_pos blank, List.nil_append]
      refine ⟨?_, fun word nonempty _ => ?_⟩
      · rw [splits, fresh, tokens]
        simp
      · rw [splits, fresh, tokens]
        simp [nonempty]
    | token t painted =>
      have tokens : tokensOf (.token t painted :: items) = t :: tokensOf items := rfl
      have single {c : Char} (spelled : t.spelling = [c]) (splits : c = '(' ∨ c = ')' ∨ c = ',')
          (word : Text) : lexSpaced word (render (.token t painted :: items)) =
            [word].filter (· ≠ []) ++ (tokensOf (.token t painted :: items)).map Token.spelling := by
        rw [render_cons, Item.spelling, spelled, List.singleton_append, lexSpaced_single splits,
          fresh, tokens, List.map_cons, spelled]
      have whole (read : lexSpaced [] (t.spelling ++ render items) =
          lexSpaced ([] ++ t.spelling) (render items)) :
          lexSpaced [] (render (.token t painted :: items)) =
            (tokensOf (.token t painted :: items)).map Token.spelling := by
        rw [render_cons, Item.spelling, read, List.nil_append,
          pending _ (spelling_ne_nil spaced.head) spaced.soft, tokens, List.map_cons]
      constructor
      · cases t with
        | opening => exact single rfl (Or.inl rfl) []
        | closing => exact single rfl (Or.inr (Or.inl rfl)) []
        | comma => exact single rfl (Or.inr (Or.inr rfl)) []
        | name w =>
          apply whole
          apply lexSpaced_chars
          exact fun c member => identChar_facts (isWord_chars spaced.head c member)
        | other atoms =>
          have valid := spaced.head
          simp only [Item.valid, Token.valid, Bool.and_eq_true, List.all_eq_true] at valid
          exact whole (lexSpaced_atoms valid.1.2 [] _)
      · intro word nonempty soft
        rcases soft _ rfl with blank | comma
        · cases blank
        · cases comma
          rw [single rfl (Or.inr (Or.inr rfl))]
          simp [nonempty]

end ClaudeC99.Preprocessor
