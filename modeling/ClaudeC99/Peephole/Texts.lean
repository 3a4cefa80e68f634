import ClaudeC99.Peephole.Machine

/-! The meaning of the lines that the patterns match and of those they write; where labels are. -/

namespace ClaudeC99.Peephole

open X86 (Operand)

theorem after_append (start : String) (line : Line) :
    after start (start.toList ++ line) = some line := by
  simp [after]

theorem eq_of_after {start : String} {line rest : Line} (h : after start line = some rest) :
    line = start.toList ++ rest := by
  simp only [after] at h
  split at h
  next h_start =>
    cases h
    exact (List.prefix_iff_eq_append.mp (List.isPrefixOf_iff_prefix.mp h_start)).symm
  · cases h

/-! ### Blanks in front -/

theorem blank_of_mem_copyIndentation {size : Nat} {line : Line} {c : Char}
    (h : c ∈ copyIndentation size line) : isBlank c := by
  have h_mem : c ∈ indentation line := by
    rw [copyIndentation] at h
    split at h
    · exact List.mem_of_mem_take h
    · exact h
  exact List.mem_takeWhile_imp h_mem

theorem skipBlanks_append {blanks text : Line} (h_blanks : ∀ c ∈ blanks, isBlank c)
    (h_text : text.head?.any isBlank = false) : skipBlanks (blanks ++ text) = text := by
  rw [skipBlanks, List.dropWhile_append_of_pos h_blanks]
  cases text with
  | nil => rfl
  | cons c rest =>
    have h_c : isBlank c = false := by simpa using h_text
    rw [List.dropWhile_cons_of_neg (by simp [h_c])]

theorem skipBlanks_xorLine (line : Line) (reg : String) :
    skipBlanks (xorLine line reg) =
      "xor ".toList ++ (reg.toList ++ (", ".toList ++ reg.toList)) :=
  skipBlanks_append (fun _ => blank_of_mem_copyIndentation) rfl

theorem skipBlanks_movLine (line dst src : Line) :
    skipBlanks (movLine line dst src) = "mov ".toList ++ (dst ++ (", ".toList ++ src)) :=
  skipBlanks_append (fun _ => blank_of_mem_copyIndentation) rfl

/-! ### Lines that define no label -/

/-- A word with a blank behind it. -/
structure Mnemonic (word : Line) : Prop where
  label_chars : ∀ c ∈ word, isLabelChar c
  nonempty : word ≠ []

theorem mnemonic_mov : Mnemonic "mov".toList :=
  ⟨List.all_eq_true.mp (by decide), by decide⟩

theorem mnemonic_xor : Mnemonic "xor".toList :=
  ⟨List.all_eq_true.mp (by decide), by decide⟩

theorem mnemonic_push : Mnemonic "push".toList :=
  ⟨List.all_eq_true.mp (by decide), by decide⟩

theorem mnemonic_pop : Mnemonic "pop".toList :=
  ⟨List.all_eq_true.mp (by decide), by decide⟩

theorem mnemonic_jmp : Mnemonic "jmp".toList :=
  ⟨List.all_eq_true.mp (by decide), by decide⟩

theorem not_labelChar_of_blank {c : Char} (h : isBlank c) : isLabelChar c = false := by
  have h_cases : c = ' ' ∨ c = '\t' := by simpa [isBlank] using h
  rcases h_cases with h | h <;> rw [h] <;> decide

theorem not_blank_of_labelChar {c : Char} (h : isLabelChar c) : isBlank c = false := by
  cases h_blank : isBlank c with
  | false => rfl
  | true =>
    rw [not_labelChar_of_blank h_blank] at h
    cases h

theorem labelOf_mnemonic {word line rest : Line} {c : Char} (h_word : Mnemonic word)
    (h_blank : isBlank c) (h_line : skipBlanks line = word ++ c :: rest) :
    labelOf line = none := by
  have h_c := not_labelChar_of_blank h_blank
  have h_name : (word ++ c :: rest).takeWhile isLabelChar = word := by
    rw [List.takeWhile_append_of_pos h_word.label_chars,
      List.takeWhile_cons_of_neg (by simp [h_c]), List.append_nil]
  have h_colon : c ≠ ':' := by
    rintro h_eq
    rw [h_eq] at h_blank
    revert h_blank
    decide
  simp [labelOf, h_line, h_name, h_colon]

/-- A line that begins with a mnemonic, cut anywhere, defines no label. -/
theorem labelOf_take {word blanks rest : Line} {c : Char} (h_word : Mnemonic word)
    (h_blank : isBlank c) (h_blanks : ∀ c ∈ blanks, isBlank c) (n : Nat) :
    labelOf ((blanks ++ (word ++ c :: rest)).take n) = none := by
  rw [List.take_append]
  have h_front : ∀ c ∈ blanks.take n, isBlank c := fun c h => h_blanks c (List.mem_of_mem_take h)
  generalize n - blanks.length = m
  by_cases h_short : m ≤ word.length
  · have h_cut : (word ++ c :: rest).take m = word.take m := List.take_append_of_le_length h_short
    have h_chars : ∀ c ∈ word.take m, isLabelChar c := fun c h =>
      h_word.label_chars c (List.mem_of_mem_take h)
    have h_head : (word.take m).head?.any isBlank = false := by
      cases h_take : word.take m with
      | nil => rfl
      | cons d tail =>
        have h_d := h_chars d (by rw [h_take]; exact List.mem_cons_self)
        simpa using not_blank_of_labelChar h_d
    have h_name : (word.take m).takeWhile isLabelChar = word.take m :=
      List.takeWhile_eq_self_iff.mpr h_chars
    rw [h_cut, labelOf, skipBlanks_append h_front h_head, h_name]
    simp
  · have h_long : (word ++ c :: rest).take m = word ++ c :: rest.take (m - word.length - 1) := by
      obtain ⟨j, h_j⟩ : ∃ j, m = word.length + (j + 1) := ⟨m - word.length - 1, by omega⟩
      rw [h_j, List.take_length_add_append, List.take_succ_cons]
      simp
    rw [h_long]
    apply labelOf_mnemonic h_word h_blank
    apply skipBlanks_append h_front
    cases word with
    | nil => exact absurd rfl h_word.nonempty
    | cons d tail => simpa using not_blank_of_labelChar (h_word.label_chars d List.mem_cons_self)

theorem labelOf_of_after_mov {line rest : Line} (h : after "mov " (skipBlanks line) = some rest) :
    labelOf line = none := by
  have h_line : skipBlanks line = "mov".toList ++ ' ' :: rest := (eq_of_after h).trans rfl
  exact labelOf_mnemonic mnemonic_mov rfl h_line

theorem labelOf_of_after_push {line rest : Line}
    (h : after "push " (skipBlanks line) = some rest) : labelOf line = none := by
  have h_line : skipBlanks line = "push".toList ++ ' ' :: rest := (eq_of_after h).trans rfl
  exact labelOf_mnemonic mnemonic_push rfl h_line

theorem labelOf_of_after_pop {line rest : Line} (h : after "pop " (skipBlanks line) = some rest) :
    labelOf line = none := by
  have h_line : skipBlanks line = "pop".toList ++ ' ' :: rest := (eq_of_after h).trans rfl
  exact labelOf_mnemonic mnemonic_pop rfl h_line

theorem labelOf_of_after_jmp {line rest : Line} (h : after "jmp" (skipBlanks line) = some rest)
    (h_blank : rest.head?.any isBlank) : labelOf line = none := by
  cases rest with
  | nil => cases h_blank
  | cons c tail => exact labelOf_mnemonic mnemonic_jmp (by simpa using h_blank) (eq_of_after h)

/-! ### What the patterns match -/

theorem matcher_of_firstMatch {lines : List Line} {p : PeepholePattern}
    (h : firstMatch builtinPatterns lines = some p) : p.matcher (lines.take p.windowSize) := by
  have h_holds := List.find?_some h
  simp only [decide_eq_true_eq] at h_holds
  exact h_holds.2

theorem after_of_zrFindReg {line : Line} {reg : String} (h : zrFindReg line = some reg) :
    ∃ r ∈ zeroRegs, r.2 = reg ∧
      after "mov " (skipBlanks line) = some (r.1.toList ++ ", 0".toList) := by
  simp only [zrFindReg, Option.bind_eq_bind, Option.bind_eq_some_iff] at h
  obtain ⟨p, h_after, r, h_find, h_reg⟩ := h
  have h_p : p = r.1.toList ++ ", 0".toList := by simpa using List.find?_some h_find
  exact ⟨r, List.mem_of_find?_eq_some h_find, Option.some.inj h_reg, by rw [h_after, h_p]⟩

theorem after_of_matchNopMove {line : Line} (h : matchNopMove line) :
    ∃ rest, after "mov " (skipBlanks line) = some rest := by
  rw [matchNopMove] at h
  split at h
  · cases h
  next rest h_after => exact ⟨rest, h_after⟩

theorem after_of_ppExtractReg {mnemonic : String} {size : Nat} {line reg : Line}
    (h : ppExtractReg mnemonic size line = some reg) :
    after mnemonic (skipBlanks line) = some reg := by
  rw [ppExtractReg] at h
  split at h
  · cases h
  next rest h_after =>
    split at h
    · cases h
    · rw [h_after, h]

theorem after_of_ppParseStoreRbp {line : Line} {stored : Line × Line}
    (h : ppParseStoreRbp line = some stored) :
    ∃ rest, after "mov " (skipBlanks line) = some rest := by
  simp only [ppParseStoreRbp, Option.bind_eq_bind, Option.bind_eq_some_iff] at h
  obtain ⟨rest, h_after, -⟩ := h
  exact ⟨rest, h_after⟩

theorem after_of_ppParseReloadRbp {line : Line} {loaded : Line × Line}
    (h : ppParseReloadRbp line = some loaded) :
    ∃ rest, after "mov " (skipBlanks line) = some rest := by
  simp only [ppParseReloadRbp, Option.bind_eq_bind, Option.bind_eq_some_iff] at h
  obtain ⟨rest, h_after, -⟩ := h
  exact ⟨rest, h_after⟩

theorem labelOf_of_ppParseJmpLabel {line target : Line}
    (h : ppParseJmpLabel line = some target) : labelOf line = none := by
  simp only [ppParseJmpLabel, Option.bind_eq_bind, Option.bind_eq_some_iff] at h
  obtain ⟨rest, h_after, h⟩ := h
  split at h
  · cases h
  next h_blank => exact labelOf_of_after_jmp h_after (by simpa using h_blank)

/-- The windows of each pattern, by their lines. -/
theorem zeroReg_window {line : Line} (h : zeroReg.matcher [line]) :
    ∃ reg, zrFindReg line = some reg ∧ labelOf line = none := by
  obtain ⟨reg, h_reg⟩ := Option.isSome_iff_exists.mp h
  obtain ⟨r, -, -, h_after⟩ := after_of_zrFindReg h_reg
  exact ⟨reg, h_reg, labelOf_of_after_mov h_after⟩

theorem nopMove_window {line : Line} (h : nopMove.matcher [line]) : labelOf line = none := by
  obtain ⟨rest, h_after⟩ := after_of_matchNopMove h
  exact labelOf_of_after_mov h_after

theorem pushPop_window {first second : Line} (h : pushPop.matcher [first, second]) :
    ∃ r₀ r₁, ppExtractReg "push " 32 first = some r₀ ∧ ppExtractReg "pop " 32 second = some r₁ ∧
      labelOf first = none ∧ labelOf second = none := by
  have h_both := Bool.and_eq_true_iff.mp h
  obtain ⟨r₀, h_first⟩ := Option.isSome_iff_exists.mp h_both.1
  obtain ⟨r₁, h_second⟩ := Option.isSome_iff_exists.mp h_both.2
  exact ⟨r₀, r₁, h_first, h_second, labelOf_of_after_push (after_of_ppExtractReg h_first),
    labelOf_of_after_pop (after_of_ppExtractReg h_second)⟩

theorem redundantReload_window {first second : Line}
    (h : redundantReload.matcher [first, second]) :
    labelOf first = none ∧ labelOf second = none := by
  simp only [redundantReload] at h
  split at h
  next stored loaded h_first h_second =>
    obtain ⟨rest, h_after⟩ := after_of_ppParseStoreRbp h_first
    obtain ⟨rest', h_after'⟩ := after_of_ppParseReloadRbp h_second
    exact ⟨labelOf_of_after_mov h_after, labelOf_of_after_mov h_after'⟩
  · cases h

theorem redundantStore_window {first second : Line}
    (h : redundantStore.matcher [first, second]) :
    labelOf first = none ∧ labelOf second = none := by
  simp only [redundantStore] at h
  split at h
  next h_first h_second =>
    obtain ⟨rest, h_after⟩ := after_of_ppParseStoreRbp h_first
    obtain ⟨rest', h_after'⟩ := after_of_ppParseStoreRbp h_second
    exact ⟨labelOf_of_after_mov h_after, labelOf_of_after_mov h_after'⟩
  · cases h

theorem deadJump_window {first second : Line} (h : deadJump.matcher [first, second]) :
    labelOf first = none := by
  simp only [deadJump] at h
  split at h
  next h_first h_second => exact labelOf_of_ppParseJmpLabel h_first
  · cases h

/-- The first line of a window is never a label. -/
theorem labelOf_of_firstMatch {line : Line} {rest : List Line} {p : PeepholePattern}
    (h : firstMatch builtinPatterns (line :: rest) = some p) : labelOf line = none := by
  have h_matcher := matcher_of_firstMatch h
  have h_size : p.windowSize ≤ (line :: rest).length := by
    have h_holds := List.find?_some h
    simp only [decide_eq_true_eq] at h_holds
    exact h_holds.1
  have h_mem : p ∈ builtinPatterns := List.mem_of_find?_eq_some h
  simp only [builtinPatterns, List.mem_cons, List.not_mem_nil, or_false] at h_mem
  rcases h_mem with h | h | h | h | h | h <;> rw [h] at h_matcher h_size
  · exact (zeroReg_window h_matcher).choose_spec.2
  · exact nopMove_window h_matcher
  all_goals
    cases rest with
    | nil =>
      exact absurd h_size (Nat.not_succ_le_self 1)
    | cons second rest =>
      first
        | exact (pushPop_window h_matcher).choose_spec.choose_spec.2.2.1
        | exact (redundantReload_window h_matcher).1
        | exact (redundantStore_window h_matcher).1
        | exact deadJump_window h_matcher

end ClaudeC99.Peephole
