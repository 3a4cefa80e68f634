import ClaudeC99.Lib.Slots
import ClaudeC99.Peephole.Patterns

/-! The sliding window engine as it works on the array of lines. -/

namespace ClaudeC99.Peephole

/-- `PEEPHOLE_WINDOW_MAX`, the length of `out_buf`. -/
def windowMax : Nat := 4

/-- The window of `w` lines from line `i` on. -/
def windowAt (lines : List Line) (i w : Nat) : List Line := (lines.drop i).take w

/-- The loop over the pattern table, which stops at the first pattern that fits and matches. -/
def matchAt (patterns : List PeepholePattern) (lines : List Line) (nlines i : Nat) :
    Option PeepholePattern :=
  patterns.find? fun p => i + p.windowSize ≤ nlines ∧ p.matcher (windowAt lines i p.windowSize)

/-- The new array: the lines before the window, the replacement, and the lines after the window
shifted by `delta`. -/
def rebuild (lines : List Line) (nlines i w : Nat) (out : List Line) : Option (List Line) :=
  let delta : Int := out.length - w
  let newLines := Slots.fresh Line (nlines + delta)
  (Slots.copy lines 0 i 0 newLines).bind fun newLines =>
    (Slots.copy out i out.length 0 newLines).bind fun newLines =>
      (Slots.copy lines delta nlines (i + w) newLines).bind Slots.contents

/-- The loop from line `i` on, with the array and its length. There is no result where a write
misses an array or an entry stays unwritten. -/
def applyLoop (patterns : List PeepholePattern) (lines : List Line) (nlines i : Nat) :
    Option (List Line × Nat) :=
  if _more : i < nlines then
    match _fires : matchAt patterns lines nlines i with
    | none => applyLoop patterns lines nlines (i + 1)
    | some p =>
      let out := p.replacer (windowAt lines i p.windowSize)
      if windowMax < out.length then none
      else
        (rebuild lines nlines i p.windowSize out).bind fun newLines =>
          applyLoop patterns newLines (nlines + out.length - p.windowSize) (i + out.length)
  else some (lines, nlines)
  termination_by nlines - i
  decreasing_by
    · omega
    · have fits := List.find?_some _fires
      have positive := p.windowSize_pos
      simp only [decide_eq_true_eq] at fits
      omega

/-- `peephole_apply`, which returns at once where there are no patterns. -/
def peepholeApplyInPlace (patterns : List PeepholePattern) (lines : List Line) :
    Option (List Line × Nat) :=
  if patterns = [] then some (lines, lines.length) else applyLoop patterns lines lines.length 0

/-! The pass that the engine makes. -/

/-- A stretch of the input with what becomes of it. -/
inductive Piece
  | kept (line : Line)
  | rewritten (p : PeepholePattern) (window : List Line)

def Piece.input : Piece → List Line
  | kept line => [line]
  | rewritten _ window => window

def Piece.output : Piece → List Line
  | kept line => [line]
  | rewritten p window => p.replacer window

/-- At the first line that is left, either the first pattern that matches there rewrites its window,
or no pattern matches and the line is kept. -/
inductive Pass (patterns : List PeepholePattern) : List Line → List Piece → Prop
  | done : Pass patterns [] []
  | keep {line : Line} {rest : List Line} {pieces : List Piece}
      (quiet : firstMatch patterns (line :: rest) = none) (later : Pass patterns rest pieces) :
      Pass patterns (line :: rest) (.kept line :: pieces)
  | rewrite {window rest : List Line} {p : PeepholePattern} {pieces : List Piece}
      (fires : firstMatch patterns (window ++ rest) = some p)
      (size : window.length = p.windowSize) (later : Pass patterns rest pieces) :
      Pass patterns (window ++ rest) (.rewritten p window :: pieces)

section Pass

variable {patterns : List PeepholePattern}

theorem firstMatch_some {lines : List Line} {p : PeepholePattern}
    (fires : firstMatch patterns lines = some p) :
    p ∈ patterns ∧ p.windowSize ≤ lines.length ∧ p.matcher (lines.take p.windowSize) = true := by
  have holds := List.find?_some fires
  simp only [decide_eq_true_eq] at holds
  exact ⟨List.mem_of_find?_eq_some fires, holds⟩

/-- No line is lost or duplicated. -/
theorem Pass.input {lines : List Line} {pieces : List Piece} (pass : Pass patterns lines pieces) :
    pieces.flatMap Piece.input = lines := by
  induction pass with
  | done => rfl
  | keep _ _ ih => rw [List.flatMap_cons, ih, Piece.input, List.singleton_append]
  | rewrite _ _ _ ih => rw [List.flatMap_cons, ih, Piece.input]

theorem Pass.output {lines : List Line} {pieces : List Piece} (pass : Pass patterns lines pieces) :
    pieces.flatMap Piece.output = peepholeApply patterns lines := by
  induction pass with
  | done => rw [peepholeApply, List.flatMap_nil]
  | keep quiet _ ih =>
    rw [List.flatMap_cons, ih, Piece.output, List.singleton_append, peepholeApply, quiet]
  | @rewrite window rest p pieces fires size _ ih =>
    cases window with
    | nil =>
      have positive := p.windowSize_pos
      rw [List.length_nil] at size
      omega
    | cons line window =>
      rw [List.flatMap_cons, ih, Piece.output, List.cons_append, peepholeApply, ← List.cons_append,
        fires]
      simp only [List.take_left' size, List.drop_left' size]

theorem exists_pass (patterns : List PeepholePattern) (lines : List Line) :
    ∃ pieces, Pass patterns lines pieces := by
  fun_induction peepholeApply patterns lines with
  | case1 => exact ⟨[], .done⟩
  | case2 line rest p fires ih =>
    obtain ⟨pieces, later⟩ := ih
    have fits := (firstMatch_some fires).2.1
    have whole := List.take_append_drop p.windowSize (line :: rest)
    refine ⟨.rewritten p ((line :: rest).take p.windowSize) :: pieces, ?_⟩
    rw [← whole] at fires
    have pass := Pass.rewrite fires (by rw [List.length_take]; omega) later
    rwa [whole] at pass
  | case3 line rest quiet ih =>
    obtain ⟨pieces, later⟩ := ih
    exact ⟨.kept line :: pieces, .keep quiet later⟩

/-- A table whose patterns look at no more lines than a window holds, and never make more lines of
them. -/
structure Bounded (patterns : List PeepholePattern) : Prop where
  window : ∀ p ∈ patterns, p.windowSize ≤ windowMax
  shrinks : ∀ p ∈ patterns, ∀ window : List Line, window.length = p.windowSize →
    p.matcher window = true → (p.replacer window).length ≤ p.windowSize

theorem Pass.length_le {lines : List Line} {pieces : List Piece}
    (pass : Pass patterns lines pieces) (bounded : Bounded patterns) :
    (pieces.flatMap Piece.output).length ≤ lines.length := by
  induction pass with
  | done => exact Nat.le_refl 0
  | keep _ _ ih =>
    rw [List.flatMap_cons, List.length_append]
    simp only [Piece.output, List.length_cons, List.length_nil]
    omega
  | @rewrite window rest p pieces fires size _ ih =>
    have found := firstMatch_some fires
    rw [List.take_left' size] at found
    have fewer := bounded.shrinks p found.1 window size found.2.2
    rw [List.flatMap_cons, List.length_append, List.length_append]
    simp only [Piece.output]
    omega

end Pass

/-! The array after a rewrite, and after the loop. -/

theorem windowAt_append {before lines : List Line} {i : Nat} (start : before.length = i) (w : Nat) :
    windowAt (before ++ lines) i w = lines.take w := by
  rw [windowAt, List.drop_left' start]

theorem matchAt_append (patterns : List PeepholePattern) (before lines : List Line) :
    matchAt patterns (before ++ lines) (before ++ lines).length before.length =
      firstMatch patterns lines := by
  have fits (p : PeepholePattern) :
      before.length + p.windowSize ≤ (before ++ lines).length ↔ p.windowSize ≤ lines.length := by
    rw [List.length_append]
    omega
  unfold matchAt firstMatch
  simp only [fits, windowAt_append rfl]

theorem rebuild_append {before window after : List Line} {nlines i w : Nat} (out : List Line)
    (start : before.length = i) (size : window.length = w)
    (total : nlines = i + w + after.length) :
    rebuild (before ++ window ++ after) nlines i w out = some (before ++ out ++ after) := by
  have count : (nlines : Int) + (out.length - w) = (i + out.length + after.length : Nat) := by
    omega
  have parts : Slots.fresh Line (nlines + (out.length - w)) =
      [] ++ Slots.fresh Line i ++ (Slots.fresh Line out.length ++ Slots.fresh Line after.length) := by
    rw [count]
    simp only [Slots.fresh, Int.toNat_natCast, List.nil_append, List.replicate_add,
      List.append_assoc]
  have prefixed := Slots.copy_append [] before (window ++ after) [] (Slots.fresh Line i)
    (Slots.fresh Line out.length ++ Slots.fresh Line after.length)
    (by rfl : _ = 0) (by omega : i = 0 + before.length) (by rfl : _ = (0 : Nat) + (0 : Int))
    (by rw [Slots.fresh_length, start])
  have replaced := Slots.copy_append [] out [] (before.map some) (Slots.fresh Line out.length)
    (Slots.fresh Line after.length)
    (by rfl : _ = 0) (by omega : out.length = 0 + out.length)
    (by rw [List.length_map]; omega : _ = (0 : Nat) + (i : Int)) (Slots.fresh_length _)
  have shifted := Slots.copy_append (before ++ window) after [] (before.map some ++ out.map some)
    (Slots.fresh Line after.length) []
    (by rw [List.length_append, start, size] : _ = i + w) (by omega : nlines = _)
    (by simp only [List.length_append, List.length_map]; omega :
      _ = ((i + w : Nat) : Int) + ((out.length : Int) - w)) (Slots.fresh_length _)
  simp only [List.nil_append, List.append_nil, List.append_assoc] at prefixed replaced shifted parts
  simp only [rebuild, parts, List.append_assoc, prefixed, Option.bind_some, replaced, shifted,
    ← List.map_append, Slots.contents_map_some]

theorem applyLoop_keeps {patterns : List PeepholePattern} {before rest : List Line} {line : Line}
    (quiet : firstMatch patterns (line :: rest) = none) :
    applyLoop patterns (before ++ line :: rest) (before ++ line :: rest).length before.length =
      applyLoop patterns ((before ++ [line]) ++ rest) ((before ++ [line]) ++ rest).length
        (before ++ [line]).length := by
  have more : before.length < (before ++ line :: rest).length := by
    rw [List.length_append, List.length_cons]
    omega
  have scanned := matchAt_append patterns before (line :: rest)
  rw [quiet] at scanned
  have moved : (before ++ [line]).length = before.length + 1 := List.length_append
  rw [applyLoop, dif_pos more, List.append_assoc, List.singleton_append, moved]
  split
  · rfl
  · next p fires =>
    rw [scanned] at fires
    cases fires

theorem applyLoop_rewrites {patterns : List PeepholePattern} {before window rest : List Line}
    {p : PeepholePattern} (fires : firstMatch patterns (window ++ rest) = some p)
    (size : window.length = p.windowSize) (fits : (p.replacer window).length ≤ windowMax) :
    applyLoop patterns (before ++ (window ++ rest)) (before ++ (window ++ rest)).length
        before.length =
      applyLoop patterns ((before ++ p.replacer window) ++ rest)
        ((before ++ p.replacer window) ++ rest).length (before ++ p.replacer window).length := by
  have positive := p.windowSize_pos
  have more : before.length < (before ++ (window ++ rest)).length := by
    rw [List.length_append, List.length_append]
    omega
  have scanned := matchAt_append patterns before (window ++ rest)
  rw [fires] at scanned
  have total : (before ++ (window ++ rest)).length =
      before.length + p.windowSize + rest.length := by
    rw [List.length_append, List.length_append]
    omega
  have rebuilt := rebuild_append (p.replacer window) rfl size total
  rw [applyLoop, dif_pos more]
  split
  · next quiet =>
    rw [scanned] at quiet
    cases quiet
  · next q found =>
    rw [scanned] at found
    cases found
    have seen : windowAt (before ++ (window ++ rest)) before.length p.windowSize = window := by
      rw [windowAt_append rfl, List.take_left' size]
    have count : before.length + p.windowSize + rest.length + (p.replacer window).length -
        p.windowSize = (before ++ p.replacer window ++ rest).length := by
      rw [List.length_append, List.length_append]
      omega
    have moved : (before ++ p.replacer window).length =
        before.length + (p.replacer window).length := List.length_append
    simp only [seen, if_neg (Nat.not_lt.mpr fits), total]
    rw [← List.append_assoc before window rest]
    rw [total] at rebuilt
    rw [rebuilt, Option.bind_some, count, moved]

/-- A replacement that is longer than `out_buf`. -/
theorem applyLoop_overruns {patterns : List PeepholePattern} {line : Line} {rest : List Line}
    {p : PeepholePattern} (before : List Line)
    (fires : firstMatch patterns (line :: rest) = some p)
    (wide : windowMax < (p.replacer ((line :: rest).take p.windowSize)).length) :
    applyLoop patterns (before ++ line :: rest) (before ++ line :: rest).length before.length =
      none := by
  have more : before.length < (before ++ line :: rest).length := by
    rw [List.length_append, List.length_cons]
    omega
  have scanned := matchAt_append patterns before (line :: rest)
  rw [fires] at scanned
  rw [applyLoop, dif_pos more]
  split
  · next quiet =>
    rw [scanned] at quiet
    cases quiet
  · next q found =>
    rw [scanned] at found
    cases found
    simp only [windowAt_append rfl, if_pos wide]

/-- The loop has the array as the pass so far left it, and the rest of the input. -/
theorem applyLoop_pass {patterns : List PeepholePattern} (bounded : Bounded patterns)
    {lines : List Line} {pieces : List Piece} (pass : Pass patterns lines pieces)
    (before : List Line) :
    applyLoop patterns (before ++ lines) (before ++ lines).length before.length =
      some (before ++ pieces.flatMap Piece.output,
        (before ++ pieces.flatMap Piece.output).length) := by
  induction pass generalizing before with
  | done =>
    rw [applyLoop, dif_neg (by simp)]
    rfl
  | keep quiet later ih =>
    rw [applyLoop_keeps quiet, ih]
    simp [Piece.output]
  | @rewrite window rest p pieces fires size later ih =>
    have found := firstMatch_some fires
    rw [List.take_left' size] at found
    have fewer := bounded.shrinks p found.1 window size found.2.2
    have small := bounded.window p found.1
    rw [applyLoop_rewrites fires size (Nat.le_trans fewer small), ih]
    simp [Piece.output]

theorem pass_nil (lines : List Line) : peepholeApply [] lines = lines := by
  induction lines with
  | nil => rw [peepholeApply]
  | cons line lines ih =>
    rw [peepholeApply]
    simp only [firstMatch, List.find?_nil, ih]

theorem pushPop_shrinks (first second : Line) :
    (pushPop.replacer [first, second]).length ≤ 1 := by
  simp only [pushPop]
  split
  · split <;> simp
  · simp

theorem builtin_bounded : Bounded builtinPatterns where
  window := by decide
  shrinks := by
    intro p member window size _
    simp only [builtinPatterns, List.mem_cons, List.not_mem_nil, or_false] at member
    rcases member with rfl | rfl | rfl | rfl | rfl | rfl
    · obtain ⟨line, rfl⟩ := List.length_eq_one_iff.mp size
      simp [zeroReg]
    · exact Nat.zero_le 1
    · obtain ⟨first, second, rfl⟩ := List.length_eq_two.mp size
      exact Nat.le_succ_of_le (pushPop_shrinks first second)
    · exact Nat.le_trans (List.length_take_le' 1 window) (Nat.le_of_eq size)
    all_goals
      rw [← size]
      exact (List.drop_sublist 1 window).length_le

/-- The loop over the array ends, with the lines of the pass and their number. -/
theorem peepholeApplyInPlace_pass {patterns : List PeepholePattern} (bounded : Bounded patterns)
    (lines : List Line) :
    ∃ pieces, Pass patterns lines pieces ∧
      pieces.flatMap Piece.input = lines ∧
      peepholeApplyInPlace patterns lines =
        some (pieces.flatMap Piece.output, (pieces.flatMap Piece.output).length) ∧
      (pieces.flatMap Piece.output).length ≤ lines.length := by
  obtain ⟨pieces, pass⟩ := exists_pass patterns lines
  refine ⟨pieces, pass, pass.input, ?_, pass.length_le bounded⟩
  unfold peepholeApplyInPlace
  split
  · next none =>
    rw [pass.output, none, pass_nil]
  · exact applyLoop_pass bounded pass []

/-- A dead jump at the end of the file, behind a move that becomes `xor`. -/
theorem dead_jump_pass :
    Bounded builtinPatterns ∧
      ∃ pieces, Pass builtinPatterns
          ["mov eax, 0".toList, "ret".toList, "jmp L1".toList, "L1:".toList] pieces ∧
        pieces.flatMap Piece.input =
          ["mov eax, 0".toList, "ret".toList, "jmp L1".toList, "L1:".toList] ∧
        peepholeApplyInPlace builtinPatterns
            ["mov eax, 0".toList, "ret".toList, "jmp L1".toList, "L1:".toList] =
          some (pieces.flatMap Piece.output, (pieces.flatMap Piece.output).length) ∧
        (pieces.flatMap Piece.output).length ≤ 4 :=
  ⟨builtin_bounded, peepholeApplyInPlace_pass builtin_bounded _⟩

/-- A pattern whose window is longer than `out_buf`, and which leaves its lines as they are. -/
def wideWindow : PeepholePattern where
  windowSize := 5
  windowSize_pos := by decide
  matcher _ := true
  replacer window := window

/-- The lines of a window of five overrun `out_buf`. -/
theorem wide_window_overruns :
    (∀ window : List Line, window.length = wideWindow.windowSize →
        (wideWindow.replacer window).length ≤ wideWindow.windowSize) ∧
      peepholeApplyInPlace [wideWindow] (List.replicate 5 "ret".toList) = none ∧
      peepholeApply [wideWindow] (List.replicate 5 "ret".toList) =
        List.replicate 5 "ret".toList := by
  refine ⟨fun window size => Nat.le_of_eq size, ?_, ?_⟩
  · have fires : firstMatch [wideWindow] (List.replicate 5 "ret".toList) = some wideWindow := rfl
    rw [peepholeApplyInPlace, if_neg (by simp)]
    exact applyLoop_overruns [] fires (by decide)
  · rw [List.replicate_succ, peepholeApply]
    simp [firstMatch, wideWindow, peepholeApply]

end ClaudeC99.Peephole
