import ClaudeC99.Peephole.Engine

/-! The assembly file as the peephole optimizer reads it and writes it back. -/

namespace ClaudeC99.Peephole

/-- `sizeof(buf)` in `read_lines`. -/
def bufSize : Nat := 4096

/-- What `fgets` takes from a file when `room` characters fit: it stops behind a newline. -/
def fgets : Nat → List Char → List Char × List Char
  | 0, file => ([], file)
  | _ + 1, [] => ([], [])
  | room + 1, c :: file =>
    if c = '\n' then ([c], file)
    else (c :: (fgets room file).1, (fgets room file).2)

theorem fgets_rest_le (room : Nat) (file : List Char) :
    (fgets room file).2.length ≤ file.length := by
  fun_induction fgets room file with
  | case1 | case2 => exact Nat.le_refl _
  | case3 => exact Nat.le_succ _
  | case4 room c file line ih => exact Nat.le_succ_of_le ih

/-- The string in `buf` without the newlines at its end. -/
def stripped (buf : List Char) : Line :=
  (buf.takeWhile (· ≠ '\x00')).rdropWhile fun c => c = '\n' ∨ c = '\r'

/-- `read_lines`. The null byte takes one character of the buffer. -/
def readLines : List Char → List Line
  | [] => []
  | c :: file =>
    let read := fgets (bufSize - 1) (c :: file)
    stripped read.1 :: readLines read.2
  termination_by file => file.length
  decreasing_by
    rw [show bufSize - 1 = 4094 + 1 from rfl, fgets]
    have rest := fgets_rest_le 4094 file
    split <;> simp only [List.length_cons] <;> omega

def writeLines (lines : List Line) : List Char := lines.flatMap fun line => line ++ ['\n']

/-- `peephole_run_file`: the file as it is written back. -/
def peepholeRunFile (patterns : List PeepholePattern) (file : List Char) : Option (List Char) :=
  (peepholeApplyInPlace patterns (readLines file)).map fun result => writeLines result.1

/-- What `read_lines` makes of one line. -/
def chunks (line : Line) : List Line :=
  if line.length < bufSize - 1 then [line]
  else line.take (bufSize - 1) :: chunks (line.drop (bufSize - 1))
  termination_by line.length
  decreasing_by
    simp only [List.length_drop, bufSize] at *
    omega

/-- A line without the bytes that end a line or a string. -/
def Plain (line : Line) : Prop := ∀ c ∈ line, c ≠ '\n' ∧ c ≠ '\r' ∧ c ≠ '\x00'

instance (line : Line) : Decidable (Plain line) := List.decidableBAll _ line

theorem Plain.take {line : Line} (plain : Plain line) (n : Nat) : Plain (line.take n) :=
  fun c member => plain c (List.mem_of_mem_take member)

theorem Plain.drop {line : Line} (plain : Plain line) (n : Nat) : Plain (line.drop n) :=
  fun c member => plain c (List.mem_of_mem_drop member)

theorem stripped_plain {line : Line} (plain : Plain line) : stripped line = line := by
  have whole : line.takeWhile (· ≠ '\x00') = line :=
    List.takeWhile_eq_self_iff.mpr fun c member => by simpa using (plain c member).2.2
  rw [stripped, whole, List.rdropWhile_eq_self_iff]
  intro nonempty ends
  have last := plain _ (List.getLast_mem nonempty)
  simp only [decide_eq_true_eq] at ends
  exact ends.elim last.1 last.2.1

theorem stripped_line {line : Line} (plain : Plain line) : stripped (line ++ ['\n']) = line := by
  have whole : (line ++ ['\n']).takeWhile (· ≠ '\x00') = line ++ ['\n'] := by
    apply List.takeWhile_eq_self_iff.mpr
    intro c member
    rcases List.mem_append.mp member with inside | newline
    · simpa using (plain c inside).2.2
    · obtain rfl := List.mem_singleton.mp newline
      rfl
  have rest := stripped_plain plain
  have here : line.takeWhile (· ≠ '\x00') = line :=
    List.takeWhile_eq_self_iff.mpr fun c member => by simpa using (plain c member).2.2
  rw [stripped, here] at rest
  rw [stripped, whole, List.rdropWhile_concat_pos _ _ _ (by simp), rest]

theorem fgets_line {line : Line} (plain : Plain line) {room : Nat} (fits : line.length < room)
    (file : List Char) : fgets room (line ++ '\n' :: file) = (line ++ ['\n'], file) := by
  induction line generalizing room with
  | nil =>
    cases room with
    | zero => cases fits
    | succ room => rfl
  | cons c line ih =>
    cases room with
    | zero => cases fits
    | succ room =>
      have inside := ih (fun d member => plain d (List.mem_cons_of_mem c member))
        (Nat.lt_of_succ_lt_succ fits)
      rw [List.cons_append, fgets, if_neg (plain c List.mem_cons_self).1, inside]
      rfl

theorem fgets_full {line : Line} (plain : Plain line) {room : Nat} (full : room ≤ line.length)
    (file : List Char) : fgets room (line ++ file) = (line.take room, line.drop room ++ file) := by
  induction line generalizing room with
  | nil =>
    obtain rfl := Nat.le_zero.mp full
    simp [fgets]
  | cons c line ih =>
    cases room with
    | zero => simp [fgets]
    | succ room =>
      have inside := ih (fun d member => plain d (List.mem_cons_of_mem c member))
        (Nat.le_of_succ_le_succ full)
      rw [List.cons_append, fgets, if_neg (plain c List.mem_cons_self).1, inside]
      rfl

theorem readLines_cons {file : List Char} (more : file ≠ []) :
    readLines file =
      stripped (fgets (bufSize - 1) file).1 :: readLines (fgets (bufSize - 1) file).2 := by
  cases file with
  | nil => exact absurd rfl more
  | cons c file => rw [readLines]

theorem readLines_line {line : Line} (plain : Plain line) (file : List Char) :
    readLines (line ++ '\n' :: file) = chunks line ++ readLines file := by
  fun_induction chunks line with
  | case1 line short =>
    rw [readLines_cons (by simp), fgets_line plain short, stripped_line plain]
    rfl
  | case2 line long ih =>
    have full := Nat.le_of_not_lt long
    rw [readLines_cons (by simp), fgets_full plain full, stripped_plain (plain.take _),
      ih (plain.drop _)]
    rfl

/-- The lines that the optimizer works on. -/
theorem readLines_writeLines {lines : List Line} (plain : ∀ line ∈ lines, Plain line) :
    readLines (writeLines lines) = lines.flatMap chunks := by
  induction lines with
  | nil => rw [writeLines, List.flatMap_nil, readLines, List.flatMap_nil]
  | cons line lines ih =>
    have later := ih fun l member => plain l (List.mem_cons_of_mem line member)
    have first := readLines_line (plain line List.mem_cons_self) (writeLines lines)
    rw [List.flatMap_cons, ← later, ← first]
    simp [writeLines]

theorem writeLines_cons_length (line : Line) (lines : List Line) :
    (writeLines (line :: lines)).length = line.length + 1 + (writeLines lines).length := by
  have here : writeLines (line :: lines) = line ++ ['\n'] ++ writeLines lines := rfl
  rw [here, List.length_append, List.length_append, List.length_singleton]

theorem writeLines_length (lines : List Line) :
    (writeLines lines).length = lines.flatten.length + lines.length := by
  induction lines with
  | nil => rfl
  | cons line lines ih =>
    rw [writeLines_cons_length, ih, List.flatten_cons, List.length_append, List.length_cons]
    omega

/-- The chunks of a line are the line. -/
theorem chunks_flatten (line : Line) : (chunks line).flatten = line := by
  fun_induction chunks line with
  | case1 line short => simp
  | case2 line long ih => rw [List.flatten_cons, ih, List.take_append_drop]

theorem chunks_short {line : Line} (short : line.length < bufSize - 1) : chunks line = [line] := by
  rw [chunks, if_pos short]

theorem one_le_chunks (line : Line) : 1 ≤ (chunks line).length := by
  rw [chunks]
  split <;> simp

/-- A line that fills the buffer is torn. -/
theorem two_le_chunks {line : Line} (long : ¬ line.length < bufSize - 1) :
    2 ≤ (chunks line).length := by
  have more := one_le_chunks (line.drop (bufSize - 1))
  rw [chunks, if_neg long, List.length_cons]
  omega

theorem length_chunks (line : Line) :
    (writeLines (chunks line)).length = line.length + (chunks line).length := by
  rw [writeLines_length, chunks_flatten]

/-- Every tear adds a newline to the file. -/
theorem length_le_chunks (lines : List Line) :
    (writeLines lines).length ≤ (writeLines (lines.flatMap chunks)).length ∧
      ((writeLines (lines.flatMap chunks)).length = (writeLines lines).length →
        ∀ line ∈ lines, line.length < bufSize - 1) := by
  induction lines with
  | nil => simp
  | cons line lines ih =>
    have torn : writeLines ((line :: lines).flatMap chunks) =
        writeLines (chunks line) ++ writeLines (lines.flatMap chunks) := List.flatMap_append
    have written : writeLines (line :: lines) = line ++ ['\n'] ++ writeLines lines := rfl
    have count := length_chunks line
    have least := one_le_chunks line
    have fewer := ih.1
    rw [torn, written]
    simp only [List.length_append, List.length_singleton]
    refine ⟨by omega, fun same l member => ?_⟩
    have short : line.length < bufSize - 1 := by
      by_contra long
      have more := two_le_chunks long
      omega
    rcases List.mem_cons.mp member with rfl | member
    · exact short
    · have one : (chunks line).length = 1 := by rw [chunks_short short, List.length_singleton]
      exact ih.2 (by omega) l member

theorem firstMatch_quiet {patterns : List PeepholePattern}
    (quiet : ∀ p ∈ patterns, ∀ window, p.matcher window = false) (lines : List Line) :
    firstMatch patterns lines = none := by
  apply List.find?_eq_none.mpr
  intro p member
  simp [quiet p member]

theorem applyLoop_quiet {patterns : List PeepholePattern}
    (quiet : ∀ p ∈ patterns, ∀ window, p.matcher window = false) (before rest : List Line) :
    applyLoop patterns (before ++ rest) (before ++ rest).length before.length =
      some (before ++ rest, (before ++ rest).length) := by
  induction rest generalizing before with
  | nil => rw [applyLoop, dif_neg (by simp)]
  | cons line rest ih =>
    rw [applyLoop_keeps (firstMatch_quiet quiet _), ih]
    simp

/-- Without a match the file is read and written back. -/
theorem runFile_quiet {patterns : List PeepholePattern}
    (quiet : ∀ p ∈ patterns, ∀ window, p.matcher window = false) (file : List Char) :
    peepholeRunFile patterns file = some (writeLines (readLines file)) := by
  have kept := applyLoop_quiet quiet [] (readLines file)
  rw [List.nil_append, List.length_nil] at kept
  unfold peepholeRunFile peepholeApplyInPlace
  split
  · rfl
  · rw [kept]
    rfl

/-- The file is written back unchanged when no line fills the buffer, and only then. -/
theorem runFile_unchanged_iff {patterns : List PeepholePattern}
    (quiet : ∀ p ∈ patterns, ∀ window, p.matcher window = false) {lines : List Line}
    (plain : ∀ line ∈ lines, Plain line) :
    peepholeRunFile patterns (writeLines lines) = some (writeLines lines) ↔
      ∀ line ∈ lines, line.length < bufSize - 1 := by
  rw [runFile_quiet quiet, readLines_writeLines plain, Option.some.injEq]
  constructor
  · intro same
    exact (length_le_chunks lines).2 (congrArg List.length same)
  · intro short
    have whole : lines.flatMap chunks = lines.flatMap fun line => [line] :=
      List.flatMap_congr fun line member => chunks_short (short line member)
    rw [whole, List.flatMap_singleton']

theorem short_lines_unchanged :
    peepholeRunFile [] (writeLines ["mov eax, 0".toList, "ret".toList]) =
        some (writeLines ["mov eax, 0".toList, "ret".toList]) ↔
      ∀ line ∈ ["mov eax, 0".toList, "ret".toList], line.length < bufSize - 1 :=
  runFile_unchanged_iff (by simp) (by decide)

/-- A line of 4095 characters gets an empty line behind it. -/
theorem long_line_torn :
    Plain (List.replicate 4095 'a') ∧
      peepholeRunFile [] (writeLines [List.replicate 4095 'a']) =
        some (writeLines [List.replicate 4095 'a', []]) ∧
      writeLines [List.replicate 4095 'a', []] ≠ writeLines [List.replicate 4095 'a'] := by
  have plain : Plain (List.replicate 4095 'a') := by
    intro c member
    obtain rfl := List.eq_of_mem_replicate member
    decide
  have full : (List.replicate 4095 'a').length = bufSize - 1 := List.length_replicate
  have torn : chunks (List.replicate 4095 'a') = [List.replicate 4095 'a', []] := by
    rw [chunks, if_neg (by rw [full]; exact Nat.lt_irrefl _), ← full, List.take_length,
      List.drop_length, chunks_short (by decide)]
  refine ⟨plain, ?_, fun same => ?_⟩
  · have alone : ∀ line ∈ [List.replicate 4095 'a'], Plain line := by
      intro line member
      rw [List.mem_singleton.mp member]
      exact plain
    rw [runFile_quiet (by simp), readLines_writeLines alone, List.flatMap_cons, torn]
    rfl
  · have count := congrArg List.length same
    rw [writeLines_cons_length, writeLines_cons_length, writeLines_cons_length] at count
    omega

end ClaudeC99.Peephole
