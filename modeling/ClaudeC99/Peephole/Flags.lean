import ClaudeC99.Peephole.Simulation

/-! Who reads the flags that an inserted `xor` writes. -/

namespace ClaudeC99.Peephole

open X86 (State Flags Slack Alike)

def conditionCodes : List String :=
  ["o", "no", "b", "c", "nae", "nb", "nc", "ae", "z", "e", "nz", "ne", "be", "na", "nbe", "a", "s",
    "ns", "p", "pe", "np", "po", "l", "nge", "nl", "ge", "le", "ng", "nle", "g"]

/-- Conditional jumps, `setcc`, `cmovcc`, and the instructions that take the carry in. -/
def flagReaders : List String :=
  conditionCodes.flatMap (fun cc => ["j" ++ cc, "set" ++ cc, "cmov" ++ cc]) ++
    ["adc", "sbb", "rcl", "rcr", "lahf", "pushf", "pushfq", "loope", "loopz", "loopne", "loopnz"]

/-- The first word of a line, behind its label. -/
def mnemonicOf (line : Line) : Line :=
  let text := skipBlanks line
  let instruction := (labelOf line).elim text fun name => skipBlanks (text.drop (name.length + 1))
  instruction.takeWhile fun c => !isBlank c

def readsFlags (line : Line) : Bool := flagReaders.any fun word => word.toList = mnemonicOf line

/-- What an instruction does to the flags: it sets all of them, or makes them of the old ones. -/
inductive FlagEffect
  | sets (flags : Flags)
  | changes (f : Flags → Flags)

def FlagEffect.flags (old : Flags) : FlagEffect → Flags
  | .sets flags => flags
  | .changes f => f old

def FlagEffect.isSets : FlagEffect → Bool
  | .sets _ => true
  | .changes _ => false

def withoutFlags (σ : State) : State := { σ with flags := ⟨false, false, false, false, false⟩ }

/-- What the lines do that the patterns are not about. Only those that read the flags depend on
them. -/
structure Instructions where
  reader : Others
  plain : Line → State → Option (State × FlagEffect × Option Line)

def Instructions.others (instructions : Instructions) : Others := fun line σ =>
  if readsFlags line then instructions.reader line σ
  else (instructions.plain line (withoutFlags σ)).map fun result =>
    ({ result.1 with flags := result.2.1.flags σ.flags }, result.2.2)

/-- The line sets all flags, whatever they were. -/
def setsFlags (instructions : Instructions) (line : Line) (σ : State) : Bool :=
  match decode line with
  | some (.clear _) => true
  | some _ => false
  | none => !readsFlags line &&
    (instructions.plain line (withoutFlags σ)).any fun result => result.2.1.isSets

/-- A line that the pass has gone over, and whether it is rewritten as a zero idiom. -/
structure Marked where
  line : Line
  zeroed : Bool
  deriving DecidableEq

def zeroLine (line : Line) : Line :=
  (zrFindReg line).elim line fun reg => (xorLine line reg).take 63

/-- The line of the rewritten program, or of the program before. -/
def Marked.text (rewritten : Bool) (m : Marked) : Line :=
  if rewritten && m.zeroed then zeroLine m.line else m.line

/-- The pattern table without the zero idiom: its lines are passed over. -/
def zeroStays : PeepholePattern := { zeroReg with replacer := fun window => window }

/-- The pass of `zeroReg` and the other patterns of the table. -/
def marked (table : List PeepholePattern) : List Line → List Marked
  | [] => []
  | line :: rest =>
    if (zrFindReg line).isSome then ⟨line, true⟩ :: marked table rest
    else match firstMatch table (line :: rest) with
      | some p =>
        ((p.replacer ((line :: rest).take p.windowSize)).map fun l => ⟨l, false⟩) ++
          marked table ((line :: rest).drop p.windowSize)
      | none => ⟨line, false⟩ :: marked table rest
  termination_by lines => lines.length
  decreasing_by
    · exact Nat.lt_succ_self _
    · have positive := p.windowSize_pos
      simp only [List.length_drop, List.length_cons]
      omega
    · exact Nat.lt_succ_self _

structure Traced where
  lines : List Marked
  state : State
  /-- The flags are those of an inserted `xor`. -/
  stale : Bool

section Tracing

variable (instructions : Instructions) (rewritten : Bool) (prog : List Marked)

def findMarked (name : Line) : Option (List Marked) :=
  match prog.dropWhile fun m => labelOf (m.text rewritten) ≠ some name with
  | [] => none
  | lines => some lines

def markedDestination (rest : List Marked) : Option Line → Option (List Marked)
  | none => some rest
  | some name => findMarked rewritten prog name

def staleAfter (m : Marked) (σ : State) (stale : Bool) : Bool :=
  m.zeroed || stale && !setsFlags instructions (m.text rewritten) σ

def tracedStep (c : Traced) : Option Traced :=
  match c.lines with
  | [] => none
  | m :: rest =>
    (perform instructions.others (m.text rewritten) c.state).bind fun result =>
      (markedDestination rewritten prog rest result.2).map fun lines =>
        ⟨lines, result.1, staleAfter instructions rewritten m c.state c.stale⟩

inductive TracedRun : Traced → List Line → Traced → Prop
  | refl (c : Traced) : TracedRun c [] c
  | step {c c' c'' : Traced} {path : List Line}
      (first : tracedStep instructions rewritten prog c = some c') (run : TracedRun c' path c'') :
      TracedRun c (pathOf (c.lines.map (Marked.text rewritten)) ++ path) c''

/-- The next line reads the flags of an inserted `xor`. -/
def StaleRead (c : Traced) : Prop :=
  c.stale = true ∧ ∃ m rest, c.lines = m :: rest ∧ decode (m.text rewritten) = none ∧
    readsFlags (m.text rewritten) = true

/-- No run from the state reads the flags of an inserted `xor`. -/
def FlagsSafe (σ : State) : Prop :=
  ∀ path c, TracedRun instructions rewritten prog ⟨prog, σ, false⟩ path c → ¬ StaleRead rewritten c

end Tracing

/-! ### The pass -/

section Passing

variable {table : List PeepholePattern} {line : Line} {rest : List Line}

theorem firstMatch_cons (p : PeepholePattern) (lines : List Line) :
    firstMatch (p :: table) lines =
      if p.windowSize ≤ lines.length ∧ p.matcher (lines.take p.windowSize) = true then some p
      else firstMatch table lines := by
  rw [firstMatch, List.find?_cons]
  by_cases h : p.windowSize ≤ lines.length ∧ p.matcher (lines.take p.windowSize) = true
  · simp [h]
  · simp only [h, decide_false, if_false]
    rfl

/-- Both versions of the first pattern fire where there is a zero idiom. -/
theorem firstMatch_zero {replacer : List Line → List Line} (line : Line) (rest : List Line) :
    firstMatch ({ zeroReg with replacer := replacer } :: table) (line :: rest) =
      if (zrFindReg line).isSome then some { zeroReg with replacer := replacer }
      else firstMatch table (line :: rest) := by
  rw [firstMatch_cons]
  have window : zeroReg.windowSize ≤ (line :: rest).length := Nat.succ_le_succ (Nat.zero_le _)
  simp only [window, true_and]
  rfl

theorem peepholeApply_zero {replacer : List Line → List Line} (found : (zrFindReg line).isSome) :
    peepholeApply ({ zeroReg with replacer := replacer } :: table) (line :: rest) =
      replacer [line] ++ peepholeApply ({ zeroReg with replacer := replacer } :: table) rest := by
  rw [peepholeApply, firstMatch_zero, if_pos found]
  rfl

theorem marked_text (rewritten : Bool) (table : List PeepholePattern) (lines : List Line) :
    (marked table lines).map (Marked.text rewritten) =
      peepholeApply ((if rewritten then zeroReg else zeroStays) :: table) lines := by
  have version : ∃ replacer : List Line → List Line,
      (if rewritten then zeroReg else zeroStays) = { zeroReg with replacer := replacer } ∧
        ∀ line, (zrFindReg line).isSome →
          replacer [line] = [Marked.text rewritten ⟨line, true⟩] := by
    cases rewritten with
    | false => exact ⟨_, rfl, fun line _ => rfl⟩
    | true =>
      refine ⟨zeroReg.replacer, rfl, fun line found => ?_⟩
      obtain ⟨reg, found⟩ := Option.isSome_iff_exists.mp found
      simp [zeroReg, Marked.text, zeroLine, found]
  obtain ⟨replacer, same, replaces⟩ := version
  rw [same]
  fun_induction marked table lines with
  | case1 => rw [peepholeApply, List.map_nil]
  | case2 line rest found ih =>
    rw [peepholeApply_zero found, replaces line found, List.map_cons, ih, List.singleton_append]
  | case3 line rest other p fires ih =>
    have plain (lines : List Line) :
        (lines.map fun l => (⟨l, false⟩ : Marked)).map (Marked.text rewritten) = lines := by
      rw [List.map_map]
      apply List.map_id''
      intro l
      simp [Marked.text]
    rw [peepholeApply, firstMatch_zero, if_neg other, fires, List.map_append, plain, ih]
  | case4 line rest other quiet ih =>
    rw [peepholeApply, firstMatch_zero, if_neg other, quiet, List.map_cons, ih]
    simp [Marked.text]

/-- Alone, the pattern that changes nothing is the identity. -/
theorem zeroStays_alone (lines : List Line) : peepholeApply [zeroStays] lines = lines := by
  induction lines with
  | nil => rw [peepholeApply]
  | cons line rest ih =>
    rw [peepholeApply, zeroStays, firstMatch_zero]
    split
    · next p fires =>
      split at fires
      · cases fires
        change [line] ++ peepholeApply [zeroStays] rest = _
        rw [ih, List.singleton_append]
      · cases fires
    · change line :: peepholeApply [zeroStays] rest = _
      rw [ih]

/-- The rewritten line is a whole `xor`. -/
def Marked.Fits (m : Marked) : Prop :=
  m.zeroed = true → ∃ reg, zrFindReg m.line = some reg ∧ (xorLine m.line reg).length ≤ 63

theorem marked_fits {lines : List Line}
    (fits : ∀ line ∈ lines, ∀ reg, zrFindReg line = some reg → (xorLine line reg).length ≤ 63) :
    ∀ m ∈ marked table lines, m.Fits := by
  fun_induction marked table lines with
  | case1 => simp
  | case2 line rest found ih =>
    obtain ⟨here, later⟩ := List.forall_mem_cons.mp fits
    refine List.forall_mem_cons.mpr ⟨fun _ => ?_, ih later⟩
    obtain ⟨reg, found⟩ := Option.isSome_iff_exists.mp found
    exact ⟨reg, found, here reg found⟩
  | case3 line rest other p fires ih =>
    intro m member
    rcases List.mem_append.mp member with here | later
    · obtain ⟨l, -, rfl⟩ := List.mem_map.mp here
      intro zeroed
      cases zeroed
    · exact ih (fun l inside => fits l (List.mem_of_mem_drop inside)) m later
  | case4 line rest other quiet ih =>
    obtain ⟨-, later⟩ := List.forall_mem_cons.mp fits
    refine List.forall_mem_cons.mpr ⟨?_, ih later⟩
    intro zeroed
    cases zeroed

end Passing

/-! ### Both programs side by side -/

/-- States that differ in the flags, if these are stale. -/
def flagSlack (stale : Bool) : Slack := ⟨stale, fun _ => False⟩

section Sides

variable {σ τ : State} {stale : Bool}

theorem Alike.mem_eq (alike : Alike (flagSlack stale) σ τ) : τ.mem = σ.mem := by
  funext a
  exact alike.mem a fun dirty => dirty

theorem flagSlack_iff :
    Alike (flagSlack stale) σ τ ↔ withoutFlags τ = withoutFlags σ ∧
      (stale = false → τ.flags = σ.flags) := by
  constructor
  · intro alike
    refine ⟨?_, alike.flags⟩
    rw [withoutFlags, withoutFlags, alike.reg, alike.xmm, Alike.mem_eq alike]
  · rintro ⟨same, flags⟩
    exact ⟨(congrArg State.reg same :), (congrArg State.xmm same :),
      fun a _ => (congrFun (congrArg State.mem same) a :), flags⟩

theorem eq_of_fresh (alike : Alike (flagSlack false) σ τ) : τ = σ := by
  obtain ⟨same, flags⟩ := flagSlack_iff.mp alike
  calc τ = { withoutFlags τ with flags := τ.flags } := rfl
    _ = { withoutFlags σ with flags := σ.flags } := by rw [same, flags rfl]

/-- What is done to both states does not make them differ, if the flags stay or become the same. -/
theorem Code.run_flagSlack (alike : Alike (flagSlack stale) σ τ) (code : Code) {line : Line}
    (decodes : decode line = some code) (instructions : Instructions) :
    Alike (flagSlack (stale && !setsFlags instructions line σ)) (code.run σ) (code.run τ) := by
  obtain ⟨reg, xmm, mem, flags⟩ := code.run_alike alike fun _ _ dirty => dirty
  refine ⟨reg, xmm, fun a _ => ?_, fun fresh => ?_⟩
  · apply mem
    intro dirty
    cases code with
    | store | push => exact dirty.1
    | _ => exact dirty
  · apply flags
    cases code with
    | clear d => rfl
    | _ => simpa [setsFlags, decodes, Code.slackAfter, flagSlack, Slack.wipe] using fresh

theorem setsFlags_alike {instructions : Instructions} {line : Line}
    (alike : Alike (flagSlack stale) σ τ) :
    setsFlags instructions line τ = setsFlags instructions line σ := by
  rw [setsFlags, setsFlags, (flagSlack_iff.mp alike).1]

/-- A line that both programs have, and that does not read stale flags. -/
theorem perform_same {instructions : Instructions} {line : Line}
    (alike : Alike (flagSlack stale) σ τ)
    (fresh : stale = true → decode line = none → readsFlags line = false) {σ' : State}
    {target : Option Line} (performs : perform instructions.others line σ = some (σ', target)) :
    ∃ τ', perform instructions.others line τ = some (τ', target) ∧
      Alike (flagSlack (stale && !setsFlags instructions line σ)) σ' τ' := by
  cases decodes : decode line with
  | some code =>
    have ran := code.run_flagSlack alike decodes instructions
    rw [perform, decodes] at performs ⊢
    cases code with
    | jmp name =>
      cases performs
      exact ⟨τ, rfl, ran⟩
    | _ =>
      cases performs
      exact ⟨_, rfl, ran⟩
  | none =>
    cases reads : readsFlags line with
    | true =>
      have settled : stale = false := by
        cases stale with
        | false => rfl
        | true =>
          rw [fresh rfl decodes] at reads
          cases reads
      subst settled
      obtain rfl := eq_of_fresh alike
      exact ⟨σ', performs, .refl σ'⟩
    | false =>
      obtain ⟨same, flags⟩ := flagSlack_iff.mp alike
      simp only [perform, decodes, Instructions.others, reads, Bool.false_eq_true, if_false,
        Option.map_eq_some_iff] at performs ⊢
      obtain ⟨result, runs, made⟩ := performs
      cases made
      refine ⟨_, ⟨result, by rw [same, runs], rfl⟩, ?_⟩
      apply flagSlack_iff.mpr
      refine ⟨rfl, fun fresh => ?_⟩
      cases effect : result.2.1 with
      | sets f => rfl
      | changes f =>
        have kept : stale = false := by
          simpa [setsFlags, decodes, reads, runs, effect, FlagEffect.isSets] using fresh
        simp only [FlagEffect.flags, flags kept]

/-- Both versions of a zero idiom clear the register, and go on with the next line. -/
theorem Marked.clears {m : Marked} (fits : m.Fits) (zeroed : m.zeroed = true) :
    ∃ r, ∀ rewritten, labelOf (m.text rewritten) = none ∧
      ∃ code, decode (m.text rewritten) = some code ∧ code.isJmp = false ∧
        ∀ σ, withoutFlags (code.run σ) = withoutFlags (σ.put (.low .dword r) 0) := by
  obtain ⟨reg, found, short⟩ := fits zeroed
  obtain ⟨p, member, -, start⟩ := after_of_zrFindReg found
  obtain ⟨s, -, moves, -⟩ := zeroRegs_decode p member
  have zeroes : ∃ d, decode m.line = some (.zero d) := by
    rw [decode_of_mov start]
    rcases moves with wide | narrow
    · exact ⟨_, wide⟩
    · exact ⟨_, narrow⟩
  obtain ⟨d, zeroes⟩ := zeroes
  obtain ⟨r, clears, same⟩ := decode_zero_idiom found zeroes
  refine ⟨r, fun rewritten => ?_⟩
  cases rewritten with
  | false =>
    refine ⟨labelOf_of_after_mov start, .zero d, zeroes, rfl, fun σ => ?_⟩
    rw [Code.run, same]
  | true =>
    have whole : m.text true = xorLine m.line reg := by
      simp [Marked.text, zeroed, zeroLine, found, List.take_of_length_le short]
    rw [whole]
    refine ⟨?_, .clear (.low .dword r), clears, rfl, fun σ => rfl⟩
    rw [← List.take_of_length_le short]
    exact labelOf_xorLine_take _ _ _

theorem Marked.same_text {m : Marked} (kept : m.zeroed = false) (rewritten : Bool) :
    m.text rewritten = m.line := by
  rw [Marked.text, kept, Bool.and_false, if_neg (by decide)]

theorem Marked.labelOf_text {m : Marked} (fits : m.Fits) (rewritten rewritten' : Bool) :
    labelOf (m.text rewritten) = labelOf (m.text rewritten') := by
  cases zeroed : m.zeroed with
  | false => rw [Marked.same_text zeroed, Marked.same_text zeroed]
  | true =>
    obtain ⟨r, both⟩ := Marked.clears fits zeroed
    rw [(both rewritten).1, (both rewritten').1]

theorem pathOf_text {lines : List Marked} (fits : ∀ m ∈ lines, m.Fits)
    (rewritten rewritten' : Bool) :
    pathOf (lines.map (Marked.text rewritten)) = pathOf (lines.map (Marked.text rewritten')) := by
  cases lines with
  | nil => rfl
  | cons m rest =>
    rw [List.map_cons, List.map_cons]
    cases zeroed : m.zeroed with
    | false => simp [pathOf, Marked.same_text zeroed]
    | true =>
      obtain ⟨r, both⟩ := Marked.clears (fits m List.mem_cons_self) zeroed
      obtain ⟨label, code, decodes, -⟩ := both rewritten
      obtain ⟨label', code', decodes', -⟩ := both rewritten'
      rw [pathOf_code decodes label, pathOf_code decodes' label']

theorem staleRead_text {c c' : Traced} {rewritten rewritten' : Bool} (lines : c'.lines = c.lines)
    (stale : c'.stale = c.stale) (fits : ∀ m ∈ c.lines, m.Fits) (reads : StaleRead rewritten c) :
    StaleRead rewritten' c' := by
  obtain ⟨old, m, rest, here, decodes, reader⟩ := reads
  refine ⟨stale.trans old, m, rest, lines.trans here, ?_⟩
  cases zeroed : m.zeroed with
  | false =>
    rw [Marked.same_text zeroed] at decodes reader ⊢
    exact ⟨decodes, reader⟩
  | true =>
    obtain ⟨r, both⟩ := Marked.clears (fits m (here ▸ List.mem_cons_self)) zeroed
    obtain ⟨-, code, decodes', -⟩ := both rewritten
    rw [decodes] at decodes'
    cases decodes'

/-- A line of one program is followed by the line of the other. -/
theorem perform_follow {instructions : Instructions} {m : Marked} (fits : m.Fits)
    {rewritten rewritten' : Bool} (alike : Alike (flagSlack stale) σ τ)
    (fresh : stale = true → decode (m.text rewritten) = none →
      readsFlags (m.text rewritten) = false) {σ' : State} {target : Option Line}
    (performs : perform instructions.others (m.text rewritten) σ = some (σ', target)) :
    staleAfter instructions rewritten' m τ stale = staleAfter instructions rewritten m σ stale ∧
      ∃ τ', perform instructions.others (m.text rewritten') τ = some (τ', target) ∧
        Alike (flagSlack (staleAfter instructions rewritten m σ stale)) σ' τ' := by
  cases zeroed : m.zeroed with
  | false =>
    simp only [staleAfter, zeroed, Bool.false_or, Marked.same_text zeroed] at fresh performs ⊢
    rw [setsFlags_alike alike]
    exact ⟨rfl, perform_same alike fresh performs⟩
  | true =>
    simp only [staleAfter, zeroed, Bool.true_or]
    obtain ⟨r, both⟩ := Marked.clears fits zeroed
    obtain ⟨-, code, decodes, noJump, runs⟩ := both rewritten
    obtain ⟨-, code', decodes', noJump', runs'⟩ := both rewritten'
    rw [perform_code decodes noJump] at performs
    cases performs
    refine ⟨trivial, _, perform_code decodes' noJump' τ, ?_⟩
    apply flagSlack_iff.mpr
    refine ⟨?_, fun fresh => by cases fresh⟩
    calc withoutFlags (code'.run τ) = withoutFlags (τ.put (.low .dword r) 0) := runs' τ
      _ = withoutFlags (σ.put (.low .dword r) 0) :=
        (flagSlack_iff.mp (alike.put (.low .dword r) 0)).1
      _ = withoutFlags (code.run σ) := (runs σ).symm

end Sides

section Runs

variable {instructions : Instructions} {rewritten rewritten' : Bool} {prog : List Marked}

theorem findMarked_cons (m : Marked) (rest : List Marked) (name : Line) :
    findMarked rewritten (m :: rest) name =
      if labelOf (m.text rewritten) = some name then some (m :: rest)
      else findMarked rewritten rest name := by
  rw [findMarked, List.dropWhile_cons]
  by_cases here : labelOf (m.text rewritten) = some name <;> simp [here, findMarked]

theorem findMarked_text (fits : ∀ m ∈ prog, m.Fits) (name : Line) :
    findMarked rewritten prog name = findMarked rewritten' prog name := by
  induction prog with
  | nil => rfl
  | cons m rest ih =>
    obtain ⟨here, later⟩ := List.forall_mem_cons.mp fits
    rw [findMarked_cons, findMarked_cons, ih later, Marked.labelOf_text here rewritten rewritten']

theorem findMarked_fits (fits : ∀ m ∈ prog, m.Fits) {name : Line} {lines : List Marked}
    (found : findMarked rewritten prog name = some lines) : ∀ m ∈ lines, m.Fits := by
  have suffix : lines <:+ prog := by
    rw [findMarked] at found
    split at found
    · cases found
    · cases found
      exact List.dropWhile_suffix _
  exact fun m member => fits m (suffix.subset member)

theorem tracedStep_follow (fits : ∀ m ∈ prog, m.Fits) {c c' : Traced}
    (inside : ∀ m ∈ c.lines, m.Fits) (fresh : ¬ StaleRead rewritten c) {τ : State}
    (alike : Alike (flagSlack c.stale) c.state τ)
    (first : tracedStep instructions rewritten prog c = some c') :
    (∀ m ∈ c'.lines, m.Fits) ∧
      ∃ τ', tracedStep instructions rewritten' prog ⟨c.lines, τ, c.stale⟩ =
          some ⟨c'.lines, τ', c'.stale⟩ ∧ Alike (flagSlack c'.stale) c'.state τ' := by
  obtain ⟨lines, σ, stale⟩ := c
  cases lines with
  | nil => cases first
  | cons m rest =>
    simp only [tracedStep, Option.bind_eq_some_iff, Option.map_eq_some_iff] at first
    obtain ⟨⟨σ', target⟩, performs, lines, goes, made⟩ := first
    cases made
    obtain ⟨here, later⟩ := List.forall_mem_cons.mp inside
    have unread : stale = true → decode (m.text rewritten) = none →
        readsFlags (m.text rewritten) = false := by
      intro old decodes
      cases reads : readsFlags (m.text rewritten) with
      | false => rfl
      | true => exact absurd ⟨old, m, rest, rfl, decodes, reads⟩ fresh
    obtain ⟨same, τ', performs', alike'⟩ :=
      @perform_follow σ τ stale instructions m here rewritten rewritten' alike unread σ' target
        performs
    have goes' : markedDestination rewritten' prog rest target = some lines := by
      cases target with
      | none => exact goes
      | some name => exact (findMarked_text fits name).trans goes
    constructor
    · cases target with
      | none =>
        cases goes
        exact later
      | some name => exact findMarked_fits fits goes
    · refine ⟨τ', ?_, alike'⟩
      simp only [tracedStep, performs', Option.bind_some, goes', Option.map_some, same]

/-- A run of one program is followed by a run of the other that reads no stale flags. -/
theorem TracedRun.follow (fits : ∀ m ∈ prog, m.Fits) {c c' : Traced} {path : List Line}
    (run : TracedRun instructions rewritten prog c path c') {τ : State}
    (inside : ∀ m ∈ c.lines, m.Fits) (alike : Alike (flagSlack c.stale) c.state τ)
    (safe : ∀ path d, TracedRun instructions rewritten' prog ⟨c.lines, τ, c.stale⟩ path d →
      ¬ StaleRead rewritten' d) :
    (∀ m ∈ c'.lines, m.Fits) ∧ ∃ τ', TracedRun instructions rewritten' prog
        ⟨c.lines, τ, c.stale⟩ path ⟨c'.lines, τ', c'.stale⟩ ∧
      Alike (flagSlack c'.stale) c'.state τ' := by
  induction run generalizing τ with
  | refl c => exact ⟨inside, τ, .refl _, alike⟩
  | @step c c₁ c₂ path first run ih =>
    have fresh : ¬ StaleRead rewritten c := by
      intro reads
      apply safe [] ⟨c.lines, τ, c.stale⟩ (.refl _)
      exact staleRead_text rfl rfl inside reads
    obtain ⟨inside₁, τ₁, first', alike₁⟩ :=
      @tracedStep_follow instructions rewritten rewritten' prog fits c c₁ inside fresh τ alike first
    obtain ⟨inside₂, τ₂, run', alike₂⟩ := ih inside₁ alike₁ fun path d later =>
      safe _ d (.step first' later)
    rw [pathOf_text inside rewritten rewritten']
    exact ⟨inside₂, τ₂, .step first' run', alike₂⟩

theorem flagsSafe_of (fits : ∀ m ∈ prog, m.Fits) {σ : State}
    (safe : FlagsSafe instructions rewritten' prog σ) : FlagsSafe instructions rewritten prog σ := by
  intro path c run reads
  obtain ⟨inside, τ, run', -⟩ := run.follow fits fits (.refl σ) safe
  exact safe path _ run' (staleRead_text rfl rfl inside reads)

def Traced.config (rewritten : Bool) (c : Traced) : Config :=
  ⟨c.lines.map (Marked.text rewritten), c.state⟩

theorem findMarked_map (name : Line) :
    findLabel (prog.map (Marked.text rewritten)) name =
      (findMarked rewritten prog name).map (List.map (Marked.text rewritten)) := by
  induction prog with
  | nil => rfl
  | cons m rest ih =>
    rw [List.map_cons, findLabel_cons, findMarked_cons, ih]
    split <;> rfl

/-- Marks do not change what a program does. -/
theorem step_config (c : Traced) :
    step instructions.others (prog.map (Marked.text rewritten)) (c.config rewritten) =
      (tracedStep instructions rewritten prog c).map (Traced.config rewritten) := by
  obtain ⟨lines, σ, stale⟩ := c
  cases lines with
  | nil => rfl
  | cons m rest =>
    simp only [step, tracedStep, Traced.config, List.map_cons]
    cases performs : perform instructions.others (m.text rewritten) σ with
    | none => rfl
    | some result =>
      obtain ⟨σ', target⟩ := result
      simp only [Option.bind_some]
      cases target with
      | none => rfl
      | some name =>
        simp only [destination, markedDestination, findMarked_map]
        cases findMarked rewritten prog name <;> rfl

theorem TracedRun.trans {c c' c'' : Traced} {path path' : List Line}
    (run : TracedRun instructions rewritten prog c path c')
    (later : TracedRun instructions rewritten prog c' path' c'') :
    TracedRun instructions rewritten prog c (path ++ path') c'' := by
  induction run with
  | refl c => exact later
  | step first _ ih =>
    rw [List.append_assoc]
    exact .step first (ih later)

theorem TracedRun.run {c c' : Traced} {path : List Line}
    (traced : TracedRun instructions rewritten prog c path c') :
    Run instructions.others (prog.map (Marked.text rewritten)) (c.config rewritten) path
      (c'.config rewritten) := by
  induction traced with
  | refl c => exact .refl _
  | step first _ ih =>
    refine .step ?_ ih
    rw [step_config, first]
    rfl

theorem exists_traced {c : Traced} {d : Config} {path : List Line}
    (run : Run instructions.others (prog.map (Marked.text rewritten)) (c.config rewritten) path d) :
    ∃ c', TracedRun instructions rewritten prog c path c' ∧ c'.config rewritten = d := by
  generalize start : c.config rewritten = e at run
  induction run generalizing c with
  | refl e => exact ⟨c, .refl c, start⟩
  | step first _ ih =>
    subst start
    rw [step_config] at first
    obtain ⟨c₁, first, made⟩ := Option.map_eq_some_iff.mp first
    obtain ⟨c', traced, last⟩ := ih made
    exact ⟨c', .step first traced, last⟩

end Runs

/-- `cmp eax, 1` sets the flags, and `je L` jumps where they say so. -/
def compareJump : Instructions where
  reader _ σ := some (σ, if σ.flags.zf then some ['L'] else none)
  plain _ σ := some (σ, .sets (X86.Alu.flags .sub (σ.value (.low .dword .rax)) 1), none)

def compareLines : List Line :=
  ["cmp eax, 1".toList, "mov eax, 0".toList, "je L".toList, "nop".toList, "L:".toList]

theorem marked_quiet {table : List PeepholePattern} {line : Line} {rest : List Line}
    (other : zrFindReg line = none) (quiet : firstMatch table (line :: rest) = none) :
    marked table (line :: rest) = ⟨line, false⟩ :: marked table rest := by
  rw [marked, if_neg (by simp [other]), quiet]

theorem marked_zero {table : List PeepholePattern} {line : Line} {rest : List Line} {reg : String}
    (found : zrFindReg line = some reg) :
    marked table (line :: rest) = ⟨line, true⟩ :: marked table rest := by
  rw [marked, if_pos (by simp [found])]

def compareMarked : List Marked :=
  [⟨"cmp eax, 1".toList, false⟩, ⟨"mov eax, 0".toList, true⟩, ⟨"je L".toList, false⟩,
    ⟨"nop".toList, false⟩, ⟨"L:".toList, false⟩]

theorem marked_compareLines : marked builtinPatterns.tail compareLines = compareMarked := by
  rw [compareLines, marked_quiet rfl rfl, marked_zero rfl, marked_quiet rfl rfl, marked_quiet rfl rfl,
    marked_quiet rfl rfl, marked]
  rfl

theorem compare_decodes : decode "cmp eax, 1".toList = none ∧ decode "je L".toList = none ∧
    readsFlags "cmp eax, 1".toList = false ∧ readsFlags "je L".toList = true ∧
    decode "mov eax, 0".toList = some (.zero (.low .dword .rax)) ∧
    decode "xor eax, eax".toList = some (.clear (.low .dword .rax)) := by
  decide +kernel

theorem traced_code {instructions : Instructions} {rewritten : Bool} {prog rest : List Marked}
    {m : Marked} {code : Code} (decodes : decode (m.text rewritten) = some code)
    (noJump : code.isJmp = false) (σ : State) (stale : Bool) :
    tracedStep instructions rewritten prog ⟨m :: rest, σ, stale⟩ =
      some ⟨rest, code.run σ, staleAfter instructions rewritten m σ stale⟩ := by
  simp only [tracedStep, perform_code decodes noJump, Option.bind_some, markedDestination,
    Option.map_some]

theorem traced_other {instructions : Instructions} {rewritten : Bool}
    {prog rest lines : List Marked} {m : Marked} {σ σ' : State} {target : Option Line}
    (decodes : decode (m.text rewritten) = none)
    (runs : instructions.others (m.text rewritten) σ = some (σ', target))
    (goes : markedDestination rewritten prog rest target = some lines) (stale : Bool) :
    tracedStep instructions rewritten prog ⟨m :: rest, σ, stale⟩ =
      some ⟨lines, σ', staleAfter instructions rewritten m σ stale⟩ := by
  have performs : perform instructions.others (m.text rewritten) σ = some (σ', target) := by
    rw [perform, decodes]
    exact runs
  simp only [tracedStep, performs, Option.bind_some, goes, Option.map_some]

theorem compare_others (σ : State) :
    compareJump.others "cmp eax, 1".toList σ =
        some ({ σ with flags := X86.Alu.flags .sub (σ.value (.low .dword .rax)) 1 }, none) ∧
      compareJump.others "je L".toList σ = some (σ, if σ.flags.zf then some ['L'] else none) := by
  obtain ⟨-, -, plain, reads, -, -⟩ := compare_decodes
  constructor
  · rw [Instructions.others, plain]
    rfl
  · rw [Instructions.others, reads]
    rfl

theorem compare_paths (rewritten : Bool) :
    pathOf (compareMarked.map (Marked.text rewritten)) = ["cmp eax, 1".toList] ∧
      pathOf ((compareMarked.drop 1).map (Marked.text rewritten)) = [] ∧
      pathOf ((compareMarked.drop 2).map (Marked.text rewritten)) = ["je L".toList] := by
  cases rewritten <;> decide +kernel

/-- Before the jump the flags are those of the comparison, or of the `xor`. -/
theorem compare_run (rewritten : Bool) :
    ∃ σ, σ.flags.zf = rewritten ∧
      TracedRun compareJump rewritten compareMarked ⟨compareMarked, uniform 0, false⟩
        ["cmp eax, 1".toList] ⟨compareMarked.drop 2, σ, true⟩ := by
  obtain ⟨comparison, -, -, -, moves, clears⟩ := compare_decodes
  have code : ∃ code, decode ((⟨"mov eax, 0".toList, true⟩ : Marked).text rewritten) = some code ∧
      code.isJmp = false ∧ ∀ σ : State, σ.flags.zf = false →
        (code.run σ).flags.zf = rewritten := by
    cases rewritten with
    | false => exact ⟨_, moves, rfl, fun σ unset => unset⟩
    | true => exact ⟨_, clears, rfl, fun σ _ => by simp [Code.run, X86.Alu.flags, X86.Alu.result]⟩
  obtain ⟨code, decodes, noJump, flag⟩ := code
  have kept : (⟨"cmp eax, 1".toList, false⟩ : Marked).text rewritten = "cmp eax, 1".toList :=
    Marked.same_text rfl rewritten
  have first := @traced_other compareJump rewritten compareMarked (compareMarked.drop 1)
    (compareMarked.drop 1) ⟨"cmp eax, 1".toList, false⟩ (uniform 0) _ none
    (by rw [kept]; exact comparison) (by rw [kept]; exact (compare_others (uniform 0)).1) rfl false
  have second := @traced_code compareJump rewritten compareMarked (compareMarked.drop 2)
    ⟨"mov eax, 0".toList, true⟩ code decodes noJump
      { uniform 0 with flags := X86.Alu.flags .sub ((uniform 0).value (.low .dword .rax)) 1 } false
  have stale : staleAfter compareJump rewritten ⟨"cmp eax, 1".toList, false⟩ (uniform 0) false =
      false := rfl
  rw [stale] at first
  have run : TracedRun compareJump rewritten compareMarked ⟨compareMarked, uniform 0, false⟩
      (pathOf (compareMarked.map (Marked.text rewritten)) ++
        (pathOf ((compareMarked.drop 1).map (Marked.text rewritten)) ++ [])) _ :=
    .step first (.step second (.refl _))
  rw [(compare_paths rewritten).1, (compare_paths rewritten).2.1] at run
  exact ⟨_, flag _ rfl, run⟩

end ClaudeC99.Peephole
