import ClaudeC99.Driver.Program

/-! The files of one invocation are compiled as if alone where none before the last ends the
process, no two share an output file, none reads another's output and none asks for an expansion
site that an earlier file left. -/

namespace ClaudeC99.Driver

variable {Loc : Type}

namespace Event

def isText : Event Loc → Bool
  | message _ | print _ => true
  | _ => false

def createdFile : Event Loc → Option Loc
  | created l => some l
  | _ => none

end Event

namespace Result

variable {α : Type}

/-- The diagnostics and the other texts that a run prints. -/
def texts (r : Result Loc α) : List (Event Loc) := r.events.filter Event.isText

/-- The files that a run creates. -/
def outputs (r : Result Loc α) : List Loc := r.events.filterMap Event.createdFile

@[simp] theorem events_after (e : Event Loc) (r : Result Loc α) :
    (r.after e).events = e :: r.events := rfl

@[simp] theorem outcome_after (e : Event Loc) (r : Result Loc α) :
    (r.after e).outcome = r.outcome := rfl

@[simp] theorem process_after (e : Event Loc) (r : Result Loc α) :
    (r.after e).process = r.process := rfl

theorem mem_outputs {r : Result Loc α} {l : Loc} : l ∈ r.outputs ↔ .created l ∈ r.events := by
  rw [outputs, List.mem_filterMap]
  constructor
  · rintro ⟨e, member, same⟩
    cases e <;> simp [Event.createdFile] at same
    exact same ▸ member
  · intro member
    exact ⟨_, member, rfl⟩

end Result

/-- What an event shows of the state before the run: a `dirty` file, or an expansion site that may
be `stale`. -/
def Event.Depends (dirty : Loc → Prop) (stale : Prop) : Event Loc → Prop
  | opened l => dirty l
  | asked siteSet => siteSet = false ∧ stale
  | _ => False

/-- Two processes that differ in the `dirty` files only, and in the expansion site where it may be
`stale` and is not set yet. -/
structure Alike (dirty : Loc → Prop) (stale : Prop) (s t : Process Loc) : Prop where
  files : ∀ l, ¬ dirty l → s.files l = t.files l
  output : s.output = t.output
  errorCount : s.errorCount = t.errorCount
  jumpValid : s.jumpValid = t.jumpValid
  position : s.position = t.position
  siteSet : s.siteSet = t.siteSet
  site : s.site = t.site ∨ s.siteSet = false ∧ stale

structure SameRun {α : Type} (dirty : Loc → Prop) (stale : Prop) (r r' : Result Loc α) : Prop where
  outcome : r.outcome = r'.outcome
  events : r.events = r'.events
  process : Alike dirty stale r.process r'.process

section Runs

variable {α : Type} [DecidableEq Loc] {inv : Invocation Loc} {dirty : Loc → Prop} {stale : Prop} {s t : Process Loc}

omit [DecidableEq Loc] in
theorem SameRun.after {r r' : Result Loc α} (same : SameRun dirty stale r r') (e : Event Loc) :
    SameRun dirty stale (r.after e) (r'.after e) where
  outcome := same.outcome
  events := congrArg (e :: ·) same.events
  process := same.process

theorem Alike.setFile (alike : Alike dirty stale s t) {l : Loc} {text text' : String}
    (same : ¬ dirty l → text = text') (out : Option Loc) :
    Alike dirty stale { s with files := setFile s.files l text, output := out }
      { t with files := Driver.setFile t.files l text', output := out } where
  files l' clean := by
    simp only [Driver.setFile]
    split
    next here => rw [same (here ▸ clean)]
    · exact alike.files l' clean
  output := rfl
  errorCount := alike.errorCount
  jumpValid := alike.jumpValid
  position := alike.position
  siteSet := alike.siteSet
  site := alike.site

theorem appendOutput_some {l : Loc} (out : s.output = some l) (text : String) :
    appendOutput s text =
      { s with files := setFile s.files l ((s.files l).getD "" ++ text), output := some l } := by
  simp [appendOutput, out]

theorem appendOutput_none (out : s.output = none) (text : String) :
    appendOutput s text = s := by
  simp [appendOutput, out]

theorem Alike.appendOutput (alike : Alike dirty stale s t) (text : String) :
    Alike dirty stale (appendOutput s text) (appendOutput t text) := by
  cases out : s.output with
  | none => rwa [appendOutput_none out, appendOutput_none (alike.output ▸ out)]
  | some l =>
    rw [appendOutput_some out, appendOutput_some (alike.output ▸ out)]
    exact alike.setFile (fun clean => by rw [alike.files l clean]) _

omit [DecidableEq Loc] in
theorem Alike.countError (alike : Alike dirty stale s t) :
    Alike dirty stale (countError s) (countError t) :=
  { alike with errorCount := congrArg (· + 1) alike.errorCount }

omit [DecidableEq Loc] in
theorem sameRun_compileError {recovered : Process Loc → Result Loc α}
    (again : ∀ s t, Alike dirty stale s t →
      (∀ e ∈ (recovered s).events, ¬ e.Depends dirty stale) →
        SameRun dirty stale (recovered s) (recovered t))
    (alike : Alike dirty stale s t)
    (blind : ∀ e ∈ (doCompileError inv recovered s).events, ¬ e.Depends dirty stale) :
    SameRun dirty stale (doCompileError inv recovered s) (doCompileError inv recovered t) := by
  have counted := alike.countError
  unfold doCompileError at blind ⊢
  rw [← counted.errorCount, ← alike.jumpValid]
  split
  · exact ⟨rfl, rfl, counted⟩
  next unlimited =>
    rw [if_neg unlimited] at blind
    split
    next valid =>
      rw [if_pos valid] at blind
      exact again _ _ counted blind
    · exact ⟨rfl, rfl, counted⟩

/-- A run whose events do not depend on what may differ is the same from both processes. -/
theorem sameRun_run (program : Program α) (alike : Alike dirty stale s t)
    (blind : ∀ e ∈ (run inv program s).events, ¬ e.Depends dirty stale) :
    SameRun dirty stale (run inv program s)
      (run inv program t) := by
  induction program generalizing s t with
  | done a => exact ⟨rfl, rfl, alike⟩
  | message text rest ih | print text rest ih =>
    exact (ih alike fun e member => blind e (List.mem_cons_of_mem _ member)).after _
  | mark position rest ih =>
    unfold run at blind ⊢
    split at blind
    next marked =>
      rw [if_pos marked, if_pos marked]
      exact ih { alike with position := rfl } blind
    next unmarked =>
      rw [if_neg unmarked, if_neg unmarked]
      exact ih alike blind
  | error place text recovered ih =>
    have prefixed : place.position s = place.position t := by
      cases place
      · exact alike.position
      · rfl
    unfold run at blind ⊢
    rw [prefixed]
    exact (sameRun_compileError (fun _ _ => ih) alike fun e member =>
      blind e (List.mem_cons_of_mem _ member)).after _
  | warning position text recovered rest ih ih_rest =>
    unfold run at blind ⊢
    have blind := fun e member => blind e (List.mem_cons_of_mem _ member)
    split at blind
    next fatal =>
      rw [if_pos fatal, if_pos fatal]
      exact (sameRun_compileError (fun _ _ => ih) alike blind).after _
    next harmless =>
      rw [if_neg harmless, if_neg harmless]
      exact (ih_rest alike blind).after _
  | quit => exact ⟨rfl, rfl, alike⟩
  | setJump valid rest ih => exact ih { alike with jumpValid := rfl } blind
  | errorCount rest ih =>
    unfold run at blind ⊢
    rw [← alike.errorCount]
    exact ih _ alike blind
  | read path rest ih =>
    have clean : ¬ dirty (inv.locate path) := blind (.opened (inv.locate path)) (by simp [run])
    have rest_blind := fun e member => blind e (List.mem_cons_of_mem _ member)
    unfold run
    rw [← alike.files _ clean]
    exact (ih _ alike rest_blind).after _
  | create path rest ih =>
    unfold run at blind ⊢
    split at blind
    next ok =>
      rw [if_pos ok, if_pos ok]
      exact (ih _ (alike.setFile (fun _ => rfl) _) fun e member =>
        blind e (List.mem_cons_of_mem _ member)).after _
    next failed =>
      rw [if_neg failed, if_neg failed]
      exact ih _ alike blind
  | emit text rest ih => exact ih (alike.appendOutput text) blind
  | setSite site rest ih => exact ih { alike with site := .inl rfl, siteSet := rfl } blind
  | getSite rest ih =>
    have same : s.site = t.site := by
      by_contra other
      exact blind (.asked s.siteSet) (by simp [run]) (alike.site.resolve_left other)
    have rest_blind := fun e member => blind e (List.mem_cons_of_mem _ member)
    unfold run
    rw [← alike.siteSet, ← same]
    exact (ih _ alike rest_blind).after _

theorem files_appendOutput {l : Loc} (apart : s.output ≠ some l) (text : String) :
    (appendOutput s text).files l = s.files l := by
  cases out : s.output with
  | none => rw [appendOutput_none out]
  | some l' =>
    rw [appendOutput_some out]
    have other : l ≠ l' := fun same => apart (out.trans (congrArg some same.symm))
    exact if_neg other

omit [DecidableEq Loc] in
theorem files_compileError {recovered : Process Loc → Result Loc α} {l : Loc}
    (again : ∀ s, s.output ≠ some l → .created l ∉ (recovered s).events →
      (recovered s).process.files l = s.files l)
    (apart : s.output ≠ some l)
    (kept : .created l ∉ (doCompileError inv recovered s).events) :
    (doCompileError inv recovered s).process.files l = s.files l := by
  unfold doCompileError at kept ⊢
  split
  · rfl
  next unlimited =>
    rw [if_neg unlimited] at kept
    split
    next valid =>
      rw [if_pos valid] at kept
      exact again (countError s) apart kept
    · rfl

/-- A run changes only the files that it creates. -/
theorem files_run (program : Program α) {l : Loc} (apart : s.output ≠ some l)
    (kept : .created l ∉ (run inv program s).events) :
    (run inv program s).process.files l = s.files l := by
  induction program generalizing s with
  | done | quit => rfl
  | message text rest ih | print text rest ih =>
    exact ih apart fun member => kept (List.mem_cons_of_mem _ member)
  | mark position rest ih =>
    unfold run at kept ⊢
    split at kept
    next marked =>
      rw [if_pos marked]
      exact ih apart kept
    next unmarked =>
      rw [if_neg unmarked]
      exact ih apart kept
  | error place text recovered ih =>
    exact files_compileError (fun _ => ih) apart fun member =>
      kept (List.mem_cons_of_mem _ member)
  | warning position text recovered rest ih ih_rest =>
    unfold run at kept ⊢
    have kept := fun member => kept (List.mem_cons_of_mem _ member)
    split at kept
    next fatal =>
      rw [if_pos fatal]
      exact files_compileError (fun _ => ih) apart kept
    next harmless =>
      rw [if_neg harmless]
      exact ih_rest apart kept
  | setJump valid rest ih | setSite site rest ih => exact ih apart kept
  | errorCount rest ih => exact ih _ apart kept
  | read path rest ih | getSite rest ih =>
    exact ih _ apart fun member => kept (List.mem_cons_of_mem _ member)
  | create path rest ih =>
    unfold run at kept ⊢
    split at kept
    next ok =>
      have other : l ≠ inv.locate path := fun same => kept (same ▸ List.mem_cons_self)
      rw [if_pos ok]
      have step := ih true (s := { s with
        files := setFile s.files (inv.locate path) "", output := some (inv.locate path) })
        (fun same => other (Option.some.inj same).symm)
        fun member => kept (List.mem_cons_of_mem _ member)
      exact step.trans (if_neg other)
    next failed =>
      rw [if_neg failed]
      exact ih _ apart kept
  | emit text rest ih =>
    have step := ih (s := appendOutput s text) ?_ kept
    · exact step.trans (files_appendOutput apart text)
    · cases out : s.output with
      | none => rwa [appendOutput_none out]
      | some l' =>
        rw [appendOutput_some out]
        exact out ▸ apart

end Runs

section Files

variable [DecidableEq Loc] (inv : Invocation Loc)

/-- Each file's status, messages and outputs are those of compiling it alone, and in the end its
outputs have the contents that compiling it alone gives them; no two files have an output in
common. -/
def Independent (sources : List String) (s : Process Loc) : Prop :=
  let all := compileFiles inv sources s
  (∀ (k : Nat) (source : String), sources[k]? = some source →
    let alone := compileFile inv source s
    ∃ r : Result Loc Nat, all.1[k]? = some r ∧ r.outcome = alone.outcome ∧
      r.texts = alone.texts ∧ r.outputs = alone.outputs ∧
      ∀ l ∈ r.outputs, all.2.files l = alone.process.files l) ∧
    all.1.Pairwise fun r r' => ∀ l ∈ r.outputs, l ∉ r'.outputs

/-- Compiling the file does not end the process. -/
def Survives (s : Process Loc) (source : String) : Prop :=
  (compileFile inv source s).outcome ≠ .exited

/-- The two files have no output in common. -/
def Apart (s : Process Loc) (first second : String) : Prop :=
  ∀ l ∈ (compileFile inv first s).outputs, l ∉ (compileFile inv second s).outputs

/-- The second file reads no output of the first. -/
def Unread (s : Process Loc) (first second : String) : Prop :=
  ∀ l ∈ (compileFile inv first s).outputs, .opened l ∉ (compileFile inv second s).events

/-- The file asks for no expansion site before it sets one. -/
def SetsSite (s : Process Loc) (source : String) : Prop :=
  .asked false ∉ (compileFile inv source s).events

/-- The loop from `t` compiles each file as alone from `s`. -/
structure CompiledAlone (sources : List String) (s t : Process Loc) : Prop where
  runs : List.Forall₂ (fun f r => (compileFile inv f s).outcome = r.outcome ∧
    (compileFile inv f s).events = r.events) sources (compileFiles inv sources t).1
  contents : ∀ f ∈ sources, ∀ l ∈ (compileFile inv f s).outputs,
    (compileFiles inv sources t).2.files l = (compileFile inv f s).process.files l
  others : ∀ l, (∀ f ∈ sources, l ∉ (compileFile inv f s).outputs) →
    (compileFiles inv sources t).2.files l = t.files l

variable {inv} {s t : Process Loc} {source : String} {sources : List String}

omit [DecidableEq Loc] in
theorem alike_reset {dirty : Loc → Prop} (files : ∀ l, ¬ dirty l → s.files l = t.files l) :
    Alike dirty True (resetErrorState s) (resetErrorState t) where
  files := files
  output := rfl
  errorCount := rfl
  jumpValid := rfl
  position := rfl
  siteSet := rfl
  site := .inr ⟨rfl, trivial⟩

theorem files_compileFile {l : Loc} (kept : l ∉ (compileFile inv source s).outputs) :
    (compileFile inv source s).process.files l = s.files l := by
  rw [Result.mem_outputs] at kept
  exact files_run _ (fun none => by cases none) kept

/-- A file is compiled as if alone after others that left `dirty` files. -/
theorem compileFile_dirty {dirty : Loc → Prop} (files : ∀ l, ¬ dirty l → s.files l = t.files l)
    (site : SetsSite inv s source)
    (unread : ∀ l, dirty l → .opened l ∉ (compileFile inv source s).events) :
    SameRun dirty True (compileFile inv source s) (compileFile inv source t) := by
  refine sameRun_run _ (alike_reset files) fun e member depends => ?_
  cases e with
  | opened l => exact unread l depends member
  | asked siteSet =>
    cases depends.1
    exact site member
  | message | print | created => exact depends

theorem compileFiles_cons {rest : List String}
    (goesOn : rest ≠ [] → (compileFile inv source t).outcome ≠ .exited) :
    compileFiles inv (source :: rest) t =
      (compileFile inv source t ::
          (compileFiles inv rest (compileFile inv source t).process).1,
        (compileFiles inv rest (compileFile inv source t).process).2) := by
  rw [compileFiles]
  cases outcome : (compileFile inv source t).outcome with
  | returned status => rfl
  | exited =>
    cases rest with
    | nil => rfl
    | cons => exact absurd outcome (goesOn (by simp))

omit [DecidableEq Loc] in
theorem SameRun.outputs {dirty : Loc → Prop} {stale : Prop} {r r' : Result Loc Nat}
    (same : SameRun dirty stale r r') : r.outputs = r'.outputs :=
  congrArg (List.filterMap Event.createdFile) same.events

/-- One more file before a list of files. -/
theorem CompiledAlone.cons {dirty : Loc → Prop} {rest : List String}
    (first : SameRun dirty True (compileFile inv source s) (compileFile inv source t))
    (goesOn : rest ≠ [] → Survives inv s source)
    (clean : ∀ l, dirty l → l ∉ (compileFile inv source s).outputs)
    (apart : ∀ g ∈ rest, Apart inv s source g)
    (next : CompiledAlone inv rest s (compileFile inv source t).process) :
    CompiledAlone inv (source :: rest) s t := by
  have loop := compileFiles_cons fun more exits => goesOn more (first.outcome.trans exits)
  constructor
  · rw [loop]
    exact .cons ⟨first.outcome, first.events⟩ next.runs
  · intro f member l created
    rw [loop]
    rcases List.mem_cons.mp member with rfl | later
    · rw [next.others l fun g later => apart g later l created]
      exact (first.process.files l fun isDirty => clean l isDirty created).symm
    · exact next.contents f later l created
  · intro l kept
    rw [loop, next.others l fun g later => kept g (List.mem_cons_of_mem _ later)]
    exact files_compileFile (first.outputs ▸ kept source List.mem_cons_self)

/-- The loop goes on as if alone after files that left `dirty` ones. -/
theorem compiledAlone_dirty {dirty : Loc → Prop} (files : ∀ l, ¬ dirty l → s.files l = t.files l)
    (survive : ∀ f ∈ sources.dropLast, Survives inv s f)
    (apart : sources.Pairwise (Apart inv s)) (unread : sources.Pairwise (Unread inv s))
    (sites : ∀ f ∈ sources, SetsSite inv s f)
    (clean : ∀ f ∈ sources, ∀ l, dirty l → l ∉ (compileFile inv f s).outputs ∧
      .opened l ∉ (compileFile inv f s).events) :
    CompiledAlone inv sources s t := by
  induction sources generalizing t dirty with
  | nil => exact ⟨.nil, by simp, fun _ _ => rfl⟩
  | cons f rest ih =>
    have f_clean := clean f List.mem_cons_self
    have first := compileFile_dirty files (sites f List.mem_cons_self)
      fun l isDirty => (f_clean l isDirty).2
    obtain ⟨f_apart, apart⟩ := List.pairwise_cons.mp apart
    obtain ⟨f_unread, unread⟩ := List.pairwise_cons.mp unread
    refine .cons first ?_ (fun l isDirty => (f_clean l isDirty).1) f_apart ?_
    · intro more
      exact survive f (by simp [List.dropLast_cons_of_ne_nil more])
    have left : ∀ l, ¬ (dirty l ∨ l ∈ (compileFile inv f s).outputs) →
        s.files l = (compileFile inv f t).process.files l := by
      intro l untouched
      rw [files_compileFile (first.outputs ▸ fun created => untouched (.inr created))]
      exact files l fun isDirty => untouched (.inl isDirty)
    refine ih left ?_ apart unread (fun g later => sites g (List.mem_cons_of_mem _ later)) ?_
    · intro g member
      refine survive g ?_
      cases rest with
      | nil => cases member
      | cons => exact List.mem_cons_of_mem _ member
    · intro g later l isDirty
      rcases isDirty with isDirty | created
      · exact clean g (List.mem_cons_of_mem _ later) l isDirty
      · exact ⟨f_apart g later l created, f_unread g later l created⟩

/-- What makes the files of an invocation independent: none before the last ends the process, no
two have an output in common, none reads an output of one before it, and none but the first asks
for an expansion site before it sets one. -/
structure Undisturbed (inv : Invocation Loc) (sources : List String) (s : Process Loc) : Prop where
  survive : ∀ f ∈ sources.dropLast, Survives inv s f
  apart : sources.Pairwise (Apart inv s)
  unread : sources.Pairwise (Unread inv s)
  sites : ∀ f ∈ sources.tail, SetsSite inv s f

omit [DecidableEq Loc] in
theorem SameRun.refl {α : Type} (r : Result Loc α) : SameRun (fun _ => False) True r r :=
  ⟨rfl, rfl, fun _ _ => rfl, rfl, rfl, rfl, rfl, rfl, .inl rfl⟩

theorem Undisturbed.compiledAlone (undisturbed : Undisturbed inv sources s) :
    CompiledAlone inv sources s s := by
  cases sources with
  | nil => exact ⟨.nil, by simp, fun _ _ => rfl⟩
  | cons f rest =>
    obtain ⟨survive, apart, unread, sites⟩ := undisturbed
    obtain ⟨f_apart, apart⟩ := List.pairwise_cons.mp apart
    obtain ⟨f_unread, unread⟩ := List.pairwise_cons.mp unread
    refine .cons (.refl _) ?_ (fun _ isDirty => isDirty.elim) f_apart ?_
    · intro more
      exact survive f (by simp [List.dropLast_cons_of_ne_nil more])
    · refine compiledAlone_dirty (fun l kept => (files_compileFile kept).symm) ?_ apart unread
        sites fun g later l created => ⟨f_apart g later l created, f_unread g later l created⟩
      intro g member
      refine survive g ?_
      cases rest with
      | nil => cases member
      | cons => exact List.mem_cons_of_mem _ member

theorem CompiledAlone.run_at (alone : CompiledAlone inv sources s t) {k : Nat}
    (at_k : sources[k]? = some source) :
    ∃ r, (compileFiles inv sources t).1[k]? = some r ∧
      (compileFile inv source s).outcome = r.outcome ∧
      (compileFile inv source s).events = r.events := by
  obtain ⟨inside, rfl⟩ := List.getElem?_eq_some_iff.mp at_k
  have length := alone.runs.length_eq
  refine ⟨_, List.getElem?_eq_getElem (length ▸ inside), ?_⟩
  exact alone.runs.get inside (length ▸ inside)

theorem CompiledAlone.independent (alone : CompiledAlone inv sources s s)
    (apart : sources.Pairwise (Apart inv s)) : Independent inv sources s := by
  have outputs {f : String} {r : Result Loc Nat}
      (same : (compileFile inv f s).events = r.events) :
      r.outputs = (compileFile inv f s).outputs :=
    congrArg (List.filterMap Event.createdFile) same.symm
  constructor
  · intro k source at_k
    obtain ⟨r, run_k, outcome, events⟩ := alone.run_at at_k
    refine ⟨r, run_k, outcome.symm, congrArg (List.filter Event.isText) events.symm,
      outputs events, ?_⟩
    rw [outputs events]
    exact alone.contents source (List.mem_of_getElem? at_k)
  · rw [List.pairwise_iff_getElem] at apart ⊢
    intro i j i_lt j_lt less
    have length := alone.runs.length_eq
    have at_i := alone.runs.get (length ▸ i_lt) i_lt
    have at_j := alone.runs.get (length ▸ j_lt) j_lt
    have sources_apart := apart i j (length ▸ i_lt) (length ▸ j_lt) less
    intro l created
    rw [List.get_eq_getElem, List.get_eq_getElem] at at_i at_j
    rw [outputs at_i.2] at created
    rw [outputs at_j.2]
    exact sources_apart l created

/-- A file after which another one is started has not ended the process. -/
theorem survives_of_next {k : Nat} {r r' : Result Loc Nat}
    (at_k : (compileFiles inv sources t).1[k]? = some r)
    (next : (compileFiles inv sources t).1[k + 1]? = some r') : r.outcome ≠ .exited := by
  induction sources generalizing t k with
  | nil => simp [compileFiles] at at_k
  | cons f rest ih =>
    rw [compileFiles] at at_k next
    cases outcome : (compileFile inv f t).outcome with
    | exited => simp [outcome] at next
    | returned status =>
      simp only [outcome] at at_k next
      cases k with
      | zero =>
        rw [List.getElem?_cons_zero, Option.some_inj] at at_k
        rw [← at_k, outcome]
        exact fun same => by cases same
      | succ k => exact ih at_k next

theorem Independent.survive (independent : Independent inv sources s) :
    ∀ f ∈ sources.dropLast, Survives inv s f := by
  intro f member
  obtain ⟨k, inside, at_k⟩ := List.mem_iff_getElem.mp member
  have next : k + 1 < sources.length := by
    rw [List.length_dropLast] at inside
    omega
  obtain ⟨r, run_k, outcome, -⟩ := independent.1 k f (by
    rw [List.getElem?_eq_getElem (by omega), ← at_k, List.getElem_dropLast])
  obtain ⟨r', run_next, -⟩ := independent.1 (k + 1) _ (List.getElem?_eq_getElem next)
  rw [Survives, ← outcome]
  exact survives_of_next run_k run_next

theorem Independent.apart (independent : Independent inv sources s) :
    sources.Pairwise (Apart inv s) := by
  rw [List.pairwise_iff_getElem]
  intro i j i_lt j_lt less l created
  obtain ⟨r, run_i, -, -, outputs_i, -⟩ := independent.1 i _ (List.getElem?_eq_getElem i_lt)
  obtain ⟨r', run_j, -, -, outputs_j, -⟩ := independent.1 j _ (List.getElem?_eq_getElem j_lt)
  obtain ⟨i_run, rfl⟩ := List.getElem?_eq_some_iff.mp run_i
  obtain ⟨j_run, rfl⟩ := List.getElem?_eq_some_iff.mp run_j
  have apart := List.pairwise_iff_getElem.mp independent.2 i j i_run j_run less
  rw [← outputs_j]
  exact apart l (outputs_i ▸ created)

/-- The files are compiled independently where nothing disturbs them, and wherever they are, none
before the last ends the process and no two have an output in common. -/
theorem files_independent (inv : Invocation Loc) (sources : List String) (s : Process Loc) :
    (Undisturbed inv sources s → Independent inv sources s) ∧
      (Independent inv sources s → (∀ f ∈ sources.dropLast, Survives inv s f) ∧
        sources.Pairwise (Apart inv s)) :=
  ⟨fun undisturbed => undisturbed.compiledAlone.independent undisturbed.apart,
    fun independent => ⟨independent.survive, independent.apart⟩⟩

end Files

/-- The phases on files that hold `int a;`, `int b;` or an `#error` line. -/
def samplePhases : Phases where
  Parser := String
  Ast := String
  preprocess _ source _ :=
    if source = "#error stop\n" then .message "error: #error stop\n" .quit else .done source
  printTokensMode _ _ := .done ()
  parserInit text _ := .done text
  parseDeclarations text := .done (if text = "int a;\n" then "a" else "b")
  optimizeTranslationUnit _ ast := ast
  astPrettyPrint ast := ast
  codegenTranslationUnit _ name :=
    .emit (s!"section .bss\nglobal {name}\n{name}: resd 1\nsection .text\n" ++
      "\nsection .note.GNU-stack noalloc noexec nowrite progbits\n") (.done ())
  peepholeApply text := text

def sampleInvocation : Invocation String where
  opts := ⟨false, false, false, 1, 0, false, false, [], []⟩
  phases := samplePhases
  locate := id
  creatable _ := true

def sampleProcess : Process String where
  files path :=
    if path = "a/x.c" then some "int a;\n"
    else if path = "b/x.c" ∨ path = "b/y.c" then some "int b;\n"
    else if path = "stop.c" then some "#error stop\n"
    else none
  output := none
  errorCount := 0
  jumpValid := false
  position := none
  site := ⟨none, 0⟩
  siteSet := false

theorem sample_independent :
    Independent sampleInvocation ["a/x.c", "b/y.c"] sampleProcess := by
  refine (files_independent sampleInvocation ["a/x.c", "b/y.c"] sampleProcess).1 ⟨?_, ?_, ?_, ?_⟩
  · intro f member exits
    cases List.mem_singleton.mp member
    have status : Outcome.returned 0 = .exited := exits
    cases status
  · refine List.pairwise_pair.mpr ?_
    show ∀ l ∈ ["x.asm"], l ∉ ["y.asm"]
    simp
  · refine List.pairwise_pair.mpr ?_
    show ∀ l ∈ ["x.asm"], .opened l ∉ [Event.opened "b/y.c", .created "y.asm"]
    simp
  · intro f member
    cases List.mem_singleton.mp member
    show .asked false ∉ [Event.opened "b/y.c", .created "y.asm"]
    simp

/-- Two files of one base name have one output, and a file with an error ends the process. -/
theorem files_disturb_each_other :
    ¬ Independent sampleInvocation ["a/x.c", "b/x.c"] sampleProcess ∧
      ¬ Independent sampleInvocation ["stop.c", "a/x.c"] sampleProcess := by
  constructor
  · intro independent
    have apart := List.pairwise_pair.mp independent.apart "x.asm" (List.mem_singleton.mpr rfl)
    exact apart (List.mem_singleton.mpr rfl)
  · intro independent
    exact independent.survive "stop.c" (List.mem_singleton.mpr rfl) rfl

end ClaudeC99.Driver
