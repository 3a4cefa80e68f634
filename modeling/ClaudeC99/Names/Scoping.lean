import ClaudeC99.Lib.Scopes
import ClaudeC99.Names.Tables
import ClaudeC99.Struct.Completion

/-! The parser's tables against the scopes of C: where a name or a tag is taken for what its
innermost declaration makes it, and where a table without scopes gives another answer. -/

namespace ClaudeC99.Names

open Preprocessor (Text)
open Scopes (Env Token)
open Struct (Change Denotes TagKey TypeId TypeNode TypeOp TypeTables)

/-! ### The scopes of C -/

namespace Event

def nameToken : Event → Token Text
  | enter _ => .enter
  | leave _ => .leave
  | typedefName name _ _ | enumerator name _ | object name => .declare name
  | enumeratorName _ | declareTag _ | types _ => .mention []

/-- A tag is declared where its body begins or where it stands alone, unless its scope has a
declaration of it; the definition is complete at the end of the body. -/
def tagToken (env : Env TagKey) : Event → Token TagKey
  | enter _ => .enter
  | leave _ => .leave
  | declareTag key | types (.openBody key) =>
    if (env.current key).isEmpty then .declare key else .mention []
  | types (.define key _ _ _) => .declare key
  | _ => .mention []

def defines (key : TagKey) : Event → Bool
  | types (.define key' _ _ _) => key' = key
  | _ => false

/-- What the event adds to the depth that the parser counts. -/
def deeper : Event → Int
  | enter counted => if counted then 1 else 0
  | leave counted => if counted then -1 else 0
  | _ => 0

/-- Scopes end in order: the innermost is of the kind that ends. -/
def nest (scopes : List Bool) : Event → Option (List Bool)
  | enter counted => some (counted :: scopes)
  | leave counted => if scopes.head? = some counted then some scopes.tail else none
  | _ => some scopes

end Event

def names (log : List Event) : Env Text :=
  log.zipIdx.foldl (fun env event => env.after event.2 event.1.nameToken) [[]]

def tags (log : List Event) : Env TagKey :=
  log.zipIdx.foldl (fun env event => env.after event.2 (event.1.tagToken env)) [[]]

/-- Which of the open scopes are counted, the innermost first. -/
def nesting (log : List Event) : Option (List Bool) := log.foldlM Event.nest []

def depth (log : List Event) : Int := (log.map Event.deeper).sum

/-- The block of the declaration at the place has not ended. -/
def StillOpen (log : List Event) (place : Nat) : Prop :=
  ∀ later ≤ log.length, place < later → depth (log.take place) ≤ depth (log.take later)

def TypedefAt (log : List Event) (name : Text) (place : Nat) : Prop :=
  ∃ kind fullType, log[place]? = some (.typedefName name kind fullType)

def EnumeratorAt (log : List Event) (name : Text) (place : Nat) : Prop :=
  ∃ value, log[place]? = some (.enumerator name value)

def DefinedAt (log : List Event) (key : TagKey) (place : Nat) : Prop :=
  ∃ event, log[place]? = some event ∧ event.defines key = true

/-- What a name stands for in C: what the innermost of its declarations says. -/
def meaningInC (log : List Event) (name : Text) : Meaning :=
  match (names log).referent name with
  | none => .ordinary
  | some place =>
    match log[place]? with
    | some (.typedefName _ kind fullType) => .typedefName place kind fullType
    | some (.enumerator _ value) => .enumConst place value
    | _ => .ordinary

/-- The innermost visible declaration of a tag, when it is a definition. -/
def definitionOf (log : List Event) (key : TagKey) : Option Nat :=
  ((tags log).referent key).filter fun place => (log[place]?).any fun event => event.defines key

/-- The tag denotes the type that its innermost visible definition made, and an incomplete type
where no definition is visible. -/
def DenotesAsInC (log : List Event) (p : Tables) (key : TagKey) : Prop :=
  match definitionOf log key with
  | some place => p.types.entry key = typeAt log key place
  | none => ∀ t node, p.types.entry key = some t → p.types.types[t]? = some node → node.size = 0

/-! ### The condition -/

/-- From the place on no typedef of the name stands in a block that is still open. -/
def NoOpenTypedef (log : List Event) (name : Text) (start : Nat) : Prop :=
  ∀ place ≥ start, TypedefAt log name place → ¬ StillOpen log place

/-- The innermost declaration of the name is the one that the tables without scopes still show. -/
def NameFollowed (log : List Event) (typeMayStart : Bool) (name : Text) : Prop :=
  match meaningInC log name with
  | .typedefName place _ _ => typeMayStart = true ∧ NoOpenTypedef log name (place + 1)
  | .enumConst place _ =>
    (typeMayStart = true → NoOpenTypedef log name 0) ∧
      ∀ earlier < place, ¬ EnumeratorAt log name earlier
  | .ordinary =>
    (typeMayStart = true → NoOpenTypedef log name 0) ∧ ∀ place, ¬ EnumeratorAt log name place

/-- No definition of the tag comes after the innermost visible one. -/
def TagFollowed (log : List Event) (key : TagKey) : Prop :=
  match definitionOf log key with
  | some place => ∀ later > place, ¬ DefinedAt log key later
  | none => ∀ place, ¬ DefinedAt log key place

/-! ### One event more -/

section Growth

variable {log : List Event} {event : Event} {place : Nat}

theorem at_concat {other : Event} : (log ++ [event])[place]? = some other ↔
    log[place]? = some other ∨ place = log.length ∧ event = other := by
  constructor
  · intro here
    rw [List.getElem?_append] at here
    split at here
    · exact .inl here
    · rw [List.getElem?_singleton, Option.ite_none_right_eq_some] at here
      exact .inr ⟨by omega, Option.some.inj here.2⟩
  · rintro (here | ⟨rfl, rfl⟩)
    · rw [List.getElem?_append_left (List.getElem?_eq_some_iff.mp here).1]
      exact here
    · simp

theorem inside {other : Event} (here : log[place]? = some other) : place < log.length :=
  (List.getElem?_eq_some_iff.mp here).1

theorem depth_concat : depth (log ++ [event]) = depth log + event.deeper := by
  simp [depth]

theorem take_concat (before : place ≤ log.length) :
    (log ++ [event]).take place = log.take place :=
  List.take_append_of_le_length before

theorem take_whole (past : log.length < place) :
    (log ++ [event]).take place = log ++ [event] := by
  apply List.take_of_length_le
  simpa using past

theorem StillOpen.before (still : StillOpen log place) (within : place < log.length) :
    depth (log.take place) ≤ depth log := by
  have last := still log.length (Nat.le_refl _) within
  rwa [List.take_length] at last

theorem stillOpen_concat (within : place < log.length) :
    StillOpen (log ++ [event]) place ↔
      StillOpen log place ∧ depth (log.take place) ≤ depth (log ++ [event]) := by
  have upto : place ≤ log.length := Nat.le_of_lt within
  constructor
  · intro still
    constructor
    · intro later most after
      have at_later := still later (by simp; omega) after
      rwa [take_concat upto, take_concat most] at at_later
    · have at_end := still (log.length + 1) (by simp) (by omega)
      rwa [take_concat upto, take_whole (Nat.lt_succ_self _)] at at_end
  · rintro ⟨still, last⟩ later most after
    rw [take_concat upto]
    rw [List.length_append, List.length_singleton] at most
    by_cases less : later ≤ log.length
    · rw [take_concat less]
      exact still later less after
    · rwa [take_whole (Nat.lt_of_not_le less)]

theorem stillOpen_new (level : 0 ≤ event.deeper) : StillOpen (log ++ [event]) log.length := by
  intro later most after
  rw [List.length_append, List.length_singleton] at most
  rw [take_concat (Nat.le_refl _), List.take_length, take_whole after, depth_concat]
  omega

theorem definedAt_concat {key : TagKey} : DefinedAt (log ++ [event]) key place ↔
    DefinedAt log key place ∨ place = log.length ∧ event.defines key = true := by
  constructor
  · rintro ⟨other, here, defines⟩
    rcases at_concat.mp here with old | ⟨rfl, rfl⟩
    · exact .inl ⟨other, old, defines⟩
    · exact .inr ⟨rfl, defines⟩
  · rintro (⟨other, here, defines⟩ | ⟨rfl, defines⟩)
    · exact ⟨other, at_concat.mpr (.inl here), defines⟩
    · exact ⟨event, at_concat.mpr (.inr ⟨rfl, rfl⟩), defines⟩

theorem DefinedAt.inside {key : TagKey} (defined : DefinedAt log key place) :
    place < log.length := by
  obtain ⟨other, here, -⟩ := defined
  exact Names.inside here

end Growth

end ClaudeC99.Names
