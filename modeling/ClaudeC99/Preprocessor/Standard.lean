import ClaudeC99.Preprocessor.Tokens

/-! Macro replacement as C99 6.10.3 has it: the replacement of a macro is scanned again together
with all the tokens that follow it. -/

namespace ClaudeC99.Preprocessor

/-- A macro by the tokens of its replacement list. -/
structure TokenMacro where
  name : Text
  params : Option (List Text)
  isVariadic : Bool
  body : List Item
  deriving DecidableEq, Repr

def findMacro (table : List TokenMacro) (name : Text) : Option TokenMacro :=
  table.find? fun m => m.name = name

inductive Origin
  | source
  | argument
  | replacement (name : Text)
  deriving DecidableEq, Repr

/-- What is left of a text that is being scanned. -/
structure Layer where
  origin : Origin
  items : List Item
  deriving DecidableEq, Repr

def Layer.replacing (layer : Layer) : Option Text :=
  match layer.origin with
  | .replacement name => some name
  | _ => none

/-- The macros whose replacement is being scanned. -/
def activeMacros (outer : List Text) (stack : List Layer) : List Text :=
  stack.filterMap Layer.replacing ++ outer

def upcomingIn (origin : Origin) (beyond : List Layer) : List Item → List (Item × List Layer)
  | [] => []
  | i :: items => (i, ⟨origin, items⟩ :: beyond) :: upcomingIn origin beyond items

/-- All that follows, each item with the stack that reading it leaves. -/
def upcoming : List Layer → List (Item × List Layer)
  | [] => []
  | ⟨origin, items⟩ :: beyond => upcomingIn origin beyond items ++ upcoming beyond

def afterBlanks (stack : List Layer) : List (Item × List Layer) :=
  (upcoming stack).dropWhile fun u => u.1.isBlank

def trimItems (arg : List Item) : List Item := (arg.reverse.dropWhile Item.isBlank).reverse

/-- The arguments up to the closing parenthesis, and what follows it. -/
def readArgs (depth : Nat) (arg : List Item) :
    List (Item × List Layer) → Option (List (List Item) × List Layer)
  | [] => none
  | (.blank c, _) :: more => readArgs depth (if arg = [] then [] else arg ++ [.blank c]) more
  | (.token .opening p, _) :: more => readArgs (depth + 1) (arg ++ [.token .opening p]) more
  | (.token .closing p, after) :: more =>
    if depth = 0 then some ([trimItems arg], after)
    else readArgs (depth - 1) (arg ++ [.token .closing p]) more
  | (.token .comma p, _) :: more =>
    if depth = 0 then (readArgs 0 [] more).map fun r => (trimItems arg :: r.1, r.2)
    else readArgs depth (arg ++ [.token .comma p]) more
  | (.token t p, _) :: more => readArgs depth (arg ++ [.token t p]) more

/-- 6.10.3p4: a macro without parameters takes no argument, and the `...` takes at least one. -/
def argsFit (isVariadic : Bool) (params : List Text) (args : List (List Item)) : Bool :=
  if isVariadic then params.length < args.length
  else args.length = params.length ∨ params = [] ∧ args = [[]]

def joinItems (args : List (List Item)) : List Item :=
  (args.intersperse [.token .comma false, .blank ' ']).flatten

def bindItems (isVariadic : Bool) (params : List Text) (args : List (List Item)) :
    List (Text × List Item) :=
  params.zip args ++
    if isVariadic then [("__VA_ARGS__".toList, joinItems (args.drop params.length))] else []

def substituteItem (bindings : List (Text × List Item)) : Item → List Item
  | .token (.name n) painted =>
    match bindings.find? fun b => b.1 = n with
    | some b => b.2
    | none => [.token (.name n) painted]
  | i => [i]

def substituteItems (bindings : List (Text × List Item)) (body : List Item) : List Item :=
  body.flatMap (substituteItem bindings)

/-- A token that the scan reads, with what it can see there: the rest of the text that the token is
in, and all that follows that text. -/
structure Site where
  token : Token
  painted : Bool
  active : List Text
  origin : Origin
  rest : List Item
  beyond : List Layer
  deriving DecidableEq, Repr

def Site.stack (s : Site) : List Layer := ⟨s.origin, s.rest⟩ :: s.beyond

inductive Reading
  | keep (painted : Bool)
  | rescan (m : TokenMacro)
  | call (m : TokenMacro) (params : List Text) (args : List (List Item)) (after : List Layer)
  | undefined
  deriving DecidableEq, Repr

/-- 6.10.3p10: the name of a function-like macro is a call when the next token, wherever it comes
from, is a parenthesis. -/
def Site.callReading (s : Site) (m : TokenMacro) (params : List Text) : Reading :=
  match afterBlanks s.stack with
  | (.token .opening _, _) :: more =>
    match readArgs 0 [] more with
    | some (args, after) =>
      if argsFit m.isVariadic params args then .call m params args after else .undefined
    | none => .undefined
  | _ => .keep false

/-- 6.10.3.4p2: a macro that is being replaced is painted, and stays so. -/
def Site.reading (table : List TokenMacro) (s : Site) : Reading :=
  match s.token with
  | .name n =>
    match findMacro table n with
    | none => .keep s.painted
    | some m =>
      if s.painted = true ∨ n ∈ s.active then .keep true
      else match m.params with
        | none => .rescan m
        | some params => s.callReading m params
  | _ => .keep s.painted

/-- The fully replaced text and the tokens read on the way, up to `fuel` steps. `outer` lists the
macros that were being replaced where the argument was written. There is no result when a call is
not closed or has the wrong number of arguments. -/
def standardExpand (table : List TokenMacro) :
    Nat → List Text → List Layer → Option (List Item × List Site)
  | 0, _, _ => none
  | _ + 1, _, [] => some ([], [])
  | fuel + 1, outer, ⟨_, []⟩ :: beyond => standardExpand table fuel outer beyond
  | fuel + 1, outer, ⟨origin, .blank c :: rest⟩ :: beyond =>
    (standardExpand table fuel outer (⟨origin, rest⟩ :: beyond)).map fun r =>
      (.blank c :: r.1, r.2)
  | fuel + 1, outer, ⟨origin, .token t painted :: rest⟩ :: beyond =>
    let here := ⟨origin, rest⟩ :: beyond
    let site : Site := ⟨t, painted, activeMacros outer here, origin, rest, beyond⟩
    match site.reading table with
    | .keep painted' =>
      (standardExpand table fuel outer here).map fun r =>
        (.token t painted' :: r.1, site :: r.2)
    | .rescan m =>
      (standardExpand table fuel outer (⟨.replacement m.name, m.body⟩ :: here)).map fun r =>
        (r.1, site :: r.2)
    | .call m params args after =>
      (args.mapM fun arg =>
        standardExpand table fuel (activeMacros outer after) [⟨.argument, arg⟩]).bind
      fun expanded =>
        let bindings := bindItems m.isVariadic params (expanded.map Prod.fst)
        (standardExpand table fuel outer
          (⟨.replacement m.name, substituteItems bindings m.body⟩ :: after)).map fun r =>
          (r.1, site :: expanded.flatMap Prod.snd ++ r.2)
    | .undefined => none

end ClaudeC99.Preprocessor
