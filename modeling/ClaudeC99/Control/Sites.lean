import ClaudeC99.Ast

/-! Where a function body jumps and what it jumps to, with the loops and switches around. -/

namespace ClaudeC99

/-- `switches` counts the switches around a statement; `loop` is that count at the innermost loop
around it. -/
inductive Site
  | breakAt (loop : Option Nat) (switches : Nat)
  | continueAt (loop : Option Nat) (switches : Nat)
  | caseAt (switches : Nat)
  | gotoAt (name : String) (switches : Nat)
  | labelAt (name : String) (switches : Nat)
  deriving DecidableEq, Repr

mutual

def Stmt.sites (loop : Option Nat) (switches : Nat) : Stmt → List Site
  | .breakStmt => [.breakAt loop switches]
  | .continueStmt => [.continueAt loop switches]
  | .gotoStmt name => [.gotoAt name switches]
  | .labelStmt name body => .labelAt name switches :: body.sites loop switches
  | .caseSection _ body => .caseAt switches :: body.sites loop switches
  | .defaultSection body => .caseAt switches :: body.sites loop switches
  | .switchStmt _ body => body.sites loop (switches + 1)
  | .whileStmt _ body => body.sites (some switches) switches
  | .doWhileStmt body _ => body.sites (some switches) switches
  | .forStmt init _ _ body =>
    Stmt.sitesOption (some switches) switches init ++ body.sites (some switches) switches
  | .ifStmt _ thenBody elseBody =>
    thenBody.sites loop switches ++ Stmt.sitesOption loop switches elseBody
  | .declList decls => Stmt.sitesList loop switches decls
  | .block stmts => Stmt.sitesList loop switches stmts
  | .declaration _ _ => []
  | .returnStmt _ => []
  | .exprStmt _ => []
  | .typedefDecl _ => []

def Stmt.sitesOption (loop : Option Nat) (switches : Nat) : Option Stmt → List Site
  | none => []
  | some s => s.sites loop switches

def Stmt.sitesList (loop : Option Nat) (switches : Nat) : List Stmt → List Site
  | [] => []
  | s :: ss => s.sites loop switches ++ Stmt.sitesList loop switches ss

end

/-- The checks of the parser's `loop_depth` and `switch_depth` counters. -/
def Site.nested : Site → Bool
  | .breakAt loop switches => loop.isSome || switches ≠ 0
  | .continueAt loop _ => loop.isSome
  | .caseAt switches => switches ≠ 0
  | .gotoAt _ _ => true
  | .labelAt _ _ => true

/-- What the parser accepts: no jump or case label stands outside the statement it belongs to. -/
def WellNested (body : List Stmt) : Prop :=
  ∀ site ∈ Stmt.sitesList none 0 body, site.nested = true

instance (body : List Stmt) : Decidable (WellNested body) :=
  inferInstanceAs (Decidable (∀ site ∈ _, _))

/-- No `continue` leaves a switch, and no `goto` changes the number of switches around. -/
structure KeepsSwitches (body : List Stmt) : Prop where
  continues : ∀ loop switches, .continueAt (some loop) switches ∈ Stmt.sitesList none 0 body →
    switches = loop
  gotos : ∀ name n m, .gotoAt name n ∈ Stmt.sitesList none 0 body →
    .labelAt name m ∈ Stmt.sitesList none 0 body → n = m

end ClaudeC99
