import RouteStubs.Body.Tree

/-!
# Suspension

A function whose body waits or yields does not give an answer when it is called. Two views of this:
a walk through the body that passes over nested definitions as a whole, and the suspensions that are
evaluated in the scope of the body, to which the decorators, default values, types and bases of
nested definitions belong.

## Main definitions

* `Stmt.anySuspends`: whether the walk meets a suspension.
* `Suspension`, `Stmt.allSuspensions`: the suspensions in the scope of some statements.
-/

namespace RouteStubs.Body

/-! ### The walk -/

mutual

/-- Whether an expression waits or yields; an anonymous function is left out. -/
def Expr.suspends : Expr → Bool
  | .name _ => false
  | .constant => false
  | .compound parts => Expr.anySuspends parts
  | .display _ items => Expr.anySuspends items
  | .attribute of _ => of.suspends
  | .item of index => of.suspends || index.suspends
  | .starred inner => inner.suspends
  | .call function arguments keywords =>
    function.suspends || Expr.anySuspends arguments || Expr.anyKeywordSuspends keywords
  | .wait _ => true
  | .yields _ _ => true
  | .lambda _ _ _ => false
  | .comprehension _ elements clauses => Expr.anySuspends elements || Clause.anySuspends clauses
  | .named _ value => value.suspends

/-- Whether one of some expressions suspends. -/
def Expr.anySuspends : List Expr → Bool
  | [] => false
  | e :: rest => e.suspends || Expr.anySuspends rest

/-- Whether the value of a keyword argument suspends. -/
def Expr.anyKeywordSuspends : List (Option String × Expr) → Bool
  | [] => false
  | (_, e) :: rest => e.suspends || Expr.anyKeywordSuspends rest

/-- Whether a clause suspends. -/
def Clause.suspends : Clause → Bool
  | .mk _ target source conditions =>
    target.suspends || source.suspends || Expr.anySuspends conditions

/-- Whether one of some clauses suspends. -/
def Clause.anySuspends : List Clause → Bool
  | [] => false
  | c :: rest => c.suspends || Clause.anySuspends rest

end

/-- Whether a context or its target suspends. -/
def contextsSuspend (contexts : List (Expr × List Expr)) : Bool :=
  contexts.any fun c => c.1.suspends || Expr.anySuspends c.2

mutual

/-- Whether a statement waits or yields; nested functions and classes are left out. -/
def Stmt.suspends : Stmt → Bool
  | .simple parts => Expr.anySuspends parts
  | .assign targets value => Expr.anySuspends targets || value.suspends
  | .update target value => target.suspends || value.suspends
  | .typed _ target type value => target.suspends || type.suspends || Expr.anySuspends value
  | .delete targets => Expr.anySuspends targets
  | .result value => Expr.anySuspends value
  | .jump => false
  | .imports _ => false
  | .importsAll => false
  | .importsFuture => false
  | .isGlobal _ => false
  | .isOuter _ => false
  | .choice test body otherwise =>
    test.suspends || Stmt.anySuspends body || Stmt.anySuspends otherwise
  | .loop test body otherwise =>
    test.suspends || Stmt.anySuspends body || Stmt.anySuspends otherwise
  | .each _ target source body otherwise =>
    target.suspends || source.suspends || Stmt.anySuspends body || Stmt.anySuspends otherwise
  | .using _ contexts body => contextsSuspend contexts || Stmt.anySuspends body
  | .attempt _ body handlers otherwise last =>
    Stmt.anySuspends body || Handler.anySuspends handlers || Stmt.anySuspends otherwise ||
      Stmt.anySuspends last
  | .function _ _ _ _ _ _ => false
  | .class_ _ _ _ _ _ => false

/-- Whether one of some statements suspends. -/
def Stmt.anySuspends : List Stmt → Bool
  | [] => false
  | s :: rest => s.suspends || Stmt.anySuspends rest

/-- Whether a handler suspends. -/
def Handler.suspends : Handler → Bool
  | .mk type _ body => Expr.anySuspends type || Stmt.anySuspends body

/-- Whether one of some handlers suspends. -/
def Handler.anySuspends : List Handler → Bool
  | [] => false
  | h :: rest => h.suspends || Handler.anySuspends rest

end

/-! ### The scope of a body -/

/-- What suspends a function. -/
inductive Suspension where
  /-- Waiting for a result. -/
  | waits
  /-- Yielding a value. -/
  | yields
  deriving DecidableEq, Repr

mutual

/-- The suspensions that are evaluated where an expression stands. -/
def Expr.suspensions : Expr → List Suspension
  | .name _ => []
  | .constant => []
  | .compound parts => Expr.allSuspensions parts
  | .display _ items => Expr.allSuspensions items
  | .attribute of _ => of.suspensions
  | .item of index => of.suspensions ++ index.suspensions
  | .starred inner => inner.suspensions
  | .call function arguments keywords =>
    function.suspensions ++ Expr.allSuspensions arguments ++ Expr.keywordSuspensions keywords
  | .wait inner => .waits :: inner.suspensions
  | .yields _ value => .yields :: Expr.allSuspensions value
  | .lambda _ defaults _ => Expr.allSuspensions defaults
  | .comprehension _ elements clauses =>
    Expr.allSuspensions elements ++ Clause.allSuspensions clauses
  | .named _ value => value.suspensions

/-- The suspensions of some expressions. -/
def Expr.allSuspensions : List Expr → List Suspension
  | [] => []
  | e :: rest => e.suspensions ++ Expr.allSuspensions rest

/-- The suspensions of the values of keyword arguments. -/
def Expr.keywordSuspensions : List (Option String × Expr) → List Suspension
  | [] => []
  | (_, e) :: rest => e.suspensions ++ Expr.keywordSuspensions rest

/-- The suspensions of a clause. -/
def Clause.suspensions : Clause → List Suspension
  | .mk _ target source conditions =>
    target.suspensions ++ source.suspensions ++ Expr.allSuspensions conditions

/-- The suspensions of some clauses. -/
def Clause.allSuspensions : List Clause → List Suspension
  | [] => []
  | c :: rest => c.suspensions ++ Clause.allSuspensions rest

end

/-- The suspensions of contexts and their targets. -/
def contextSuspensions (contexts : List (Expr × List Expr)) : List Suspension :=
  contexts.flatMap fun c => c.1.suspensions ++ Expr.allSuspensions c.2

mutual

/-- The suspensions that are evaluated where a statement stands. -/
def Stmt.suspensions : Stmt → List Suspension
  | .simple parts => Expr.allSuspensions parts
  | .assign targets value => Expr.allSuspensions targets ++ value.suspensions
  | .update target value => target.suspensions ++ value.suspensions
  | .typed _ target type value =>
    target.suspensions ++ type.suspensions ++ Expr.allSuspensions value
  | .delete targets => Expr.allSuspensions targets
  | .result value => Expr.allSuspensions value
  | .jump => []
  | .imports _ => []
  | .importsAll => []
  | .importsFuture => []
  | .isGlobal _ => []
  | .isOuter _ => []
  | .choice test body otherwise =>
    test.suspensions ++ Stmt.allSuspensions body ++ Stmt.allSuspensions otherwise
  | .loop test body otherwise =>
    test.suspensions ++ Stmt.allSuspensions body ++ Stmt.allSuspensions otherwise
  | .each _ target source body otherwise =>
    target.suspensions ++ source.suspensions ++ Stmt.allSuspensions body ++
      Stmt.allSuspensions otherwise
  | .using _ contexts body => contextSuspensions contexts ++ Stmt.allSuspensions body
  | .attempt _ body handlers otherwise last =>
    Stmt.allSuspensions body ++ Handler.allSuspensions handlers ++
      Stmt.allSuspensions otherwise ++ Stmt.allSuspensions last
  | .function _ _ _ outside types _ =>
    Expr.allSuspensions outside ++ Expr.allSuspensions types
  | .class_ _ outside bases keywords _ =>
    Expr.allSuspensions outside ++ Expr.allSuspensions bases ++ Expr.keywordSuspensions keywords

/-- The suspensions in the scope of some statements. -/
def Stmt.allSuspensions : List Stmt → List Suspension
  | [] => []
  | s :: rest => s.suspensions ++ Stmt.allSuspensions rest

/-- The suspensions of a handler. -/
def Handler.suspensions : Handler → List Suspension
  | .mk type _ body => Expr.allSuspensions type ++ Stmt.allSuspensions body

/-- The suspensions of some handlers. -/
def Handler.allSuspensions : List Handler → List Suspension
  | [] => []
  | h :: rest => h.suspensions ++ Handler.allSuspensions rest

end

end RouteStubs.Body
