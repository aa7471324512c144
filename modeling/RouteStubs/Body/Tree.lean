/-!
# Trees of statements

Python statements and expressions as far as their meaning as the body of a function goes: what
binds names, what opens a scope, what leaves a loop or a function, and what suspends. Operators are
not told apart, and constants have no value.

A definition inside a body has parts that are evaluated where it stands, such as its default values,
and parts that are evaluated when it is called; the trees keep them apart.

## Main definitions

* `Expr`, `Clause`: expressions, and the clauses of comprehensions.
* `Stmt`, `Handler`: statements, and the handlers of a `try` statement.
* `Expr.isTarget`, `Expr.isDeletable`: what can be assigned to and deleted.
-/

namespace RouteStubs.Body

/-- What a display makes. -/
inductive Display where
  /-- A tuple. -/
  | tuple
  /-- A list. -/
  | list
  /-- A set. -/
  | set
  deriving DecidableEq, Repr

mutual

/-- An expression. -/
inductive Expr where
  /-- A name. -/
  | name (id : String)
  /-- A constant. -/
  | constant
  /-- An expression that evaluates its parts and combines them: operators, comparisons, conditional
  expressions, mappings, slices and formatted texts. -/
  | compound (parts : List Expr)
  /-- A tuple, a list or a set. -/
  | display (kind : Display) (items : List Expr)
  /-- An attribute. -/
  | attribute (of : Expr) (name : String)
  /-- An item or a slice. -/
  | item (of index : Expr)
  /-- An unpacked expression. -/
  | starred (inner : Expr)
  /-- A call, with its keyword arguments; one without a name is an unpacked mapping. -/
  | call (function : Expr) (arguments : List Expr) (keywords : List (Option String × Expr))
  /-- Waits for a result. -/
  | wait (inner : Expr)
  /-- Yields a value, or all values of another generator. -/
  | yields (all : Bool) (value : List Expr)
  /-- An anonymous function. -/
  | lambda (parameters : List String) (defaults : List Expr) (body : Expr)
  /-- A comprehension; a lazy one is a generator. -/
  | comprehension (lazy : Bool) (elements : List Expr) (clauses : List Clause)
  /-- Assigns to a name and has the value assigned. -/
  | named (name : String) (value : Expr)

/-- A clause of a comprehension. -/
inductive Clause where
  /-- The target takes the items of the source, those that fulfil the conditions. -/
  | mk (waits : Bool) (target source : Expr) (conditions : List Expr)

end

instance : Inhabited Expr := ⟨.constant⟩

mutual

/-- A statement. -/
inductive Stmt where
  /-- Evaluates expressions: an expression, `raise`, `assert` and `pass`. -/
  | simple (parts : List Expr)
  /-- An assignment. -/
  | assign (targets : List Expr) (value : Expr)
  /-- An assignment that combines the old value with another. -/
  | update (target value : Expr)
  /-- A target with its type and possibly a value. A name in parentheses is not bare. -/
  | typed (bare : Bool) (target type : Expr) (value : List Expr)
  /-- Deletes targets. -/
  | delete (targets : List Expr)
  /-- Ends the function. -/
  | result (value : List Expr)
  /-- Ends a loop or starts its next round. -/
  | jump
  /-- Binds the names of modules or of their members. -/
  | imports (names : List String)
  /-- Binds all members of a module. -/
  | importsAll
  /-- Changes the language of the whole file. -/
  | importsFuture
  /-- Says that names are those of the module. -/
  | isGlobal (names : List String)
  /-- Says that names are those of an enclosing function. -/
  | isOuter (names : List String)
  /-- A choice between two blocks. -/
  | choice (test : Expr) (body otherwise : List Stmt)
  /-- A loop with a condition. -/
  | loop (test : Expr) (body otherwise : List Stmt)
  /-- A loop over the items of a source. -/
  | each (waits : Bool) (target source : Expr) (body otherwise : List Stmt)
  /-- A block inside contexts, each with at most one target. -/
  | using (waits : Bool) (contexts : List (Expr × List Expr)) (body : List Stmt)
  /-- A block with handlers of its exceptions, which handle groups of them if `groups` holds. -/
  | attempt (groups : Bool) (body : List Stmt) (handlers : List Handler)
      (otherwise last : List Stmt)
  /-- A function. The outside parts are its decorators and default values. The types of its
  parameters and of its result are kept but not evaluated. -/
  | function (waits : Bool) (name : String) (parameters : List String) (outside types : List Expr)
      (body : List Stmt)
  /-- A class. The outside parts are its decorators. -/
  | class_ (name : String) (outside bases : List Expr) (keywords : List (Option String × Expr))
      (body : List Stmt)

/-- A handler of exceptions. -/
inductive Handler where
  /-- Handles the exceptions of a type, or all, and may bind the exception to a name. -/
  | mk (type : List Expr) (name : Option String) (body : List Stmt)

end

instance : Inhabited Stmt := ⟨.jump⟩

/-! ### Targets -/

/-- Whether an expression is unpacked. -/
def Expr.isStarred : Expr → Bool
  | .starred _ => true
  | _ => false

mutual

/-- Whether an expression can be assigned to. Of the items of a target, one may take what is left
over. -/
def Expr.isTarget : Expr → Bool
  | .name _ => true
  | .attribute _ _ => true
  | .item _ _ => true
  | .starred inner => !inner.isStarred && inner.isTarget
  | .display kind items =>
    kind != .set && (items.filter Expr.isStarred).length ≤ 1 && Expr.allTargets items
  | _ => false

/-- Whether all of some expressions can be assigned to. -/
def Expr.allTargets : List Expr → Bool
  | [] => true
  | e :: rest => e.isTarget && Expr.allTargets rest

end

/-- Whether an expression is a target that holds one value. -/
def Expr.isPlace : Expr → Bool
  | .name _ => true
  | .attribute _ _ => true
  | .item _ _ => true
  | _ => false

mutual

/-- Whether an expression can be deleted. -/
def Expr.isDeletable : Expr → Bool
  | .display kind items => kind != .set && Expr.allDeletable items
  | e => e.isPlace

/-- Whether all of some expressions can be deleted. -/
def Expr.allDeletable : List Expr → Bool
  | [] => true
  | e :: rest => e.isDeletable && Expr.allDeletable rest

end

end RouteStubs.Body
