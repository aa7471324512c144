import RouteStubs.Body.Tree

/-!
# Names and their scopes

A function can say that a name is that of the module or of an enclosing function. It has to say so
before the name occurs, and the enclosing function has to have the name.

## Main definitions

* `Mention`: what happens to names in a scope, in order, with the scopes inside it.
* `Stmt.allMentions`: what happens to names in some statements.
* `Mention.allFit`: whether all names that are said to be of another scope can be.
-/

namespace RouteStubs.Body

/-- What happens to a name in a scope. -/
inductive Mention where
  /-- The name is used. -/
  | used (name : String)
  /-- The name is bound. -/
  | bound (name : String)
  /-- The name is bound with a type. -/
  | typed (name : String)
  /-- The name is said to be of the module. -/
  | isGlobal (name : String)
  /-- The name is said to be of an enclosing function. -/
  | isOuter (name : String)
  /-- A scope inside this one: of a class or a function, with its parameters. -/
  | scope (isClass : Bool) (parameters : List String) (inside : List Mention)

namespace Mention

/-- The name that is bound. -/
def bound? : Mention → Option String
  | .bound name => some name
  | .typed name => some name
  | _ => none

/-- The name that is bound with a type. -/
def typed? : Mention → Option String
  | .typed name => some name
  | _ => none

/-- The name that is said to be of the module. -/
def global? : Mention → Option String
  | .isGlobal name => some name
  | _ => none

/-- The name that is said to be of an enclosing function. -/
def outer? : Mention → Option String
  | .isOuter name => some name
  | _ => none

/-- Whether each name is said to be of another scope before it occurs; `seen` have occurred. -/
def ordered (seen : List String) : List Mention → Bool
  | [] => true
  | .used name :: rest => ordered (name :: seen) rest
  | .bound name :: rest => ordered (name :: seen) rest
  | .typed name :: rest => ordered (name :: seen) rest
  | .isGlobal name :: rest => !seen.contains name && ordered seen rest
  | .isOuter name :: rest => !seen.contains name && ordered seen rest
  | .scope _ _ _ :: rest => ordered seen rest

/-- Whether the names of a scope can be of the scopes that they are said to be of, where enclosing
functions have the names `outer`. -/
def scopeFits (outer parameters : List String) (inside : List Mention) : Bool :=
  let globals := inside.filterMap global?
  let outers := inside.filterMap outer?
  ordered parameters inside && outers.all (fun n => outer.contains n && !globals.contains n) &&
    (inside.filterMap typed?).all fun n => !globals.contains n && !outers.contains n

/-- The names that enclosing functions have for the scopes inside a scope. The methods of a class
have one name for it. -/
def outerInside (outer : List String) (isClass : Bool) (parameters : List String)
    (inside : List Mention) : List String :=
  if isClass then "__class__" :: outer
  else
    let globals := inside.filterMap global?
    (parameters ++ inside.filterMap bound? ++ outer).filter fun n => !globals.contains n

mutual

/-- Whether the names of a scope inside this one can be of the scopes that they are said to be
of. -/
def fits (outer : List String) : Mention → Bool
  | .scope isClass parameters inside =>
    scopeFits outer parameters inside &&
      allFit (outerInside outer isClass parameters inside) inside
  | _ => true

/-- Whether the names of all scopes inside this one can be of the scopes that they are said to be
of. -/
def allFit (outer : List String) : List Mention → Bool
  | [] => true
  | m :: rest => m.fits outer && allFit outer rest

end

end Mention

/-! ### Expressions -/

mutual

/-- What happens to names where an expression is evaluated. -/
def Expr.mentions : Expr → List Mention
  | .name id => [.used id]
  | .constant => []
  | .compound parts => Expr.allMentions parts
  | .display _ items => Expr.allMentions items
  | .attribute of _ => of.mentions
  | .item of index => of.mentions ++ index.mentions
  | .starred inner => inner.mentions
  | .call function arguments keywords =>
    function.mentions ++ Expr.allMentions arguments ++ Expr.keywordMentions keywords
  | .wait inner => inner.mentions
  | .yields _ value => Expr.allMentions value
  | .lambda _ defaults _ => Expr.allMentions defaults
  | .comprehension _ elements clauses =>
    Clause.firstMentions clauses ++
      (Expr.allMentions elements ++ Clause.insideMentions clauses).filter fun m =>
        m.bound?.isSome
  | .named name value => value.mentions ++ [.bound name]

/-- What happens to names in some expressions. -/
def Expr.allMentions : List Expr → List Mention
  | [] => []
  | e :: rest => e.mentions ++ Expr.allMentions rest

/-- What happens to names in the values of keyword arguments. -/
def Expr.keywordMentions : List (Option String × Expr) → List Mention
  | [] => []
  | (_, e) :: rest => e.mentions ++ Expr.keywordMentions rest

/-- What happens to names in the source of the first clause. -/
def Clause.firstMentions : List Clause → List Mention
  | [] => []
  | .mk _ _ source _ :: _ => source.mentions

/-- What happens to names in the conditions of clauses. -/
def Clause.insideMentions : List Clause → List Mention
  | [] => []
  | .mk _ _ _ conditions :: rest => Expr.allMentions conditions ++ Clause.insideMentions rest

end

mutual

/-- What happens to names in a target. -/
def Expr.targetMentions : Expr → List Mention
  | .name id => [.bound id]
  | .starred inner => inner.targetMentions
  | .display _ items => Expr.allTargetMentions items
  | e => e.mentions

/-- What happens to names in some targets. -/
def Expr.allTargetMentions : List Expr → List Mention
  | [] => []
  | e :: rest => e.targetMentions ++ Expr.allTargetMentions rest

end

/-- What happens to names in a target with a type. A name in parentheses is bound only if it is
assigned to. -/
def Expr.typedMentions (bare assigned : Bool) : Expr → List Mention
  | .name id => if bare then [.typed id] else if assigned then [.bound id] else []
  | e => e.mentions

/-- What happens to names in types. They are not evaluated, so no name is used, but a comprehension
inside one still binds names for the scope around it. -/
def Expr.allTypeMentions (types : List Expr) : List Mention :=
  (Expr.allMentions types).filter fun m => m.bound?.isSome

/-- What happens to names in contexts. -/
def contextMentions (contexts : List (Expr × List Expr)) : List Mention :=
  contexts.flatMap fun c => c.1.mentions ++ Expr.allTargetMentions c.2

/-! ### Statements -/

mutual

/-- What happens to names in a statement. -/
def Stmt.mentions : Stmt → List Mention
  | .simple parts => Expr.allMentions parts
  | .assign targets value => Expr.allTargetMentions targets ++ value.mentions
  | .update target value => target.targetMentions ++ value.mentions
  | .typed bare target type value =>
    target.typedMentions bare (!value.isEmpty) ++ Expr.allTypeMentions [type] ++ Expr.allMentions value
  | .delete targets => Expr.allTargetMentions targets
  | .result value => Expr.allMentions value
  | .jump => []
  | .imports names => names.map .bound
  | .importsAll => []
  | .importsFuture => []
  | .isGlobal names => names.map .isGlobal
  | .isOuter names => names.map .isOuter
  | .choice test body otherwise =>
    test.mentions ++ Stmt.allMentions body ++ Stmt.allMentions otherwise
  | .loop test body otherwise =>
    test.mentions ++ Stmt.allMentions body ++ Stmt.allMentions otherwise
  | .each _ target source body otherwise =>
    target.targetMentions ++ source.mentions ++ Stmt.allMentions body ++
      Stmt.allMentions otherwise
  | .using _ contexts body => contextMentions contexts ++ Stmt.allMentions body
  | .attempt _ body handlers otherwise last =>
    Stmt.allMentions body ++ Stmt.allMentions otherwise ++ Handler.allMentions handlers ++
      Stmt.allMentions last
  | .function _ name parameters outside types body =>
    .bound name :: Expr.allMentions outside ++ Expr.allTypeMentions types ++
      [.scope false parameters (Stmt.allMentions body)]
  | .class_ name outside bases keywords body =>
    .bound name :: Expr.allMentions outside ++ Expr.allMentions bases ++
      Expr.keywordMentions keywords ++ [.scope true [] (Stmt.allMentions body)]

/-- What happens to names in some statements. -/
def Stmt.allMentions : List Stmt → List Mention
  | [] => []
  | s :: rest => s.mentions ++ Stmt.allMentions rest

/-- What happens to names in a handler. -/
def Handler.mentions : Handler → List Mention
  | .mk type name body =>
    Expr.allMentions type ++ name.toList.map .bound ++ Stmt.allMentions body

/-- What happens to names in some handlers. -/
def Handler.allMentions : List Handler → List Mention
  | [] => []
  | h :: rest => h.mentions ++ Handler.allMentions rest

end

end RouteStubs.Body
