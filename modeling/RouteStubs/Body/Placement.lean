import RouteStubs.Body.Suspension

/-!
# Where expressions and statements may stand

Rules that the grammar does not know: what may only stand in a function, in an asynchronous one or
in a loop, where values may be unpacked, and which names may not occur twice. The place of an
expression is the scope around it, together with what the comprehensions around it forbid.

## Main definitions

* `Place`: the scope, and what is allowed there.
* `Expr.fits`, `Stmt.fits`: whether an expression or a statement may stand at a place.
* `Expr.pauses`: whether an expression makes the scope that it is evaluated in asynchronous.
-/

namespace RouteStubs.Body

/-- What opens a scope. -/
inductive Scope where
  /-- A module. -/
  | module
  /-- A function. -/
  | function
  /-- An asynchronous function. -/
  | async
  /-- An anonymous function. -/
  | lambda
  /-- A class. -/
  | class_
  /-- A comprehension. -/
  | comprehension
  /-- A type. -/
  | type
  deriving DecidableEq, Repr

/-- Where something stands. -/
structure Place where
  /-- The innermost scope. -/
  scope : Scope
  /-- Whether a loop of that scope can be left here. -/
  inLoop : Bool
  /-- Whether the function can be left here. -/
  returns : Bool
  /-- Whether the function is asynchronous and yields. -/
  streams : Bool
  /-- Whether the innermost scope that is no comprehension is a class. -/
  inClass : Bool
  /-- Whether this is a part of the source of a comprehension. -/
  inSource : Bool
  /-- Whether this is a part of a type. Types are not evaluated. -/
  inType : Bool
  /-- The names that the comprehensions of the innermost scope assign to. -/
  taken : List String

namespace Place

/-- The place of the statements of a file. -/
def top : Place := ⟨.module, false, false, false, false, false, false, []⟩

/-- The start of a function or a class. -/
def enter (p : Place) (scope : Scope) (streams : Bool) : Place :=
  ⟨scope, false, scope != .class_, streams, scope == .class_, p.inSource, p.inType, []⟩

/-- The inside of a comprehension that assigns to the given names. -/
def comprehend (p : Place) (names : List String) : Place :=
  { p with scope := .comprehension, taken := names ++ p.taken }

/-- The place of a type. -/
def typed (p : Place) : Place := { p with scope := .type, inType := true }

/-- Whether an expression may wait here. In a scope inside a type nothing comes of it. -/
def waits (p : Place) : Bool :=
  p.scope == .async || p.scope == .comprehension || (p.inType && p.scope != .type)

/-- Whether an expression may yield here. -/
def yields (p : Place) (all : Bool) : Bool :=
  p.scope == .function || p.scope == .lambda || (p.scope == .async && !all)

/-- Whether a name may be assigned to inside an expression here. -/
def binds (p : Place) (name : String) : Bool :=
  !p.inSource && !p.taken.contains name && !(p.scope == .comprehension && p.inClass) &&
    p.scope != .type

end Place

/-- Whether no name occurs twice. -/
def allDistinct : List String → Bool
  | [] => true
  | n :: rest => !rest.contains n && allDistinct rest

/-! ### Names that are assigned to -/

mutual

/-- The names that a target assigns to. -/
def Expr.targetNames : Expr → List String
  | .name id => [id]
  | .starred inner => inner.targetNames
  | .display _ items => Expr.allTargetNames items
  | _ => []

/-- The names that some targets assign to. -/
def Expr.allTargetNames : List Expr → List String
  | [] => []
  | e :: rest => e.targetNames ++ Expr.allTargetNames rest

end

/-- The names that some clauses assign to. -/
def Clause.allNames (clauses : List Clause) : List String :=
  clauses.flatMap fun c => match c with
    | .mk _ target _ _ => target.targetNames

/-! ### Asynchronous scopes -/

mutual

/-- Whether an expression makes the scope that it is evaluated in asynchronous: it waits, or it has
a comprehension that does and is no generator. -/
def Expr.pauses : Expr → Bool
  | .name _ => false
  | .constant => false
  | .compound parts => Expr.anyPauses parts
  | .display _ items => Expr.anyPauses items
  | .attribute of _ => of.pauses
  | .item of index => of.pauses || index.pauses
  | .starred inner => inner.pauses
  | .call function arguments keywords =>
    function.pauses || Expr.anyPauses arguments || Expr.anyKeywordPauses keywords
  | .wait _ => true
  | .yields _ value => Expr.anyPauses value
  | .lambda _ defaults _ => Expr.anyPauses defaults
  | .comprehension lazy elements clauses =>
    Clause.firstSourcePauses clauses ||
      (!lazy && (Expr.anyPauses elements || Clause.anyPauses true clauses))
  | .named _ value => value.pauses

/-- Whether one of some expressions pauses. -/
def Expr.anyPauses : List Expr → Bool
  | [] => false
  | e :: rest => e.pauses || Expr.anyPauses rest

/-- Whether the value of a keyword argument pauses. -/
def Expr.anyKeywordPauses : List (Option String × Expr) → Bool
  | [] => false
  | (_, e) :: rest => e.pauses || Expr.anyKeywordPauses rest

/-- Whether the source of the first clause pauses; it is evaluated outside the comprehension. -/
def Clause.firstSourcePauses : List Clause → Bool
  | [] => false
  | .mk _ _ source _ :: _ => source.pauses

/-- Whether what is evaluated inside a comprehension pauses. -/
def Clause.anyPauses : (first : Bool) → List Clause → Bool
  | _, [] => false
  | first, .mk waits target source conditions :: rest =>
    waits || target.pauses || (!first && source.pauses) || Expr.anyPauses conditions ||
      Clause.anyPauses false rest

end

/-! ### Expressions -/

mutual

/-- Whether an expression may stand at a place. -/
def Expr.fits (p : Place) : Expr → Bool
  | .name _ => true
  | .constant => true
  | .compound parts => Expr.allFit p parts
  | .display _ items => Expr.allItemsFit p items
  | .attribute of _ => of.fits p
  | .item of index => of.fits p && index.fits p
  | .starred _ => false
  | .call function arguments keywords =>
    function.fits p && Expr.allItemsFit p arguments && Expr.allKeywordsFit p keywords &&
      (p.inType || allDistinct (keywords.filterMap Prod.fst))
  | .wait inner => p.waits && inner.fits p
  | .yields all value => p.yields all && Expr.allFit p value
  | .lambda parameters defaults body =>
    allDistinct parameters && Expr.allFit p defaults && body.fits (p.enter .lambda false)
  | .comprehension lazy elements clauses =>
    let inside := p.comprehend (Clause.allNames clauses)
    (lazy || p.waits || p.inType || !(Expr.anyPauses elements || Clause.anyPauses true clauses)) &&
      Clause.firstSourceFits p clauses && Clause.allFit inside true clauses &&
      Expr.allFit inside elements
  | .named name value => p.binds name && value.fits p

/-- Whether all of some expressions may stand at a place. -/
def Expr.allFit (p : Place) : List Expr → Bool
  | [] => true
  | e :: rest => e.fits p && Expr.allFit p rest

/-- Whether all of some expressions may stand at a place where values may be unpacked. -/
def Expr.allItemsFit (p : Place) : List Expr → Bool
  | [] => true
  | .starred e :: rest => e.fits p && Expr.allItemsFit p rest
  | e :: rest => e.fits p && Expr.allItemsFit p rest

/-- Whether the values of keyword arguments may stand at a place. -/
def Expr.allKeywordsFit (p : Place) : List (Option String × Expr) → Bool
  | [] => true
  | (_, e) :: rest => e.fits p && Expr.allKeywordsFit p rest

/-- Whether the source of the first clause may stand at the place of its comprehension. -/
def Clause.firstSourceFits (p : Place) : List Clause → Bool
  | [] => true
  | .mk _ _ source _ :: _ => source.fits { p with inSource := true }

/-- Whether what is evaluated inside a comprehension may stand there. -/
def Clause.allFit (inside : Place) : (first : Bool) → List Clause → Bool
  | _, [] => true
  | first, .mk _ target source conditions :: rest =>
    target.fits inside && (first || source.fits { inside with inSource := true }) &&
      Expr.allFit inside conditions && Clause.allFit inside false rest

end

/-! ### Statements -/

/-- Whether contexts and their targets may stand at a place. -/
def contextsFit (p : Place) (contexts : List (Expr × List Expr)) : Bool :=
  contexts.all fun c => c.1.fits p && Expr.allFit p c.2

/-- Whether only the last handler handles all exceptions. -/
def typelessLast : List Handler → Bool
  | [] => true
  | [_] => true
  | .mk type _ _ :: rest => !type.isEmpty && typelessLast rest

mutual

/-- Whether a statement may stand at a place. -/
def Stmt.fits (p : Place) : Stmt → Bool
  | .simple parts => Expr.allFit p parts
  | .assign targets value => Expr.allFit p targets && value.fits p
  | .update target value => target.fits p && value.fits p
  | .typed _ target type value => target.fits p && type.fits p.typed && Expr.allFit p value
  | .delete targets => Expr.allFit p targets
  | .result value =>
    (p.scope == .function || p.scope == .async) && p.returns && (value.isEmpty || !p.streams) &&
      Expr.allFit p value
  | .jump => p.inLoop
  | .imports _ => true
  | .importsAll => p.scope == .module
  | .importsFuture => false
  | .isGlobal _ => true
  | .isOuter _ => true
  | .choice test body otherwise => test.fits p && Stmt.allFit p body && Stmt.allFit p otherwise
  | .loop test body otherwise =>
    test.fits p && Stmt.allFit { p with inLoop := true } body && Stmt.allFit p otherwise
  | .each waits target source body otherwise =>
    (!waits || p.scope == .async) && target.fits p && source.fits p &&
      Stmt.allFit { p with inLoop := true } body && Stmt.allFit p otherwise
  | .using waits contexts body =>
    (!waits || p.scope == .async) && contextsFit p contexts && Stmt.allFit p body
  | .attempt groups body handlers otherwise last =>
    Stmt.allFit p body && typelessLast handlers &&
      Handler.allFit (if groups then { p with inLoop := false, returns := false } else p)
        handlers &&
      Stmt.allFit p otherwise && Stmt.allFit p last
  | .function waits _ parameters outside types body =>
    let streams := waits && (Stmt.allSuspensions body).contains .yields
    allDistinct parameters && Expr.allFit p outside && Expr.allFit p.typed types &&
      Stmt.allFit (p.enter (if waits then .async else .function) streams) body
  | .class_ _ outside bases keywords body =>
    Expr.allFit p outside && Expr.allItemsFit p bases && Expr.allKeywordsFit p keywords &&
      allDistinct (keywords.filterMap Prod.fst) && Stmt.allFit (p.enter .class_ false) body

/-- Whether all of some statements may stand at a place. -/
def Stmt.allFit (p : Place) : List Stmt → Bool
  | [] => true
  | s :: rest => s.fits p && Stmt.allFit p rest

/-- Whether a handler may stand at a place. The type of what it handles is looked at with the
block. -/
def Handler.fits (p : Place) : Handler → Bool
  | .mk type _ body => Expr.allFit p type && Stmt.allFit p body

/-- Whether all of some handlers may stand at a place. -/
def Handler.allFit (p : Place) : List Handler → Bool
  | [] => true
  | h :: rest => h.fits p && Handler.allFit p rest

end

end RouteStubs.Body
