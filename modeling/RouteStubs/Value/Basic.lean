import RouteStubs.Number.Binary64

/-!
# Document values

What a parsed document is made of: scalars, lists and mappings. A mapping keeps its entries in
order and carries the identity of the place it was written at, so that two uses of one aliased
mapping can be told from two mappings that merely look alike.

## Main definitions

* `Scalar`: null, truth values, integers, floating-point numbers and text.
* `Value`: scalars, lists and mappings.
* `Value.same`: equality of values, which goes by number and not by kind of number.
* `Entries.find?`, `Entries.put`: look-up and replacement in the entries of a mapping.
* `Value.isTrue`: whether a value counts as given.
* `Value.depth`, `Value.references`: the measures that bound the walk through a document.
-/

namespace RouteStubs

/-- A value without parts. -/
inductive Scalar where
  /-- The null value. -/
  | null
  /-- A truth value. -/
  | bool (b : Bool)
  /-- An integer of any size. -/
  | int (n : Int)
  /-- A floating-point number. -/
  | real (x : Binary64)
  /-- A text. -/
  | text (s : String)
  deriving DecidableEq, Repr, Inhabited

/-- A parsed document or a part of one. -/
inductive Value where
  /-- A value without parts. -/
  | scalar (s : Scalar)
  /-- A list. -/
  | list (items : List Value)
  /-- A mapping: its identity, and its entries in order, no two with the same key. -/
  | mapping (origin : Nat) (entries : List (Scalar × Value))
  deriving Repr, Inhabited

/-- The entries of a mapping. -/
abbrev Entries := List (Scalar × Value)

namespace Scalar

/-- The integer that a truth value or an integer counts as. -/
def asInt? : Scalar → Option Int
  | .bool b => some (if b then 1 else 0)
  | .int n => some n
  | _ => none

/-- Equality of scalars. Numbers are equal when their values are, whatever their kinds, and a truth
value is the number one or zero. -/
def same : Scalar → Scalar → Bool
  | .null, .null => true
  | .text s, .text t => s == t
  | .real x, .real y => x.same y
  | .real x, b => (b.asInt?.map x.equalsInt).getD false
  | a, .real y => (a.asInt?.map y.equalsInt).getD false
  | a, b =>
    match a.asInt?, b.asInt? with
    | some m, some n => m == n
    | _, _ => false

/-- Equality of scalars of one kind: the number one, the number 1.0 and the truth value true are
three different scalars. -/
def sameKind : Scalar → Scalar → Bool
  | .null, .null => true
  | .bool a, .bool b => a == b
  | .int m, .int n => m == n
  | .real x, .real y => x.same y
  | .text s, .text t => s == t
  | _, _ => false

/-- Null, false, zero and the empty text count as not given. -/
def isTrue : Scalar → Bool
  | .null => false
  | .bool b => b
  | .int n => n != 0
  | .real x => !x.isZero
  | .text s => s != ""

end Scalar

namespace Entries

/-- The value at a key. -/
def find? (entries : Entries) (key : Scalar) : Option Value :=
  (List.find? (fun e => e.1.same key) entries).map Prod.snd

/-- The value at a text key. -/
def text? (entries : Entries) (key : String) : Option Value :=
  find? entries (.text key)

/-- Whether there is an entry at a text key. -/
def hasText (entries : Entries) (key : String) : Bool :=
  (text? entries key).isSome

/-- Sets the value at a key. A key that is there keeps its place and its spelling. -/
def put : Entries → Scalar → Value → Entries
  | [], key, v => [(key, v)]
  | (k, old) :: rest, key, v =>
    if k.same key then (k, v) :: rest else (k, old) :: put rest key v

/-- The mapping entries that a list of pairs writes, one after the other. -/
def ofPairs (pairs : List (Scalar × Value)) : Entries :=
  pairs.foldl (fun acc p => put acc p.1 p.2) []

end Entries

namespace Value

/-- The null value. -/
abbrev null : Value := .scalar .null

/-- A text value. -/
abbrev text (s : String) : Value := .scalar (.text s)

/-- A truth value. -/
abbrev bool (b : Bool) : Value := .scalar (.bool b)

mutual

/-- Equality of values: scalars by `Scalar.same`, lists item by item, and mappings when they hold
the same values at the same keys, in whatever order. -/
def same : Value → Value → Bool
  | .scalar a, .scalar b => a.same b
  | .list as, .list bs => sameItems as bs
  | .mapping _ as, .mapping _ bs => as.length == bs.length && sameEntries as bs
  | _, _ => false

/-- Item by item equality of two lists. -/
def sameItems : List Value → List Value → Bool
  | [], [] => true
  | a :: as, b :: bs => same a b && sameItems as bs
  | _, _ => false

/-- Whether each entry has its equal in the mapping `bs`. -/
def sameEntries : List (Scalar × Value) → Entries → Bool
  | [], _ => true
  | (k, a) :: as, bs =>
    (match Entries.find? bs k with
      | some b => same a b
      | none => false) && sameEntries as bs

end

/-- Null, false, zero and what is empty count as not given. -/
def isTrue : Value → Bool
  | .scalar s => s.isTrue
  | .list items => !items.isEmpty
  | .mapping _ entries => !entries.isEmpty

/-- The entry of a mapping at a text key; nothing for other values. -/
def member? (v : Value) (key : String) : Option Value :=
  match v with
  | .mapping _ entries => Entries.text? entries key
  | _ => none

/-- Whether the value is a mapping. -/
def isMapping : Value → Bool
  | .mapping _ _ => true
  | _ => false

/-- Whether the value is a list. -/
def isList : Value → Bool
  | .list _ => true
  | _ => false

/-- Whether the value is this text. -/
def isText (v : Value) (s : String) : Bool :=
  match v with
  | .scalar (.text t) => t == s
  | _ => false

mutual

/-- The greatest number of mappings and lists around a part of the value, itself included. -/
def depth : Value → Nat
  | .scalar _ => 1
  | .list items => depthItems items + 1
  | .mapping _ entries => depthEntries entries + 1

/-- The greatest depth of the items of a list. -/
def depthItems : List Value → Nat
  | [] => 0
  | v :: rest => max (depth v) (depthItems rest)

/-- The greatest depth of the values of a mapping. -/
def depthEntries : List (Scalar × Value) → Nat
  | [] => 0
  | (_, v) :: rest => max (depth v) (depthEntries rest)

end

mutual

/-- The texts under the key `$ref`, in the value and its parts. -/
def references : Value → List String
  | .scalar _ => []
  | .list items => referencesOfItems items
  | .mapping _ entries => referencesOfEntries entries

/-- The texts under the key `$ref` in the items of a list. -/
def referencesOfItems : List Value → List String
  | [] => []
  | v :: rest => references v ++ referencesOfItems rest

/-- The texts under the key `$ref` in the entries of a mapping. -/
def referencesOfEntries : List (Scalar × Value) → List String
  | [] => []
  | (k, v) :: rest =>
    let here := match k, v with
      | .text "$ref", .scalar (.text r) => [r]
      | _, _ => []
    here ++ references v ++ referencesOfEntries rest

end

/-- Whether the value can be a key: lists and mappings cannot. -/
def isKey : Value → Bool
  | .scalar _ => true
  | _ => false

end Value

end RouteStubs
