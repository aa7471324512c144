import RouteStubs.Name.Fresh

/-!
# Names of handlers

Handlers of one module have different names, and none has a name that the module uses itself. A
name met before gets the method after it; if that is taken too, a number.

## Main definitions

* `HandlerName.reserved`: the names that a module of handlers uses itself.
* `HandlerName.distinct`: names for handlers, given with their methods.
-/

namespace RouteStubs.HandlerName

/-- The names that a module of handlers uses itself. -/
def reserved : List String :=
  ["GROUP", "ROUTES", "Handler", "match", "dispatch", "httpx", "models", "annotations",
   "_segments", "_bind"]

/-- The names with the method added to each that has been seen before. A name with a method added
does not count as seen. -/
def withMethods (seen : List String) : List (String × String) → List String
  | [] => []
  | (name, method) :: rest =>
    if seen.contains name then (name ++ "_" ++ method) :: withMethods seen rest
    else name :: withMethods (name :: seen) rest

/-- The names with a number added to each that is taken. -/
def numbered (taken : List String) : List String → List String
  | [] => []
  | name :: rest =>
    let free := Name.fresh name taken
    free :: numbered (free :: taken) rest

/-- Names for handlers, given with their methods: all different, and none of them reserved. -/
def distinct (names : List (String × String)) : List String :=
  numbered reserved (withMethods reserved names)

end RouteStubs.HandlerName
