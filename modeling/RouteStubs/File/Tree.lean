import RouteStubs.File.Path
import RouteStubs.Text.Quoted

/-!
# Files

A tree of directories and files, and the directory that one is in. Paths are followed name by name:
what is on the way has to be a directory, and double points lead back to the directory around it.

## Main definitions

* `Files`: the tree.
* `Files.Problem`: why a path cannot be used, with `Files.Problem.message`.
* `Files.read`, `Files.write`: reads and writes a file.
* `Files.makeDirectories`: makes a directory and those around it.
-/

namespace RouteStubs

/-- A place in a tree: the names that lead there from the root. -/
abbrev Location := List String

/-- What is at a place. -/
inductive FileEntry where
  /-- A directory. -/
  | directory
  /-- A file. -/
  | file (content : ByteArray)

/-- A tree of directories and files. -/
structure Files where
  /-- The directory that one is in. -/
  here : Location
  /-- What is at which place, the root aside. -/
  entries : List (Location × FileEntry)

namespace Files

/-- Why a path cannot be used. -/
inductive Problem where
  /-- There is nothing at the path. -/
  | missing
  /-- There is something at the path. -/
  | occupied
  /-- On the way there is a file. -/
  | notDirectory
  /-- There is a directory at the path. -/
  | directory
  deriving DecidableEq, Repr

/-- The number and the wording of a problem. -/
def Problem.report : Problem → String
  | .missing => "[Errno 2] No such file or directory"
  | .occupied => "[Errno 17] File exists"
  | .notDirectory => "[Errno 20] Not a directory"
  | .directory => "[Errno 21] Is a directory"

/-- The wording of a problem with a path. -/
def Problem.message (problem : Problem) (path : Path) : String :=
  problem.report ++ ": " ++ Text.quoted path.text

/-! ### Looking -/

/-- What is at a place. -/
def at? (fs : Files) (place : Location) : Option FileEntry :=
  if place.isEmpty then some .directory else fs.entries.lookup place

/-- The place that a name leads to from another place, which has to be a directory. -/
def follow (fs : Files) (place : Location) (name : String) : Except Problem Location :=
  match fs.at? place with
  | none => .error .missing
  | some (.file _) => .error .notDirectory
  | some .directory => .ok (if name == ".." then place.dropLast else place ++ [name])

/-- The place of a path. There need not be anything at it. -/
def locate (fs : Files) (path : Path) : Except Problem Location :=
  path.segments.foldlM fs.follow (if path.root == "" then fs.here else [])

/-- What is at a path. -/
def entry? (fs : Files) (path : Path) : Option FileEntry :=
  match fs.locate path with
  | .ok place => fs.at? place
  | .error _ => none

/-- The content of a file. -/
def read (fs : Files) (path : Path) : Except Problem ByteArray := do
  match fs.at? (← fs.locate path) with
  | none => throw .missing
  | some .directory => throw .directory
  | some (.file content) => return content

/-! ### Changing -/

/-- Sets what is at a place. What is new comes last. -/
def put (fs : Files) (place : Location) (entry : FileEntry) : Files :=
  if (fs.entries.lookup place).isSome then
    { fs with entries := fs.entries.map fun e => if e.1 == place then (place, entry) else e }
  else { fs with entries := fs.entries ++ [(place, entry)] }

/-- Makes a directory inside one that is there. -/
def makeDirectory (fs : Files) (path : Path) : Except Problem Files := do
  let place ← fs.locate path
  match fs.at? place with
  | some _ => throw .occupied
  | none => return fs.put place .directory

/-- What becomes of a directory that could not be made: if it is there, nothing is wrong. -/
def unlessDirectory (fs : Files) (path : Path) (problem : Problem) :
    Except (Path × Problem) Unit :=
  match fs.entry? path with
  | some .directory => .ok ()
  | _ => .error (path, problem)

/-- Makes a directory and those around it, as far as they are missing; at most so many. What has
been made stays when one cannot be made. -/
def makeFrom : (steps : Nat) → Path → ExceptT (Path × Problem) (StateM Files) Unit
  | 0, path => throw (path, .missing)
  | steps + 1, path => do
    match (← get).makeDirectory path with
    | .ok fs => set fs
    | .error .missing =>
      if path.segments.isEmpty then throw (path, .missing)
      makeFrom steps path.parent
      match (← get).makeDirectory path with
      | .ok fs => set fs
      | .error .missing => throw (path, .missing)
      | .error problem => MonadExcept.ofExcept ((← get).unlessDirectory path problem)
    | .error problem => MonadExcept.ofExcept ((← get).unlessDirectory path problem)

/-- Makes a directory and those around it, as far as they are missing. -/
def makeDirectories (path : Path) : ExceptT (Path × Problem) (StateM Files) Unit :=
  makeFrom (path.segments.length + 1) path

/-- Writes a file in a directory that is there. A file that is there is replaced. -/
def write (path : Path) (content : ByteArray) : ExceptT (Path × Problem) (StateM Files) Unit := do
  let fs ← get
  match fs.locate path with
  | .error problem => throw (path, problem)
  | .ok place =>
    match fs.at? place with
    | some .directory => throw (path, .directory)
    | _ => set (fs.put place (.file content))

end Files

end RouteStubs
