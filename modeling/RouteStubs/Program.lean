import RouteStubs.Chat.Bodies
import RouteStubs.CommandLine
import RouteStubs.Document.Load

/-!
# Running commands

What a command does with the files that it finds: it lists the route groups of a document or writes
the files that are generated for one. Everything is worked out before the first file is written.

## Main definitions

* `World`: what a command finds.
* `Outcome`: what it leaves behind.
* `World.run`: runs a command line.
-/

namespace RouteStubs

/-- What a command finds. -/
structure World where
  /-- The files. -/
  files : Files
  /-- The variables of the environment. -/
  environment : List (String × String)
  /-- What comes back for the requests to the chat service, in their order. -/
  replies : Nat → Chat.Reply

/-- What a command leaves behind. -/
structure Outcome where
  /-- The exit code. -/
  code : Nat
  /-- The lines that are printed. -/
  lines : List String
  /-- What went wrong. -/
  error : Option String
  /-- The files. -/
  files : Files

/-- Why a command fails. -/
inductive Failure where
  /-- Settings are refused. -/
  | settings (problems : List (String × Settings.Problem))
  /-- The document is refused. -/
  | document (fault : Fault)
  /-- A path cannot be written to. -/
  | unwritable (path : Path) (problem : Files.Problem)

/-- The wording of a failure. -/
def Failure.message : Failure → String
  | .settings problems =>
    toString problems.length ++ " validation error" ++ (if problems.length == 1 then "" else "s") ++
      " for Settings"
  | .document fault => fault.message
  | .unwritable path problem => problem.message path

/-- Whether a failure ends the program without an error message of its own: a document with a part
of an unforeseen kind does. -/
def Failure.isDefect : Failure → Bool
  | .document (.defect _) => true
  | _ => false

/-! ### Listing route groups -/

/-- The lines for a route group. -/
def RouteGroup.listing (g : RouteGroup) : List String :=
  (g.key ++ " (" ++ g.module ++ ".py)") ::
    g.operations.map fun op => "  " ++ op.route ++ " -> " ++ op.handler

/-- The lines for the route groups of a document. -/
def World.listing (w : World) (document : String) : Except Failure (List String) :=
  match Document.load w.files document >>= Plan.ofDocument with
  | .ok plan => .ok (plan.groups.flatMap RouteGroup.listing)
  | .error fault => .error (.document fault)

/-! ### Generating files -/

/-- The settings in the environment. -/
def World.settings (w : World) : Except Failure Settings :=
  match Settings.of [] w.environment with
  | .ok s => .ok s
  | .error problems => .error (.settings problems)

/-- The generated files for a document. -/
def World.artifacts (w : World) (s : Settings) (document : String) (enhance : Bool) :
    Except Failure (List Artifact) :=
  let artifacts := do
    let plan ← Document.load w.files document >>= Plan.ofDocument
    if enhance then plan.renderAnswered s w.replies else pure (plan.render s.directory [])
  match artifacts with
  | .ok as => .ok as
  | .error fault => .error (.document fault)

/-- Writes a generated file into a directory, and gives its path. -/
def Artifact.write (target : Path) (a : Artifact) :
    ExceptT (Path × Files.Problem) (StateM Files) Path := do
  let path := target.join (Path.read a.path)
  Files.makeDirectories path.parent
  Files.write path a.content.toUTF8
  return path

/-- Writes the generated files into a directory, and gives their paths. -/
def Artifact.writeAll (target : Path) (artifacts : List Artifact) :
    ExceptT (Path × Files.Problem) (StateM Files) (List Path) := do
  Files.makeDirectories target
  artifacts.mapM (Artifact.write target)

/-- The directory for the generated files: the one that the command names, unless the name is
empty, or else that of the settings. -/
def targetOf (s : Settings) (output : Option String) : Path :=
  match output with
  | some path => Path.read (if path == "" then s.outputDir else path)
  | none => Path.read s.outputDir

/-- Generates the files for a document: the lines to print, and the files afterwards. What has been
written stays when something cannot be written. -/
def World.generate (w : World) (document : String) (output : Option String) (enhance : Bool) :
    Except Failure (List String) × Files :=
  let worked := do
    let s ← w.settings
    pure (s, ← w.artifacts s document enhance)
  match worked with
  | .error failure => (.error failure, w.files)
  | .ok (s, artifacts) =>
    match (Artifact.writeAll (targetOf s output) artifacts).run.run w.files with
    | (.ok paths, files) => (.ok (paths.map Path.text), files)
    | (.error (path, problem), files) => (.error (.unwritable path problem), files)

/-! ### Command lines -/

/-- Runs a command: the lines to print, and the files afterwards. -/
def World.runCommand (w : World) : Command → Except Failure (List String) × Files
  | .generate document output enhance => w.generate document output enhance
  | .routes document => (w.listing document, w.files)

/-- The first line of a text. -/
def firstLine (s : String) : String :=
  Text.onChars (fun s => ((Text.splitLines s).headD []).takeWhile (!Text.isLineEnd ·)) s

/-- Runs a command line. A defect of the document leaves no outcome but itself. -/
def World.run (w : World) (args : List String) : Except Failure Outcome :=
  match Invocation.read args with
  | .information => .ok ⟨0, [], none, w.files⟩
  | .misuse => .ok ⟨2, [], none, w.files⟩
  | .run command =>
    match w.runCommand command with
    | (.ok lines, files) => .ok ⟨0, lines, none, files⟩
    | (.error failure, files) =>
      if failure.isDefect then .error failure
      else .ok ⟨1, [], some (firstLine ("error: " ++ failure.message)), files⟩

end RouteStubs
