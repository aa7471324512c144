import RouteStubs.Program

/-!
# The program

Runs the command line on the files and the environment of the system. What a command needs of them
is read first, and what it leaves behind is written afterwards. There is no chat service here, so
all requests to it are lost.

## Main definitions

* `main`: the program.
-/

namespace RouteStubs

/-- What the program says about itself. -/
def usage : String :=
  "Usage: routestubs [--verbose] generate SPEC [--output DIRECTORY] [--enhance]\n" ++
    "       routestubs [--verbose] routes SPEC"

/-- The variables of the environment that settings are read from. -/
def variableNames : List String :=
  ["APISTUB_OUTPUT_DIR", "APISTUB_ARTIFACT_PREFIX", "APISTUB_API_URL", "APISTUB_API_KEY",
    "APISTUB_MODEL", "APISTUB_ENHANCE_TIMEOUT", "APISTUB_MAX_TOKENS", "APISTUB_TEMPERATURE"]

/-- The variables that are set. -/
def readEnvironment : IO (List (String × String)) :=
  variableNames.filterMapM fun name => do
    return (← IO.getEnv name).map (name, ·)

/-- The file that a command reads. -/
def Command.document : Command → String
  | .generate document _ _ => document
  | .routes document => document

/-- A tree with the directory that one is in and the file at a path, if it can be read. -/
def readFiles (here : Path) (document : String) : IO Files := do
  let start : Files := ((Files.makeDirectories here).run.run ⟨here.segments, []⟩).2
  try
    let content ← IO.FS.readBinFile document
    let path := Path.read document
    let put : ExceptT (Path × Files.Problem) (StateM Files) Unit := do
      Files.makeDirectories path.parent
      Files.write path content
    return (put.run.run start).2
  catch _ => return start

/-- Whether a file has this content. -/
def hasContent (entry : Option FileEntry) (content : ByteArray) : Bool :=
  match entry with
  | some (.file old) => old.toList == content.toList
  | _ => false

/-- Writes the files that are new or changed. -/
def writeFiles (before after : Files) : IO Unit := do
  for (place, entry) in after.entries do
    if let .file content := entry then
      if !hasContent (before.at? place) content then
        IO.FS.createDirAll (Path.mk "/" place.dropLast).text
        IO.FS.writeBinFile (Path.mk "/" place).text content

/-- Runs a command line. -/
def runSystem (args : List String) : IO UInt32 := do
  let files ← match Invocation.read args with
    | .run command => readFiles (Path.read (← IO.currentDir).toString) command.document
    | .information =>
      IO.println usage
      pure ⟨[], []⟩
    | .misuse =>
      IO.eprintln usage
      pure ⟨[], []⟩
  let world : World := ⟨files, ← readEnvironment, fun _ => .lost⟩
  match world.run args with
  | .error failure =>
    IO.eprintln ("error: " ++ failure.message)
    return 1
  | .ok outcome =>
    writeFiles files outcome.files
    for line in outcome.lines do
      IO.println line
    if let some error := outcome.error then
      IO.eprintln error
    return UInt32.ofNat outcome.code

end RouteStubs

/-- The program. -/
def main (args : List String) : IO UInt32 := do
  try
    RouteStubs.runSystem args
  catch failure =>
    IO.eprintln ("error: " ++ failure.toString)
    return 1
