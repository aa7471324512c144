/-!
# Command lines

What a command line asks for: the options of the program, the command, and the options and
arguments of the command. Options of the program come before the command; those of a command may
stand between its arguments. Two hyphens end the options.

## Main definitions

* `Command`: the commands.
* `Invocation`: what a command line asks for.
* `Invocation.read`: reads a command line.
-/

namespace RouteStubs

/-- A command. -/
inductive Command where
  /-- Generates the files for the document in a file. The answers of the chat service are used if
  `enhance` holds. -/
  | generate (document : String) (output : Option String) (enhance : Bool)
  /-- Lists the route groups of the document in a file. -/
  | routes (document : String)
  deriving DecidableEq, Repr

/-- What a command line asks for. -/
inductive Invocation where
  /-- A command. -/
  | run (command : Command)
  /-- Information about the program. -/
  | information
  /-- Nothing that the program does. -/
  | misuse
  deriving DecidableEq, Repr

namespace CommandLine

/-- The options of a command or of the program. -/
structure Options where
  /-- The names of the options that take a value, and what each stands for. -/
  valued : List String
  /-- The names of the options that take none. -/
  flags : List String
  /-- The names of the options that ask for information. -/
  informing : List String
  /-- Whether options may stand between arguments. -/
  interspersed : Bool

/-- What has been read of a command line. -/
structure Found where
  /-- The options that take a value, with their values. -/
  values : List (String × String)
  /-- The options that take none. -/
  flags : List String
  /-- Whether an option asks for information. -/
  informs : Bool
  /-- The arguments. -/
  arguments : List String

/-- The value of an option: what was given last. -/
def Found.value? (f : Found) (name : String) : Option String := f.values.reverse.lookup name

/-- Takes an option without a value, if there is one of that name. -/
def Found.addFlag? (options : Options) (name : String) (f : Found) : Option Found :=
  if options.informing.contains name then some { f with informs := true }
  else if options.flags.contains name then some { f with flags := f.flags ++ [name] }
  else none

/-- An option with what follows an equals sign, if there is one. -/
def splitValue (arg : String) : String × Option String :=
  let name := arg.toList.takeWhile (· != '=')
  let rest := arg.toList.drop name.length
  (String.ofList name, if rest.isEmpty then none else some (String.ofList (rest.drop 1)))

/-- Takes options of one letter that share a hyphen. -/
def shortFlags? (options : Options) (letters : List Char) (f : Found) : Option Found :=
  letters.foldlM (fun f c => f.addFlag? options (String.ofList ['-', c])) f

/-- Reads an option that is no value of another one: what has been found, and the option that still
needs a value. -/
def readOption? (options : Options) (arg : String) (f : Found) : Option (Found × Option String) :=
  let (name, value) := splitValue arg
  if options.valued.contains name then
    match value with
    | some v => some ({ f with values := f.values ++ [(name, v)] }, none)
    | none => some (f, some name)
  else if arg.startsWith "--" then
    if value.isSome then none else (f.addFlag? options name).map (·, none)
  else (shortFlags? options (arg.toList.drop 1) f).map (·, none)

/-- Reads options and arguments, where the option `pending` needs a value. An unknown option or a
missing value make a command line unusable. -/
def readFrom? (options : Options) : (pending : Option String) → Found → List String → Option Found
  | none, f, [] => some f
  | some _, _, [] => none
  | some name, f, value :: rest =>
    readFrom? options none { f with values := f.values ++ [(name, value)] } rest
  | none, f, arg :: rest =>
    if arg == "--" then some { f with arguments := f.arguments ++ rest }
    else if arg.startsWith "-" && arg != "-" then
      match readOption? options arg f with
      | some (f, pending) => readFrom? options pending f rest
      | none => none
    else if options.interspersed then
      readFrom? options none { f with arguments := f.arguments ++ [arg] } rest
    else some { f with arguments := f.arguments ++ arg :: rest }

/-- Reads options and arguments. -/
def read? (options : Options) (args : List String) : Option Found :=
  readFrom? options none ⟨[], [], false, []⟩ args

/-- The options of the program. -/
def programOptions : Options :=
  ⟨[], ["--verbose", "-v"], ["--version", "--help", "-h"], false⟩

/-- The options of the command that generates files. -/
def generateOptions : Options := ⟨["--output"], ["--enhance"], ["--help", "-h"], true⟩

/-- The options of the command that lists route groups. -/
def routesOptions : Options := ⟨[], [], ["--help", "-h"], true⟩

/-- A command with its only argument. -/
def withArgument (options : Options) (args : List String) (make : Found → String → Command) :
    Invocation :=
  match read? options args with
  | none => .misuse
  | some f =>
    if f.informs then .information
    else match f.arguments with
      | [argument] => .run (make f argument)
      | _ => .misuse

/-- What is asked for where a command is expected. What looks like an option is read as one of the
program, which can only ask for information here. -/
def command : List String → Invocation
  | [] => .misuse
  | name :: args =>
    if name == "generate" then
      withArgument generateOptions args fun f document =>
        .generate document (f.value? "--output") (f.flags.contains "--enhance")
    else if name == "routes" then withArgument routesOptions args fun _ document => .routes document
    else match read? programOptions (name :: args) with
      | some f => if f.informs then .information else .misuse
      | none => .misuse

end CommandLine

/-- What a command line asks for. -/
def Invocation.read (args : List String) : Invocation :=
  match CommandLine.read? CommandLine.programOptions args with
  | none => .misuse
  | some f => if f.informs then .information else CommandLine.command f.arguments

end RouteStubs
