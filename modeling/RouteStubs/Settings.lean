import RouteStubs.File.Path
import RouteStubs.Text.Blank
import RouteStubs.Text.Case
import RouteStubs.Value.Json

/-!
# Settings

Settings are given as values or in the environment, where their names have a common start and may
be in any case. A value wins over the environment. Texts are read as numbers where a number is
asked for, and a number without a fraction is an integer.

## Main definitions

* `Settings`: the settings.
* `Settings.Problem`: why a value is refused.
* `Settings.of`: the settings for values and an environment.
* `Settings.directory`, `Settings.typesPath`, `Settings.enhances`: what follows from them.
-/

namespace RouteStubs

/-- The settings. -/
structure Settings where
  /-- The directory that the files are written to. -/
  outputDir : String
  /-- The directory inside it. -/
  artifactRoot : String
  /-- The address of the service that is asked for bodies of handlers. -/
  apiUrl : String
  /-- The key for the service. -/
  apiKey : String
  /-- The model that the service is asked to use. -/
  model : String
  /-- The seconds that the service has for an answer. -/
  timeout : Binary64
  /-- The greatest length of an answer. -/
  maxTokens : Int
  /-- How free an answer may be. -/
  temperature : Binary64
  deriving DecidableEq, Repr

namespace Settings

/-- Why a value is refused. -/
inductive Problem where
  /-- It is not a text. -/
  | notText
  /-- It is not a path. -/
  | notPath
  /-- It is not a number. -/
  | notReal
  /-- Its text is not that of a number. -/
  | realText
  /-- It is not an integer. -/
  | notInt
  /-- Its text is not that of an integer. -/
  | intText
  /-- It has a fraction. -/
  | fraction
  /-- It is not finite. -/
  | notFinite
  /-- It is not above the bound. -/
  | notAbove
  /-- It is below the least value. -/
  | tooSmall
  /-- It is above the greatest value. -/
  | tooGreat
  deriving DecidableEq, Repr

/-! ### Reading values -/

/-- Digits with single underscores between them, as digits. -/
def ungrouped? : (afterDigit : Bool) → List Char → Option (List Char)
  | afterDigit, [] => if afterDigit then some [] else none
  | afterDigit, c :: rest =>
    if Text.isAsciiDigit c then (ungrouped? true rest).map (c :: ·)
    else if c == '_' && afterDigit then ungrouped? false rest
    else none

/-- A sign, and the rest of a number. -/
def signed : List Char → Bool × List Char
  | '-' :: rest => (true, rest)
  | '+' :: rest => (false, rest)
  | rest => (false, rest)

/-- The integer that a text writes: white space around it, and zeros after a point, are accepted. -/
def readInt? (s : String) : Option Int := do
  let (negative, rest) := signed (Text.trim Text.isSpace s.toList)
  let whole := rest.takeWhile (· != '.')
  let after := rest.drop whole.length
  guard (after.isEmpty || (after.length != 1 && (after.drop 1).all (· == '0')))
  let digits ← ungrouped? false whole
  let n : Int := Json.digitsValue digits
  pure (if negative then -n else n)

/-- The decimal that digits, a point and an exponent write. -/
def readDecimal? (negative : Bool) (s : List Char) : Option Binary64 := do
  let (whole, afterWhole) := s.span Text.isAsciiDigit
  let (frac, afterFrac) := match afterWhole with
    | '.' :: rest => rest.span Text.isAsciiDigit
    | rest => ([], rest)
  guard (!(whole.isEmpty && frac.isEmpty))
  let exp ← match afterFrac with
    | [] => some 0
    | _ => (Json.exponent? afterFrac).bind fun (e, rest) => if rest.isEmpty then some e else none
  pure (Binary64.ofDecimal negative (Json.digitsValue (whole ++ frac)) (exp - frac.length))

/-- The number that a text without anything around it writes. -/
def readNumber? (s : List Char) : Option Binary64 :=
  let (negative, rest) := signed s
  let word := String.ofList (Text.lower rest)
  if word == "inf" || word == "infinity" then some (.infinite negative)
  else if word == "nan" then some .undefined
  else readDecimal? negative rest

/-- A text without its underscores, if they are single ones inside it. -/
def unmarked? (s : List Char) : Option (List Char) :=
  if s.head? == some '_' || s.getLast? == some '_' || Text.occurs ['_', '_'] s then none
  else some (s.filter (· != '_'))

/-- The number that a text writes: white space around it, or else single underscores inside it, are
accepted. -/
def readReal? (s : String) : Option Binary64 :=
  (readNumber? (Text.trim Text.isSpace s.toList)).or ((unmarked? s.toList).bind readNumber?)

/-- A value as a text. -/
def asText : Value → Except Problem String
  | .scalar (.text s) => .ok s
  | _ => .error .notText

/-- A value as a path. -/
def asPath : Value → Except Problem String
  | .scalar (.text s) => .ok (Path.read s).text
  | _ => .error .notPath

/-- A value as a number. -/
def asReal : Value → Except Problem Binary64
  | .scalar (.real x) => .ok x
  | .scalar (.int n) => .ok (Binary64.ofInt n)
  | .scalar (.bool b) => .ok (Binary64.ofInt (if b then 1 else 0))
  | .scalar (.text s) =>
    match readReal? s with
    | some x => .ok x
    | none => .error .realText
  | _ => .error .notReal

/-- A value as an integer. -/
def asInt : Value → Except Problem Int
  | .scalar (.int n) => .ok n
  | .scalar (.bool b) => .ok (if b then 1 else 0)
  | .scalar (.real x) =>
    match x with
    | .finite _ _ _ =>
      match x.toInt? with
      | some n => .ok n
      | none => .error .fraction
    | _ => .error .notFinite
  | .scalar (.text s) =>
    match readInt? s with
    | some n => .ok n
    | none => .error .intText
  | _ => .error .notInt

/-- A number above zero. -/
def positiveReal (v : Value) : Except Problem Binary64 := do
  let x ← asReal v
  if x.isPositive then .ok x else .error .notAbove

/-- An integer above zero. -/
def positiveInt (v : Value) : Except Problem Int := do
  let n ← asInt v
  if 0 < n then .ok n else .error .notAbove

/-- A number from zero to a bound. -/
def realUpTo (bound : Nat) (v : Value) : Except Problem Binary64 := do
  let x ← asReal v
  if !x.atMost bound then .error .tooGreat
  else if !x.isNonnegative then .error .tooSmall
  else .ok x

/-! ### The settings -/

/-- What the names of settings start with in the environment. -/
def environmentStart : String := "apistub_"

/-- The value that is given for a field: a value of that name, or else the last variable of the
environment with it. -/
def given? (values : Entries) (environment : List (String × String)) (field : String) :
    Option Value :=
  match values.text? field with
  | some v => some v
  | none =>
    (environment.reverse.find? fun e => Text.lowerCase e.1 == environmentStart ++ field).map
      fun e => .text e.2

/-- The key that stands in examples, which counts as none. -/
def placeholderKey : String := "your-api-key-here"

/-- A field that is read, or the problem with it. -/
def field {α : Type} (values : Entries) (environment : List (String × String)) (name : String)
    (read : Value → Except Problem α) (default : α) : Except (List (String × Problem)) α :=
  match given? values environment name with
  | none => .ok default
  | some v =>
    match read v with
    | .ok x => .ok x
    | .error problem => .error [(name, problem)]

/-- The problems of a field. -/
def problemsOf {α : Type} : Except (List (String × Problem)) α → List (String × Problem)
  | .ok _ => []
  | .error problems => problems

/-- The settings for values and an environment, or all problems in the order of the fields. -/
def of (values : Entries) (environment : List (String × String)) :
    Except (List (String × Problem)) Settings :=
  let outputDir := field values environment "output_dir" asPath "generated"
  let artifactRoot := field values environment "artifact_prefix" asText ""
  let apiUrl := field values environment "api_url" asText "https://api.openai.com/v1"
  let apiKey := field values environment "api_key" asText ""
  let model := field values environment "model" asText "gpt-3.5-turbo"
  let timeout := field values environment "enhance_timeout" positiveReal (Binary64.ofInt 30)
  let maxTokens := field values environment "max_tokens" positiveInt 1000
  let temperature :=
    field values environment "temperature" (realUpTo 2) (Binary64.ofRatio false 7 10)
  match outputDir, artifactRoot, apiUrl, apiKey, model, timeout, maxTokens, temperature with
  | .ok outputDir, .ok artifactRoot, .ok apiUrl, .ok apiKey, .ok model, .ok timeout,
      .ok maxTokens, .ok temperature =>
    .ok ⟨outputDir, artifactRoot, apiUrl, apiKey, model, timeout, maxTokens, temperature⟩
  | a, b, c, d, e, f, g, h =>
    .error (problemsOf a ++ problemsOf b ++ problemsOf c ++ problemsOf d ++ problemsOf e ++
      problemsOf f ++ problemsOf g ++ problemsOf h)

/-- The directory of the generated files inside the output directory, with a slash after it unless
it is the output directory itself. -/
def directory (s : Settings) : String :=
  match Text.trim (· == '/') (Text.strip s.artifactRoot.toList) with
  | [] => ""
  | path => String.ofList (path ++ ['/'])

/-- The path of the module of declarations. -/
def typesPath (s : Settings) : String := s.directory ++ "types.py"

/-- Whether the service is asked at all: there is a key, and it is not the one of the examples. -/
def enhances (s : Settings) : Bool := s.apiKey != "" && s.apiKey != placeholderKey

end Settings

end RouteStubs
