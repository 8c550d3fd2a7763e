-- What can be asked for on the command line, and how arguments and variables
-- of the environment are read: options by name, the others by place.
import CodeSurvey.Settings

namespace CodeSurvey.CommandLine

/-! ## What can be asked for -/

/-- Where the repository of an analysis comes from. -/
structure SourceChoice where
  path : Option String
  git : Option String
  reference : Option String
  archive : Option String
deriving DecidableEq, Repr

/-- An analysis: the source, the repository's id if one is given, the path of the database, and
settings over those of the environment. -/
structure AnalysisRequest where
  source : SourceChoice
  id : Option String
  database : String
  concurrency : Option UInt64
  batchSize : Option UInt64
  workspace : Option String
deriving DecidableEq, Repr

/-- What is asked for. -/
inductive Request where
  | analyze (request : AnalysisRequest)
  | discover (path : String) (largest : Option UInt64)
  | extract (file : String)
deriving DecidableEq, Repr

/-- What the arguments come to. -/
inductive Usage where
  | run (request : Request)
  /-- The usage is to be shown. -/
  | help
  /-- The arguments make no sense. -/
  | wrong
deriving DecidableEq, Repr

/-! ## Arguments -/

/-- An option: its name, and whether a value follows. -/
structure OptionForm where
  name : String
  takesValue : Bool
deriving DecidableEq, Repr

/-- The arguments by kind. The value of an option without one is empty. -/
structure Sorted where
  values : List (String × String)
  rest : List String
deriving Repr

def Sorted.none : Sorted := ⟨[], []⟩

/-- One more option. An option may be given once. -/
def Sorted.add? (s : Sorted) (name value : String) : Option Sorted :=
  if s.values.any (·.1 == name) then .none else some { s with values := s.values ++ [(name, value)] }

def Sorted.value? (s : Sorted) (name : String) : Option String :=
  (s.values.find? (·.1 == name)).map (·.2)

/-- The argument is an option and not a value: a dash and more. -/
def looksLikeOption (arg : String) : Bool :=
  match arg.toList with
  | '-' :: _ :: _ => true
  | _ => false

/-- An option without its dashes, and the value behind an equals sign. -/
def optionParts? (arg : String) : Option (String × Option String) :=
  match arg.toList with
  | '-' :: '-' :: s =>
    match Text.cutAt? ['='] s with
    | some (name, value) => some (String.ofList name, some (String.ofList value))
    | none => some (String.ofList s, none)
  | _ => none

def sort (forms : List OptionForm) (s : Sorted) : List String → Except Usage Sorted
  | [] => .ok s
  | arg :: args =>
    if arg = "--" then .ok { s with rest := s.rest ++ args }
    else if !looksLikeOption arg then sort forms { s with rest := s.rest ++ [arg] } args
    else if arg = "-h" then .error .help
    else
      match optionParts? arg with
      | none => .error .wrong
      | some ("help", none) => .error .help
      | some (name, value) =>
        match forms.find? (·.name == name), value, args with
        | none, _, _ => .error .wrong
        | some f, none, args =>
          if f.takesValue then
            match args with
            | [] => .error .wrong
            | next :: args =>
              if looksLikeOption next then .error .wrong
              else
                match s.add? name next with
                | some s => sort forms s args
                | none => .error .wrong
          else
            match s.add? name "" with
            | some s => sort forms s args
            | none => .error .wrong
        | some f, some value, args =>
          if f.takesValue then
            match s.add? name value with
            | some s => sort forms s args
            | none => .error .wrong
          else .error .wrong

/-! ## Values -/

/-- A value that may be missing, and must be right when it is there. -/
def checked {α : Type} (read : String → Option α) (value : Option String) :
    Except Usage (Option α) :=
  match value with
  | none => .ok none
  | some s =>
    match read s with
    | some a => .ok (some a)
    | none => .error .wrong

def readNumber (s : String) : Option UInt64 := Text.uint64? s.toList

def readPath (s : String) : Option String := if s = "" then none else some s

def readTruth (s : String) : Option Bool :=
  if s = "true" then some true else if s = "false" then some false else none

/-- The value of an option, or else of a variable. -/
def valueOf (env : Environment) (s : Sorted) (name variableName : String) : Option String :=
  (s.value? name).or (env variableName)

/-! ## Commands -/

/-- The option that asks for logs in another form. It changes nothing else. -/
def logForm : OptionForm := ⟨"log-json", false⟩

/-- The variable for that option is a truth value. -/
def checkLog (env : Environment) (s : Sorted) : Except Usage Unit :=
  if (s.value? logForm.name).isSome then .ok ()
  else (fun _ => ()) <$> checked readTruth (env "SONDE_LOG_JSON")

def analyzeForms : List OptionForm :=
  [logForm, ⟨"git", true⟩, ⟨"ref", true⟩, ⟨"archive", true⟩, ⟨"id", true⟩, ⟨"db", true⟩,
    ⟨"concurrency", true⟩, ⟨"batch-size", true⟩, ⟨"workspace", true⟩]

/-- There is exactly one source. A reference without a place to clone is passed over. -/
def SourceChoice.isClear (c : SourceChoice) : Bool :=
  [c.path, c.git, c.archive].countP (·.isSome) = 1

/-- The path of the database when none is given. -/
def usualDatabase : String := "sonde.db"

def readAnalyze (env : Environment) (args : List String) : Except Usage Request := do
  let s ← sort analyzeForms .none args
  checkLog env s
  let path ← match s.rest with
    | [] => pure none
    | [path] => checked readPath (some path)
    | _ => throw .wrong
  let archive ← checked readPath (s.value? "archive")
  let source : SourceChoice := ⟨path, s.value? "git", s.value? "ref", archive⟩
  let database ← checked readPath (valueOf env s "db" "SONDE_DB")
  let concurrency ← checked readNumber (valueOf env s "concurrency" "SONDE_CONCURRENCY")
  let batchSize ← checked readNumber (valueOf env s "batch-size" "SONDE_BATCH_SIZE")
  let workspace ← checked readPath (valueOf env s "workspace" "SONDE_WORKSPACE_ROOT")
  if !source.isClear then throw .wrong
  return .analyze ⟨source, s.value? "id", database.getD usualDatabase, concurrency, batchSize,
    workspace⟩

def readDiscover (env : Environment) (args : List String) : Except Usage Request := do
  let s ← sort [logForm, ⟨"max-file-size", true⟩] .none args
  checkLog env s
  let largest ← checked readNumber (valueOf env s "max-file-size" "SONDE_MAX_FILE_SIZE")
  match s.rest with
  | [path] =>
    match readPath path with
    | some path => return .discover path largest
    | none => throw .wrong
  | _ => throw .wrong

/-- The request for the facts of a file. -/
def readExtract (env : Environment) (args : List String) : Except Usage Request := do
  let s ← sort [logForm] .none args
  checkLog env s
  match s.rest with
  | [file] =>
    match readPath file with
    | some file => return .extract file
    | none => throw .wrong
  | _ => throw .wrong

/-- What follows the name of a command. -/
def readCommand (env : Environment) (name : String) (args : List String) : Except Usage Request :=
  match name with
  | "analyze" => readAnalyze env args
  | "discover" => readDiscover env args
  | "extract" => readExtract env args
  | "help" => .error (if args = [] then .help else .wrong)
  | _ => .error .wrong

/-- The request that arguments make. Options for all commands may stand in front. -/
def readRequest (env : Environment) (logged : Bool) : List String → Except Usage Request
  | [] => .error .wrong
  | arg :: args =>
    if arg = "--log-json" then
      if logged then .error .wrong else readRequest env true args
    else if arg = "-h" || arg = "--help" || arg = "-V" || arg = "--version" then .error .help
    else readCommand env arg args

def usage (env : Environment) (args : List String) : Usage :=
  match readRequest env false args with
  | .ok r => .run r
  | .error u => u

end CodeSurvey.CommandLine
