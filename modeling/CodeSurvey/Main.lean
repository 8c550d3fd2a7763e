-- The program: arguments and variables come from the process, and the listing
-- of what the command works on from standard input.
import CodeSurvey.CommandLine
import CodeSurvey.CommandLine.Listing
import CodeSurvey.Json.Pretty

namespace CodeSurvey.Main

open CommandLine

def usageText : String :=
  "Usage: sonde [--log-json] <COMMAND>\n\n" ++
  "Commands:\n" ++
  "  analyze [<PATH> | --git <URL> [--ref <REF>] | --archive <FILE>] [--id <ID>] [--db <DB>]\n" ++
  "          [--concurrency <N>] [--batch-size <N>] [--workspace <DIR>]\n" ++
  "  discover <PATH> [--max-file-size <BYTES>]\n" ++
  "  extract <FILE>\n\n" ++
  "The files are read from standard input, as a JSON object with the keys time and files."

def variableNames : List String :=
  ["HOME", "SONDE_BATCH_SIZE", "SONDE_CONCURRENCY", "SONDE_DB", "SONDE_JOB_RETENTION_SECS",
    "SONDE_LOG_JSON", "SONDE_MAX_FILE_SIZE", "SONDE_PARSE_WORKERS", "SONDE_SWEEP_INTERVAL_SECS",
    "SONDE_WORKSPACE_ROOT"]

def readEnvironment : IO Environment := do
  let values ← variableNames.mapM (fun name => return (name, ← IO.getEnv name))
  return fun name => (values.find? (·.1 == name)).bind (·.2)

/-- A random id: sixteen bytes in hexadecimal digits, in five groups. -/
def freshId : IO String := do
  let bytes ← IO.getRandomBytes 16
  let digits := bytes.toList.flatMap (fun b =>
    [Text.hexDigit (b.toNat / 16), Text.hexDigit (b.toNat % 16)])
  let group := fun start length => String.ofList ((digits.drop start).take length)
  return "-".intercalate [group 0 8, group 8 4, group 12 4, group 16 4, group 20 12]

/-- Everything on standard input. -/
partial def readAll (input : IO.FS.Stream) (lines : List String) : IO String := do
  let line ← input.getLine
  if line.isEmpty then return String.join lines.reverse
  else readAll input (line :: lines)

/-- Does what is asked for, and prints what comes of it. -/
def runRequest (environment : Environment) (request : Request) : IO UInt32 := do
  match Listing.ofText (← readAll (← IO.getStdin) []) with
  | .error f => do
    IO.eprintln ("Error: " ++ f.message)
    return 1
  | .ok listing =>
    match listing.disk with
    | .error i => do
      IO.eprintln ("Error: " ++ i.message)
      return 1
    | .ok disk =>
      let outcome := request.run {
        environment := environment
        disk := disk
        now := listing.time
        jobId := ← freshId
        repositoryId := ← freshId }
      match outcome.printed with
      | some v => IO.println v.pretty
      | none => pure ()
      match outcome.complaint with
      | some c => do
        IO.eprintln c.message
        return 1
      | none => return 0

end CodeSurvey.Main

/-- Runs the command that the arguments name. -/
def main (args : List String) : IO UInt32 := do
  let environment ← CodeSurvey.Main.readEnvironment
  match CodeSurvey.CommandLine.usage environment args with
  | .run request => CodeSurvey.Main.runRequest environment request
  | .help => do
    IO.println CodeSurvey.Main.usageText
    return 0
  | .wrong => do
    IO.eprintln CodeSurvey.Main.usageText
    return 2
