-- The settings of a run. Each has a default, and the environment may give
-- another value for it; a value that cannot be read is passed over.
import CodeSurvey.Time

namespace CodeSurvey

/-! ## Settings -/

/-- What the discovery of files is told. -/
structure DiscoverySettings where
  /-- The number of bytes of the largest file that is taken. -/
  maxFileSize : UInt64
deriving DecidableEq, Repr

/-- What the queue of jobs is told. -/
structure QueueSettings where
  /-- The number of jobs that may run at once. -/
  concurrency : UInt64
  /-- How long a job is kept when it has ended. -/
  retention : Duration
  /-- How long it takes from one removal of old jobs to the next. -/
  sweepInterval : Duration
deriving DecidableEq, Repr

/-- What the analysis of a repository is told. -/
structure AnalysisSettings where
  /-- The number of files that are stored at once. -/
  batchSize : UInt64
  /-- The number of files that are read for facts at once. -/
  parseWorkers : UInt64
  /-- The directory that materialized repositories go under. -/
  workspaceRoot : String
deriving DecidableEq, Repr

/-- All settings. -/
structure Settings where
  discovery : DiscoverySettings
  queue : QueueSettings
  analysis : AnalysisSettings
deriving DecidableEq, Repr

/-- The settings where the environment gives none. -/
def Settings.standard : Settings where
  discovery := { maxFileSize := 1024 * 1024 }
  queue := {
    concurrency := 2
    retention := .ofSeconds (24 * 60 * 60)
    sweepInterval := .ofSeconds (10 * 60) }
  analysis := { batchSize := 100, parseWorkers := 4, workspaceRoot := "workspace" }

/-! ## The environment -/

/-- The values of the variables that are set. -/
abbrev Environment := String → Option String

/-- The text of a variable without the blanks around it; none when nothing is left. -/
def Environment.text? (env : Environment) (name : String) : Option (List Char) :=
  ((env name).map (fun s => Text.trim s.toList)).filter (!·.isEmpty)

def Environment.number? (env : Environment) (name : String) : Option UInt64 :=
  (env.text? name).bind Text.uint64?

/-- The number of seconds that a variable gives. -/
def Environment.seconds? (env : Environment) (name : String) : Option Duration :=
  (env.number? name).map (fun n => .ofSeconds n.toNat)

def atLeastOne (n : UInt64) : UInt64 := if n = 0 then 1 else n

/-- The settings of a run in an environment. -/
def Settings.ofEnvironment (env : Environment) : Settings :=
  let d := Settings.standard
  let number := fun name default => (env.number? name).getD default
  { discovery := { maxFileSize := number "SONDE_MAX_FILE_SIZE" d.discovery.maxFileSize }
    queue := {
      concurrency := atLeastOne (number "SONDE_CONCURRENCY" d.queue.concurrency)
      retention := (env.seconds? "SONDE_JOB_RETENTION_SECS").getD d.queue.retention
      sweepInterval :=
        (((env.number? "SONDE_SWEEP_INTERVAL_SECS").map atLeastOne).map
          (fun n => .ofSeconds n.toNat)).getD d.queue.sweepInterval }
    analysis := {
      batchSize := atLeastOne (number "SONDE_BATCH_SIZE" d.analysis.batchSize)
      parseWorkers := atLeastOne (number "SONDE_PARSE_WORKERS" d.analysis.parseWorkers)
      workspaceRoot :=
        ((env.text? "SONDE_WORKSPACE_ROOT").map String.ofList).getD d.analysis.workspaceRoot } }

/-- The settings with another number of jobs at once. -/
def QueueSettings.withConcurrency (s : QueueSettings) (n : UInt64) : QueueSettings :=
  { s with concurrency := atLeastOne n }

end CodeSurvey
