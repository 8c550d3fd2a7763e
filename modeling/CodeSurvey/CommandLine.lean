-- The commands: an analysis into a database, the listing of the files that
-- discovery keeps, and the facts of a single file. A command prints a value,
-- and complains when it fails.
import CodeSurvey.Analysis
import CodeSurvey.CommandLine.Usage
import CodeSurvey.Discovery.Form
import CodeSurvey.Disk.Database
import CodeSurvey.Facts.Form
import CodeSurvey.Job.Form
import CodeSurvey.Registry.Builtin

namespace CodeSurvey.CommandLine

/-! ## Complaints -/

/-- What is complained of, and behind it the causes, the nearest first. -/
structure Complaint where
  text : String
  causes : List String
deriving DecidableEq, Repr

/-- The lines of a text behind a mark; further lines go in as far. -/
def indented (mark : List Char) (s : String) : List Char :=
  let between := '\n' :: List.replicate mark.length ' '
  mark ++ between.intercalate (s.toList.splitOn '\n')

/-- The mark of a cause among several: its number, in five places. -/
def causeMark (n : Nat) : List Char :=
  let digits := Nat.toDigits 10 n
  List.replicate (5 - digits.length) ' ' ++ digits ++ [':', ' ']

/-- The text of causes. A single one has no number. -/
def causesText : List String → List Char
  | [] => []
  | [cause] => "\n\nCaused by:\n".toList ++ indented (List.replicate 4 ' ') cause
  | causes =>
    "\n\nCaused by:\n".toList ++
      ['\n'].intercalate (causes.mapIdx (fun n cause => indented (causeMark n) cause))

def Complaint.message (c : Complaint) : String :=
  "Error: " ++ c.text ++ String.ofList (causesText c.causes)

/-- The code of an issue with a database, with the words for the code. -/
def codeText : Relational.Issue → List String
  | .cannotOpen _ => ["Error code 14: Unable to open the database file"]
  | .notADatabase => ["Error code 26: File opened that is not a database file"]
  | _ => []

def causesOf : Failure → List String
  | .io reason => [reason]
  | .database issue => issue.message :: codeText issue
  | _ => []

def Complaint.ofFailure (f : Failure) : Complaint := ⟨f.message, causesOf f⟩

/-- The complaint that something failed, with the failure behind it. -/
def Complaint.around (text : String) (f : Failure) : Complaint := ⟨text, f.message :: causesOf f⟩

/-! ## Commands -/

/-- What a command finds: the variables that are set, the disk, the time, and fresh ids for a
job and a repository. -/
structure Setting where
  environment : Environment
  disk : Disk
  now : Instant
  jobId : String
  repositoryId : String

/-- What comes of a command: what it prints, what it complains of, and the disk that it leaves. -/
structure Outcome where
  printed : Option Json
  complaint : Option Complaint
  disk : Disk

def Outcome.complaining (c : Complaint) (d : Disk) : Outcome := ⟨none, some c, d⟩

def SourceChoice.source? (c : SourceChoice) : Option RepositorySource :=
  match c.git, c.archive, c.path with
  | some url, _, _ => some (.git url c.reference)
  | _, some path, _ => some (.archive path)
  | _, _, some path => some (.directory path)
  | _, _, _ => none

/-- The settings of the environment, changed as the request says. -/
def AnalysisRequest.settings (r : AnalysisRequest) (env : Environment) : Settings :=
  let s := Settings.ofEnvironment env
  { s with
    queue := (r.concurrency.map s.queue.withConcurrency).getD s.queue
    analysis := { s.analysis with
      batchSize := (r.batchSize.map atLeastOne).getD s.analysis.batchSize
      workspaceRoot := r.workspace.getD s.analysis.workspaceRoot } }

/-- The entries of a payload in the order of their keys. -/
def inOrder : Json → Json
  | .object entries => .record entries
  | v => v

/-- Analyses a repository and prints the job. -/
def analyze (r : AnalysisRequest) (s : Setting) : Outcome :=
  let settings := r.settings s.environment
  match r.source.source? with
  | none => .complaining ⟨"one of <PATH>, --git or --archive is required", []⟩ s.disk
  | some source =>
    match Disk.openDatabase (s.environment "HOME") r.database s.disk with
    | (.error f, d) => .complaining (.around ("opening database " ++ r.database) f) d
    | (.ok path, d) =>
      match Disk.databaseAt path d with
      | .error f => .complaining (.ofFailure f) d
      | .ok db =>
        let analyzer : Analyzer := {
          materialize := (Workspace.mk settings.analysis.workspaceRoot .none).materialize
          registry := .builtin
          discovery := settings.discovery
          batchSize := settings.analysis.batchSize.toNat
          order := .asStored }
        let (_, job, site) := analyzeOnce analyzer settings.queue s.jobId
          (r.id.getD s.repositoryId) (inOrder source.toJson) s.now ⟨d, db⟩
        let d := (Disk.putDatabase site.store path site.disk).2
        match job with
        | none => .complaining (.ofFailure (.unknownJob s.jobId)) d
        | some job =>
          ⟨some job.toJson,
            if job.status = .completed then none
            else some ⟨"analysis failed: " ++ job.error.getD "unknown error", []⟩, d⟩

def discoverFiles (path : String) (largest : Option UInt64) (s : Setting) : Outcome :=
  let settings := (Settings.ofEnvironment s.environment).discovery
  match discover { settings with maxFileSize := largest.getD settings.maxFileSize } path s.disk with
  | .ok found => ⟨some found.overview, none, s.disk⟩
  | .error f => .complaining (.ofFailure f) s.disk

def extract (file : String) (s : Setting) : Outcome :=
  let extension := extensionOf file
  if !Registry.builtin.supports extension then
    .complaining ⟨"no extractor for " ++ Text.quoted extension ++ " files", []⟩ s.disk
  else
    match s.disk.text file with
    | .error f => .complaining (.ofFailure f) s.disk
    | .ok source =>
      match Registry.builtin.survey extension source with
      | some facts => ⟨some facts.toJson, none, s.disk⟩
      | none => .complaining ⟨"extraction failed for " ++ file, []⟩ s.disk

def Request.run (r : Request) (s : Setting) : Outcome :=
  match r with
  | .analyze request => CommandLine.analyze request s
  | .discover path largest => discoverFiles path largest s
  | .extract file => CommandLine.extract file s

end CodeSurvey.CommandLine
