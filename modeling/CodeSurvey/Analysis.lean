-- The analysis of a repository: its files are brought to a directory,
-- discovered and stored, the facts of each are read and stored behind it, and
-- what is known of the repository is written down. What was stored for the
-- repository before gives way.
import CodeSurvey.Analysis.Reporting
import CodeSurvey.Discovery
import CodeSurvey.Edge
import CodeSurvey.Queue.Settle
import CodeSurvey.Registry
import CodeSurvey.Repository.Source
import CodeSurvey.Text.Digest
import CodeSurvey.Workspace

namespace CodeSurvey

/-! ## What an analysis works with -/

/-- The disk and the store that an analysis changes. -/
structure Site (σ : Type) where
  disk : Disk
  store : σ

namespace Site

variable {σ α : Type}

def onDisk (c : Command Disk α) : Command (Site σ) α := fun s =>
  let (r, disk) := c s.disk
  (r, { s with disk := disk })

def onStore (c : Command σ α) : Command (Site σ) α := fun s =>
  let (r, store) := c s.store
  (r, { s with store := store })

end Site

/-- The order in which the files of a batch are written when they are read for facts side by
side. -/
structure WriteOrder where
  arrange : List StoredFile → List StoredFile
  perm : ∀ files, (arrange files).Perm files

/-- The files are written in the order in which they are stored. -/
def WriteOrder.asStored : WriteOrder := ⟨id, fun _ => .refl _⟩

/-- How repositories are analysed. -/
structure Analyzer where
  materialize : Materializer
  registry : Registry
  discovery : DiscoverySettings
  /-- The number of files that are stored or read for facts at once. -/
  batchSize : Nat
  order : WriteOrder

/-- How many files were read for facts, and what was stored of them. -/
structure FactTotals where
  files : Nat
  facts : Nat
  edges : Nat
deriving DecidableEq, Repr

def FactTotals.zero : FactTotals := ⟨0, 0, 0⟩

/-- What came of reading a file for facts. -/
structure FileOutcome where
  facts : Nat
  edges : Nat
  failure : Option Failure
deriving DecidableEq, Repr

def FileOutcome.nothing : FileOutcome := ⟨0, 0, none⟩

/-- The totals with one more file that was read. -/
def FactTotals.add (t : FactTotals) (o : FileOutcome) : FactTotals :=
  ⟨t.files + 1, t.facts + o.facts, t.edges + o.edges⟩

/-- What is told of the totals when facts were stored. -/
def FactTotals.told (t : FactTotals) : Json :=
  .record [("files_parsed", Json.nat t.files), ("facts_persisted", Json.nat t.facts),
    ("edges_persisted", Json.nat t.edges)]

namespace Analyzer

/-! ## How far it is -/

/-- How far the analysis is when the files are there. -/
def materialized : Int64 := 30

/-- How far the analysis is when the files are discovered. -/
def discovered : Int64 := 40

/-- How far the analysis is when the files are stored. -/
def filesStored : Int64 := 70

/-- How far the analysis is when the facts are stored. -/
def factsStored : Int64 := 95

/-- The value between two that is reached when so many of all are done. -/
def scaled (lo hi : Int64) (done all : Nat) : Int64 :=
  if all = 0 then hi else lo + ((hi - lo) * Int64.ofNat done) / Int64.ofNat all

/-- The list in pieces of a size, the last one perhaps shorter. A size of zero counts as one. -/
def batches {α : Type} (size : Nat) (xs : List α) : List (List α) :=
  match xs with
  | [] => []
  | x :: r => (x :: r.take (size - 1)) :: batches size (r.drop (size - 1))
termination_by xs.length
decreasing_by simp only [List.length_drop, List.length_cons]; omega

/-! ## Storing the files -/

/-- A found file as it is to be stored; none when it cannot be read as a text. -/
def newFile? (repository : String) (d : Disk) (f : FoundFile) : Option NewFile :=
  (d.text f.path).toOption.map (fun content => {
    repository := repository
    path := f.relativePath
    name := (Path.fileName? f.path).getD f.relativePath
    extension := f.extension
    language := some f.language
    size := f.size
    content := some content
    contentHash := some (Text.digest content) })

variable {σ : Type} [Storage σ]

/-- Stores those files of a batch that can be read. -/
def storeBatch (repository : String) (files : List FoundFile) :
    Command (Site σ) (List StoredFile) := fun s =>
  match files.filterMap (newFile? repository s.disk) with
  | [] => (.ok [], s)
  | new => Site.onStore (Storage.insertFiles new) s

/-- Stores the files batch by batch, and tells after each how many are stored. -/
def storeBatches (repository : String) (all done stored : Nat) :
    List (List FoundFile) → Reporting (Site σ) (List StoredFile)
  | [] => pure []
  | batch :: rest => do
    let new ← Reporting.run (storeBatch repository batch)
    let done := done + batch.length
    let stored := stored + new.length
    Reporting.report (scaled discovered filesStored done all)
      (some (.record [("files_persisted", Json.nat stored)]))
    return new ++ (← storeBatches repository all done stored rest)

def storeFiles (a : Analyzer) (repository : String) (files : List FoundFile) :
    Reporting (Site σ) (List StoredFile) :=
  if files = [] then do
    Reporting.report filesStored (some (.record [("files_persisted", Json.nat 0)]))
    return []
  else storeBatches repository files.length 0 0 (batches a.batchSize files)

/-! ## Storing the facts -/

/-- The lines of the fact are lines of a file with so many. -/
def isWithin (lineCount : UInt32) (f : Fact) : Bool :=
  1 ≤ f.startLine && f.startLine ≤ f.endLine && f.endLine ≤ lineCount

/-- The facts whose lines are lines of the file. -/
def factsWithin (lineCount : UInt32) (facts : List Fact) : List Fact :=
  facts.filter (isWithin lineCount)

/-- The facts and edges that are to be stored for a file; none when it has no content, no
surveyor takes it, or the survey breaks off. -/
def factsOf? (registry : Registry) (f : StoredFile) : Option (List Fact × List Edge) := do
  let content ← f.content
  let surveyor ← registry.surveyorFor f.extension
  let facts ← registry.survey f.extension content
  return (factsWithin f.lineCount facts.facts,
    draftEdges f.repository f.id surveyor.language facts.imports)

/-- Reads a file for facts and stores them. A failure of the store is part of the outcome. -/
def storeFacts (registry : Registry) (f : StoredFile) (s : Site σ) : FileOutcome × Site σ :=
  match factsOf? registry f with
  | none => (.nothing, s)
  | some (facts, edges) =>
    match Site.onStore (Storage.replaceFacts f.id f.repository facts edges) s with
    | (.ok (), s) => (⟨facts.length, edges.length, none⟩, s)
    | (.error e, s) => (⟨0, 0, some e⟩, s)

/-- Stores the facts of files one after another, and gives the outcomes with the ids. -/
def storeAllFacts (registry : Registry) :
    List StoredFile → Site σ → List (Int64 × FileOutcome) × Site σ
  | [], s => ([], s)
  | f :: rest, s =>
    let (outcome, s) := storeFacts registry f s
    let (outcomes, s) := storeAllFacts registry rest s
    ((f.id, outcome) :: outcomes, s)

/-- Stores the facts of a batch in the order of writing, and gives the outcomes in the order of
the files. -/
def factsBatch (a : Analyzer) (files : List StoredFile) :
    Command (Site σ) (List FileOutcome) := fun s =>
  let (outcomes, s) := storeAllFacts a.registry (a.order.arrange files) s
  (.ok (files.map (fun f => ((outcomes.find? (·.1 = f.id)).map (·.2)).getD .nothing)), s)

/-- Stores the facts batch by batch, and tells after each how much is stored. The first failure
of the store is given at the end. -/
def factsBatches (a : Analyzer) (all done : Nat) (t : FactTotals) (failure : Option Failure) :
    List (List StoredFile) → Reporting (Site σ) (Option Failure)
  | [] => pure failure
  | batch :: rest => do
    let outcomes ← Reporting.run (a.factsBatch batch)
    let done := done + outcomes.length
    let t := outcomes.foldl FactTotals.add t
    let failure := failure.or (outcomes.findSome? (·.failure))
    Reporting.report (scaled filesStored factsStored done all) (some t.told)
    factsBatches a all done t failure rest

/-- Stores the facts of the files that some surveyor takes. -/
def storeFactsOf (a : Analyzer) (files : List StoredFile) : Reporting (Site σ) Unit :=
  let readable := files.filter (fun f => a.registry.supports f.extension)
  if readable = [] then Reporting.report factsStored none
  else do
    match ← factsBatches a readable.length 0 .zero none (batches a.batchSize readable) with
    | some f => Reporting.fail (.storage f.message)
    | none => return ()

/-! ## The whole analysis -/

/-- What is written down of a repository when all is stored. -/
def completion (path : String) (t : DiscoveryTotals) : RepositoryUpdate where
  status := some .completed
  storagePath := some path
  primaryLanguage := some t.languages.primary
  totalFiles := some t.files
  totalSize := some t.size
  languages := some t.languages
  errorMessage := none

def sourceOf (payload : Json) : Except Failure RepositorySource :=
  match RepositorySource.ofJson payload with
  | .ok source => .ok source
  | .error i => .error (.invalidPayload i.message)

/-- Analyses a repository up to the first failure. -/
def survey (a : Analyzer) (repository : String) (payload : Json) :
    Reporting (Site σ) Repository := do
  let update := fun u =>
    Reporting.run (σ := Site σ) (Site.onStore (Storage.updateRepository repository u))
  let _ ← update (.toStatus .processing)
  let source ← Reporting.run (.ask (fun _ => sourceOf payload))
  let path ← Reporting.run (Site.onDisk (a.materialize repository source))
  Reporting.report materialized (some (.record [("storage_path", .text path)]))
  let found ← Reporting.run (.ask (fun s => discover a.discovery path s.disk))
  Reporting.report discovered
    (some (.record [("files_discovered", Json.nat found.files.length)]))
  let _ ← Reporting.run (Site.onStore (Storage.clearFiles repository))
  let stored ← storeFiles a repository found.files
  storeFactsOf a stored
  update (completion path found.totals)

/-- Analyses a repository. A failure is written down with the repository. -/
def analyze (a : Analyzer) (repository : String) (payload : Json) (s : Site σ) :
    Course (Site σ) Unit :=
  let course := a.survey repository payload s
  match course.result with
  | .ok _ => ⟨.ok (), course.reports, course.state⟩
  | .error f =>
    let failed := Storage.updateRepository repository (.failure f.message)
    ⟨.error f, course.reports, (Site.onStore failed course.state).2⟩

/-- The outcome of work, as the queue takes it. -/
def outcomeOf : Except Failure Unit → Outcome
  | .ok () => .succeeded
  | .error f => .failed f

/-- The handler that analyses the repositories of jobs. -/
def handler (a : Analyzer) : Handler (Site σ) := fun job s =>
  let course := a.analyze job.repository job.data s
  (.ofReports course.reports (outcomeOf course.result), course.state)

end Analyzer

/-! ## Jobs of analysis -/

/-- The type of the jobs that analyse a repository. -/
def analysisType : String := "analyze_repository"

/-- The payload for the analysis of a directory. -/
def directoryPayload (path : String) : Json :=
  .record [("source", .text "local"), ("path", .text path)]

/-- Analyses a repository as the only job of a queue of its own. What shows of it, the job at the
end, and what is left on the site are given. -/
def analyzeOnce {σ : Type} [Storage σ] (a : Analyzer) (settings : QueueSettings) (id : String)
    (repository : String) (payload : Json) (now : Instant) (s : Site σ) :
    List Signal × Option Job × Site σ :=
  let q := ((Queue.fresh settings s).register analysisType a.handler).start
  let (shown, q, _) := q.perform (.enqueue id ⟨analysisType, repository, payload⟩ now) now
  (shown, q.table.find? id, q.shared)

end CodeSurvey
