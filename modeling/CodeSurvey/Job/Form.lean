-- Requests, jobs and events as JSON values, and read back.
import CodeSurvey.Job
import CodeSurvey.Json.Reader

namespace CodeSurvey

open Json

/-- A point in time, written as a text. -/
def Instant.ofJson : Reads Instant
  | .text s =>
    match Instant.ofText s with
    | .ok t => .ok t
    | .error i => .error (.other i.message)
  | v => .error (.invalidType v.found "an RFC 3339 formatted date and time string")

/-- A point in time as a text. -/
def Instant.toJson (t : Instant) : Json := .text t.text

def JobRequest.toJson (r : JobRequest) : Json :=
  .object [("job_type", .text r.type), ("repository_id", .text r.repository),
    ("payload", r.payload)]

def JobRequest.fields : Fields JobRequest :=
  JobRequest.mk <$> required "job_type" readText
    <*> required "repository_id" readText
    <*> defaulted "payload" readAny .null

def JobRequest.ofJson : Reads JobRequest := JobRequest.fields.read "struct JobSpec"

/-- A job as an object. An error is left out when there is none. -/
def Job.toJson (j : Job) : Json :=
  .object ([("id", .text j.id),
    ("type", .text j.type),
    ("repositoryId", .text j.repository),
    ("status", .text j.status.name),
    ("progress", nat j.progress.toNat),
    ("data", j.data)] ++
    (j.error.map (fun e => ("error", Json.text e))).toList ++
    [("createdAt", j.createdAt.toJson),
    ("startedAt", orNull Instant.toJson j.startedAt),
    ("completedAt", orNull Instant.toJson j.completedAt)])

def Job.fields : Fields Job :=
  Job.mk <$> required "id" readText
    <*> required "type" readText
    <*> required "repositoryId" readText
    <*> required "status" (readName JobStatus.named)
    <*> required "progress" readUInt8
    <*> required "data" readAny
    <*> optional "error" readText
    <*> required "createdAt" Instant.ofJson
    <*> optional "startedAt" Instant.ofJson
    <*> optional "completedAt" Instant.ofJson

def Job.ofJson : Reads Job := Job.fields.read "struct JobSnapshot"

def JobEvent.toJson : JobEvent → Json
  | enqueued job repository =>
    .object [("event", .text "enqueued"), ("job_id", .text job), ("repository_id", .text repository)]
  | started job => .object [("event", .text "started"), ("job_id", .text job)]
  | progress job value =>
    .object [("event", .text "progress"), ("job_id", .text job), ("progress", nat value.toNat)]
  | completed job => .object [("event", .text "completed"), ("job_id", .text job)]
  | failed job error =>
    .object [("event", .text "failed"), ("job_id", .text job), ("error", .text error)]

/-- The kinds of events, with their fields. -/
def JobEvent.kinds : List (String × String × Fields JobEvent) :=
  [("enqueued", "struct variant JobEvent::Enqueued",
      enqueued <$> required "job_id" readText <*> required "repository_id" readText),
    ("started", "struct variant JobEvent::Started", started <$> required "job_id" readText),
    ("progress", "struct variant JobEvent::Progress",
      progress <$> required "job_id" readText <*> required "progress" readUInt8),
    ("completed", "struct variant JobEvent::Completed", completed <$> required "job_id" readText),
    ("failed", "struct variant JobEvent::Failed",
      failed <$> required "job_id" readText <*> required "error" readText)]

def JobEvent.ofJson : Reads JobEvent := readTagged "event" "JobEvent" kinds

end CodeSurvey
