-- Where the files of a repository come from, as a job's payload says it.
import CodeSurvey.Json.Reader

namespace CodeSurvey

open Json

/-- Where the files of a repository come from: a place that is cloned, an archive file, or a
directory. -/
inductive RepositorySource where
  | git (url : String) (reference : Option String)
  | archive (path : String)
  | directory (path : String)
deriving DecidableEq, Repr

namespace RepositorySource

/-- The name of the kind of source. -/
def kind : RepositorySource → String
  | git _ _ => "git"
  | archive _ => "archive"
  | directory _ => "local"

def toJson : RepositorySource → Json
  | git url reference =>
    .object ([("source", .text "git"), ("url", .text url)] ++
      (reference.map (fun r => ("ref", .text r))).toList)
  | archive path => .object [("source", .text "archive"), ("path", .text path)]
  | directory path => .object [("source", .text "local"), ("path", .text path)]

/-- The kinds of sources, with their fields. -/
def kinds : List (String × String × Fields RepositorySource) :=
  [("git", "struct variant RepositorySource::Git",
      git <$> required "url" readText <*> defaulted "ref" (readOption readText) none),
    ("archive", "struct variant RepositorySource::Archive", archive <$> required "path" readPath),
    ("local", "struct variant RepositorySource::Local", directory <$> required "path" readPath)]

def ofJson : Reads RepositorySource := readTagged "source" "RepositorySource" kinds

end RepositorySource

end CodeSurvey
