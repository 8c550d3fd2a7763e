-- The files of a repository are brought to a directory. What is unpacked or
-- cloned goes to a directory of its own in the workspace; a directory that is
-- there already is used in place.
import CodeSurvey.Disk.Archive
import CodeSurvey.Repository.Source

namespace CodeSurvey

/-- How repositories are brought to directories: the repository's id and the source are given,
and the path of the directory is answered. -/
abbrev Materializer := String → RepositorySource → Command Disk String

/-- How a repository is cloned into a directory, from an address and at a reference. -/
abbrev Cloner := String → Option String → String → Command Disk Unit

/-- A directory with a subdirectory for each repository, and a way to clone. -/
structure Workspace where
  root : String
  clone : Cloner

def Cloner.none : Cloner := fun url _ _ =>
  .fail (.acquisition ("clone of " ++ url ++ " failed: no remote can be reached"))

namespace Workspace

/-! ## Subdirectories -/

/-- The character stands in the name of a directory as it is. -/
def isPlain (c : Char) : Bool := c.isAlphanum || c = '-' || c = '_' || c = '.'

/-- The name of the directory for a repository: other characters become low lines, and dots at
the ends fall away. -/
def directoryName (repository : String) : String :=
  let kept := repository.toList.map (fun c => if isPlain c then c else '_')
  let name := Text.dropAroundWhile (· = '.') kept
  if name = [] then "repository" else String.ofList name

def destination (w : Workspace) (repository : String) : String :=
  Path.join w.root (directoryName repository)

/-! ## Materializing -/

/-- Makes an empty directory, in the place of what was there. -/
def prepare (path : String) : Command Disk Unit := fun d =>
  match d.removeDirectory path with
  | .ok d => Disk.ensureDirectories path d
  | .error .noEntry => Disk.ensureDirectories path d
  | .error i => (.error (.io i.message), d)

/-- Fills a directory; when that fails nothing is left of it. -/
def fill (path : String) (fetch : Command Disk Unit) : Command Disk String := fun d =>
  match fetch d with
  | (.ok (), d) => (.ok path, d)
  | (.error f, d) => (.error f, (d.removeDirectory path).toOption.getD d)

/-- The path of a directory, without links and dots. -/
def directoryAt (path : String) (d : Disk) : Except Failure String :=
  match d.canonical path with
  | .error i => .error (.acquisition ("cannot resolve " ++ path ++ ": " ++ i.message))
  | .ok resolved =>
    if d.isDirectory resolved then .ok resolved
    else .error (.acquisition (resolved ++ " is not a directory"))

/-- Brings the files of a repository to a directory. -/
def materialize (w : Workspace) : Materializer := fun repository source =>
  let into := fun fetch =>
    let path := w.destination repository
    (prepare path).followedBy (fill path (fetch path))
  match source with
  | .directory path => .ask (directoryAt path)
  | .git url reference => into (w.clone url reference)
  | .archive path => into (Disk.unpack path)

end Workspace

end CodeSurvey
