-- A disk and what is done with it: names are followed through directories and
-- links to a place, and there something is read, made, written or removed.
-- Paths that do not start at the root start at the working directory.
import CodeSurvey.Disk.Node
import CodeSurvey.Failure
import CodeSurvey.Path
import CodeSurvey.Text.Encoding

namespace CodeSurvey

/-- Everything from the root on, and the working directory as a row of names. -/
structure Disk where
  root : Disk.Node
  workingDirectory : List String

namespace Disk

def blank : Disk := ⟨.empty, []⟩

/-! ## What can go wrong -/

/-- The ways in which an operation on a disk can fail. -/
inductive Issue where
  | noEntry
  | exists
  | notDirectory
  | isDirectory
  | nameTooLong
  | tooManyLinks
  | zeroInName
deriving DecidableEq, Repr

/-- The words for what is wrong, with its number. -/
def Issue.message : Issue → String
  | .noEntry => "No such file or directory (os error 2)"
  | .exists => "File exists (os error 17)"
  | .notDirectory => "Not a directory (os error 20)"
  | .isDirectory => "Is a directory (os error 21)"
  | .nameTooLong => "File name too long (os error 36)"
  | .tooManyLinks => "Too many levels of symbolic links (os error 40)"
  | .zeroInName => "file name contained an unexpected NUL byte"

/-! ## Places -/

/-- Where a path leads: to a node, or to a name that is free in a directory. A place is a row
of names from the root on, none of them a link. -/
inductive Place where
  | taken (names : List String)
  | free (directory : List String) (name : String)
deriving DecidableEq, Repr

/-- The largest number of links that are followed on the way to one place. -/
def mostLinks : Nat := 40

/-- The largest number of bytes in a name. -/
def longestName : Nat := 255

/-- The names between the slashes of a path; an empty one where two slashes meet. -/
def pieces (path : String) : List String := (path.toList.splitOn '/').map String.ofList

/-- Follows names from a directory. An empty name and a dot stay, two dots go back. A link at
the end is followed if that is asked for. How names are followed behind a link is given. -/
def followTo (root : Node) (last : Bool) (jump : List String → List String → Except Issue Place)
    (here : List String) : List String → Except Issue Place
  | [] => .ok (.taken here)
  | name :: rest =>
    match root.at? here with
    | some (.directory _) =>
      if name = "" || name = "." then followTo root last jump here rest
      else if name = ".." then followTo root last jump here.dropLast rest
      else if name.utf8ByteSize > longestName then .error .nameTooLong
      else
        match root.at? (here ++ [name]) with
        | none => if rest = [] then .ok (.free here name) else .error .noEntry
        | some (.link target) =>
          if rest = [] && !last then .ok (.taken (here ++ [name]))
          else
            let start := if Path.isAbsolute target then [] else here
            jump start (pieces target ++ rest)
        | some _ => followTo root last jump (here ++ [name]) rest
    | _ => .error .notDirectory

/-- Follows names from a directory, and as many links as are given. -/
def follow (root : Node) (last : Bool) : Nat → List String → List String → Except Issue Place
  | 0 => followTo root last (fun _ _ => .error .tooManyLinks)
  | links + 1 => followTo root last (follow root last links)

theorem follow_nil {root : Node} {last : Bool} {links : Nat} {here : List String} :
    follow root last links here [] = .ok (.taken here) := by
  cases links <;> rfl

/-- One name is followed, and then the others from where that leads. -/
theorem follow_piece (root : Node) (last : Bool) (links : Nat) (here : List String) (name : String)
    (rest : List String) : follow root last links here (name :: rest) =
      match root.at? here with
      | some (.directory _) =>
        if name = "" || name = "." then follow root last links here rest
        else if name = ".." then follow root last links here.dropLast rest
        else if name.utf8ByteSize > longestName then .error .nameTooLong
        else
          match root.at? (here ++ [name]) with
          | none => if rest = [] then .ok (.free here name) else .error .noEntry
          | some (.link target) =>
            if rest = [] && !last then .ok (.taken (here ++ [name]))
            else
              match links with
              | 0 => .error .tooManyLinks
              | links + 1 =>
                let start := if Path.isAbsolute target then [] else here
                follow root last links start (pieces target ++ rest)
          | some _ => follow root last links (here ++ [name]) rest
      | _ => .error .notDirectory := by
  cases links <;> rfl

variable (d : Disk)

/-- The place that a path leads to. -/
def place (last : Bool) (path : String) : Except Issue Place :=
  if path.toList.contains '\x00' then .error .zeroInName
  else if path = "" then .error .noEntry
  else
    let start := if Path.isAbsolute path then [] else d.workingDirectory
    follow d.root last mostLinks start (pieces path)

/-- The place of what is at a path. -/
def locate (last : Bool) (path : String) : Except Issue (List String) :=
  match d.place last path with
  | .ok (.taken names) => .ok names
  | .ok (.free _ _) => .error .noEntry
  | .error i => .error i

/-- The node at a path, behind links. -/
def node (path : String) : Except Issue Node := do
  match d.root.at? (← d.locate true path) with
  | some n => return n
  | none => throw .noEntry

/-! ## Reading -/

def isDirectory (path : String) : Bool :=
  match d.node path with
  | .ok n => n.isDirectory
  | .error _ => false

def holds (path : String) : Bool := (d.node path).isOk

/-- The entries of the directory at a path. -/
def entries (path : String) : Except Issue (List (String × Node)) := do
  match ← d.node path with
  | .directory es => return es
  | _ => throw .notDirectory

/-- The content of the file at a path. -/
def content (path : String) : Except Issue Content := do
  match ← d.node path with
  | .file c => return c
  | _ => throw .isDirectory

/-- A place as a path from the root. -/
def pathOf (names : List String) : String := "/" ++ "/".intercalate names

/-- The path without links and dots that leads to the same place. -/
def canonical (path : String) : Except Issue String := pathOf <$> d.locate true path

/-- The text of the file at a path. A file with a zero byte is no text. -/
def text (path : String) : Except Failure String :=
  match d.content path with
  | .error i => .error (.read path i.message)
  | .ok (.bytes b) =>
    if b.toList.contains 0 then .error (.read path "binary content (NUL byte)")
    else
      match Text.decode b with
      | .ok s => .ok s
      | .error f => .error (.read path ("not valid UTF-8: " ++ f.message))
  | .ok _ => .error (.read path "binary content (NUL byte)")

/-! ## Changing -/

def put (x : Node) (names : List String) : Disk := { d with root := d.root.put x names }

def makeDirectory (path : String) : Except Issue Disk := do
  match ← d.place false path with
  | .taken _ => throw .exists
  | .free directory name => return d.put .empty (directory ++ [name])

/-- A directory could not be made. That is no failure where there is one. -/
def unmade (path : String) (i : Issue) : Except Issue Unit × Disk :=
  if d.isDirectory path then (.ok (), d) else (.error i, d)

/-- Makes the directory with the parts, given from the last to the first, and those above it
that are missing. Those that were made stay when a later one cannot be made. -/
def makeParts : List Path.Part → Except Issue Unit × Disk
  | [] => (.ok (), d)
  | p :: above =>
    let path := Path.ofParts (p :: above).reverse
    match d.makeDirectory path with
    | .ok d => (.ok (), d)
    | .error .noEntry =>
      match makeParts above with
      | (.error i, d) => (.error i, d)
      | (.ok (), d) =>
        match d.makeDirectory path with
        | .ok d => (.ok (), d)
        | .error i => d.unmade path i
    | .error i => d.unmade path i

/-- Makes the directory at a path, and those above it that are missing, as far as that goes. -/
def makeAll (path : String) : Except Issue Unit × Disk := d.makeParts (Path.parts path).reverse

/-- Makes the directory at a path, and those above it that are missing. -/
def makeDirectories (path : String) : Except Issue Disk :=
  match d.makeAll path with
  | (.ok (), d) => .ok d
  | (.error i, _) => .error i

/-- Writes a file, over an earlier one. -/
def write (c : Content) (path : String) : Except Issue Disk := do
  match ← d.place true path with
  | .taken names =>
    if (d.root.at? names).any Node.isDirectory then throw .isDirectory
    else return d.put (.file c) names
  | .free directory name => return d.put (.file c) (directory ++ [name])

def makeLink (target path : String) : Except Issue Disk := do
  match ← d.place false path with
  | .taken _ => throw .exists
  | .free directory name => return d.put (.link target) (directory ++ [name])

/-- Removes what is at a path, a link itself and a directory with all that is in it. -/
def remove (path : String) : Except Issue Disk := do
  return { d with root := d.root.drop (← d.locate false path) }

/-- Removes a directory with all that is in it, or a link. -/
def removeDirectory (path : String) : Except Issue Disk := do
  match d.root.at? (← d.locate false path) with
  | some (.file _) => throw .notDirectory
  | _ => d.remove path

end Disk

end CodeSurvey
