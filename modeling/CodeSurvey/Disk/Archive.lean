-- Archives are unpacked below a directory. All entries are checked before
-- anything is written: none may be a link, and no name may lead out of the
-- directory.
import CodeSurvey.Disk
import CodeSurvey.Store.Operation

namespace CodeSurvey.Disk

/-! ## Entries -/

/-- The bits of a mode that tell the kind of file. -/
def kindMask : UInt32 := 0o170000

def linkKind : UInt32 := 0o120000

namespace ArchiveEntry

def isLink (e : ArchiveEntry) : Bool := e.mode.any (fun m => m &&& kindMask = linkKind)

/-- The entry is a directory: its name ends in a slash, whichever way that leans. -/
def isDirectory (e : ArchiveEntry) : Bool :=
  e.name.toList.getLast?.any (fun c => c = '/' || c = '\\')

end ArchiveEntry

/-- The name of an entry with all slashes leaning one way. -/
def evenSlashes (name : String) : String :=
  String.ofList (name.toList.map (fun c => if c = '\\' then '/' else c))

/-- The name of a part of a path, nothing for this directory; a part that is neither leads
elsewhere. -/
def nameOfPart : Path.Part → Option (List String)
  | .name s => some [s]
  | .here => some []
  | _ => none

/-- The names that the name of an entry gives, if they all lead further in. -/
def safeNames? (name : String) : Option (List String) :=
  let path := evenSlashes name
  if Path.isAbsolute path || path.toList.contains ':' then none
  else ((Path.parts path).mapM nameOfPart).map List.flatten

/-- An entry with the names of the place that it goes to. -/
structure Placed where
  names : List String
  entry : ArchiveEntry

/-- The entries with their places, or the first that is not safe. -/
def plan : List ArchiveEntry → Except Failure (List Placed)
  | [] => .ok []
  | e :: r =>
    if e.isLink then .error (.unsafeEntry e.name)
    else
      match safeNames? e.name with
      | none => .error (.unsafeEntry e.name)
      | some names => do return ⟨names, e⟩ :: (← plan r)

/-! ## Unpacking -/

def change (f : Disk → Except Issue Disk) : Command Disk Unit := fun d =>
  match f d with
  | .ok d => (.ok (), d)
  | .error i => (.error (.io i.message), d)

/-- Makes the directory at a path, and those above it that are missing. -/
def ensureDirectories (path : String) : Command Disk Unit := fun d =>
  match d.makeAll path with
  | (.ok (), d) => (.ok (), d)
  | (.error i, d) => (.error (.io i.message), d)

/-- Writes one entry below a directory. An entry without names is the directory itself. -/
def unpackOne (target : String) (p : Placed) : Command Disk Unit :=
  let path := Path.join target ("/".intercalate p.names)
  if p.names = [] then .answer ()
  else if p.entry.isDirectory then ensureDirectories path
  else
    (ensureDirectories ((Path.parent? path).getD "")).followedBy
      (change (·.write (.bytes p.entry.bytes) path))

/-- The entries of the archive at a path. -/
def archiveAt (path : String) (d : Disk) : Except Failure (List ArchiveEntry) :=
  match d.node path with
  | .error i => .error (.acquisition ("cannot open archive " ++ path ++ ": " ++ i.message))
  | .ok (.file (.archive entries)) => .ok entries
  | .ok (.file _) => .error (.archive "invalid Zip archive: Could not find EOCD")
  | .ok _ => .error (.archive "i/o error")

/-- Unpacks the archive at a path below a directory. -/
def unpack (path target : String) : Command Disk Unit :=
  (Command.ask (fun d => (archiveAt path d).bind plan)).andThen (Command.each (unpackOne target))

end CodeSurvey.Disk
