-- Databases on a disk: where the path of a database leads, and how the database
-- there is opened, or made when there is none.
import CodeSurvey.Disk.Archive
import CodeSurvey.Store.Relational.Schema

namespace CodeSurvey.Disk

/-! ## Where a database is -/

/-- The path with the home directory in the place of a tilde in front. A tilde that starts a
longer name is part of that name. -/
def expandHome (home : Option String) (path : String) : String :=
  match home, path.toList with
  | some home, ['~'] => home
  | some home, ['~', '/'] => home
  | some home, '~' :: '/' :: rest => Path.join home (String.ofList rest)
  | _, _ => path

/-- The path from the root on that a path means. -/
def resolved (home : Option String) (path : String) (d : Disk) : String :=
  Path.join (pathOf d.workingDirectory) (expandHome home path)

/-! ## Opening -/

/-- The database at a path, a new one where there is nothing or an empty file. -/
def databaseAt (path : String) (d : Disk) : Except Failure Relational.Database :=
  match d.place true path with
  | .ok (.free _ _) => .ok .blank
  | .ok (.taken names) =>
    match d.root.at? names with
    | some (.file (.database db)) => .ok db
    | some (.file c) => if c.size = 0 then .ok .blank else .error (.database .notADatabase)
    | _ => .error (.database (.cannotOpen path))
  | .error _ => .error (.database (.cannotOpen path))

def putDatabase (db : Relational.Database) (path : String) : Command Disk Unit :=
  change (·.write (.database db) path)

/-- Opens the database at a path and brings its layout up to date. The path from the root on is
given. -/
def openDatabase (home : Option String) (path : String) : Command Disk String :=
  (Command.ask (fun d => .ok (d.resolved home path))).andThen (fun full =>
    (match Path.parent? full with
      | some above => ensureDirectories above
      | none => .answer ()).followedBy
    ((Command.ask (databaseAt full)).andThen (fun db =>
      match db.applySchema with
      | (.ok (), db) => (putDatabase db full).followedBy (.answer full)
      | (.error f, _) => .fail f)))

end CodeSurvey.Disk
