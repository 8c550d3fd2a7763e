-- The layout of the database: which tables and indexes there are, and the
-- version of the layout, which is stamped into the database. A database with
-- a later version is refused.
import CodeSurvey.Store.Relational.Database
import CodeSurvey.Text.Number

namespace CodeSurvey.Relational

namespace Database

def schemaVersion : Int := 1

/-- The table of notes about the database. -/
def notesTable : String := "store_meta"

/-- The tables and indexes, in the order in which they are made. -/
def schemaObjects : List String :=
  [notesTable, "repositories", "files", "structural_facts", "dependency_edges",
    "idx_files_repository", "idx_facts_file", "idx_facts_repository", "idx_edges_repository",
    "idx_edges_source"]

/-- The key of the note that holds the version. -/
def versionKey : String := "schema_version"

/-- The table or index is made, unless it is there. -/
def create (d : Database) (name : String) : Database :=
  if d.objects.contains name then d else { d with objects := d.objects ++ [name] }

/-- The note under a key, written over the one that is there or behind the others. -/
def putNote (key : String) (value : Option String) (d : Database) : Database :=
  { d with notes :=
    if d.notes.any (fun n => n.1 == key) then
      d.notes.map (fun n => if n.1 == key then (key, value) else n)
    else d.notes ++ [(key, value)] }

/-- The version that is stamped into the database: zero when none is, or none that reads as a
number of 32 bits. -/
def version (d : Database) : Int :=
  match d.notes.find? (fun n => n.1 == versionKey) with
  | some (_, some text) => (Text.int32? text.toList).getD 0
  | _ => 0

/-- The refusal of a database with a later version. -/
def newerVersion (stored : Int) : Failure :=
  .storage ("database schema version " ++ toString stored ++ " is newer than supported version " ++
    toString schemaVersion)

/-- All tables and indexes that lack are made, and an older version gives way to this one. -/
def applySchema : Command Database Unit := fun d =>
  let stored := d.version
  if schemaVersion < stored then (.error (newerVersion stored), d)
  else
    let made := schemaObjects.foldl create d
    (.ok (), if stored < schemaVersion then
      putNote versionKey (some (toString schemaVersion)) made else made)

/-- The names of all tables and indexes, sorted. -/
def objectNames (d : Database) : List String := d.objects.mergeSort (fun a b => decide (a ≤ b))

/-- The version text as somebody else writes it; the table for it is made first. -/
def stamp (value : Option String) (d : Database) : Database :=
  putNote versionKey value (create d notesTable)

/-- The version as somebody else clears it, where there is a table for it. -/
def unstamp : Command Database Unit := fun d =>
  if d.objects.contains notesTable then (.ok (), { d with notes := [] })
  else refuse (.noTable notesTable) d

/-- A database as it is when it was just made. -/
def fresh : Database := (applySchema blank).2

end Database

end CodeSurvey.Relational
