-- Values written straight into rows, past the store. The database still holds
-- to its keys and to what a column must have, and a text in a column of whole
-- numbers becomes a number where it reads as one.
import CodeSurvey.Store.Relational.Schema

namespace CodeSurvey.Relational

/-! ## Affinity -/

/-- A number as it is written: digits before and behind a point, and an exponent. -/
structure WrittenNumber where
  negative : Bool
  whole : List Char
  places : List Char
  exponent : Option Int

/-- The character is a blank around a number. -/
def isNumberBlank (c : Char) : Bool := c = ' ' || (9 ≤ c.toNat && c.toNat ≤ 13)

/-- The number that a text gives with blanks around it. -/
def writtenNumber? (s : List Char) : Option WrittenNumber := do
  let s := Text.dropAroundWhile isNumberBlank s
  let negative := s.head? = some '-'
  let s := if negative || s.head? = some '+' then s.tail else s
  let whole := s.takeWhile Char.isDigit
  let s := s.drop whole.length
  let pointed := s.head? = some '.'
  let s := if pointed then s.tail else s
  let places := if pointed then s.takeWhile Char.isDigit else []
  let s := s.drop places.length
  if whole.isEmpty && places.isEmpty then none
  else
    match s with
    | [] => some ⟨negative, whole, places, if pointed then some 0 else none⟩
    | e :: s =>
      if e = 'e' || e = 'E' then
        let n ← Text.signed? (-1000) 1000 s
        some ⟨negative, whole, places, some n⟩
      else none

/-- The whole number that is written, if it is one. -/
def WrittenNumber.toInt? (n : WrittenNumber) : Option Int :=
  let digits : Int := (Text.digits? (n.whole ++ n.places)).getD 0
  let digits := if n.negative then -digits else digits
  let exponent := n.exponent.getD 0 - n.places.length
  if 0 ≤ exponent then some (digits * Text.tenTo exponent.toNat)
  else
    let unit : Int := Text.tenTo (-exponent).toNat
    if digits % unit = 0 then some (digits / unit) else none

/-- What a text becomes in a column of whole numbers. A number written with a point or an
exponent is taken for a whole one only while every whole number up to it has a form of its own in
floating point. -/
def Cell.ofText (s : String) : Cell :=
  match writtenNumber? s.toList with
  | none => .text s
  | some n =>
    let bound : Int := Text.wordSize (if n.exponent.isNone then 63 else 53)
    match n.toInt? with
    | some m => if -bound ≤ m ∧ m < bound then .integer (Int64.ofInt m) else .real s
    | none => .real s

/-! ## Columns -/

/-- A column of a table: what its values are, and how one is set in a row. -/
inductive Column (ρ : Type) where
  | text (set : String → ρ → ρ)
  | optionalText (set : Option String → ρ → ρ)
  | number (set : Cell → ρ → ρ)
  | optionalId (set : Option Int64 → ρ → ρ)
  | id (set : Int64 → ρ → ρ)

/-- A row with a value in the column of the given full name. What is no number is no key of
anything. -/
def Column.put {ρ : Type} (name : String) (c : Column ρ) (value : Option String) (r : ρ) :
    Except Issue ρ :=
  match c, value with
  | text set, some s => .ok (set s r)
  | number set, some s => .ok (set (Cell.ofText s) r)
  | optionalText set, v => .ok (set v r)
  | optionalId set, none => .ok (set none r)
  | optionalId set, some s => withId (fun n => set (some n)) s
  | id set, some s => withId set s
  | _, none => .error (.notNull name)
where
  /-- The row with the id that a text gives. -/
  withId (set : Int64 → ρ → ρ) (s : String) : Except Issue ρ :=
    match Cell.ofText s with
    | .integer n => .ok (set n r)
    | _ => .error .foreignKey

/-- The columns of the table of repositories. -/
def RepositoryRow.columns : List (String × Column RepositoryRow) :=
  [("status", .text fun v r => { r with status := v }),
    ("storage_path", .optionalText fun v r => { r with storagePath := v }),
    ("primary_language", .optionalText fun v r => { r with primaryLanguage := v }),
    ("total_files", .number fun v r => { r with totalFiles := v }),
    ("total_size", .number fun v r => { r with totalSize := v }),
    ("language_breakdown", .text fun v r => { r with languages := v }),
    ("error_message", .optionalText fun v r => { r with errorMessage := v }),
    ("created_at", .optionalText fun _ r => r),
    ("updated_at", .optionalText fun _ r => r)]

/-- The columns of the table of files. -/
def FileRow.columns : List (String × Column FileRow) :=
  [("repository_id", .text fun v r => { r with repository := v }),
    ("path", .text fun v r => { r with path := v }),
    ("file_name", .text fun v r => { r with name := v }),
    ("extension", .text fun v r => { r with extension := v }),
    ("language", .optionalText fun v r => { r with language := v }),
    ("size_bytes", .number fun v r => { r with size := v }),
    ("content", .optionalText fun v r => { r with content := v }),
    ("content_hash", .optionalText fun v r => { r with contentHash := v })]

/-- The columns of the table of facts. -/
def FactRow.columns : List (String × Column FactRow) :=
  [("file_id", .id fun v r => { r with file := v }),
    ("repository_id", .text fun v r => { r with repository := v }),
    ("name", .text fun v r => { r with name := v }),
    ("kind", .text fun v r => { r with kind := v }),
    ("signature", .text fun v r => { r with signature := v }),
    ("doc_comment", .optionalText fun v r => { r with docComment := v }),
    ("start_line", .number fun v r => { r with startLine := v }),
    ("end_line", .number fun v r => { r with endLine := v }),
    ("parameters_json", .optionalText fun v r => { r with parameters := v }),
    ("return_type", .optionalText fun v r => { r with returnType := v }),
    ("exported", .number fun v r => { r with exported := v }),
    ("is_async", .number fun v r => { r with isAsync := v }),
    ("accessibility", .optionalText fun v r => { r with accessibility := v })]

/-- The columns of the table of edges. -/
def EdgeRow.columns : List (String × Column EdgeRow) :=
  [("repository_id", .text fun v r => { r with repository := v }),
    ("source_file_id", .id fun v r => { r with sourceFile := v }),
    ("target_file_id", .optionalId fun v r => { r with targetFile := v }),
    ("external_target", .optionalText fun v r => { r with externalTarget := v }),
    ("kind", .text fun v r => { r with kind := v }),
    ("specifier", .text fun v r => { r with specifier := v }),
    ("line", .number fun v r => { r with line := v })]

/-! ## Writing -/

/-- The rows with a value set in those that are chosen, and how many are. -/
def putWhere {ρ : Type} (table : String) (columns : List (String × Column ρ)) (name : String)
    (value : Option String) (chosen : ρ → Bool) (rows : List ρ) : Except Issue (Nat × List ρ) :=
  match columns.find? (fun c => c.1 == name) with
  | none => .error (.noColumn name)
  | some (_, c) => do
    let written ← rows.mapM (fun r =>
      if chosen r then c.put (table ++ "." ++ name) value r else .ok r)
    return ((rows.filter chosen).length, written)

namespace Database

/-- Two files of one repository have one path. -/
def doubledPath (d : Database) : Bool :=
  d.files.rows.any (fun f =>
    1 < (d.files.rows.filter (fun g => g.repository == f.repository && g.path == f.path)).length)

/-- Some row names what is not there. -/
def danglingKey (d : Database) : Bool :=
  d.files.rows.any (fun f => !d.hasRepository f.repository) ||
  d.facts.rows.any (fun f => !d.hasRepository f.repository || !d.hasFile f.file) ||
  d.edges.rows.any (fun e =>
    !d.hasRepository e.repository || !d.hasFile e.sourceFile || !e.targetFile.all d.hasFile)

/-- The database, or what is wrong with its keys. -/
def checked (d : Database) : Except Issue Database :=
  if d.doubledPath then .error (.unique "files.repository_id, files.path")
  else if d.danglingKey then .error .foreignKey
  else .ok d

/-- The database with a value set in the row with the id, and the number of such rows. Rows of
repositories are told by their names, all others by numbers. -/
def put (d : Database) (table column : String) (id : Int64 ⊕ String) (value : Option String) :
    Except Issue (Nat × Database) :=
  let number := fun n => id == .inl n
  match table with
  | "repositories" => do
    let (n, rows) ← putWhere table RepositoryRow.columns column value
      (fun r => id == .inr r.id) d.repositories
    return (n, ← checked { d with repositories := rows })
  | "files" => do
    let (n, rows) ← putWhere table FileRow.columns column value (fun r => number r.id) d.files.rows
    return (n, ← checked { d with files.rows := rows })
  | "structural_facts" => do
    let (n, rows) ← putWhere table FactRow.columns column value (fun r => number r.id) d.facts.rows
    return (n, ← checked { d with facts.rows := rows })
  | "dependency_edges" => do
    let (n, rows) ← putWhere table EdgeRow.columns column value (fun r => number r.id) d.edges.rows
    return (n, ← checked { d with edges.rows := rows })
  | _ => .error (.noTable table)

/-- A value is set in the row with the id. -/
def write (table column : String) (id : Int64 ⊕ String) (value : Option String) :
    Command Database Nat := fun d =>
  match d.put table column id value with
  | .ok (n, d) => (.ok n, d)
  | .error i => refuse i d

end Database

end CodeSurvey.Relational
