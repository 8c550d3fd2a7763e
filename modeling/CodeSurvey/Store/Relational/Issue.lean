-- What a database refuses, and how it says so.

namespace CodeSurvey.Relational

/-- The types of values in a row. -/
inductive CellType where
  | null
  | integer
  | real
  | text
deriving DecidableEq, Repr

def CellType.name : CellType → String
  | null => "Null"
  | integer => "Integer"
  | real => "Real"
  | text => "Text"

/-- What a database refuses to do, or cannot read back. Columns count from zero. -/
inductive Issue where
  | foreignKey
  | unique (columns : String)
  | notNull (column : String)
  | noTable (name : String)
  | noColumn (name : String)
  | wrongType (met : CellType) (index : Nat) (column : String)
  | outOfRange (index : Nat) (value : Int)
  | conversion (index : Nat) (reason : String)
  | full
  | cannotOpen (path : String)
  | notADatabase
deriving DecidableEq, Repr

def Issue.message : Issue → String
  | foreignKey => "FOREIGN KEY constraint failed"
  | unique columns => "UNIQUE constraint failed: " ++ columns
  | notNull column => "NOT NULL constraint failed: " ++ column
  | noTable name => "no such table: " ++ name
  | noColumn name => "no such column: " ++ name
  | wrongType met index column =>
    "Invalid column type " ++ met.name ++ " at index: " ++ toString index ++ ", name: " ++ column
  | outOfRange index value => "Integer " ++ toString value ++ " out of range at index " ++
      toString index
  | conversion index reason => "Conversion error from type Text at index: " ++ toString index ++
      ", " ++ reason
  | full => "database or disk is full"
  | cannotOpen path => "unable to open database file: " ++ path
  | notADatabase => "file is not a database"

end CodeSurvey.Relational
