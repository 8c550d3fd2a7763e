-- What a store keeps of the files of a repository: files, the facts in them,
-- and the edges from them. The store gives each its id.
import CodeSurvey.Edge
import CodeSurvey.Facts
import CodeSurvey.Text.Lines

namespace CodeSurvey

/-- A file that is to be stored. -/
structure NewFile where
  repository : String
  path : String
  name : String
  extension : String
  language : Option String
  size : UInt64
  content : Option String
  contentHash : Option String
deriving DecidableEq, Repr

/-- A stored file. -/
structure StoredFile extends NewFile where
  id : Int64
deriving DecidableEq, Repr

/-- The number of lines of the content, zero without content. -/
def NewFile.lineCount (f : NewFile) : UInt32 :=
  UInt32.ofNat ((f.content.map (fun c => Text.lineCount c.toList)).getD 0)

/-- A stored fact, with the file and the repository that it belongs to. -/
structure StoredFact where
  id : Int64
  file : Int64
  repository : String
  fact : Fact
deriving DecidableEq, Repr

/-- A stored edge. -/
structure StoredEdge extends Edge where
  id : Int64
deriving DecidableEq, Repr

end CodeSurvey
