-- What stands on a disk: files, links and directories. A directory keeps its
-- entries in the order of their names.
import CodeSurvey.Store.Relational.Database

namespace CodeSurvey.Disk

/-! ## Contents -/

/-- An entry of an archive: a name as the archive spells it, the mode of the file where the
archive gives one, and the bytes. -/
structure ArchiveEntry where
  name : String
  mode : Option UInt32
  bytes : ByteArray

/-- What a file holds. -/
inductive Content where
  | bytes (b : ByteArray)
  | archive (entries : List ArchiveEntry)
  | database (d : Relational.Database)

/-- The number of bytes that an archive takes at least: for each entry the name twice, the bytes
and two heads, and a foot. -/
def archiveSize (entries : List ArchiveEntry) : Nat :=
  entries.foldl (fun n e => n + 76 + 2 * e.name.utf8ByteSize + e.bytes.size) 22

/-- The number of bytes of a file. A database takes whole pages. -/
def Content.size : Content → Nat
  | bytes b => b.size
  | archive entries => archiveSize entries
  | database _ => 4096

/-! ## Nodes -/

/-- What stands at a place. -/
inductive Node where
  | file (content : Content)
  | link (target : String)
  | directory (entries : List (String × Node))

namespace Node

def empty : Node := directory []

def isDirectory : Node → Bool
  | directory _ => true
  | _ => false

def child? (name : String) : Node → Option Node
  | directory entries => (entries.find? (·.1 = name)).map (·.2)
  | _ => none

/-- The node at the end of a row of names. -/
def at? (n : Node) : List String → Option Node
  | [] => some n
  | name :: rest => (n.child? name).bind (·.at? rest)

/-- The entries with another node under a name, at its place in the order. -/
def putEntry (name : String) (x : Node) : List (String × Node) → List (String × Node)
  | [] => [(name, x)]
  | (k, y) :: r =>
    if name = k then (name, x) :: r
    else if name < k then (name, x) :: (k, y) :: r
    else (k, y) :: putEntry name x r

/-- The entries without the one with a name. -/
def dropEntry (name : String) (entries : List (String × Node)) : List (String × Node) :=
  entries.filter (·.1 ≠ name)

/-- The node with another one at the end of a row of names. Nothing changes where the names do
not lead through directories. -/
def put (n : Node) (x : Node) : List String → Node
  | [] => x
  | name :: rest =>
    match n with
    | directory entries =>
      if rest = [] then directory (putEntry name x entries)
      else
        match n.child? name with
        | some c => directory (putEntry name (c.put x rest) entries)
        | none => n
    | _ => n

/-- The node without what is at the end of a row of names. -/
def drop (n : Node) : List String → Node
  | [] => n
  | name :: rest =>
    match n with
    | directory entries =>
      if rest = [] then directory (dropEntry name entries)
      else
        match n.child? name with
        | some c => directory (putEntry name (c.drop rest) entries)
        | none => n
    | _ => n

/-! ## Listings -/

mutual

/-- Everything below a node, the entries of a directory behind it. Links are left out. -/
def listing (above : List String) : Node → List (List String × Option Content)
  | file c => [(above, some c)]
  | link _ => []
  | directory entries => (above, none) :: listingIn above entries

/-- Everything below the entries of a directory. -/
def listingIn (above : List String) :
    List (String × Node) → List (List String × Option Content)
  | [] => []
  | (name, n) :: r => listing (above ++ [name]) n ++ listingIn above r

end

end Node

end CodeSurvey.Disk
