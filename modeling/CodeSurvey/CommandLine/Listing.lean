-- A listing of what a command works on: the time, and the files by their paths.
-- It is a JSON object with the keys time and files.
import CodeSurvey.Disk
import CodeSurvey.Json.Decode
import CodeSurvey.Time

namespace CodeSurvey.CommandLine

open Json

/-- The time, and the paths and texts of files. -/
structure Listing where
  time : Instant
  files : List (String × String)
deriving Repr

namespace Listing

/-- What was read of a listing so far. -/
structure Draft where
  time : Option Instant
  files : Option (List (String × String))

def decodeTime : Decoder Instant := fun c => do
  let (s, c) ← decodeText c
  match Instant.ofText s with
  | .ok t => return (t, c)
  | .error i => c.fault (.value (.other i.message))

/-- The files: an object with a text under each path. -/
def decodeFiles : Decoder (List (String × String)) := fun c => do
  let (h, c) ← c.token
  if h = '\x7b' then
    let step := fun files path c => do
      let (body, c) ← decodeText (← readColon c)
      return ((path, body) :: files, c)
    let (files, c) ← decodeEntries step (c.rest.length + 1) true [] c.next
    return (files.reverse, ← objectEnd c)
  else wrongType "a map" h c

def slots : List (Slot Draft) :=
  [{ name := "time"
     isFilled := fun d => d.time.isSome
     read := fun d c => do
      let (t, c) ← decodeTime c
      return ({ d with time := some t }, c) },
    { name := "files"
      isFilled := fun d => d.files.isSome
      read := fun d c => do
        let (files, c) ← decodeFiles c
        return ({ d with files := some files }, c) }]

/-- The listing, which needs a time. `asRow` says that it is written as an array. -/
def finish (asRow : Bool) (d : Draft) : Except Issue Listing :=
  match d.time with
  | some t => .ok ⟨t, d.files.getD []⟩
  | none =>
    .error (if asRow then .invalidLength 0 "struct Listing with 2 elements" else .missingField "time")

def ofText (s : String) : Except Fault Listing :=
  Json.decode (decodeRecord "struct Listing" slots ⟨none, none⟩ finish) s

/-- The disk with one more file, and the directories above it. -/
def addFile (d : Disk) (file : String × String) : Except Disk.Issue Disk := do
  let d ← match Path.parent? file.1 with
    | some above => d.makeDirectories above
    | none => pure d
  d.write (.bytes file.2.toUTF8) file.1

/-- A disk with the files, where relative paths start at the root. -/
def disk (l : Listing) : Except Disk.Issue Disk := l.files.foldlM addFile .blank

end Listing

end CodeSurvey.CommandLine
