import Mathlib.Data.List.DropRight

/-!
# Which file a request opens

The replay endpoints take the name of a file from the client. The name is cut to its last
element and checked, looked up in `pcaps`, and compared with the file the server was
started on. The functions of `path/filepath` work on the elements between slashes; what a
path leads to on disk is a parameter.
-/

namespace Etherchimp

/-! ## Paths -/

namespace Filepath

/-- `filepath.Base`: the last element, trailing slashes aside. -/
def base (path : String) : String :=
  if path = "" then "."
  else
    let last := (path.toList.rdropWhile (· = '/')).rtakeWhile (· ≠ '/')
    if last = [] then "/" else String.ofList last

/-- One element on those before it: `..` takes one back unless there is none. -/
def cleanElement (rooted : Bool) (out : List (List Char)) (e : List Char) : List (List Char) :=
  if e = [] ∨ e = ['.'] then out
  else if e = ['.', '.'] then
    match out.getLast? with
    | none => if rooted then out else [e]
    | some last => if last = ['.', '.'] then out ++ [e] else out.dropLast
  else out ++ [e]

/-- The elements of a path once `.` and `..` are worked off. -/
def elements (path : List Char) : List (List Char) :=
  (path.splitOn '/').foldl (cleanElement (path.head? = some '/')) []

/-- The text of a path with these elements. -/
def render (rooted : Bool) (out : List (List Char)) : List Char :=
  if rooted then '/' :: ['/'].intercalate out
  else if out = [] then ['.'] else ['/'].intercalate out

/-- `filepath.Clean` -/
def clean (path : String) : String :=
  String.ofList (render (path.toList.head? = some '/') (elements path.toList))

/-- `filepath.Join` -/
def join (elem : List String) : String :=
  match elem.dropWhile (· = "") with
  | [] => ""
  | rest => clean (String.ofList (['/'].intercalate (rest.map String.toList)))

/-- `filepath.Abs` in a working directory. -/
def abs (wd path : String) : String :=
  if path.toList.head? = some '/' then clean path else join [wd, path]

end Filepath

/-! ## Requests -/

def maxFilenameLength : Nat := 255

/-- `[a-zA-Z0-9_.-]` -/
def isFilenameChar (c : Char) : Bool := c.isAlphanum || c = '_' || c = '.' || c = '-'

def pcapSuffix : List Char := ['.', 'p', 'c', 'a', 'p']

/-- `^[a-zA-Z0-9_.-]+\.pcap$` -/
def validFilename (name : String) : Bool :=
  pcapSuffix.isSuffixOf name.toList && decide (pcapSuffix.length < name.toList.length)
    && name.toList.all isFilenameChar

/-- `strings.Contains(name, "..")` -/
def hasDotDot (name : String) : Bool :=
  name.toList.tails.any fun rest => ['.', '.'].isPrefixOf rest

def validateFilename (filename : String) : Except String String :=
  if filename = "" then .error "filename is required"
  else if maxFilenameLength < filename.utf8ByteSize then
    .error "filename too long (max 255 characters)"
  else
    let filename := Filepath.base filename
    if hasDotDot filename ∨ filename.toList.head? = some '/' ∨ filename.toList.head? = some '\\' then
      .error "invalid filename: path traversal not allowed"
    else if validFilename filename then .ok filename
    else .error "invalid filename format: must contain only alphanumeric characters, underscores, hyphens, dots, and end with .pcap"

/--
`resolvePcapPath` of a server started on `replayFile`: `wd` is the working directory, if it
can be had, and `stat` says which paths are there.
-/
def resolvePcapPath (wd : Option String) (stat : String → Bool) (replayFile filename : String) :
    Except String String :=
  let safePath := Filepath.join ["pcaps", filename]
  match wd with
  | none => .error "invalid file path"
  | some wd =>
      let absPath := Filepath.abs wd safePath
      let pcapsDir := Filepath.abs wd "pcaps"
      if (pcapsDir ++ "/").toList.isPrefixOf absPath.toList = false then .error "access denied"
      else if stat absPath then .ok safePath
      else if replayFile ≠ "" ∧ Filepath.base replayFile = filename ∧ stat replayFile then
        .ok replayFile
      else .error "pcap file not found"

/-- The path a request with this file name opens. -/
def servedPath (wd : Option String) (stat : String → Bool) (replayFile filename : String) :
    Except String String :=
  match validateFilename filename with
  | .error e => .error e
  | .ok name => resolvePcapPath wd stat replayFile name

end Etherchimp
