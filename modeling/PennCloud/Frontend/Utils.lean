import PennCloud.Lib.Search
import PennCloud.Str
import Std.Data.ExtTreeSet

/-!
# Strings and files of the frontend

`utils.cc`, with the file system under the working directory. A path is found by its components, where a `.` and an
empty component stand for nothing and `..` leads back. A place outside of the working directory begins with a `..` or a `/`.
What opens for reading is reached step by step; the calls that write go by the place alone, and ask for no directory but the
one they write in.
-/

namespace PennCloud

/-! ### Strings -/

def npos : Nat := 2 ^ 64 - 1

/-- `s.find(pattern)` -/
def findStr (pattern s : Str) : Nat :=
  ((List.range (s.length + 1)).find? fun pos => pattern.isPrefixOf (s.drop pos)).getD npos

/-- `s.find(pattern, pos)` -/
def findFrom (pattern s : Str) (pos : Nat) : Nat := (Search.find pattern s pos).getD npos

def split (s : Str) (delim : Char) : List Str :=
  let last := Fields.remainder delim s
  Fields.pieces delim s ++ if last = [] then [] else [last]

/-- `s.substr(s.find('=') + 1)`: without a `=` the sum wraps, and it is the whole string. -/
def afterEqual (s : Str) : Str :=
  match Fields.cut '=' s with
  | some (_, rest) => rest
  | none => s

def extractFileContent (reqBody : Str) : Except Fault Str := do
  let content ← substr reqBody ((findStr "\r\n\r\n".toList reqBody + 4) % 2 ^ 64) npos
  substr content 0 (toSize (findStr "----".toList content - 2))

def extractFileName (reqBody : Str) : Except Fault Str := do
  let rest ← substr reqBody ((findStr "filename=\"".toList reqBody + 10) % 2 ^ 64) npos
  substr rest 0 (findStr "\"".toList rest)

/-- The rounds of `replace_all` on what is left of the string. Each takes at least one byte. -/
def replaceFrom (source target : Str) : Nat → Str → Str
  | 0, rest => rest
  | n + 1, rest =>
      let pos := findStr source rest
      if pos = npos then rest
      else rest.take pos ++ target ++ replaceFrom source target n (rest.drop (pos + source.length))

def replaceAll (str source target : Str) : Str :=
  if source = [] then str else replaceFrom source target str.length str

/-- The loop of `replace_all`: the string as it is, and where the search goes on. -/
def replaceLoop (source target : Str) : Nat → Str → Nat → Except Fault Str
  | 0, _, _ => .error .outOfFuel
  | n + 1, str, startPos =>
      match Search.find source str startPos with
      | none => .ok str
      | some startPos =>
          let str := str.take startPos ++ target ++ str.drop (startPos + source.length)
          replaceLoop source target n str (startPos + target.length)

/-- `replace_all` as it is written, in place. `replaceAll` is what comes of it. -/
def replaceInPlace (str source target : Str) : Except Fault Str :=
  if source = [] then .ok str else replaceLoop source target (str.length + 1) str 0

/-! ### Output -/

namespace Frontend

/-- A format without a conversion. -/
def isFormat : Str → Bool
  | '%' :: '%' :: rest => isFormat rest
  | '%' :: _ => false
  | _ :: rest => isFormat rest
  | [] => true

/-- `debug(1, text.c_str())`. What is printed is left out, but not that the text is taken for a format. -/
def debug (text : Str) : Except Fault Unit := if isFormat (cstr text) then .ok () else .error .badFormat

end Frontend

/-! ### Files -/

/-- Where a component of a path leads from a place. The root is above itself. -/
def descend (place : List Str) (component : Str) : List Str :=
  if component = [] ∨ component = ['.'] then place
  else if component = ['.', '.'] ∧ place ≠ [] ∧ place.getLast? ≠ some ['.', '.'] then
    if place = [['/']] then place else place.dropLast
  else place ++ [component]

/-- The place that a path starts from: the root, or the working directory. -/
def origin (path : Str) : List Str := if path.head? = some '/' then [['/']] else []

/-- The place that the components of a path lead to, if they lead anywhere. -/
def locate (path : Str) : List Str := (path.splitOn '/').foldl descend (origin path)

instance : Std.TransOrd (List Str) := inferInstance

/-- The regular files, by their place, and the directories. Each is in a directory. -/
structure Files where
  content : Std.ExtTreeMap (List Str) Str
  directories : Std.ExtTreeSet (List Str)

/-- What a stream opens for reading. -/
inductive Entry where
  | directory
  | file (fileContent : Str)

namespace Files

/-- The working directory and what is above it are directories as well. -/
def isDirectory (files : Files) (place : List Str) : Bool :=
  place.all (· = ['.', '.']) || place = [['/']] || files.directories.contains place

/-- Whether there is a way along the components from a place. A name is looked up in the end, but what is no name (an empty
component, a `.` or a `..`) only leads on from a directory. -/
def leads (files : Files) : List Str → List Str → Bool
  | _, [] => true
  | place, component :: path =>
      (component ≠ [] ∧ component ≠ ['.'] ∧ component ≠ ['.', '.'] || files.isDirectory place) &&
        files.leads (descend place component) path

/-- `ifstream` -/
def ifstream (files : Files) (filename : Str) : Option Entry :=
  let path := cstr filename
  let place := locate path
  if path = [] ∨ ¬ files.leads (origin path) (path.splitOn '/') then none
  else if files.isDirectory place then some .directory
  else files.content[place]?.map .file

/-- `is_file_exist`: a stream opens on a directory as well. -/
def isFileExist (files : Files) (filename : Str) : Bool := (files.ifstream filename).isSome

/-- `get_file_content_as_string`: nothing is read where no file is, and reading a directory throws, which nobody
catches. -/
def getFileContent (files : Files) (filename : Str) : Except Fault Str :=
  match files.ifstream filename with
  | some (.file fileContent) => .ok fileContent
  | some .directory => .error .exited
  | none => .ok []

/-- A path whose last component is `.` or `..`. -/
def endsInDots (path : Str) : Bool :=
  let last := ((path.splitOn '/').filter (· ≠ [])).getLastD []
  last = ['.'] || last = ['.', '.']

/-- `store_file` behind its `debug`: the stream only opens in a directory that exists, on what is not a directory itself. -/
def storeFile (files : Files) (dir filename fileContent : Str) : Files :=
  let path := cstr (dir ++ filename)
  let place := locate path
  if endsInDots path ∨ path.getLast? = some '/' then files
  else if (place.dropLast = [] ∨ files.directories.contains place.dropLast) ∧ ¬ files.directories.contains place then
    { files with content := files.content.insert place fileContent }
  else files

/-- Whether no entry is in the directory at a place. -/
def isEmptyAt (files : Files) (place : List Str) : Bool :=
  (files.content.keys ++ files.directories.toList).all fun entry => entry = [] || entry.dropLast ≠ place

/-- `remove`: a file, or a directory without entries. -/
def remove (files : Files) (filename : Str) : Files :=
  let path := cstr filename
  let place := locate path
  if endsInDots path then files
  else
    { content := if path.getLast? = some '/' then files.content else files.content.erase place
      directories := if files.isEmptyAt place then files.directories.erase place else files.directories }

/-- A directory with all that is in it at another place. -/
def moveDirectory (files : Files) (old new : List Str) : Files where
  content := files.content.toList.foldl (fun content entry =>
    if old.isPrefixOf entry.1 then (content.erase entry.1).insert (new ++ entry.1.drop old.length) entry.2 else content)
    files.content
  directories := files.directories.toList.foldl (fun directories place =>
    if old.isPrefixOf place then (directories.erase place).insert (new ++ place.drop old.length) else directories)
    files.directories

/-- `rename`: a file takes the place of a file, and a directory that of an empty directory. -/
def rename (files : Files) (oldname newname : Str) : Files :=
  let oldpath := cstr oldname
  let newpath := cstr newname
  let old := locate oldpath
  let new := locate newpath
  if old = new ∨ new = [] ∨ endsInDots oldpath ∨ endsInDots newpath then files
  else if new.dropLast ≠ [] ∧ ¬ files.directories.contains new.dropLast then files
  else
    match files.content[old]? with
    | some fileContent =>
        if files.directories.contains new ∨ oldpath.getLast? = some '/' ∨ newpath.getLast? = some '/' then files
        else { files with content := (files.content.erase old).insert new fileContent }
    | none =>
        if files.directories.contains old ∧ ¬ old.isPrefixOf new ∧ ¬ files.content.contains new ∧ files.isEmptyAt new then
          files.moveDirectory old new
        else files

/-- `list_all_files`: the names in a directory, up to their order. -/
def listAllFiles (files : Files) (dir : Str) : List Str :=
  let place := locate (cstr dir)
  if place = [] ∨ files.directories.contains place then
    ((files.content.keys ++ files.directories.toList).filter fun entry => entry ≠ [] ∧ entry.dropLast = place).filterMap
      fun entry => entry.getLast?.filter fun name => name.head? ≠ some '.'
  else []

/-- `opendir`, and `mkdir` when there is no entry of that name. -/
def makeDir (files : Files) (dirname : Str) : Files :=
  let place := locate (cstr dirname)
  if (place.dropLast = [] ∨ files.directories.contains place.dropLast) ∧ ¬ files.content.contains place then
    { files with directories := files.directories.insert place }
  else files

end Files

end PennCloud
