import PennCloud.Kv.Chunkserver
import PennCloud.Lib.SortedMap

/-!
# What a node stores

The files of a user, wherever they are: in the node of a resident user, or in the row that the
records of virtual memory describe. `Spec` is the store a client has in mind: a string for each user
and file name, changed by the five commands, and the quota each user has taken.
-/

namespace PennCloud

namespace LRUCache

/-- A `put` appends to the file. -/
def addFile (files : Map Str) (file : Str × Str) : Map Str :=
  files.insert file.1 (files.getD file.1 [] ++ file.2)

/-- The files that restoring a row brings back. -/
def filesOfRow (row : Str) : Map Str := (pairUp (Fields.pieces ',' row)).foldl addFile ∅

/-- The row of a user in virtual memory. -/
def rowOnDisk (s : LRUCache) (user : Str) : Str :=
  match readRow s.disk .virtualMemory (s.virmemMeta.getD user []) with
  | .ok row => row
  | .error _ => []

def filesOf (s : LRUCache) (user : Str) : Map Str :=
  match s.tablets[user]? with
  | some node => (s.heap node).value
  | none => filesOfRow (s.rowOnDisk user)

/-- The value stored for a user and a file name. -/
def view (s : LRUCache) (user filename : Str) : Option Str := (s.filesOf user)[filename]?

/-- The total length of the values of a map. -/
def total (files : Map Str) : Nat := SortedMap.sum (fun _ value => value.length) files

/-- No comma in any value. -/
def CommaFreeValues (files : Map Str) : Prop := ∀ f v : Str, files[f]? = some v → ',' ∉ v

/-- No comma in any file name. -/
def CommaFreeNames (files : Map Str) : Prop := ∀ f v : Str, files[f]? = some v → ',' ∉ f

end LRUCache

end PennCloud
