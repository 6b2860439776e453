import PennCloud.Kv.Contents

/-!
# The store a client has in mind

A map of files for each user. A put appends, unless the user would then have taken the whole capacity;
an exchange replaces a value that is still the expected one, under the same limit.
-/

namespace PennCloud

/-- The user a command is about. -/
def Op.user : Op → Str
  | .put user _ _ _ _ => user
  | .get user _ _ => user
  | .cput user _ _ _ _ _ => user
  | .dele user _ _ _ _ => user
  | .rename user _ _ _ _ => user

/-- The descriptor that a command answers on. -/
def Op.commFd : Op → Int
  | .put _ _ _ commFd _ => commFd
  | .get _ _ commFd => commFd
  | .cput _ _ _ _ commFd _ => commFd
  | .dele _ _ commFd _ _ => commFd
  | .rename _ _ _ commFd _ => commFd

/-- The bytes a command brings: the value of a put, the new value of an exchange. -/
def Op.volume : Op → Nat
  | .put _ _ value _ _ => value.length
  | .get _ _ _ => 0
  | .cput _ _ _ newValue _ _ => newValue.length
  | .dele _ _ _ _ _ => 0
  | .rename _ _ _ _ _ => 0

abbrev Store := Str → Map Str

namespace Store

open LRUCache

def empty : Store := fun _ => ∅

def step (capacity : Int) (store : Store) : Op → Store
  | .put user filename value _ _ =>
      if (total (store user) : Int) + value.length < capacity then
        Function.update store user (addFile (store user) (filename, value))
      else store
  | .get _ _ _ => store
  | .cput user filename oldValue newValue _ _ =>
      if (store user)[filename]? = some oldValue ∧
          (total (store user) : Int) - oldValue.length + newValue.length < capacity then
        Function.update store user ((store user).insert filename newValue)
      else store
  | .dele user filename _ _ _ => Function.update store user ((store user).erase filename)
  | .rename user oldFilename newFilename _ _ =>
      match (store user)[oldFilename]? with
      | some value =>
          Function.update store user (((store user).erase oldFilename).insert newFilename value)
      | none => store

/-- What a command does to a store that has no limit. -/
def apply (store : Store) : Op → Store
  | .put user filename value _ _ => Function.update store user (addFile (store user) (filename, value))
  | .get _ _ _ => store
  | .cput user filename oldValue newValue _ _ =>
      if (store user)[filename]? = some oldValue then
        Function.update store user ((store user).insert filename newValue)
      else store
  | .dele user filename _ _ _ => Function.update store user ((store user).erase filename)
  | .rename user oldFilename newFilename _ _ =>
      match (store user)[oldFilename]? with
      | some value =>
          Function.update store user (((store user).erase oldFilename).insert newFilename value)
      | none => store

/-- The bytes a command adds to what is stored. -/
def delta (store : Store) : Op → Int
  | .put _ _ value _ _ => value.length
  | .get _ _ _ => 0
  | .cput user filename oldValue newValue _ _ =>
      if (store user)[filename]? = some oldValue then newValue.length - oldValue.length else 0
  | .dele user filename _ _ _ =>
      match (store user)[filename]? with
      | some value => -value.length
      | none => 0
  | .rename _ _ _ _ _ => 0

/-- The bytes a rename writes over. -/
def overwritten (store : Store) : Op → Nat
  | .put _ _ _ _ _ => 0
  | .get _ _ _ => 0
  | .cput _ _ _ _ _ _ => 0
  | .dele _ _ _ _ _ => 0
  | .rename user oldFilename newFilename _ _ =>
      match (store user)[oldFilename]? with
      | some _ => (((store user).erase oldFilename).getD newFilename []).length
      | none => 0

theorem step_of_ne {store : Store} {user : Str} {capacity : Int} {op : Op} (hne : op.user ≠ user) :
    store.step capacity op user = store user := by
  cases op with
  | put =>
      rw [step]
      split
      · exact Function.update_of_ne hne.symm _ _
      · rfl
  | get => rfl
  | cput =>
      rw [step]
      split
      · exact Function.update_of_ne hne.symm _ _
      · rfl
  | dele => exact Function.update_of_ne hne.symm _ _
  | rename u oldFilename newFilename commFd seqNum =>
      rw [step]
      cases (store u)[oldFilename]? with
      | none => rfl
      | some value => exact Function.update_of_ne hne.symm _ _

/-! ### Replies -/

/-- A secondary reports the number of the message it has executed. -/
def done (user : Str) (seqNum : Int) : Str :=
  "DONE ".toList ++ user ++ ',' :: toStr seqNum ++ "\r\n".toList

/-- The reply when a file is not there. -/
def missing (files : Map Str) : Str :=
  if files.isEmpty then "-ERR User not exist\r\n".toList else "-ERR No such file\r\n".toList

/-- What a node answers to a command. -/
def reply (isPrimary : Bool) (store : Store) : Op → List Str
  | .put user _ _ _ seqNum =>
      [if isPrimary then "+OK Value stored\r\n".toList else done user seqNum]
  | .get user filename _ =>
      match (store user)[filename]? with
      | some value => ["+OK value as follows: \r\n".toList, value]
      | none => [missing (store user)]
  | .cput user filename oldValue _ _ seqNum =>
      match (store user)[filename]? with
      | some value =>
          if value = oldValue then
            [if isPrimary then "+OK New value stored\r\n".toList else done user seqNum]
          else ["-ERR Version check fail\r\n".toList]
      | none => [missing (store user)]
  | .dele user filename _ seqNum isMigration =>
      match (store user)[filename]? with
      | some _ =>
          if isPrimary then if isMigration then [] else ["+OK File deleted\r\n".toList]
          else if seqNum ≠ 0 then [done user seqNum] else []
      | none => [missing (store user)]
  | .rename user oldFilename _ _ seqNum =>
      match (store user)[oldFilename]? with
      | some _ => [if isPrimary then "+OK File renamed\r\n".toList else done user seqNum]
      | none => [missing (store user)]

/-! ### Runs -/

/-- Everything a node answers to a list of commands. -/
def transcript (isPrimary : Bool) : Store → List Op → List (Int × Str)
  | _, [] => []
  | store, op :: ops =>
      (reply isPrimary store op).map (op.commFd, ·) ++ transcript isPrimary (store.apply op) ops

/-- The store after a list of commands. -/
def after (capacity : Int) (ops : List Op) : Store := ops.foldl (step capacity) empty

theorem after_concat (capacity : Int) (ops : List Op) (op : Op) :
    after capacity (ops ++ [op]) = step capacity (after capacity ops) op := by
  rw [after, List.foldl_append, after]
  rfl

end Store

end PennCloud
