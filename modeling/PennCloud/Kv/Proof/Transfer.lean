import PennCloud.Kv.Proof.Durability
import PennCloud.Kv.Proof.Migration
import PennCloud.Kv.Threads

/-!
# From one node to another

The first loop of `migrate_data` sends every file of a user as the line of a put, and `migrate_worker` on the node that has asked
stores what it receives. Both ends agree on the format, so the files arrive as they were. They are in the memory of the new node only:
its log does not say so, its secondary is not told, and a start brings back the node as it was before.
-/

namespace PennCloud

open LRUCache Std

namespace Chunkserver

variable {s s' t t' : Chunkserver} {user filename value line chunk : Str} {commFd sockFd capacity : Int} {fuel rounds : Nat}
  {node : Ref} {files : Map Str} {store : Store}

/-! ### The sender -/

/-- What the first loop of `migrate_data` does with a file. -/
def sendFile (fuel : Nat) (user : Str) (commFd : Int) (s : Chunkserver) (filename : Str) : Except Fault Chunkserver := do
  let (found, lru) ← s.lru.getHelper fuel user filename commFd
  let s := { s with lru := lru }
  match found with
  | some value => .ok (s.send commFd ("put ".toList ++ user ++ ',' :: (filename ++ ',' :: value)))
  | none => .ok s

/-- What the second loop does. -/
def dropFile (fuel : Nat) (user : Str) (commFd : Int) (s : Chunkserver) (filename : Str) : Except Fault Chunkserver := do
  let (found, lru) ← s.lru.getHelper fuel user filename commFd
  let s := { s with lru := lru }
  match found with
  | some _ => s.dele fuel ("dele ".toList ++ user ++ ',' :: (filename ++ "\r\n".toList)) true true commFd 0
  | none => .ok s

/-- The files of a user, first to last. -/
def sendFiles (fuel : Nat) (user : Str) (commFd : Int) (s : Chunkserver) : Except Fault Chunkserver := do
  let node ← deref s.lru.tablets[user]?
  s.forEachFile fuel node (s.lru.heap node).value.keys.head? (sendFile fuel user commFd)

def dropFiles (fuel : Nat) (user : Str) (commFd : Int) (s : Chunkserver) : Except Fault Chunkserver := do
  let node ← deref s.lru.tablets[user]?
  s.forEachFile fuel node (s.lru.heap node).value.keys.head? (dropFile fuel user commFd)

theorem migrateData_eq : s.migrateData fuel user commFd = s.sendFiles fuel user commFd >>= dropFiles fuel user commFd := by
  rw [migrateData, sendFiles, bind_assoc]
  rfl

/-- What the puts of a migration leave alone. -/
structure Untold (sockFd : Int) (s t : Chunkserver) : Prop where
  disk : t.lru.disk = s.lru.disk
  capacity : t.lru.capacity = s.lru.capacity
  secondaryFd : t.secondaryFd = s.secondaryFd
  seqNumRecords : t.seqNumRecords = s.seqNumRecords
  primaryHoldback : t.primaryHoldback = s.primaryHoldback
  sent : ∀ fd ≠ sockFd, t.sentTo fd = s.sentTo fd

theorem Untold.trans (h : Untold sockFd s t) (h' : Untold sockFd t t') : Untold sockFd s t' :=
  ⟨h'.disk.trans h.disk, h'.capacity.trans h.capacity, h'.secondaryFd.trans h.secondaryFd, h'.seqNumRecords.trans h.seqNumRecords,
    h'.primaryHoldback.trans h.primaryHoldback, fun fd hfd => (h'.sent fd hfd).trans (h.sent fd hfd)⟩

/-- Files that can be sent as lines and stored in a row. -/
def Sendable (user : Str) (files : List (Str × Str)) : Prop :=
  ∀ file ∈ files, ',' ∉ file.1 ∧ ',' ∉ file.2 ∧ '\x00' ∉ putMessage user file

instance (user : Str) (files : List (Str × Str)) : Decidable (Sendable user files) :=
  inferInstanceAs (Decidable (∀ file ∈ files, _))

end Chunkserver

end PennCloud
