import PennCloud.Str
import Mathlib.Logic.Function.Basic

/-!
# The cache of a storage node

`lrucache.cc`, `node.cc` and the file operations of `tools.cc`. The state holds the fields of class
`LRUCache` together with the globals and the files its methods touch, so that a method is a function
from states to states. A fault is the end of the process.

`put`, `put_helper`, `load_user_from_disk` and `restore_user` call one another. The bound on that
recursion and on the loop of `put` is an explicit argument, and running out of it is a fault of its
own.
-/

namespace PennCloud

/-! ### Files -/

/-- The directories a node works in, by the path the source uses. -/
inductive Dir where
  /-- `virtual memory/` -/
  | virtualMemory
  /-- `checkpointing/` -/
  | checkpointing
  /-- `checkpointing/virtual memory/` -/
  | cpVirtualMemory
  /-- `metadata/` -/
  | metadata
  deriving DecidableEq, Repr

/-- The files of a node: for each directory its file names and their contents, and the file `log`.
A directory that does not exist holds no files. -/
structure Disk where
  files : Dir → Map Str
  log : Option Str

/-- One action on the file system. -/
inductive FsAction where
  | append (dir : Dir) (name value : Str)
  | remove (dir : Dir) (name : Str)
  | copy (src des : Dir) (name : Str)
  | appendLog (value : Str)
  | removeLog
  deriving DecidableEq, Repr

namespace Disk

def empty : Disk := ⟨fun _ => ∅, none⟩

/-- The bytes of a file; a missing file reads as no bytes. -/
def content (d : Disk) (dir : Dir) (name : Str) : Str := (d.files dir).getD name []

def setFiles (d : Disk) (dir : Dir) (files : Map Str) : Disk :=
  { d with files := Function.update d.files dir files }

def apply (d : Disk) : FsAction → Disk
  | .append dir name value =>
      d.setFiles dir ((d.files dir).insert name (d.content dir name ++ value))
  | .remove dir name => d.setFiles dir ((d.files dir).erase name)
  | .copy src des name => d.setFiles des ((d.files des).insert name (d.content src name))
  | .appendLog value => { d with log := some (d.log.getD [] ++ value) }
  | .removeLog => { d with log := none }

/-- What reading `length` bytes at `start` leaves in a string resized to `length`: the bytes the file
has there, then zeros. A file that does not open leaves the string empty. -/
def readAt (file : Option Str) (start length : Int) : Except Fault Str :=
  match file with
  | none => .ok []
  | some bytes =>
      if length < 0 then .error .badLength
      else
        let read := if start < 0 then [] else (bytes.drop start.toNat).take length.toNat
        .ok (read ++ List.replicate (length.toNat - read.length) '\x00')

end Disk

/-! ### State -/

/-- The two series of chunk files; in the source the strings "virtual memory" and "checkpointing". -/
inductive ChunkType where
  | virtualMemory
  | checkpointing
  deriving DecidableEq, Repr

def ChunkType.dir : ChunkType → Dir
  | .virtualMemory => .virtualMemory
  | .checkpointing => .checkpointing

/-- A pointer to a node: the two sentinels, or the `i`-th node made by `new Node(user)`. -/
inductive Ref where
  | head
  | tail
  | node (i : Nat)
  deriving DecidableEq, Repr

structure Node where
  prev : Option Ref
  next : Option Ref
  key : Str
  value : Map Str

/-- A vector of `(#chunk, start index, length)` vectors. -/
abbrev Records := List (List Int)

structure LRUCache where
  capacity : Int
  memoryUsed : Int
  heap : Ref → Node
  /-- how many nodes have been allocated -/
  nodes : Nat
  tablets : Map Ref
  userSize : Map Int
  -- globals of kvstore.cc
  isPrimary : Bool
  chunkInfo : ChunkType → List Int
  virmemMeta : Map Records
  cpMeta : Map Records
  -- the world outside
  disk : Disk
  /-- every action on the file system so far -/
  syscalls : List FsAction
  /-- every `send` so far: the descriptor and the bytes -/
  sent : List (Int × Str)

/-- `long long static CHUNK_SIZE = 64 * 1024 * 1024` -/
def chunkSize : Nat := 64 * 1024 * 1024

namespace LRUCache

/-- `LRUCache(capacity)` in a process that has just started on `disk`. -/
def init (capacity : Int) (isPrimary : Bool) (chunkInfo : ChunkType → List Int) (disk : Disk) :
    LRUCache where
  capacity := capacity
  memoryUsed := 0
  heap r :=
    match r with
    | .head => ⟨none, some .tail, [], ∅⟩
    | .tail => ⟨some .head, none, [], ∅⟩
    | .node _ => ⟨none, none, [], ∅⟩
  nodes := 0
  tablets := ∅
  userSize := ∅
  isPrimary := isPrimary
  chunkInfo := chunkInfo
  virmemMeta := ∅
  cpMeta := ∅
  disk := disk
  syscalls := []
  sent := []

/-- A node started with `-n`: both chunk counters at `(0, 0)`, and no files. -/
def fresh (capacity : Int) (isPrimary : Bool) : LRUCache :=
  init capacity isPrimary (fun _ => [0, 0]) Disk.empty

/-! ### Small steps -/

def send (s : LRUCache) (commFd : Int) (msg : Str) : LRUCache :=
  { s with sent := s.sent ++ [(commFd, msg)] }

def servermsg (s : LRUCache) (msg : String) (commFd : Int) : LRUCache := s.send commFd msg.toList

/-- Perform one action on the file system. -/
def act (s : LRUCache) (a : FsAction) : LRUCache :=
  { s with disk := s.disk.apply a, syscalls := s.syscalls ++ [a] }

def setPrev (s : LRUCache) (r : Ref) (p : Option Ref) : LRUCache :=
  { s with heap := Function.update s.heap r { s.heap r with prev := p } }

def setNext (s : LRUCache) (r : Ref) (p : Option Ref) : LRUCache :=
  { s with heap := Function.update s.heap r { s.heap r with next := p } }

def setValue (s : LRUCache) (r : Ref) (value : Map Str) : LRUCache :=
  { s with heap := Function.update s.heap r { s.heap r with value := value } }

/-- `user_size[user]` -/
def userSizeOf (s : LRUCache) (user : Str) : Int := s.userSize.getD user 0

/-- `user_size[user] = n` -/
def setUserSize (s : LRUCache) (user : Str) (n : Int) : LRUCache :=
  { s with userSize := s.userSize.insert user n }

/-- Indexing `user_size[user]` creates a missing entry. -/
def touchUserSize (s : LRUCache) (user : Str) : LRUCache := s.setUserSize user (s.userSizeOf user)

def moveToTail (s : LRUCache) (current : Ref) : Except Fault LRUCache := do
  let s := s.setPrev current (s.heap .tail).prev
  let s := s.setPrev .tail (some current)
  let prev ← deref (s.heap current).prev
  let s := s.setNext prev (some current)
  .ok (s.setNext current (some .tail))

/-- The two assignments of `get_helper` that take a node off the list. -/
def detach (s : LRUCache) (current : Ref) : Except Fault LRUCache := do
  let prev ← deref (s.heap current).prev
  let s := s.setNext prev (s.heap current).next
  let next ← deref (s.heap current).next
  .ok (s.setPrev next (s.heap current).prev)

/-! ### Chunk files -/

def metaOf (s : LRUCache) : ChunkType → Map Records
  | .virtualMemory => s.virmemMeta
  | .checkpointing => s.cpMeta

def setMeta (s : LRUCache) (type : ChunkType) (records : Map Records) : LRUCache :=
  match type with
  | .virtualMemory => { s with virmemMeta := records }
  | .checkpointing => { s with cpMeta := records }

def chunkName (n : Int) : Str := "chunk".toList ++ toStr n

def clearMetadata (s : LRUCache) (type : ChunkType) (user : Str) : LRUCache :=
  s.setMeta type ((s.metaOf type).erase user)

def updateMetadata (s : LRUCache) (type : ChunkType) (user str : Str) (size : Int) :
    Except Fault LRUCache := do
  let chunk ← atIdx (s.chunkInfo type) 0
  let s := s.act (.append type.dir (chunkName chunk) str)
  let start ← atIdx (s.chunkInfo type) 1
  let s := s.setMeta type
    ((s.metaOf type).insert user ((s.metaOf type).getD user [] ++ [[chunk, start, size]]))
  .ok { s with chunkInfo :=
    Function.update s.chunkInfo type ((s.chunkInfo type).set 1 (toInt32 (start + size))) }

/-- `chunk_info[type].at(0) += 1` -/
def nextChunk (s : LRUCache) (type : ChunkType) : Except Fault LRUCache := do
  let chunk ← atIdx (s.chunkInfo type) 0
  .ok { s with chunkInfo := Function.update s.chunkInfo type ((s.chunkInfo type).set 0 (chunk + 1)) }

/-- The row of one user: `name,value,` for each file in name order. -/
def rowOf (value : Map Str) : Str :=
  value.toList.flatMap fun file => file.1 ++ ',' :: (file.2 ++ [','])

/-- `format_node`: the row and the total size of the values. -/
def formatNode (value : Map Str) : Str × Int :=
  (rowOf value, value.toList.foldl (fun size file => toInt32 (size + file.2.length)) 0)

/-- Conversion of an integer to `float`: the nearest multiple of the last place of a 24-bit
significand, ties to even. -/
def toFloat (n : Nat) : Nat :=
  if n < 2 ^ 24 then n
  else
    let ulp := 2 ^ (n.log2 - 23)
    let q := n / ulp
    let r := n % ulp
    if 2 * r < ulp ∨ (2 * r = ulp ∧ q % 2 = 0) then q * ulp else (q + 1) * ulp

/-- `ceil(float(n) / float(CHUNK_SIZE)) + 1`. The divisor is a power of two, so that only the
conversion of `n` rounds; it is a parameter. -/
def chunkNeeded (round : Nat → Nat) (n : Nat) : Nat := (round n + chunkSize - 1) / chunkSize + 1

/-- One round of the loop of `write_to_chunk`. -/
def writePiece (type : ChunkType) (user row : Str) (left : Int) (needed : Nat)
    (s : LRUCache × Int) (i : Nat) : Except Fault (LRUCache × Int) := do
  let (s, start) := s
  if i = 0 then
    let piece ← substr row (toSize start) (toSize left)
    let s ← s.updateMetadata type user piece left
    .ok (s, left)
  else if i = needed - 1 then
    let piece ← substr row (toSize start) (toSize (row.length - start))
    let s ← s.nextChunk type
    let s ← s.updateMetadata type user piece (row.length - start)
    .ok (s, start)
  else
    let piece ← substr row (toSize start) chunkSize
    let s ← s.nextChunk type
    let s ← s.updateMetadata type user piece chunkSize
    .ok (s, start + chunkSize)

/-- `write_to_chunk` with the rounding of the number of pieces as a parameter. -/
def writeToChunkWith (round : Nat → Nat) (s : LRUCache) (user row : Str) (type : ChunkType) :
    Except Fault LRUCache := do
  let s := s.clearMetadata type user
  let fill ← atIdx (s.chunkInfo type) 1
  -- a negative difference is compared as a `size_t`
  if row.length ≤ toSize (chunkSize - fill) then
    s.updateMetadata type user row row.length
  else
    let left := chunkSize - fill
    let needed := chunkNeeded round (row.length - left.toNat)
    let (s, _) ← (List.range needed).foldlM (writePiece type user row left needed) (s, 0)
    .ok s

def writeToChunk : LRUCache → Str → Str → ChunkType → Except Fault LRUCache :=
  writeToChunkWith toFloat

/-- The loop of `load_user_from_disk` over the records of a user. -/
def readRow (disk : Disk) (type : ChunkType) (records : Records) : Except Fault Str :=
  records.foldlM (fun row record => do
    let chunk ← atIdx record 0
    let start ← atIdx record 1
    let length ← atIdx record 2
    let bytes ← Disk.readAt (disk.files type.dir)[chunkName chunk]? start length
    .ok (row ++ bytes)) []

def useVirtualMemory (s : LRUCache) : Except Fault LRUCache := do
  let lruUser ← deref (s.heap .head).next
  let node := s.heap lruUser
  let (row, size) := formatNode node.value
  let s ← s.writeToChunk node.key row .virtualMemory
  let s := { s with tablets := s.tablets.erase node.key }
  let s := s.setNext .head (s.heap lruUser).next
  let next ← deref (s.heap .head).next
  let s := s.setPrev next (some .head)
  .ok { s with memoryUsed := toInt32 (s.memoryUsed - size) }

/-! ### Storing -/

/-- The name and value pairs `restore_user` takes from its tokens; an odd last token is a name whose
value never comes. -/
def pairUp : List Str → List (Str × Str)
  | filename :: value :: rest => (filename, value) :: pairUp rest
  | _ => []

/-- `restore_user`, given the `put` it calls for each pair. -/
def restoreUserWith (put : LRUCache → Str → Str → Str → Except Fault LRUCache) (s : LRUCache)
    (user row : Str) : Except Fault LRUCache :=
  (pairUp (Fields.pieces ',' row)).foldlM (fun s file => put s user file.1 file.2) s

/-- `load_user_from_disk`, given the `put` that `restore_user` calls. -/
def loadUserFromDiskWith (put : LRUCache → Str → Str → Str → Except Fault LRUCache) (s : LRUCache)
    (type : ChunkType) (user : Str) : Except Fault LRUCache := do
  let records := (s.metaOf type).getD user []
  let s := match type with
    | .virtualMemory => s.clearMetadata .virtualMemory user
    | .checkpointing => s
  let row ← readRow s.disk type records
  restoreUserWith put s user row

/-- `Node *insert = new Node(user); insert->value[filename] = value; tablets[user] = insert;` -/
def addNode (s : LRUCache) (user filename value : Str) : LRUCache :=
  { s with
    heap := Function.update s.heap (.node s.nodes)
      ⟨none, none, user, (∅ : Map Str).insert filename value⟩
    nodes := s.nodes + 1
    tablets := s.tablets.insert user (.node s.nodes) }

def insertUser (s : LRUCache) (user filename value : Str) : Except Fault LRUCache :=
  (s.addNode user filename value).moveToTail (.node s.nodes)

/-- `tablets[user]->value[filename] = …; move_to_tail(tablets[user]);` where the new value is computed
from the old one, the empty string if there is none. -/
def storeResident (s : LRUCache) (user filename : Str) (new : Str → Str) :
    Except Fault LRUCache := do
  let current ← deref s.tablets[user]?
  let files := (s.heap current).value
  (s.setValue current (files.insert filename (new (files.getD filename [])))).moveToTail current

/-- The reply of a successful external `put` or `cput`. -/
def reportStored (s : LRUCache) (user : Str) (commFd : Int) (isCPUT : Bool) (seqNum : Int) :
    LRUCache :=
  if s.isPrimary then
    if isCPUT then s.servermsg "+OK New value stored\r\n" commFd
    else s.servermsg "+OK Value stored\r\n" commFd
  else s.send commFd ("DONE ".toList ++ user ++ ',' :: toStr seqNum ++ "\r\n".toList)

/-- `user_size[user] + value.size() >= capacity` -/
def exceedsQuota (s : LRUCache) (user value : Str) : Bool :=
  toSize s.capacity ≤ sizeAdd (s.userSizeOf user) value.length

/-- `memory_used + value.size() <= capacity` -/
def fits (s : LRUCache) (value : Str) : Bool :=
  sizeAdd s.memoryUsed value.length ≤ toSize s.capacity

/-- The three branches of `put_helper` that write the value, on the residency tested before. -/
def placeValue (load : LRUCache → Str → Except Fault LRUCache) (s : LRUCache)
    (user filename value : Str) (isCPUT : Bool) : Except Fault LRUCache := do
  let isNotInMemory := !s.tablets.contains user
  let isNotInVirMem := !s.virmemMeta.contains user
  let s ← if isNotInMemory && isNotInVirMem then s.insertUser user filename value else .ok s
  let s ← if !isNotInMemory then
      s.storeResident user filename (fun old => if isCPUT then value else old ++ value)
    else .ok s
  if !isNotInVirMem then do
    let s ← load s user
    s.storeResident user filename (· ++ value)
  else .ok s

def putHelper (load : LRUCache → Str → Except Fault LRUCache) (s : LRUCache)
    (user filename value : Str) (commFd : Int) (external isCPUT : Bool) (seqNum : Int) :
    Except Fault (Bool × LRUCache) :=
  let s := if external || isCPUT then s.touchUserSize user else s
  if (external || isCPUT) && s.exceedsQuota user value then
    .ok (true, s.servermsg "-ERR Your storage exceeds node capacity\r\n" commFd)
  else if s.fits value then do
    let s ← s.placeValue load user filename value isCPUT
    let s := { s with memoryUsed := toInt32 (s.memoryUsed + value.length) }
    let s := if external || isCPUT then
        s.setUserSize user (toInt32 (s.userSizeOf user + value.length))
      else s
    .ok (true, if external then s.reportStored user commFd isCPUT seqNum else s)
  else .ok (false, s)

/-- `put`, given its loop: a value larger than the whole cache is refused. -/
def putWith
    (loop : LRUCache → Str → Str → Str → Int → Bool → Int → Except Fault LRUCache)
    (s : LRUCache) (user filename value : Str) (commFd : Int) (external : Bool) (seqNum : Int) :
    Except Fault LRUCache :=
  if toSize s.capacity < value.length then
    .ok (s.servermsg "-ERR File size exceeds node capacity\r\n" commFd)
  else loop s user filename value commFd external seqNum

/-- `while (!put_helper(…)) use_virtual_memory();` -/
def putLoop (fuel : Nat) (s : LRUCache) (user filename value : Str) (commFd : Int)
    (external : Bool) (seqNum : Int) : Except Fault LRUCache :=
  match fuel with
  | 0 => .error .outOfFuel
  | fuel + 1 => do
      let load := fun s user => loadUserFromDiskWith
        (fun s user filename value => putWith (putLoop fuel) s user filename value commFd false 0)
        s .virtualMemory user
      let (stored, s) ← s.putHelper load user filename value commFd external false seqNum
      if stored then .ok s
      else do
        let s ← s.useVirtualMemory
        putLoop fuel s user filename value commFd external seqNum

def put (fuel : Nat) : LRUCache → Str → Str → Str → Int → Bool → Int → Except Fault LRUCache :=
  putWith (putLoop fuel)

def restoreUser (fuel : Nat) (s : LRUCache) (user row : Str) (commFd : Int) :
    Except Fault LRUCache :=
  restoreUserWith (fun s user filename value => put fuel s user filename value commFd false 0)
    s user row

def loadUserFromDisk (fuel : Nat) (s : LRUCache) (type : ChunkType) (user : Str) (commFd : Int) :
    Except Fault LRUCache :=
  loadUserFromDiskWith (fun s user filename value => put fuel s user filename value commFd false 0)
    s type user

/-! ### Reading and changing -/

/-- `get_helper`: the value read, if the file is there. -/
def getHelper (fuel : Nat) (s : LRUCache) (user filename : Str) (commFd : Int) :
    Except Fault (Option Str × LRUCache) :=
  let isInMemory := s.tablets.contains user
  let isInVirMem := s.virmemMeta.contains user
  if isInMemory || isInVirMem then do
    let s ← if isInVirMem then loadUserFromDisk fuel s .virtualMemory user commFd else .ok s
    let current ← deref s.tablets[user]?
    let s ← s.detach current
    let s ← s.moveToTail current
    match (s.heap current).value[filename]? with
    | some value => .ok (some value, s)
    | none => .ok (none, s.servermsg "-ERR No such file\r\n" commFd)
  else .ok (none, s.servermsg "-ERR User not exist\r\n" commFd)

def get (fuel : Nat) (s : LRUCache) (user filename : Str) (commFd : Int) :
    Except Fault LRUCache := do
  let (found, s) ← s.getHelper fuel user filename commFd
  match found with
  | some value => .ok ((s.servermsg "+OK value as follows: \r\n" commFd).send commFd value)
  | none => .ok s

def cput (fuel : Nat) (s : LRUCache) (user filename oldValue newValue : Str) (commFd : Int)
    (seqNum : Int) : Except Fault LRUCache := do
  let (found, s) ← s.getHelper fuel user filename commFd
  match found with
  | some value =>
      if value = oldValue then do
        let s := s.setUserSize user (toInt32 (s.userSizeOf user - oldValue.length))
        let s := { s with memoryUsed := toInt32 (s.memoryUsed - oldValue.length) }
        let (_, s) ← s.putHelper (fun s user => loadUserFromDisk fuel s .virtualMemory user commFd)
          user filename newValue commFd true true seqNum
        .ok s
      else .ok (s.servermsg "-ERR Version check fail\r\n" commFd)
  | none => .ok s

/-- The loop of `getlist` and `getfile` over the files of a user: the files whose name is wanted are
read through `get_helper`, and the first file of all, when it is wanted, brings the header line. -/
def listFiles (fuel : Nat) (s : LRUCache) (user : Str) (commFd : Int) (wanted : Str → Bool)
    (entry : Str → Str → Str) : Except Fault LRUCache := do
  match s.tablets[user]? with
  | none => .ok (s.servermsg "-ERR User not exist\r\n" commFd)
  | some node =>
      (s.heap node).value.toList.zipIdx.foldlM (fun s (file, counter) => do
        if wanted file.1 then
          let (found, s) ← s.getHelper fuel user file.1 commFd
          match found with
          | some value =>
              let s := if counter = 0 then s.servermsg "+OK list as follows: \r\n" commFd else s
              .ok (s.send commFd (entry file.1 value))
          | none => .ok s
        else .ok s) s

/-- `filename.substr(0, 2).compare("##") == 0` -/
def isEmail (filename : Str) : Bool := filename.take 2 = "##".toList

def getlist (fuel : Nat) (s : LRUCache) (user type : Str) (commFd : Int) : Except Fault LRUCache :=
  s.listFiles fuel user commFd
    (fun filename => (type = "email".toList && isEmail filename) ||
      (type = "file".toList && !isEmail filename))
    (fun filename value => filename ++ ',' :: (value ++ [',']))

def getfile (fuel : Nat) (s : LRUCache) (user : Str) (commFd : Int) : Except Fault LRUCache :=
  s.listFiles fuel user commFd (fun filename => !isEmail filename) (fun filename _ => filename ++ [','])

/-- The reply of `dele`. -/
def reportDeleted (s : LRUCache) (user : Str) (commFd seqNum : Int) (isMigration : Bool) : LRUCache :=
  if s.isPrimary then
    if isMigration then s else s.servermsg "+OK File deleted\r\n" commFd
  else if seqNum ≠ 0 then
    s.send commFd ("DONE ".toList ++ user ++ ',' :: toStr seqNum ++ "\r\n".toList)
  else s

def dele (fuel : Nat) (s : LRUCache) (user filename : Str) (commFd seqNum : Int)
    (isMigration : Bool) : Except Fault LRUCache := do
  let (found, s) ← s.getHelper fuel user filename commFd
  match found with
  | some _ => do
      let current ← deref s.tablets[user]?
      let size : Int := ((s.heap current).value.getD filename []).length
      let s := s.setUserSize user (toInt32 (s.userSizeOf user - size))
      let s := { s with memoryUsed := toInt32 (s.memoryUsed - size) }
      let s := s.setValue current ((s.heap current).value.erase filename)
      let s := s.reportDeleted user commFd seqNum isMigration
      if (s.heap current).value.isEmpty then .ok { s with tablets := s.tablets.erase user }
      else .ok s
  | none => .ok s

def rename (fuel : Nat) (s : LRUCache) (user oldFilename newFilename : Str) (commFd seqNum : Int) :
    Except Fault LRUCache := do
  let (found, s) ← s.getHelper fuel user oldFilename commFd
  match found with
  | some value => do
      let current ← deref s.tablets[user]?
      let s := s.setValue current (((s.heap current).value.erase oldFilename).insert newFilename value)
      .ok (if s.isPrimary then s.servermsg "+OK File renamed\r\n" commFd
        else s.send commFd ("DONE ".toList ++ user ++ ',' :: toStr seqNum ++ "\r\n".toList))
  | none => .ok s

end LRUCache

/-! ### Runs -/

/-- A call of one of the five methods from outside, with its arguments. -/
inductive Op where
  | put (user filename value : Str) (commFd seqNum : Int)
  | get (user filename : Str) (commFd : Int)
  | cput (user filename oldValue newValue : Str) (commFd seqNum : Int)
  | dele (user filename : Str) (commFd seqNum : Int) (isMigration : Bool)
  | rename (user oldFilename newFilename : Str) (commFd seqNum : Int)

def LRUCache.exec (fuel : Nat) (s : LRUCache) : Op → Except Fault LRUCache
  | .put user filename value commFd seqNum => s.put fuel user filename value commFd true seqNum
  | .get user filename commFd => s.get fuel user filename commFd
  | .cput user filename oldValue newValue commFd seqNum =>
      s.cput fuel user filename oldValue newValue commFd seqNum
  | .dele user filename commFd seqNum isMigration => s.dele fuel user filename commFd seqNum isMigration
  | .rename user oldFilename newFilename commFd seqNum =>
      s.rename fuel user oldFilename newFilename commFd seqNum

end PennCloud
