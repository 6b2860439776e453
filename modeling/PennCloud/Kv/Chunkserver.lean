import PennCloud.Kv.LRUCache
import PennCloud.Lib.Search

/-!
# Commands, log and checkpoints

`chunkserver.cc`. The methods that touch only the cache and its globals stand in the namespace of
`LRUCache`; the commands also write the log and forward to the secondary.
-/

namespace PennCloud

namespace LRUCache

/-! ### Metadata files -/

/-- `c,s,l;` -/
def recordText (record : List Int) : Except Fault Str := do
  let chunk ← atIdx record 0
  let start ← atIdx record 1
  let length ← atIdx record 2
  .ok (toStr chunk ++ ',' :: (toStr start ++ ',' :: (toStr length ++ [';'])))

/-- `@user;` and the records, for each user: the text that `write_cp_meta` and `write_virmem_meta`
write. -/
def metaText (records : Map Records) : Except Fault Str := do
  let entries ← records.toList.mapM fun entry => do
    let texts ← entry.2.mapM recordText
    .ok ('@' :: (entry.1 ++ ';' :: texts.flatten))
  .ok entries.flatten

def writeCpMeta (s : LRUCache) : Except Fault LRUCache := do
  let text ← metaText s.cpMeta
  .ok (s.act (.append .metadata "cp_meta".toList text))

def writeVirmemMeta (s : LRUCache) : Except Fault LRUCache := do
  let text ← metaText s.virmemMeta
  .ok (s.act (.append .metadata "virmem_meta".toList text))

def writeChunkInfo (s : LRUCache) : Except Fault LRUCache := do
  let cpChunk ← atIdx (s.chunkInfo .checkpointing) 0
  let cpSize ← atIdx (s.chunkInfo .checkpointing) 1
  let vmChunk ← atIdx (s.chunkInfo .virtualMemory) 0
  let vmSize ← atIdx (s.chunkInfo .virtualMemory) 1
  let text := toStr cpChunk ++ ',' :: (toStr cpSize ++ ',' :: (toStr vmChunk ++ ',' ::
    (toStr vmSize ++ ',' :: toStr s.memoryUsed)))
  .ok (s.act (.append .metadata "chunk_info".toList text))

def userSizeText (userSize : Map Int) : Str :=
  userSize.toList.flatMap fun entry => entry.1 ++ ',' :: (toStr entry.2 ++ [','])

def writeUserSize (s : LRUCache) : LRUCache :=
  s.act (.append .metadata "user_size".toList (userSizeText s.userSize))

/-- `read_file`: the lines of a file put together without their line ends. -/
def readFile (s : LRUCache) (name : String) : Str :=
  (s.disk.content .metadata name.toList).filter (· != '\n')

def rebuildVector (text : Str) : Except Fault (List Int) := do
  let front ← (Fields.pieces ',' text).mapM stoi
  let last ← stoi (Fields.remainder ',' text)
  .ok (front ++ [last])

/-- `virmem_meta[user].push_back(record)`, or the same for `cp_meta`. -/
def pushRecord (s : LRUCache) (type : ChunkType) (user : Str) (record : List Int) : LRUCache :=
  s.setMeta type ((s.metaOf type).insert user ((s.metaOf type).getD user [] ++ [record]))

def parseMeta (type : ChunkType) (s : LRUCache) (text : Str) : Except Fault LRUCache :=
  match Fields.pieces ';' text with
  | [] => .ok s
  | user :: records =>
      records.foldlM (fun s record => do
        let record ← rebuildVector record
        .ok (s.pushRecord type user record)) s

def loadCpVmMeta (s : LRUCache) (name : String) (type : ChunkType) : Except Fault LRUCache :=
  let text := s.readFile name
  ((Fields.pieces '@' text).drop 1 ++ [Fields.remainder '@' text]).foldlM (parseMeta type) s

def pushChunkInfo (s : LRUCache) (type : ChunkType) (n : Int) : LRUCache :=
  { s with chunkInfo := Function.update s.chunkInfo type (s.chunkInfo type ++ [n]) }

def loadChunkInfo (s : LRUCache) : Except Fault LRUCache :=
  (Fields.pieces ',' (s.readFile "chunk_info")).zipIdx.foldlM (fun s (field, counter) => do
    if counter = 0 ∨ counter = 1 then
      let n ← stoi field
      .ok (s.pushChunkInfo .checkpointing n)
    else if counter = 2 ∨ counter = 3 then
      let n ← stoi field
      .ok (s.pushChunkInfo .virtualMemory n)
    else .ok s) s

def loadUserSize (s : LRUCache) : Except Fault LRUCache :=
  (pairUp (Fields.pieces ',' (s.readFile "user_size"))).foldlM (fun s entry => do
    let n ← stoi entry.2
    .ok (s.setUserSize entry.1 n)) s

/-! ### Checkpoints -/

/-- `clear_dir`: remove every entry of a directory. -/
def clearDir (s : LRUCache) (dir : Dir) : LRUCache :=
  (s.disk.files dir).toList.foldl (fun s file => s.act (.remove dir file.1)) s

/-- `copy_dir`: copy every entry of a directory into another. -/
def copyDir (s : LRUCache) (src des : Dir) : LRUCache :=
  (s.disk.files src).toList.foldl (fun s file => s.act (.copy src des file.1)) s

/-- The part of `checkpointing` that removes the previous checkpoint and the log. -/
def clearCheckpoint (s : LRUCache) : LRUCache :=
  (((s.clearDir .cpVirtualMemory).clearDir .checkpointing).clearDir .metadata).act .removeLog

/-- `cp_meta = temp;` and the two counters of the checkpoint chunks set back to zero. -/
def resetCheckpoint (s : LRUCache) : Except Fault LRUCache := do
  let _ ← atIdx (s.chunkInfo .checkpointing) 0
  let _ ← atIdx (s.chunkInfo .checkpointing) 1
  .ok { s with
    cpMeta := ∅
    chunkInfo := Function.update s.chunkInfo .checkpointing
      (((s.chunkInfo .checkpointing).set 0 0).set 1 0) }

/-- Write the rows of all users in memory. -/
def writeRows (s : LRUCache) : Except Fault LRUCache :=
  s.tablets.toList.foldlM (fun s entry =>
    let node := s.heap entry.2
    s.writeToChunk node.key (formatNode node.value).1 .checkpointing) s

def writeMetadata (s : LRUCache) : Except Fault LRUCache := do
  let s ← s.writeCpMeta
  let s ← s.writeVirmemMeta
  let s ← s.writeChunkInfo
  .ok s.writeUserSize

def checkpointing (s : LRUCache) : Except Fault LRUCache := do
  let s := s.clearCheckpoint
  let s ← s.resetCheckpoint
  let s ← s.writeRows
  let s ← s.writeMetadata
  .ok (s.copyDir .virtualMemory .cpVirtualMemory)

def loadMetadata (s : LRUCache) : Except Fault LRUCache := do
  let s ← s.loadCpVmMeta "cp_meta" .checkpointing
  let s ← s.loadCpVmMeta "virmem_meta" .virtualMemory
  let s ← s.loadChunkInfo
  s.loadUserSize

/-- `load_checkpointing`; the descriptor −1 stands for no client. -/
def loadCheckpointing (fuel : Nat) (s : LRUCache) : Except Fault LRUCache := do
  let s ← s.loadMetadata
  let s ← s.cpMeta.toList.foldlM
    (fun s entry => s.loadUserFromDisk fuel .checkpointing entry.1 (-1)) s
  let s := s.clearDir .virtualMemory
  .ok (s.copyDir .cpVirtualMemory .virtualMemory)

end LRUCache

/-! ### Commands -/

structure MsgPair where
  sq : Int
  msg : Str
  isInt : IsInt sq
  deriving DecidableEq, Repr

def MsgPair.of (sq : Int) (msg : Str) : MsgPair := ⟨toInt32 sq, msg, toInt32_range sq⟩

theorem MsgPair.of_sq {sq : Int} (h : IsInt sq) (msg : Str) : (MsgPair.of sq msg).sq = sq := toInt32_of_range h.1 h.2

/-- A node: its cache and the globals that keep the secondary up to date. -/
structure Chunkserver where
  lru : LRUCache
  secondaryFd : Int
  seqNumRecords : Map Int
  primaryHoldback : Map (List MsgPair)

namespace Chunkserver

def fresh (capacity : Int) (isPrimary : Bool) (secondaryFd : Int) : Chunkserver :=
  ⟨LRUCache.fresh capacity isPrimary, secondaryFd, ∅, ∅⟩

def send (s : Chunkserver) (commFd : Int) (msg : Str) : Chunkserver :=
  { s with lru := s.lru.send commFd msg }

def error (s : Chunkserver) (commFd : Int) : Chunkserver :=
  s.send commFd "-ERR Not supported\r\n".toList

/-- At most `n` fields ended by commas, then the rest. -/
def takeFields : Nat → Str → List Str
  | 0, s => [s]
  | n + 1, s =>
      match Fields.cut ',' s with
      | none => [s]
      | some (field, rest) => field :: takeFields n rest

/-- `parse_line` for `num_of_args ≥ 1`, its `counter` a local that starts at 0. -/
def parseLine (s : Str) (numOfArgs : Nat) : List Str := takeFields (numOfArgs - 1) s

/-- The loop of `parse_line`: what is left of the string, the arguments so far, and `counter`. -/
def parseLoop (numOfArgs : Nat) : Nat → Str → List Str → Nat → Except Fault (List Str)
  | 0, _, _, _ => .error .outOfFuel
  | n + 1, s, arguments, counter =>
      match Search.find [','] s 0 with
      | none => .ok (arguments ++ [s])
      | some pos =>
          if counter ≠ numOfArgs - 1 then do
            let field ← substr s 0 pos
            parseLoop numOfArgs n (s.drop (pos + 1)) (arguments ++ [field]) (counter + 1)
          else .ok (arguments ++ [s])

/-- `parse_line` as it is written, behind the arguments that are there. `parseLine` is what comes of it. -/
def parseLineInto (s : Str) (arguments : List Str) (numOfArgs : Nat) : Except Fault (List Str) :=
  parseLoop numOfArgs (s.length + 1) s arguments 0

/-- The bytes of a line from `offset` on, copied to an array of `strlen(line) - offset + 1` bytes. -/
def argumentsOf (line : Str) (offset : Nat) : Except Fault Str :=
  if line.length < offset then .error .badLength else .ok (line.drop offset)

def writeLog (s : Chunkserver) (request : Str) : Chunkserver :=
  { s with lru := s.lru.act (.appendLog request) }

/-- The text of a message to the secondary. -/
def messageText (m : MsgPair) : Str := toStr m.sq ++ ',' :: m.msg

/-- `send_to_secondary`. The sequence number is an `int`; its overflow is undefined. -/
def sendToSecondary (s : Chunkserver) (line user : Str) : Except Fault Chunkserver :=
  let sequence := s.seqNumRecords.getD user 0 + 1
  if ¬ IsInt sequence then .error .intOverflow
  else
    let held := MsgPair.of sequence line
    let s := { s with
      seqNumRecords := s.seqNumRecords.insert user sequence
      primaryHoldback := s.primaryHoldback.insert user (s.primaryHoldback.getD user [] ++ [held]) }
    .ok (s.send s.secondaryFd (messageText held))

/-- What the four writing commands do once their arguments are read. -/
def perform (fuel : Nat) (s : Chunkserver) (line user : Str) (external : Bool) (op : Op) :
    Except Fault Chunkserver := do
  let lru ← s.lru.exec fuel op
  let s := { s with lru := lru }
  if external then
    let s := s.writeLog line
    if s.lru.isPrimary then s.sendToSecondary line user else .ok s
  else .ok s

/-- `PUT r,c,v` -/
def put (fuel : Nat) (s : Chunkserver) (line : Str) (external : Bool) (commFd seqNum : Int) :
    Except Fault Chunkserver := do
  let arguments ← argumentsOf line 4
  match parseLine arguments 3 with
  | [user, filename, value] =>
      s.perform fuel line user external (.put user filename value commFd seqNum)
  | _ => .ok (s.error commFd)

/-- `GET r,c` -/
def get (fuel : Nat) (s : Chunkserver) (line : Str) (commFd : Int) : Except Fault Chunkserver := do
  let arguments ← argumentsOf line 4
  match parseLine arguments 2 with
  | [user, filename] =>
      let lru ← s.lru.get fuel user (chopTwo filename) commFd
      .ok { s with lru := lru }
  | _ => .ok (s.error commFd)

/-- `CPUT r,c,v1,v2` -/
def cput (fuel : Nat) (s : Chunkserver) (line : Str) (external : Bool) (commFd seqNum : Int) :
    Except Fault Chunkserver := do
  let arguments ← argumentsOf line 5
  match parseLine arguments 4 with
  | [user, filename, oldValue, newValue] =>
      s.perform fuel line user external
        (.cput user filename (oldValue ++ "\r\n".toList) newValue commFd seqNum)
  | _ => .ok (s.error commFd)

/-- `DELE r,c` -/
def dele (fuel : Nat) (s : Chunkserver) (line : Str) (external isMigration : Bool)
    (commFd seqNum : Int) : Except Fault Chunkserver := do
  let arguments ← argumentsOf line 5
  match parseLine arguments 2 with
  | [user, filename] =>
      s.perform fuel line user external (.dele user (chopTwo filename) commFd seqNum isMigration)
  | _ => .ok (s.error commFd)

/-- `GETLIST user,lst_type` -/
def getlist (fuel : Nat) (s : Chunkserver) (line : Str) (commFd : Int) :
    Except Fault Chunkserver := do
  let arguments ← argumentsOf line 8
  match parseLine arguments 2 with
  | [user, type] =>
      let lru ← s.lru.getlist fuel user (chopTwo type) commFd
      .ok { s with lru := lru }
  | _ => .ok (s.error commFd)

/-- `GETFILE user` -/
def getfile (fuel : Nat) (s : Chunkserver) (line : Str) (commFd : Int) :
    Except Fault Chunkserver := do
  if 10 < line.length then
    let user ← substr line 8 (line.length - 10)
    let lru ← s.lru.getfile fuel user commFd
    .ok { s with lru := lru }
  else .ok (s.error commFd)

/-- `RENAME r,c1,c2` -/
def rename (fuel : Nat) (s : Chunkserver) (line : Str) (external : Bool) (commFd seqNum : Int) :
    Except Fault Chunkserver := do
  let arguments ← argumentsOf line 7
  match parseLine arguments 3 with
  | [user, oldFilename, newFilename] =>
      s.perform fuel line user external
        (.rename user oldFilename (chopTwo newFilename) commFd seqNum)
  | _ => .ok (s.error commFd)

/-! ### The log -/

/-- The lines `getline` reads: those ended by a newline, and a last one that is not empty. -/
def logLines (text : Str) : List Str :=
  let last := Fields.remainder '\n' text
  Fields.pieces '\n' text ++ if last = [] then [] else [last]

/-- The word before the first blank, empty if there is none. -/
def replayCommand (line : Str) : Str :=
  match Fields.cut ' ' line with
  | some (command, _) => command
  | none => []

def replayLine (fuel : Nat) (s : Chunkserver) (line : Str) : Except Fault Chunkserver :=
  let record := cstr line ++ ['\n']
  let command := replayCommand line
  if command = "put".toList then s.put fuel record false (-1) 0
  else if command = "cput".toList then s.cput fuel record false (-1) 0
  else if command = "dele".toList then s.dele fuel record false false (-1) 0
  else .ok s

def replayLog (fuel : Nat) (s : Chunkserver) : Except Fault Chunkserver :=
  (logLines (s.lru.disk.log.getD [])).foldlM (replayLine fuel) s

/-! ### Migration -/

/-- `for (auto it: node->value)` over the live map of a node: the next element is the one behind the
current key, and a key that the body has erased cannot be advanced from. -/
def forEachFile (fuel : Nat) (s : Chunkserver) (node : Ref) (key : Option Str)
    (body : Chunkserver → Str → Except Fault Chunkserver) : Except Fault Chunkserver :=
  match fuel, key with
  | 0, _ => .error .outOfFuel
  | _ + 1, none => .ok s
  | fuel + 1, some key => do
      let s ← body s key
      let files := (s.lru.heap node).value
      if files.contains key then
        forEachFile fuel s node ((files.keys.find? (fun k => key < k))) body
      else .error .danglingIterator

def migrateData (fuel : Nat) (s : Chunkserver) (user : Str) (commFd : Int) :
    Except Fault Chunkserver := do
  -- send data to the node that asked for it
  let node ← deref s.lru.tablets[user]?
  let s ← s.forEachFile fuel node (s.lru.heap node).value.keys.head? fun s filename => do
    let (found, lru) ← s.lru.getHelper fuel user filename commFd
    let s := { s with lru := lru }
    match found with
    | some value =>
        .ok (s.send commFd ("put ".toList ++ user ++ ',' :: (filename ++ ',' :: value)))
    | none => .ok s
  -- delete the files here and tell the secondary
  let node ← deref s.lru.tablets[user]?
  s.forEachFile fuel node (s.lru.heap node).value.keys.head? fun s filename => do
    let (found, lru) ← s.lru.getHelper fuel user filename commFd
    let s := { s with lru := lru }
    match found with
    | some _ =>
        s.dele fuel ("dele ".toList ++ user ++ ',' :: (filename ++ "\r\n".toList)) true true commFd 0
    | none => .ok s

end Chunkserver

end PennCloud
