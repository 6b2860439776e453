import PennCloud.Kv.Chunkserver

/-!
# Messages

`kvstore.cc`: what a node does with one message. A message is what one `recv` returns; it is read as
a C string.
-/

namespace PennCloud.Chunkserver

/-- `parse_command`: the word before the first blank, or the line without its last two bytes when no
blank stands behind a first word. -/
def parseCommand (line : Str) : Except Fault Str :=
  let idx := line.findIdx (· == ' ')
  if 0 < idx ∧ idx < line.length then .ok ((line.take idx).map Char.toLower)
  else if line.length < 2 then .error .badLength
  else .ok ((line.take (line.length - 2)).map Char.toLower)

/-! ### The primary and its secondary -/

/-- `handle_secondary_report`: read `DONE user,seq` and drop the message from the hold-back queue. -/
def handleSecondaryReport (s : Chunkserver) (line : Str) : Except Fault Chunkserver := do
  let text ← substr line 5 (line.length - 5)
  let user := (Fields.pieces ',' text).getLastD []
  let seqNum ← stoi (Fields.remainder ',' text)
  let kept := (s.primaryHoldback.getD user []).filter (·.sq != seqNum)
  .ok { s with primaryHoldback :=
    if kept = [] then s.primaryHoldback.erase user else s.primaryHoldback.insert user kept }

/-- The messages `check_primary_holdback` sends again, in the order of the users. -/
def heldMessages (s : Chunkserver) : List MsgPair :=
  s.primaryHoldback.toList.flatMap fun entry => entry.2

def checkPrimaryHoldback (s : Chunkserver) : Chunkserver :=
  s.heldMessages.foldl (fun s held => s.send s.secondaryFd (messageText held)) s

/-- What the secondary executes of a message: the number before the first comma and the line behind it. -/
def splitMessage (buffer : Str) : Except Fault (Int × Str) :=
  match Fields.cut ',' buffer with
  | some (sq, line) => .ok (atoi sq, line)
  | none => .error .nullDeref

/-- The dispatch that `worker` and `ps_worker` share for the four commands that write. -/
def writeCommand (fuel : Nat) (s : Chunkserver) (command line : Str) (commFd seqNum : Int) :
    Option (Except Fault Chunkserver) :=
  if command = "put".toList then some (s.put fuel line true commFd seqNum)
  else if command = "cput".toList then some (s.cput fuel line true commFd seqNum)
  else if command = "dele".toList then some (s.dele fuel line true false commFd seqNum)
  else if command = "rename".toList then some (s.rename fuel line true commFd seqNum)
  else none

/-- One round of `ps_worker`: execute one message of the primary. -/
def psWorker (fuel : Nat) (s : Chunkserver) (sockFd : Int) (buffer : Str) :
    Except Fault Chunkserver := do
  let (seqNum, line) ← splitMessage (cstr buffer)
  let command ← parseCommand line
  (s.writeCommand fuel command line sockFd seqNum).getD (.ok s)

/-! ### Clients -/

/-- `data_migration`: the list of users ends with a comma. -/
def dataMigration (fuel : Nat) (s : Chunkserver) (line : Str) (commFd : Int) :
    Except Fault Chunkserver := do
  let text ← substr line 8 (line.length - 8)
  let s ← (Fields.pieces ',' text).foldlM (fun s user => s.migrateData fuel user commFd) s
  .ok (s.send commFd "MIGRATION DONE\r\n".toList)

/-- The line that ends every reply to a client. -/
def sendDone (s : Chunkserver) (commFd : Int) : Chunkserver :=
  s.send commFd "!!!DONE!!!\r\n".toList

/-- One round of `worker`: execute one message of a client, or of the secondary. -/
def worker (fuel : Nat) (s : Chunkserver) (commFd : Int) (buffer : Str) :
    Except Fault Chunkserver := do
  let line := cstr buffer
  if line = "S\r\n".toList then
    .ok ({ s with secondaryFd := commFd }).checkPrimaryHoldback
  else if line = "shutdown\r\n".toList then .error .exited
  else
    let command ← parseCommand line
    match s.writeCommand fuel command line commFd 0 with
    | some result => do
        let s ← result
        .ok (s.sendDone commFd)
    | none =>
        if command = "get".toList then do
          let s ← s.get fuel line commFd
          .ok (s.sendDone commFd)
        else if command = "getlist".toList then do
          let s ← s.getlist fuel line commFd
          .ok (s.sendDone commFd)
        else if command = "getfile".toList then do
          let s ← s.getfile fuel line commFd
          .ok (s.sendDone commFd)
        else if command = "done".toList then s.handleSecondaryReport line
        else if command = "request".toList then s.dataMigration fuel line commFd
        else if command = "quit".toList then .ok s
        else .ok (s.error commFd)

/-! ### Start -/

/-- A process that has just started on a disk. -/
def boot (capacity : Int) (isPrimary : Bool) (secondaryFd : Int) (disk : Disk) : Chunkserver :=
  ⟨LRUCache.init capacity isPrimary (fun _ => []) disk, secondaryFd, ∅, ∅⟩

def initializeChunkInfo (s : LRUCache) (key : ChunkType) : LRUCache := (s.pushChunkInfo key 0).pushChunkInfo key 0

/-- `initialization`, with the option `-n` of a node without chunks. -/
def initialization (fuel : Nat) (optN : Bool) (s : Chunkserver) : Except Fault Chunkserver :=
  if optN then
    let lru := (((s.lru.clearDir .virtualMemory).clearDir .cpVirtualMemory).clearDir .checkpointing).clearDir .metadata
    .ok { s with lru := initializeChunkInfo (initializeChunkInfo lru .virtualMemory) .checkpointing }
  else do
    let lru ← s.lru.loadCheckpointing fuel
    ({ s with lru := lru }).replayLog fuel

end PennCloud.Chunkserver
