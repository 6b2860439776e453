import PennCloud.Kv.Kvstore

/-!
# Requests of the frontend

`store.cc`, with `read_rep_line` of `utils.cc`: one message to the node of a user and the lines of its
reply. A socket shows its bytes in order and then nothing.
-/

namespace PennCloud

/-! ### Replies -/

/-- `read_rep_line`, with the line read so far: the text up to the next `\r\n` and what is left of the stream. A
byte behind a `\r` that is not `\n` is read and forgotten. -/
def readRepLine : Str → Str → Str × Str
  | line, '\r' :: '\n' :: rest => (line, rest)
  | line, '\r' :: _ :: rest => readRepLine (line ++ ['\r']) rest
  | line, c :: rest => readRepLine (line ++ [c]) rest
  | line, [] => (line, [])

/-- The lines in front of the one that ends the reply. Behind the end of the stream every line is empty, and
the loop goes on. -/
def repLines (fuel : Nat) (ending stream : Str) : Except Fault (List Str) :=
  match fuel with
  | 0 => .error .outOfFuel
  | fuel + 1 =>
      let (line, rest) := readRepLine [] stream
      if line = ending then .ok []
      else do
        let rep ← repLines fuel ending rest
        .ok (line :: rep)

/-- The loops of `send_to_backend` that collect the reply to a message. -/
def readRep (fuel : Nat) (message stream : Str) : Except Fault (List Str) :=
  let (line, rest) := readRepLine [] stream
  -- the first line is compared with the other ending before the loop for a getlist
  if line = "!!!DONE!!!".toList then .ok []
  else
    let ending := if message.take 7 = "getlist".toList then ",!!!DONE!!!".toList else "!!!DONE!!!".toList
    if line = ending then .ok []
    else do
      let rep ← repLines fuel ending rest
      .ok (line :: rep)

namespace Chunkserver

/-- The bytes a node has sent on a descriptor between two states. -/
def repliesOn (commFd : Int) (s t : Chunkserver) : Str :=
  ((t.lru.sent.drop s.lru.sent.length).filter (·.1 = commFd)).flatMap Prod.snd

/-- `send_to_backend`, once the master has named the node. -/
def sendToBackend (fuel : Nat) (s : Chunkserver) (commFd : Int) (message : Str) :
    Except Fault (List Str × Chunkserver) := do
  let t ← s.worker fuel commFd (cstr message)
  let rep ← readRep fuel message (repliesOn commFd s t)
  .ok (rep, t)

def addUserMessage (username password : Str) : Str :=
  "put ".toList ++ username ++ (",pwd,".toList ++ password ++ "\r\n".toList)

def addUser (fuel : Nat) (s : Chunkserver) (commFd : Int) (username password : Str) : Except Fault Chunkserver := do
  let (_, s) ← s.sendToBackend fuel commFd (addUserMessage username password)
  .ok s

def getPwdMessage (username : Str) : Str := "get ".toList ++ username ++ ",pwd\r\n".toList

def isUserExist (fuel : Nat) (s : Chunkserver) (commFd : Int) (username : Str) :
    Except Fault (Bool × Chunkserver) := do
  let (rep, s) ← s.sendToBackend fuel commFd (getPwdMessage username)
  let status ← atIdx rep 0
  .ok (status.take 3 = "+OK".toList, s)

/-- What `is_login_valid` makes of a reply. -/
def matchPwd (rep : List Str) (password : Str) : Except Fault Bool := do
  let status ← atIdx rep 0
  if status.take 3 = "+OK".toList then do
    let value ← atIdx rep 1
    .ok (value = password)
  else .ok false

def isLoginValid (fuel : Nat) (s : Chunkserver) (commFd : Int) (username password : Str) :
    Except Fault (Bool × Chunkserver) := do
  let (rep, s) ← s.sendToBackend fuel commFd (getPwdMessage username)
  let valid ← matchPwd rep password
  .ok (valid, s)

end Chunkserver

end PennCloud
