import PennCloud.Str
import Std.Data.ExtTreeSet

/-!
# The master

`master.cc` and `conhash.cc`: the directory of the storage nodes, kept on a ring, and the index of the
users that were looked up. One round of the loop of `main` takes a datagram to the new state and the
reply.

The outcome of `check_server_state` for an address is a parameter. Fields of a `Server` that the source
leaves uninitialised are zero here.
-/

namespace PennCloud

/-- `hash_str`: unsigned 32-bit arithmetic over signed characters. -/
def hashStr (s : Str) : Int :=
  let h := (cstr s).foldl
    (fun h c => (h * 54059#32) ^^^ BitVec.ofInt 32 (Int.bmod c.toNat 256 * 76963)) 37#32
  h.toNat % 86969

@[ext]
structure Server where
  id : Int
  ip : Str
  port : Int
  running : Bool
  isInt : IsInt port
  deriving Repr

instance : DecidableEq Server := fun _ _ => decidable_of_iff' _ Server.ext_iff

/-- `Server server;` -/
def Server.blank : Server := ⟨0, [], 0, false, isInt_port 0⟩

/-- A node that has sent a datagram. -/
def Server.sender (id : Int) (ip : Str) (port : UInt16) : Server := ⟨id, ip, port.toNat, true, isInt_port port⟩

/-- `ip + ":" + to_string(port)` -/
def Server.address (server : Server) : Str := server.ip ++ ':' :: toStr server.port

structure Pair where
  primary : Server
  secondary : Server
  deriving DecidableEq, Repr

/-- `Pair pair;` -/
def Pair.blank : Pair := ⟨Server.blank, Server.blank⟩

abbrev Servers := Std.ExtTreeMap Int Pair

abbrev Users := Std.ExtTreeMap Int (Std.ExtTreeSet Str)

structure Master where
  servers : Servers
  users : Users
  serverIndex : Map Int

/-- A datagram as `recvfrom` returns it. -/
structure Datagram where
  ip : Str
  port : UInt16
  buf : Str
  deriving DecidableEq, Repr

namespace Master

/-- A master that has just started. -/
def init : Master := ⟨∅, ∅, ∅⟩

/-- The loop of `get_server_id` over the ids behind the first. -/
def scan (key head prev : Int) : List Int → Int
  | [] => head
  | current :: rest => if prev ≤ key ∧ key < current then current else scan key head current rest

def getServerId (servers : Servers) (key : Int) : Int :=
  match servers.keys with
  | [] => -1
  | head :: rest => if 0 ≤ key ∧ key < head then head else scan key head head rest

/-- A secondary takes the place of a primary that is down. -/
def failOver (alive : Str → Int → Bool) (pair : Pair) : Pair :=
  if alive pair.primary.ip pair.primary.port then pair else ⟨pair.secondary, Server.blank⟩

def getBackendInfo (alive : Str → Int → Bool) (m : Master) (key : Int) : Master × Str :=
  let serverId := getServerId m.servers key
  let pair := failOver alive (m.servers.getD serverId Pair.blank)
  ({ m with servers := m.servers.insert serverId pair }, pair.primary.address)

/-- The `?` command. -/
def lookUp (alive : Str → Int → Bool) (m : Master) (content : Str) : Master × Str :=
  let key := hashStr content
  let nodeId := getServerId m.servers key
  let list := (m.users.getD nodeId ∅).insert content
  getBackendInfo alive { m with users := m.users.insert nodeId list } key

/-- One round of the loop over the users of `dest`. -/
def moveUser (id dest : Int) (state : Str × Users) (user : Str) : Str × Users :=
  if hashStr user < id then
    (state.1 ++ (user ++ [',']), state.2.insert dest ((state.2.getD dest ∅).erase user))
  else state

/-- `servers.count(id) == 0`: a node that the master does not know yet. -/
def joinNew (m : Master) (id : Int) (server : Server) : Master × Str :=
  let pair : Pair := ⟨server, Server.blank⟩
  if m.users.isEmpty then ({ m with servers := m.servers.insert id pair }, "P".toList)
  else
    let dest := getServerId m.servers id
    let list := m.users.getD dest ∅
    let users := m.users.insert dest list
    let destPair := m.servers.getD dest Pair.blank
    let servers := m.servers.insert dest destPair
    let rep := "P ".toList ++ destPair.primary.address ++ [',']
    let (rep, users) := list.toList.foldl (moveUser id dest) (rep, users)
    ({ m with servers := servers.insert id pair, users := users }, rep)

/-- A node under the id of an earlier one. -/
def joinAgain (alive : Str → Int → Bool) (m : Master) (id : Int) (server : Server) (pair : Pair) :
    Master × Str :=
  let (pair, rep) : Pair × Str :=
    if alive pair.primary.ip pair.primary.port then
      (⟨pair.primary, server⟩, "P=".toList ++ pair.primary.address)
    else if pair.secondary.ip = [] then (⟨server, pair.secondary⟩, "P".toList)
    else (⟨pair.secondary, server⟩, "P=".toList ++ pair.secondary.address)
  ({ m with servers := m.servers.insert id pair }, rep)

/-- The `!` command. -/
def join (alive : Str → Int → Bool) (m : Master) (ip : Str) (port : UInt16) (content : Str) :
    Master × Str :=
  let id := atoi content
  let server := Server.sender id ip port
  let m := { m with serverIndex := m.serverIndex.insert server.address id }
  match m.servers[id]? with
  | none => m.joinNew id server
  | some pair => m.joinAgain alive id server pair

/-- The `A` command: all nodes. -/
def listServers (m : Master) : Str :=
  m.servers.toList.flatMap fun (_, pair) =>
    'P' :: pair.primary.address ++ [','] ++
      if pair.secondary.ip = [] then [] else 'S' :: pair.secondary.address ++ [',']

/-- The `U` command: the users of the node at an address. -/
def listUsers (m : Master) (content : Str) : Except Fault (Master × Str) :=
  match m.serverIndex[content]? with
  | none => .error .outOfRange
  | some nodeId =>
      let list := m.users.getD nodeId ∅
      .ok ({ m with users := m.users.insert nodeId list }, Fields.terminate ',' list.toList)

/-- One round of the loop of `main`: the new state and the reply. -/
def receive (alive : Str → Int → Bool) (m : Master) (datagram : Datagram) :
    Except Fault (Master × Str) :=
  let message := cstr datagram.buf
  match message with
  | [] => .error .outOfRange
  | '?' :: content => .ok (m.lookUp alive content)
  | '!' :: content => .ok (m.join alive datagram.ip datagram.port content)
  | 'A' :: _ => .ok (m, m.listServers)
  | 'U' :: content => m.listUsers content
  | _ => .ok (m, [])

end Master

end PennCloud
