import PennCloud.Frontend.Utils

/-!
# The load balancer

`load_balancer.cc`: the servers of a configuration file, numbered from one, and a cursor that goes round them.
-/

namespace PennCloud

namespace LoadBalancer

structure Server where
  id : Nat
  ip : Str
  port : Int
  running : Bool
  deriving DecidableEq, Repr

end LoadBalancer

/-- The servers by their ids, and the variable `handler_server_id` of `main`. -/
structure LoadBalancer where
  numOfServers : Nat
  servers : Nat → LoadBalancer.Server
  handlerServerId : Nat

namespace LoadBalancer

/-- What a client is answered: the page of a server, or the page that none is running. -/
inductive Page where
  | noServerRunning
  | redirect (serverId : Nat) (server : Str)
  deriving DecidableEq, Repr

/-- `handler_server_id = (handler_server_id + 1) % NUM_OF_SERVERS`, and `NUM_OF_SERVERS` for zero. -/
def advance (numOfServers handlerServerId : Nat) : Nat :=
  let next := (handlerServerId + 1) % numOfServers
  if next = 0 then numOfServers else next

/-- The loop that looks for a running server: the id it stops at and the number of advances. -/
def search (fuel : Nat) (servers : Nat → Server) (numOfServers handlerServerId count : Nat) :
    Except Fault (Nat × Nat) :=
  match fuel with
  | 0 => .error .outOfFuel
  | fuel + 1 =>
      if (servers handlerServerId).running then .ok (handlerServerId, count)
      else
        let handlerServerId := advance numOfServers handlerServerId
        let count := count + 1
        if numOfServers ≤ count then .ok (handlerServerId, count)
        else search fuel servers numOfServers handlerServerId count

/-- One round of the loop of `main`. -/
def serve (fuel : Nat) (lb : LoadBalancer) : Except Fault (Page × LoadBalancer) := do
  let (handlerServerId, count) ← search fuel lb.servers lb.numOfServers lb.handlerServerId 0
  if lb.numOfServers ≤ count then
    .ok (.noServerRunning, { lb with handlerServerId := handlerServerId })
  else
    let server := lb.servers handlerServerId
    .ok (.redirect handlerServerId (server.ip ++ ':' :: toStr server.port),
      { lb with handlerServerId := advance lb.numOfServers handlerServerId })

/-- A number of requests in a row. -/
def serveMany (fuel : Nat) (lb : LoadBalancer) : Nat → Except Fault (List Page × LoadBalancer)
  | 0 => .ok ([], lb)
  | n + 1 => do
      let (page, lb) ← lb.serve fuel
      let (pages, lb) ← lb.serveMany fuel n
      .ok (page :: pages, lb)

/-! ### The process -/

/-- `Server server;` -/
def Server.blank : Server := ⟨0, [], 0, false⟩

/-- One round of the loop of `parse_all_servers`, with `id` and the servers so far. -/
def readServer (state : Nat × (Nat → Server)) (line : Str) : Except Fault (Nat × (Nat → Server)) :=
  match Fields.cut ':' line with
  | none => .error .exited
  | some (ipAddr, port) =>
      .ok (state.1 + 1, Function.update state.2 state.1 ⟨state.1, ipAddr, atoi (cstr port), false⟩)

/-- `parse_all_servers`, for the content of the file. -/
def parseAllServers (content : Str) : Except Fault (Nat × (Nat → Server)) := do
  let (id, servers) ← (split content '\n').foldlM readServer (1, fun _ => Server.blank)
  .ok (id - 1, servers)

/-- The text of a page. -/
def Page.content (files : Files) : Page → Except Fault Str
  | .noServerRunning => files.getFileContent "html/no-server-running.html".toList
  | .redirect _ server => do
      let content ← files.getFileContent "html/redirect-this-server.html".toList
      .ok (replaceAll content "$server".toList server)

def header : Str := "HTTP/1.1 200 OK\r\nContent-Type: text/html\r\nContent-Length: ".toList

def response (content : Str) : Str := header ++ toStr content.length ++ "\r\n\r\n".toList ++ content

/-- One round of the loop of `main` with what it writes. -/
def handle (fuel : Nat) (files : Files) (lb : LoadBalancer) : Except Fault (Page × Str × LoadBalancer) := do
  let (page, lb) ← lb.serve fuel
  let content ← page.content files
  .ok (page, response content, lb)

/-- `main` beside the thread `check_server_state`, whose `i` is here. -/
structure Process where
  lb : LoadBalancer
  next : Nat

/-- What the process has come to when it starts the thread. -/
def Process.start (numOfServers : Nat) (servers : Nat → Server) : Process := ⟨⟨numOfServers, servers, 1⟩, 1⟩

/-- The outcome of `connect` for the server at which the thread is. -/
def Process.check (connected : Bool) (p : Process) : Process where
  lb := { p.lb with
    servers := Function.update p.lb.servers p.next { p.lb.servers p.next with running := connected } }
  next := if p.next < p.lb.numOfServers then p.next + 1 else 1

inductive Event where
  | checked (id : Nat) (connected : Bool)
  | answered (page : Page) (written : Str)

/-- The two threads take turns at the lock, in any order. The pages are as they stand in the directory at the time. -/
inductive Step (fuel : Nat) : Process → Event → Process → Prop where
  | checked (connected : Bool) {p : Process} : Step fuel p (.checked p.next connected) (p.check connected)
  | answered (files : Files) {p : Process} {page : Page} {written : Str} {lb : LoadBalancer}
      (h : p.lb.handle fuel files = .ok (page, written, lb)) : Step fuel p (.answered page written) { p with lb := lb }

end LoadBalancer

end PennCloud
