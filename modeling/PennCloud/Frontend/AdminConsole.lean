import PennCloud.Frontend.Utils
import PennCloud.Master.Master

/-!
# The admin console

`admin_console.h`: the table of the storage nodes, which the console fills from what the master answers. The table stays from one
visit to the next.
-/

namespace PennCloud

namespace AdminConsole

structure Server where
  id : Int
  ip : Str
  port : Int
  running : Bool
  backendType : Int
  deriving DecidableEq, Repr

abbrev BackendServers := Std.ExtTreeMap Int Server

def backendTypeOf (s : Str) : Int := if s = "P".toList then 1 else if s = "S".toList then 2 else 3

/-- The loop of `parse_backend_servers`. A position behind the last one is the first one, and a length below zero is a large one. -/
def parseServers (data : Str) : Nat → Nat → Nat → Nat → Int → BackendServers → Except Fault (Int × BackendServers)
  | 0, _, _, _, _, _ => .error .outOfFuel
  | n + 1, found1, found2, found3, id, backendServers =>
      if found2 = npos then .ok (id - 1, backendServers)
      else do
        let ipAddr ← substr data ((found1 + 1) % 2 ^ 64) (toSize (found2 - found1 - 1))
        let port ← substr data ((found2 + 1) % 2 ^ 64) (toSize (found3 - found2 - 1))
        let backendType ← substr data found1 1
        let server : Server := ⟨id, ipAddr, atoi (cstr port), false, backendTypeOf backendType⟩
        let next := (found3 + 1) % 2 ^ 64
        parseServers data n next (findFrom [':'] data ((found2 + 1) % 2 ^ 64)) (findFrom [','] data next) (id + 1)
          (backendServers.insert id server)

/-- `parse_backend_servers`: the number of servers, and the table. Each round takes a `:`. -/
def parseBackendServers (buf : Str) (backendServers : BackendServers) : Except Fault (Int × BackendServers) :=
  let data := cstr buf
  parseServers data (data.length + 1) 0 (findFrom [':'] data 0) (findFrom [','] data 0) 1 backendServers

/-- `char feedback[1024]` behind `recvfrom` -/
def feedback (rep : Str) : Str := rep.take 1023 ++ ['\x00']

/-- What a visit to the console does to the table. -/
def visit (m : Master) (backendServers : BackendServers) : Except Fault (Int × BackendServers) :=
  parseBackendServers (feedback m.listServers) backendServers

end AdminConsole

end PennCloud
