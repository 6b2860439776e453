import PennCloud.Frontend.Store
import PennCloud.Frontend.Utils
import PennCloud.Master.Master

/-!
# Frontends, the master and the storage nodes

`send_to_backend` as a whole: the master names the node of a user, and the node is sent the message. A node is found under the address
it listens on.
-/

namespace PennCloud

structure Cluster where
  master : Master
  nodes : Str × Int → Option Chunkserver

namespace Cluster

/-- The address in the answer of the master, as it fits into `char feedback[50]`. `htons` takes 16 bits of the port. -/
def backendOf (feedback : Str) : Except Fault (Str × Int) := do
  let tokens := split (cstr (feedback.take 49)) ':'
  let port ← atIdx tokens 1
  let ip ← atIdx tokens 0
  .ok (ip, atoi (cstr port) % 2 ^ 16)

/-- What the master receives in `char buf[1024]`. The address that a frontend asks from is not read. -/
def question (username : Str) : Datagram := ⟨[], 0, ('?' :: username).take 1024⟩

/-- `send_to_backend`, with what the master finds when it tries the servers. A frontend that writes to a socket without a peer is
ended by the signal. -/
def sendToBackend (alive : Str → Int → Bool) (fuel : Nat) (commFd : Int) (cluster : Cluster) (message username : Str) :
    Except Fault (List Str × Cluster) := do
  let (master, feedback) ← cluster.master.receive alive (question username)
  let backend ← backendOf feedback
  match cluster.nodes backend with
  | none => .error .exited
  | some node => do
      let (rep, node) ← node.sendToBackend fuel commFd message
      .ok (rep, ⟨master, Function.update cluster.nodes backend (some node)⟩)

end Cluster

end PennCloud
