import PennCloud.Kv.Kvstore

/-!
# The process of a storage node

The loop of `main` of `kvstore.cc`, which accepts connections and makes a primary of a secondary that has one, beside the threads it
starts.
-/

namespace PennCloud

/-- `active_thread_manager`: the loop that looks for the descriptor stops at a zero, and at the end of the vector it goes on. -/
def activeThreadManager (commFd : Int) : List Int → Except Fault (List Int)
  | [] => .error .overrun
  | fd :: activeThreads =>
      if fd = 0 then .ok (fd :: activeThreads)
      else if fd = commFd then .ok activeThreads
      else (activeThreadManager commFd activeThreads).map (fd :: ·)

namespace Process

/-- Where `main` is in its loop: at the test of `thread_counter`, in `accept`, and then at each of the three statements that start a
thread. -/
inductive Place where
  | testing
  | accepting
  | creating (fd : Int)
  | entering (fd : Int)
  | counting
  deriving DecidableEq

/-- A thread of `worker`. -/
structure Worker where
  commFd : Int
  isQuit : Bool
  deriving DecidableEq

end Process

/-- The threads that have left their loop are among the workers until they are out of the vector; `closing` are the descriptors of those
that close them next, and `ending` is the number of those that only have the counter left to change. -/
structure Process where
  node : Chunkserver
  place : Process.Place
  workers : List Process.Worker
  activeThreads : List Int
  closing : List Int
  ending : Nat
  threadCounter : Int

namespace Process

/-- `if (thread_counter != 0 && !isPrimary) isPrimary = true` -/
def test (p : Process) : Process where
  node := { p.node with lru := { p.node.lru with isPrimary := p.node.lru.isPrimary || p.threadCounter != 0 } }
  place := .accepting
  workers := p.workers
  activeThreads := p.activeThreads
  closing := p.closing
  ending := p.ending
  threadCounter := p.threadCounter

/-- A message after which the loop of `worker` ends. The greeting of the secondary goes on before `isQuit` is set. -/
def quits (node : Chunkserver) (commFd : Int) (line : Str) : Bool :=
  line ≠ "S\r\n".toList ∧ (commFd ≠ node.secondaryFd ∨ Chunkserver.parseCommand line = .ok "quit".toList)

inductive Event where
  | tested
  | accepted (fd : Int)
  | created (fd : Int)
  | entered (fd : Int)
  | counted
  | received (fd : Int) (chunk : Str)
  | removed (fd : Int)
  | closed (fd : Int)
  | uncounted
  | executed (buffer : Str)
  | checkpointed

/-- The threads take turns, statement by statement. A descriptor that `accept` returns is not open, and what `recv` returns is not empty. -/
inductive Step : Process → Event → Process → Prop where
  | tested {p : Process} (hplace : p.place = .testing) : Step p .tested p.test
  | accepted {p : Process} {fd : Int} (hplace : p.place = .accepting) (hfd : 0 < fd)
      (hfresh : ∀ worker ∈ p.workers, worker.commFd ≠ fd) (hclosed : fd ∉ p.closing) : Step p (.accepted fd) { p with place := .creating fd }
  | created {p : Process} {fd : Int} (hplace : p.place = .creating fd) :
      Step p (.created fd) { p with place := .entering fd, workers := p.workers ++ [⟨fd, false⟩] }
  | entered {p : Process} {fd : Int} (hplace : p.place = .entering fd) :
      Step p (.entered fd) { p with place := .counting, activeThreads := p.activeThreads ++ [fd] }
  | counted {p : Process} (hplace : p.place = .counting) :
      Step p .counted { p with place := .testing, threadCounter := p.threadCounter + 1 }
  | received {p : Process} {fd : Int} {chunk : Str} {fuel : Nat} {node : Chunkserver} (hworker : ⟨fd, false⟩ ∈ p.workers)
      (hchunk : chunk ≠ []) (h : p.node.worker fuel fd chunk = .ok node) :
      Step p (.received fd chunk) { p with
        node := node
        workers := p.workers.map fun worker =>
          if worker.commFd = fd then ⟨fd, quits p.node fd (cstr chunk)⟩ else worker }
  | removed {p : Process} {fd : Int} {activeThreads : List Int} (hworker : ⟨fd, true⟩ ∈ p.workers)
      (h : activeThreadManager fd p.activeThreads = .ok activeThreads) :
      Step p (.removed fd) { p with
        workers := p.workers.filter fun worker => worker.commFd ≠ fd
        activeThreads := activeThreads
        closing := p.closing ++ [fd] }
  | closed {p : Process} {fd : Int} (hclosing : fd ∈ p.closing) :
      Step p (.closed fd) { p with closing := p.closing.erase fd, ending := p.ending + 1 }
  | uncounted {p : Process} {ending : Nat} (hending : p.ending = ending + 1) :
      Step p .uncounted { p with ending := ending, threadCounter := p.threadCounter - 1 }
  | executed {p : Process} {sockFd : Int} {buffer : Str} {fuel : Nat} {node : Chunkserver}
      (h : p.node.psWorker fuel sockFd buffer = .ok node) : Step p (.executed buffer) { p with node := node }
  | checkpointed {p : Process} {lru : LRUCache} (h : p.node.lru.checkpointing = .ok lru) :
      Step p .checkpointed { p with node := { p.node with lru := lru } }

/-- The process when it has come to its loop. -/
def start (node : Chunkserver) : Process := ⟨node, .testing, [], [], [], 0, 0⟩

end Process

end PennCloud
