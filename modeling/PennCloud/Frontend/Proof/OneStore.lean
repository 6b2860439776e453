import PennCloud.Frontend.Cluster
import PennCloud.Frontend.Proof.Addressing
import PennCloud.Frontend.Proof.Endings
import PennCloud.Kv.Proof.Durability
import PennCloud.Kv.Proof.Failover
import PennCloud.Kv.Proof.Roles
import PennCloud.Lib.Keyed
import PennCloud.Master.Proof.Lookups

/-!
# The storage nodes are one store

As long as the master finds the primaries up and nobody registers, each user is at home on one node. The requests of all frontends,
with checkpoints and restarts of the nodes in between, are answered as one store that holds all users would answer them, and a node
holds of that store the users that are at home on it.
-/

namespace PennCloud

open LRUCache Std

/-! ### One store -/

namespace Store

variable {store store' : Store} {op : Op} {line user : Str} {capacity : Int}

theorem step_congr (h : store op.user = store' op.user) (capacity : Int) :
    store.step capacity op op.user = store'.step capacity op op.user := by
  cases op with
  | put user filename value commFd seqNum =>
      have hrow : store user = store' user := h
      unfold step
      simp only [Op.user, hrow]
      split
      · rw [Function.update_self, Function.update_self]
      · exact hrow
  | get => exact h
  | cput user filename oldValue newValue commFd seqNum =>
      have hrow : store user = store' user := h
      unfold step
      simp only [Op.user, hrow]
      split
      · rw [Function.update_self, Function.update_self]
      · exact hrow
  | dele user filename commFd seqNum isMigration =>
      have hrow : store user = store' user := h
      unfold step
      simp only [Op.user, hrow]
      rw [Function.update_self, Function.update_self]
  | rename user oldFilename newFilename commFd seqNum =>
      have hrow : store user = store' user := h
      unfold step
      simp only [Op.user, hrow]
      cases (store' user)[oldFilename]? with
      | none => exact hrow
      | some value => simp only [Function.update_self]

end Store

namespace Chunkserver

variable {s t : Chunkserver} {store : Store} {line buffer user username message : Str} {commFd capacity : Int} {fuel : Nat}

/-- The command that a line of a client asks for. -/
def commandOf (line : Str) : Option Op :=
  match requested line with
  | some request => some (request 0 0)
  | none =>
      match parseCommand line, getRequest line with
      | .ok command, .ok (some request) => if command = "get".toList then some (request 0 0) else none
      | _, _ => none

/-- The user whose files a line changes. -/
def lineOwner (line : Str) : Option Str := (requested line).map fun request => (request 0 0).user

theorem local_stepLine (capacity : Int) : Keyed.Local lineOwner (Store.stepLine capacity) where
  other store line user hne := by
    unfold Store.stepLine
    cases hrequested : requested line with
    | none => rfl
    | some request =>
        apply Store.step_of_ne
        rintro rfl
        exact hne (by rw [lineOwner, hrequested, Option.map_some])
  own store store' line user heq hsame := by
    unfold Store.stepLine
    cases hrequested : requested line with
    | none => exact hsame
    | some request =>
        rw [lineOwner, hrequested, Option.map_some] at heq
        obtain rfl := Option.some.inj heq
        exact Store.step_congr hsame capacity

end Chunkserver

/-- What a primary writes to a client that has sent the line. -/
def Store.answer (store : Store) (line : Str) : Str :=
  match Chunkserver.commandOf line with
  | some op => (store.reply true op).flatten ++ doneLine
  | none => "-ERR Not supported\r\n".toList ++ doneLine

namespace Chunkserver

/-! ### One node -/

variable {s t : Chunkserver} {store store' : Store} {line buffer user filename : Str} {commFd capacity : Int} {fuel : Nat}
  {request : Request}

theorem commandOf_of_requested (h : requested line = some request) : commandOf line = some (request 0 0) := by rw [commandOf, h]

theorem commandOf_of_asksGet (h : AsksGet line user filename) : commandOf line = some (.get user filename 0) := by
  rw [commandOf, requested_of_get h.1, h.1, h.2]
  rfl

theorem asksGet_of_commandOf {op : Op} (hnone : requested line = none) (h : commandOf line = some op) :
    parseCommand line = .ok "get".toList ∧ ∃ request, getRequest line = .ok (some request) := by
  rw [commandOf, hnone] at h
  dsimp only at h
  split at h
  · next command request hcommand hrequest =>
      split at h
      · next hget => exact ⟨hget ▸ hcommand, request, hrequest⟩
      · cases h
  · cases h

/-- A client's line is a write that is performed, a get, or not understood. -/
theorem worker_command (hhandles : Handles (cstr buffer)) (hrun : s.worker fuel commFd buffer = .ok t) :
    (∃ request t', requested (cstr buffer) = some request ∧
        s.perform fuel (cstr buffer) (request commFd 0).user true (request commFd 0) = .ok t' ∧ t = t'.sendDone commFd) ∨
      (∃ user filename lru, AsksGet (cstr buffer) user filename ∧ s.lru.exec fuel (.get user filename commFd) = .ok lru ∧
        t = ({ s with lru := lru } : Chunkserver).sendDone commFd) ∨
      commandOf (cstr buffer) = none ∧ t = (s.error commFd).sendDone commFd := by
  rcases worker_ok hhandles hrun with hwrite | ⟨hnone, hget | herror⟩
  · exact Or.inl hwrite
  · exact Or.inr (Or.inl hget)
  · cases hcommand : commandOf (cstr buffer) with
    | none => exact Or.inr (Or.inr ⟨rfl, herror⟩)
    | some op =>
        obtain ⟨hparse, request, hrequest⟩ := asksGet_of_commandOf hnone hcommand
        obtain ⟨user, filename, rfl⟩ := getRequest_eq hrequest
        rw [worker_get hparse, hrequest, Run.ok_bind] at hrun
        obtain ⟨t', hserved, hdone⟩ := Run.bind_eq_ok.mp hrun
        obtain ⟨lru, hexec, hserved⟩ := Run.bind_eq_ok.mp hserved
        obtain rfl := Except.ok.inj hserved
        obtain rfl := Except.ok.inj hdone
        exact Or.inr (Or.inl ⟨user, filename, lru, ⟨hparse, hrequest⟩, hexec, rfl⟩)

theorem reply_request (h : requested line = some request) (commFd seqNum : Int) :
    Store.reply true store (request commFd seqNum) = Store.reply true store (request 0 0) := by
  rcases requested_cases h with ⟨_, _, _, rfl⟩ | ⟨_, _, _, _, rfl⟩ | ⟨_, _, rfl⟩ | ⟨_, _, _, rfl⟩
  all_goals rfl

/-- A primary answers as the store that it holds. -/
theorem Persistent.answers (h : Persistent s store) (hrole : s.lru.isPrimary = true) (hfd : commFd ≠ s.secondaryFd)
    (hhandles : Handles (cstr buffer))
    (hdurable : ∀ request, requested (cstr buffer) = some request → Durable s.lru (cstr buffer) request)
    (hrun : s.worker fuel commFd buffer = .ok t) :
    repliesOn commFd s t = store.answer (cstr buffer) := by
  have hcontents := h.stocked.contents
  unfold Store.answer
  rcases worker_command hhandles hrun with
    ⟨request, t', hrequested, hperform, rfl⟩ | ⟨user, filename, lru, hasks, hexec, rfl⟩ | ⟨hnone, rfl⟩
  · have hop := (hdurable request hrequested).admits (notMem_cstr buffer) hrequested commFd 0
    obtain ⟨lru, others, hexec, hothers, hsecondary⟩ := sent_perform hperform
    have hobeys := h.stocked.settled.obeys_of_exec (h.stocked.hasRoom hop) hexec
    have hsent := hobeys.sent
    rw [commFd_request hrequested, hrole, hcontents, reply_request hrequested] at hsent
    rw [commandOf_of_requested hrequested]
    apply repliesOn_of_sent
    · change t'.lru.sent ++ [(commFd, doneLine)] = _
      rw [hothers, hsent, List.append_assoc s.lru.sent]
    · intro reply hmem
      rw [hsecondary reply hmem]
      exact hfd.symm
  · have hroom : s.lru.HasRoom (.get user filename commFd) := trivial
    have hobeys := h.stocked.settled.obeys_of_exec hroom hexec
    have hsent := hobeys.sent
    rw [hrole, hcontents] at hsent
    rw [commandOf_of_asksGet hasks]
    exact reply_texts hsent
  · rw [hnone]
    exact reply_error

/-! ### What a node does of its own -/

/-- What a primary does for no client: its secondary greets it or reports, it writes a checkpoint, or it is started again. -/
def Own : NodeEvent → Prop
  | .round (.client _ buffer) => Unanswered (cstr buffer)
  | .round (.primary _ _) => False
  | .round .checkpoint => True
  | .restart isPrimary _ => isPrimary = true

theorem Persistent.own {event : NodeEvent} (h : Persistent s store) (hrole : s.lru.isPrimary = true) (hown : Own event)
    (hlives : Lives s event t) : Persistent t store ∧ t.lru.isPrimary = true ∧ t.lru.capacity = s.lru.capacity := by
  obtain ⟨ht, hcapacity⟩ := h.lives hlives
  cases event with
  | round round =>
      cases round with
      | client commFd buffer =>
          have hunanswered : Unanswered (cstr buffer) := hown
          change Persistent t (store.stepLine s.lru.capacity (cstr buffer)) at ht
          rw [stepLine_of_none (requested_of_unanswered hunanswered)] at ht
          obtain ⟨_, fuel, hrun⟩ := hlives
          exact ⟨ht, (role_worker hrun).trans hrole, hcapacity⟩
      | primary sockFd buffer => exact hown.elim
      | checkpoint =>
          obtain ⟨_, lru, hcheck, rfl⟩ := hlives
          exact ⟨ht, (role_checkpointing hcheck).trans hrole, hcapacity⟩
  | restart isPrimary secondaryFd =>
      obtain ⟨fuel, hrun⟩ := hlives
      exact ⟨ht, (role_initialization hrun).trans hown, hcapacity⟩

end Chunkserver

namespace Cluster

open Chunkserver Master

variable {c c' : Cluster} {m m' : Master} {servers : Servers} {alive : Str → Int → Bool} {store store' : Store} {fuel : Nat}
  {commFd capacity : Int} {content message username : Str} {rep : List Str} {backend : Str × Int} {node : Chunkserver}

/-! ### The master -/

/-- The name that the master looks up. -/
def lookedUp (username : Str) : Str := cstr (username.take 1023)

theorem cstr_question (username : Str) : cstr (question username).buf = '?' :: lookedUp username := by
  unfold question lookedUp cstr
  rw [List.take_succ_cons, List.takeWhile_cons_of_pos (by decide)]

/-- Where the files of a user are. -/
def homeOf (servers : Servers) (username : Str) : Option (Str × Int) :=
  (backendOf (servers.getD (getServerId servers (hashStr (lookedUp username))) Pair.blank).primary.address).toOption

/-- The master finds every primary up. -/
def AllUp (alive : Str → Int → Bool) (servers : Servers) : Prop :=
  ∀ (id : Int) (pair : Pair), servers[id]? = some pair → alive pair.primary.ip pair.primary.port = true

theorem lookUp_of_allUp (hne : m.servers ≠ ∅) (hup : AllUp alive m.servers) (content : Str) :
    (m.lookUp alive content).1.servers = m.servers ∧
      (m.lookUp alive content).2 = (m.servers.getD (getServerId m.servers (hashStr content)) Pair.blank).primary.address := by
  have hmem := getServerId_mem hne (hashStr content)
  have hkept : failOver alive (m.servers.getD (getServerId m.servers (hashStr content)) Pair.blank) =
      m.servers.getD (getServerId m.servers (hashStr content)) Pair.blank :=
    if_pos (hup _ _ (ExtTreeMap.getElem?_eq_some_getD hmem))
  unfold Master.lookUp getBackendInfo
  dsimp only
  rw [hkept]
  exact ⟨insert_getD_self hmem, rfl⟩

/-- No message but a registration changes the servers. -/
theorem receive_servers {datagram : Datagram} {feedback : Str} (hne : m.servers ≠ ∅) (hup : AllUp alive m.servers)
    (hnew : (cstr datagram.buf).head? ≠ some '!') (hrun : m.receive alive datagram = .ok (m', feedback)) :
    m'.servers = m.servers := by
  obtain ⟨content, _, rfl⟩ | ⟨content, hmessage, _⟩ | ⟨_, _, hservers, _⟩ := @receive_cases m m' ⟨alive, datagram⟩ ⟨feedback, hrun⟩
  · exact (lookUp_of_allUp hne hup content).1
  · have hmessage' : cstr datagram.buf = '!' :: content := hmessage
    rw [hmessage'] at hnew
    exact absurd rfl hnew
  · exact hservers

/-- A request goes to the node where the user is at home, and to no other. -/
theorem sendToBackend_ok (hne : c.master.servers ≠ ∅) (hup : AllUp alive c.master.servers)
    (hrun : c.sendToBackend alive fuel commFd message username = .ok (rep, c')) :
    ∃ backend node t, homeOf c.master.servers username = some backend ∧ c.nodes backend = some node ∧
      node.sendToBackend fuel commFd message = .ok (rep, t) ∧ c'.master.servers = c.master.servers ∧
        c'.nodes = Function.update c.nodes backend (some t) := by
  obtain ⟨⟨m', feedback⟩, hreceive, hrun⟩ := Run.bind_eq_ok.mp hrun
  obtain ⟨backend, hbackend, hrun⟩ := Run.bind_eq_ok.mp hrun
  have hlookUp : c.master.receive alive (question username) = .ok (c.master.lookUp alive (lookedUp username)) := by
    rw [receive, cstr_question]
    rfl
  obtain ⟨hservers, hfeedback⟩ := lookUp_of_allUp hne hup (lookedUp username)
  rw [hlookUp] at hreceive
  have hpair := Except.ok.inj hreceive
  rw [hpair] at hservers hfeedback
  dsimp only at hservers hfeedback hbackend hrun
  have hhome : homeOf c.master.servers username = some backend := by
    rw [homeOf, ← hfeedback, hbackend]
    rfl
  cases hnode : c.nodes backend with
  | none =>
      rw [hnode] at hrun
      cases hrun
  | some node =>
      rw [hnode] at hrun
      obtain ⟨⟨rep', t⟩, hsend, hrun⟩ := Run.bind_eq_ok.mp hrun
      obtain ⟨rfl, rfl⟩ := Prod.mk.inj (Except.ok.inj hrun)
      exact ⟨backend, node, t, hhome, hnode, hsend, hservers, rfl⟩

/-! ### Runs of the cluster -/

inductive Event where
  | sent (message username : Str) (rep : List Str)
  | own (backend : Str × Int) (event : NodeEvent)
  | told (datagram : Datagram)

/-- The message of a frontend and the lines of the reply. -/
def Event.exchange : Event → Option (Str × List Str)
  | .sent message _ rep => some (message, rep)
  | .own _ _ => none
  | .told _ => none

def nodeOf (c : Cluster) (username : Str) : Option Chunkserver := (homeOf c.master.servers username).bind c.nodes

/-- A message reads or writes a file of the user it is sent for, over a connection of its own. A write is found again in the log of the
node, and finds room there. -/
structure Accepts (c : Cluster) (commFd : Int) (message username : Str) : Prop where
  handles : Handles (cstr message)
  about : ∀ op, commandOf (cstr message) = some op → op.user = username
  fresh : ∀ node, c.nodeOf username = some node → commFd ≠ node.secondaryFd
  durable : ∀ node, c.nodeOf username = some node → ∀ request, requested (cstr message) = some request →
    Durable node.lru (cstr message) request

/-- A frontend asks, a node does something of its own, or the master is told something else. Nobody registers, and whenever the master
looks, the primaries are up. -/
inductive Step (c : Cluster) : Event → Cluster → Prop where
  | sent {alive : Str → Int → Bool} {fuel : Nat} {commFd : Int} {message username : Str} {rep : List Str} {c' : Cluster}
      (hup : AllUp alive c.master.servers) (haccepts : c.Accepts commFd message username)
      (h : c.sendToBackend alive fuel commFd message username = .ok (rep, c')) : Step c (.sent message username rep) c'
  | own {backend : Str × Int} {event : NodeEvent} {node node' : Chunkserver} (hnode : c.nodes backend = some node)
      (hown : Own event) (h : Lives node event node') :
      Step c (.own backend event) { c with nodes := Function.update c.nodes backend (some node') }
  | told {alive : Str → Int → Bool} {datagram : Datagram} {feedback : Str} {m' : Master} (hup : AllUp alive c.master.servers)
      (hnew : (cstr datagram.buf).head? ≠ some '!') (h : c.master.receive alive datagram = .ok (m', feedback)) :
      Step c (.told datagram) { c with master := m' }

/-- The servers are registered, and the nodes are started as primaries with `-n`. -/
structure Started (capacity : Int) (c : Cluster) : Prop where
  registered : c.master.servers ≠ ∅
  fresh : ∀ backend node, c.nodes backend = some node → ∃ fuel secondaryFd disk, disk.log = none ∧
    (boot capacity true secondaryFd disk).initialization fuel true = .ok node

/-- One store answers a message. -/
def Exchange (capacity : Int) (store : Store) (exchange : Str × List Str) (store' : Store) : Prop :=
  (∃ fuel, readRep fuel exchange.1 (store.answer (cstr exchange.1)) = .ok exchange.2) ∧
    store' = store.stepLine capacity (cstr exchange.1)

/-- Each node holds of the store the users that are at home on it. -/
structure Shards (servers : Servers) (capacity : Int) (store : Store) (c : Cluster) : Prop where
  directory : c.master.servers = servers
  node : ∀ backend node, c.nodes backend = some node →
    Persistent node (Keyed.part (homeOf servers) ∅ store (some backend)) ∧ node.lru.isPrimary = true ∧ node.lru.capacity = capacity

theorem answer_part (hhome : homeOf servers username = some backend) (habout : ∀ op, commandOf message = some op → op.user = username) :
    Store.answer (Keyed.part (homeOf servers) ∅ store (some backend)) message = store.answer message := by
  unfold Store.answer
  cases hcommand : commandOf message with
  | none => rfl
  | some op =>
      have hrow : Keyed.part (homeOf servers) ∅ store (some backend) op.user = store op.user := by
        rw [habout op hcommand]
        exact if_pos hhome
      dsimp only
      rw [op.within_user.read true _ _ hrow]

/-- What the home of a user makes of a line is what the store makes of it, and the other nodes have no part in it. -/
theorem part_stepLine (hhome : homeOf servers username = some backend) (habout : ∀ op, commandOf message = some op → op.user = username)
    (backend' : Str × Int) :
    Keyed.part (homeOf servers) ∅ (store.stepLine capacity message) (some backend') =
      if backend' = backend then Store.stepLine capacity (Keyed.part (homeOf servers) ∅ store (some backend)) message
      else Keyed.part (homeOf servers) ∅ store (some backend') := by
  cases hrequested : requested message with
  | none =>
      rw [stepLine_of_none hrequested, stepLine_of_none hrequested]
      split
      · next heq => rw [heq]
      · rfl
  | some request =>
      have howner : lineOwner message = some username := by
        rw [lineOwner, hrequested, Option.map_some, habout _ (commandOf_of_requested hrequested)]
      split
      · next heq =>
          rw [heq, ← hhome]
          exact ((local_stepLine capacity).step_part howner).symm
      · next hne =>
          apply (local_stepLine capacity).part_step_of_ne howner
          rw [hhome]
          exact fun heq => hne (Option.some.inj heq).symm

theorem Shards.sent (h : Shards servers capacity store c) (hne : servers ≠ ∅) (hup : AllUp alive c.master.servers)
    (haccepts : c.Accepts commFd message username)
    (hrun : c.sendToBackend alive fuel commFd message username = .ok (rep, c')) :
    Exchange capacity store (message, rep) (store.stepLine capacity (cstr message)) ∧
      Shards servers capacity (store.stepLine capacity (cstr message)) c' := by
  obtain ⟨backend, node, t, hhome, hnode, hsend, hservers, hnodes⟩ := sendToBackend_ok (h.directory ▸ hne) hup hrun
  have hnodeOf : c.nodeOf username = some node := by rw [nodeOf, hhome, Option.bind_some, hnode]
  have hcstr : cstr (cstr message) = cstr message := cstr_of_notMem (notMem_cstr message)
  rw [h.directory] at hhome
  obtain ⟨hpersistent, hrole, hcapacity⟩ := h.node backend node hnode
  obtain ⟨t', hworker, hserved⟩ := Run.bind_eq_ok.mp hsend
  obtain ⟨rep', hread, heq⟩ := Run.bind_eq_ok.mp hserved
  obtain ⟨rfl, rfl⟩ := Prod.mk.inj (Except.ok.inj heq)
  have hhandles : Handles (cstr (cstr message)) := hcstr.symm ▸ haccepts.handles
  have hdurable : ∀ request, requested (cstr (cstr message)) = some request → Durable node.lru (cstr (cstr message)) request := by
    rw [hcstr]
    exact haccepts.durable node hnodeOf
  have hreplies := hpersistent.answers hrole (haccepts.fresh node hnodeOf) hhandles hdurable hworker
  obtain ⟨hpersistent', hcapacity'⟩ := hpersistent.worker hhandles hdurable hworker
  rw [hcstr] at hreplies hpersistent'
  rw [hcapacity] at hpersistent' hcapacity'
  refine ⟨⟨⟨fuel, ?_⟩, rfl⟩, hservers.trans h.directory, fun backend' node' hnode' => ?_⟩
  · rw [← answer_part hhome haccepts.about, ← hreplies]
    exact hread
  · rw [part_stepLine hhome haccepts.about]
    rw [hnodes] at hnode'
    by_cases heq : backend' = backend
    · subst heq
      rw [Function.update_self] at hnode'
      obtain rfl := Option.some.inj hnode'
      rw [if_pos rfl]
      exact ⟨hpersistent', (role_worker hworker).trans hrole, hcapacity'⟩
    · rw [Function.update_of_ne heq] at hnode'
      rw [if_neg heq]
      exact h.node backend' node' hnode'

theorem Shards.own {event : NodeEvent} {node' : Chunkserver} (h : Shards servers capacity store c)
    (hnode : c.nodes backend = some node) (hown : Own event) (hlives : Lives node event node') :
    Shards servers capacity store { c with nodes := Function.update c.nodes backend (some node') } := by
  obtain ⟨hpersistent, hrole, hcapacity⟩ := h.node backend node hnode
  obtain ⟨hpersistent', hrole', hcapacity'⟩ := hpersistent.own hrole hown hlives
  refine ⟨h.directory, fun backend' node'' hnode' => ?_⟩
  change Function.update c.nodes backend (some node') backend' = some node'' at hnode'
  by_cases heq : backend' = backend
  · subst heq
    rw [Function.update_self] at hnode'
    obtain rfl := Option.some.inj hnode'
    exact ⟨hpersistent', hrole', hcapacity'.trans hcapacity⟩
  · rw [Function.update_of_ne heq] at hnode'
    exact h.node backend' node'' hnode'

theorem shards_start (hnonneg : 0 ≤ capacity) (hsmall : capacity ≤ intMax) (hstarted : c.Started capacity) :
    Shards c.master.servers capacity Store.empty c := by
  refine ⟨rfl, fun backend node hnode => ?_⟩
  obtain ⟨fuel, secondaryFd, disk, hlog, hstart⟩ := hstarted.fresh backend node hnode
  have hempty : Keyed.part (homeOf c.master.servers) ∅ Store.empty (some backend) = Store.empty := by
    funext user
    exact ite_self _
  obtain ⟨hpersistent, hcapacity⟩ := persistent_start hnonneg hsmall hlog hstart
  rw [hempty]
  refine ⟨hpersistent, ?_, hcapacity⟩
  obtain rfl := Except.ok.inj hstart
  simp only [initializeChunkInfo, clearDir_eq]
  rfl

/-- **The cluster is one store.** Whatever the frontends ask, in whatever order, with checkpoints and restarts in between, they are
answered as one store would answer them that all of them ask; and every node holds of that store the files of the users that are at home
on it, and nothing else. -/
theorem one_store_of_runs {c₀ : Cluster} {events : List Event} (hnonneg : 0 ≤ capacity) (hsmall : capacity ≤ intMax)
    (hstarted : c₀.Started capacity) (hrun : Run.Runs Step c₀ events c) :
    ∃ store, Run.Runs (Exchange capacity) Store.empty (events.filterMap Event.exchange) store ∧
      ∀ backend node, c.nodes backend = some node → ∀ user,
        node.lru.filesOf user = if homeOf c₀.master.servers user = some backend then store user else ∅ := by
  obtain ⟨store, hstore, hshards⟩ : ∃ store, Run.Runs (Exchange capacity) Store.empty (events.filterMap Event.exchange) store ∧
      Shards c₀.master.servers capacity store c := by
    refine hrun.invariant (P := fun events c => ∃ store,
      Run.Runs (Exchange capacity) Store.empty (events.filterMap Event.exchange) store ∧ Shards c₀.master.servers capacity store c)
      ⟨Store.empty, .nil, shards_start hnonneg hsmall hstarted⟩ ?_
    rintro events c event c' ⟨store, hstore, hshards⟩ hstep
    rw [List.filterMap_append]
    cases hstep with
    | sent hup haccepts hsend =>
        obtain ⟨hexchange, hshards'⟩ := hshards.sent hstarted.registered hup haccepts hsend
        exact ⟨_, .snoc hstore hexchange, hshards'⟩
    | own hnode hown hlives =>
        refine ⟨store, ?_, hshards.own hnode hown hlives⟩
        exact (List.append_nil _).symm ▸ hstore
    | told hup hnew hreceive =>
        refine ⟨store, ?_, ?_, hshards.node⟩
        · exact (List.append_nil _).symm ▸ hstore
        · rw [← hshards.directory]
          exact receive_servers (hshards.directory ▸ hstarted.registered) hup hnew hreceive
  refine ⟨store, hstore, fun backend node hnode user => ?_⟩
  rw [(hshards.node backend node hnode).1.stocked.contents]
  rfl

/-! ### A cluster that can be run -/

instance : (event : NodeEvent) → Decidable (Own event)
  | .round (.client _ buffer) => inferInstanceAs (Decidable (Unanswered (cstr buffer)))
  | .round (.primary _ _) => inferInstanceAs (Decidable False)
  | .round .checkpoint => inferInstanceAs (Decidable True)
  | .restart isPrimary _ => inferInstanceAs (Decidable (isPrimary = true))

/-- One step, if it is one of those above. -/
def proceed (c : Cluster) : Event → Except Fault Cluster
  | .sent message username rep => do
      let node ← (c.nodeOf username).elim (.error .exited) .ok
      let (rep', c') ← c.sendToBackend (fun _ _ => true) 4 7 message username
      if Handles (cstr message) ∧ (∀ op ∈ commandOf (cstr message), op.user = username) ∧ 7 ≠ node.secondaryFd ∧
          (∀ request ∈ requested (cstr message), Durable node.lru (cstr message) request) ∧ rep' = rep then .ok c'
      else .error .exited
  | .own backend event => do
      let node ← (c.nodes backend).elim (.error .exited) .ok
      let node' ← node.live event
      if Own event then .ok { c with nodes := Function.update c.nodes backend (some node') } else .error .exited
  | .told datagram => do
      let (m', _) ← c.master.receive (fun _ _ => true) datagram
      if (cstr datagram.buf).head? ≠ some '!' then .ok { c with master := m' } else .error .exited

def twoNodes (s : Chunkserver) : Cluster where
  master := ⟨((∅ : Servers).insert 100 ⟨.sender 100 "10.0.0.1".toList 5000, Server.blank⟩).insert 50000
    ⟨.sender 50000 "10.0.0.2".toList 5000, Server.blank⟩, ∅, ∅⟩
  nodes backend := if backend = ("10.0.0.1".toList, 5000) ∨ backend = ("10.0.0.2".toList, 5000) then some s else none

theorem started_twoNodes {s : Chunkserver} (hstart : (boot 100 true 5 Disk.empty).initialization 1 true = .ok s) :
    (twoNodes s).Started 100 := by
  refine ⟨insert_ne_empty _ _ _, fun backend node hnode => ?_⟩
  unfold twoNodes at hnode
  dsimp only at hnode
  split at hnode
  · obtain rfl := Option.some.inj hnode
    exact ⟨1, 5, Disk.empty, rfl, hstart⟩
  · cases hnode

theorem step_of_proceed {event : Event} (hrun : c.proceed event = .ok c') : Step c event c' := by
  have hup : AllUp (fun _ _ => true) c.master.servers := fun _ _ _ => rfl
  cases event with
  | sent message username rep =>
      obtain ⟨node, hnode, hserved⟩ := Run.bind_eq_ok.mp hrun
      obtain ⟨⟨rep', c''⟩, hsend, hend⟩ := Run.bind_eq_ok.mp hserved
      have hnodeOf : c.nodeOf username = some node := by
        cases hfound : c.nodeOf username with
        | none =>
            rw [hfound] at hnode
            cases hnode
        | some found =>
            rw [hfound] at hnode
            exact congrArg some (Except.ok.inj hnode)
      dsimp only at hend
      split at hend
      · next haccepts =>
          obtain ⟨hhandles, habout, hfresh, hdurable, rfl⟩ := haccepts
          obtain rfl := Except.ok.inj hend
          refine .sent hup ⟨hhandles, habout, fun node' hnode' => ?_, fun node' hnode' => ?_⟩ hsend
          · obtain rfl := Option.some.inj (hnodeOf.symm.trans hnode')
            exact hfresh
          · obtain rfl := Option.some.inj (hnodeOf.symm.trans hnode')
            exact hdurable
      · cases hend
  | own backend event =>
      obtain ⟨node, hnode, hrun⟩ := Run.bind_eq_ok.mp hrun
      obtain ⟨node', hlive, hrun⟩ := Run.bind_eq_ok.mp hrun
      split at hrun
      · next hown =>
          obtain rfl := Except.ok.inj hrun
          cases hfound : c.nodes backend with
          | none =>
              rw [hfound] at hnode
              cases hnode
          | some found =>
              rw [hfound] at hnode
              obtain rfl := Except.ok.inj hnode
              exact .own hfound hown (lives_of_live hlive)
      · cases hrun
  | told datagram =>
      obtain ⟨⟨m', feedback⟩, hreceive, hrun⟩ := Run.bind_eq_ok.mp hrun
      dsimp only at hrun
      split at hrun
      · next hnew =>
          obtain rfl := Except.ok.inj hrun
          exact .told hup hnew hreceive
      · cases hrun

/-- Two users on two nodes, of which one is started again. -/
theorem one_store_of_runs_two_nodes :
    let events : List Event := [.sent "put u,f,a\r\n".toList "u".toList ["+OK Value stored".toList],
      .sent "put v,g,b\r\n".toList "v".toList ["+OK Value stored".toList],
      .own ("10.0.0.2".toList, 5000) (.round .checkpoint), .told ⟨"10.0.0.3".toList, 4000, "A".toList⟩,
      .sent "cput u,f,a,c\r\n".toList "u".toList ["+OK New value stored".toList],
      .own ("10.0.0.2".toList, 5000) (.restart true 9),
      .sent "get u,f\r\n".toList "u".toList ["+OK value as follows: ".toList, "c".toList]]
    ∃ s c store, (twoNodes s).Started 100 ∧ Run.Runs Step (twoNodes s) events c ∧
      Run.Runs (Exchange 100) Store.empty (events.filterMap Event.exchange) store ∧
        ∀ backend node, c.nodes backend = some node → ∀ user,
          node.lru.filesOf user = if homeOf (twoNodes s).master.servers user = some backend then store user else ∅ := by
  intro events
  cases hstart : (boot 100 true 5 Disk.empty).initialization 1 true with
  | error fault => cases hstart
  | ok s =>
      have hends : ((boot 100 true 5 Disk.empty).initialization 1 true >>= fun s => events.foldlM proceed (twoNodes s)).isOk = true := by
        decide +kernel
      rw [hstart, Run.ok_bind] at hends
      cases hrun : events.foldlM proceed (twoNodes s) with
      | error fault => exact absurd hends (by rw [hrun]; exact Bool.false_ne_true)
      | ok c =>
          have hruns : Run.Runs Step (twoNodes s) events c := .of_foldlM (fun _ _ _ _ => step_of_proceed) hrun
          have hstarted := started_twoNodes hstart
          obtain ⟨store, hstore, hfiles⟩ := one_store_of_runs (by decide) (by decide) hstarted hruns
          exact ⟨s, c, store, hstarted, hruns, hstore, hfiles⟩

end Cluster

end PennCloud
