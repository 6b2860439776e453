import PennCloud.Kv.Proof.Arguments
import PennCloud.Kv.Proof.Replay
import PennCloud.Kv.Proof.Rounds
import PennCloud.Kv.Proof.Segments
import PennCloud.Kv.Proof.Stocked

/-!
# The life of a node

A node serves messages, writes checkpoints and is started again, in any order. On its disk there is always a checkpoint, or none
yet, and a log whose replay leads from what the checkpoint says to what the node holds. So the node holds what all the lines it was
ever sent make of the empty store, and whenever it is started again it comes back with that.
-/

namespace PennCloud

open LRUCache Std

theorem Store.step_eq_apply {lru : LRUCache} {store : Store} {op : Op} (h : Stocked lru store) (hop : lru.Admits op) :
    store.step lru.capacity op = store.apply op := by
  have hmemory := h.tallied.memory
  have htotal (user : Str) : total (store user) ≤ lru.residentTotal := by
    rw [← h.contents]
    exact h.settled.total_le user
  cases op with
  | put user filename value commFd seqNum =>
      obtain ⟨_, _, _, hroom⟩ := hop
      have huser := htotal user
      rw [step, if_pos (by omega), apply]
  | get => rfl
  | cput user filename oldValue newValue commFd seqNum =>
      obtain ⟨_, _, hroom⟩ := hop
      have huser := htotal user
      rw [step, apply]
      refine if_congr (and_iff_left ?_) rfl rfl
      omega
  | dele => rfl
  | rename => exact hop.elim

namespace Chunkserver

variable {s s' t : Chunkserver} {store : Store} {line rest command buffer user : Str} {commFd seqNum capacity secondaryFd : Int}
  {fuel : Nat} {request : Request} {isPrimary : Bool} {disk : Disk}

/-! ### What a line brings -/

theorem putRequest_notMem {filename value : Str} (h : putRequest line = .ok (some (Op.put user filename value))) : ',' ∉ filename := by
  obtain ⟨arguments, _, h⟩ := Run.bind_eq_ok.mp h
  have hfield := notMem_takeFields 2 arguments
  split at h
  · next user' filename' value' hfields =>
      have heq : Op.put user' filename' value' = Op.put user filename value := Option.some.inj (Except.ok.inj h)
      have hname : filename' = filename := by
        have hop := congrFun (congrFun heq 0) 0
        simp only [Op.put.injEq] at hop
        exact hop.2.1
      have hparsed : takeFields 2 arguments = [user', filename', value'] := hfields
      rw [hparsed] at hfield
      exact hname ▸ hfield 1 (by simp) (by decide)
  · cases h

/-- A line whose effect outlives the process: if it is a write, it is found again in the log, and it is admitted. -/
structure Durable (lru : LRUCache) (line : Str) (request : Request) : Prop where
  replayable : Replayable line
  commaFree : CommaFree (request 0 0)
  named : Unseparated (request 0 0).user
  room : lru.memoryUsed + (request 0 0).volume < lru.capacity

theorem Durable.admits {lru : LRUCache} (h : Durable lru line request) (hline : '\x00' ∉ line) (hrequested : requested line = some request)
    (commFd seqNum : Int) : lru.Admits (request commFd seqNum) := by
  obtain ⟨text, htext, _, hcommand⟩ := h.replayable
  rw [cstr_of_notMem hline] at htext
  have hnul : '\x00' ∉ text := fun hmem => hline (htext ▸ List.mem_append_left _ hmem)
  obtain ⟨hparse, _⟩ := replayLine_eq 0 hnul hcommand
  obtain ⟨command, hparse', hwrite⟩ := requested_eq_some hrequested
  rw [htext, hparse] at hparse'
  obtain rfl := Except.ok.inj hparse'
  have hfree := h.commaFree
  have hnamed := h.named
  have hroom := h.room
  rcases hcommand with hcommand | hcommand | hcommand
  · rw [hcommand] at hwrite
    have hput : putRequest line = .ok (some request) := Option.some.inj hwrite
    obtain ⟨user, filename, value, rfl⟩ := putRequest_eq hput
    exact ⟨hnamed, putRequest_notMem hput, hfree, hroom⟩
  · rw [hcommand] at hwrite
    obtain ⟨user, filename, oldValue, newValue, rfl⟩ := cputRequest_eq (Option.some.inj hwrite)
    exact ⟨hnamed, hfree, hroom⟩
  · rw [hcommand] at hwrite
    obtain ⟨user, filename, rfl⟩ := deleRequest_eq (Option.some.inj hwrite)
    exact ⟨hnamed, (Int.add_zero _).symm.trans_lt hroom⟩

/-! ### The disk -/

/-- What the disk says: some store that a new process loads, and a log whose replay makes of it the store described. -/
def Secured (capacity : Int) (d : Disk) (store : Store) : Prop :=
  ∃ (base : Store) (lines : List Str), LoadsBack capacity d base ∧ (∀ line ∈ lines, '\n' ∉ line) ∧
    d.log.getD [] = Fields.terminate '\n' lines ∧
    ∀ (fuel : Nat) (t : Chunkserver), Stocked t.lru base → t.lru.capacity = capacity →
      ∃ t', lines.foldlM (replayLine (fuel + 1)) t = .ok t' ∧ Stocked t'.lru store ∧ t'.lru.disk = t.lru.disk ∧
        t'.lru.capacity = capacity

theorem Secured.of_saved (h : LoadsBack capacity disk store) (hlog : disk.log = none) : Secured capacity disk store := by
  refine ⟨store, [], h, fun line hmem => absurd hmem List.not_mem_nil, by rw [hlog]; rfl, fun fuel t ht hcapacity => ?_⟩
  exact ⟨t, rfl, ht, rfl, hcapacity⟩

/-- One more line in the log. -/
theorem Secured.append (h : Secured capacity disk store) (hline : '\n' ∉ line) {store' : Store}
    (hreplay : ∀ (fuel : Nat) (t : Chunkserver), Stocked t.lru store → t.lru.capacity = capacity →
      ∃ t', t.replayLine (fuel + 1) line = .ok t' ∧ Stocked t'.lru store' ∧ t'.lru.disk = t.lru.disk ∧ t'.lru.capacity = capacity) :
    Secured capacity (disk.apply (.appendLog (line ++ ['\n']))) store' := by
  obtain ⟨base, lines, hloads, hlines, hlog, hrun⟩ := h
  refine ⟨base, lines ++ [line], hloads, fun l hl => ?_, ?_, fun fuel t ht hcapacity => ?_⟩
  · rcases List.mem_append.mp hl with hl | hl
    · exact hlines l hl
    · exact List.mem_singleton.mp hl ▸ hline
  · change (some (disk.log.getD [] ++ (line ++ ['\n']))).getD [] = _
    rw [Option.getD_some, hlog, Fields.terminate_append, Fields.terminate_cons, Fields.terminate_nil]
  · obtain ⟨t₁, hrun₁, ht₁, hdisk₁, hcapacity₁⟩ := hrun fuel t ht hcapacity
    obtain ⟨t₂, hrun₂, ht₂, hdisk₂, hcapacity₂⟩ := hreplay fuel t₁ ht₁ hcapacity₁
    refine ⟨t₂, ?_, ht₂, hdisk₂.trans hdisk₁, hcapacity₂⟩
    rw [List.foldlM_append, hrun₁, Run.ok_bind, List.foldlM_cons, hrun₂]
    rfl

/-- A node that starts on the disk of another holds what that disk says. -/
theorem Secured.initialization (h : Secured capacity disk store) (isPrimary : Bool) (secondaryFd : Int) (fuel : Nat) :
    ∃ t, (boot capacity isPrimary secondaryFd disk).initialization (fuel + 1) false = .ok t ∧ Stocked t.lru store ∧
      t.lru.disk = disk ∧ t.lru.capacity = capacity := by
  obtain ⟨base, lines, hloads, hlines, hlog, hrun⟩ := h
  obtain ⟨lru, hload, hstocked, hdisk, hcapacity⟩ := hloads disk.log isPrimary fuel
  obtain ⟨t, hreplay, ht, hdisk', hcapacity'⟩ :=
    hrun fuel { boot capacity isPrimary secondaryFd disk with lru := lru } hstocked hcapacity
  refine ⟨t, ?_, ht, hdisk'.trans hdisk, hcapacity'⟩
  have hbooted : (boot capacity isPrimary secondaryFd disk).lru.loadCheckpointing (fuel + 1) = .ok lru := hload
  have hlogged : lru.disk.log.getD [] = Fields.terminate '\n' lines := by
    rw [hdisk]
    exact hlog
  rw [Chunkserver.initialization, if_neg Bool.false_ne_true, hbooted, Run.ok_bind, replayLog, hlogged, logLines_terminate hlines, hreplay]

/-- Replaying a line does to the store what the line asks for. -/
theorem replayLine_durable {text : Str} (hnul : '\x00' ∉ text) (hcommand : replayCommand text = "put".toList ∨
      replayCommand text = "cput".toList ∨ replayCommand text = "dele".toList)
    (hrequested : requested (text ++ ['\n']) = some request) (ht : Stocked t.lru store)
    (hop : t.lru.Admits (request (-1) 0)) (fuel : Nat) :
    ∃ t', t.replayLine (fuel + 1) text = .ok t' ∧ Stocked t'.lru (store.apply (request (-1) 0)) ∧ t'.lru.disk = t.lru.disk ∧
      t'.lru.capacity = t.lru.capacity := by
  obtain ⟨hparse, parsed, hparsed, hreplay⟩ := replayLine_eq (fuel + 1) hnul hcommand
  obtain ⟨command, hparse', hwrite⟩ := requested_eq_some hrequested
  rw [hparse] at hparse'
  obtain rfl := Except.ok.inj hparse'
  obtain rfl := Option.some.inj (hparsed.symm.trans hwrite)
  obtain ⟨lru, hexec, hstocked, hdisk, hcapacity⟩ := ht.exists_exec hop fuel
  refine ⟨{ t with lru := lru }, ?_, hstocked, hdisk, hcapacity⟩
  rw [hreplay, Run.ok_bind]
  change (t.lru.exec (fuel + 1) (request (-1) 0) >>= _) = _
  rw [hexec]
  rfl

/-! ### A node that persists -/

/-- A node that holds a store, on a disk that brings the store back. -/
structure Persistent (s : Chunkserver) (store : Store) : Prop where
  stocked : Stocked s.lru store
  secured : Secured s.lru.capacity s.lru.disk store

theorem Persistent.send (h : Persistent s store) (commFd : Int) (msg : Str) : Persistent (s.send commFd msg) store :=
  ⟨h.stocked.send commFd msg, h.secured⟩

theorem Persistent.sendDone (h : Persistent s store) (commFd : Int) : Persistent (s.sendDone commFd) store := h.send _ _

theorem stepLine_of_none (hnone : requested line = none) : store.stepLine capacity line = store := by rw [Store.stepLine, hnone]

/-- A write that is performed is in the log, and the log says what it did. -/
theorem Persistent.perform (h : Persistent s store) (hline : '\x00' ∉ line) (hrequested : requested line = some request)
    (hdurable : Durable s.lru line request)
    (hrun : s.perform fuel line user true (request commFd seqNum) = .ok s') :
    Persistent s' (store.stepLine s.lru.capacity line) ∧ s'.lru.capacity = s.lru.capacity := by
  have hop := hdurable.admits hline hrequested
  obtain ⟨lru, hexec, hprimary, hsecondary⟩ := perform_ok hrun
  obtain ⟨hstocked, hdisk, hcapacity⟩ := h.stocked.exec (hop commFd seqNum) hexec
  obtain ⟨text, htext, hnewline, hcommand⟩ := hdurable.replayable
  rw [cstr_of_notMem hline] at htext
  have hstep (fd n : Int) : store.apply (request fd n) = store.stepLine s.lru.capacity line := by
    rw [← Store.step_eq_apply h.stocked (hop fd n), step_request hrequested]
  have hnul : '\x00' ∉ text := fun hmem => hline (htext ▸ List.mem_append_left _ hmem)
  have hsecured : Secured s.lru.capacity (lru.act (.appendLog line)).disk (store.stepLine s.lru.capacity line) := by
    have hlogged : (lru.act (.appendLog line)).disk = s.lru.disk.apply (.appendLog (text ++ ['\n'])) := by
      rw [← htext, ← hdisk]
      rfl
    rw [hlogged]
    refine h.secured.append hnewline fun fuel t ht htcapacity => ?_
    have hmemory := h.stocked.memoryUsed_eq ht
    obtain ⟨t', hreplay, ht', htdisk, htcapacity'⟩ :=
      replayLine_durable hnul hcommand (htext ▸ hrequested) ht ((hop (-1) 0).of_eq hmemory htcapacity) fuel
    exact ⟨t', hreplay, hstep (-1) 0 ▸ ht', htdisk, htcapacity'.trans htcapacity⟩
  have hlogged : Persistent { s with lru := lru.act (.appendLog line) } (store.stepLine s.lru.capacity line) :=
    ⟨(hstep commFd seqNum ▸ hstocked).appendLog line, hcapacity.symm ▸ hsecured⟩
  cases hrole : s.lru.isPrimary with
  | true =>
      obtain ⟨_, hlru, _⟩ := sendToSecondary_ok (hprimary hrole)
      constructor
      · refine ⟨?_, ?_⟩
        · rw [hlru]
          exact hlogged.stocked.send _ _
        · rw [hlru]
          exact hlogged.secured
      · rw [hlru]
        exact hcapacity
  | false =>
      rw [hsecondary hrole]
      exact ⟨hlogged, hcapacity⟩

/-- A client is served, or told that its line cannot be read. -/
theorem Persistent.worker (h : Persistent s store) (hhandles : Handles (cstr buffer))
    (hdurable : ∀ request, requested (cstr buffer) = some request → Durable s.lru (cstr buffer) request)
    (hrun : s.worker fuel commFd buffer = .ok s') :
    Persistent s' (store.stepLine s.lru.capacity (cstr buffer)) ∧ s'.lru.capacity = s.lru.capacity := by
  rcases worker_ok hhandles hrun with ⟨request, t, hrequested, hperform, rfl⟩ | ⟨hnone, ⟨user, filename, lru, _, hexec, rfl⟩ | rfl⟩
  · obtain ⟨ht, hcapacity⟩ := h.perform (notMem_cstr buffer) hrequested (hdurable request hrequested) hperform
    exact ⟨ht.sendDone commFd, hcapacity⟩
  · have hop : s.lru.Admits (.get user filename commFd) := trivial
    obtain ⟨hstocked, hdisk, hcapacity⟩ := h.stocked.exec hop hexec
    have hread : Persistent { s with lru := lru } store := by
      refine ⟨hstocked, ?_⟩
      change Secured lru.capacity lru.disk store
      rw [hdisk, hcapacity]
      exact h.secured
    rw [stepLine_of_none hnone]
    exact ⟨hread.sendDone commFd, hcapacity⟩
  · rw [stepLine_of_none hnone]
    exact ⟨(h.send commFd _).sendDone commFd, rfl⟩

/-- A greeting, a report or `quit` changes nothing that is stored. -/
theorem Persistent.listens (h : Persistent s store) (hs : Listens s commFd s') :
    Persistent s' store ∧ s'.lru.capacity = s.lru.capacity := by
  cases hs with
  | greet =>
      rw [checkPrimaryHoldback_eq]
      exact ⟨⟨h.stocked.of_eq rfl rfl rfl rfl rfl rfl rfl h.stocked.counters h.stocked.bare, h.secured⟩, rfl⟩
  | drop user seqNum => exact ⟨⟨h.stocked, h.secured⟩, rfl⟩
  | ignore => exact ⟨h, rfl⟩

/-- A message of the primary is performed, or it is none of the four commands. -/
theorem Persistent.psWorker (h : Persistent s store) (hsplit : splitMessage (cstr buffer) = .ok (seqNum, line))
    (hdurable : ∀ request, requested line = some request → Durable s.lru line request)
    (hrun : s.psWorker fuel commFd buffer = .ok s') :
    Persistent s' (store.stepLine s.lru.capacity line) ∧ s'.lru.capacity = s.lru.capacity := by
  have hline : '\x00' ∉ line := by
    obtain ⟨number, _, hbuffer⟩ := splitMessage_eq_ok hsplit
    have hnul := notMem_cstr buffer
    rw [hbuffer] at hnul
    exact fun hmem => hnul (by simp [hmem])
  rw [Chunkserver.psWorker, hsplit, Run.ok_bind] at hrun
  obtain ⟨command, hparse, hrun⟩ := Run.bind_eq_ok.mp hrun
  rw [writeCommand_eq] at hrun
  cases hrequest : writeRequest command line with
  | none =>
      rw [hrequest] at hrun
      obtain rfl := Except.ok.inj hrun
      have hnone : requested line = none := by simp [requested, hparse, hrequest]
      rw [stepLine_of_none hnone]
      exact ⟨h, rfl⟩
  | some parsed =>
      rw [hrequest] at hrun
      obtain ⟨request, hparsed, hrun⟩ := Run.bind_eq_ok.mp hrun
      rw [hparsed] at hrequest
      cases request with
      | none =>
          obtain rfl := Except.ok.inj hrun
          rw [stepLine_of_none (requested_of_unreadable hparse hrequest)]
          exact ⟨h.send commFd _, rfl⟩
      | some request =>
          have hrequested := requested_of_writeRequest hparse hrequest
          exact h.perform hline hrequested (hdurable request hrequested) hrun

/-! ### Lives -/

/-- What happens to a node: a round, or the end of the process and a start on the same disk, in whatever role. -/
inductive NodeEvent where
  | round (round : Round)
  | restart (isPrimary : Bool) (secondaryFd : Int)
  deriving DecidableEq

/-- The line that a round hands to a command. -/
def NodeEvent.asked : NodeEvent → Option Str
  | .round (.client _ buffer) => some (cstr buffer)
  | .round (.primary _ buffer) =>
      match splitMessage (cstr buffer) with
      | .ok (_, line) => some line
      | .error _ => none
  | .round .checkpoint => none
  | .restart _ _ => none

/-- A round whose effect outlives the process. A client sends one of the commands that read or write a file, or what is not
answered; every write is found again in the log, and finds room; and the rows of a checkpoint fit into one chunk. -/
def Round.Survives (s : Chunkserver) : Round → Prop
  | .client _ buffer => Unanswered (cstr buffer) ∨
      Handles (cstr buffer) ∧ ∀ request, requested (cstr buffer) = some request → Durable s.lru (cstr buffer) request
  | .primary _ buffer => ∀ seqNum line, splitMessage (cstr buffer) = .ok (seqNum, line) →
      ∀ request, requested line = some request → Durable s.lru line request
  | .checkpoint => s.lru.rowBytes ≤ chunkSize

/-- One step in the life of a node. -/
def Lives (s : Chunkserver) : NodeEvent → Chunkserver → Prop
  | .round round, t => round.Survives s ∧ Takes s round t
  | .restart isPrimary secondaryFd, t =>
      ∃ fuel, (boot s.lru.capacity isPrimary secondaryFd s.lru.disk).initialization (fuel + 1) false = .ok t

theorem requested_of_unanswered (h : Unanswered line) : requested line = none := by
  rcases h with rfl | hdone | hquit
  · decide
  · rw [requested, hdone]
    rfl
  · rw [requested, hquit]
    rfl

/-- **One step.** The node holds what the line of the step makes of the store it held. -/
theorem Persistent.lives {event : NodeEvent} (h : Persistent s store) (hlives : Lives s event t) :
    Persistent t (event.asked.elim store (store.stepLine s.lru.capacity)) ∧ t.lru.capacity = s.lru.capacity := by
  cases event with
  | round round =>
      obtain ⟨hsurvives, htakes⟩ := hlives
      cases round with
      | client commFd buffer =>
          obtain ⟨fuel, hrun⟩ := htakes
          rcases hsurvives with hunanswered | ⟨hhandles, hdurable⟩
          · have hnone := requested_of_unanswered hunanswered
            change Persistent t (store.stepLine s.lru.capacity (cstr buffer)) ∧ _
            rw [stepLine_of_none hnone]
            rcases (lasting_wired.serving commFd).worker_cases hrun with ⟨_, hlistens⟩ | ⟨hanswered, _⟩
            · exact h.listens hlistens
            · exact absurd hunanswered hanswered
          · exact h.worker hhandles hdurable hrun
      | primary sockFd buffer =>
          obtain ⟨fuel, hrun⟩ := htakes
          cases hsplit : splitMessage (cstr buffer) with
          | error fault =>
              rw [Chunkserver.psWorker, hsplit] at hrun
              cases hrun
          | ok message =>
              obtain ⟨seqNum, line⟩ := message
              have hline : (NodeEvent.round (.primary sockFd buffer)).asked = some line := by rw [NodeEvent.asked, hsplit]
              rw [hline]
              exact h.psWorker hsplit (hsurvives seqNum line hsplit) hrun
      | checkpoint =>
          obtain ⟨lru, hcheck, rfl⟩ := htakes
          obtain ⟨hstocked, hlog, hcapacity, hloads⟩ := h.stocked.checkpointing hsurvives hcheck
          exact ⟨⟨hstocked, hcapacity.symm ▸ .of_saved hloads hlog⟩, hcapacity⟩
  | restart isPrimary secondaryFd =>
      obtain ⟨fuel, hrun⟩ := hlives
      obtain ⟨t', hrun', hstocked, hdisk, hcapacity⟩ := h.secured.initialization isPrimary secondaryFd fuel
      obtain rfl := Except.ok.inj (hrun'.symm.trans hrun)
      refine ⟨⟨hstocked, ?_⟩, hcapacity⟩
      rw [hdisk, hcapacity]
      exact h.secured

theorem stocked_fresh (hnonneg : 0 ≤ capacity) (hsmall : capacity ≤ intMax) :
    Stocked (LRUCache.fresh capacity isPrimary) Store.empty := by
  have htallied : (LRUCache.fresh capacity isPrimary).Tallied := tallied_fresh
  have hmemory : (0 : Int) = (LRUCache.fresh capacity isPrimary).residentTotal := htallied.memory
  refine ⟨htallied, funext filesOf_fresh, hsmall, by rw [← hmemory]; exact hnonneg, fun u => plain_empty, fun u hu => ?_,
    fun type => ⟨Nat.le_refl 2, ?_⟩, rfl, rfl⟩
  · exact hu.elim (fun hne => absurd rfl hne) fun hmem => absurd hmem ExtTreeMap.not_mem_empty
  · intro n hn
    have hzero : n = 0 := by simpa [LRUCache.fresh, LRUCache.init] using hn
    rw [hzero]
    decide

/-- A disk without files brings back the empty store. -/
theorem loadsBack_empty (hnonneg : 0 ≤ capacity) (hsmall : capacity ≤ intMax) (hfiles : ∀ dir, disk.files dir = ∅) :
    LoadsBack capacity disk Store.empty := by
  intro log isPrimary fuel
  have hdescribable : (LRUCache.fresh capacity isPrimary).Describable := by
    refine ⟨recordable_empty, recordable_empty, fun type => ⟨0, 0, rfl, by decide⟩, fun u hu => ?_, fun u n hu => ?_⟩
    · exact absurd hu ExtTreeMap.not_mem_empty
    · exact absurd (hu.symm.trans ExtTreeMap.getElem?_empty) (Option.some_ne_none n)
  have hcarries : Carries (LRUCache.fresh capacity isPrimary) 0 { disk with log := log } :=
    ⟨hfiles .metadata, fun hpos => absurd hpos (Nat.lt_irrefl 0)⟩
  have hload := hcarries.loadMetadata hdescribable capacity isPrimary
  have hnobody : (∅ : Map Records).toList = [] := by simp
  obtain ⟨t, hrun, hheld, hsizes, hvirmem, hmemory, hinfo, hdisk⟩ :=
    exists_loadCheckpointing (fun _ => ∅) hsmall hload (by simp [hnobody]) (by simpa [hnobody] using hnonneg) fuel
  obtain ⟨hwired, hcapacity⟩ := loaded_wired hrun
  have hsame : t.disk = { disk with log := log } := by
    rw [hdisk]
    exact setFiles_of_eq ((hfiles .virtualMemory).trans (hfiles .cpVirtualMemory).symm)
  have hstocked : Stocked (LRUCache.fresh capacity isPrimary) Store.empty := stocked_fresh hnonneg hsmall
  refine ⟨t, hrun, hstocked.of_loaded hwired hcapacity ?_ hvirmem hsizes ?_ (fun type => ?_) ?_, hsame, hcapacity⟩
  · funext user
    rw [hheld]
    exact if_neg ExtTreeMap.not_mem_empty
  · rw [hmemory, ← hstocked.tallied.memory]
    simp [hnobody, LRUCache.fresh, LRUCache.init]
  · rw [hinfo]
    simp
  · rw [hsame]
    exact ⟨hfiles .virtualMemory, hfiles .cpVirtualMemory⟩

/-- A start with `-n` on a disk without a log. -/
theorem persistent_start {s₀ : Chunkserver} (hnonneg : 0 ≤ capacity) (hsmall : capacity ≤ intMax) (hlog : disk.log = none)
    (hstart : (boot capacity isPrimary secondaryFd disk).initialization fuel true = .ok s₀) :
    Persistent s₀ Store.empty ∧ s₀.lru.capacity = capacity := by
  obtain rfl := Except.ok.inj hstart
  have hfresh : Stocked (LRUCache.fresh capacity isPrimary) Store.empty := stocked_fresh hnonneg hsmall
  simp only [initializeChunkInfo, clearDir_eq]
  refine ⟨⟨hfresh.of_eq rfl rfl rfl rfl rfl rfl rfl (fun type => ?_) ⟨rfl, rfl⟩, ?_⟩, rfl⟩
  · cases type with
    | virtualMemory => exact hfresh.counters .virtualMemory
    | checkpointing => exact hfresh.counters .checkpointing
  · refine .of_saved (loadsBack_empty hnonneg hsmall fun dir => ?_) hlog
    cases dir <;> rfl

/-- **Nothing is lost.** In every life of a node, over checkpoints and starts in any order, the node holds what all the lines that
it was sent make of the empty store, both counters are exact, and a start at any time, in whatever role, brings back the files and
the counters. -/
theorem contents_of_life {s₀ : Chunkserver} {events : List NodeEvent} (hnonneg : 0 ≤ capacity) (hsmall : capacity ≤ intMax)
    (hlog : disk.log = none) (hstart : (boot capacity isPrimary secondaryFd disk).initialization fuel true = .ok s₀)
    (hlife : Run.Runs Lives s₀ events s) :
    s.lru.filesOf = Store.afterLines capacity (events.filterMap NodeEvent.asked) ∧ s.lru.memoryUsed = s.lru.residentTotal ∧
      (∀ u, s.lru.userSizeOf u = total (s.lru.filesOf u)) ∧
        ∀ isPrimary' secondaryFd' fuel', ∃ t,
          (boot capacity isPrimary' secondaryFd' s.lru.disk).initialization (fuel' + 1) false = .ok t ∧
            t.lru.filesOf = s.lru.filesOf ∧ t.lru.memoryUsed = s.lru.memoryUsed ∧ ∀ u, t.lru.userSizeOf u = s.lru.userSizeOf u := by
  obtain ⟨hs, hcapacity⟩ : Persistent s (Store.afterLines capacity (events.filterMap NodeEvent.asked)) ∧ s.lru.capacity = capacity := by
    refine hlife.invariant (P := fun events s => Persistent s (Store.afterLines capacity (events.filterMap NodeEvent.asked)) ∧
      s.lru.capacity = capacity) (persistent_start hnonneg hsmall hlog hstart) ?_
    rintro events t event t' ⟨ht, hcapacity⟩ hlives
    obtain ⟨ht', hcapacity'⟩ := ht.lives hlives
    refine ⟨?_, hcapacity'.trans hcapacity⟩
    rw [hcapacity] at ht'
    rw [List.filterMap_append]
    cases hasked : event.asked with
    | none => simpa [hasked] using ht'
    | some line => simpa [hasked, Store.afterLines_concat] using ht'
  have htallied := hs.stocked.tallied
  refine ⟨hs.stocked.contents, htallied.memory, htallied.sizes, fun isPrimary' secondaryFd' fuel' => ?_⟩
  rw [← hcapacity]
  obtain ⟨t, hrun, ht, _, _⟩ := hs.secured.initialization isPrimary' secondaryFd' fuel'
  have hfiles : t.lru.filesOf = s.lru.filesOf := ht.contents.trans hs.stocked.contents.symm
  refine ⟨t, hrun, hfiles, hs.stocked.memoryUsed_eq ht, fun u => ?_⟩
  rw [ht.tallied.sizes, htallied.sizes, hfiles]

/-! ### A life that can be run -/

instance (user : Str) : Decidable (Unseparated user) := inferInstanceAs (Decidable (_ ∧ _ ∧ _ ∧ _))

instance (lru : LRUCache) (line : Str) (request : Request) : Decidable (Durable lru line request) :=
  decidable_of_iff (Replayable line ∧ CommaFree (request 0 0) ∧ Unseparated (request 0 0).user ∧
      lru.memoryUsed + (request 0 0).volume < lru.capacity)
    ⟨fun ⟨hreplayable, hfree, hnamed, hroom⟩ => ⟨hreplayable, hfree, hnamed, hroom⟩,
      fun h => ⟨h.replayable, h.commaFree, h.named, h.room⟩⟩

instance (text : Str) : Decidable (Unanswered text) := inferInstanceAs (Decidable (_ ∨ _ ∨ _))

instance (s : Chunkserver) : (round : Round) → Decidable (round.Survives s)
  | .client _ buffer => inferInstanceAs (Decidable (Unanswered (cstr buffer) ∨
      Handles (cstr buffer) ∧ ∀ request ∈ requested (cstr buffer), Durable s.lru (cstr buffer) request))
  | .primary _ buffer =>
      match hsplit : splitMessage (cstr buffer) with
      | .ok (_, line) =>
          decidable_of_iff (∀ request ∈ requested line, Durable s.lru line request)
            ⟨fun h seqNum' line' hsplit' => by
              obtain ⟨_, rfl⟩ := Prod.mk.inj (Except.ok.inj (hsplit.symm.trans hsplit'))
              exact h, fun h => h _ _ hsplit⟩
      | .error _ => isTrue fun _ _ hsplit' => by simp [hsplit] at hsplit'
  | .checkpoint => inferInstanceAs (Decidable (s.lru.rowBytes ≤ chunkSize))

def take (fuel : Nat) (s : Chunkserver) : Round → Except Fault Chunkserver
  | .client commFd buffer => s.worker fuel commFd buffer
  | .primary sockFd buffer => s.psWorker fuel sockFd buffer
  | .checkpoint => s.lru.checkpointing >>= fun lru => .ok { s with lru := lru }

theorem takes_of_take {round : Round} (hrun : s.take fuel round = .ok t) : Takes s round t := by
  cases round with
  | client => exact ⟨fuel, hrun⟩
  | primary => exact ⟨fuel, hrun⟩
  | checkpoint =>
      obtain ⟨lru, hcheck, hrun⟩ := Run.bind_eq_ok.mp hrun
      exact ⟨lru, hcheck, (Except.ok.inj hrun).symm⟩

/-- One step of a life, if its effect outlives the process. -/
def live (s : Chunkserver) : NodeEvent → Except Fault Chunkserver
  | .round round => if round.Survives s then s.take 3 round else .error .exited
  | .restart isPrimary secondaryFd => (boot s.lru.capacity isPrimary secondaryFd s.lru.disk).initialization 3 false

theorem lives_of_live {event : NodeEvent} (hrun : s.live event = .ok t) : Lives s event t := by
  cases event with
  | restart => exact ⟨2, hrun⟩
  | round round =>
      rw [live] at hrun
      split at hrun
      · next hsurvives => exact ⟨hsurvives, takes_of_take hrun⟩
      · cases hrun

theorem contents_of_life_two_starts :
    let events : List NodeEvent := [.round (.client 4 "put u,f,a\r\n".toList), .round .checkpoint,
      .round (.client 4 "cput u,f,a,b\r\n".toList), .restart false 0, .round (.primary 7 "1,put v,g,c\r\n".toList),
      .round (.client 5 "get v,g\r\n".toList), .round .checkpoint, .restart true 9]
    ∃ s₀ s : Chunkserver, (boot 100 true 5 Disk.empty).initialization 1 true = .ok s₀ ∧ Run.Runs Lives s₀ events s ∧
      s.lru.filesOf = Store.afterLines 100 (events.filterMap NodeEvent.asked) ∧ s.lru.memoryUsed = s.lru.residentTotal ∧
        (∀ u, s.lru.userSizeOf u = total (s.lru.filesOf u)) ∧
          ∀ isPrimary' secondaryFd' fuel', ∃ t,
            (boot 100 isPrimary' secondaryFd' s.lru.disk).initialization (fuel' + 1) false = .ok t ∧
              t.lru.filesOf = s.lru.filesOf ∧ t.lru.memoryUsed = s.lru.memoryUsed ∧ ∀ u, t.lru.userSizeOf u = s.lru.userSizeOf u := by
  intro events
  cases hstart : (boot 100 true 5 Disk.empty).initialization 1 true with
  | error fault => cases hstart
  | ok s₀ =>
      have hends : ((boot 100 true 5 Disk.empty).initialization 1 true >>= fun s₀ => events.foldlM live s₀).isOk = true := by
        decide +kernel
      rw [hstart, Run.ok_bind] at hends
      cases hrun : events.foldlM live s₀ with
      | error fault => exact absurd hends (by rw [hrun]; exact Bool.false_ne_true)
      | ok s =>
          have hlife : Run.Runs Lives s₀ events s := .of_foldlM (fun _ _ _ _ => lives_of_live) hrun
          exact ⟨s₀, s, rfl, hlife, contents_of_life (by decide) (by decide) rfl hstart hlife⟩

end Chunkserver

end PennCloud
