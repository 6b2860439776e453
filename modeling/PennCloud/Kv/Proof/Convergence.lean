import PennCloud.Kv.Proof.Evictions
import PennCloud.Kv.Proof.Holdback
import PennCloud.Kv.Proof.Replies
import PennCloud.Kv.Proof.Requests

/-!
# The secondary follows the primary

The primary forwards the line of every write it has performed, with a number, and the secondary
performs what the line asks for. Reads move nodes and load users on the primary only. As long as no
step on either node loses contents, both hold what the forwarded lines make of the empty store.
-/

namespace PennCloud

open LRUCache Std

/-- The store after what a line asks for. -/
def Store.stepLine (capacity : Int) (store : Store) (line : Str) : Store :=
  match Chunkserver.requested line with
  | some request => store.step capacity (request 0 0)
  | none => store

/-- The store after a list of lines. -/
def Store.afterLines (capacity : Int) (lines : List Str) : Store :=
  lines.foldl (Store.stepLine capacity) Store.empty

theorem Store.afterLines_concat (capacity : Int) (lines : List Str) (line : Str) :
    Store.afterLines capacity (lines ++ [line]) = (Store.afterLines capacity lines).stepLine capacity line := by
  rw [afterLines, List.foldl_append, afterLines]
  rfl

namespace LRUCache

variable {lru : LRUCache} {capacity : Int} {store : Store}

theorem Holds.appendLog (h : Holds lru capacity store) (line : Str) :
    Holds (lru.act (.appendLog line)) capacity store := by
  refine ⟨h.good.congr rfl rfl rfl rfl rfl rfl rfl rfl fun _ => rfl, ?_, h.capacity⟩
  rw [← h.filesOf]
  exact funext fun u => filesOf_congr rfl (fun _ => rfl) rfl rfl

theorem Holds.send (h : Holds lru capacity store) (commFd : Int) (msg : Str) :
    Holds (lru.send commFd msg) capacity store := by
  refine ⟨h.good.congr rfl rfl rfl rfl rfl rfl rfl rfl fun _ => rfl, ?_, h.capacity⟩
  rw [← h.filesOf]
  exact funext fun u => filesOf_congr rfl (fun _ => rfl) rfl rfl

end LRUCache

namespace Chunkserver

variable {s s' : Chunkserver} {line user buffer command : Str} {commFd seqNum capacity sockFd : Int} {fuel : Nat}
  {request : Request} {msgs : List MsgPair} {store : Store}

/-! ### Requests -/

theorem putRequest_eq (h : putRequest line = .ok (some request)) :
    ∃ user filename value, request = Op.put user filename value := by
  obtain ⟨arguments, _, h⟩ := Run.bind_eq_ok.mp h
  split at h
  · exact ⟨_, _, _, (Option.some.inj (Except.ok.inj h)).symm⟩
  · exact absurd h (by simp)

theorem cputRequest_eq (h : cputRequest line = .ok (some request)) :
    ∃ user filename oldValue newValue, request = Op.cput user filename oldValue newValue := by
  obtain ⟨arguments, _, h⟩ := Run.bind_eq_ok.mp h
  split at h
  · exact ⟨_, _, _, _, (Option.some.inj (Except.ok.inj h)).symm⟩
  · exact absurd h (by simp)

theorem deleRequest_eq (h : deleRequest line = .ok (some request)) :
    ∃ user filename, request = fun commFd seqNum => Op.dele user filename commFd seqNum false := by
  obtain ⟨arguments, _, h⟩ := Run.bind_eq_ok.mp h
  split at h
  · exact ⟨_, _, (Option.some.inj (Except.ok.inj h)).symm⟩
  · exact absurd h (by simp)

theorem renameRequest_eq (h : renameRequest line = .ok (some request)) :
    ∃ user oldFilename newFilename, request = Op.rename user oldFilename newFilename := by
  obtain ⟨arguments, _, h⟩ := Run.bind_eq_ok.mp h
  split at h
  · exact ⟨_, _, _, (Option.some.inj (Except.ok.inj h)).symm⟩
  · exact absurd h (by simp)

theorem getRequest_eq (h : getRequest line = .ok (some request)) :
    ∃ user filename, request = fun commFd _ => Op.get user filename commFd := by
  obtain ⟨arguments, _, h⟩ := Run.bind_eq_ok.mp h
  split at h
  · exact ⟨_, _, (Option.some.inj (Except.ok.inj h)).symm⟩
  · exact absurd h (by simp)

theorem requested_cases (h : requested line = some request) :
    (∃ user filename value, request = Op.put user filename value) ∨
      (∃ user filename oldValue newValue, request = Op.cput user filename oldValue newValue) ∨
      (∃ user filename, request = fun commFd seqNum => Op.dele user filename commFd seqNum false) ∨
      ∃ user oldFilename newFilename, request = Op.rename user oldFilename newFilename := by
  obtain ⟨command, _, hrequest⟩ := requested_eq_some h
  rw [writeRequest] at hrequest
  split at hrequest
  · exact Or.inl (putRequest_eq (Option.some.inj hrequest))
  · split at hrequest
    · exact Or.inr (Or.inl (cputRequest_eq (Option.some.inj hrequest)))
    · split at hrequest
      · exact Or.inr (Or.inr (Or.inl (deleRequest_eq (Option.some.inj hrequest))))
      · split at hrequest
        · exact Or.inr (Or.inr (Or.inr (renameRequest_eq (Option.some.inj hrequest))))
        · exact absurd hrequest (by simp)

/-- Who is answered, and under which number, makes no difference to the store. -/
theorem step_request (h : requested line = some request) (capacity : Int) (store : Store) (commFd seqNum : Int) :
    store.step capacity (request commFd seqNum) = store.stepLine capacity line := by
  rw [Store.stepLine, h]
  rcases requested_cases h with ⟨_, _, _, rfl⟩ | ⟨_, _, _, _, rfl⟩ | ⟨_, _, rfl⟩ | ⟨_, _, _, rfl⟩
  all_goals rfl

theorem commFd_request (h : requested line = some request) (commFd seqNum : Int) :
    (request commFd seqNum).commFd = commFd := by
  rcases requested_cases h with ⟨_, _, _, rfl⟩ | ⟨_, _, _, _, rfl⟩ | ⟨_, _, rfl⟩ | ⟨_, _, _, rfl⟩
  all_goals rfl

/-! ### Performing a write -/

theorem perform_ok {op : Op} (hrun : s.perform fuel line user true op = .ok s') :
    ∃ lru, s.lru.exec fuel op = .ok lru ∧
      (s.lru.isPrimary = true →
        ({ s with lru := lru.act (.appendLog line) } : Chunkserver).sendToSecondary line user = .ok s') ∧
      (s.lru.isPrimary = false → s' = { s with lru := lru.act (.appendLog line) }) := by
  obtain ⟨lru, hexec, hrun⟩ := Run.bind_eq_ok.mp hrun
  have hrole : lru.isPrimary = s.lru.isPrimary := (answers_exec hexec).role
  simp only [if_true] at hrun
  have hlogged : ({ s with lru := lru } : Chunkserver).writeLog line = { s with lru := lru.act (.appendLog line) } :=
    rfl
  rw [hlogged] at hrun
  have hrole' : (lru.act (.appendLog line)).isPrimary = s.lru.isPrimary := hrole
  simp only [hrole'] at hrun
  refine ⟨lru, hexec, fun hprimary => ?_, fun hsecondary => ?_⟩
  · rwa [if_pos hprimary] at hrun
  · rw [if_neg (by simp [hsecondary])] at hrun
    exact (Except.ok.inj hrun).symm

/-- The get that a line asks for. -/
def AsksGet (line user filename : Str) : Prop :=
  parseCommand line = .ok "get".toList ∧
    getRequest line = .ok (some fun commFd _ => Op.get user filename commFd)

theorem requested_of_get (hcommand : parseCommand line = .ok "get".toList) : requested line = none := by
  rw [requested, hcommand]
  rfl

theorem requested_of_unreadable (hcommand : parseCommand line = .ok command)
    (hrequest : writeRequest command line = some (.ok none)) : requested line = none := by
  rw [requested, hcommand]
  dsimp only
  rw [hrequest]

/-- What serving a request comes to: a write, a read, or an error. -/
theorem worker_ok (hhandles : Handles (cstr buffer)) (hrun : s.worker fuel commFd buffer = .ok s') :
    (∃ request t, requested (cstr buffer) = some request ∧
        s.perform fuel (cstr buffer) (request commFd 0).user true (request commFd 0) = .ok t ∧
        s' = t.sendDone commFd) ∨
      requested (cstr buffer) = none ∧
        ((∃ user filename lru, AsksGet (cstr buffer) user filename ∧
          s.lru.exec fuel (.get user filename commFd) = .ok lru ∧
          s' = ({ s with lru := lru } : Chunkserver).sendDone commFd) ∨
        s' = (s.error commFd).sendDone commFd) := by
  obtain ⟨command, hcommand, hget | hwrite⟩ := hhandles
  · subst hget
    rw [worker_get hcommand] at hrun
    obtain ⟨t, hserved, hdone⟩ := Run.bind_eq_ok.mp hrun
    obtain rfl := Except.ok.inj hdone
    obtain ⟨request, hrequest, hserved⟩ := Run.bind_eq_ok.mp hserved
    refine Or.inr ⟨requested_of_get hcommand, ?_⟩
    cases request with
    | none => exact Or.inr (by rw [← Except.ok.inj hserved])
    | some request =>
        obtain ⟨user, filename, rfl⟩ := getRequest_eq hrequest
        obtain ⟨lru, hexec, hserved⟩ := Run.bind_eq_ok.mp hserved
        obtain rfl := Except.ok.inj hserved
        exact Or.inl ⟨user, filename, lru, ⟨hcommand, hrequest⟩, hexec, rfl⟩
  · obtain ⟨parsed, hparsed⟩ := Option.isSome_iff_exists.mp hwrite
    rw [worker_write hcommand hparsed] at hrun
    obtain ⟨t, hserved, hdone⟩ := Run.bind_eq_ok.mp hrun
    obtain rfl := Except.ok.inj hdone
    obtain ⟨request, hrequest, hserved⟩ := Run.bind_eq_ok.mp hserved
    rw [hrequest] at hparsed
    cases request with
    | none => exact Or.inr ⟨requested_of_unreadable hcommand hparsed, Or.inr (by rw [← Except.ok.inj hserved])⟩
    | some request =>
        exact Or.inl ⟨request, t, requested_of_writeRequest hcommand hparsed, hserved, rfl⟩

/-! ### The primary -/

/-- The texts sent on a descriptor so far. -/
def sentTo (s : Chunkserver) (fd : Int) : List Str := (s.lru.sent.filter (·.1 = fd)).map Prod.snd

theorem sentTo_send_of_ne {fd : Int} {msg : Str} (hne : commFd ≠ fd) : (s.send commFd msg).sentTo fd = s.sentTo fd := by
  simp [sentTo, send, LRUCache.send, List.filter_append, hne]

theorem sentTo_of_answers {fd : Int} (h : Answers s.lru s'.lru commFd) (hne : commFd ≠ fd) :
    s'.sentTo fd = s.sentTo fd := by
  obtain ⟨replies, hsent, hreplies⟩ := h.replies
  have hnone : replies.filter (·.1 = fd) = [] := by
    rw [List.filter_eq_nil_iff]
    intro reply hreply
    rw [hreplies reply hreply]
    simpa using hne
  rw [sentTo, hsent, List.filter_append, hnone, List.append_nil, sentTo]

/-- A request of a client on a socket of its own, in a state that meets a condition. -/
def Serves (condition : LRUCache → Op → Prop) (s : Chunkserver) (message : Int × Str) (s' : Chunkserver) : Prop :=
  message.1 ≠ s.secondaryFd ∧ Handles (cstr message.2) ∧
    (∀ request, requested (cstr message.2) = some request → condition s.lru (request message.1 0)) ∧
    (∀ user filename, AsksGet (cstr message.2) user filename → condition s.lru (.get user filename message.1)) ∧
    ∃ fuel, s.worker fuel message.1 message.2 = .ok s'

/-- The primary holds what the forwarded lines make of the empty store. -/
structure Forwarded (capacity fd : Int) (msgs : List MsgPair) (s : Chunkserver) : Prop where
  role : s.lru.isPrimary = true
  secondaryFd : s.secondaryFd = fd
  sent : s.sentTo fd = msgs.map messageText
  writes : ∀ m ∈ msgs, '\x00' ∉ m.msg ∧ ∃ request, requested m.msg = some request
  holds : s.lru.Filled ∨ Holds s.lru capacity (Store.afterLines capacity (msgs.map (·.msg)))

theorem Forwarded.send {fd : Int} {msg : Str} (h : Forwarded capacity fd msgs s) (hne : commFd ≠ fd) :
    Forwarded capacity fd msgs (s.send commFd msg) := by
  refine ⟨h.role, h.secondaryFd, by rw [sentTo_send_of_ne hne, h.sent], h.writes, ?_⟩
  exact h.holds.imp (fun hfilled => hfilled.congr rfl) fun hholds => hholds.send commFd msg

/-- What executing a command leaves of the contents, chunk filled up or not. -/
theorem holds_exec {lru lru' : LRUCache} {op : Op} (h : lru.Filled ∨ Holds lru capacity store)
    (hop : lru.Preserving op) (hexec : lru.exec fuel op = .ok lru') :
    lru'.Filled ∨ Holds lru' capacity (store.step capacity op) := by
  rcases h with hfilled | hholds
  · exact Or.inl (hfilled.exec hexec)
  · by_cases hfilled : lru'.Filled
    · exact Or.inl hfilled
    · obtain ⟨depth, hdelivers⟩ := hholds.good.exec hop
      have hstep := (hdelivers fuel).right lru' hexec hfilled
      rw [hholds.capacity, hholds.filesOf] at hstep
      exact Or.inr hstep

/-- What serving a request leaves of the contents. -/
theorem Serves.holds {condition : LRUCache → Op → Prop} {message : Int × Str} (hserves : Serves condition s message s')
    (hexec : ∀ fuel op lru, condition s.lru op → s.lru.exec fuel op = .ok lru →
      lru.Filled ∨ Holds lru capacity (store.step capacity op))
    (h : s.lru.Filled ∨ Holds s.lru capacity store) :
    s'.lru.Filled ∨ Holds s'.lru capacity (store.stepLine capacity (cstr message.2)) := by
  obtain ⟨_, hhandles, hwrite, hread, fuel, hrun⟩ := hserves
  rcases worker_ok hhandles hrun with ⟨request, t, hrequested, hperform, rfl⟩ |
    ⟨hnone, ⟨user, filename, lru, hget, hread', rfl⟩ | rfl⟩
  · obtain ⟨lru, hwrite', hprimary, hsecondary⟩ := perform_ok hperform
    have hholds := hexec fuel _ lru (hwrite request hrequested) hwrite'
    rw [step_request hrequested] at hholds
    cases hrole : s.lru.isPrimary with
    | true =>
        obtain ⟨_, hlru, _⟩ := sendToSecondary_ok (hprimary hrole)
        refine hholds.imp (fun hfilled => ?_) fun hholds => ?_
        · change t.lru.Filled
          rw [hlru]
          exact hfilled.congr rfl
        · change Holds (t.lru.send _ _) _ _
          rw [hlru]
          exact ((hholds.appendLog _).send _ _).send _ _
    | false =>
        obtain rfl := hsecondary hrole
        exact hholds.imp (fun hfilled => hfilled.congr rfl) fun hholds => (hholds.appendLog _).send _ _
  · rw [Store.stepLine, hnone]
    exact (hexec fuel _ lru (hread user filename hget) hread').imp (fun hfilled => hfilled.congr rfl)
      fun hholds => hholds.send _ _
  · rw [Store.stepLine, hnone]
    exact h.imp (fun hfilled => hfilled.congr rfl) fun hholds => (hholds.send _ _).send _ _

theorem Forwarded.serves {fd : Int} {message : Int × Str} (h : Forwarded capacity fd msgs s)
    (hserves : Serves Preserving s message s') : ∃ msgs', Forwarded capacity fd msgs' s' := by
  have hholds := hserves.holds (fun fuel op lru hop hexec => holds_exec h.holds hop hexec) h.holds
  obtain ⟨hne, hhandles, _, _, fuel, hrun⟩ := hserves
  rw [h.secondaryFd] at hne
  rcases worker_ok hhandles hrun with ⟨request, t, hrequested, hperform, rfl⟩ |
    ⟨hnone, ⟨user, filename, lru, _, hexec, rfl⟩ | rfl⟩
  · obtain ⟨lru, hexec, hprimary, _⟩ := perform_ok hperform
    obtain ⟨_, hlru, hfd, _⟩ := sendToSecondary_ok (hprimary h.role)
    generalize lastFor _ _ + 1 = n at hlru
    have hanswers := answers_exec hexec
    rw [commFd_request hrequested] at hanswers
    have hsent : (t.sendDone message.1).sentTo fd = t.sentTo fd := sentTo_send_of_ne hne
    refine ⟨msgs ++ [.of n (cstr message.2)], ?_, hfd.trans h.secondaryFd, ?_, fun m hm => ?_, ?_⟩
    · change t.lru.isPrimary = true
      rw [hlru]
      exact hanswers.role.trans h.role
    · have hkept : ({ s with lru := lru } : Chunkserver).sentTo fd = s.sentTo fd :=
        sentTo_of_answers hanswers hne
      have hforward : t.sentTo fd =
          ({ s with lru := lru } : Chunkserver).sentTo fd ++ [messageText (.of n (cstr message.2))] := by
        rw [sentTo, hlru, h.secondaryFd]
        simp [sentTo, LRUCache.send, act]
      rw [hsent, hforward, hkept, h.sent, List.map_append]
      rfl
    · rcases List.mem_append.mp hm with hm | hm
      · exact h.writes m hm
      · obtain rfl := List.mem_singleton.mp hm
        exact ⟨notMem_cstr _, request, hrequested⟩
    · rw [List.map_append, List.map_singleton, Store.afterLines_concat]
      exact hholds
  · rw [Store.stepLine, hnone] at hholds
    have hanswers : Answers s.lru lru message.1 := answers_exec hexec
    refine ⟨msgs, hanswers.role.trans h.role, h.secondaryFd, ?_, h.writes, hholds⟩
    have hkept : ({ s with lru := lru } : Chunkserver).sentTo fd = s.sentTo fd := sentTo_of_answers hanswers hne
    exact (sentTo_send_of_ne hne).trans (hkept.trans h.sent)
  · exact ⟨msgs, (h.send hne).send hne⟩

/-! ### The secondary -/

/-- A message of the primary is performed, in a state that meets a condition. -/
def Follows (condition : LRUCache → Op → Prop) (sockFd : Int) (s : Chunkserver) (text : Str) (s' : Chunkserver) : Prop :=
  (∀ seqNum line request, splitMessage (cstr text) = .ok (seqNum, line) → requested line = some request →
      condition s.lru (request sockFd seqNum)) ∧
    ∃ fuel, s.psWorker fuel sockFd text = .ok s'

/-- The secondary holds what the lines of the messages make of the empty store. -/
theorem Follows.holds {m : MsgPair} (hfollows : Follows Preserving sockFd s (messageText m) s')
    (hrole : s.lru.isPrimary = false) (h : s.lru.Filled ∨ Holds s.lru capacity store) (hmsg : '\x00' ∉ m.msg)
    (hrequested : requested m.msg = some request) :
    s'.lru.isPrimary = false ∧
      (s'.lru.Filled ∨ Holds s'.lru capacity (store.stepLine capacity m.msg)) := by
  obtain ⟨hop, fuel, hrun⟩ := hfollows
  have hsplit : splitMessage (cstr (messageText m)) = .ok (m.sq, m.msg) := by
    rw [cstr_of_notMem (notMem_messageText hmsg), splitMessage_messageText]
  rw [psWorker_eq hmsg hrequested] at hrun
  obtain ⟨lru, hexec, _, hsecondary⟩ := perform_ok hrun
  obtain rfl := hsecondary hrole
  refine ⟨(answers_exec hexec).role.trans hrole, ?_⟩
  have hholds := holds_exec h (hop _ _ _ hsplit hrequested) hexec
  rw [step_request hrequested] at hholds
  exact hholds.imp (fun hfilled => hfilled.congr rfl) fun hholds => hholds.appendLog _

/-- After the same lines both nodes hold the same value for every user and file. -/
theorem views_eq_of_runs {requests : List (Int × Str)} {fd fd' : Int} {primary secondary : Chunkserver}
    (hnonneg : 0 ≤ capacity) (hsmall : capacity ≤ intMax)
    (hprimary : Run.Runs (Serves Preserving) (fresh capacity true fd) requests primary)
    (hsecondary : Run.Runs (Follows Preserving sockFd) (fresh capacity false fd') (primary.sentTo fd) secondary)
    (hfilled : ¬ primary.lru.Filled) (hfilled' : ¬ secondary.lru.Filled) (user filename : Str) :
    primary.lru.view user filename = secondary.lru.view user filename := by
  have hfresh : ∀ role, Holds (LRUCache.fresh capacity role) capacity Store.empty := fun role =>
    ⟨good_fresh hnonneg hsmall, funext filesOf_fresh, rfl⟩
  obtain ⟨msgs, hforwarded⟩ : ∃ msgs, Forwarded capacity fd msgs primary := by
    refine hprimary.invariant (P := fun _ s => ∃ msgs, Forwarded capacity fd msgs s) ?_ ?_
    · exact ⟨[], rfl, rfl, rfl, fun m hm => absurd hm List.not_mem_nil, Or.inr (hfresh true)⟩
    · rintro requests s message s' ⟨msgs, h⟩ hserves
      exact h.serves hserves
  rw [hforwarded.sent] at hsecondary
  have hfollowed : ∀ texts s, Run.Runs (Follows Preserving sockFd) (fresh capacity false fd') texts s →
      ∀ msgs : List MsgPair, texts = msgs.map messageText → (∀ m ∈ msgs, '\x00' ∉ m.msg ∧ ∃ request, requested m.msg = some request) →
      s.lru.isPrimary = false ∧
        (s.lru.Filled ∨ Holds s.lru capacity (Store.afterLines capacity (msgs.map (·.msg)))) := by
    intro texts s hrun
    refine hrun.invariant (P := fun texts s => ∀ msgs : List MsgPair, texts = msgs.map messageText →
      (∀ m ∈ msgs, '\x00' ∉ m.msg ∧ ∃ request, requested m.msg = some request) →
      s.lru.isPrimary = false ∧
        (s.lru.Filled ∨ Holds s.lru capacity (Store.afterLines capacity (msgs.map (·.msg))))) ?_ ?_
    · intro msgs htexts _
      obtain rfl : msgs = [] := List.map_eq_nil_iff.mp htexts.symm
      exact ⟨rfl, Or.inr (hfresh false)⟩
    · intro texts s text s' ih hfollows msgs htexts hwrites
      obtain ⟨front, back, rfl, hfront, hback⟩ := List.append_eq_map_iff.mp htexts
      obtain ⟨m, rfl, rfl⟩ := List.map_eq_singleton_iff.mp hback
      obtain ⟨hrole, hholds⟩ := ih front hfront.symm fun m hm => hwrites m (List.mem_append_left _ hm)
      obtain ⟨hmsg, request, hrequested⟩ := hwrites m (List.mem_append_right _ (List.mem_singleton_self m))
      rw [List.map_append, List.map_singleton, Store.afterLines_concat]
      exact hfollows.holds hrole hholds hmsg hrequested
  have hboth := (hfollowed _ _ hsecondary msgs rfl hforwarded.writes).2.resolve_left hfilled'
  rw [view, (hforwarded.holds.resolve_left hfilled).filesOf, view, hboth.filesOf]

/-! ### Two pairs of nodes -/

instance (line : Str) : Decidable (Handles line) :=
  match hcommand : parseCommand line with
  | .ok command =>
      if hknown : command = "get".toList ∨ (writeRequest command line).isSome = true then
        isTrue ⟨command, hcommand, hknown⟩
      else isFalse fun ⟨_, hcommand', hknown'⟩ => hknown (Except.ok.inj (hcommand.symm.trans hcommand') ▸ hknown')
  | .error _ => isFalse fun ⟨_, hcommand', _⟩ => absurd (hcommand.symm.trans hcommand') (by simp)

/-- What can be decided of `Serves` before the request is served. -/
def admits (condition : LRUCache → Op → Prop) [∀ lru op, Decidable (condition lru op)] (s : Chunkserver)
    (message : Int × Str) : Bool :=
  let line := cstr message.2
  decide (message.1 ≠ s.secondaryFd) && decide (Handles line) &&
    ((requested line).all fun request => condition s.lru (request message.1 0)) &&
    match parseCommand line, getRequest line with
    | .ok command, .ok (some request) =>
        decide (command = "get".toList → condition s.lru (request message.1 0))
    | _, _ => true

theorem serves_of_admits {condition : LRUCache → Op → Prop} [∀ lru op, Decidable (condition lru op)]
    {message : Int × Str} (hadmits : admits condition s message = true)
    (hrun : s.worker fuel message.1 message.2 = .ok s') : Serves condition s message s' := by
  simp only [admits, Bool.and_eq_true, decide_eq_true_eq] at hadmits
  obtain ⟨⟨⟨hne, hhandles⟩, hwrite⟩, hread⟩ := hadmits
  refine ⟨hne, hhandles, fun request hrequested => ?_, fun user filename hget => ?_, fuel, hrun⟩
  · rw [hrequested] at hwrite
    simpa using hwrite
  · rw [hget.1, hget.2] at hread
    simpa using hread

/-- What can be decided of `Follows` before the message is executed. -/
def admitsMessage (condition : LRUCache → Op → Prop) [∀ lru op, Decidable (condition lru op)] (sockFd : Int)
    (s : Chunkserver) (text : Str) : Bool :=
  match splitMessage (cstr text) with
  | .ok (seqNum, line) => (requested line).all fun request => condition s.lru (request sockFd seqNum)
  | .error _ => true

theorem follows_of_admits {condition : LRUCache → Op → Prop} [∀ lru op, Decidable (condition lru op)] {text : Str}
    (hadmits : admitsMessage condition sockFd s text = true) (hrun : s.psWorker fuel sockFd text = .ok s') :
    Follows condition sockFd s text s' := by
  refine ⟨fun seqNum line request hsplit hrequested => ?_, fuel, hrun⟩
  rw [admitsMessage, hsplit] at hadmits
  dsimp only at hadmits
  rw [hrequested] at hadmits
  simpa using hadmits

/-- A node that serves requests as long as they meet a condition. -/
def serveAll (condition : LRUCache → Op → Prop) [∀ lru op, Decidable (condition lru op)] (s : Chunkserver)
    (requests : List (Int × Str)) : Except Fault Chunkserver :=
  requests.foldlM (fun s message =>
    if admits condition s message then s.worker 5 message.1 message.2 else .error .exited) s

def followAll (condition : LRUCache → Op → Prop) [∀ lru op, Decidable (condition lru op)] (sockFd : Int)
    (s : Chunkserver) (texts : List Str) : Except Fault Chunkserver :=
  texts.foldlM (fun s text =>
    if admitsMessage condition sockFd s text then s.psWorker 5 sockFd text else .error .exited) s

theorem runs_of_serveAll {condition : LRUCache → Op → Prop} [∀ lru op, Decidable (condition lru op)]
    {requests : List (Int × Str)} (hrun : serveAll condition s requests = .ok s') :
    Run.Runs (Serves condition) s requests s' := by
  refine Run.Runs.of_foldlM (fun message _ s s' hstep => ?_) hrun
  split at hstep
  · next hadmits => exact serves_of_admits hadmits hstep
  · exact absurd hstep (by simp)

theorem runs_of_followAll {condition : LRUCache → Op → Prop} [∀ lru op, Decidable (condition lru op)]
    {texts : List Str} (hrun : followAll condition sockFd s texts = .ok s') :
    Run.Runs (Follows condition sockFd) s texts s' := by
  refine Run.Runs.of_foldlM (fun text _ s s' hstep => ?_) hrun
  split at hstep
  · next hadmits => exact follows_of_admits hadmits hstep
  · exact absurd hstep (by simp)

theorem Serves.mono {condition condition' : LRUCache → Op → Prop} {message : Int × Str}
    (h : Serves condition s message s') (himp : ∀ lru op, condition lru op → condition' lru op) :
    Serves condition' s message s' :=
  ⟨h.1, h.2.1, fun request hrequested => himp _ _ (h.2.2.1 request hrequested),
    fun user filename hget => himp _ _ (h.2.2.2.1 user filename hget), h.2.2.2.2⟩

theorem Follows.mono {condition condition' : LRUCache → Op → Prop} {text : Str}
    (h : Follows condition sockFd s text s') (himp : ∀ lru op, condition lru op → condition' lru op) :
    Follows condition' sockFd s text s' :=
  ⟨fun seqNum line request hsplit hrequested => himp _ _ (h.1 seqNum line request hsplit hrequested), h.2⟩

/-- Five writes and a read. The third value evicts the first user, and the read brings it back on the primary alone. -/
theorem views_eq_of_runs_six_requests :
    ∃ primary secondary : Chunkserver, primary.lru.virmemMeta["u".toList]? = some [[0, 21, 6]] ∧
      secondary.lru.virmemMeta["u".toList]? = some [[0, 0, 6]] ∧
      primary.lru.view "w".toList "k".toList = some "abc\r\n".toList ∧
      ∀ user filename, primary.lru.view user filename = secondary.lru.view user filename := by
  let requests : List (Int × Str) := [(3, "put u,f,v\r\n".toList), (3, "PUT w,g,abc\r\n".toList), (3, "put x,h,yy\r\n".toList),
    (3, "get u,f\r\n".toList), (3, "rename w,g,k\r\n".toList), (3, "dele x,h\r\n".toList)]
  have hrun : (match serveAll Keeping (fresh 10 true 9) requests with
      | .ok primary =>
          match followAll Keeping 4 (fresh 10 false 0) (primary.sentTo 9) with
          | .ok secondary => decide (primary.lru.chunkInfo .virtualMemory = [0, 27] ∧
              secondary.lru.chunkInfo .virtualMemory = [0, 6] ∧ primary.lru.virmemMeta["u".toList]? = some [[0, 21, 6]] ∧
              secondary.lru.virmemMeta["u".toList]? = some [[0, 0, 6]] ∧
              primary.lru.view "w".toList "k".toList = some "abc\r\n".toList)
          | .error _ => false
      | .error _ => false) = true := by decide +kernel
  cases hprimary : serveAll Keeping (fresh 10 true 9) requests with
  | error fault => simp [hprimary] at hrun
  | ok primary =>
      cases hsecondary : followAll Keeping 4 (fresh 10 false 0) (primary.sentTo 9) with
      | error fault => simp [hprimary, hsecondary] at hrun
      | ok secondary =>
          simp only [hprimary, hsecondary, decide_eq_true_eq] at hrun
          obtain ⟨hinfo, hinfo', hvirmem, hvirmem', hview⟩ := hrun
          have hpreserving : ∀ (lru : LRUCache) op, lru.Keeping op → lru.Preserving op := fun _ _ h => h.preserving
          exact ⟨primary, secondary, hvirmem, hvirmem', hview, views_eq_of_runs (by decide) (by decide)
            ((runs_of_serveAll hprimary).mono fun _ _ _ h => h.mono hpreserving)
            ((runs_of_followAll hsecondary).mono fun _ _ _ h => h.mono hpreserving)
            (not_filled_of_chunkInfo hinfo) (not_filled_of_chunkInfo hinfo')⟩

/-- The value that is stored has no comma. -/
def CommaFree : Op → Prop
  | .put _ _ value _ _ => ',' ∉ value
  | .cput _ _ _ newValue _ _ => ',' ∉ newValue
  | _ => True

instance : (op : Op) → Decidable (CommaFree op)
  | .put _ _ value _ _ => inferInstanceAs (Decidable (',' ∉ value))
  | .get _ _ _ => isTrue trivial
  | .cput _ _ _ newValue _ _ => inferInstanceAs (Decidable (',' ∉ newValue))
  | .dele _ _ _ _ _ => isTrue trivial
  | .rename _ _ _ _ _ => isTrue trivial

/-- A read of the primary brings a user back and evicts another, so that the exchange that follows does
not fit there and fits on the secondary. -/
theorem not_views_eq_read :
    ¬ ∀ (requests : List (Int × Str)) (primary secondary : Chunkserver),
      Run.Runs (Serves fun _ => CommaFree) (fresh 10 true 9) requests primary →
      Run.Runs (Follows (fun _ => CommaFree) 4) (fresh 10 false 0) (primary.sentTo 9) secondary →
      ¬ primary.lru.Filled → ¬ secondary.lru.Filled →
      ∀ user filename, primary.lru.view user filename = secondary.lru.view user filename := by
  intro hall
  let requests : List (Int × Str) := [(3, "put a,f,vvv\r\n".toList), (3, "put b,f,w\r\n".toList),
    (3, "put c,f,xx\r\n".toList), (3, "get a,f\r\n".toList), (3, "cput c,f,xx,yyyy\r\n".toList)]
  have hrun : (match serveAll (fun _ => CommaFree) (fresh 10 true 9) requests with
      | .ok primary =>
          match followAll (fun _ => CommaFree) 4 (fresh 10 false 0) (primary.sentTo 9) with
          | .ok secondary => decide (primary.lru.chunkInfo .virtualMemory = [0, 14] ∧
              secondary.lru.chunkInfo .virtualMemory = [0, 8] ∧
              primary.lru.view "c".toList "f".toList = some "xx\r\n".toList ∧
              secondary.lru.view "c".toList "f".toList = some "yyyy\r\n".toList)
          | .error _ => false
      | .error _ => false) = true := by decide +kernel
  cases hprimary : serveAll (fun _ => CommaFree) (fresh 10 true 9) requests with
  | error fault => simp [hprimary] at hrun
  | ok primary =>
      cases hsecondary : followAll (fun _ => CommaFree) 4 (fresh 10 false 0) (primary.sentTo 9) with
      | error fault => simp [hprimary, hsecondary] at hrun
      | ok secondary =>
          simp only [hprimary, hsecondary, decide_eq_true_eq] at hrun
          obtain ⟨hinfo, hinfo', hview, hview'⟩ := hrun
          have hviews := hall requests primary secondary (runs_of_serveAll hprimary) (runs_of_followAll hsecondary)
            (not_filled_of_chunkInfo hinfo) (not_filled_of_chunkInfo hinfo') "c".toList "f".toList
          rw [hview, hview'] at hviews
          exact absurd hviews (by decide)

end Chunkserver

end PennCloud
