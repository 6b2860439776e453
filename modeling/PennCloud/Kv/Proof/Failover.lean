import PennCloud.Kv.Proof.Arguments
import PennCloud.Kv.Proof.Budget
import PennCloud.Kv.Proof.Counters
import PennCloud.Kv.Proof.Crash
import PennCloud.Kv.Proof.Replication
import PennCloud.Lib.Keyed

/-!
# A secondary that takes over

The primary sends again what it holds back in the order of the users, and for each user in the order of the numbers. So the secondary
may perform the writes of different users in another order than the primary, but never those of one user. At every moment, whatever
was lost on the way and however often it was started again, it holds for each user what the primary held at some earlier moment.
-/

namespace PennCloud

open LRUCache Std

namespace Store

variable {store store' base : Store} {op : Op} {line user : Str} {commFd seqNum : Int} {request : Request} {m : MsgPair}

/-- The write of a line is performed, whatever room there is. -/
def carryOut (store : Store) (line : Str) : Store :=
  match Chunkserver.requested line with
  | some request => store.apply (request 0 0)
  | none => store

/-- The store after some messages. -/
def afterMessages (base : Store) (messages : List MsgPair) : Store := messages.foldl (fun store m => store.carryOut m.msg) base

/-- The command finds what it is to work on. -/
def Succeeds (store : Store) : Op → Prop
  | .put _ _ _ _ _ => True
  | .get _ _ _ => True
  | .cput user filename oldValue _ _ _ => (store user)[filename]? = some oldValue
  | .dele user filename _ _ _ => (store user)[filename]?.isSome = true
  | .rename user oldFilename _ _ _ => (store user)[oldFilename]?.isSome = true

theorem apply_congr (huser : op.user = user) (h : store user = store' user) : store.apply op user = store'.apply op user := by
  subst huser
  cases op with
  | put user filename value commFd seqNum =>
      simp only [apply, Op.user, Function.update_self]
      rw [show store user = store' user from h]
  | get => exact h
  | cput user filename oldValue newValue commFd seqNum =>
      have hsame : store user = store' user := h
      simp only [apply, Op.user, hsame]
      split
      · simp only [Function.update_self]
      · exact h
  | dele user filename commFd seqNum isMigration =>
      simp only [apply, Op.user, Function.update_self]
      rw [show store user = store' user from h]
  | rename user oldFilename newFilename commFd seqNum =>
      have hsame : store user = store' user := h
      simp only [apply, Op.user, hsame]
      cases (store' user)[oldFilename]? with
      | none => exact hsame
      | some value => simp only [Function.update_self]

theorem Succeeds.congr (h : store.Succeeds op) (hsame : store op.user = store' op.user) : store'.Succeeds op := by
  cases op with
  | put => trivial
  | get => trivial
  | cput user filename oldValue newValue commFd seqNum =>
      have hfiles : store user = store' user := hsame
      rwa [Succeeds, ← hfiles]
  | dele user filename commFd seqNum isMigration =>
      have hfiles : store user = store' user := hsame
      rwa [Succeeds, ← hfiles]
  | rename user oldFilename newFilename commFd seqNum =>
      have hfiles : store user = store' user := hsame
      rwa [Succeeds, ← hfiles]

/-- Who is answered, and under which number, makes no difference. -/
theorem apply_request (h : Chunkserver.requested line = some request) (commFd seqNum : Int) :
    store.apply (request commFd seqNum) = store.carryOut line := by
  rw [carryOut, h]
  rcases Chunkserver.requested_cases h with ⟨_, _, _, rfl⟩ | ⟨_, _, _, _, rfl⟩ | ⟨_, _, rfl⟩ | ⟨_, _, _, rfl⟩
  all_goals rfl

theorem succeeds_request (h : Chunkserver.requested line = some request) (commFd seqNum commFd' seqNum' : Int) :
    store.Succeeds (request commFd seqNum) ↔ store.Succeeds (request commFd' seqNum') := by
  rcases Chunkserver.requested_cases h with ⟨_, _, _, rfl⟩ | ⟨_, _, _, _, rfl⟩ | ⟨_, _, rfl⟩ | ⟨_, _, _, rfl⟩
  all_goals rfl

/-- A secondary reports a write that finds what it is to work on. -/
theorem reply_of_succeeds (h : Chunkserver.requested line = some request) (hsucceeds : store.Succeeds (request commFd seqNum))
    (hseqNum : seqNum ≠ 0) :
    reply false store (request commFd seqNum) = [done (request commFd seqNum).user seqNum] := by
  rcases Chunkserver.requested_cases h with ⟨user, _, _, rfl⟩ | ⟨user, filename, oldValue, _, rfl⟩ | ⟨user, filename, rfl⟩ |
    ⟨user, filename, _, rfl⟩
  · rfl
  · have hfound : (store user)[filename]? = some oldValue := hsucceeds
    simp only [reply, hfound, if_true, Op.user, if_neg Bool.false_ne_true]
  · obtain ⟨value, hfound⟩ := Option.isSome_iff_exists.mp hsucceeds
    simp only [reply, hfound, Op.user, if_neg Bool.false_ne_true, if_pos hseqNum]
  · obtain ⟨value, hfound⟩ := Option.isSome_iff_exists.mp hsucceeds
    simp only [reply, hfound, Op.user, if_neg Bool.false_ne_true]

theorem afterMessages_concat (base : Store) (messages : List MsgPair) (m : MsgPair) :
    base.afterMessages (messages ++ [m]) = (base.afterMessages messages).carryOut m.msg := by
  rw [afterMessages, List.foldl_append, afterMessages]
  rfl

end Store

namespace Chunkserver

variable {s s' : Chunkserver} {line user buffer text : Str} {commFd seqNum : Int} {fuel : Nat} {request : Request} {m : MsgPair}

/-- The user whose files the line of a message changes. -/
def owner (m : MsgPair) : Option Str := (requested m.msg).map fun request => (request 0 0).user

theorem owner_eq (h : requested m.msg = some request) (commFd seqNum : Int) : owner m = some (request commFd seqNum).user := by
  rw [owner, h, Option.map_some, user_request h 0 0 commFd seqNum]

theorem local_carryOut : Keyed.Local owner fun (store : Store) m => store.carryOut m.msg where
  other store m user hne := by
    unfold Store.carryOut
    cases hrequested : requested m.msg with
    | none => rfl
    | some request =>
        apply Store.apply_of_ne
        rintro rfl
        exact hne (owner_eq hrequested 0 0)
  own store store' m user heq hsame := by
    unfold Store.carryOut
    cases hrequested : requested m.msg with
    | none => exact hsame
    | some request =>
        rw [owner_eq hrequested 0 0] at heq
        exact Store.apply_congr (Option.some.inj heq) hsame

/-- For each user the messages of that user count. -/
theorem afterMessages_congr {base : Store} {messages messages' : List MsgPair}
    (h : Keyed.only owner user messages = Keyed.only owner user messages') :
    base.afterMessages messages user = base.afterMessages messages' user :=
  local_carryOut.foldl_congr rfl h

/-! ### The user of a line -/

theorem takeFields_zero_notMem {k : Nat} {arguments first : Str} {others : List Str} (hk : k ≠ 0)
    (h : takeFields k arguments = first :: others) : ',' ∉ first := by
  have hfield := notMem_takeFields k arguments
  rw [h] at hfield
  exact hfield 0 (Nat.zero_lt_succ _) hk.symm

theorem takeFields_subset (k : Nat) (arguments : Str) : ∀ field ∈ takeFields k arguments, field ⊆ arguments := by
  induction k generalizing arguments with
  | zero =>
      intro field hfield
      obtain rfl := List.mem_singleton.mp hfield
      exact List.Subset.refl _
  | succ k ih =>
      rw [takeFields]
      cases hcut : Fields.cut ',' arguments with
      | none =>
          intro field hfield
          obtain rfl := List.mem_singleton.mp hfield
          exact List.Subset.refl _
      | some cut =>
          obtain ⟨first, rest⟩ := cut
          obtain ⟨rfl, -⟩ := Fields.cut_eq_some.mp hcut
          intro field hfield
          rcases List.mem_cons.mp hfield with rfl | hfield
          · exact List.subset_append_left _ _
          · intro c hc
            have hrest := ih rest field hfield hc
            simp [hrest]

theorem argumentsOf_subset {offset : Nat} {arguments : Str} (h : argumentsOf line offset = .ok arguments) : arguments ⊆ line := by
  rw [argumentsOf] at h
  split at h
  · cases h
  · obtain rfl := Except.ok.inj h
    exact List.drop_subset _ _

/-- The name of the user is the first field of the arguments: a part of the line without a comma. -/
theorem user_of_requested (h : requested line = some request) (commFd seqNum : Int) :
    ',' ∉ (request commFd seqNum).user ∧ (request commFd seqNum).user ⊆ line := by
  have hfirst {k : Nat} {offset : Nat} {arguments first : Str} {others : List Str} (hk : k ≠ 0)
      (harguments : argumentsOf line offset = .ok arguments) (hfields : takeFields k arguments = first :: others) :
      ',' ∉ first ∧ first ⊆ line := by
    refine ⟨takeFields_zero_notMem hk hfields, ?_⟩
    have hmem : first ∈ takeFields k arguments := by
      rw [hfields]
      exact List.mem_cons_self
    exact List.Subset.trans (takeFields_subset k arguments first hmem) (argumentsOf_subset harguments)
  obtain ⟨command, _, hrequest⟩ := requested_eq_some h
  rw [writeRequest] at hrequest
  split at hrequest
  · obtain ⟨arguments, harguments, hparsed⟩ := Run.bind_eq_ok.mp (Option.some.inj hrequest)
    split at hparsed
    · next hfields =>
        obtain rfl := Option.some.inj (Except.ok.inj hparsed)
        exact hfirst (Nat.succ_ne_zero _) harguments hfields
    · cases hparsed
  · split at hrequest
    · obtain ⟨arguments, harguments, hparsed⟩ := Run.bind_eq_ok.mp (Option.some.inj hrequest)
      split at hparsed
      · next hfields =>
          obtain rfl := Option.some.inj (Except.ok.inj hparsed)
          exact hfirst (Nat.succ_ne_zero _) harguments hfields
      · cases hparsed
    · split at hrequest
      · obtain ⟨arguments, harguments, hparsed⟩ := Run.bind_eq_ok.mp (Option.some.inj hrequest)
        split at hparsed
        · next hfields =>
            obtain rfl := Option.some.inj (Except.ok.inj hparsed)
            exact hfirst (Nat.succ_ne_zero _) harguments hfields
        · cases hparsed
      · split at hrequest
        · obtain ⟨arguments, harguments, hparsed⟩ := Run.bind_eq_ok.mp (Option.some.inj hrequest)
          split at hparsed
          · next hfields =>
              obtain rfl := Option.some.inj (Except.ok.inj hparsed)
              exact hfirst (Nat.succ_ne_zero _) harguments hfields
          · cases hparsed
        · cases hrequest

theorem isReport_done (user : Str) (seqNum : Int) : IsReport (Store.done user seqNum) := by
  unfold IsReport
  rw [done_eq]
  rfl

/-- A report of a write of a user is read as it was meant. -/
theorem worker_doneMessage (huser : ',' ∉ user) (hnul : '\x00' ∉ user) (hlow : 0 ≤ seqNum) (hhigh : seqNum ≤ intMax) :
    s.worker fuel commFd (Store.done user seqNum) = .ok (s.dropReported user seqNum) := by
  have htext : '\x00' ∉ Store.done user seqNum := by
    rw [done_eq]
    simp only [List.mem_append, List.mem_cons, not_or]
    exact ⟨by decide, hnul, by decide, notMem_toStr (by decide) (by decide), by decide⟩
  rw [worker_report (isReport_done user seqNum), cstr_of_notMem htext]
  apply handleSecondaryReport_done huser _ hhigh
  simp only [intMax]
  omega

/-! ### One write on a settled node -/

theorem filesOf_appendLog {lru : LRUCache} (h : lru.Settled) (line : Str) :
    (lru.act (.appendLog line)).Settled ∧ (lru.act (.appendLog line)).filesOf = lru.filesOf :=
  ⟨h.congr rfl rfl rfl rfl, funext fun _ => h.filesOf_eq rfl rfl rfl rfl⟩

theorem filesOf_send {lru : LRUCache} (h : lru.Settled) (fd : Int) (msg : Str) :
    (lru.send fd msg).Settled ∧ (lru.send fd msg).filesOf = lru.filesOf :=
  ⟨h.congr rfl rfl rfl rfl, funext fun _ => h.filesOf_eq rfl rfl rfl rfl⟩

/-- A write that has room does to the files of a settled node what it asks for, and is answered as such. -/
theorem exec_request (hs : s.lru.Settled) (hrequested : requested line = some request)
    (hroom : s.lru.HasRoom (request commFd seqNum)) {lru : LRUCache} (hexec : s.lru.exec fuel (request commFd seqNum) = .ok lru) :
    lru.Settled ∧ lru.filesOf = Store.carryOut s.lru.filesOf line ∧ lru.isPrimary = s.lru.isPrimary ∧
      lru.sent = s.lru.sent ++ (Store.reply s.lru.isPrimary s.lru.filesOf (request commFd seqNum)).map (commFd, ·) := by
  have hobeys := hs.obeys_of_exec hroom hexec
  refine ⟨hobeys.sets.settled, ?_, hobeys.sets.isPrimary, ?_⟩
  · rw [← Store.apply_request hrequested commFd seqNum]
    funext u
    rw [hobeys.sets.filesOf]
    split
    · next heq => rw [heq]
    · next hne => rw [Store.apply_of_ne (Ne.symm hne)]
  · rw [hobeys.sent, commFd_request hrequested]

theorem hasRoom_request {lru : LRUCache} (h : requested line = some request) (commFd seqNum commFd' seqNum' : Int) :
    lru.HasRoom (request commFd seqNum) ↔ lru.HasRoom (request commFd' seqNum') := by
  rcases requested_cases h with ⟨_, _, _, rfl⟩ | ⟨_, _, _, _, rfl⟩ | ⟨_, _, rfl⟩ | ⟨_, _, _, rfl⟩
  all_goals rfl

/-- What the primary has done when it has performed a write: its user has one more message, with the next number. -/
structure Forwarding (s : Chunkserver) (line user : Str) (t : Chunkserver) : Prop where
  settled : t.lru.Settled
  role : t.lru.isPrimary = true
  files : t.lru.filesOf = Store.carryOut s.lru.filesOf line
  small : IsInt (s.lastFor user + 1)
  last : ∀ u, t.lastFor u = if user = u then s.lastFor user + 1 else s.lastFor u
  held : ∀ u, t.heldFor u = if user = u then s.heldFor user ++ [.of (s.lastFor user + 1) line] else s.heldFor u
  sent : t.sentTo s.secondaryFd = s.sentTo s.secondaryFd ++ [messageText (.of (s.lastFor user + 1) line)]

theorem forwarding_of_perform (hs : s.lru.Settled) (hrole : s.lru.isPrimary = true) (hrequested : requested line = some request)
    (hroom : s.lru.HasRoom (request commFd seqNum)) (hne : commFd ≠ s.secondaryFd)
    (hrun : s.perform fuel line user true (request commFd seqNum) = .ok s') : Forwarding s line user s' := by
  obtain ⟨lru, hexec, hprimary, _⟩ := perform_ok hrun
  obtain ⟨hsettled, hfiles, hkeeps, _⟩ := exec_request hs hrequested hroom hexec
  obtain ⟨hsmall, hlru, _, hlast, hheld⟩ := sendToSecondary_ok (hprimary hrole)
  have hlogged := filesOf_appendLog hsettled line
  have hsent := filesOf_send hlogged.1 s.secondaryFd (messageText (.of (s.lastFor user + 1) line))
  have hlru' : s'.lru = (lru.act (.appendLog line)).send s.secondaryFd (messageText (.of (s.lastFor user + 1) line)) := hlru
  have hkept : ({ s with lru := lru } : Chunkserver).sentTo s.secondaryFd = s.sentTo s.secondaryFd := by
    have hanswers := answers_exec hexec
    rw [commFd_request hrequested] at hanswers
    exact sentTo_of_answers hanswers hne
  refine ⟨?_, ?_, ?_, hsmall, hlast, hheld, ?_⟩
  · rw [hlru']
    exact hsent.1
  · rw [hlru']
    exact hkeeps.trans hrole
  · rw [hlru', hsent.2, hlogged.2, hfiles]
  · rw [← hkept, sentTo, hlru']
    simp [sentTo, LRUCache.send, act]

theorem Forwarding.sendDone (h : Forwarding s line user s') (hne : commFd ≠ s.secondaryFd) :
    Forwarding s line user (s'.sendDone commFd) := by
  have hsent := filesOf_send h.settled commFd "!!!DONE!!!\r\n".toList
  refine ⟨hsent.1, h.role, hsent.2.trans h.files, h.small, h.last, h.held, ?_⟩
  calc
    (s'.sendDone commFd).sentTo s.secondaryFd = s'.sentTo s.secondaryFd := sentTo_send_of_ne hne
    _ = _ := h.sent

namespace Link

variable {l l' : Link} {base : Store} {performed executed : List MsgPair} {primary secondary : Chunkserver} {event : Event}

/-- What goes well in a step: a write on the primary finds what it is to work on, a value finds room on either node, the secondary
has evicted nobody when it is back, and greets a primary that holds back nothing it has applied. -/
def Succeeds (l : Link) : Event → Link → Prop
  | .request commFd buffer, _ => ∀ request, requested (cstr buffer) = some request →
      l.primary.lru.HasRoom (request commFd 0) ∧ Store.Succeeds l.primary.lru.filesOf (request commFd 0)
  | .apply, _ => ∀ text ∈ l.toSecondary.head?, ∀ seqNum line request, splitMessage (cstr text) = .ok (seqNum, line) →
      requested line = some request → l.secondary.lru.HasRoom (request 0 seqNum)
  | .report _, _ => True
  | .restart, l' => l'.secondary.lru.Settled
  | .greet _, _ => l.CaughtUp

/-- The primary has performed some messages, and the secondary the first ones of each user. What the secondary lacks is held back;
as long as they are connected it is on its way. -/
structure Mirrors (base : Store) (performed executed : List MsgPair) (l : Link) : Prop where
  primary : l.primary.lru.Settled
  secondary : l.secondary.lru.Settled
  leads : l.primary.lru.isPrimary = true
  follows : l.secondary.lru.isPrimary = false
  ahead : l.primary.lru.filesOf = base.afterMessages performed
  behind : l.secondary.lru.filesOf = base.afterMessages executed
  writes : ∀ m ∈ performed, '\x00' ∉ m.msg ∧ ∃ request, requested m.msg = some request
  succeeds : ∀ front m back, performed = front ++ m :: back → ∀ request, requested m.msg = some request →
    (base.afterMessages front).Succeeds (request 0 0)
  numbered : ∀ u, Outbox.Numbered MsgPair.sq (Keyed.only owner u performed)
  last : ∀ u, l.primary.lastFor u = (Keyed.only owner u performed).length
  small : ∀ u, l.primary.lastFor u ≤ intMax
  applied : ∀ u, ∀ m ∈ Keyed.only owner u executed, (u, m.sq) ∈ l.applied
  reports : ∀ text ∈ l.reports, ∃ u, ∃ m ∈ Keyed.only owner u executed, text = Store.done u m.sq
  lacking : ∀ u, ∃ rest, Keyed.only owner u performed = Keyed.only owner u executed ++ rest ∧ rest ⊆ l.primary.heldFor u
  held : ∀ u, (l.primary.heldFor u).Sublist (Keyed.only owner u performed)
  down : l.connected = false → l.toSecondary = []
  way : ∃ queue, queue ⊆ performed ∧ l.toSecondary = queue.map messageText ∧
    (l.connected = true → ∀ u, Keyed.only owner u performed = Keyed.only owner u executed ++ Keyed.only owner u queue)

theorem Mirrors.start (hprimary : primary.lru.Settled) (hsecondary : secondary.lru.Settled)
    (hleads : primary.lru.isPrimary = true) (hfollows : secondary.lru.isPrimary = false)
    (hsame : secondary.lru.filesOf = primary.lru.filesOf) (hheld : primary.primaryHoldback = ∅) (hlast : primary.seqNumRecords = ∅) :
    Mirrors primary.lru.filesOf [] [] (start primary secondary) where
  primary := hprimary
  secondary := hsecondary
  leads := hleads
  follows := hfollows
  ahead := rfl
  behind := hsame
  writes m hm := absurd hm List.not_mem_nil
  succeeds front m back heq := absurd heq (by simp)
  numbered u := Outbox.numbered_nil
  last u := by simp [Link.start, lastFor, hlast]
  small u := by simp [Link.start, lastFor, hlast, intMax]
  applied u m hm := absurd hm List.not_mem_nil
  reports text htext := absurd htext List.not_mem_nil
  lacking u := ⟨[], rfl, List.nil_subset _⟩
  held u := by simp [Link.start, heldFor, hheld]
  down _ := rfl
  way := ⟨[], List.nil_subset _, rfl, fun hup => by cases hup⟩

theorem Mirrors.sq_pos (h : Mirrors base performed executed l) (hm : m ∈ Keyed.only owner user performed) :
    1 ≤ m.sq ∧ m.sq ≤ intMax := by
  have hrange := (h.numbered user).mem_iff.mp ⟨m, hm, rfl⟩
  have hlast := h.last user
  have hsmall := h.small user
  omega

theorem Mirrors.mem_performed (h : Mirrors base performed executed l) (hm : m ∈ Keyed.only owner user executed) :
    m ∈ Keyed.only owner user performed := by
  obtain ⟨rest, hrest, _⟩ := h.lacking user
  rw [hrest]
  exact List.mem_append_left _ hm

/-- The name of a user that owns a message. -/
theorem Mirrors.named (h : Mirrors base performed executed l) (hm : m ∈ Keyed.only owner user performed) :
    ',' ∉ user ∧ '\x00' ∉ user := by
  obtain ⟨hmem, howner⟩ := Keyed.mem_only.mp hm
  obtain ⟨hnul, request, hrequested⟩ := h.writes m hmem
  rw [owner_eq hrequested 0 0] at howner
  obtain rfl := Option.some.inj howner
  obtain ⟨hcomma, hsubset⟩ := user_of_requested hrequested 0 0
  exact ⟨hcomma, fun hmem => hnul (hsubset hmem)⟩

/-- The primary performs one more write, and forwards it while the secondary is there. -/
theorem Mirrors.forward (h : Mirrors base performed executed l) (hnul : '\x00' ∉ line) (hrequested : requested line = some request)
    (hsucceeds : Store.Succeeds l.primary.lru.filesOf (request 0 0))
    (hforwarding : Forwarding l.primary line (request 0 0).user primary) :
    Mirrors base (performed ++ [.of (l.primary.lastFor (request 0 0).user + 1) line]) executed { l with
      primary := primary
      toSecondary := if l.connected then
        l.toSecondary ++ [messageText (.of (l.primary.lastFor (request 0 0).user + 1) line)] else l.toSecondary } := by
  obtain ⟨hsettled, hleads, hfiles, hroom, hlast, hheld, _⟩ := hforwarding
  generalize huser : (request 0 0).user = user at *
  generalize hm : MsgPair.of (l.primary.lastFor user + 1) line = m at *
  have hline : m.msg = line := by rw [← hm, MsgPair.of]
  have hsq : m.sq = l.primary.lastFor user + 1 := hm ▸ MsgPair.of_sq hroom line
  have howner : owner m = some user := by
    rw [← huser]
    exact owner_eq (hline ▸ hrequested) 0 0
  constructor
  case primary => exact hsettled
  case secondary => exact h.secondary
  case leads => exact hleads
  case follows => exact h.follows
  case ahead => rw [Store.afterMessages_concat, ← h.ahead, hline, hfiles]
  case behind => exact h.behind
  case writes =>
    intro m' hm'
    rcases List.mem_append.mp hm' with hm' | hm'
    · exact h.writes m' hm'
    · obtain rfl := List.mem_singleton.mp hm'
      exact hline ▸ ⟨hnul, request, hrequested⟩
  case succeeds =>
    intro front m' back hsplit request' hrequested'
    rcases List.eq_nil_or_concat back with rfl | ⟨back, last, rfl⟩
    · obtain ⟨rfl, hlast'⟩ := List.append_inj' hsplit rfl
      obtain rfl := List.singleton_inj.mp hlast'
      rw [hline] at hrequested'
      obtain rfl := Option.some.inj (hrequested.symm.trans hrequested')
      rwa [← h.ahead]
    · have hsplit' : performed ++ [m] = (front ++ m' :: back) ++ [last] := by simpa using hsplit
      obtain ⟨hfront, -⟩ := List.append_inj' hsplit' rfl
      exact h.succeeds front m' back hfront request' hrequested'
  case numbered =>
    intro u
    rw [Keyed.only_concat howner]
    split
    · next heq =>
        apply (h.numbered u).concat
        rw [hsq, heq, h.last]
    · exact h.numbered u
  case last =>
    intro u
    rw [Keyed.only_concat howner, hlast]
    split
    · next heq =>
        rw [List.length_append, List.length_singleton, heq, h.last]
        simp
    · exact h.last u
  case small =>
    intro u
    change primary.lastFor u ≤ intMax
    rw [hlast]
    split
    · exact hroom.2
    · exact h.small u
  case applied => exact h.applied
  case reports => exact h.reports
  case lacking =>
    intro u
    obtain ⟨rest, hrest, hsubset⟩ := h.lacking u
    change ∃ rest, _ ∧ rest ⊆ primary.heldFor u
    rw [Keyed.only_concat howner, hheld]
    split
    · next heq =>
        refine ⟨rest ++ [m], ?_, ?_⟩
        · rw [hrest, List.append_assoc]
        · rw [heq]
          apply List.append_subset.mpr
          exact ⟨fun m' hm' => List.mem_append_left _ (hsubset hm'), List.subset_append_right _ _⟩
    · exact ⟨rest, hrest, hsubset⟩
  case held =>
    intro u
    change (primary.heldFor u).Sublist _
    rw [Keyed.only_concat howner, hheld]
    split
    · next heq => exact heq ▸ (h.held user).append (List.Sublist.refl _)
    · exact h.held u
  case down =>
    intro hdown
    change l.connected = false at hdown
    simpa [hdown] using h.down hdown
  case way =>
    obtain ⟨queue, hqueue, htexts, hway⟩ := h.way
    cases hconnected : l.connected with
    | false =>
        refine ⟨queue, fun m' hm' => List.mem_append_left _ (hqueue hm'), ?_, fun hup => ?_⟩
        · simpa [hconnected] using htexts
        · cases hup
    | true =>
        refine ⟨queue ++ [m], ?_, ?_, fun _ u => ?_⟩
        · exact List.append_subset.mpr
            ⟨fun m' hm' => List.mem_append_left _ (hqueue hm'), List.subset_append_right _ _⟩
        · simp [htexts]
        · rw [Keyed.only_concat howner, Keyed.only_concat howner]
          split
          · rw [hway hconnected u, List.append_assoc]
          · exact hway hconnected u

/-- Nothing that the two have to say to each other is touched. -/
theorem Mirrors.of_eq (h : Mirrors base performed executed l) (hsettled : primary.lru.Settled)
    (hleads : primary.lru.isPrimary = l.primary.lru.isPrimary) (hfiles : primary.lru.filesOf = l.primary.lru.filesOf)
    (hnumbers : primary.seqNumRecords = l.primary.seqNumRecords) (hheld : primary.primaryHoldback = l.primary.primaryHoldback) :
    Mirrors base performed executed { l with primary := primary } := by
  have hlast (u : Str) : primary.lastFor u = l.primary.lastFor u := by rw [lastFor, lastFor, hnumbers]
  have hqueue (u : Str) : primary.heldFor u = l.primary.heldFor u := by rw [heldFor, heldFor, hheld]
  exact { h with
    primary := hsettled
    leads := hleads.trans h.leads
    ahead := hfiles.trans h.ahead
    last := fun u => (hlast u).trans (h.last u)
    small := fun u => (hlast u).trans_le (h.small u)
    lacking := fun u => by
      obtain ⟨rest, hrest, hsubset⟩ := h.lacking u
      exact ⟨rest, hrest, (hqueue u).symm ▸ hsubset⟩
    held := fun u => (hqueue u).symm ▸ h.held u }

theorem Mirrors.worker (h : Mirrors base performed executed l) (hstep : Step l (.request commFd buffer) l')
    (hsucceeds : l.Succeeds (.request commFd buffer) l') :
    ∃ performed', Mirrors base performed' executed l' ∧ (performed' = performed ∨ ∃ m, performed' = performed ++ [m]) := by
  cases hstep with
  | @request _ _ fuel primary texts hne hhandles hrun hsent =>
      rcases worker_ok hhandles hrun with ⟨request, t, hrequested, hperform, rfl⟩ |
        ⟨_, ⟨user, filename, lru, _, hexec, rfl⟩ | rfl⟩
      · obtain ⟨hroom, hfound⟩ := hsucceeds request hrequested
        have hforwarding := (forwarding_of_perform h.primary h.leads hrequested hroom hne hperform).sendDone hne
        rw [user_request hrequested commFd 0 0 0] at hforwarding
        obtain rfl : texts = _ := List.append_cancel_left (hsent.symm.trans hforwarding.sent)
        have hfound' := (Store.succeeds_request hrequested commFd 0 0 0).mp hfound
        exact ⟨_, h.forward (notMem_cstr buffer) hrequested hfound' hforwarding, Or.inr ⟨_, rfl⟩⟩
      · have hobeys := @Settled.obeys_of_exec _ _ _ (.get user filename commFd) h.primary trivial hexec
        obtain ⟨hdone, hdoneFiles⟩ := filesOf_send hobeys.sets.settled commFd "!!!DONE!!!\r\n".toList
        have hkept : lru.filesOf = l.primary.lru.filesOf := by
          funext u
          rw [hobeys.sets.filesOf]
          split
          · next heq => exact heq ▸ rfl
          · rfl
        have hnothing : texts = [] := by
          have hanswers : Answers l.primary.lru lru commFd := answers_exec hexec
          apply @List.append_cancel_left _ (l.primary.sentTo l.primary.secondaryFd)
          rw [← hsent, List.append_nil]
          exact (sentTo_send_of_ne hne).trans (sentTo_of_answers hanswers hne)
        subst hnothing
        refine ⟨performed, ?_, Or.inl rfl⟩
        have hread := @Mirrors.of_eq _ _ _ _ (({ l.primary with lru := lru } : Chunkserver).sendDone commFd) h hdone
          hobeys.sets.isPrimary (hdoneFiles.trans hkept) rfl rfl
        simpa using hread
      · have hnothing : texts = [] := by
          apply @List.append_cancel_left _ (l.primary.sentTo l.primary.secondaryFd)
          rw [← hsent, List.append_nil]
          exact (sentTo_send_of_ne hne).trans (sentTo_send_of_ne hne)
        subst hnothing
        refine ⟨performed, ?_, Or.inl rfl⟩
        obtain ⟨herror, herrorFiles⟩ := filesOf_send h.primary commFd "-ERR Not supported\r\n".toList
        obtain ⟨hdone, hdoneFiles⟩ := filesOf_send herror commFd "!!!DONE!!!\r\n".toList
        have hread := @Mirrors.of_eq _ _ _ _ ((l.primary.error commFd).sendDone commFd) h hdone rfl (hdoneFiles.trans herrorFiles) rfl rfl
        simpa using hread

/-- A message that is next for its user finds on the secondary what the primary found. -/
theorem Mirrors.succeeds_next (h : Mirrors base performed executed l) {back : List MsgPair}
    (hnext : Keyed.only owner user performed = Keyed.only owner user executed ++ m :: back) (hrequested : requested m.msg = some request) :
    Store.Succeeds l.secondary.lru.filesOf (request 0 0) := by
  obtain ⟨before, after, hsplit, hbefore⟩ := Keyed.exists_split hnext
  have hfound := h.succeeds before m after hsplit request hrequested
  have howner : owner m = some user := by
    have hmem : m ∈ Keyed.only owner user performed := by simp [hnext]
    exact (Keyed.mem_only.mp hmem).2
  rw [owner_eq hrequested 0 0] at howner
  obtain rfl := Option.some.inj howner
  apply hfound.congr
  rw [h.behind]
  exact afterMessages_congr hbefore

/-- A message of which the secondary finds what it is to work on is performed and reported. -/
theorem psWorker_succeeds {s t : Chunkserver} {sockFd : Int} (hs : s.lru.Settled) (hfollows : s.lru.isPrimary = false)
    (hnul : '\x00' ∉ m.msg) (hrequested : requested m.msg = some request) (hroom : s.lru.HasRoom (request sockFd m.sq))
    (hfound : Store.Succeeds s.lru.filesOf (request sockFd m.sq)) (hsq : m.sq ≠ 0)
    (hrun : s.psWorker fuel sockFd (messageText m) = .ok t) :
    t.lru.Settled ∧ t.lru.isPrimary = false ∧ t.lru.filesOf = Store.carryOut s.lru.filesOf m.msg ∧
      t.sentTo sockFd = s.sentTo sockFd ++ [Store.done (request sockFd m.sq).user m.sq] := by
  rw [psWorker_eq hnul hrequested] at hrun
  obtain ⟨lru, hexec, _, hsecondary⟩ := perform_ok hrun
  obtain rfl := hsecondary hfollows
  obtain ⟨hsettled, hfiles, hrole, hsent⟩ := exec_request hs hrequested hroom hexec
  have hlogged := filesOf_appendLog hsettled m.msg
  rw [hfollows, Store.reply_of_succeeds hrequested hfound hsq, List.map_singleton] at hsent
  refine ⟨hlogged.1, hrole.trans hfollows, hlogged.2.trans hfiles, ?_⟩
  rw [sentTo]
  change (lru.sent.filter (·.1 = sockFd)).map Prod.snd = _
  rw [hsent]
  simp [sentTo]

/-- The secondary performs the message that has come first, and reports it. -/
theorem Mirrors.psWorker (h : Mirrors base performed executed l) (hstep : Step l .apply l') (hsucceeds : l.Succeeds .apply l') :
    ∃ m, Mirrors base performed (executed ++ [m]) l' := by
  cases hstep with
  | @apply sockFd fuel text rest replies secondary htext hrun hreplies =>
      obtain ⟨queue, hqueue, htexts, hway⟩ := h.way
      obtain ⟨m, queue, rfl, rfl, rfl⟩ := List.map_eq_cons_iff.mp (htexts.symm.trans htext)
      have hconnected : l.connected = true := by
        by_contra hdown
        have hnone := h.down (Bool.not_eq_true _ ▸ hdown)
        rw [htext] at hnone
        cases hnone
      obtain ⟨hnul, request, hrequested⟩ := h.writes m (hqueue List.mem_cons_self)
      have howner : owner m = some (request sockFd m.sq).user := owner_eq hrequested sockFd m.sq
      generalize huser : (request sockFd m.sq).user = user at *
      have hnext : Keyed.only owner user performed = Keyed.only owner user executed ++ m :: Keyed.only owner user queue := by
        rw [hway hconnected user, Keyed.only_cons_of_pos howner]
      have hmem : m ∈ Keyed.only owner user performed := by simp [hnext]
      have hsq := h.sq_pos hmem
      have hsplit : splitMessage (cstr (messageText m)) = .ok (m.sq, m.msg) := by
        rw [cstr_of_notMem (notMem_messageText hnul), splitMessage_messageText]
      have hroom : l.secondary.lru.HasRoom (request sockFd m.sq) := by
        rw [hasRoom_request hrequested sockFd m.sq 0 m.sq]
        exact hsucceeds (messageText m) (by rw [htext]; rfl) m.sq m.msg request hsplit hrequested
      have hfound := (Store.succeeds_request hrequested 0 0 sockFd m.sq).mp (h.succeeds_next hnext hrequested)
      obtain ⟨hsettled, hrole, hfiles, hsent⟩ := psWorker_succeeds h.secondary h.follows hnul hrequested hroom hfound (by omega) hrun
      rw [huser] at hsent
      have hreply : replies = [Store.done user m.sq] := List.append_cancel_left (hreplies.symm.trans hsent)
      have hreported : replies.filter (IsReport ·) = [Store.done user m.sq] := by
        rw [hreply, List.filter_singleton, decide_eq_true (isReport_done user m.sq), Bool.cond_true]
      have happlied : (if replies.any (IsReport ·) then (writeOf (messageText m)).toList else []) = [(user, m.sq)] := by
        have hwrite : writeOf (messageText m) = some (user, m.sq) := huser ▸ writeOf_messageText hnul hrequested
        rw [hreply, List.any_cons, decide_eq_true (isReport_done user m.sq), Bool.true_or, if_pos rfl, hwrite, Option.toList_some]
      refine ⟨m, ?_⟩
      rw [hreported, happlied]
      exact { h with
        secondary := hsettled
        follows := hrole
        behind := by rw [hfiles, Store.afterMessages_concat, h.behind]
        applied := fun u m' hm' => by
          rw [Keyed.only_concat howner] at hm'
          split at hm'
          · next heq =>
              rcases List.mem_append.mp hm' with hm' | hm'
              · exact List.mem_append_left _ (h.applied u m' hm')
              · obtain rfl := List.mem_singleton.mp hm'
                rw [heq]
                exact List.mem_append_right _ (List.mem_singleton_self _)
          · exact List.mem_append_left _ (h.applied u m' hm')
        reports := fun text htext => by
          rcases List.mem_append.mp htext with htext | htext
          · obtain ⟨u, m', hm', rfl⟩ := h.reports text htext
            refine ⟨u, m', ?_, rfl⟩
            rw [Keyed.only_append]
            exact List.mem_append_left _ hm'
          · obtain rfl := List.mem_singleton.mp htext
            refine ⟨user, m, ?_, rfl⟩
            rw [Keyed.only_concat howner, if_pos rfl]
            exact List.mem_append_right _ (List.mem_singleton_self m)
        lacking := fun u => by
          obtain ⟨rest, hrest, hsubset⟩ := h.lacking u
          rw [Keyed.only_concat howner]
          split
          · next heq =>
              subst heq
              obtain rfl : rest = m :: Keyed.only owner user queue := List.append_cancel_left (hrest.symm.trans hnext)
              refine ⟨Keyed.only owner user queue, ?_, List.Subset.trans (List.subset_cons_self _ _) hsubset⟩
              rw [hnext, List.append_assoc, List.singleton_append]
          · exact ⟨rest, hrest, hsubset⟩
        down := fun hdown => absurd (hconnected.symm.trans hdown) (by decide)
        way := by
          refine ⟨queue, fun m' hm' => hqueue (List.mem_cons_of_mem _ hm'), rfl, fun _ u => ?_⟩
          rw [Keyed.only_concat howner]
          split
          · next heq => rw [← heq, hnext, List.append_assoc, List.singleton_append]
          · next hne =>
              rw [hway hconnected u, Keyed.only_cons_of_neg]
              rw [howner]
              exact fun heq => hne (Option.some.inj heq) }

theorem Mirrors.nodup (h : Mirrors base performed executed l) (u : Str) : (Keyed.only owner u performed).Nodup :=
  (h.numbered u).increasing.imp fun hlt heq => by
    rw [heq] at hlt
    omega

/-- What has been reported is held back no longer. -/
theorem Mirrors.report (h : Mirrors base performed executed l) (hstep : Step l (.report text) l') : Mirrors base performed executed l' := by
  cases hstep with
  | @report commFd fuel _ primary hmem hrun =>
      obtain ⟨user, m, hm, rfl⟩ := h.reports text hmem
      have hperformed := h.mem_performed hm
      obtain ⟨hcomma, hnul⟩ := h.named hperformed
      obtain ⟨hpos, hhigh⟩ := h.sq_pos hperformed
      rw [worker_doneMessage hcomma hnul (by omega) hhigh] at hrun
      obtain rfl := Except.ok.inj hrun
      exact { h with
        reports := fun text htext => h.reports text (List.mem_of_mem_erase htext)
        lacking := fun u => by
          obtain ⟨rest, hrest, hsubset⟩ := h.lacking u
          refine ⟨rest, hrest, fun m' hm' => ?_⟩
          change m' ∈ (l.primary.dropReported user m.sq).heldFor u
          rw [heldFor_dropReported]
          split
          · next heq =>
              subst heq
              -- What the secondary lacks has a higher number than what it has performed.
              have hincreasing := (h.numbered user).increasing
              rw [hrest, List.pairwise_append] at hincreasing
              have hlt := hincreasing.2.2 m hm m' hm'
              exact List.mem_filter.mpr ⟨hsubset hm', by simp; omega⟩
          · exact hsubset hm'
        held := fun u => by
          change ((l.primary.dropReported user m.sq).heldFor u).Sublist _
          rw [heldFor_dropReported]
          split
          · next heq => exact heq ▸ List.filter_sublist.trans (h.held user)
          · exact h.held u }

/-- A secondary that comes back has what it had; what was on its way is lost. -/
theorem Mirrors.restart (h : Mirrors base performed executed l) (hstep : Step l .restart l') (hsucceeds : l.Succeeds .restart l') :
    Mirrors base performed executed l' := by
  cases hstep with
  | @restart secondary reports hview hlog hrole hreports =>
      exact { h with
        secondary := hsucceeds
        follows := hrole.trans h.follows
        behind := by
          rw [← h.behind]
          ext user : 1
          apply ExtTreeMap.ext_getElem?
          exact fun filename => hview user filename
        reports := fun text htext => h.reports text (hreports.subset htext)
        down := fun _ => rfl
        way := ⟨[], List.nil_subset _, rfl, fun hup => by cases hup⟩ }

/-- What is held back and has not been applied is what the secondary lacks. -/
theorem Mirrors.held_eq (h : Mirrors base performed executed l) (hcaught : l.CaughtUp) {rest : List MsgPair}
    (hrest : Keyed.only owner user performed = Keyed.only owner user executed ++ rest) (hsubset : rest ⊆ l.primary.heldFor user) :
    l.primary.heldFor user = rest := by
  have hheld := h.held user
  rw [hrest] at hheld
  obtain ⟨front, back, heq, hfront, hback⟩ := List.sublist_append_iff.mp hheld
  obtain rfl : front = [] := by
    rw [List.eq_nil_iff_forall_not_mem]
    intro m hm
    have hmem : m ∈ l.primary.heldFor user := heq ▸ List.mem_append_left _ hm
    exact hcaught user m hmem (h.applied user m (hfront.subset hm))
  rw [List.nil_append] at heq
  rw [heq] at hsubset ⊢
  have hnodup := h.nodup user
  rw [hrest, List.nodup_append] at hnodup
  exact hback.eq_of_length_le (List.subperm_of_subset hnodup.2.1 hsubset).length_le

/-- Everything that the secondary lacks is sent again, for each user in order. -/
theorem Mirrors.greet (h : Mirrors base performed executed l) (hstep : Step l (.greet commFd) l')
    (hsucceeds : l.Succeeds (.greet commFd) l') : Mirrors base performed executed l' := by
  cases hstep with
  | @greet _ fuel primary texts hdown hrun hsent =>
      rw [worker_greeting] at hrun
      obtain rfl := Except.ok.inj hrun
      have htexts : texts = l.primary.heldMessages.map messageText :=
        List.append_cancel_left (hsent.symm.trans sentTo_checkPrimaryHoldback)
      have howned (u : Str) : ∀ m ∈ l.primary.heldFor u, owner m = some u := fun m hm =>
        (Keyed.mem_only.mp ((h.held u).subset hm)).2
      have hqueue : l.primary.heldMessages ⊆ performed := by
        intro m hm
        rw [heldMessages_eq] at hm
        obtain ⟨u, _, hm⟩ := List.mem_flatMap.mp hm
        exact (Keyed.mem_only.mp ((h.held u).subset hm)).1
      have hevery (u : Str) : Keyed.only owner u l.primary.heldMessages = l.primary.heldFor u := by
        rw [heldMessages_eq, Keyed.only_flatMap ExtTreeMap.nodup_keys howned]
        split
        · rfl
        · next hnone =>
            rw [ExtTreeMap.mem_keys] at hnone
            rw [heldFor, ExtTreeMap.getD_eq_fallback hnone]
      rw [checkPrimaryHoldback_eq]
      have hfiles : ∀ sent, ({ l.primary.lru with sent := sent } : LRUCache).Settled ∧
          ({ l.primary.lru with sent := sent } : LRUCache).filesOf = l.primary.lru.filesOf := fun sent =>
        ⟨h.primary.congr rfl rfl rfl rfl, funext fun _ => h.primary.filesOf_eq rfl rfl rfl rfl⟩
      exact { h with
        primary := (hfiles _).1
        ahead := (hfiles _).2.trans h.ahead
        down := fun hup => by cases hup
        way := by
          refine ⟨l.primary.heldMessages, hqueue, htexts, fun _ u => ?_⟩
          obtain ⟨rest, hrest, hsubset⟩ := h.lacking u
          rw [hevery, h.held_eq hsucceeds hrest hsubset, hrest] }

/-- **One step.** The primary performs one message more, or the secondary does, or neither. -/
theorem Mirrors.step (h : Mirrors base performed executed l) (hstep : Step l event l') (hsucceeds : l.Succeeds event l') :
    ∃ performed' executed', Mirrors base performed' executed' l' ∧ (performed' = performed ∨ ∃ m, performed' = performed ++ [m]) := by
  cases event with
  | request commFd buffer =>
      obtain ⟨performed', h', hperformed⟩ := h.worker hstep hsucceeds
      exact ⟨performed', executed, h', hperformed⟩
  | apply =>
      obtain ⟨m, h'⟩ := h.psWorker hstep hsucceeds
      exact ⟨performed, executed ++ [m], h', Or.inl rfl⟩
  | report text => exact ⟨performed, executed, h.report hstep, Or.inl rfl⟩
  | restart => exact ⟨performed, executed, h.restart hstep hsucceeds, Or.inl rfl⟩
  | greet commFd => exact ⟨performed, executed, h.greet hstep hsucceeds, Or.inl rfl⟩

/-- A step that goes well. -/
def Keeps (l : Link) (event : Event) (l' : Link) : Prop := Step l event l' ∧ l.Succeeds event l'

/-- What the first messages make of the files is what the primary held at some moment of the run. -/
def Remembers (primary secondary : Chunkserver) (performed : List MsgPair) (events : List Event) (l : Link) : Prop :=
  ∀ n, ∃ past rest mid, past ++ rest = events ∧ Run.Runs Keeps (Link.start primary secondary) past mid ∧ Run.Runs Keeps mid rest l ∧
    mid.primary.lru.filesOf = Store.afterMessages primary.lru.filesOf (performed.take n)

theorem Remembers.snoc {events : List Event} (h : Remembers primary secondary performed events l) (hstep : Keeps l event l') :
    Remembers primary secondary performed (events ++ [event]) l' := by
  intro n
  obtain ⟨past, rest, mid, rfl, hmid, hrest, hfiles⟩ := h n
  exact ⟨past, rest ++ [event], mid, (List.append_assoc ..).symm, hmid, hrest.snoc hstep, hfiles⟩

/-- **The secondary is never wrong, only late.** In every run whose steps go well, over requests, lost messages, reports, restarts
and greetings in any order, the secondary holds for each user what the primary held for that user at some moment of the run. It holds
what the primary holds now for every user of whom nothing is held back, and for all users when they are connected and nothing is on
its way. -/
theorem filesOf_of_run {events : List Event} (hprimary : primary.lru.Settled) (hsecondary : secondary.lru.Settled)
    (hleads : primary.lru.isPrimary = true) (hfollows : secondary.lru.isPrimary = false)
    (hsame : secondary.lru.filesOf = primary.lru.filesOf) (hheld : primary.primaryHoldback = ∅) (hlast : primary.seqNumRecords = ∅)
    (hrun : Run.Runs Keeps (start primary secondary) events l) :
    (∀ user, ∃ past rest mid, past ++ rest = events ∧ Run.Runs Keeps (start primary secondary) past mid ∧ Run.Runs Keeps mid rest l ∧
      l.secondary.lru.filesOf user = mid.primary.lru.filesOf user) ∧
    (∀ user, l.primary.heldFor user = [] → l.secondary.lru.filesOf user = l.primary.lru.filesOf user) ∧
    (l.connected = true → l.toSecondary = [] → l.secondary.lru.filesOf = l.primary.lru.filesOf) := by
  obtain ⟨performed, executed, h, _, hpast⟩ : ∃ performed executed, Mirrors primary.lru.filesOf performed executed l ∧
      Run.Runs Keeps (start primary secondary) events l ∧ Remembers primary secondary performed events l := by
    refine hrun.invariant (P := fun events l => ∃ performed executed, Mirrors primary.lru.filesOf performed executed l ∧
      Run.Runs Keeps (start primary secondary) events l ∧ Remembers primary secondary performed events l) ?_ ?_
    · refine ⟨[], [], .start hprimary hsecondary hleads hfollows hsame hheld hlast, .nil, fun n => ?_⟩
      exact ⟨[], [], _, rfl, .nil, .nil, by rw [List.take_nil]; rfl⟩
    · rintro events l event l' ⟨performed, executed, h, hbefore, hpast⟩ ⟨hstep, hsucceeds⟩
      obtain ⟨performed', executed', h', hperformed⟩ := h.step hstep hsucceeds
      have hafter := hbefore.snoc ⟨hstep, hsucceeds⟩
      have hlater := hpast.snoc ⟨hstep, hsucceeds⟩
      refine ⟨performed', executed', h', hafter, ?_⟩
      rcases hperformed with rfl | ⟨m, rfl⟩
      · exact hlater
      · intro n
        by_cases hn : n ≤ performed.length
        · rw [List.take_append_of_le_length hn]
          exact hlater n
        · refine ⟨_, [], l', List.append_nil _, hafter, .nil, ?_⟩
          rw [List.take_of_length_le (by simp; omega), h'.ahead]
  refine ⟨fun user => ?_, fun user hnone => ?_, fun hup hempty => ?_⟩
  · obtain ⟨rest, hrest, _⟩ := h.lacking user
    obtain ⟨n, hn⟩ := Keyed.exists_take (show _ <+: Keyed.only owner user performed from ⟨rest, hrest.symm⟩)
    obtain ⟨past, rest, mid, hevents, hmid, hrest, hfiles⟩ := hpast n
    refine ⟨past, rest, mid, hevents, hmid, hrest, ?_⟩
    rw [hfiles, h.behind]
    exact afterMessages_congr hn.symm
  · obtain ⟨rest, hrest, hsubset⟩ := h.lacking user
    rw [hnone, List.subset_nil] at hsubset
    rw [h.behind, h.ahead]
    apply afterMessages_congr
    rw [hrest, hsubset, List.append_nil]
  · obtain ⟨queue, _, htexts, hway⟩ := h.way
    obtain rfl : queue = [] := List.map_eq_nil_iff.mp (htexts.symm.trans hempty)
    rw [h.behind, h.ahead]
    funext user
    apply afterMessages_congr
    rw [hway hup user, Keyed.only_nil, List.append_nil]

/-! ### A run with a loss -/

instance (store : Store) : (op : Op) → Decidable (store.Succeeds op)
  | .put _ _ _ _ _ => isTrue trivial
  | .get _ _ _ => isTrue trivial
  | .cput _ _ _ _ _ _ => inferInstanceAs (Decidable (_ = _))
  | .dele _ _ _ _ _ => inferInstanceAs (Decidable (_ = true))
  | .rename _ _ _ _ _ => inferInstanceAs (Decidable (_ = true))

/-- What is new on a descriptor. -/
def newTo (fd : Int) (before after : Chunkserver) : List Str := (after.sentTo fd).drop (before.sentTo fd).length

def provided (l : Link) (condition : Prop) [Decidable condition] : Except Fault Link :=
  if condition then .ok l else .error .exited

theorem provided_ok {condition : Prop} [Decidable condition] (h : l.provided condition = .ok l') : condition ∧ l = l' := by
  unfold provided at h
  split at h
  · next hcondition => exact ⟨hcondition, Except.ok.inj h⟩
  · cases h

/-- One event, if it goes well; a restart is left out. -/
def attempt (l : Link) : Event → Except Fault Link
  | .request commFd buffer =>
      l.primary.worker 3 commFd buffer >>= fun primary =>
        let texts := newTo l.primary.secondaryFd l.primary primary
        provided
          { l with primary := primary, toSecondary := if l.connected then l.toSecondary ++ texts else l.toSecondary }
          (commFd ≠ l.primary.secondaryFd ∧ Handles (cstr buffer) ∧
            primary.sentTo l.primary.secondaryFd = l.primary.sentTo l.primary.secondaryFd ++ texts ∧
            ∀ request ∈ requested (cstr buffer),
              l.primary.lru.HasRoom (request commFd 0) ∧ Store.Succeeds l.primary.lru.filesOf (request commFd 0))
  | .apply =>
      match l.toSecondary with
      | [] => .error .exited
      | text :: rest =>
          l.secondary.psWorker 3 0 text >>= fun secondary => splitMessage (cstr text) >>= fun message =>
            let replies := newTo 0 l.secondary secondary
            provided
              { l with
                secondary := secondary, toSecondary := rest, reports := l.reports ++ replies.filter (IsReport ·)
                applied := l.applied ++ if replies.any (IsReport ·) then (writeOf text).toList else [] }
              (secondary.sentTo 0 = l.secondary.sentTo 0 ++ replies ∧
                ∀ request ∈ requested message.2, l.secondary.lru.HasRoom (request 0 message.1))
  | .report text =>
      l.primary.worker 3 0 text >>= fun primary =>
        provided { l with primary := primary, reports := l.reports.erase text } (l.reports.contains text = true)
  | .restart => .error .exited
  | .greet commFd =>
      l.primary.worker 3 commFd "S\r\n".toList >>= fun primary =>
        let texts := newTo commFd l.primary primary
        provided { l with primary := primary, connected := true, toSecondary := texts }
          (l.connected = false ∧ primary.sentTo commFd = l.primary.sentTo commFd ++ texts ∧
            ∀ entry ∈ l.primary.primaryHoldback.toList, ∀ m ∈ entry.2, (entry.1, m.sq) ∉ l.applied)

theorem keeps_of_attempt (hrun : l.attempt event = .ok l') : Keeps l event l' := by
  cases event with
  | request commFd buffer =>
      obtain ⟨primary, hworker, hrun⟩ := Run.bind_eq_ok.mp hrun
      obtain ⟨⟨hne, hhandles, hsent, hsucceeds⟩, rfl⟩ := provided_ok hrun
      exact ⟨.request hne hhandles hworker hsent, hsucceeds⟩
  | apply =>
      rw [attempt] at hrun
      split at hrun
      · cases hrun
      · next text rest htext =>
          obtain ⟨secondary, hworker, hrun⟩ := Run.bind_eq_ok.mp hrun
          obtain ⟨message, hsplit, hrun⟩ := Run.bind_eq_ok.mp hrun
          obtain ⟨⟨hreplies, hroom⟩, rfl⟩ := provided_ok hrun
          refine ⟨.apply htext hworker hreplies, fun text' htext' seqNum line request hsplit' hrequested => ?_⟩
          rw [htext] at htext'
          obtain rfl := Option.some.inj htext'
          obtain rfl := Except.ok.inj (hsplit.symm.trans hsplit')
          exact hroom request hrequested
  | report text =>
      obtain ⟨primary, hworker, hrun⟩ := Run.bind_eq_ok.mp hrun
      obtain ⟨hmem, rfl⟩ := provided_ok hrun
      exact ⟨.report (List.contains_iff_mem.mp hmem) hworker, trivial⟩
  | restart => cases hrun
  | greet commFd =>
      obtain ⟨primary, hworker, hrun⟩ := Run.bind_eq_ok.mp hrun
      obtain ⟨⟨hdown, hsent, hcaught⟩, rfl⟩ := provided_ok hrun
      exact ⟨.greet hdown hworker hsent, caughtUp_of_entries hcaught⟩

/-- A message is lost with the connection, and sent again with another before it. -/
theorem filesOf_of_run_loss :
    let before : List Event := [.greet 9, .request 3 "put v,g,b\r\n".toList]
    let after : List Event := [.request 4 "put u,f,a\r\n".toList, .greet 8, .apply, .report "DONE u,1\r\n".toList,
      .request 3 "cput v,g,b,c\r\n".toList]
    ∃ l : Link, Run.Runs Keeps (start (fresh 100 true 9) (fresh 100 false 0)) (before ++ .restart :: after) l ∧
      l.primary.heldFor "u".toList = [] ∧ l.toSecondary.length = 2 ∧
      (∀ user, ∃ past rest mid, past ++ rest = before ++ .restart :: after ∧
        Run.Runs Keeps (start (fresh 100 true 9) (fresh 100 false 0)) past mid ∧ Run.Runs Keeps mid rest l ∧
          l.secondary.lru.filesOf user = mid.primary.lru.filesOf user) ∧
      (∀ user, l.primary.heldFor user = [] → l.secondary.lru.filesOf user = l.primary.lru.filesOf user) ∧
      (l.connected = true → l.toSecondary = [] → l.secondary.lru.filesOf = l.primary.lru.filesOf) := by
  intro before after
  have hends : (before.foldlM attempt (start (fresh 100 true 9) (fresh 100 false 0)) >>= fun l =>
      after.foldlM attempt { l with secondary := fresh 100 false 0, connected := false, toSecondary := [], reports := [] }).toOption.any
        (fun l => l.primary.heldFor "u".toList = [] ∧ l.toSecondary.length = 2) = true := by
    decide +kernel
  have hsettled (isPrimary : Bool) : (LRUCache.fresh 100 isPrimary).Settled := ⟨wired_init, fun u => ExtTreeMap.getElem?_empty⟩
  cases hbefore : before.foldlM attempt (start (fresh 100 true 9) (fresh 100 false 0)) with
  | error fault => exact absurd hends (by rw [hbefore]; exact Bool.false_ne_true)
  | ok mid =>
      rw [hbefore, Run.ok_bind] at hends
      cases hafter : after.foldlM attempt { mid with
          secondary := fresh 100 false 0, connected := false, toSecondary := [], reports := [] } with
      | error fault => exact absurd hends (by rw [hafter]; exact Bool.false_ne_true)
      | ok l =>
          rw [hafter] at hends
          obtain ⟨hheld, hlength⟩ : l.primary.heldFor "u".toList = [] ∧ l.toSecondary.length = 2 := of_decide_eq_true hends
          have hfirst : Run.Runs Keeps (start (fresh 100 true 9) (fresh 100 false 0)) before mid :=
            .of_foldlM (fun _ _ _ _ => keeps_of_attempt) hbefore
          have hsame : mid.secondary = fresh 100 false 0 := by
            refine Run.foldlM_invariant (P := fun l => l.secondary = fresh 100 false 0) (fun l event l' hevent hl hrun => ?_) rfl hbefore
            have hstep := (keeps_of_attempt hrun).1
            rcases List.mem_pair.mp hevent with rfl | rfl
            · cases hstep
              exact hl
            · cases hstep
              exact hl
          have hrestart : Keeps mid .restart { mid with
              secondary := fresh 100 false 0, connected := false, toSecondary := [], reports := [] } :=
            ⟨.restart (fun _ _ => by rw [hsame]) (by rw [hsame]) (by rw [hsame]) (List.nil_sublist _), hsettled false⟩
          have hlast := Run.Runs.of_foldlM (fun _ _ _ _ => keeps_of_attempt) hafter
          have hrun := hfirst.append (hlast.cons hrestart)
          exact ⟨l, hrun, hheld, hlength, filesOf_of_run (hsettled true) (hsettled false) rfl rfl rfl rfl rfl hrun⟩

end Link

end Chunkserver

end PennCloud
