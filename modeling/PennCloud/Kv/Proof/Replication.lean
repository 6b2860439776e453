import PennCloud.Kv.Proof.Convergence

/-!
# Replication across restarts

The secondary does not compare the number of a message with those it has seen. A write is performed once
as long as the primary no longer holds it back when a greeting makes it send again.
-/

namespace PennCloud.Chunkserver

open LRUCache Std

variable {s s' : Chunkserver} {user line buffer text : Str} {commFd seqNum : Int} {fuel : Nat} {request : Request}
  {writes : List (Str × Int)}

/-! ### The numbers in use -/

/-- The write that a message carries: its user and its number. -/
def writeOf (text : Str) : Option (Str × Int) :=
  match splitMessage (cstr text) with
  | .ok (seqNum, line) => (requested line).map fun request => ((request 0 seqNum).user, seqNum)
  | .error _ => none

theorem user_request (h : requested line = some request) (commFd seqNum commFd' seqNum' : Int) :
    (request commFd seqNum).user = (request commFd' seqNum').user := by
  rcases requested_cases h with ⟨_, _, _, rfl⟩ | ⟨_, _, _, _, rfl⟩ | ⟨_, _, rfl⟩ | ⟨_, _, _, rfl⟩
  all_goals rfl

theorem writeOf_messageText {m : MsgPair} (hmsg : '\x00' ∉ m.msg) (hrequested : requested m.msg = some request) :
    writeOf (messageText m) = some ((request commFd seqNum).user, m.sq) := by
  rw [writeOf, cstr_of_notMem (notMem_messageText hmsg), splitMessage_messageText]
  simp only [hrequested, Option.map_some, user_request hrequested 0 m.sq commFd seqNum]

/-- The writes on their way to the secondary or performed there are different, and what the primary holds
back for a user has increasing numbers, none of them above its record. -/
structure Ledger (s : Chunkserver) (writes : List (Str × Int)) : Prop where
  role : s.lru.isPrimary = true
  nodup : writes.Nodup
  small : ∀ w ∈ writes, w.2 ≤ s.lastFor w.1
  heldSmall : ∀ u, ∀ m ∈ s.heldFor u, m.sq ≤ s.lastFor u
  increasing : ∀ u, (s.heldFor u).Pairwise (·.sq < ·.sq)
  named : ∀ u, ∀ m ∈ s.heldFor u, writeOf (messageText m) = some (u, m.sq)

theorem Ledger.congr (h : Ledger s writes) (hrole : s'.lru.isPrimary = s.lru.isPrimary)
    (hnumbers : s'.seqNumRecords = s.seqNumRecords) (hheld : s'.primaryHoldback = s.primaryHoldback) :
    Ledger s' writes := by
  have hlast : s'.lastFor = s.lastFor := funext fun u => by rw [lastFor, lastFor, hnumbers]
  have hqueue : s'.heldFor = s.heldFor := funext fun u => by rw [heldFor, heldFor, hheld]
  obtain ⟨role, nodup, small, heldSmall, increasing, named⟩ := h
  constructor
  · rwa [hrole]
  · exact nodup
  · rwa [hlast]
  · rwa [hlast, hqueue]
  · rwa [hqueue]
  · rwa [hqueue]

theorem Ledger.sublist {writes' : List (Str × Int)} (h : Ledger s writes) (hsub : List.Sublist writes' writes) :
    Ledger s writes' :=
  ⟨h.role, h.nodup.sublist hsub, fun w hw => h.small w (hsub.subset hw), h.heldSmall, h.increasing, h.named⟩

theorem Ledger.sendToSecondary (h : Ledger s writes)
    (hwrite : writeOf (messageText (.of (s.lastFor user + 1) line)) = some (user, s.lastFor user + 1))
    (hrun : s.sendToSecondary line user = .ok s') : Ledger s' (writes ++ [(user, s.lastFor user + 1)]) := by
  obtain ⟨hint, hlru, _, hlast, hheld⟩ := sendToSecondary_ok hrun
  have hsq : (MsgPair.of (s.lastFor user + 1) line).sq = s.lastFor user + 1 := MsgPair.of_sq hint line
  have hgrown : ∀ u, s.lastFor u ≤ s'.lastFor u := by
    intro u
    rw [hlast]
    split
    · next heq => rw [heq]; omega
    · exact Int.le_refl _
  constructor
  · rw [hlru]
    exact h.role
  · rw [← List.concat_eq_append]
    refine h.nodup.concat fun hmem => ?_
    have hle := h.small _ hmem
    dsimp only at hle
    omega
  · intro w hw
    rw [List.mem_append, List.mem_singleton] at hw
    rcases hw with hw | rfl
    · exact Int.le_trans (h.small w hw) (hgrown w.1)
    · have heq := hlast user
      rw [if_pos rfl] at heq
      exact Int.le_of_eq heq.symm
  · intro u m hm
    rw [hheld] at hm
    split at hm
    · next heq =>
        rw [List.mem_append, List.mem_singleton] at hm
        rw [hlast, if_pos heq]
        rcases hm with hm | rfl
        · have hle := h.heldSmall user m hm
          omega
        · exact Int.le_of_eq hsq
    · exact Int.le_trans (h.heldSmall u m hm) (hgrown u)
  · intro u
    rw [hheld]
    split
    · rw [List.pairwise_append]
      refine ⟨h.increasing user, List.pairwise_singleton _ _, fun m hm m' hm' => ?_⟩
      obtain rfl := List.mem_singleton.mp hm'
      have hle := h.heldSmall user m hm
      rw [hsq]
      omega
    · exact h.increasing u
  · intro u m hm
    rw [hheld] at hm
    split at hm
    · next heq =>
        rw [List.mem_append, List.mem_singleton] at hm
        rcases hm with hm | rfl
        · exact heq ▸ h.named user m hm
        · rw [hsq]
          exact heq ▸ hwrite
    · exact h.named u m hm

theorem Ledger.dropReported (h : Ledger s writes) : Ledger (s.dropReported user seqNum) writes := by
  have hsub : ∀ u, ((s.dropReported user seqNum).heldFor u).Sublist (s.heldFor u) := by
    intro u
    rw [heldFor_dropReported]
    split
    · next heq => exact heq ▸ List.filter_sublist
    · exact List.Sublist.refl _
  exact ⟨h.role, h.nodup, h.small, fun u m hm => h.heldSmall u m ((hsub u).subset hm),
    fun u => (h.increasing u).sublist (hsub u), fun u m hm => h.named u m ((hsub u).subset hm)⟩

theorem Ledger.heldMessages (h : Ledger s writes) : (s.heldMessages.map messageText).filterMap writeOf =
    s.primaryHoldback.keys.flatMap fun u => (s.heldFor u).map fun m => (u, m.sq) := by
  rw [heldMessages_eq, List.filterMap_map, List.filterMap_flatMap]
  refine List.flatMap_congr fun u _ => ?_
  rw [← List.filterMap_eq_map]
  exact List.filterMap_congr fun m hm => h.named u m hm

/-- What is sent again is new to the secondary when it has performed none of it. -/
theorem Ledger.resend (h : Ledger s writes) (hnew : ∀ u, ∀ m ∈ s.heldFor u, (u, m.sq) ∉ writes) :
    Ledger s (writes ++ (s.heldMessages.map messageText).filterMap writeOf) := by
  have hmem : ∀ w ∈ s.primaryHoldback.keys.flatMap fun u => (s.heldFor u).map fun m => (u, m.sq),
      ∃ m ∈ s.heldFor w.1, m.sq = w.2 := by
    intro w hw
    obtain ⟨u, _, hw⟩ := List.mem_flatMap.mp hw
    obtain ⟨m, hm, rfl⟩ := List.mem_map.mp hw
    exact ⟨m, hm, rfl⟩
  have hnodup : (s.primaryHoldback.keys.flatMap fun u => (s.heldFor u).map fun m => (u, m.sq)).Nodup := by
    rw [List.nodup_flatMap]
    refine ⟨fun u _ => ?_, ?_⟩
    · rw [List.Nodup, List.pairwise_map]
      exact (h.increasing u).imp fun hlt heq => by
        have hsq := (Prod.mk.inj heq).2
        omega
    · refine ExtTreeMap.nodup_keys.imp fun {u v} hne w hw hw' => ?_
      obtain ⟨_, _, rfl⟩ := List.mem_map.mp hw
      obtain ⟨_, _, heq⟩ := List.mem_map.mp hw'
      exact hne (Prod.mk.inj heq).1.symm
  rw [h.heldMessages]
  constructor
  · exact h.role
  · refine h.nodup.append hnodup fun w hw hheld => ?_
    obtain ⟨m, hm, hsq⟩ := hmem w hheld
    refine hnew w.1 m hm ?_
    rwa [hsq]
  · intro w hw
    rcases List.mem_append.mp hw with hw | hw
    · exact h.small w hw
    · obtain ⟨m, hm, hsq⟩ := hmem w hw
      exact hsq ▸ h.heldSmall w.1 m hm
  · exact h.heldSmall
  · exact h.increasing
  · exact h.named

/-! ### What a message makes of the numbers -/

/-- The primary sends some texts to the secondary, and no write among them is a repetition. -/
def Forwards (s : Chunkserver) (texts : List Str) (s' : Chunkserver) : Prop :=
  s'.secondaryFd = s.secondaryFd ∧ s'.sentTo s.secondaryFd = s.sentTo s.secondaryFd ++ texts ∧
    ∀ writes, Ledger s writes → Ledger s' (writes ++ texts.filterMap writeOf)

theorem forwards_nothing (hfd : s'.secondaryFd = s.secondaryFd) (hnumbers : s'.seqNumRecords = s.seqNumRecords)
    (hheld : s'.primaryHoldback = s.primaryHoldback) (hrole : s'.lru.isPrimary = s.lru.isPrimary)
    (hsent : s'.sentTo s.secondaryFd = s.sentTo s.secondaryFd) : Forwards s [] s' := by
  refine ⟨hfd, by rw [hsent, List.append_nil], fun writes h => ?_⟩
  rw [List.filterMap_nil, List.append_nil]
  exact h.congr hrole hnumbers hheld

theorem Forwards.then_nothing {texts : List Str} {t : Chunkserver} (h : Forwards s texts t)
    (h' : Forwards t [] s') : Forwards s texts s' := by
  obtain ⟨hfd, hsent, hledger⟩ := h
  obtain ⟨hfd', hsent', hledger'⟩ := h'
  refine ⟨hfd'.trans hfd, ?_, fun writes hs => ?_⟩
  · rw [hfd, List.append_nil] at hsent'
    exact hsent'.trans hsent
  · have ht := hledger' _ (hledger writes hs)
    rwa [List.filterMap_nil, List.append_nil] at ht

theorem Forwards.after_nothing {texts : List Str} {t : Chunkserver} (h : Forwards s [] t)
    (h' : Forwards t texts s') : Forwards s texts s' := by
  obtain ⟨hfd, hsent, hledger⟩ := h
  obtain ⟨hfd', hsent', hledger'⟩ := h'
  refine ⟨hfd'.trans hfd, ?_, fun writes hs => ?_⟩
  · rw [hfd, hsent, List.append_nil] at hsent'
    exact hsent'
  · have ht := hledger writes hs
    rw [List.filterMap_nil, List.append_nil] at ht
    exact hledger' writes ht

theorem forwards_sendToSecondary (hmsg : '\x00' ∉ line) (hrequested : requested line = some request)
    (hrun : s.sendToSecondary line (request commFd seqNum).user = .ok s') :
    Forwards s [messageText (.of (s.lastFor (request commFd seqNum).user + 1) line)] s' := by
  obtain ⟨hint, hlru, hfd, _⟩ := sendToSecondary_ok hrun
  have hwrite : writeOf (messageText (.of (s.lastFor (request commFd seqNum).user + 1) line)) =
      some ((request commFd seqNum).user, s.lastFor (request commFd seqNum).user + 1) := by
    rw [writeOf_messageText (m := .of _ line) hmsg hrequested, MsgPair.of_sq hint]
  refine ⟨hfd, ?_, fun writes h => ?_⟩
  · rw [sentTo, hlru]
    simp [sentTo, LRUCache.send]
  · rw [List.filterMap_cons_some hwrite, List.filterMap_nil]
    exact h.sendToSecondary hwrite hrun

theorem forwards_send {msg : Str} (hne : commFd ≠ s.secondaryFd) : Forwards s [] (s.send commFd msg) :=
  forwards_nothing rfl rfl rfl rfl (sentTo_send_of_ne hne)

/-- A request of a client forwards one write, or nothing. -/
theorem forwards_worker (hhandles : Handles (cstr buffer)) (hne : commFd ≠ s.secondaryFd)
    (hrole : s.lru.isPrimary = true) (hrun : s.worker fuel commFd buffer = .ok s') :
    ∃ texts, Forwards s texts s' := by
  rcases worker_ok hhandles hrun with ⟨request, t, hrequested, hperform, rfl⟩ |
    ⟨_, ⟨user, filename, lru, _, hexec, rfl⟩ | rfl⟩
  · obtain ⟨lru, hexec, hprimary, _⟩ := perform_ok hperform
    have hanswers := answers_exec hexec
    rw [commFd_request hrequested] at hanswers
    have hkept : ({ s with lru := lru } : Chunkserver).sentTo s.secondaryFd = s.sentTo s.secondaryFd :=
      sentTo_of_answers hanswers hne
    have hlogged : Forwards s [] { s with lru := lru.act (.appendLog (cstr buffer)) } :=
      forwards_nothing rfl rfl rfl hanswers.role hkept
    have hforward := hlogged.after_nothing (forwards_sendToSecondary (notMem_cstr _) hrequested (hprimary hrole))
    refine ⟨_, hforward.then_nothing (forwards_send ?_)⟩
    rwa [hforward.1]
  · have hanswers : Answers s.lru lru commFd := answers_exec hexec
    have hread : Forwards s [] { s with lru := lru } :=
      forwards_nothing rfl rfl rfl hanswers.role (sentTo_of_answers hanswers hne)
    exact ⟨[], hread.then_nothing (forwards_send hne)⟩
  · have herror : Forwards s [] (s.error commFd) := forwards_send hne
    exact ⟨[], herror.then_nothing (forwards_send hne)⟩

/-- A text that reads as a report. -/
def IsReport (text : Str) : Prop := text.take 5 = "DONE ".toList

instance : DecidablePred IsReport := fun _ => inferInstanceAs (Decidable (_ = _))

theorem worker_report (hreport : IsReport text) : s.worker fuel commFd text = s.handleSecondaryReport (cstr text) := by
  have hcstr : cstr text = "DONE".toList ++ ' ' :: cstr (text.drop 5) := by
    conv_lhs => rw [← List.take_append_drop 5 text, hreport, cstr_append (by decide)]
    rfl
  have hcommand : parseCommand (cstr text) = .ok "done".toList := by
    rw [hcstr, parseCommand_append "DONE".toList (by decide) (by decide)]
    decide
  have hgreeting : cstr text ≠ "S\r\n".toList := by
    intro heq
    rw [heq] at hcommand
    exact absurd (Except.ok.inj hcommand) (by decide)
  have hshutdown : cstr text ≠ "shutdown\r\n".toList := by
    intro heq
    rw [heq] at hcommand
    exact absurd (Except.ok.inj hcommand) (by decide)
  have hnone : s.writeCommand fuel "done".toList (cstr text) commFd 0 = none := by
    rw [writeCommand_eq]
    rfl
  rw [worker]
  simp only [if_neg hgreeting, if_neg hshutdown, hcommand, Run.ok_bind, hnone]
  rfl

theorem sentTo_checkPrimaryHoldback :
    s.checkPrimaryHoldback.sentTo s.secondaryFd = s.sentTo s.secondaryFd ++ s.heldMessages.map messageText := by
  rw [checkPrimaryHoldback_eq, sentTo, sentTo, List.filter_append, List.map_append]
  congr 1
  simp [List.filter_map, Function.comp_def]

theorem worker_greeting : s.worker fuel commFd "S\r\n".toList =
    .ok ({ s with secondaryFd := commFd } : Chunkserver).checkPrimaryHoldback := by
  rw [worker]
  rfl

/-! ### The two nodes and what is on its way between them -/

/-- A primary and its secondary. The secondary has applied a write when it has reported it. -/
structure Link where
  primary : Chunkserver
  secondary : Chunkserver
  connected : Bool
  toSecondary : List Str
  reports : List Str
  applied : List (Str × Int)

inductive Event where
  | request (commFd : Int) (buffer : Str)
  | apply
  | report (text : Str)
  | restart
  | greet (commFd : Int)

namespace Link

def start (primary secondary : Chunkserver) : Link := ⟨primary, secondary, false, [], [], []⟩

/-- One event. Messages to the secondary arrive in order, and are lost with the connection; reports that
are on their way when the secondary restarts may be lost or still arrive. -/
inductive Step : Link → Event → Link → Prop where
  | request {l : Link} {commFd : Int} {buffer : Str} {fuel : Nat} {primary : Chunkserver} {texts : List Str} :
      commFd ≠ l.primary.secondaryFd → Handles (cstr buffer) → l.primary.worker fuel commFd buffer = .ok primary →
      primary.sentTo l.primary.secondaryFd = l.primary.sentTo l.primary.secondaryFd ++ texts →
      Step l (.request commFd buffer) { l with
        primary := primary, toSecondary := if l.connected then l.toSecondary ++ texts else l.toSecondary }
  | apply {l : Link} {sockFd : Int} {fuel : Nat} {text : Str} {rest replies : List Str} {secondary : Chunkserver} :
      l.toSecondary = text :: rest → l.secondary.psWorker fuel sockFd text = .ok secondary →
      secondary.sentTo sockFd = l.secondary.sentTo sockFd ++ replies →
      Step l .apply { l with
        secondary := secondary, toSecondary := rest, reports := l.reports ++ replies.filter (IsReport ·)
        applied := l.applied ++ if replies.any (IsReport ·) then (writeOf text).toList else [] }
  | report {l : Link} {commFd : Int} {fuel : Nat} {text : Str} {primary : Chunkserver} :
      text ∈ l.reports → l.primary.worker fuel commFd text = .ok primary →
      Step l (.report text) { l with primary := primary, reports := l.reports.erase text }
  | restart {l : Link} {secondary : Chunkserver} {reports : List Str} :
      (∀ user filename, secondary.lru.view user filename = l.secondary.lru.view user filename) →
      secondary.lru.disk.log = l.secondary.lru.disk.log → secondary.lru.isPrimary = l.secondary.lru.isPrimary →
      List.Sublist reports l.reports →
      Step l .restart { l with secondary := secondary, connected := false, toSecondary := [], reports := reports }
  | greet {l : Link} {commFd : Int} {fuel : Nat} {primary : Chunkserver} {texts : List Str} :
      l.connected = false → l.primary.worker fuel commFd "S\r\n".toList = .ok primary →
      primary.sentTo commFd = l.primary.sentTo commFd ++ texts →
      Step l (.greet commFd) { l with primary := primary, connected := true, toSecondary := texts }

/-- The primary holds back no write that the secondary has applied. -/
def CaughtUp (l : Link) : Prop := ∀ user, ∀ m ∈ l.primary.heldFor user, (user, m.sq) ∉ l.applied

/-- What every event keeps. -/
structure Consistent (l : Link) : Prop where
  ledger : l.primary.Ledger (l.applied ++ l.toSecondary.filterMap writeOf)
  reports : ∀ text ∈ l.reports, IsReport text
  silent : l.connected = false → l.toSecondary = []

variable {l l' : Link} {event : Event}

theorem Consistent.step (h : Consistent l) (hstep : Step l event l')
    (hgreeted : ∀ commFd, event = .greet commFd → l.CaughtUp) : Consistent l' := by
  cases hstep with
  | @request commFd buffer fuel primary texts hne hhandles hrun hsent =>
      obtain ⟨texts', _, hsent', hledger⟩ := forwards_worker hhandles hne h.ledger.role hrun
      obtain rfl : texts = texts' := List.append_cancel_left (hsent.symm.trans hsent')
      have hnew := hledger _ h.ledger
      refine ⟨?_, h.reports, fun hdown => ?_⟩
      · dsimp only
        split
        · rwa [List.filterMap_append, ← List.append_assoc]
        · exact hnew.sublist (List.sublist_append_left _ _)
      · dsimp only at hdown ⊢
        rw [hdown]
        exact h.silent hdown
  | @apply sockFd fuel text rest replies secondary htext hrun hreplies =>
      have hcons : (text :: rest).filterMap writeOf = (writeOf text).toList ++ rest.filterMap writeOf := by
        rw [List.filterMap_cons]
        cases writeOf text with
        | none => rfl
        | some write => rfl
      refine ⟨?_, fun report hreport => ?_, fun hdown => ?_⟩
      · refine h.ledger.sublist ?_
        rw [htext, hcons, ← List.append_assoc]
        refine List.Sublist.append ?_ (List.Sublist.refl _)
        refine List.Sublist.append (List.Sublist.refl _) ?_
        split
        · exact List.Sublist.refl _
        · exact List.nil_sublist _
      · rcases List.mem_append.mp hreport with hreport | hreport
        · exact h.reports report hreport
        · exact of_decide_eq_true (List.mem_filter.mp hreport).2
      · have hnone := h.silent hdown
        rw [htext] at hnone
        cases hnone
  | @report commFd fuel text primary htext hrun =>
      rw [worker_report (h.reports text htext)] at hrun
      obtain ⟨user, seqNum, rfl⟩ := handleSecondaryReport_ok hrun
      exact ⟨h.ledger.dropReported, fun report hreport => h.reports report (List.mem_of_mem_erase hreport), h.silent⟩
  | @restart secondary reports hview hlog hrole hreports =>
      refine ⟨?_, fun report hreport => h.reports report (hreports.subset hreport), fun _ => rfl⟩
      rw [List.filterMap_nil, List.append_nil]
      exact h.ledger.sublist (List.sublist_append_left _ _)
  | @greet commFd fuel primary texts hdown hrun hsent =>
      rw [worker_greeting] at hrun
      obtain rfl := Except.ok.inj hrun
      have hledger := h.ledger
      rw [h.silent hdown, List.filterMap_nil, List.append_nil] at hledger
      have hresent := hledger.resend (hgreeted commFd rfl)
      have htexts : texts = l.primary.heldMessages.map messageText :=
        List.append_cancel_left (hsent.symm.trans sentTo_checkPrimaryHoldback)
      refine ⟨?_, h.reports, fun hup => by cases hup⟩
      rw [htexts, checkPrimaryHoldback_eq]
      exact hresent.congr rfl rfl rfl

/-- **A write is applied once while greetings find the primary caught up.** From a primary that holds
nothing back, however requests, reports, restarts and greetings are mixed. -/
theorem applied_nodup_of_run {primary secondary : Chunkserver} {events : List Event}
    (hrole : primary.lru.isPrimary = true) (hheld : primary.primaryHoldback = ∅)
    (hrun : Run.Runs (fun l event l' => Step l event l' ∧ ∀ commFd, event = .greet commFd → l.CaughtUp)
      (start primary secondary) events l) : l.applied.Nodup := by
  have hstart : Consistent (start primary secondary) := by
    have hqueue : ∀ u, primary.heldFor u = [] := fun u => by simp [heldFor, hheld]
    refine ⟨⟨hrole, List.nodup_nil, fun w hw => absurd hw List.not_mem_nil, fun u m hm => ?_, fun u => ?_, fun u m hm => ?_⟩,
      fun text htext => absurd htext List.not_mem_nil, fun _ => rfl⟩
    · exact absurd (hqueue u ▸ hm) List.not_mem_nil
    · exact hqueue u ▸ List.Pairwise.nil
    · exact absurd (hqueue u ▸ hm) List.not_mem_nil
  have h : Consistent l := Run.Runs.invariant (P := fun _ l => Consistent l) hstart
    (fun _ _ _ _ h hstep => h.step hstep.1 hstep.2) hrun
  exact h.ledger.nodup.sublist (List.sublist_append_left _ _)

theorem caughtUp_of_entries
    (h : ∀ entry ∈ l.primary.primaryHoldback.toList, ∀ m ∈ entry.2, (entry.1, m.sq) ∉ l.applied) : l.CaughtUp := by
  intro user m hm
  rw [heldFor, ExtTreeMap.getD_eq_getD_getElem?] at hm
  cases hget : l.primary.primaryHoldback[user]? with
  | none =>
      rw [hget] at hm
      exact absurd hm List.not_mem_nil
  | some held =>
      rw [hget] at hm
      exact h (user, held) (ExtTreeMap.mem_toList_iff_getElem?_eq_some.mpr hget) m hm

def restartRun : Except Fault (List Chunkserver) := do
  let p₁ ← (fresh 10 true 9).worker 4 9 "S\r\n".toList
  let p₂ ← p₁.worker 4 3 "put u,f,a\r\n".toList
  let s₁ ← (fresh 10 false 0).psWorker 4 5 "1,put u,f,a\r\n".toList
  let p₃ ← p₂.worker 4 9 "DONE u,1\r\n".toList
  let p₄ ← p₃.worker 4 3 "put u,f,b\r\n".toList
  let p₅ ← p₄.worker 4 9 "S\r\n".toList
  let s₂ ← s₁.psWorker 4 5 "2,put u,f,b\r\n".toList
  .ok [p₁, p₂, s₁, p₃, p₄, p₅, s₂]

def restartEnds : List Chunkserver → Bool
  | [p₁, p₂, s₁, p₃, p₄, p₅, s₂] => decide (
      p₁.sentTo 9 = (fresh 10 true 9).sentTo 9 ++ [] ∧ p₁.secondaryFd = 9 ∧
      p₂.sentTo 9 = p₁.sentTo 9 ++ ["1,put u,f,a\r\n".toList] ∧
      s₁.sentTo 5 = (fresh 10 false 0).sentTo 5 ++ ["DONE u,1\r\n".toList] ∧ p₃.secondaryFd = 9 ∧
      p₄.sentTo 9 = p₃.sentTo 9 ++ ["2,put u,f,b\r\n".toList] ∧
      p₄.primaryHoldback.toList = [("u".toList, [.of 2 "put u,f,b\r\n".toList])] ∧
      p₅.sentTo 9 = p₄.sentTo 9 ++ ["2,put u,f,b\r\n".toList] ∧
      s₂.sentTo 5 = s₁.sentTo 5 ++ ["DONE u,2\r\n".toList] ∧
      s₂.lru.view "u".toList "f".toList = some "a\r\nb\r\n".toList)
  | _ => false

/-- A write is reported before the secondary restarts, and another is sent while it is away. -/
theorem applied_nodup_of_run_restart : ∃ (events : List Event) (l : Link),
    Run.Runs Step (start (fresh 10 true 9) (fresh 10 false 0)) events l ∧ l.applied.Nodup ∧
      l.secondary.lru.view "u".toList "f".toList = some "a\r\nb\r\n".toList := by
  have hfold : restartRun.toOption.any restartEnds = true := by decide +kernel
  cases hrun : restartRun with
  | error fault => exact absurd hfold (by rw [hrun]; exact Bool.false_ne_true)
  | ok states =>
      obtain ⟨p₁, hp₁, hrest⟩ := Run.bind_eq_ok.mp hrun
      obtain ⟨p₂, hp₂, hrest⟩ := Run.bind_eq_ok.mp hrest
      obtain ⟨s₁, hs₁, hrest⟩ := Run.bind_eq_ok.mp hrest
      obtain ⟨p₃, hp₃, hrest⟩ := Run.bind_eq_ok.mp hrest
      obtain ⟨p₄, hp₄, hrest⟩ := Run.bind_eq_ok.mp hrest
      obtain ⟨p₅, hp₅, hrest⟩ := Run.bind_eq_ok.mp hrest
      obtain ⟨s₂, hs₂, hrest⟩ := Run.bind_eq_ok.mp hrest
      cases hrest
      rw [hrun] at hfold
      obtain ⟨hsent₁, hfd₁, hsent₂, hreply₁, hfd₃, hsent₄, hheld, hsent₅, hreply₂, hview⟩ := of_decide_eq_true hfold
      have hne₁ : (3 : Int) ≠ p₁.secondaryFd := by rw [hfd₁]; decide
      have hne₃ : (3 : Int) ≠ p₃.secondaryFd := by rw [hfd₃]; decide
      rw [← hfd₁] at hsent₂
      rw [← hfd₃] at hsent₄
      let step : Link → Event → Link → Prop := fun l event l' =>
        Step l event l' ∧ ∀ commFd, event = .greet commFd → l.CaughtUp
      have hputs : ∀ text ∈ ["put u,f,a\r\n".toList, "put u,f,b\r\n".toList], Handles (cstr text) := by
        intro text htext
        exact ⟨"put".toList, by revert text; decide, Or.inr (by revert text; decide)⟩
      have hstart : Run.Runs step (start (fresh 10 true 9) (fresh 10 false 0)) [] _ := .nil
      have hgreet := hstart.snoc ⟨Step.greet rfl hp₁ hsent₁, fun _ _ => caughtUp_of_entries (by decide)⟩
      have hrequest := hgreet.snoc ⟨Step.request hne₁ (hputs _ (by decide)) hp₂ hsent₂, fun _ h => by cases h⟩
      have happly := hrequest.snoc ⟨Step.apply rfl hs₁ hreply₁, fun _ h => by cases h⟩
      have hsent : "DONE u,1\r\n".toList ∈ [] ++ ["DONE u,1\r\n".toList].filter (IsReport ·) := by decide +kernel
      have hreport := happly.snoc ⟨Step.report hsent hp₃, fun _ h => by cases h⟩
      have hrestart := hreport.snoc
        ⟨Step.restart (fun _ _ => rfl) rfl rfl (List.Sublist.refl _), fun _ h => by cases h⟩
      have hrequest' := hrestart.snoc ⟨Step.request hne₃ (hputs _ (by decide)) hp₄ hsent₄, fun _ h => by cases h⟩
      let applied := if ["DONE u,1\r\n".toList].any (IsReport ·) then (writeOf "1,put u,f,a\r\n".toList).toList else []
      have hcaught : ("u".toList, 2) ∉ [] ++ applied := by decide +kernel
      have hgreet' := hrequest'.snoc ⟨Step.greet rfl hp₅ hsent₅, fun _ _ => caughtUp_of_entries fun entry hentry m hm => by
        have hentry' : entry ∈ p₄.primaryHoldback.toList := hentry
        rw [hheld, List.mem_singleton] at hentry'
        subst hentry'
        obtain rfl := List.mem_singleton.mp hm
        exact hcaught⟩
      have happly' := hgreet'.snoc ⟨Step.apply rfl hs₂ hreply₂, fun _ h => by cases h⟩
      exact ⟨_, _, happly'.mono fun _ _ _ h => h.1, applied_nodup_of_run rfl rfl happly', hview⟩

/-- The secondary restarts while its report is on the way, and appends the value again. -/
theorem not_applied_nodup_reconnected : ∃ (events : List Event) (l : Link),
    Run.Runs Step (start (fresh 10 true 9) (fresh 10 false 0)) events l ∧ ¬ l.applied.Nodup ∧
      l.secondary.lru.view "u".toList "f".toList = some "a\r\na\r\n".toList := by
  let run : Except Fault (Chunkserver × Chunkserver × Chunkserver × Chunkserver × Chunkserver) := do
    let p₁ ← (fresh 10 true 9).worker 4 9 "S\r\n".toList
    let p₂ ← p₁.worker 4 3 "put u,f,a\r\n".toList
    let s₁ ← (fresh 10 false 0).psWorker 4 5 "1,put u,f,a\r\n".toList
    let p₃ ← p₂.worker 4 9 "S\r\n".toList
    let s₂ ← s₁.psWorker 4 5 "1,put u,f,a\r\n".toList
    .ok (p₁, p₂, s₁, p₃, s₂)
  have hfold : (match run with
      | .ok (p₁, p₂, s₁, p₃, s₂) => decide (
          p₁.sentTo 9 = (fresh 10 true 9).sentTo 9 ++ [] ∧ p₁.secondaryFd = 9 ∧
          p₂.sentTo 9 = p₁.sentTo 9 ++ ["1,put u,f,a\r\n".toList] ∧
          s₁.sentTo 5 = (fresh 10 false 0).sentTo 5 ++ ["DONE u,1\r\n".toList] ∧
          p₃.sentTo 9 = p₂.sentTo 9 ++ ["1,put u,f,a\r\n".toList] ∧
          s₂.sentTo 5 = s₁.sentTo 5 ++ ["DONE u,1\r\n".toList] ∧
          s₂.lru.view "u".toList "f".toList = some "a\r\na\r\n".toList)
      | .error _ => false) = true := by decide +kernel
  cases hrun : run with
  | error fault => exact absurd hfold (by rw [hrun]; exact Bool.false_ne_true)
  | ok states =>
      obtain ⟨p₁, hp₁, hrest⟩ := Run.bind_eq_ok.mp hrun
      obtain ⟨p₂, hp₂, hrest⟩ := Run.bind_eq_ok.mp hrest
      obtain ⟨s₁, hs₁, hrest⟩ := Run.bind_eq_ok.mp hrest
      obtain ⟨p₃, hp₃, hrest⟩ := Run.bind_eq_ok.mp hrest
      obtain ⟨s₂, hs₂, hrest⟩ := Run.bind_eq_ok.mp hrest
      cases hrest
      rw [hrun] at hfold
      obtain ⟨hsent₁, hfd, hsent₂, hreply₁, hsent₃, hreply₂, hview⟩ := of_decide_eq_true hfold
      have hne : (3 : Int) ≠ p₁.secondaryFd := by rw [hfd]; decide
      rw [← hfd] at hsent₂
      have hhandles : Handles (cstr "put u,f,a\r\n".toList) := ⟨"put".toList, by decide, Or.inr (by decide)⟩
      have hstart : Run.Runs Step (start (fresh 10 true 9) (fresh 10 false 0)) [] _ := .nil
      have hgreet := hstart.snoc (Step.greet rfl hp₁ hsent₁)
      have hrequest := hgreet.snoc (Step.request hne hhandles hp₂ hsent₂)
      have happly := hrequest.snoc (Step.apply rfl hs₁ hreply₁)
      have hrestart := happly.snoc (Step.restart (fun _ _ => rfl) rfl rfl (List.Sublist.refl _))
      have hgreet' := hrestart.snoc (Step.greet rfl hp₃ hsent₃)
      have happly' := hgreet'.snoc (Step.apply rfl hs₂ hreply₂)
      let applied := if ["DONE u,1\r\n".toList].any (IsReport ·) then (writeOf "1,put u,f,a\r\n".toList).toList else []
      have htwice : ¬ ([] ++ applied ++ applied).Nodup := by decide +kernel
      exact ⟨_, _, happly', htwice, hview⟩

end Link

end PennCloud.Chunkserver
