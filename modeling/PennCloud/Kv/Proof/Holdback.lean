import PennCloud.Lib.Outbox
import PennCloud.Lib.Run
import PennCloud.Lib.SortedMap
import PennCloud.Kv.Kvstore
import PennCloud.Kv.Spec
import PennCloud.Kv.Proof.Numbers

/-!
# The hold-back queue

The primary numbers the messages of each user and holds each back until the secondary has reported it,
however sends and reports of all users are mixed.
-/

namespace PennCloud.Chunkserver

open Std

variable {s s' : Chunkserver} {user line u : Str} {seqNum capacity fd : Int} {isPrimary : Bool}

/-! ### One send and one report -/

/-- The messages held back for a user. -/
def heldFor (s : Chunkserver) (user : Str) : List MsgPair := s.primaryHoldback.getD user []

/-- The number of the last message for a user. -/
def lastFor (s : Chunkserver) (user : Str) : Int := s.seqNumRecords.getD user 0

theorem sendToSecondary_ok (hrun : s.sendToSecondary line user = .ok s') :
    IsInt (s.lastFor user + 1) ∧
      s'.lru = s.lru.send s.secondaryFd (messageText (.of (s.lastFor user + 1) line)) ∧ s'.secondaryFd = s.secondaryFd ∧
      (∀ u, s'.lastFor u = if user = u then s.lastFor user + 1 else s.lastFor u) ∧
      ∀ u, s'.heldFor u = if user = u then s.heldFor user ++ [.of (s.lastFor user + 1) line] else s.heldFor u := by
  rw [sendToSecondary] at hrun
  split at hrun
  · exact absurd hrun (by simp)
  · next hsmall =>
      obtain rfl := Except.ok.inj hrun
      refine ⟨not_not.mp hsmall, rfl, rfl, fun u => ?_, fun u => ?_⟩
      · change (s.seqNumRecords.insert user (s.lastFor user + 1)).getD u 0 = _
        rw [ExtTreeMap.getD_eq_getD_getElem?, SortedMap.getElem?_insert_eq]
        split
        · rfl
        · rw [lastFor, ExtTreeMap.getD_eq_getD_getElem?]
      · change (s.primaryHoldback.insert user (s.heldFor user ++ [MsgPair.of (s.lastFor user + 1) line])).getD u [] = _
        rw [ExtTreeMap.getD_eq_getD_getElem?, SortedMap.getElem?_insert_eq]
        split
        · rfl
        · rw [heldFor, ExtTreeMap.getD_eq_getD_getElem?]

theorem sendToSecondary_returns (line : Str) (hint : IsInt (s.lastFor user + 1)) :
    ∃ s', s.sendToSecondary line user = .ok s' := by
  rw [sendToSecondary]
  exact ⟨_, if_neg (not_not.mpr hint)⟩

/-- The queue without the message that was reported. -/
def dropReported (s : Chunkserver) (user : Str) (seqNum : Int) : Chunkserver :=
  let kept := (s.heldFor user).filter (·.sq != seqNum)
  { s with primaryHoldback :=
      if kept = [] then s.primaryHoldback.erase user else s.primaryHoldback.insert user kept }

theorem handleSecondaryReport_ok {text : Str} (hrun : s.handleSecondaryReport text = .ok s') :
    ∃ user seqNum, s' = s.dropReported user seqNum := by
  obtain ⟨text, _, hrun⟩ := Run.bind_eq_ok.mp hrun
  obtain ⟨seqNum, _, hrun⟩ := Run.bind_eq_ok.mp hrun
  exact ⟨_, seqNum, (Except.ok.inj hrun).symm⟩

theorem done_eq (user : Str) (seqNum : Int) :
    Store.done user seqNum = "DONE ".toList ++ (user ++ ',' :: (toStr seqNum ++ "\r\n".toList)) := by
  unfold Store.done
  simp only [List.append_assoc, List.cons_append]

theorem handleSecondaryReport_done (huser : ',' ∉ user) (hlow : -intMax - 1 ≤ seqNum) (hhigh : seqNum ≤ intMax) :
    s.handleSecondaryReport (Store.done user seqNum) = .ok (s.dropReported user seqNum) := by
  have htext : substr (Store.done user seqNum) 5 ((Store.done user seqNum).length - 5) =
      .ok (user ++ ',' :: (toStr seqNum ++ "\r\n".toList)) := by
    have hlength : "DONE ".toList.length = 5 := by decide
    rw [done_eq, ← hlength]
    exact substr_append _ _
  have hnumber : ',' ∉ toStr seqNum ++ "\r\n".toList := by
    rw [List.mem_append]
    exact fun hmem => hmem.elim (notMem_toStr (by decide) (by decide)) (by decide)
  have hread : stoi (toStr seqNum ++ "\r\n".toList) = .ok seqNum :=
    stoi_toStr (endsNumber_cons (by decide)) hlow hhigh
  rw [handleSecondaryReport, htext, Run.ok_bind, Fields.pieces_append_cons huser, Fields.pieces_of_notMem hnumber,
    Fields.remainder_append_cons huser, Fields.remainder_of_notMem hnumber, hread]
  rfl

theorem heldFor_dropReported (u : Str) : (s.dropReported user seqNum).heldFor u =
    if user = u then (s.heldFor user).filter (·.sq ≠ seqNum) else s.heldFor u := by
  have hfilter : (s.heldFor user).filter (·.sq != seqNum) = (s.heldFor user).filter (·.sq ≠ seqNum) :=
    List.filter_congr fun m _ => by by_cases hm : m.sq = seqNum <;> simp [hm]
  rw [← hfilter]
  change (ite _ _ _ : Map (List MsgPair)).getD u [] = _
  rw [ExtTreeMap.getD_eq_getD_getElem?]
  split
  · next hnone =>
      rw [SortedMap.getElem?_erase_eq, hnone]
      split
      · rfl
      · rw [heldFor, ExtTreeMap.getD_eq_getD_getElem?]
  · rw [SortedMap.getElem?_insert_eq]
    split
    · rfl
    · rw [heldFor, ExtTreeMap.getD_eq_getD_getElem?]

/-- Nobody has an empty queue. -/
def Occupied (s : Chunkserver) : Prop := ∀ u : Str, s.primaryHoldback[u]? ≠ some []

theorem Occupied.sendToSecondary (h : s.Occupied) (hrun : s.sendToSecondary line user = .ok s') : s'.Occupied := by
  intro u
  rw [Chunkserver.sendToSecondary] at hrun
  split at hrun
  · exact absurd hrun (by simp)
  · obtain rfl := Except.ok.inj hrun
    change (s.primaryHoldback.insert user (s.heldFor user ++ [.of (s.lastFor user + 1) line]))[u]? ≠ some []
    rw [SortedMap.getElem?_insert_eq]
    split
    · simp
    · exact h u

theorem Occupied.dropReported (h : s.Occupied) : (s.dropReported user seqNum).Occupied := by
  intro u
  change (ite _ _ _ : Map (List MsgPair))[u]? ≠ some []
  split
  · rw [SortedMap.getElem?_erase_eq]
    split
    · exact Option.some_ne_none _ ∘ Eq.symm
    · exact h u
  · next hkept =>
      rw [SortedMap.getElem?_insert_eq]
      split
      · exact fun heq => hkept (Option.some.inj heq)
      · exact h u

/-- Every message held back is sent again, and nothing else is done. -/
theorem checkPrimaryHoldback_eq : s.checkPrimaryHoldback = { s with
    lru := { s.lru with sent := s.lru.sent ++ s.heldMessages.map fun m => (s.secondaryFd, messageText m) } } := by
  rw [checkPrimaryHoldback]
  generalize s.heldMessages = messages
  induction messages generalizing s with
  | nil => rw [List.foldl_nil, List.map_nil, List.append_nil]
  | cons m messages ih =>
      rw [List.foldl_cons, ih]
      simp [send, LRUCache.send]

theorem heldMessages_eq : s.heldMessages = s.primaryHoldback.keys.flatMap s.heldFor := by
  rw [heldMessages, ← ExtTreeMap.map_fst_toList_eq_keys, List.flatMap_map]
  refine List.flatMap_congr fun entry hentry => ?_
  have hget : s.primaryHoldback[entry.1]? = some entry.2 := ExtTreeMap.mem_toList_iff_getElem?_eq_some.mp hentry
  rw [heldFor, ExtTreeMap.getD_eq_getD_getElem?, hget]
  rfl

/-! ### Any number of sends and reports -/

/-- What the primary and the secondary tell each other about the writes of a user. -/
inductive Exchange where
  | send (user line : Str)
  | report (user : Str) (seqNum : Int)

/-- One more message, numbered among those of its user. -/
def transmit (past : List (Str × MsgPair)) : Exchange → List (Str × MsgPair)
  | .send user line => past ++ [(user, .of ((past.filter (·.1 = user)).length + 1) line)]
  | .report _ _ => past

/-- The messages sent, in order, each with its user. -/
def transmissions (past : List Exchange) : List (Str × MsgPair) := past.foldl transmit []

/-- The messages sent for a user. -/
def sentFor (user : Str) (past : List Exchange) : List MsgPair :=
  ((transmissions past).filter (·.1 = user)).map Prod.snd

/-- The numbers reported for a user. -/
def reportedFor (user : Str) (past : List Exchange) : List Int :=
  past.filterMap fun
    | .send _ _ => none
    | .report u seqNum => if u = user then some seqNum else none

/-- The messages of a user that have not been reported. -/
def unreported (user : Str) (past : List Exchange) : List MsgPair :=
  Outbox.waiting MsgPair.sq (sentFor user past) (reportedFor user past)

/-- Sends for users whose names have no comma, and reports of messages sent before. -/
inductive Exchanged (s₀ : Chunkserver) : List Exchange → Chunkserver → Prop where
  | start : Exchanged s₀ [] s₀
  | send {past : List Exchange} {s s' : Chunkserver} {user line : Str} : Exchanged s₀ past s → ',' ∉ user →
      s.sendToSecondary line user = .ok s' → Exchanged s₀ (past ++ [.send user line]) s'
  | report {past : List Exchange} {s s' : Chunkserver} {user : Str} {seqNum : Int} : Exchanged s₀ past s →
      (∃ m ∈ sentFor user past, m.sq = seqNum) → s.handleSecondaryReport (Store.done user seqNum) = .ok s' →
      Exchanged s₀ (past ++ [.report user seqNum]) s'

variable {past : List Exchange} {s₀ : Chunkserver} {m : MsgPair}

theorem transmissions_send : transmissions (past ++ [.send user line]) =
    transmissions past ++ [(user, .of ((sentFor user past).length + 1) line)] := by
  rw [transmissions, List.foldl_append, sentFor, List.length_map]
  rfl

theorem transmissions_report : transmissions (past ++ [.report user seqNum]) = transmissions past := by
  rw [transmissions, List.foldl_append]
  rfl

theorem sentFor_send : sentFor u (past ++ [.send user line]) =
    sentFor u past ++ if user = u then [.of ((sentFor user past).length + 1) line] else [] := by
  rw [sentFor, transmissions_send, List.filter_append, List.map_append, ← sentFor]
  split
  · next heq => simp [heq]
  · next hne => simp [hne]

theorem sentFor_report : sentFor u (past ++ [.report user seqNum]) = sentFor u past := by
  rw [sentFor, transmissions_report, sentFor]

theorem reportedFor_send : reportedFor u (past ++ [.send user line]) = reportedFor u past := by
  rw [reportedFor, List.filterMap_append, reportedFor]
  exact List.append_nil _

theorem reportedFor_report : reportedFor u (past ++ [.report user seqNum]) =
    reportedFor u past ++ if user = u then [seqNum] else [] := by
  rw [reportedFor, List.filterMap_append, reportedFor]
  split
  · next heq => simp [heq]
  · next hne => simp [hne]

/-- What has been sent and reported, read off the queues. -/
structure Accounted (s₀ s : Chunkserver) (past : List Exchange) : Prop where
  secondaryFd : s.secondaryFd = s₀.secondaryFd
  sent : s.lru.sent = s₀.lru.sent ++ (transmissions past).map fun e => (s₀.secondaryFd, messageText e.2)
  named : ∀ e ∈ transmissions past, ',' ∉ e.1
  small : ∀ u, s.lastFor u ≤ intMax
  last : ∀ u, s.lastFor u = (sentFor u past).length
  numbered : ∀ u, Outbox.Numbered MsgPair.sq (sentFor u past)
  reported : ∀ u, ∀ n ∈ reportedFor u past, ∃ m ∈ sentFor u past, m.sq = n
  held : ∀ u, s.heldFor u = unreported u past
  occupied : s.Occupied

theorem Accounted.send (h : Accounted s₀ s past) (huser : ',' ∉ user) (hrun : s.sendToSecondary line user = .ok s') :
    Accounted s₀ s' (past ++ [.send user line]) := by
  obtain ⟨hsmall, hlru, hfd, hlast, hheld⟩ := sendToSecondary_ok hrun
  have hnew : MsgPair.of (s.lastFor user + 1) line = .of ((sentFor user past).length + 1) line := by rw [h.last]
  have hsq : (MsgPair.of ((sentFor user past).length + 1) line).sq = (sentFor user past).length + 1 :=
    MsgPair.of_sq (h.last user ▸ hsmall) line
  have hfresh : (MsgPair.of ((sentFor user past).length + 1) line).sq ∉ reportedFor user past := by
    intro hmem
    rw [hsq] at hmem
    have hrange := (h.numbered user).mem_iff.mp (h.reported user _ hmem)
    omega
  refine ⟨hfd.trans h.secondaryFd, ?_, ?_, fun u => ?_, fun u => ?_, fun u => ?_, fun u n hn => ?_, fun u => ?_,
    h.occupied.sendToSecondary hrun⟩
  · rw [hlru, transmissions_send, List.map_append, ← List.append_assoc, ← h.sent, h.secondaryFd, hnew]
    rfl
  · intro e he
    rw [transmissions_send, List.mem_append, List.mem_singleton] at he
    rcases he with he | rfl
    · exact h.named e he
    · exact huser
  · rw [hlast]
    split
    · exact hsmall.2
    · exact h.small u
  · rw [hlast, sentFor_send]
    split
    · next heq => rw [List.length_append, h.last, heq, List.length_singleton, Int.natCast_add]; rfl
    · rw [List.append_nil, h.last]
  · rw [sentFor_send]
    split
    · next heq => rw [← heq]; exact (h.numbered user).concat hsq
    · rw [List.append_nil]; exact h.numbered u
  · rw [reportedFor_send] at hn
    obtain ⟨m, hm, hsq⟩ := h.reported u n hn
    exact ⟨m, by rw [sentFor_send]; exact List.mem_append_left _ hm, hsq⟩
  · rw [hheld, unreported, sentFor_send, reportedFor_send]
    split
    · next heq =>
        have hwaiting : Outbox.waiting MsgPair.sq (sentFor user past ++ [.of ((sentFor user past).length + 1) line])
            (reportedFor user past) = unreported user past ++ [.of ((sentFor user past).length + 1) line] :=
          Outbox.waiting_concat hfresh
        rw [← heq, hwaiting, ← h.held, hnew]
    · rw [List.append_nil, h.held, unreported]

theorem Accounted.isInt_next (h : Accounted s₀ s past) (hsmall : s.lastFor user < intMax) : IsInt (s.lastFor user + 1) := by
  have hlast := h.last user
  simp only [IsInt, intMax] at hsmall ⊢
  omega

theorem Accounted.report (h : Accounted s₀ s past) (hsent : ∃ m ∈ sentFor user past, m.sq = seqNum)
    (hrun : s' = s.dropReported user seqNum) : Accounted s₀ s' (past ++ [.report user seqNum]) := by
  subst hrun
  refine ⟨h.secondaryFd, ?_, ?_, h.small, fun u => ?_, fun u => ?_, fun u n hn => ?_, fun u => ?_,
    h.occupied.dropReported⟩
  · rw [transmissions_report]
    exact h.sent
  · rw [transmissions_report]
    exact h.named
  · rw [sentFor_report]
    exact h.last u
  · rw [sentFor_report]
    exact h.numbered u
  · rw [sentFor_report]
    rw [reportedFor_report, List.mem_append] at hn
    rcases hn with hn | hn
    · exact h.reported u n hn
    · split at hn
      · next heq => rwa [← heq, List.mem_singleton.mp hn]
      · exact absurd hn List.not_mem_nil
  · rw [heldFor_dropReported, unreported, sentFor_report, reportedFor_report]
    split
    · next heq => rw [← heq, Outbox.waiting_ack, ← unreported, h.held]
    · rw [List.append_nil, h.held, unreported]

theorem Accounted.handleSecondaryReport (h : Accounted s₀ s past) (hsent : ∃ m ∈ sentFor user past, m.sq = seqNum) :
    s.handleSecondaryReport (Store.done user seqNum) = .ok (s.dropReported user seqNum) := by
  have hrange := (h.numbered user).mem_iff.mp hsent
  have hsmall := h.small user
  have hlast := h.last user
  obtain ⟨m, hm, _⟩ := hsent
  obtain ⟨e, he, _⟩ := List.mem_map.mp hm
  obtain ⟨hmem, huser⟩ := List.mem_filter.mp he
  obtain rfl : e.1 = user := of_decide_eq_true huser
  refine handleSecondaryReport_done (h.named e hmem) ?_ (by omega)
  simp only [intMax]
  omega

theorem accounted_of_exchanged (hrun : Exchanged s₀ past s) (hlast : s₀.seqNumRecords = ∅)
    (hheld : s₀.primaryHoldback = ∅) : Accounted s₀ s past := by
  induction hrun with
  | start =>
      refine ⟨rfl, (List.append_nil _).symm, fun e he => absurd he List.not_mem_nil, fun u => ?_, fun u => ?_,
        fun u => Outbox.numbered_nil, fun u n hn => absurd hn List.not_mem_nil, fun u => ?_, fun u => ?_⟩
      · simp [lastFor, hlast, intMax]
      · simp [lastFor, hlast, sentFor, transmissions]
      · simp [heldFor, hheld, unreported, sentFor, transmissions, Outbox.waiting_nil]
      · simp [hheld]
  | send _ huser hsend ih => exact ih.send huser hsend
  | report _ hsent hreport ih =>
      rw [ih.handleSecondaryReport hsent] at hreport
      exact ih.report hsent (Except.ok.inj hreport).symm

/-- **The queue is what has not been reported.** After any sends and reports the numbers sent for a user go
from one to its record without a gap, its queue lists the messages not reported in order, and a greeting
has exactly these sent again. A send fails only when the number would pass the largest `int`, a report never. -/
theorem holdback_of_exchanged (hrun : Exchanged (fresh capacity isPrimary fd) past s) :
    s.lru.sent = (transmissions past).map (fun e => (fd, messageText e.2)) ∧
    (∀ user, (sentFor user past).map MsgPair.sq =
      (List.range (s.seqNumRecords.getD user 0).toNat).map fun i : Nat => (i : Int) + 1) ∧
    (∀ user, s.primaryHoldback.getD user [] = unreported user past ∧
      (unreported user past).Pairwise (·.sq < ·.sq)) ∧
    s.checkPrimaryHoldback.lru.sent = s.lru.sent ++
      (s.primaryHoldback.keys.flatMap (unreported · past)).map (fun m => (fd, messageText m)) ∧
    (s.primaryHoldback.keys.Nodup ∧ ∀ user, user ∈ s.primaryHoldback.keys ↔ unreported user past ≠ []) ∧
    (∀ line user, s.seqNumRecords.getD user 0 < intMax → ∃ s', s.sendToSecondary line user = .ok s') ∧
    ∀ user seqNum, (∃ m ∈ sentFor user past, m.sq = seqNum) →
      ∃ s', s.handleSecondaryReport (Store.done user seqNum) = .ok s' := by
  have h := accounted_of_exchanged hrun rfl rfl
  have hheld : s.heldFor = (unreported · past) := funext h.held
  refine ⟨h.sent, fun user => ?_, fun user => ⟨h.held user, (h.numbered user).increasing_waiting⟩, ?_, ⟨?_, fun user => ?_⟩,
    fun line user hsmall => sendToSecondary_returns line (h.isInt_next hsmall), fun user seqNum hsent => ⟨_, h.handleSecondaryReport hsent⟩⟩
  · rw [h.numbered user]
    have hlast : s.seqNumRecords.getD user 0 = (sentFor user past).length := h.last user
    rw [hlast, Int.toNat_natCast]
  · rw [checkPrimaryHoldback_eq, heldMessages_eq, hheld, h.secondaryFd]
    rfl
  · exact ExtTreeMap.nodup_keys
  · rw [ExtTreeMap.mem_keys, ← h.held, heldFor, ExtTreeMap.getD_eq_getD_getElem?, ExtTreeMap.mem_iff_isSome_getElem?]
    cases hget : s.primaryHoldback[user]? with
    | none => simp
    | some held =>
        have hne : held ≠ [] := fun heq => h.occupied user (heq ▸ hget)
        simpa using hne

/-- Three sends to two users, and two reports of the second message of one. -/
theorem holdback_of_exchanged_three_sends : ∃ s : Chunkserver,
    s.primaryHoldback.getD "u".toList [] = [.of 1 "put u,f,a\r\n".toList] ∧
    ∃ s', s.handleSecondaryReport (Store.done "v".toList 1) = .ok s' := by
  let run : Except Fault (List Chunkserver) := do
    let s₁ ← (fresh 10 true 9).sendToSecondary "put u,f,a\r\n".toList "u".toList
    let s₂ ← s₁.sendToSecondary "put u,f,b\r\n".toList "u".toList
    let s₃ ← s₂.sendToSecondary "put v,f,c\r\n".toList "v".toList
    let s₄ ← s₃.handleSecondaryReport (Store.done "u".toList 2)
    let s₅ ← s₄.handleSecondaryReport (Store.done "u".toList 2)
    .ok [s₁, s₂, s₃, s₄, s₅]
  have hreturns : run.isOk = true := by decide +kernel
  cases hrun : run with
  | error fault => exact absurd hreturns (by rw [hrun]; exact Bool.false_ne_true)
  | ok states =>
      obtain ⟨s₁, h₁, hrun⟩ := Run.bind_eq_ok.mp hrun
      obtain ⟨s₂, h₂, hrun⟩ := Run.bind_eq_ok.mp hrun
      obtain ⟨s₃, h₃, hrun⟩ := Run.bind_eq_ok.mp hrun
      obtain ⟨s₄, h₄, hrun⟩ := Run.bind_eq_ok.mp hrun
      obtain ⟨s₅, h₅, _⟩ := Run.bind_eq_ok.mp hrun
      have hsends := ((Exchanged.start.send (by decide) h₁).send (by decide) h₂).send (by decide) h₃
      have hreports := (hsends.report (by decide) h₄).report (by decide) h₅
      obtain ⟨_, _, hheld, _, _, _, hreport⟩ := holdback_of_exchanged hreports
      exact ⟨s₅, (hheld "u".toList).1, hreport _ _ (by decide)⟩

end PennCloud.Chunkserver
