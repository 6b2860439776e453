import PennCloud.Kv.Proof.Serving

/-!
# The replication connection

Everything the primary forwards is a number, a comma and a line that its own dispatch has taken for a write, and what
it holds back it has forwarded before. But the primary reads the connection like that of a client: it answers
whatever is neither a report nor a greeting, and an answer has no number.
-/

namespace PennCloud.Chunkserver

open LRUCache Std

variable {s s' t : Chunkserver} {user line buffer text : Str} {fuel : Nat} {commFd fd seqNum : Int}

/-- A decimal number, a comma, and a line that is one of the four commands that write. -/
def Numbered (text : Str) : Prop := ∃ m : MsgPair, text = messageText m ∧ 0 < m.sq ∧ IsWrite m.msg

theorem not_numbered (hcomma : ',' ∉ text) : ¬ Numbered text := by
  rintro ⟨m, rfl, _, _⟩
  exact hcomma (List.mem_append_right _ List.mem_cons_self)

/-! ### What a node forwards -/

/-- Numbers are positive, and what is held back are commands. -/
structure Orderly (s : Chunkserver) : Prop where
  last : ∀ u, 0 ≤ s.lastFor u
  held : ∀ u, ∀ m ∈ s.heldFor u, 0 < m.sq ∧ IsWrite m.msg

theorem orderly_of_empty (hheld : s.primaryHoldback = ∅) (hlast : s.seqNumRecords = ∅) : s.Orderly := by
  refine ⟨fun u => ?_, fun u m hm => ?_⟩
  · simp [lastFor, hlast]
  · simp [heldFor, hheld] at hm

theorem Orderly.numbered (h : s.Orderly) {m : MsgPair} (hm : m ∈ s.heldMessages) : Numbered (messageText m) := by
  rw [heldMessages_eq, List.mem_flatMap] at hm
  obtain ⟨u, _, hm⟩ := hm
  exact ⟨m, rfl, h.held u m hm⟩

theorem Orderly.sendToSecondary (h : s.Orderly) (hwrite : IsWrite line) (hrun : s.sendToSecondary line user = .ok s') :
    s'.Orderly := by
  obtain ⟨hint, _, _, hlast, hheld⟩ := sendToSecondary_ok hrun
  have hnew := h.last user
  refine ⟨fun u => ?_, fun u m hm => ?_⟩
  · rw [hlast]
    split
    · omega
    · exact h.last u
  · rw [hheld] at hm
    split at hm
    · rcases List.mem_append.mp hm with hm | hm
      · exact h.held _ m hm
      · obtain rfl := List.mem_singleton.mp hm
        exact ⟨by rw [MsgPair.of_sq hint]; omega, hwrite⟩
    · exact h.held u m hm

theorem Orderly.dropReported (h : s.Orderly) : (s.dropReported user seqNum).Orderly := by
  refine ⟨h.last, fun u m hm => ?_⟩
  rw [heldFor_dropReported] at hm
  split at hm
  · exact h.held _ m (List.mem_of_mem_filter hm)
  · exact h.held u m hm

/-- What a node sends on a descriptor is numbered. -/
structure Relays (fd : Int) (s s' : Chunkserver) : Prop where
  orderly : s'.Orderly
  texts : ∃ texts, s'.sentTo fd = s.sentTo fd ++ texts ∧ ∀ text ∈ texts, Numbered text

theorem relays_nothing (h : s'.Orderly) (hsent : s'.sentTo fd = s.sentTo fd) : Relays fd s s' :=
  ⟨h, [], by rw [hsent, List.append_nil], fun _ htext => absurd htext List.not_mem_nil⟩

theorem relays_checkPrimaryHoldback (h : s.Orderly) : Relays fd s s.checkPrimaryHoldback := by
  refine ⟨?_, (s.heldMessages.filter fun _ => s.secondaryFd = fd).map messageText, ?_, fun text htext => ?_⟩
  · rw [checkPrimaryHoldback_eq]
    exact ⟨h.last, h.held⟩
  · rw [checkPrimaryHoldback_eq, sentTo, sentTo, List.filter_append, List.map_append]
    congr 1
    simp [List.filter_map, Function.comp_def]
  · obtain ⟨m, hm, rfl⟩ := List.mem_map.mp htext
    exact h.numbered (List.mem_of_mem_filter hm)

theorem relays_sendToSecondary (h : s.Orderly) (hwrite : IsWrite line)
    (hrun : s.sendToSecondary line user = .ok s') : Relays fd s s' := by
  refine ⟨h.sendToSecondary hwrite hrun, ?_⟩
  obtain ⟨hint, hlru, _⟩ := sendToSecondary_ok hrun
  have hnew := h.last user
  by_cases hfd : s.secondaryFd = fd
  · refine ⟨[messageText (.of (s.lastFor user + 1) line)], ?_, fun text htext => ?_⟩
    · rw [sentTo, hlru]
      simp [sentTo, LRUCache.send, hfd]
    · obtain rfl := List.mem_singleton.mp htext
      exact ⟨_, rfl, by rw [MsgPair.of_sq hint]; omega, hwrite⟩
  · refine ⟨[], ?_, fun _ htext => absurd htext List.not_mem_nil⟩
    rw [sentTo, hlru]
    simp [sentTo, LRUCache.send, hfd]

theorem Relays.trans (h : Relays fd s t) (h' : Relays fd t s') : Relays fd s s' := by
  obtain ⟨texts, hsent, hnumbered⟩ := h.texts
  obtain ⟨texts', hsent', hnumbered'⟩ := h'.texts
  refine ⟨h'.orderly, texts ++ texts', by rw [hsent', hsent, List.append_assoc], fun text htext => ?_⟩
  exact (List.mem_append.mp htext).elim (hnumbered text) (hnumbered' text)

theorem Relays.numbered (h : Relays fd s s') {texts : List Str} (htexts : s'.sentTo fd = s.sentTo fd ++ texts) :
    ∀ text ∈ texts, Numbered text := by
  obtain ⟨texts', htexts', hnumbered⟩ := h.texts
  rw [htexts'] at htexts
  exact List.append_cancel_left htexts ▸ hnumbered

/-- Whoever is served on another descriptor, only numbered messages go out on this one. -/
theorem serving_relays (hne : commFd ≠ fd) : Serving (fun s t => s.Orderly → Relays fd s t) commFd where
  refl _ h := relays_nothing h rfl
  trans _ _ _ h₁ h₂ h := (h₁ h).trans (h₂ (h₁ h).orderly)
  exec s _ _ lru hop hexec h := by
    have hanswers : Answers s.lru ({ s with lru := lru } : Chunkserver).lru commFd := hop ▸ answers_exec hexec
    exact relays_nothing ⟨h.last, h.held⟩ (sentTo_of_answers hanswers hne)
  getHelper s _ _ _ _ lru hget h := by
    have hanswers : Answers s.lru ({ s with lru := lru } : Chunkserver).lru commFd := answers_getHelper hget
    exact relays_nothing ⟨h.last, h.held⟩ (sentTo_of_answers hanswers hne)
  send _ _ h := relays_nothing ⟨h.last, h.held⟩ (sentTo_send_of_ne hne)
  log _ _ h := relays_nothing ⟨h.last, h.held⟩ rfl
  forward _ _ _ _ hwrite hrun h := relays_sendToSecondary h hwrite hrun
  drop _ _ _ h := relays_nothing h.dropReported rfl
  greet s h := by
    have hgreeted : Relays fd s { s with secondaryFd := commFd } := relays_nothing ⟨h.last, h.held⟩ rfl
    exact hgreeted.trans (relays_checkPrimaryHoldback hgreeted.orderly)

/-- On the connection itself the same holds of the messages that are not answered. -/
theorem Listens.relays (hlistens : Listens s commFd s') (h : s.Orderly) : Relays fd s s' := by
  cases hlistens with
  | greet =>
      have hgreeted : Relays fd s { s with secondaryFd := commFd } := relays_nothing ⟨h.last, h.held⟩ rfl
      exact hgreeted.trans (relays_checkPrimaryHoldback hgreeted.orderly)
  | drop user seqNum => exact relays_nothing h.dropReported rfl
  | ignore => exact relays_nothing h rfl

/-! ### What a node answers -/

/-- Nothing that has been sent is taken back. -/
theorem serving_prefix : Serving (fun s t => s.lru.sent <+: t.lru.sent) commFd where
  refl _ := List.prefix_rfl
  trans _ _ _ h₁ h₂ := h₁.trans h₂
  exec _ _ _ _ _ hexec := by
    obtain ⟨replies, hsent, _⟩ := (answers_exec hexec).replies
    exact ⟨replies, hsent.symm⟩
  getHelper _ _ _ _ _ _ hget := by
    obtain ⟨replies, hsent, _⟩ := (answers_getHelper hget).replies
    exact ⟨replies, hsent.symm⟩
  send _ _ := List.prefix_append ..
  log _ _ := List.prefix_rfl
  forward _ _ _ _ _ hrun := by
    obtain ⟨_, hlru, _⟩ := sendToSecondary_ok hrun
    rw [hlru]
    exact List.prefix_append ..
  drop _ _ _ := List.prefix_rfl
  greet s := by
    rw [checkPrimaryHoldback_eq]
    exact List.prefix_append ..

theorem exists_answer (hrun : s.worker fuel commFd buffer = .ok s') (hanswered : ¬ Unanswered (cstr buffer))
    {texts : List Str} (htexts : s'.sentTo commFd = s.sentTo commFd ++ texts) : ∃ text ∈ texts, ',' ∉ text := by
  have hlast : ∃ (t : Chunkserver) (text : Str), s.lru.sent <+: t.lru.sent ∧ s' = t.send commFd text ∧ ',' ∉ text := by
    rcases serving_prefix.worker_cases hrun with ⟨hun, _⟩ | ⟨_, t, ht, rfl | rfl | rfl⟩
    · exact absurd hun hanswered
    · exact ⟨t, _, ht, rfl, by decide⟩
    · exact ⟨t, _, ht, rfl, by decide⟩
    · exact ⟨t, _, ht, rfl, by decide⟩
  obtain ⟨t, text, ⟨more, hmore⟩, rfl, hcomma⟩ := hlast
  refine ⟨text, ?_, hcomma⟩
  rw [sentTo, send, LRUCache.send, ← hmore] at htexts
  simp only [List.filter_append, List.map_append, List.append_assoc] at htexts
  rw [← List.append_cancel_left htexts]
  simp

/-! ### The two nodes -/

/-- The two ends of the connection, and everything that has been sent over it: the texts of the primary, of which the
secondary has executed some, and those of the secondary, of which the primary has handled some. -/
structure Dialogue where
  primary : Chunkserver
  secondary : Chunkserver
  commands : List Str
  executed : Nat
  replies : List Str
  handled : Nat

/-- A request of a client, or the next message of one of the two ends. -/
inductive Turn where
  | client (commFd : Int) (buffer : Str)
  | execute
  | handle
  deriving DecidableEq

namespace Dialogue

/-- A secondary that has just connected. -/
def start (primary secondary : Chunkserver) : Dialogue := ⟨primary, secondary, [], 0, ["S\r\n".toList], 0⟩

/-- `link` is the descriptor of the connection at the primary, `sock` at the secondary. -/
inductive Step (link sock : Int) (d : Dialogue) : Turn → Dialogue → Prop where
  | client {commFd : Int} {buffer : Str} {fuel : Nat} {primary : Chunkserver} {texts : List Str} :
      commFd ≠ link → d.primary.worker fuel commFd buffer = .ok primary →
      primary.sentTo link = d.primary.sentTo link ++ texts →
      Step link sock d (.client commFd buffer) { d with primary := primary, commands := d.commands ++ texts }
  | execute {text : Str} {fuel : Nat} {secondary : Chunkserver} {texts : List Str} :
      d.commands[d.executed]? = some text → d.secondary.psWorker fuel sock text = .ok secondary →
      secondary.sentTo sock = d.secondary.sentTo sock ++ texts →
      Step link sock d .execute { d with
        secondary := secondary, executed := d.executed + 1, replies := d.replies ++ texts }
  | handle {text : Str} {fuel : Nat} {primary : Chunkserver} {texts : List Str} :
      d.replies[d.handled]? = some text → d.primary.worker fuel link text = .ok primary →
      primary.sentTo link = d.primary.sentTo link ++ texts →
      Step link sock d .handle { d with
        primary := primary, handled := d.handled + 1, commands := d.commands ++ texts }

variable {link sock : Int} {d d' : Dialogue} {turn : Turn} {turns : List Turn}

/-- Every message of the primary is numbered. -/
def AllNumbered (d : Dialogue) : Prop := ∀ text ∈ d.commands, Numbered text

/-- The primary has handled nothing but greetings, reports and `quit`. -/
def NoneAnswered (d : Dialogue) : Prop := ∀ text ∈ d.replies.take d.handled, Unanswered (cstr text)

/-- What every turn keeps. -/
structure Consistent (d : Dialogue) : Prop where
  handled : d.handled ≤ d.replies.length
  orderly : d.NoneAnswered → d.primary.Orderly
  numbered : d.AllNumbered ↔ d.NoneAnswered

theorem Consistent.client (h : d.Consistent) {primary : Chunkserver} {texts : List Str} (hne : commFd ≠ link)
    (hrun : d.primary.worker fuel commFd buffer = .ok primary)
    (htexts : primary.sentTo link = d.primary.sentTo link ++ texts) :
    Consistent { d with primary := primary, commands := d.commands ++ texts } := by
  have hrelays (hnone : d.NoneAnswered) := (serving_relays hne).worker hrun (h.orderly hnone)
  refine ⟨h.handled, fun hnone => (hrelays hnone).orderly, ?_⟩
  constructor
  · intro hall
    exact h.numbered.mp fun text htext => hall text (List.mem_append_left _ htext)
  · intro hnone text htext
    rcases List.mem_append.mp htext with htext | htext
    · exact h.numbered.mpr hnone text htext
    · exact (hrelays hnone).numbered htexts text htext

theorem Consistent.handle (h : d.Consistent) {primary : Chunkserver} {texts : List Str}
    (hnext : d.replies[d.handled]? = some text) (hrun : d.primary.worker fuel link text = .ok primary)
    (htexts : primary.sentTo link = d.primary.sentTo link ++ texts) :
    Consistent { d with primary := primary, handled := d.handled + 1, commands := d.commands ++ texts } := by
  obtain ⟨hlt, _⟩ := List.getElem?_eq_some_iff.mp hnext
  have htake : d.replies.take (d.handled + 1) = d.replies.take d.handled ++ [text] := by
    rw [List.take_add_one, hnext, Option.toList_some]
  have hnone : NoneAnswered { d with primary := primary, handled := d.handled + 1, commands := d.commands ++ texts } ↔
      d.NoneAnswered ∧ Unanswered (cstr text) := by
    rw [NoneAnswered, NoneAnswered]
    dsimp only
    rw [htake, List.forall_mem_append, List.forall_mem_singleton]
  -- a message that is not answered is a greeting, a report or `quit`
  have hrelays (hbefore : d.NoneAnswered) (hun : Unanswered (cstr text)) : Relays link d.primary primary := by
    rcases serving_prefix.worker_cases hrun with ⟨_, hlistens⟩ | ⟨hanswered, _⟩
    · exact hlistens.relays (h.orderly hbefore)
    · exact absurd hun hanswered
  refine ⟨by dsimp only; omega, fun hafter => ?_, ?_⟩
  · obtain ⟨hbefore, hun⟩ := hnone.mp hafter
    exact (hrelays hbefore hun).orderly
  · rw [hnone]
    constructor
    · intro hall
      refine ⟨h.numbered.mp fun text htext => hall text (List.mem_append_left _ htext), ?_⟩
      by_contra hanswered
      obtain ⟨answer, hanswer, hcomma⟩ := exists_answer hrun hanswered htexts
      exact not_numbered hcomma (hall answer (List.mem_append_right _ hanswer))
    · rintro ⟨hbefore, hun⟩ text' htext'
      rcases List.mem_append.mp htext' with htext' | htext'
      · exact h.numbered.mpr hbefore text' htext'
      · exact (hrelays hbefore hun).numbered htexts text' htext'

theorem Consistent.step (h : d.Consistent) (hstep : Step link sock d turn d') : d'.Consistent := by
  cases hstep with
  | client hne hrun htexts => exact h.client hne hrun htexts
  | execute hnext hrun htexts =>
      refine ⟨?_, fun hnone => h.orderly ?_, ?_⟩
      · exact h.handled.trans (by simp)
      · rw [NoneAnswered] at hnone
        dsimp only at hnone
        rwa [List.take_append_of_le_length h.handled] at hnone
      · refine h.numbered.trans ?_
        rw [NoneAnswered, NoneAnswered]
        dsimp only
        rw [List.take_append_of_le_length h.handled]
  | handle hnext hrun htexts => exact h.handle hnext hrun htexts

/-- The delete of an unknown user fails at the secondary as well. The primary answers the error, and the secondary finds
no comma in the answer. -/
theorem not_allNumbered_dele : ∃ (turns : List Turn) (d : Dialogue),
    Run.Runs (Step 9 5) (start (fresh 10 true 0) (fresh 10 false 0)) turns d ∧ ¬ d.AllNumbered ∧
      d.commands = ["1,dele u,f\r\n".toList, "-ERR Not supported\r\n".toList] ∧
        (d.secondary.psWorker 4 5 "-ERR Not supported\r\n".toList).map (fun _ => ()) = .error .nullDeref := by
  let run : Except Fault (Chunkserver × Chunkserver × Chunkserver × Chunkserver) := do
    let p₁ ← (fresh 10 true 0).worker 4 9 "S\r\n".toList
    let p₂ ← p₁.worker 4 3 "dele u,f\r\n".toList
    let s₁ ← (fresh 10 false 0).psWorker 4 5 "1,dele u,f\r\n".toList
    let p₃ ← p₂.worker 4 9 "-ERR User not exist\r\n".toList
    .ok (p₁, p₂, s₁, p₃)
  have hfold : (match run with
      | .ok (p₁, p₂, s₁, p₃) => decide (
          p₁.sentTo 9 = (fresh 10 true 0).sentTo 9 ++ [] ∧
          p₂.sentTo 9 = p₁.sentTo 9 ++ ["1,dele u,f\r\n".toList] ∧
          s₁.sentTo 5 = (fresh 10 false 0).sentTo 5 ++ ["-ERR User not exist\r\n".toList] ∧
          p₃.sentTo 9 = p₂.sentTo 9 ++ ["-ERR Not supported\r\n".toList] ∧
          (s₁.psWorker 4 5 "-ERR Not supported\r\n".toList).map (fun _ => ()) = .error .nullDeref)
      | .error _ => false) = true := by decide +kernel
  cases hrun : run with
  | error fault => exact absurd hfold (by rw [hrun]; exact Bool.false_ne_true)
  | ok states =>
      obtain ⟨p₁, hp₁, hrest⟩ := Run.bind_eq_ok.mp hrun
      obtain ⟨p₂, hp₂, hrest⟩ := Run.bind_eq_ok.mp hrest
      obtain ⟨s₁, hs₁, hrest⟩ := Run.bind_eq_ok.mp hrest
      obtain ⟨p₃, hp₃, hrest⟩ := Run.bind_eq_ok.mp hrest
      cases hrest
      rw [hrun] at hfold
      obtain ⟨hsent₁, hsent₂, hreply, hsent₃, hfault⟩ := of_decide_eq_true hfold
      have hne : (3 : Int) ≠ 9 := by decide
      have hcomma : ',' ∉ "-ERR Not supported\r\n".toList := by decide
      have hstart : Run.Runs (Step 9 5) (start (fresh 10 true 0) (fresh 10 false 0)) [] _ := .nil
      have hgreet := hstart.snoc (.handle rfl hp₁ hsent₁)
      have hdele := hgreet.snoc (.client hne hp₂ hsent₂)
      have hexecute := hdele.snoc (.execute rfl hs₁ hreply)
      have hanswer := hexecute.snoc (.handle rfl hp₃ hsent₃)
      refine ⟨_, _, hanswer, fun hall => ?_, rfl, hfault⟩
      exact not_numbered hcomma (hall _ (List.mem_cons_of_mem _ List.mem_cons_self))

end Dialogue

end PennCloud.Chunkserver
