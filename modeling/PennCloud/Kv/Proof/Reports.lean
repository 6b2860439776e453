import PennCloud.Kv.Proof.Changes
import PennCloud.Kv.Proof.Dialogue
import PennCloud.Kv.Proof.Newcomers
import PennCloud.Kv.Proof.Restore
import PennCloud.Kv.Proof.Restart
import PennCloud.Kv.Proof.Roles

/-!
# A secondary that can do what it is told

A secondary reports a write that it has executed. It answers anything else only when the user or the file is not there,
when the stored version is another one, or when there is no room. As long as it is told nothing of that kind, the
primary reads nothing but reports on the connection, and every message it sends there is numbered.
-/

namespace PennCloud.LRUCache

open Std

variable {s t s' : LRUCache} {user filename value oldValue newValue newFilename : Str} {files : Map Str} {fuel : Nat}
  {commFd seqNum : Int} {found : Option Str} {r : Ref} {op : Op} {isCPUT : Bool}

/-- The user is in memory, unknown, or can be brought back without an eviction. -/
def WithinReach (s : LRUCache) (user : Str) : Prop :=
  s.virmemMeta[user]? ≠ none → 0 ≤ s.memoryUsed ∧ s.capacity ≤ intMax ∧
    s.memoryUsed + bytesOf (pairUp (Fields.pieces ',' (s.rowOnDisk user))) ≤ s.capacity

/-- The node can execute the command: what the command names is stored and within reach, and the limits are kept. -/
def Complies (s : LRUCache) : Op → Prop
  | .put user _ value _ _ => ¬ s.Refused user value ∧ (s.Newcomer user ∨ s.fits value = true ∧ s.WithinReach user)
  | .get _ _ _ => False
  | .cput user filename oldValue newValue _ _ => s.WithinReach user ∧ (s.filesOf user)[filename]? = some oldValue ∧
      (s.discharged user oldValue.length).exceedsQuota user newValue = false
  | .dele user filename _ _ _ => s.WithinReach user ∧ filename ∈ s.filesOf user
  | .rename user oldFilename _ _ _ => s.WithinReach user ∧ oldFilename ∈ s.filesOf user

/-! ### Bringing a user back -/

theorem reload_within (h : s.Wired) (hreach : s.WithinReach user) (hvirmem : s.virmemMeta[user]? ≠ none)
    (hrun : s.loadUserFromDisk fuel .virtualMemory user commFd = .ok t) :
    t.Building user (s.filesOf user) ∧ t.sent = s.sent := by
  obtain ⟨hmem, hcap, hroom⟩ := hreach hvirmem
  have habsent := h.tidy.absent_of_virmem hvirmem
  obtain ⟨row, hread, hrun⟩ := Run.bind_eq_ok.mp hrun
  have hrow : s.rowOnDisk user = row := rowOnDisk_of_readRow hread
  have hbuilding : (s.clearMetadata .virtualMemory user).Building user ∅ := by
    obtain ⟨p, hp, _⟩ := h.exists_prev
    exact ⟨Or.inl ⟨habsent, rfl⟩, clearMetadata_getElem?.trans (if_pos rfl), p, hp⟩
  rw [hrow] at hroom
  rw [filesOf_of_absent habsent, hrow, filesOfRow]
  cases fuel with
  | zero =>
      -- without depth a row with no pairs is all that loads
      rw [restoreUserWith] at hrun
      cases hpairs : pairUp (Fields.pieces ',' row) with
      | nil =>
          rw [hpairs] at hrun
          obtain rfl := Except.ok.inj hrun
          exact ⟨hbuilding, rfl⟩
      | cons file pairs =>
          rw [hpairs, List.foldlM_cons] at hrun
          obtain ⟨t', hput, _⟩ := Run.bind_eq_ok.mp hrun
          rw [hpairs, bytesOf_cons] at hroom
          have hlength : file.2.length ≤ toSize s.capacity := by
            rw [toSize_of_nonneg (by omega) hcap]
            omega
          rcases put_ok hput with ⟨hlarge, _⟩ | ⟨_, hloop⟩
          · exact absurd hlength (Nat.not_le.mpr hlarge)
          · cases hloop
  | succ fuel =>
      obtain ⟨t', hrestore, hbuilt, _, _, hsent⟩ :=
        hbuilding.restore fuel commFd (pairUp (Fields.pieces ',' row)) hmem hroom hcap
      obtain rfl := Except.ok.inj (hrestore.symm.trans hrun)
      exact ⟨hbuilt, hsent⟩

theorem getHelper_within (h : s.Wired) (hreach : s.WithinReach user) (hfile : (s.filesOf user)[filename]? = some value)
    (hrun : s.getHelper fuel user filename commFd = .ok (found, t)) :
    found = some value ∧ t.sent = s.sent ∧ t.isPrimary = s.isPrimary ∧ ∃ r, t.tablets[user]? = some r := by
  have hrole := (utters_getHelper hrun).role
  have hknown : ¬ (s.tablets[user]? = none ∧ s.virmemMeta[user]? = none) := by
    rintro hunknown
    rw [filesOf_unknown hunknown] at hfile
    simp at hfile
  rw [getHelper_of_known hknown] at hrun
  obtain ⟨t', hfetched, hrun⟩ := Run.bind_eq_ok.mp hrun
  have hheld : ∃ r, t'.tablets[user]? = some r ∧ (t'.heap r).value = s.filesOf user ∧ t'.sent = s.sent := by
    rw [fetched] at hfetched
    split at hfetched
    · next hcontains =>
        have hvirmem : s.virmemMeta[user]? ≠ none := by
          rwa [ExtTreeMap.contains_eq_isSome_getElem?, Option.isSome_iff_ne_none] at hcontains
        obtain ⟨hbuilding, hsent⟩ := reload_within h hreach hvirmem hfetched
        rcases hbuilding.held with ⟨_, hempty⟩ | ⟨i, hresident, hvalue⟩
        · rw [hempty] at hfile
          simp at hfile
        · exact ⟨_, hresident, hvalue, hsent⟩
    · next hcontains =>
        obtain rfl := Except.ok.inj hfetched
        cases hresident : s.tablets[user]? with
        | none =>
            rw [ExtTreeMap.contains_eq_isSome_getElem?, Bool.not_eq_true, Option.isSome_eq_false_iff,
              Option.isNone_iff_eq_none] at hcontains
            exact absurd ⟨hresident, hcontains⟩ hknown
        | some r => exact ⟨r, rfl, (filesOf_of_resident hresident).symm, rfl⟩
  obtain ⟨r, hresident, hvalue, hsent⟩ := hheld
  obtain ⟨hfound, hlooked, htablets⟩ := lookUp_of_file hresident (by rw [hvalue, hfile]) hrun
  exact ⟨hfound, hlooked.trans hsent, hrole, r, by rw [htablets, hresident]⟩

theorem WithinReach.congr (h : s.WithinReach user) (hvirmem : s'.virmemMeta = s.virmemMeta)
    (hmemory : s'.memoryUsed = s.memoryUsed) (hcapacity : s'.capacity = s.capacity)
    (hdisk : s'.disk.files = s.disk.files) : s'.WithinReach user := by
  rwa [WithinReach, hvirmem, hmemory, hcapacity, rowOnDisk_congr hvirmem hdisk]

/-! ### What a secondary answers -/

theorem storeResident_sent {new : Str → Str} (hrun : s.storeResident user filename new = .ok t) : t.sent = s.sent := by
  obtain ⟨r, _, hrun⟩ := Run.bind_eq_ok.mp hrun
  obtain ⟨L, rfl⟩ := moveToTail_relink hrun
  rfl

theorem placeValue_within (h : s.Wired) (hreach : s.WithinReach user)
    (hrun : s.placeValue (reload fuel commFd) user filename value isCPUT = .ok t) : t.sent = s.sent := by
  cases hresident : s.tablets[user]? with
  | some r =>
      rw [placeValue_held hresident (h.tidy.disjoint user r hresident)] at hrun
      exact storeResident_sent hrun
  | none =>
      cases hvirmem : s.virmemMeta[user]? with
      | none =>
          rw [placeValue_unknown hresident hvirmem] at hrun
          obtain ⟨p, _, rfl⟩ := insertUser_ok hrun
          rfl
      | some records =>
          rw [placeValue_evicted hresident hvirmem] at hrun
          obtain ⟨t', hload, hrun⟩ := Run.bind_eq_ok.mp hrun
          have hloaded := reload_within h hreach (by rw [hvirmem]; exact Option.some_ne_none records) hload
          exact (storeResident_sent hrun).trans hloaded.2

theorem sent_put_within (h : s.Wired) (hfollows : s.isPrimary = false) (htaken : ¬ s.Refused user value)
    (hfits : s.fits value = true) (hreach : s.WithinReach user)
    (hrun : s.put fuel user filename value commFd true seqNum = .ok t) :
    t.sent = s.sent ++ [(commFd, Store.done user seqNum)] := by
  rcases put_ok hrun with ⟨hlarge, _⟩ | ⟨_, hloop⟩
  · exact absurd (Or.inl hlarge) htaken
  cases fuel with
  | zero => cases hloop
  | succ fuel =>
      have hquota : s.exceedsQuota user value = false := Bool.eq_false_iff.mpr fun hover => htaken (Or.inr hover)
      have hwired : (s.touched user true false).Wired :=
        h.congr (touched_heap ..) (touched_nodes ..) (touched_tablets ..) fun u hu => by rwa [touched_virmemMeta]
      have hreach' : (s.touched user true false).WithinReach user :=
        hreach.congr (touched_virmemMeta ..) (by rw [touched_eq]) touched_capacity (by rw [touched_eq])
      rcases putLoop_succ_ok hloop with hdone | ⟨_, _, hroom, _⟩
      · rcases putHelper_ok hdone with ⟨_, _, hover, _⟩ | ⟨_, _, _, t', hplace, rfl⟩ | ⟨hstored, _⟩
        · exact absurd (hquota.symm.trans hover) Bool.false_ne_true
        · have htouched : Utters s (s.touched user true false) commFd := (steady_utters s user).touched _ _ _ .refl
          have hplaced : Utters s t' commFd := by
            refine (steady_utters s user).placeValue (fun t t' ht hload => ?_) htouched trivial hplace
            exact ht.trans (utters_loadUserFromDisk hload)
          have hsent : t'.sent = s.sent := by
            rw [placeValue_within hwired hreach' hplace, touched_eq]
          rw [charged_sent, hsent, storedReply, hplaced.role, hfollows, if_neg Bool.false_ne_true]
        · exact absurd hstored Bool.false_ne_true.symm
      · rcases putHelper_ok hroom with ⟨hstored, _⟩ | ⟨hstored, _⟩ | ⟨_, _, hlarge, _⟩
        · exact absurd hstored Bool.false_ne_true
        · exact absurd hstored Bool.false_ne_true
        · exact absurd (hfits.symm.trans hlarge) (by decide)

theorem sent_erase_within {isMigration : Bool} (hfollows : t.isPrimary = false) (hresident : t.tablets[user]? = some r)
    (hrun : t.eraseFile user filename commFd seqNum isMigration = .ok s') :
    ∃ texts : List Str, s'.sent = t.sent ++ texts.map (commFd, ·) ∧ ∀ text ∈ texts, text = Store.done user seqNum := by
  rw [eraseFile_eq_reportDeleted hresident] at hrun
  obtain rfl := Except.ok.inj hrun
  dsimp only
  rw [reportDeleted, hfollows, if_neg Bool.false_ne_true]
  split
  · exact ⟨[Store.done user seqNum], rfl, fun text htext => List.mem_singleton.mp htext⟩
  · exact ⟨[], (List.append_nil _).symm, fun _ htext => absurd htext List.not_mem_nil⟩

theorem sent_exchange_within (h : t.Wired) (hfollows : t.isPrimary = false) (hresident : t.tablets[user]? = some r)
    {size : Int} {stored : Bool} (hquota : (t.discharged user size).exceedsQuota user value = false)
    (hrun : (t.discharged user size).putHelper (reload fuel commFd) user filename value commFd true true seqNum =
      .ok (stored, s')) :
    ∃ texts : List Str, s'.sent = t.sent ++ texts.map (commFd, ·) ∧ ∀ text ∈ texts, text = Store.done user seqNum := by
  rcases putHelper_ok hrun with ⟨_, _, hover, _⟩ | ⟨_, _, _, t', hplace, rfl⟩ | ⟨_, _, _, rfl⟩
  · exact absurd (hquota.symm.trans hover) Bool.false_ne_true
  · have hresident' : ((t.discharged user size).touched user true true).tablets[user]? = some r := by
      rw [touched_tablets]
      exact hresident
    have hvirmem : ((t.discharged user size).touched user true true).virmemMeta[user]? = none := by
      rw [touched_virmemMeta]
      exact h.tidy.disjoint user r hresident
    rw [placeValue_held hresident' hvirmem] at hplace
    have hsent : t'.sent = t.sent := by
      rw [storeResident_sent hplace, touched_eq]
      rfl
    have hrole : t'.isPrimary = false := by
      obtain ⟨r', _, hstore⟩ := Run.bind_eq_ok.mp hplace
      obtain ⟨L, rfl⟩ := moveToTail_relink hstore
      rw [touched_eq]
      exact hfollows
    refine ⟨[Store.done user seqNum], ?_, fun text htext => List.mem_singleton.mp htext⟩
    rw [charged_sent, hsent, storedReply, hrole, if_neg Bool.false_ne_true]
    rfl
  · refine ⟨[], ?_, fun _ htext => absurd htext List.not_mem_nil⟩
    rw [touched_eq, List.map_nil, List.append_nil]
    rfl

/-- What a secondary complies with it reports, and it answers nothing else. -/
theorem Complies.sent (h : s.Wired) (hfollows : s.isPrimary = false) (hcomplies : s.Complies op)
    (hrun : s.exec fuel op = .ok s') : ∃ texts : List Str, s'.sent = s.sent ++ texts.map (op.commFd, ·) ∧
      ∀ text ∈ texts, ∃ seqNum, text = Store.done op.user seqNum := by
  cases op with
  | put user filename value commFd seqNum =>
      obtain ⟨htaken, hplace⟩ := hcomplies
      refine ⟨[Store.done user seqNum], ?_, fun text htext => ⟨seqNum, List.mem_singleton.mp htext⟩⟩
      rcases hplace with hnew | ⟨hfits, hreach⟩
      · rw [(hnew.put h htaken hrun).2, storedReply, hfollows, if_neg Bool.false_ne_true]
        rfl
      · exact sent_put_within h hfollows htaken hfits hreach hrun
  | get user filename commFd => exact absurd hcomplies id
  | cput user filename oldValue newValue commFd seqNum =>
      obtain ⟨hreach, hfile, hquota⟩ := hcomplies
      obtain ⟨found, t, hget, hrest⟩ := cput_ok hrun
      obtain ⟨hfound, hsent, hrole, r, hresident⟩ := getHelper_within h hreach hfile hget
      obtain ⟨hne, _⟩ | ⟨_, stored, hput⟩ := hrest
      · exact absurd hfound hne
      · have hquota' : (t.discharged user oldValue.length).exceedsQuota user newValue = false := by
          have huttered := utters_getHelper hget
          have hcapacity : (t.discharged user oldValue.length).capacity = (s.discharged user oldValue.length).capacity :=
            huttered.capacity
          rw [exceedsQuota, discharged_userSizeOf, huttered.sizes, hcapacity, ← discharged_userSizeOf]
          exact hquota
        obtain ⟨texts, htexts, hreports⟩ :=
          sent_exchange_within (closed_wired.getHelper h hget) (hrole.trans hfollows) hresident hquota' hput
        exact ⟨texts, by rw [htexts, hsent]; rfl, fun text htext => ⟨seqNum, hreports text htext⟩⟩
  | dele user filename commFd seqNum isMigration =>
      obtain ⟨hreach, hmem⟩ := hcomplies
      obtain ⟨value, hfile⟩ := Option.isSome_iff_exists.mp (ExtTreeMap.isSome_getElem?_iff_mem.mpr hmem)
      obtain ⟨⟨found, t⟩, hget, hrun⟩ := Run.bind_eq_ok.mp hrun
      obtain ⟨rfl, hsent, hrole, r, hresident⟩ := getHelper_within h hreach hfile hget
      obtain ⟨texts, htexts, hreports⟩ := sent_erase_within (hrole.trans hfollows) hresident hrun
      exact ⟨texts, by rw [htexts, hsent]; rfl, fun text htext => ⟨seqNum, hreports text htext⟩⟩
  | rename user filename newFilename commFd seqNum =>
      obtain ⟨hreach, hmem⟩ := hcomplies
      obtain ⟨value, hfile⟩ := Option.isSome_iff_exists.mp (ExtTreeMap.isSome_getElem?_iff_mem.mpr hmem)
      obtain ⟨⟨found, t⟩, hget, hrun⟩ := Run.bind_eq_ok.mp hrun
      obtain ⟨rfl, hsent, hrole, r, hresident⟩ := getHelper_within h hreach hfile hget
      have hrun : t.moveFile user filename newFilename value commFd seqNum = .ok s' := hrun
      rw [moveFile_eq_send hresident] at hrun
      obtain rfl := Except.ok.inj hrun
      refine ⟨[Store.done user seqNum], ?_, fun text htext => ⟨seqNum, List.mem_singleton.mp htext⟩⟩
      rw [hrole, hfollows, if_neg Bool.false_ne_true, hsent]
      rfl

end PennCloud.LRUCache

namespace PennCloud.Chunkserver

open LRUCache

variable {s s' : Chunkserver} {text line : Str} {fuel : Nat} {fd link sock : Int}

/-! ### What a numbered message asks for -/

theorem Numbered.reads (h : Numbered text) : ∃ (m : MsgPair) (request : Request),
    cstr text = messageText m ∧ '\x00' ∉ m.msg ∧ requested m.msg = some request := by
  obtain ⟨m, rfl, _, request, hrequested⟩ := h
  refine ⟨⟨m.sq, cstr m.msg, m.isInt⟩, request, ?_, notMem_cstr _, hrequested⟩
  have hnumber : '\x00' ∉ toStr m.sq ++ [','] := by
    rw [List.mem_append, not_or]
    exact ⟨notMem_toStr (by decide) (by decide), by decide⟩
  rw [messageText, messageText, List.append_cons, cstr_append hnumber, ← List.append_cons]

theorem unanswered_done (user : Str) (seqNum : Int) : Unanswered (cstr (Store.done user seqNum)) := by
  have hcstr : cstr (Store.done user seqNum) = "DONE".toList ++ ' ' :: cstr (user ++ ',' :: toStr seqNum ++ "\r\n".toList) := by
    have hsplit : Store.done user seqNum = "DONE ".toList ++ (user ++ ',' :: toStr seqNum ++ "\r\n".toList) := by
      simp only [Store.done, List.append_assoc]
    rw [hsplit, cstr_append (by decide)]
    rfl
  refine Or.inr (Or.inl ?_)
  rw [hcstr, parseCommand_append "DONE".toList (by decide) (by decide)]
  rfl

namespace Dialogue

variable {d d' : Dialogue} {turn : Turn} {turns : List Turn}

/-- Whatever the secondary executes next it can execute. -/
def Complies (sock : Int) (d : Dialogue) : Turn → Prop
  | .execute => ∀ text ∈ d.commands[d.executed]?, ∀ seqNum line request, splitMessage (cstr text) = .ok (seqNum, line) →
      requested line = some request → d.secondary.lru.Complies (request sock seqNum)
  | _ => True

/-- The two nodes while the secondary has only had reports to send. -/
structure Obedient (d : Dialogue) : Prop where
  consistent : d.Consistent
  wired : d.secondary.lru.Wired
  follows : d.secondary.lru.isPrimary = false
  unanswered : ∀ text ∈ d.replies, Unanswered (cstr text)

theorem Obedient.numbered (h : d.Obedient) : d.AllNumbered :=
  h.consistent.numbered.mpr fun text htext => h.unanswered text (List.mem_of_mem_take htext)

theorem Obedient.execute (h : d.Obedient) {secondary : Chunkserver} {texts : List Str}
    (hcomplies : d.Complies sock .execute) (hnext : d.commands[d.executed]? = some text)
    (hrun : d.secondary.psWorker fuel sock text = .ok secondary)
    (htexts : secondary.sentTo sock = d.secondary.sentTo sock ++ texts) : ∀ text ∈ texts, Unanswered (cstr text) := by
  obtain ⟨m, request, hcstr, hnul, hrequested⟩ := (h.numbered text (List.mem_of_getElem? hnext)).reads
  have hsplit : splitMessage (cstr text) = .ok (m.sq, m.msg) := by rw [hcstr, splitMessage_messageText]
  have hop := hcomplies text (Option.mem_def.mpr hnext) m.sq m.msg request hsplit hrequested
  have hsame : d.secondary.psWorker fuel sock text = d.secondary.psWorker fuel sock (messageText m) := by
    rw [psWorker, psWorker, hcstr, cstr_of_notMem (notMem_messageText hnul)]
  rw [hsame, psWorker_eq hnul hrequested] at hrun
  obtain ⟨lru, hexec, _, hfollows⟩ := perform_ok hrun
  obtain rfl := hfollows h.follows
  obtain ⟨reports, hsent, hreports⟩ := hop.sent h.wired h.follows hexec
  rw [commFd_request hrequested] at hsent
  have hreplies : (({ d.secondary with lru := lru.act (.appendLog m.msg) } : Chunkserver).sentTo sock) =
      d.secondary.sentTo sock ++ reports := by
    have hlog : (lru.act (.appendLog m.msg)).sent = lru.sent := rfl
    rw [sentTo, sentTo]
    dsimp only
    rw [hlog, hsent]
    simp [List.filter_map, Function.comp_def]
  rw [hreplies] at htexts
  obtain rfl := List.append_cancel_left htexts
  intro text htext
  obtain ⟨seqNum, rfl⟩ := hreports text htext
  exact unanswered_done _ seqNum

theorem Obedient.step (h : d.Obedient) (hstep : Step link sock d turn d') (hcomplies : d.Complies sock turn) :
    d'.Obedient := by
  have hconsistent := h.consistent.step hstep
  cases hstep with
  | client hne hrun htexts => exact ⟨hconsistent, h.wired, h.follows, h.unanswered⟩
  | execute hnext hrun htexts =>
      refine ⟨hconsistent, lasting_wired.psWorker h.wired hrun, (role_psWorker hrun).trans h.follows, fun text htext => ?_⟩
      rcases List.mem_append.mp htext with htext | htext
      · exact h.unanswered text htext
      · exact h.execute hcomplies hnext hrun htexts text htext
  | handle hnext hrun htexts => exact ⟨hconsistent, h.wired, h.follows, h.unanswered⟩

/-- In every run in which the secondary can execute what it is told, every message of the primary is a number, a comma
and a line with one of the four commands that write. -/
theorem allNumbered_of_runs {capacity secondaryFd : Int} {isPrimary optN : Bool} {disk : Disk} {rounds : List Round}
    {primary secondary node : Chunkserver} (hheld : primary.primaryHoldback = ∅) (hlast : primary.seqNumRecords = ∅)
    (hstart : (boot capacity isPrimary secondaryFd disk).initialization fuel optN = .ok node)
    (hrounds : Run.Runs Takes node rounds secondary) (hfollows : secondary.lru.isPrimary = false)
    (hrun : Run.Runs (fun d turn d' => Step link sock d turn d' ∧ d.Complies sock turn) (start primary secondary) turns d) :
    d.AllNumbered ∧ ∀ text ∈ d.commands, ∃ seqNum line, splitMessage (cstr text) = .ok (seqNum, line) := by
  have hgreeting : Unanswered (cstr "S\r\n".toList) := Or.inl (by decide)
  have hbegin : (start primary secondary).Obedient := by
    refine ⟨⟨Nat.zero_le _, fun _ => orderly_of_empty hheld hlast, ?_⟩, wired_rounds hstart hrounds, hfollows, fun text htext => ?_⟩
    · exact iff_of_true (fun _ h => absurd h List.not_mem_nil) fun _ h => absurd h List.not_mem_nil
    · obtain rfl := List.mem_singleton.mp htext
      exact hgreeting
  have hd : d.Obedient := Run.Runs.invariant (P := fun _ (d : Dialogue) => d.Obedient) hbegin
    (fun _ _ _ _ h hstep => h.step hstep.1 hstep.2) hrun
  refine ⟨hd.numbered, fun text htext => ?_⟩
  obtain ⟨m, _, hcstr, _⟩ := (hd.numbered text htext).reads
  exact ⟨m.sq, m.msg, by rw [hcstr, splitMessage_messageText]⟩

theorem complies_execute {m : MsgPair} {request : Request} (hnext : d.commands[d.executed]? = some (messageText m))
    (hnul : '\x00' ∉ m.msg) (hrequested : requested m.msg = some request)
    (h : d.secondary.lru.Complies (request sock m.sq)) : d.Complies sock .execute := by
  intro text htext seqNum line request' hsplit hrequested'
  obtain rfl := Option.some.inj (hnext.symm.trans (Option.mem_def.mp htext))
  rw [cstr_of_notMem (notMem_messageText hnul), splitMessage_messageText] at hsplit
  obtain ⟨rfl, rfl⟩ := Prod.mk.inj (Except.ok.inj hsplit)
  obtain rfl := Option.some.inj (hrequested.symm.trans hrequested')
  exact h

/-- A put, its report, a delete of the file that was stored, and its report. -/
theorem allNumbered_of_runs_put_dele : ∃ (turns : List Turn) (d : Dialogue),
    Run.Runs (fun d turn d' => Step 9 5 d turn d' ∧ d.Complies 5 turn) (start (fresh 10 true 0) (fresh 10 false 0)) turns d ∧
      d.handled = 3 ∧ d.commands = ["1,put u,f,a\r\n".toList, "2,dele u,f\r\n".toList] ∧
      d.AllNumbered ∧ ∀ text ∈ d.commands, ∃ seqNum line, splitMessage (cstr text) = .ok (seqNum, line) := by
  let run : Except Fault (Chunkserver × Chunkserver × Chunkserver × Chunkserver × Chunkserver × Chunkserver × Chunkserver) := do
    let p₁ ← (fresh 10 true 0).worker 4 9 "S\r\n".toList
    let p₂ ← p₁.worker 4 3 "put u,f,a\r\n".toList
    let s₁ ← (fresh 10 false 0).psWorker 4 5 "1,put u,f,a\r\n".toList
    let p₃ ← p₂.worker 4 9 "DONE u,1\r\n".toList
    let p₄ ← p₃.worker 4 3 "dele u,f\r\n".toList
    let s₂ ← s₁.psWorker 4 5 "2,dele u,f\r\n".toList
    let p₅ ← p₄.worker 4 9 "DONE u,2\r\n".toList
    .ok (p₁, p₂, s₁, p₃, p₄, s₂, p₅)
  have hfold : (match run with
      | .ok (p₁, p₂, s₁, p₃, p₄, s₂, p₅) => decide (
          p₁.sentTo 9 = (fresh 10 true 0).sentTo 9 ++ [] ∧
          p₂.sentTo 9 = p₁.sentTo 9 ++ ["1,put u,f,a\r\n".toList] ∧
          s₁.sentTo 5 = (fresh 10 false 0).sentTo 5 ++ ["DONE u,1\r\n".toList] ∧
          p₃.sentTo 9 = p₂.sentTo 9 ++ [] ∧
          p₄.sentTo 9 = p₃.sentTo 9 ++ ["2,dele u,f\r\n".toList] ∧
          s₁.lru.virmemMeta["u".toList]? = none ∧ "f".toList ∈ s₁.lru.filesOf "u".toList ∧
          s₂.sentTo 5 = s₁.sentTo 5 ++ ["DONE u,2\r\n".toList] ∧
          p₅.sentTo 9 = p₄.sentTo 9 ++ [])
      | .error _ => false) = true := by decide +kernel
  cases hrun : run with
  | error fault => exact absurd hfold (by rw [hrun]; exact Bool.false_ne_true)
  | ok states =>
      obtain ⟨p₁, hp₁, hrest⟩ := Run.bind_eq_ok.mp hrun
      obtain ⟨p₂, hp₂, hrest⟩ := Run.bind_eq_ok.mp hrest
      obtain ⟨s₁, hs₁, hrest⟩ := Run.bind_eq_ok.mp hrest
      obtain ⟨p₃, hp₃, hrest⟩ := Run.bind_eq_ok.mp hrest
      obtain ⟨p₄, hp₄, hrest⟩ := Run.bind_eq_ok.mp hrest
      obtain ⟨s₂, hs₂, hrest⟩ := Run.bind_eq_ok.mp hrest
      obtain ⟨p₅, hp₅, hrest⟩ := Run.bind_eq_ok.mp hrest
      cases hrest
      rw [hrun] at hfold
      obtain ⟨hsent₁, hsent₂, hdone₁, hsent₃, hsent₄, hvirmem, hfile, hdone₂, hsent₅⟩ := of_decide_eq_true hfold
      have hne : (3 : Int) ≠ 9 := by decide
      have hput : (fresh 10 false 0).lru.Complies (.put "u".toList "f".toList "a\r\n".toList 5 1) :=
        ⟨by decide, Or.inl newcomer_fresh⟩
      have hdele : s₁.lru.Complies (.dele "u".toList "f".toList 5 2 false) := ⟨fun h => absurd hvirmem h, hfile⟩
      have hruns : Run.Runs (fun d turn d' => Step 9 5 d turn d' ∧ d.Complies 5 turn)
        (start (fresh 10 true 0) (fresh 10 false 0)) [] _ := .nil
      have hruns := hruns.snoc ⟨.handle rfl hp₁ hsent₁, trivial⟩
      have hruns := hruns.snoc ⟨.client hne hp₂ hsent₂, trivial⟩
      have hruns := hruns.snoc ⟨.execute rfl hs₁ hdone₁,
        complies_execute (m := .of 1 "put u,f,a\r\n".toList) rfl (by decide) rfl hput⟩
      have hruns := hruns.snoc ⟨.handle rfl hp₃ hsent₃, trivial⟩
      have hruns := hruns.snoc ⟨.client hne hp₄ hsent₄, trivial⟩
      have hruns := hruns.snoc ⟨.execute rfl hs₂ hdone₂,
        complies_execute (m := .of 2 "dele u,f\r\n".toList) rfl (by decide) rfl hdele⟩
      have hruns := hruns.snoc ⟨.handle rfl hp₅ hsent₅, trivial⟩
      exact ⟨_, _, hruns, rfl, rfl, allNumbered_of_runs rfl rfl (initialization_fresh 10 0 false 1) .nil rfl hruns⟩

end Dialogue

end PennCloud.Chunkserver
