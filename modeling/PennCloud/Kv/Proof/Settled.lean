import PennCloud.Kv.Proof.Wired
import PennCloud.Kv.Proof.Changes
import PennCloud.Kv.Proof.Replies

/-!
# A cache that has evicted nobody

While nothing is in virtual memory a command works on the node of one user. It does to the files of
that user what the store says, whatever the list looks like and whatever the counters are, as long as
a value that is to be stored finds room.
-/

namespace PennCloud.LRUCache

open DList Std

variable {s s' t : LRUCache} {user filename value u : Str} {r p x n : Ref} {files : Map Str}
  {fuel : Nat} {commFd seqNum : Int} {isCPUT : Bool} {load : LRUCache → Str → Except Fault LRUCache}

structure Settled (s : LRUCache) : Prop where
  wired : s.Wired
  unused : ∀ u : Str, s.virmemMeta[u]? = none

/-- The files of one user are replaced; what is counted and sent is not described. -/
structure Sets (s s' : LRUCache) (user : Str) (files : Map Str) : Prop where
  settled : s'.Settled
  filesOf : ∀ u, s'.filesOf u = if user = u then files else s.filesOf u
  resident : s'.residentTotal + total (s.filesOf user) = s.residentTotal + total files
  capacity : s'.capacity = s.capacity
  isPrimary : s'.isPrimary = s.isPrimary
  syscalls : s'.syscalls = s.syscalls

/-- What one step leaves alone besides the list and the files. -/
structure Uncounted (s s' : LRUCache) : Prop where
  memoryUsed : s'.memoryUsed = s.memoryUsed
  userSizeOf : ∀ u, s'.userSizeOf u = s.userSizeOf u

/-- The counters of memory and of one user have moved by the same number of bytes. -/
structure Counted (s s' : LRUCache) (user : Str) (delta : Int) : Prop where
  memoryUsed : s'.memoryUsed = toInt32 (s.memoryUsed + delta)
  userSizeOf : ∀ u, s'.userSizeOf u =
    if user = u then toInt32 (s.userSizeOf user + delta) else s.userSizeOf u

theorem Settled.congr (h : s.Settled) (hheap : s'.heap = s.heap) (hnodes : s'.nodes = s.nodes)
    (htablets : s'.tablets = s.tablets) (hvirmem : s'.virmemMeta = s.virmemMeta) : s'.Settled :=
  ⟨h.wired.congr hheap hnodes htablets fun u hu => hvirmem ▸ hu, fun u => by rw [hvirmem, h.unused u]⟩

theorem Settled.absent (h : s.Settled) (habsent : s.tablets[user]? = none) : s.filesOf user = ∅ :=
  filesOf_unknown ⟨habsent, h.unused user⟩

theorem Settled.filesOf_eq (h : s.Settled) (hheap : s'.heap = s.heap) (hnodes : s'.nodes = s.nodes)
    (htablets : s'.tablets = s.tablets) (hvirmem : s'.virmemMeta = s.virmemMeta) : s'.filesOf user = s.filesOf user := by
  have h' : s'.Settled := h.congr hheap hnodes htablets hvirmem
  cases hresident : s.tablets[user]? with
  | none =>
      have hnone : s'.tablets[user]? = none := by rw [htablets, hresident]
      rw [h.absent hresident, h'.absent hnone]
  | some r =>
      have hsome : s'.tablets[user]? = some r := by rw [htablets, hresident]
      rw [filesOf_of_resident hresident, filesOf_of_resident hsome, hheap]

theorem Settled.filesOf_ne_empty (h : s.Settled) (hresident : s.tablets[user]? = some r) :
    s.filesOf user ≠ ∅ := by
  rw [filesOf_of_resident hresident]
  exact h.wired.occupied user r hresident

theorem Sets.counted (h : Sets s t user files) (memoryUsed : Int) (userSize : Map Int)
    (sent : List (Int × Str)) :
    Sets s { t with memoryUsed := memoryUsed, userSize := userSize, sent := sent } user files :=
  ⟨h.settled.congr rfl rfl rfl rfl, fun u => (filesOf_congr rfl (fun _ => rfl) rfl rfl).trans (h.filesOf u),
    h.resident, h.capacity, h.isPrimary, h.syscalls⟩

theorem Sets.of_counted {memoryUsed : Int} {userSize : Map Int} {sent : List (Int × Str)}
    (h : Sets { s with memoryUsed := memoryUsed, userSize := userSize, sent := sent } t user files) :
    Sets s t user files := by
  have hfiles : ∀ u, ({ s with memoryUsed := memoryUsed, userSize := userSize, sent := sent } :
      LRUCache).filesOf u = s.filesOf u := fun u => filesOf_congr rfl (fun _ => rfl) rfl rfl
  refine ⟨h.settled, fun u => ?_, ?_, h.capacity, h.isPrimary, h.syscalls⟩
  · rw [h.filesOf, hfiles]
  · have hresident := h.resident
    rw [hfiles] at hresident
    exact hresident

/-- A step that leaves the files of everybody alone. -/
theorem Sets.trans_same {files' : Map Str} (h : Sets s t user (s.filesOf user))
    (h' : Sets t s' user files') : Sets s s' user files' := by
  have hsame : ∀ u, t.filesOf u = s.filesOf u := by
    intro u
    rw [h.filesOf]
    split
    · next heq => rw [heq]
    · rfl
  have hresident := h.resident
  have hresident' := h'.resident
  rw [hsame] at hresident'
  refine ⟨h'.settled, fun u => ?_, by omega, h'.capacity.trans h.capacity,
    h'.isPrimary.trans h.isPrimary, h'.syscalls.trans h.syscalls⟩
  rw [h'.filesOf, hsame]

/-! ### The steps -/

theorem Sets.relink {L : Links Ref} (h : Sets s t user files) (hwired : (t.relink L).Wired) :
    Sets s (t.relink L) user files :=
  ⟨⟨hwired, h.settled.unused⟩, fun u => (filesOf_congr rfl (fun _ => rfl) rfl rfl).trans (h.filesOf u),
    h.resident, h.capacity, h.isPrimary, h.syscalls⟩

theorem Settled.setValue (h : s.Settled) (hresident : s.tablets[user]? = some r) (hne : files ≠ ∅) :
    Sets s (s.setValue r files) user files := by
  refine ⟨⟨h.wired.setValue hne, h.unused⟩, fun u => filesOf_setValue h.wired.tidy hresident, ?_, rfl, rfl, rfl⟩
  rw [residentTotal_setValue h.wired.tidy hresident, residentTotal_of_resident hresident,
    filesOf_of_resident hresident]
  omega

theorem Settled.addNode (h : s.Settled) (habsent : s.tablets[user]? = none)
    (hprev : s.links.prev .tail = some p) :
    Sets s ((s.addNode user filename value).toTail (.node s.nodes) p) user
      ((∅ : Map Str).insert filename value) := by
  refine ⟨⟨h.wired.addNode (h.unused user) hprev, h.unused⟩, fun u => ?_, ?_, rfl, rfl, rfl⟩
  · rw [← filesOf_addNode h.wired.tidy]
    exact filesOf_congr rfl (fun _ => rfl) rfl rfl
  · have hweigh : ((s.addNode user filename value).toTail (.node s.nodes) p).residentTotal = _ :=
      weigh_addNode h.wired.tidy habsent
    rw [hweigh, h.absent habsent, total_empty, residentTotal]
    omega

/-- The value a file gets. -/
def stored (files : Map Str) (filename value : Str) (isCPUT : Bool) : Str :=
  if isCPUT then value else files.getD filename [] ++ value

theorem Settled.placeValue (h : s.Settled) :
    ∃ t, s.placeValue load user filename value isCPUT = .ok t ∧
      Sets s t user ((s.filesOf user).insert filename (stored (s.filesOf user) filename value isCPUT)) ∧
      Uncounted s t ∧ t.sent = s.sent := by
  obtain ⟨p, hprev, _⟩ := h.wired.exists_prev
  cases hresident : s.tablets[user]? with
  | none =>
      have hvalue : stored ∅ filename value isCPUT = value := by
        cases isCPUT <;> simp [stored]
      refine ⟨_, placeValue_absent hresident (h.unused user) hprev, ?_, ⟨rfl, fun _ => rfl⟩, rfl⟩
      rw [h.absent hresident, hvalue]
      exact h.addNode hresident hprev
  | some r =>
      have hr := h.wired.tidy.ne_tail hresident
      refine ⟨_, placeValue_resident hresident (h.unused user) hprev hr, ?_, ⟨rfl, fun _ => rfl⟩, rfl⟩
      rw [filesOf_of_resident hresident]
      have hsets : Sets s (s.setValue r ((s.heap r).value.insert filename
          (stored (s.heap r).value filename value isCPUT))) user _ :=
        h.setValue hresident insert_ne_empty
      refine hsets.relink (hsets.settled.wired.toTail (h.wired.tidy.allocated user r hresident) ?_)
      rwa [links_setValue]

theorem Settled.refl (h : s.Settled) : Sets s s user (s.filesOf user) := by
  refine ⟨h, fun u => ?_, rfl, rfl, rfl, rfl⟩
  split
  · next heq => rw [heq]
  · rfl

theorem Sets.servermsg (h : Sets s t user files) (msg : String) (commFd : Int) :
    Sets s (t.servermsg msg commFd) user files :=
  h.counted t.memoryUsed t.userSize (t.sent ++ [(commFd, msg.toList)])

theorem Settled.getHelper (h : s.Settled) (fuel : Nat) (user filename : Str) (commFd : Int) :
    ∃ t, s.getHelper fuel user filename commFd = .ok ((s.filesOf user)[filename]?, t) ∧
      Sets s t user (s.filesOf user) ∧ Uncounted s t ∧
      t.sent = s.sent ++ (match (s.filesOf user)[filename]? with
        | some _ => []
        | none => [(commFd, Store.missing (s.filesOf user))]) := by
  cases hresident : s.tablets[user]? with
  | none =>
      have hempty := h.absent hresident
      refine ⟨s.servermsg "-ERR User not exist\r\n" commFd, ?_, h.refl.servermsg _ _, ⟨rfl, fun _ => rfl⟩, ?_⟩
      · rw [getHelper_of_unknown hresident (h.unused user), hempty, ExtTreeMap.getElem?_empty]
      · rw [hempty, ExtTreeMap.getElem?_empty, Store.missing, if_pos ExtTreeMap.isEmpty_empty]
        rfl
  | some r =>
      obtain ⟨L, hwired, hget⟩ := h.wired.getHelper hresident
      rw [hget]
      have hnonempty : ¬ (s.filesOf user).isEmpty = true := fun hempty =>
        h.filesOf_ne_empty hresident (ExtTreeMap.isEmpty_iff.mp hempty)
      have hsets : Sets s (s.relink L) user (s.filesOf user) := h.refl.relink hwired
      cases (s.filesOf user)[filename]? with
      | some value => exact ⟨_, rfl, hsets, ⟨rfl, fun _ => rfl⟩, (List.append_nil _).symm⟩
      | none =>
          refine ⟨_, rfl, hsets.servermsg _ _, ⟨rfl, fun _ => rfl⟩, ?_⟩
          rw [Store.missing, if_neg hnonempty]
          rfl

/-! ### The commands -/

theorem Sets.of_touched {external : Bool} (h : Sets (s.touched user external isCPUT) t u files) :
    Sets s t u files := by
  rw [touched_eq] at h
  exact h.of_counted

theorem Settled.stores (h : s.Settled) (hquota : s.exceedsQuota user value = false)
    (hfits : s.fits value = true) :
    ∃ t, s.putHelper load user filename value commFd true isCPUT seqNum = .ok (true, t) ∧
      Sets s t user ((s.filesOf user).insert filename (stored (s.filesOf user) filename value isCPUT)) ∧
      Counted s t user value.length ∧
      t.sent = s.sent ++ [(commFd, storedReply s.isPrimary isCPUT user seqNum)] := by
  have htouched : (s.touched user true isCPUT).Settled :=
    h.congr (touched_heap ..) (touched_nodes ..) (touched_tablets ..) (touched_virmemMeta ..)
  obtain ⟨t, hplace, hsets, huncounted, hsent⟩ :
      ∃ t, (s.touched user true isCPUT).placeValue load user filename value isCPUT = .ok t ∧ _ :=
    htouched.placeValue
  rw [filesOf_touched] at hsets
  have hsets := hsets.of_touched
  refine ⟨t.charged user value commFd true isCPUT seqNum, ?_, ?_, ⟨?_, fun u => ?_⟩, ?_⟩
  · rw [putHelper_eq, hquota, hfits, hplace]
    rfl
  · rw [charged_eq]
    exact hsets.counted _ _ _
  · rw [charged_memoryUsed, huncounted.memoryUsed, touched_memoryUsed]
  · rw [charged_userSizeOf, huncounted.userSizeOf, huncounted.userSizeOf, touched_userSizeOf,
      touched_userSizeOf]
  · rw [charged_sent, hsets.isPrimary, hsent, touched_eq]

theorem put_of_stores {seqNum : Int} (hsmall : ¬ toSize s.capacity < value.length)
    (hput : s.putHelper (reload fuel commFd) user filename value commFd true false seqNum = .ok (true, t)) :
    s.put (fuel + 1) user filename value commFd true seqNum = .ok t := by
  rw [LRUCache.put, putWith, if_neg hsmall, LRUCache.putLoop]
  exact congrArg (· >>= _) hput

theorem Settled.fileErased (h : s.Settled) (hresident : s.tablets[user]? = some r)
    (hget : (s.filesOf user)[filename]? = some value) (sent : List (Int × Str)) :
    Sets s { s.fileErased user filename r with sent := sent } user ((s.filesOf user).erase filename) ∧
      Counted s { s.fileErased user filename r with sent := sent } user (-value.length) := by
  have hsize : (s.heap r).value.getD filename [] = value := by
    rw [filesOf_of_resident hresident] at hget
    rw [ExtTreeMap.getD_eq_getD_getElem?, hget, Option.getD_some]
  have hsettled : (s.fileErased user filename r).Settled := ⟨h.wired.fileErased hresident, h.unused⟩
  have hsplit := total_of_getElem? hget
  have htotal := residentTotal_fileErased h.wired.tidy hresident hget
  refine ⟨⟨hsettled.congr rfl rfl rfl rfl, fun u => ?_, ?_, rfl, rfl, rfl⟩, ?_, fun u => ?_⟩
  · rw [← filesOf_fileErased h.wired.tidy hresident]
    exact filesOf_congr rfl (fun _ => rfl) rfl rfl
  · change (s.fileErased user filename r).residentTotal + _ = _
    omega
  · change toInt32 (s.memoryUsed - ((s.heap r).value.getD filename []).length) = _
    rw [hsize, sub_eq_add_neg]
  · rw [← sub_eq_add_neg, ← discharged_userSizeOf, ← hsize]
    rfl

theorem Settled.moved (h : s.Settled) (hresident : s.tablets[user]? = some r)
    (filename newFilename value : Str) (sent : List (Int × Str)) :
    Sets s { s.setValue r (((s.heap r).value.erase filename).insert newFilename value) with sent := sent }
      user (((s.filesOf user).erase filename).insert newFilename value) := by
  rw [filesOf_of_resident hresident]
  exact (h.setValue hresident insert_ne_empty).counted _ _ _

/-! ### Every command -/

theorem Sets.filesOf_self (h : Sets s t user files) : t.filesOf user = files := by
  rw [h.filesOf, if_pos rfl]

theorem Settled.exists_resident (h : s.Settled) (hget : (s.filesOf user)[filename]? = some value) :
    ∃ r, s.tablets[user]? = some r := by
  cases hresident : s.tablets[user]? with
  | some r => exact ⟨r, rfl⟩
  | none =>
      rw [h.absent hresident, ExtTreeMap.getElem?_empty] at hget
      exact absurd hget.symm (Option.some_ne_none value)

theorem Uncounted.trans_counted {delta : Int} (h : Uncounted s t) (h' : Counted t s' user delta) :
    Counted s s' user delta := by
  refine ⟨by rw [h'.memoryUsed, h.memoryUsed], fun u => ?_⟩
  rw [h'.userSizeOf, h.userSizeOf, h.userSizeOf]

theorem Uncounted.exchanged {old new : Nat} (h : Uncounted s t)
    (h' : Counted (t.discharged user old) s' user new) : Counted s s' user (new - old) := by
  have hsum : ∀ x : Int, x - old + new = x + (new - old) := fun x => by omega
  refine ⟨?_, fun u => ?_⟩
  · rw [h'.memoryUsed]
    change toInt32 (toInt32 (t.memoryUsed - old) + new) = _
    rw [toInt32_add_toInt32, h.memoryUsed, hsum]
  · rw [h'.userSizeOf, discharged_userSizeOf, discharged_userSizeOf, h.userSizeOf, h.userSizeOf, if_pos rfl,
      toInt32_add_toInt32, hsum]
    split <;> rfl

/-- A value that is to be stored is within the quota and finds room. -/
def HasRoom (s : LRUCache) : Op → Prop
  | .put user _ value _ _ =>
      ¬ toSize s.capacity < value.length ∧ s.exceedsQuota user value = false ∧ s.fits value = true
  | .cput user filename oldValue newValue _ _ =>
      (s.filesOf user)[filename]? = some oldValue →
        (s.discharged user oldValue.length).exceedsQuota user newValue = false ∧
          (s.discharged user oldValue.length).fits newValue = true
  | _ => True

/-- The counters have moved by `delta`, or nothing was counted. -/
def Accounts (s s' : LRUCache) (user : Str) (delta : Int) : Prop :=
  Counted s s' user delta ∨ delta = 0 ∧ Uncounted s s'

/-- The effect of a command on a settled state. -/
structure Obeys (s s' : LRUCache) (op : Op) : Prop where
  sets : Sets s s' op.user (Store.apply s.filesOf op op.user)
  accounts : Accounts s s' op.user (Store.delta s.filesOf op)
  sent : s'.sent = s.sent ++ (Store.reply s.isPrimary s.filesOf op).map (op.commFd, ·)

theorem Uncounted.discharged (h : Uncounted s t) (hcapacity : t.capacity = s.capacity) (size : Int)
    (v : Str) :
    (t.discharged user size).exceedsQuota u v = (s.discharged user size).exceedsQuota u v ∧
      (t.discharged user size).fits v = (s.discharged user size).fits v := by
  have hmemory : (t.discharged user size).memoryUsed = (s.discharged user size).memoryUsed := by
    change toInt32 (t.memoryUsed - size) = toInt32 (s.memoryUsed - size)
    rw [h.memoryUsed]
  have hcap : (t.discharged user size).capacity = (s.discharged user size).capacity := hcapacity
  rw [exceedsQuota, exceedsQuota, fits, fits, hmemory, hcap, discharged_userSizeOf, discharged_userSizeOf,
    h.userSizeOf, h.userSizeOf]
  exact ⟨rfl, rfl⟩

theorem Settled.get (h : s.Settled) : ∃ t, s.exec fuel (.get user filename commFd) = .ok t ∧
    Obeys s t (.get user filename commFd) := by
  obtain ⟨t, hget, hsets, huncounted, hsent⟩ := h.getHelper fuel user filename commFd
  rw [LRUCache.exec, LRUCache.get, hget, Run.ok_bind]
  cases hfound : (s.filesOf user)[filename]? with
  | none =>
      rw [hfound] at hsent
      refine ⟨t, rfl, hsets, Or.inr ⟨rfl, huncounted⟩, ?_⟩
      rw [hsent, Store.reply, hfound]
      rfl
  | some value =>
      rw [hfound, List.append_nil] at hsent
      refine ⟨_, rfl, (hsets.servermsg _ _).counted _ _ _, Or.inr ⟨rfl, huncounted.memoryUsed, huncounted.userSizeOf⟩, ?_⟩
      rw [Store.reply, hfound]
      change (t.sent ++ _) ++ _ = _
      rw [hsent, List.append_assoc]
      rfl

theorem Settled.put (h : s.Settled) (hroom : s.HasRoom (.put user filename value commFd seqNum)) :
    ∃ t, s.exec (fuel + 1) (.put user filename value commFd seqNum) = .ok t ∧
      Obeys s t (.put user filename value commFd seqNum) := by
  obtain ⟨hsmall, hquota, hfits⟩ := hroom
  obtain ⟨t, hput, hsets, hcounted, hsent⟩ :
      ∃ t, s.putHelper (reload fuel commFd) user filename value commFd true false seqNum = .ok (true, t) ∧ _ :=
    h.stores hquota hfits
  refine ⟨t, put_of_stores hsmall hput, ?_, Or.inl hcounted, hsent⟩
  rw [Store.apply, Op.user, Function.update_self]
  exact hsets

theorem Settled.cput {oldValue newValue : Str} (h : s.Settled)
    (hroom : s.HasRoom (.cput user filename oldValue newValue commFd seqNum)) :
    ∃ t, s.exec fuel (.cput user filename oldValue newValue commFd seqNum) = .ok t ∧
      Obeys s t (.cput user filename oldValue newValue commFd seqNum) := by
  obtain ⟨t, hget, hsets, huncounted, hsent⟩ := h.getHelper fuel user filename commFd
  change ∃ t, LRUCache.cput fuel s user filename oldValue newValue commFd seqNum = .ok t ∧ _
  rw [cput_eq, hget, Run.ok_bind]
  by_cases hmatch : (s.filesOf user)[filename]? = some oldValue
  · obtain ⟨hquota, hfits⟩ := hroom hmatch
    obtain ⟨hquotaSame, hfitsSame⟩ := huncounted.discharged hsets.capacity oldValue.length newValue
    have hdischarged : (t.discharged user oldValue.length).Settled := hsets.settled.congr rfl rfl rfl rfl
    obtain ⟨t', hput, hsets', hcounted, hsent'⟩ :
        ∃ t', (t.discharged user oldValue.length).putHelper (reload fuel commFd) user filename newValue commFd true
          true seqNum = .ok (true, t') ∧ _ := hdischarged.stores (hquotaSame.trans hquota) (hfitsSame.trans hfits)
    have hstored : Sets t t' user _ := Sets.of_counted hsets'
    simp only [hmatch, if_true, hput, Run.ok_bind]
    rw [hmatch, List.append_nil] at hsent
    refine ⟨t', rfl, ?_, Or.inl ?_, ?_⟩
    · rw [Store.apply, if_pos hmatch, Op.user, Function.update_self]
      rw [filesOf_discharged, hsets.filesOf_self] at hstored
      exact hsets.trans_same hstored
    · rw [Store.delta, if_pos hmatch]
      exact huncounted.exchanged hcounted
    · have hreply : Store.reply s.isPrimary s.filesOf (.cput user filename oldValue newValue commFd seqNum) =
          [storedReply s.isPrimary true user seqNum] := by
        rw [Store.reply, hmatch]
        dsimp only
        rw [if_pos rfl, storedReply, if_pos rfl]
      rw [hsent', hreply]
      change t.sent ++ [(commFd, storedReply t.isPrimary true user seqNum)] = _
      rw [hsent, hsets.isPrimary]
      rfl
  · cases hfound : (s.filesOf user)[filename]? with
    | none =>
        rw [hfound] at hsent
        refine ⟨t, rfl, ?_, Or.inr ⟨?_, huncounted⟩, ?_⟩
        · rw [Store.apply, if_neg hmatch]
          exact hsets
        · rw [Store.delta, if_neg hmatch]
        · rw [hsent, Store.reply, hfound]
          rfl
    | some value =>
        have hne : value ≠ oldValue := fun heq => hmatch (hfound.trans (congrArg some heq))
        rw [hfound, List.append_nil] at hsent
        simp only [hne, if_false]
        refine ⟨_, rfl, ?_, Or.inr ⟨?_, huncounted.memoryUsed, huncounted.userSizeOf⟩, ?_⟩
        · rw [Store.apply, if_neg hmatch]
          exact hsets.servermsg _ _
        · rw [Store.delta, if_neg hmatch]
        · rw [Store.reply, hfound]
          simp only [hne, if_false]
          change t.sent ++ _ = _
          rw [hsent]
          rfl

theorem reportDeleted_sent {isMigration : Bool} : (s.reportDeleted user commFd seqNum isMigration).sent =
    s.sent ++ ((if s.isPrimary then if isMigration then [] else ["+OK File deleted\r\n".toList]
      else if seqNum ≠ 0 then [Store.done user seqNum] else []) : List Str).map (commFd, ·) := by
  rw [reportDeleted]
  split_ifs
  · exact (List.append_nil _).symm
  · rfl
  · rfl
  · exact (List.append_nil _).symm

theorem Settled.dele {isMigration : Bool} (h : s.Settled) :
    ∃ t, s.exec fuel (.dele user filename commFd seqNum isMigration) = .ok t ∧
      Obeys s t (.dele user filename commFd seqNum isMigration) := by
  obtain ⟨t, hget, hsets, huncounted, hsent⟩ := h.getHelper fuel user filename commFd
  change ∃ t, LRUCache.dele fuel s user filename commFd seqNum isMigration = .ok t ∧ _
  rw [dele_eq, hget, Run.ok_bind]
  cases hfound : (s.filesOf user)[filename]? with
  | none =>
      rw [hfound] at hsent
      refine ⟨t, rfl, ?_, Or.inr ⟨by rw [Store.delta, hfound], huncounted⟩, ?_⟩
      · rw [Store.apply, Op.user, Function.update_self, SortedMap.erase_eq_self hfound]
        exact hsets
      · rw [hsent, Store.reply, hfound]
        rfl
  | some value =>
      rw [hfound, List.append_nil] at hsent
      have hget' : (t.filesOf user)[filename]? = some value := by rw [hsets.filesOf_self, hfound]
      obtain ⟨r, hresident⟩ := hsets.settled.exists_resident hget'
      obtain ⟨herased, hcounted⟩ := hsets.settled.fileErased hresident hget'
        (t.reportDeleted user commFd seqNum isMigration).sent
      refine ⟨_, eraseFile_eq_reportDeleted hresident, ?_, Or.inl ?_, ?_⟩
      · rw [Store.apply, Op.user, Function.update_self]
        rw [hsets.filesOf_self] at herased
        exact hsets.trans_same herased
      · rw [Store.delta, hfound]
        exact huncounted.trans_counted hcounted
      · change (t.reportDeleted user commFd seqNum isMigration).sent = _
        rw [reportDeleted_sent, hsent, hsets.isPrimary, Store.reply, hfound]
        rfl

theorem Settled.rename {newFilename : Str} (h : s.Settled) :
    ∃ t, s.exec fuel (.rename user filename newFilename commFd seqNum) = .ok t ∧
      Obeys s t (.rename user filename newFilename commFd seqNum) := by
  obtain ⟨t, hget, hsets, huncounted, hsent⟩ := h.getHelper fuel user filename commFd
  change ∃ t, LRUCache.rename fuel s user filename newFilename commFd seqNum = .ok t ∧ _
  rw [rename_eq, hget, Run.ok_bind]
  cases hfound : (s.filesOf user)[filename]? with
  | none =>
      rw [hfound] at hsent
      refine ⟨t, rfl, ?_, Or.inr ⟨rfl, huncounted⟩, ?_⟩
      · rw [Store.apply, hfound]
        exact hsets
      · rw [hsent, Store.reply, hfound]
        rfl
  | some value =>
      rw [hfound, List.append_nil] at hsent
      have hget' : (t.filesOf user)[filename]? = some value := by rw [hsets.filesOf_self, hfound]
      obtain ⟨r, hresident⟩ := hsets.settled.exists_resident hget'
      refine ⟨_, moveFile_eq_send hresident, ?_, Or.inr ⟨rfl, huncounted.memoryUsed, huncounted.userSizeOf⟩, ?_⟩
      · have hmoved := hsets.settled.moved hresident filename newFilename value
          (t.sent ++ [(commFd, if t.isPrimary then "+OK File renamed\r\n".toList else Store.done user seqNum)])
        have happly : Store.apply s.filesOf (.rename user filename newFilename commFd seqNum) user =
            ((s.filesOf user).erase filename).insert newFilename value := by
          rw [Store.apply, hfound]
          exact Function.update_self ..
        rw [hsets.filesOf_self] at hmoved
        rw [Op.user, happly]
        exact hsets.trans_same hmoved
      · change t.sent ++ _ = _
        rw [hsent, hsets.isPrimary, Store.reply, hfound]
        rfl

/-- **One command.** On a settled state a command that has room does what the store says. -/
theorem Settled.exec (h : s.Settled) (op : Op) (hroom : s.HasRoom op) (fuel : Nat) :
    ∃ t, s.exec (fuel + 1) op = .ok t ∧ Obeys s t op := by
  cases op with
  | put => exact h.put hroom
  | get => exact h.get
  | cput => exact h.cput hroom
  | dele => exact h.dele
  | rename => exact h.rename

/-- However deep the recursion was allowed to go. -/
theorem Settled.obeys_of_exec {op : Op} (h : s.Settled) (hroom : s.HasRoom op) (hrun : s.exec fuel op = .ok s') :
    Obeys s s' op := by
  cases op with
  | put user filename value commFd seqNum =>
      cases fuel with
      | zero =>
          rw [LRUCache.exec, LRUCache.put, putWith, if_neg hroom.1, LRUCache.putLoop] at hrun
          exact absurd hrun (by simp)
      | succ fuel =>
          obtain ⟨t, hexec, hobeys⟩ := h.exec _ hroom fuel
          obtain rfl : t = s' := Except.ok.inj (hexec.symm.trans hrun)
          exact hobeys
  | get user filename commFd =>
      obtain ⟨t, hexec, hobeys⟩ : ∃ t, s.exec fuel (.get user filename commFd) = .ok t ∧ _ := h.get
      obtain rfl : t = s' := Except.ok.inj (hexec.symm.trans hrun)
      exact hobeys
  | cput user filename oldValue newValue commFd seqNum =>
      obtain ⟨t, hexec, hobeys⟩ :
        ∃ t, s.exec fuel (.cput user filename oldValue newValue commFd seqNum) = .ok t ∧ _ := h.cput hroom
      obtain rfl : t = s' := Except.ok.inj (hexec.symm.trans hrun)
      exact hobeys
  | dele user filename commFd seqNum isMigration =>
      obtain ⟨t, hexec, hobeys⟩ :
        ∃ t, s.exec fuel (.dele user filename commFd seqNum isMigration) = .ok t ∧ _ := h.dele
      obtain rfl : t = s' := Except.ok.inj (hexec.symm.trans hrun)
      exact hobeys
  | rename user oldFilename newFilename commFd seqNum =>
      obtain ⟨t, hexec, hobeys⟩ :
        ∃ t, s.exec fuel (.rename user oldFilename newFilename commFd seqNum) = .ok t ∧ _ := h.rename
      obtain rfl : t = s' := Except.ok.inj (hexec.symm.trans hrun)
      exact hobeys

end PennCloud.LRUCache
