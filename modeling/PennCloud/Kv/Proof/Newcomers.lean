import PennCloud.Kv.Proof.Feedback

/-!
# A user without a trace

As long as nothing has been stored for a user no node bears the name, and so no eviction brings the user in. The first
put that is not refused leaves a user in memory with one file, whoever is evicted to make room, and answers that it is
stored. From then on a lookup finds that user.
-/

namespace PennCloud.LRUCache

open DList Std

variable {s s' t : LRUCache} {user filename value : Str} {commFd seqNum : Int} {fuel : Nat} {files : Map Str}

/-- No node has been made for the user, and no record is kept. -/
structure Newcomer (s : LRUCache) (user : Str) : Prop where
  nameless : ∀ r, s.Allocated r → (s.heap r).key ≠ user
  unrecorded : s.virmemMeta[user]? = none

theorem Newcomer.congr (h : s.Newcomer user) (hheap : s'.heap = s.heap) (hnodes : s'.nodes = s.nodes)
    (hvirmem : s'.virmemMeta = s.virmemMeta) : s'.Newcomer user := by
  refine ⟨fun r hr => ?_, hvirmem ▸ h.unrecorded⟩
  rw [hheap]
  apply h.nameless
  rwa [Allocated, hnodes] at hr

theorem Newcomer.absent (h : s.Newcomer user) (hwired : s.Wired) : s.tablets[user]? = none := by
  cases hresident : s.tablets[user]? with
  | none => rfl
  | some r => exact absurd (hwired.tidy.keyed user r hresident) (h.nameless r (hwired.tidy.allocated user r hresident))

theorem newcomer_fresh {capacity : Int} {isPrimary : Bool} {chunkInfo : ChunkType → List Int} {disk : Disk} :
    (init capacity isPrimary chunkInfo disk).Newcomer user :=
  ⟨fun _ ⟨_, hi, _⟩ => absurd hi (Nat.not_lt_zero _), ExtTreeMap.getElem?_empty⟩

theorem Newcomer.useVirtualMemory (h : s.Newcomer user) (hwired : s.Wired) (hrun : s.useVirtualMemory = .ok s') :
    s'.Newcomer user := by
  obtain ⟨x, n, t, hx, hn, hwrite, rfl⟩ := useVirtualMemory_ok hrun
  have hstep := chunkStep_writeToChunkWith hwrite
  have hname : user ≠ (s.heap x).key := (h.nameless x (hwired.first_ne_tail hx hn)).symm
  refine ⟨fun r hr => ?_, ?_⟩
  · rw [dropped_key, hstep.heap]
    apply h.nameless
    rwa [Allocated, dropped_nodes, hstep.nodes] at hr
  · rw [dropped_virmemMeta]
    exact (hstep.records user hname).trans h.unrecorded

/-- The user is in memory with these files. -/
def Resides (s : LRUCache) (user : Str) (files : Map Str) : Prop :=
  ∃ r, s.tablets[user]? = some r ∧ (s.heap r).value = files

theorem resides_insertUser (hrun : s.insertUser user filename value = .ok s') :
    s'.Resides user ((∅ : Map Str).insert filename value) := by
  obtain ⟨p, _, rfl⟩ := insertUser_ok hrun
  refine ⟨.node s.nodes, ?_, ?_⟩
  · rw [toTail_tablets, addNode_tablets, if_pos rfl]
  · rw [toTail_value, addNode_heap_self]

theorem Newcomer.putLoop (h : s.Newcomer user) (hwired : s.Wired) (hquota : s.exceedsQuota user value = false)
    (hrun : LRUCache.putLoop fuel s user filename value commFd true seqNum = .ok s') :
    s'.Resides user ((∅ : Map Str).insert filename value) ∧
      s'.sent = s.sent ++ [(commFd, storedReply s.isPrimary false user seqNum)] := by
  induction fuel generalizing s with
  | zero => exact absurd hrun (by simp [LRUCache.putLoop])
  | succ fuel ih =>
      have htouched : (s.touched user true false).Newcomer user :=
        h.congr (touched_heap ..) (touched_nodes ..) (touched_virmemMeta ..)
      have hwired' : (s.touched user true false).Wired :=
        hwired.congr (touched_heap ..) (touched_nodes ..) (touched_tablets ..) fun u hu => by rwa [touched_virmemMeta]
      rcases putLoop_succ_ok hrun with hdone | ⟨t, t', hroom, hevict, hrest⟩
      · rcases putHelper_ok hdone with ⟨_, _, hover, _⟩ | ⟨_, _, _, t, hplace, rfl⟩ | ⟨hstored, _⟩
        · exact absurd (hquota.symm.trans hover) Bool.false_ne_true
        · rw [placeValue_unknown (htouched.absent hwired') htouched.unrecorded] at hplace
          obtain ⟨r, hresident, hvalue⟩ := resides_insertUser hplace
          obtain ⟨p, _, rfl⟩ := insertUser_ok hplace
          refine ⟨⟨r, ?_, ?_⟩, ?_⟩
          · rw [charged_tablets, hresident]
          · rw [charged_heap, hvalue]
          · rw [charged_sent, touched_eq]
            rfl
        · exact absurd hstored Bool.false_ne_true.symm
      · rcases putHelper_ok hroom with ⟨hstored, _⟩ | ⟨hstored, _⟩ | ⟨_, _, _, rfl⟩
        · exact absurd hstored Bool.false_ne_true
        · exact absurd hstored Bool.false_ne_true
        · have hevicted : Utters s t' commFd :=
            (steady_utters s user).evict _ _ ((steady_utters s user).touched _ _ _ .refl) hevict
          obtain ⟨hresides, hsent⟩ := ih (htouched.useVirtualMemory hwired' hevict) (closed_wired.evict _ _ hwired' hevict)
            ((hevicted.exceedsQuota _ _).trans hquota) hrest
          refine ⟨hresides, ?_⟩
          obtain ⟨x, n, t, _, _, hwrite, rfl⟩ := useVirtualMemory_ok hevict
          rw [hsent, hevicted.role, dropped_sent, (chunkStep_writeToChunkWith hwrite).sent, touched_eq]

theorem Newcomer.put (h : s.Newcomer user) (hwired : s.Wired) (htaken : ¬ s.Refused user value)
    (hrun : LRUCache.put fuel s user filename value commFd true seqNum = .ok s') :
    s'.Resides user ((∅ : Map Str).insert filename value) ∧
      s'.sent = s.sent ++ [(commFd, storedReply s.isPrimary false user seqNum)] := by
  rcases put_ok hrun with ⟨hlarge, _⟩ | ⟨_, hloop⟩
  · exact absurd (Or.inl hlarge) htaken
  · have hquota : s.exceedsQuota user value = false := Bool.eq_false_iff.mpr fun hover => htaken (Or.inr hover)
    exact h.putLoop hwired hquota hloop

theorem Resides.congr (h : s.Resides user files) (hheap : s'.heap = s.heap) (htablets : s'.tablets = s.tablets) :
    s'.Resides user files := by
  obtain ⟨r, hresident, hvalue⟩ := h
  exact ⟨r, by rw [htablets, hresident], by rw [hheap, hvalue]⟩

theorem Resides.getHelper_ok {found : Option Str} (h : s.Resides user files) (hwired : s.Wired)
    (hrun : s.getHelper fuel user filename commFd = .ok (found, t)) : found = files[filename]? ∧ t.Resides user files := by
  obtain ⟨r, hresident, rfl⟩ := h
  obtain ⟨hfound, htablets, hvalues⟩ := Chunkserver.getHelper_of_resident hwired hresident hrun
  exact ⟨hfound, r, by rw [htablets, hresident], hvalues r⟩

theorem Resides.getHelper_returns (h : s.Resides user files) (hwired : s.Wired) (fuel : Nat) (filename : Str) (commFd : Int) :
    ∃ result, s.getHelper fuel user filename commFd = .ok result := by
  obtain ⟨r, hresident, _⟩ := h
  have hr := hwired.tidy.allocated user r hresident
  obtain ⟨p, hprev, hpA⟩ := hwired.pointed.prev r (Or.inr hr)
  obtain ⟨n, hnext, hnA⟩ := hwired.pointed.next r (Or.inr hr)
  obtain ⟨q, hq, _⟩ := (hwired.bypass hpA hnA).exists_prev
  have hvirmem : s.virmemMeta.contains user = false := by
    rw [ExtTreeMap.contains_eq_isSome_getElem?, hwired.tidy.disjoint user r hresident]
    rfl
  have hknown : ¬ (s.tablets[user]? = none ∧ s.virmemMeta[user]? = none) := by
    rw [hresident]
    exact fun hnone => absurd hnone.1 (Option.some_ne_none r)
  rw [getHelper_of_known hknown, fetched, hvirmem, if_neg Bool.false_ne_true, Run.ok_bind, lookUp, hresident]
  simp only [deref, Run.ok_bind, detach_eq hprev hnext, moveToTail_eq hq (hwired.tidy.ne_tail hresident)]
  split
  · exact ⟨_, rfl⟩
  · exact ⟨_, rfl⟩

end PennCloud.LRUCache
