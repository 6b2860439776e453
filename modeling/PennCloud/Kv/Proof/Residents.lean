import PennCloud.Kv.Proof.Newcomers

/-!
# Users who stay in memory

A put from a user in memory may evict that user first. It then comes back on another node, so that a user who is still
on its node afterwards was never evicted, and the value was appended to the node.
-/

namespace PennCloud.LRUCache

open Std

variable {s s' t : LRUCache} {user filename value : Str} {commFd seqNum : Int} {fuel : Nat} {r : Ref} {files : Map Str}

/-- The user is not on this node, and will never be again. -/
structure Departed (s : LRUCache) (user : Str) (r : Ref) : Prop where
  allocated : s.Allocated r
  absent : s.tablets[user]? ≠ some r

theorem kept_departed (user u : Str) (r : Ref) (commFd : Int) :
    Kept (fun s => s.Departed user r) (fun _ => True) u commFd where
  frame s s' h hquiet := by
    refine ⟨?_, hquiet.still.tablets ▸ h.absent⟩
    rw [Allocated, hquiet.still.nodes]
    exact h.allocated
  insert s s' filename value _ h _ _ hrun := by
    obtain ⟨p, _, rfl⟩ := insertUser_ok hrun
    obtain ⟨i, hi, rfl⟩ := h.allocated
    refine ⟨⟨i, Nat.lt_succ_of_lt hi, rfl⟩, ?_⟩
    rw [toTail_tablets, addNode_tablets]
    split
    · rintro heq
      exact absurd (Ref.node.inj (Option.some.inj heq)) (Nat.ne_of_gt hi)
    · exact h.absent
  store s s' filename value new _ _ h hrun := by
    obtain ⟨r', _, hrun⟩ := Run.bind_eq_ok.mp hrun
    obtain ⟨L, rfl⟩ := moveToTail_relink hrun
    exact ⟨h.allocated, h.absent⟩
  evict s s' h hrun := by
    obtain ⟨x, n, t, _, _, hwrite, rfl⟩ := useVirtualMemory_ok hrun
    have hstep := chunkStep_writeToChunkWith hwrite
    refine ⟨?_, ?_⟩
    · rw [Allocated, dropped_nodes, hstep.nodes]
      exact h.allocated
    · rw [dropped_tablets, SortedMap.getElem?_erase_eq, hstep.tablets]
      split
      · exact (Option.some_ne_none r).symm
      · exact h.absent
  pairs _ _ _ := trivial

theorem Wired.stays_or_departs (h : s.Wired) (hresident : s.tablets[user]? = some r) (hrun : s.useVirtualMemory = .ok s') :
    s'.Departed user r ∨ s'.tablets[user]? = some r ∧ (s'.heap r).value = (s.heap r).value := by
  obtain ⟨x, n, t, _, _, hwrite, rfl⟩ := useVirtualMemory_ok hrun
  have hstep := chunkStep_writeToChunkWith hwrite
  have htablets : (t.dropped x n).tablets[user]? = if (t.heap x).key = user then none else some r := by
    rw [dropped_tablets, SortedMap.getElem?_erase_eq, hstep.tablets, hresident]
  split at htablets
  · refine Or.inl ⟨?_, by rw [htablets]; exact (Option.some_ne_none r).symm⟩
    rw [Allocated, dropped_nodes, hstep.nodes]
    exact h.tidy.allocated user r hresident
  · exact Or.inr ⟨htablets, by rw [dropped_value, hstep.heap]⟩

theorem Wired.putLoop_stays (h : s.Wired) (hresident : s.tablets[user]? = some r) (hquota : s.exceedsQuota user value = false)
    (hrun : putLoop fuel s user filename value commFd true seqNum = .ok s') (hstays : s'.tablets[user]? = some r) :
    (s'.heap r).value = (s.heap r).value.insert filename ((s.heap r).value.getD filename [] ++ value) := by
  induction fuel generalizing s with
  | zero => exact absurd hrun (by simp [LRUCache.putLoop])
  | succ fuel ih =>
      have hwired : (s.touched user true false).Wired :=
        h.congr (touched_heap ..) (touched_nodes ..) (touched_tablets ..) fun u hu => by rwa [touched_virmemMeta]
      have hresident' : (s.touched user true false).tablets[user]? = some r := by rw [touched_tablets, hresident]
      rcases putLoop_succ_ok hrun with hdone | ⟨t, t', hroom, hevict, hrest⟩
      · rcases putHelper_ok hdone with ⟨_, _, hover, _⟩ | ⟨_, _, _, t, hplace, rfl⟩ | ⟨hstored, _⟩
        · exact absurd (hquota.symm.trans hover) Bool.false_ne_true
        · rw [placeValue_held hresident' (hwired.tidy.disjoint user r hresident')] at hplace
          obtain ⟨r', hr', hstore⟩ := storeResident_ok hplace
          obtain rfl := Option.some.inj (hresident'.symm.trans hr')
          obtain ⟨p, _, rfl⟩ := hstore (hwired.tidy.ne_tail hresident')
          rw [charged_heap, toTail_value, setValue_value_self, touched_heap, if_neg Bool.false_ne_true]
        · exact absurd hstored Bool.false_ne_true.symm
      · rcases putHelper_ok hroom with ⟨hstored, _⟩ | ⟨hstored, _⟩ | ⟨_, _, _, rfl⟩
        · exact absurd hstored Bool.false_ne_true
        · exact absurd hstored Bool.false_ne_true
        · rcases hwired.stays_or_departs hresident' hevict with hgone | ⟨hkept, hvalue⟩
          · exact absurd hstays ((kept_departed user user r commFd).putLoop hgone trivial hrest).absent
          · have hevicted : Utters s t' commFd :=
              (steady_utters s user).evict _ _ ((steady_utters s user).touched _ _ _ .refl) hevict
            have hlast := ih (closed_wired.evict _ _ hwired hevict) hkept ((hevicted.exceedsQuota _ _).trans hquota) hrest
            rw [hlast, hvalue, touched_heap]

/-- A put of a user who stays in memory appends to its file. -/
theorem Wired.put_stays (h : s.Wired) (hresident : s.tablets[user]? = some r) (htaken : ¬ s.Refused user value)
    (hrun : put fuel s user filename value commFd true seqNum = .ok s') (hstays : s'.tablets[user]? = some r) :
    (s'.heap r).value = (s.heap r).value.insert filename ((s.heap r).value.getD filename [] ++ value) := by
  rcases put_ok hrun with ⟨hlarge, _⟩ | ⟨_, hloop⟩
  · exact absurd (Or.inl hlarge) htaken
  · have hquota : s.exceedsQuota user value = false := Bool.eq_false_iff.mpr fun hover => htaken (Or.inr hover)
    exact h.putLoop_stays hresident hquota hloop hstays

theorem Wired.listFile_returns {wanted : Str → Bool} {entry : Str → Str → Str} {files : List ((Str × Str) × Nat)} (h : s.Wired)
    (hresident : s.tablets[user]? = some r) (hfiles : ∀ file ∈ files, (s.heap r).value[file.1.1]? = some file.1.2) :
    ∃ s', files.foldlM (listFile fuel user commFd wanted entry) s = .ok s' := by
  induction files generalizing s with
  | nil => exact ⟨s, rfl⟩
  | cons file files ih =>
      obtain ⟨hfile, hfiles⟩ := List.forall_mem_cons.mp hfiles
      have hfirst : ∃ t, listFile fuel user commFd wanted entry s file = .ok t := by
        rw [listFile]
        split
        · obtain ⟨⟨found, t⟩, hget⟩ := Resides.getHelper_returns ⟨r, hresident, rfl⟩ h fuel file.1.1 commFd
          rw [hget, Run.ok_bind]
          cases found with
          | none => exact ⟨_, rfl⟩
          | some value => exact ⟨_, rfl⟩
        · exact ⟨s, rfl⟩
      obtain ⟨t, hfirst⟩ := hfirst
      obtain ⟨hwired, htablets, hvalues, _⟩ := listFile_ok h hresident hfile hfirst
      obtain ⟨s', hrest⟩ := ih hwired htablets fun file hmem => by rw [hvalues, hfiles file hmem]
      refine ⟨s', ?_⟩
      rw [List.foldlM_cons, hfirst, Run.ok_bind, hrest]

theorem Wired.listFiles_returns (h : s.Wired) (hresident : s.tablets[user]? = some r) (fuel : Nat) (commFd : Int)
    (wanted : Str → Bool) (entry : Str → Str → Str) : ∃ s', s.listFiles fuel user commFd wanted entry = .ok s' := by
  rw [listFiles_eq hresident]
  exact h.listFile_returns hresident fun file hfile => mem_of_mem_zipIdx hfile

end PennCloud.LRUCache
