import PennCloud.Kv.Proof.Tidy
import PennCloud.Kv.Proof.Closed

/-!
# Pointers that are never null

Whatever happens to the order of the list, the pointers of an allocated node lead to an allocated node
or to a sentinel, and nothing ever follows the tail. Every command keeps that, and every resident user
has a file.
-/

namespace PennCloud.LRUCache

open DList Std

variable {s s' t : LRUCache} {user filename value u : Str} {r p x n : Ref} {files : Map Str}

structure Wired (s : LRUCache) : Prop where
  tidy : s.Tidy
  occupied : ∀ (u : Str) r, s.tablets[u]? = some r → (s.heap r).value ≠ ∅
  pointed : Pointed s.links .head .tail s.Allocated
  ends : s.links.next .tail = none

theorem Wired.relink {L : Links Ref} (h : s.Wired) (hpointed : Pointed L .head .tail s.Allocated)
    (hends : L.next .tail = none) : (s.relink L).Wired :=
  ⟨h.tidy.congr rfl rfl (fun _ => rfl) rfl, h.occupied, hpointed, hends⟩

theorem Wired.exists_prev (h : s.Wired) : ∃ p, s.links.prev .tail = some p ∧ (p = .head ∨ s.Allocated p) :=
  h.pointed.prev .tail (Or.inl rfl)

theorem ne_tail_of_allocated (hp : p = .head ∨ s.Allocated p) : p ≠ .tail := by
  rcases hp with rfl | ⟨i, _, rfl⟩ <;> simp

theorem next_toTail (hp : p ≠ .tail) (hr : r ≠ .tail) (L : Links Ref) (hends : L.next .tail = none) :
    (L.moveToTail .tail r p).next .tail = none := by
  rw [Links.moveToTail_next, Function.update_of_ne hr.symm, Function.update_of_ne hp.symm, hends]

theorem Wired.toTail (h : s.Wired) (hr : s.Allocated r) (hprev : s.links.prev .tail = some p) :
    (s.toTail r p).Wired := by
  obtain ⟨q, hq, hqA⟩ := h.exists_prev
  obtain rfl := Option.some.inj (hprev.symm.trans hq)
  refine h.relink (h.pointed.moveToTail (fun x => ⟨Or.inl, ?_⟩) hprev) ?_
  · rintro (hx | rfl)
    · exact hx
    · exact hr
  · exact next_toTail (ne_tail_of_allocated hqA) (ne_tail_of_allocated (Or.inr hr)) _ h.ends

theorem Wired.setValue (h : s.Wired) (hne : files ≠ ∅) : (s.setValue r files).Wired := by
  refine ⟨h.tidy.setValue, fun u x hu => ?_, ?_, ?_⟩
  · by_cases hx : x = r
    · subst hx
      rw [setValue_value_self]
      exact hne
    · rw [setValue_value_of_ne hx]
      exact h.occupied u x hu
  · rw [links_setValue]
    exact h.pointed
  · rw [links_setValue]
    exact h.ends

theorem Wired.bypass (h : s.Wired) (hp : p = .head ∨ s.Allocated p) (hn : n = .tail ∨ s.Allocated n) :
    (s.relink (s.links.bypass p n)).Wired := by
  refine h.relink (h.pointed.bypass hp hn) ?_
  rw [Links.bypass_next, Function.update_of_ne (ne_tail_of_allocated hp).symm, h.ends]

theorem Wired.addNode (h : s.Wired) (hvirmem : s.virmemMeta[user]? = none)
    (hprev : s.links.prev .tail = some p) :
    ((s.addNode user filename value).toTail (.node s.nodes) p).Wired := by
  have hpointed : Pointed (s.addNode user filename value).links .head .tail s.Allocated := by
    refine h.pointed.congr ?_ ?_
    · rintro r (rfl | hr)
      · exact (addNode_next (by simp)).symm
      · exact (addNode_next hr.ne_fresh).symm
    · rintro r (rfl | hr)
      · exact (addNode_prev (by simp)).symm
      · exact (addNode_prev hr.ne_fresh).symm
  have hprev' : (s.addNode user filename value).links.prev .tail = some p := by
    rw [addNode_prev (by simp), hprev]
  have hallocated : ∀ r, (s.addNode user filename value).Allocated r ↔
      s.Allocated r ∨ r = .node s.nodes := fun r => allocated_addNode
  obtain ⟨q, hq, hqA⟩ := h.exists_prev
  obtain rfl := Option.some.inj (hprev.symm.trans hq)
  refine ⟨(h.tidy.addNode hvirmem).toTail, fun u r hu => ?_,
    hpointed.moveToTail hallocated hprev', ?_⟩
  · rw [toTail_tablets, addNode_tablets] at hu
    rw [toTail_value]
    split at hu
    · obtain rfl := Option.some.inj hu
      rw [addNode_heap_self]
      exact insert_ne_empty
    · rw [addNode_heap (h.tidy.ne_fresh hu)]
      exact h.occupied u r hu
  · refine next_toTail (ne_tail_of_allocated hqA) (by simp) _ ?_
    rw [addNode_next (by simp), h.ends]

theorem Wired.dropped (h : s.Wired) (hstep : ChunkStep .virtualMemory (s.heap x).key s t)
    (hn : n = .tail ∨ s.Allocated n) : (t.dropped x n).Wired := by
  have hlinks : t.links = s.links := by rw [links, hstep.heap, links]
  have hallocated : (t.dropped x n).Allocated = s.Allocated := by
    funext r
    rw [Allocated, dropped_nodes, hstep.nodes, Allocated]
  refine ⟨h.tidy.dropped hstep, fun u r hu => ?_, ?_, ?_⟩
  · rw [dropped_tablets, hstep.tablets, SortedMap.getElem?_erase_eq] at hu
    rw [dropped_value, hstep.heap]
    split at hu
    · exact absurd hu.symm (Option.some_ne_none r)
    · exact h.occupied u r hu
  · rw [hallocated, dropped_links, hlinks]
    exact h.pointed.bypass (Or.inl rfl) hn
  · rw [dropped_links, hlinks, Links.bypass_next, Function.update_of_ne (by simp), h.ends]

/-- Writing a user out of an empty list would follow the tail. -/
theorem Wired.first_ne_tail (h : s.Wired) (hx : s.links.next .head = some x) (hn : s.links.next x = some n) :
    s.Allocated x := by
  obtain ⟨y, hy, hyA⟩ := h.pointed.next .head (Or.inl rfl)
  obtain rfl := Option.some.inj (hx.symm.trans hy)
  refine hyA.resolve_left ?_
  rintro rfl
  rw [h.ends] at hn
  exact Option.some_ne_none n hn.symm

theorem fileErased_tablets (hu : (s.fileErased user filename r).tablets[u]? = some x) :
    s.tablets[u]? = some x ∧ (((s.heap r).value.erase filename).isEmpty = true → user ≠ u) := by
  change (if ((s.heap r).value.erase filename).isEmpty then s.tablets.erase user else s.tablets)[u]? =
    some x at hu
  split at hu
  · rw [SortedMap.getElem?_erase_eq] at hu
    split at hu
    · exact absurd hu.symm (Option.some_ne_none x)
    · next hne => exact ⟨hu, fun _ => hne⟩
  · next hrest => exact ⟨hu, fun hempty => absurd hempty hrest⟩

theorem Wired.fileErased (h : s.Wired) (hresident : s.tablets[user]? = some r) :
    (s.fileErased user filename r).Wired := by
  have hheap : (s.fileErased user filename r).heap = (s.setValue r ((s.heap r).value.erase filename)).heap :=
    rfl
  have hlinks : (s.fileErased user filename r).links = s.links := by
    rw [links, hheap]
    exact links_setValue _
  refine ⟨⟨fun u x hu => ?_, fun u x hu => ?_, fun u x hu => ?_⟩, fun u x hu => ?_, ?_, ?_⟩
  · exact h.tidy.allocated u x (fileErased_tablets hu).1
  · rw [hheap, setValue_key, h.tidy.keyed u x (fileErased_tablets hu).1]
  · exact h.tidy.disjoint u x (fileErased_tablets hu).1
  · obtain ⟨hbefore, hkept⟩ := fileErased_tablets hu
    rw [hheap]
    by_cases hx : x = r
    · subst hx
      rw [setValue_value_self]
      intro hempty
      exact hkept (Std.ExtTreeMap.isEmpty_iff.mpr hempty) (h.tidy.user_eq hresident hbefore)
    · rw [setValue_value_of_ne hx]
      exact h.occupied u x hbefore
  · rw [hlinks]
    exact h.pointed
  · rw [hlinks, h.ends]

theorem Wired.getHelper (h : s.Wired) (hresident : s.tablets[user]? = some r) :
    ∃ L, (s.relink L).Wired ∧ ∀ (fuel : Nat) filename commFd, s.getHelper fuel user filename commFd =
      match (s.filesOf user)[filename]? with
      | some value => .ok (some value, s.relink L)
      | none => .ok (none, (s.relink L).servermsg "-ERR No such file\r\n" commFd) := by
  have hr := h.tidy.allocated user r hresident
  obtain ⟨p, hp, hpA⟩ := h.pointed.prev r (Or.inr hr)
  obtain ⟨n, hn, hnA⟩ := h.pointed.next r (Or.inr hr)
  have hdetached := h.bypass hpA hnA
  obtain ⟨q, hq, _⟩ := hdetached.exists_prev
  refine ⟨_, hdetached.toTail hr hq, fun fuel filename commFd => ?_⟩
  have hknown : ¬ (s.tablets[user]? = none ∧ s.virmemMeta[user]? = none) := by
    rintro ⟨habsent, _⟩
    exact absurd (hresident.symm.trans habsent) (Option.some_ne_none r)
  have hfetched : s.fetched fuel user commFd = .ok s := by
    rw [fetched, ExtTreeMap.contains_eq_isSome_getElem?, h.tidy.disjoint user r hresident]
    rfl
  rw [getHelper_of_known hknown, hfetched, Run.ok_bind, filesOf_of_resident hresident, lookUp, hresident]
  simp only [deref, Run.ok_bind, detach_eq hp hn, moveToTail_eq hq (h.tidy.ne_tail hresident)]
  rfl

theorem Wired.congr (h : s.Wired) (hheap : s'.heap = s.heap) (hnodes : s'.nodes = s.nodes)
    (htablets : s'.tablets = s.tablets)
    (hvirmem : ∀ u : Str, s.virmemMeta[u]? = none → s'.virmemMeta[u]? = none) : s'.Wired := by
  have hlinks : s'.links = s.links := by rw [links, hheap, links]
  have hallocated : s'.Allocated = s.Allocated := by
    funext r
    rw [Allocated, hnodes, Allocated]
  refine ⟨⟨fun u r hu => ?_, fun u r hu => ?_, fun u r hu => ?_⟩, fun u r hu => ?_, ?_, ?_⟩
  · rw [hallocated]
    exact h.tidy.allocated u r (htablets ▸ hu)
  · rw [hheap, h.tidy.keyed u r (htablets ▸ hu)]
  · exact hvirmem u (h.tidy.disjoint u r (htablets ▸ hu))
  · rw [hheap]
    exact h.occupied u r (htablets ▸ hu)
  · rw [hlinks, hallocated]
    exact h.pointed
  · rw [hlinks, h.ends]

/-- Where nobody is in memory, records do not matter. -/
theorem Wired.of_nobody (h : s.Wired) (hheap : s'.heap = s.heap) (hnodes : s'.nodes = s.nodes) (hempty : s.tablets = ∅)
    (htablets : s'.tablets = s.tablets) : s'.Wired := by
  have habsent (u : Str) (r : Ref) : s'.tablets[u]? ≠ some r := by
    rw [htablets, hempty]
    simp
  have hlinks : s'.links = s.links := by rw [links, hheap, links]
  have hallocated : s'.Allocated = s.Allocated := by
    funext r
    rw [Allocated, hnodes, Allocated]
  refine ⟨⟨fun u r hu => absurd hu (habsent u r), fun u r hu => absurd hu (habsent u r),
    fun u r hu => absurd hu (habsent u r)⟩, fun u r hu => absurd hu (habsent u r), ?_, ?_⟩
  · rw [hlinks, hallocated]
    exact h.pointed
  · rw [hlinks, h.ends]

theorem closed_wired : Closed Wired where
  still s s' h hstill := h.congr hstill.heap hstill.nodes hstill.tablets hstill.virmem
  insert s s' user filename value h habsent hvirmem hrun := by
    obtain ⟨p, hprev, rfl⟩ := insertUser_ok hrun
    exact h.addNode hvirmem hprev
  store s s' user filename new h hrun := by
    obtain ⟨r, hresident, hrest⟩ := storeResident_ok hrun
    obtain ⟨p, hprev, rfl⟩ := hrest (h.tidy.ne_tail hresident)
    refine (h.setValue insert_ne_empty).toTail (h.tidy.allocated user r hresident) ?_
    rwa [links_setValue]
  evict s s' h hrun := by
    obtain ⟨x, n, t, hx, hn, hwrite, rfl⟩ := useVirtualMemory_ok hrun
    refine h.dropped (chunkStep_writeToChunkWith hwrite) ?_
    obtain ⟨m, hm, hmA⟩ := h.pointed.next x (Or.inr (h.first_ne_tail hx hn))
    obtain rfl := Option.some.inj (hn.symm.trans hm)
    exact hmA
  move s t s' r user h hresident hdetach hmove := by
    have hr := h.tidy.allocated user r hresident
    obtain ⟨p, n, hp, hn, rfl⟩ := detach_ok hdetach
    obtain ⟨q, hq, rfl⟩ := moveToTail_ok (h.tidy.ne_tail hresident) hmove
    obtain ⟨p', hp', hpA⟩ := h.pointed.prev r (Or.inr hr)
    obtain ⟨n', hn', hnA⟩ := h.pointed.next r (Or.inr hr)
    obtain rfl := Option.some.inj (hp.symm.trans hp')
    obtain rfl := Option.some.inj (hn.symm.trans hn')
    exact (h.bypass hpA hnA).toTail hr hq
  erase s r user filename h hresident := h.fileErased hresident
  rename s r user filename newFilename value h hresident := h.setValue insert_ne_empty

theorem wired_init {capacity : Int} {isPrimary : Bool} {chunkInfo : ChunkType → List Int} {disk : Disk} :
    (init capacity isPrimary chunkInfo disk).Wired := by
  refine ⟨tidy_init, fun u r hu => absurd hu (by simp [init]), ⟨fun r hr => ?_, fun r hr => ?_⟩, rfl⟩
  · rcases hr with rfl | ⟨i, hi, _⟩
    · exact ⟨.tail, rfl, Or.inl rfl⟩
    · exact absurd hi (Nat.not_lt_zero i)
  · rcases hr with rfl | ⟨i, hi, _⟩
    · exact ⟨.head, rfl, Or.inl rfl⟩
    · exact absurd hi (Nat.not_lt_zero i)

end PennCloud.LRUCache
