import PennCloud.Kv.Proof.Sound

/-!
# The small steps on sound states

Adding a node, changing a node's files, moving a node to the tail, forgetting the records of a user
that is about to be loaded, and evicting: each keeps a state sound, and each says what has become of
the contents and of the total in memory.
-/

namespace PennCloud.LRUCache

open DList Std

variable {s s' t : LRUCache} {user filename value u : Str} {r p x n : Ref} {files : Map Str}

/-! ### Nodes -/

theorem Sound.addNode (h : s.Sound) (hunknown : s.Unknown user) (hprev : s.links.prev .tail = some p)
    (hname : ',' ∉ filename) (hvalue : ',' ∉ value) :
    ((s.addNode user filename value).toTail (.node s.nodes) p).Sound := by
  have hpointed : Pointed (s.addNode user filename value).links .head .tail s.Allocated := by
    refine h.pointed.congr ?_ ?_
    · rintro r (rfl | hr)
      · exact (addNode_next (by simp)).symm
      · exact (addNode_next hr.ne_fresh).symm
    · rintro r (rfl | hr)
      · exact (addNode_prev (by simp)).symm
      · exact (addNode_prev hr.ne_fresh).symm
  have hprev' : (s.addNode user filename value).links.prev .tail = some p := by
    rw [addNode_prev (by simp), hprev]
  have hallocated : ∀ r, (s.addNode user filename value).Allocated r ↔
      s.Allocated r ∨ r = .node s.nodes := fun r => allocated_addNode
  refine ⟨(h.tidy.addNode hunknown.2).toTail, hpointed.moveToTail hallocated hprev', h.nonneg, h.small, ?_, h.evicted, ?_⟩
  · intro u r hu
    rw [toTail_tablets, addNode_tablets] at hu
    rw [toTail_value]
    split at hu
    · obtain rfl := Option.some.inj hu
      rw [addNode_heap_self]
      exact ⟨plain_empty.insert hname hvalue, insert_ne_empty⟩
    · rw [addNode_heap (h.tidy.ne_fresh hu)]
      exact h.resident u r hu
  · obtain ⟨fill, hat, hfill⟩ := h.chunk
    exact ⟨fill, ⟨hat.info, hat.length⟩, hfill⟩

theorem Sound.toTail (h : s.Sound) (hresident : s.tablets[user]? = some r)
    (hprev : s.links.prev .tail = some p) : (s.toTail r p).Sound := by
  have hr := h.tidy.allocated user r hresident
  refine h.relink (h.pointed.moveToTail (fun x => ⟨Or.inl, ?_⟩) hprev)
  rintro (hx | rfl)
  · exact hx
  · exact hr

theorem Sound.exists_prev (h : s.Sound) : ∃ p, s.links.prev .tail = some p := by
  obtain ⟨p, hp, _⟩ := h.pointed.prev .tail (Or.inl rfl)
  exact ⟨p, hp⟩

theorem Sound.detach_moveToTail (h : s.Sound) (hresident : s.tablets[user]? = some r) :
    ∃ t L, s.detach r = .ok t ∧ t.moveToTail r = .ok (s.relink L) ∧ (s.relink L).Sound := by
  have hr := h.tidy.allocated user r hresident
  obtain ⟨p, hp, hpA⟩ := h.pointed.prev r (Or.inr hr)
  obtain ⟨n, hn, hnA⟩ := h.pointed.next r (Or.inr hr)
  have hdetached : (s.relink (s.links.bypass p n)).Sound := h.relink (h.pointed.bypass hpA hnA)
  have hresident' : (s.relink (s.links.bypass p n)).tablets[user]? = some r := hresident
  obtain ⟨q, hq⟩ := hdetached.exists_prev
  exact ⟨_, _, detach_eq hp hn, moveToTail_eq hq (h.tidy.ne_tail hresident),
    hdetached.toTail hresident' hq⟩

/-! ### The records of a user -/

theorem clearMetadata_getElem? :
    (s.clearMetadata .virtualMemory user).virmemMeta[u]? = if user = u then none else s.virmemMeta[u]? :=
  SortedMap.getElem?_erase_eq ..

theorem Recorded.clearMetadata {row : Str} (h : s.Recorded .virtualMemory u row) (hne : user ≠ u) :
    (s.clearMetadata .virtualMemory user).Recorded .virtualMemory u row := by
  obtain ⟨chunk, front, back, hmeta, hfile⟩ := h
  refine ⟨chunk, front, back, ?_, hfile⟩
  exact (clearMetadata_getElem?.trans (if_neg hne)).trans hmeta

theorem Sound.clearMetadata (h : s.Sound) : (s.clearMetadata .virtualMemory user).Sound := by
  refine ⟨h.tidy.clearMetadata, h.pointed, h.nonneg, h.small, h.resident, fun u hu => ?_, ?_⟩
  · rw [clearMetadata_getElem?] at hu
    split at hu
    · exact absurd rfl hu
    · next hne =>
        obtain ⟨files, hplain, hfiles, hrecorded⟩ := h.evicted u hu
        exact ⟨files, hplain, hfiles, hrecorded.clearMetadata hne⟩
  · obtain ⟨fill, hat, hfill⟩ := h.chunk
    exact ⟨fill, ⟨hat.info, hat.length⟩, hfill⟩

theorem filesOf_clearMetadata (hne : user ≠ u) :
    (s.clearMetadata .virtualMemory user).filesOf u = s.filesOf u := by
  have hrecords : (s.clearMetadata .virtualMemory user).virmemMeta.getD u [] = s.virmemMeta.getD u [] := by
    rw [ExtTreeMap.getD_eq_getD_getElem?, ExtTreeMap.getD_eq_getD_getElem?, clearMetadata_getElem?, if_neg hne]
  have hrow : (s.clearMetadata .virtualMemory user).rowOnDisk u = s.rowOnDisk u := by
    rw [rowOnDisk, rowOnDisk, hrecords]
    rfl
  rw [filesOf, filesOf, hrow]
  rfl

/-! ### Eviction -/

/-- The rows of some residents still fit into the current chunk file. -/
def Spare (s : LRUCache) (tablets : Map Ref) : Prop :=
  ∃ fill : Nat, s.chunkInfo .virtualMemory = [0, (fill : Int)] ∧
    fill + s.weigh (fun files => (rowOf files).length) tablets ≤ chunkSize

theorem useVirtualMemory_eq (hx : s.links.next .head = some x) (hn : s.links.next x = some n)
    (hwrite : s.writeToChunk (s.heap x).key (rowOf (s.heap x).value) .virtualMemory = .ok t) :
    s.useVirtualMemory = .ok (t.dropped x n) := by
  have hheap : t.heap = s.heap := (chunkStep_writeToChunkWith hwrite).heap
  have hx' : (s.heap .head).next = some x := hx
  have hn' : (t.heap x).next = some n := by
    rw [hheap]
    exact hn
  rw [useVirtualMemory, hx']
  simp only [deref, Run.ok_bind, formatNode, hwrite]
  rw [setNext_next_self]
  simp only [hn', Run.ok_bind]
  rw [setNext_eq_relink, setPrev_eq_relink, relink_relink, links_relink]
  simp only [← hheap]
  rfl

theorem formatNode_size (files : Map Str) : (formatNode files).2 = toInt32 (total files) := by
  have hfold : ∀ (pairs : List (Str × Str)) (m : Int),
      pairs.foldl (fun size file => toInt32 (size + file.2.length)) (toInt32 m) =
        toInt32 (m + bytesOf pairs) := by
    intro pairs
    induction pairs with
    | nil => simp
    | cons file pairs ih =>
        intro m
        rw [List.foldl_cons, toInt32_add_toInt32, ih, bytesOf_cons, Int.natCast_add, Int.add_assoc]
  have hzero : toInt32 0 = 0 := by decide
  have h := hfold files.toList 0
  rw [hzero, Int.zero_add] at h
  rw [total_eq_bytesOf, ← h]
  rfl

/-- The state after the row of a user's node `x` has become a record and the node has been dropped. -/
def evict (s : LRUCache) (user : Str) (x n : Ref) (fill : Int) : LRUCache :=
  (s.appendRow .virtualMemory user (rowOf (s.heap x).value) 0 fill).dropped x n

section Evict

variable {fill : Nat}

section AppendRow

variable {type : ChunkType} {row : Str} {chunk fill : Int}

theorem appendRow_heap : (s.appendRow type user row chunk fill).heap = s.heap := by
  cases type <;> rfl

theorem appendRow_nodes : (s.appendRow type user row chunk fill).nodes = s.nodes := by
  cases type <;> rfl

theorem appendRow_capacity : (s.appendRow type user row chunk fill).capacity = s.capacity := by
  cases type <;> rfl

theorem appendRow_userSize : (s.appendRow type user row chunk fill).userSize = s.userSize := by
  cases type <;> rfl

end AppendRow

@[simp]
theorem evict_capacity {fill : Int} : (s.evict user x n fill).capacity = s.capacity := by
  rw [evict, dropped_capacity, appendRow_capacity]

@[simp]
theorem evict_userSize {fill : Int} : (s.evict user x n fill).userSize = s.userSize := by
  rw [evict, dropped_userSize, appendRow_userSize]

theorem evict_allocated {fill : Int} : (s.evict user x n fill).Allocated = s.Allocated := by
  funext r
  rw [Allocated, evict, dropped_nodes, appendRow_nodes, Allocated]

theorem evict_tablets (htidy : s.Tidy) (hresident : s.tablets[user]? = some x) (fill : Int) :
    (s.evict user x n fill).tablets = s.tablets.erase user := by
  rw [evict, dropped_tablets, appendRow_heap, htidy.keyed user x hresident]
  rfl

@[simp]
theorem evict_value {fill : Int} : ((s.evict user x n fill).heap r).value = (s.heap r).value := by
  rw [evict, dropped_value, appendRow_heap]

theorem evict_virmemMeta {fill : Int} : (s.evict user x n fill).virmemMeta[u]? =
    if user = u then some [[0, fill, ((rowOf (s.heap x).value).length : Int)]] else s.virmemMeta[u]? := by
  have hmeta : ((s.appendRow .virtualMemory user (rowOf (s.heap x).value) 0 fill).metaOf .virtualMemory)[u]? =
      if user = u then some [[0, fill, ((rowOf (s.heap x).value).length : Int)]]
      else (s.metaOf .virtualMemory)[u]? := appendRow_metaOf u
  exact hmeta

theorem evict_links {fill : Int} : (s.evict user x n fill).links = s.links.bypass .head n := rfl

theorem evict_metaOf {fill : Int} : (s.evict user x n fill).metaOf .virtualMemory =
    (s.appendRow .virtualMemory user (rowOf (s.heap x).value) 0 fill).metaOf .virtualMemory := rfl

theorem evict_files {fill : Int} : (s.evict user x n fill).disk.files =
    (s.appendRow .virtualMemory user (rowOf (s.heap x).value) 0 fill).disk.files := rfl

theorem recorded_evict (hat : s.ChunkAt .virtualMemory 0 (fill : Int)) :
    (s.evict user x n fill).Recorded .virtualMemory user (rowOf (s.heap x).value) :=
  (recorded_appendRow hat).congr evict_metaOf evict_files

theorem Recorded.evict {row : Str} {fill : Int} (h : s.Recorded .virtualMemory u row) (hne : user ≠ u) :
    (s.evict user x n fill).Recorded .virtualMemory u row :=
  (h.appendRow hne).congr evict_metaOf evict_files

theorem evict_chunkInfo (hat : s.ChunkAt .virtualMemory 0 (fill : Int)) :
    (s.evict user x n fill).chunkInfo .virtualMemory =
      [0, (fill : Int) + (rowOf (s.heap x).value).length] := by
  have hat' : (s.appendRow .virtualMemory user (rowOf (s.heap x).value) 0 fill).ChunkAt .virtualMemory 0
      (fill + (rowOf (s.heap x).value).length) := chunkAt_appendRow hat
  exact hat'.info

/-- The first node is a resident's and its row fits. -/
theorem Sound.useVirtualMemory_eq (h : s.Sound) (hx : s.links.next .head = some x)
    (hresident : s.tablets[user]? = some x) (hinfo : s.chunkInfo .virtualMemory = [0, (fill : Int)])
    (hfits : fill + (rowOf (s.heap x).value).length ≤ chunkSize) :
    ∃ n, s.links.next x = some n ∧ (n = .tail ∨ s.Allocated n) ∧
      s.useVirtualMemory = .ok (s.evict user x n fill) := by
  obtain ⟨n, hn, hnA⟩ := h.pointed.next x (Or.inr (h.tidy.allocated user x hresident))
  refine ⟨n, hn, hnA, ?_⟩
  rw [LRUCache.useVirtualMemory_eq hx hn (writeToChunkWith_fits hinfo (by omega) (by omega))]
  rw [h.tidy.keyed user x hresident, evict]

theorem Sound.evict (h : s.Sound) (hresident : s.tablets[user]? = some x)
    (hn : n = .tail ∨ s.Allocated n) (hat : s.ChunkAt .virtualMemory 0 (fill : Int))
    (hfits : fill + (rowOf (s.heap x).value).length ≤ chunkSize) :
    (s.evict user x n fill).Sound := by
  have hkey : (s.heap x).key = user := h.tidy.keyed user x hresident
  have hstep : ChunkStep .virtualMemory (s.heap x).key s
      (s.appendRow .virtualMemory user (rowOf (s.heap x).value) 0 fill) := by
    have hwrite : s.writeToChunk user (rowOf (s.heap x).value) .virtualMemory =
        .ok (s.appendRow .virtualMemory user (rowOf (s.heap x).value) 0 fill) :=
      writeToChunkWith_fits hat.info (by omega) (by omega)
    rw [hkey]
    exact chunkStep_writeToChunkWith hwrite
  refine ⟨h.tidy.dropped hstep, ?_, ?_, ?_, ?_, ?_, ?_⟩
  · rw [evict_links, evict_allocated]
    exact h.pointed.bypass (Or.inl rfl) hn
  · rw [evict_capacity]
    exact h.nonneg
  · rw [evict_capacity]
    exact h.small
  · intro u r hu
    rw [evict_tablets h.tidy hresident] at hu
    exact h.resident u r (erase_getElem? hu).2
  · intro u hu
    by_cases huser : user = u
    · subst huser
      obtain ⟨hplain, hne⟩ := h.resident user x hresident
      exact ⟨_, hplain, hne, recorded_evict hat⟩
    · rw [evict_virmemMeta, if_neg huser] at hu
      obtain ⟨files, hplain, hne, hrecorded⟩ := h.evicted u hu
      exact ⟨files, hplain, hne, hrecorded.evict huser⟩
  · refine ⟨fill + (rowOf (s.heap x).value).length, ?_, hfits⟩
    have hat' : (s.appendRow .virtualMemory user (rowOf (s.heap x).value) 0 fill).ChunkAt .virtualMemory 0
        (fill + (rowOf (s.heap x).value).length) := chunkAt_appendRow hat
    rw [Int.natCast_add]
    exact ⟨hat'.info, hat'.length⟩

theorem Sound.filesOf_evict (h : s.Sound) (hresident : s.tablets[user]? = some x)
    (hat : s.ChunkAt .virtualMemory 0 (fill : Int)) (u : Str) :
    (s.evict user x n fill).filesOf u = s.filesOf u := by
  have hrow : ∀ row, s.Recorded .virtualMemory u row → user ≠ u →
      (s.evict user x n fill).rowOnDisk u = s.rowOnDisk u := by
    intro row hrecorded hne
    have hkept : (s.evict user x n fill).Recorded .virtualMemory u row :=
      hrecorded.evict hne
    rw [hkept.rowOnDisk, hrecorded.rowOnDisk]
  by_cases huser : user = u
  · subst huser
    have habsent : (s.evict user x n fill).tablets[user]? = none := by
      rw [evict_tablets h.tidy hresident]
      exact ExtTreeMap.getElem?_erase_self
    have hrecorded : (s.evict user x n fill).Recorded .virtualMemory user (rowOf (s.heap x).value) :=
      recorded_evict hat
    rw [filesOf_of_absent habsent, hrecorded.rowOnDisk, filesOf_of_resident hresident]
    exact (h.resident user x hresident).1.filesOfRow
  · have htablets : (s.evict user x n fill).tablets[u]? = s.tablets[u]? := by
      rw [evict_tablets h.tidy hresident, SortedMap.getElem?_erase_eq, if_neg huser]
    rw [filesOf, filesOf, htablets]
    cases hother : s.tablets[u]? with
    | some r => rfl
    | none =>
        by_cases hvirmem : s.virmemMeta[u]? = none
        · have hvirmem' : (s.evict user x n fill).virmemMeta[u]? = none := by
            rw [evict_virmemMeta, if_neg huser, hvirmem]
          rw [rowOnDisk_of_none hvirmem, rowOnDisk_of_none hvirmem']
        · rw [hrow _ (h.filesOf_evicted hvirmem).2.2 huser]

theorem weigh_evict {w : Map Str → Nat} {fill : Int} (tablets : Map Ref) :
    (s.evict user x n fill).weigh w tablets = s.weigh w tablets :=
  SortedMap.sum_congr fun u r _ => by rw [evict_value]

theorem Sound.exact_evict (h : s.Sound) (hresident : s.tablets[user]? = some x) (hexact : s.Exact)
    (fill : Int) : (s.evict user x n fill).Exact := by
  have hmemory : (s.evict user x n fill).memoryUsed =
      toInt32 (s.memoryUsed + -(formatNode (s.heap x).value).2) := rfl
  rw [Exact, hmemory, hexact, residentTotal_of_resident hresident, formatNode_size, residentTotal,
    evict_tablets h.tidy hresident, weigh_evict, ← sub_eq_add_neg, toInt32_sub_toInt32,
    toInt32_sub_toInt32_right, Int.natCast_add, Int.add_comm, Int.add_sub_cancel]

end Evict

/-! ### The first node of a list in order -/

/-- Evicting `x` from a list of the residents leaves `l`, and all contents. -/
structure Evicted (s t : LRUCache) (x : Ref) (l : List Ref) : Prop where
  sound : t.Sound
  exact : t.Exact
  forward : Forward t.links .head .tail l
  lists : t.Lists l
  filesOf : ∀ u, t.filesOf u = s.filesOf u
  tablets : t.tablets = s.tablets.erase (s.heap x).key
  values : ∀ r, (t.heap r).value = (s.heap r).value
  virmem : ∀ u, u ≠ (s.heap x).key → t.virmemMeta[u]? = s.virmemMeta[u]?
  userSize : t.userSize = s.userSize
  capacity : t.capacity = s.capacity
  spare : ∀ tablets : Map Ref, tablets[(s.heap x).key]? = some x → s.Spare tablets →
    t.Spare (tablets.erase (s.heap x).key)

theorem Sound.evict_lists {l : List Ref} {fill : Int} (h : s.Sound)
    (hresident : s.tablets[user]? = some x) (hlists : s.Lists (x :: l)) (hnodup : (x :: l).Nodup) :
    (s.evict user x n fill).Lists l := by
  have hkey : (s.heap x).key = user := h.tidy.keyed user x hresident
  intro r
  rw [evict_tablets h.tidy hresident, SortedMap.getElem?_erase_eq]
  have hkeys : ((s.evict user x n fill).heap r).key = (s.heap r).key := by
    rw [LRUCache.evict, dropped_key, appendRow_heap]
  rw [hkeys]
  split
  · next heq =>
      constructor
      · intro hmem
        have hr := hlists.resident (List.mem_cons_of_mem x hmem)
        rw [← heq, hresident] at hr
        obtain rfl := Option.some.inj hr
        exact absurd hmem (List.nodup_cons.mp hnodup).1
      · exact fun hnone => absurd hnone.symm (Option.some_ne_none r)
  · next hne =>
      rw [← hlists r, List.mem_cons]
      constructor
      · exact Or.inr
      · rintro (rfl | hmem)
        · exact absurd hkey.symm hne
        · exact hmem

/-- The first resident is evicted without loss, unless the chunk has no room for its row; then the
chunk fills up. -/
theorem Sound.evictFirst {l : List Ref} (h : s.Sound) (hexact : s.Exact)
    (hforward : Forward s.links .head .tail (x :: l)) (hlists : s.Lists (x :: l)) :
    (∃ t, s.useVirtualMemory = .ok t ∧ Evicted s t x l) ∨
      ((∀ t, s.useVirtualMemory = .ok t → t.Filled) ∧
        ∀ tablets : Map Ref, tablets[(s.heap x).key]? = some x → ¬ s.Spare tablets) := by
  have hresident := hlists.resident List.mem_cons_self
  have hx : s.links.next .head = some x := hforward.path.1
  obtain ⟨fill, hat, hfill⟩ := h.chunk
  by_cases hfits : fill + (rowOf (s.heap x).value).length ≤ chunkSize
  · obtain ⟨n, hn, hnA, hevict⟩ := h.useVirtualMemory_eq hx hresident hat.info hfits
    refine Or.inl ⟨_, hevict, h.evict hresident hnA hat hfits, h.exact_evict hresident hexact _, ?_,
      h.evict_lists hresident hlists hforward.nodup_nodes, h.filesOf_evict hresident hat,
      evict_tablets h.tidy hresident _, fun r => evict_value, ?_, evict_userSize, evict_capacity, ?_⟩
    · rw [evict_links]
      exact hforward.bypass_first hn
    · intro u hu
      rw [evict_virmemMeta, if_neg (Ne.symm hu)]
    · rintro tablets htablets ⟨fill', hinfo, hspare⟩
      rw [hat.info] at hinfo
      obtain rfl : fill = fill' := Int.ofNat_inj.mp (List.cons.inj (List.cons.inj hinfo).2).1
      refine ⟨fill + (rowOf (s.heap x).value).length, ?_, ?_⟩
      · rw [Int.natCast_add]
        exact evict_chunkInfo hat
      · rw [weigh_evict]
        have hsum : s.weigh (fun files => (rowOf files).length) tablets = (rowOf (s.heap x).value).length +
            s.weigh (fun files => (rowOf files).length) (tablets.erase (s.heap x).key) :=
          SortedMap.sum_of_getElem? htablets
        omega
  · refine Or.inr ⟨fun t hrun => ?_, ?_⟩
    · obtain ⟨x', n, t', hx', _, hwrite, rfl⟩ := useVirtualMemory_ok hrun
      obtain rfl := Option.some.inj (hx.symm.trans hx')
      exact (filledUp_writeToChunk hat.info (by decide) hfill (by omega) hwrite).congr rfl
    · rintro tablets htablets ⟨fill', hinfo, hspare⟩
      rw [hat.info] at hinfo
      obtain rfl : fill = fill' := Int.ofNat_inj.mp (List.cons.inj (List.cons.inj hinfo).2).1
      have hle : (rowOf (s.heap x).value).length ≤ s.weigh (fun files => (rowOf files).length) tablets :=
        SortedMap.le_sum (f := fun _ r => (rowOf (s.heap r).value).length) htablets
      omega

end PennCloud.LRUCache
