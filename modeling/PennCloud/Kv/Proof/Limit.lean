import PennCloud.Kv.Proof.Evictions
import PennCloud.Kv.Proof.Wired

/-!
# The memory limit

`put_helper` compares memory with the capacity and then stores. In between, it may load its user from
disk, and nothing is compared again. As long as a user that is loaded leaves room for the value, and
evictions take the nodes of residents in order, the counter is what is resident and stays below the
capacity, whatever the rows on disk hold.
-/

namespace PennCloud.LRUCache

open DList Std

variable {s s' t : LRUCache} {user filename value u : Str} {r p x n : Ref} {files : Map Str}
  {fuel need : Nat} {commFd seqNum : Int} {l : List Ref} {load : LRUCache → Str → Except Fault LRUCache}

/-- The counter is what is resident, and that is within the capacity. -/
structure Bounded (s : LRUCache) : Prop where
  wired : s.Wired
  nonneg : 0 ≤ s.capacity
  small : s.capacity ≤ intMax
  memory : s.memoryUsed = s.residentTotal
  limit : (s.residentTotal : Int) ≤ s.capacity

theorem Bounded.exact (h : s.Bounded) : s.Exact := by
  have hsmall := h.small
  have hlimit := h.limit
  rw [Exact, h.memory, toInt32_of_range (by simp only [intMax]; omega) (by omega)]

theorem Bounded.still (h : s.Bounded) (hstill : Still s s') (hcapacity : s'.capacity = s.capacity)
    (hmemory : s'.memoryUsed = s.memoryUsed) : s'.Bounded := by
  have htotal : s'.residentTotal = s.residentTotal := by
    rw [residentTotal, residentTotal, weigh, weigh, hstill.tablets, hstill.heap]
  refine ⟨closed_wired.still _ _ h.wired hstill, ?_, ?_, ?_, ?_⟩
  · rw [hcapacity]
    exact h.nonneg
  · rw [hcapacity]
    exact h.small
  · rw [hmemory, htotal, h.memory]
  · rw [htotal, hcapacity]
    exact h.limit

theorem Bounded.sent (h : s.Bounded) (sent : List (Int × Str)) : ({ s with sent := sent } : LRUCache).Bounded :=
  h.still (.of_eq rfl rfl rfl rfl rfl rfl rfl) rfl rfl

theorem Bounded.touched {external isCPUT : Bool} (h : s.Bounded) : (s.touched user external isCPUT).Bounded := by
  have hquiet : Quiet s (s.touched user external isCPUT) 0 := quiet_touched
  exact h.still hquiet.still (touched_capacity ..) (touched_memoryUsed ..)

theorem Bounded.fits_iff (h : s.Bounded) (hvalue : value.length ≤ toSize s.capacity) :
    s.fits value = true ↔ (s.residentTotal : Int) + value.length ≤ s.capacity := by
  have hlimit := h.limit
  have hsmall := h.small
  exact residentTotal_le_of_fits h.exact h.nonneg hsmall (by omega) hvalue

/-- A state that holds `n` bytes more, before they are counted. -/
structure Grown (s t : LRUCache) (n : Nat) : Prop where
  wired : t.Wired
  residentTotal : t.residentTotal = s.residentTotal + n
  memoryUsed : t.memoryUsed = s.memoryUsed
  capacity : t.capacity = s.capacity

theorem Grown.counted {size : Nat} (hgrown : Grown s t size) (h : s.Bounded)
    (hfits : (s.residentTotal : Int) + size ≤ s.capacity) (hstill : Still t s')
    (hcapacity : s'.capacity = t.capacity) (hmemory : s'.memoryUsed = toInt32 (t.memoryUsed + size)) :
    s'.Bounded := by
  have hsmall := h.small
  have htotal : s'.residentTotal = t.residentTotal := by
    rw [LRUCache.residentTotal, LRUCache.residentTotal, weigh, weigh, hstill.tablets, hstill.heap]
  refine ⟨closed_wired.still _ _ hgrown.wired hstill, ?_, ?_, ?_, ?_⟩
  · rw [hcapacity, hgrown.capacity]
    exact h.nonneg
  · rw [hcapacity, hgrown.capacity]
    exact h.small
  · rw [hmemory, hgrown.memoryUsed, h.memory, htotal, hgrown.residentTotal,
      toInt32_of_range (by simp only [intMax]; omega) (by omega), Int.natCast_add]
  · rw [htotal, hgrown.residentTotal, hcapacity, hgrown.capacity, Int.natCast_add]
    exact hfits

theorem residentTotal_addFile (htidy : s.Tidy) (hresident : s.tablets[user]? = some r) :
    (s.setValue r (addFile (s.filesOf user) (filename, value))).residentTotal = s.residentTotal + value.length := by
  have hadded : total (addFile (s.filesOf user) (filename, value)) = total (s.filesOf user) + value.length :=
    total_addFile (s.filesOf user) (filename, value)
  rw [residentTotal_setValue htidy hresident, hadded, residentTotal_of_resident hresident, filesOf_of_resident hresident]
  omega

theorem residentTotal_addNode (htidy : s.Tidy) (habsent : s.tablets[user]? = none) :
    (s.addNode user filename value).residentTotal = s.residentTotal + value.length := by
  rw [residentTotal, weigh_addNode htidy habsent, total_insert, SortedMap.erase_eq_self ExtTreeMap.getElem?_empty,
    total_empty, Nat.add_zero, Nat.add_comm]
  rfl

theorem Wired.setValue_grown (h : s.Wired) (hresident : s.tablets[user]? = some r) (hp : s.links.prev .tail = some p) :
    Grown s ((s.setValue r (addFile (s.filesOf user) (filename, value))).toTail r p) value.length := by
  refine ⟨(h.setValue insert_ne_empty).toTail (h.tidy.allocated user r hresident) (by rwa [links_setValue]), ?_, rfl, rfl⟩
  exact residentTotal_addFile h.tidy hresident

theorem Wired.placeValue (h : s.Wired) (hbuilding : s.Building user files) :
    ∃ t, s.placeValue load user filename value false = .ok t ∧ Grown s t value.length ∧
      (t.addMemory value.length).Building user (addFile files (filename, value)) ∧
      ∀ (way : Way) need, way.Open s user files (value.length + need) →
        way.Open (t.addMemory value.length) user (addFile files (filename, value)) need := by
  obtain ⟨p, hp, _⟩ := h.exists_prev
  have hvirmem := hbuilding.virmem
  rcases hbuilding.held with ⟨habsent, rfl⟩ | ⟨i, hresident, hvalue⟩
  · have hfiles : addFile ∅ (filename, value) = (∅ : Map Str).insert filename value :=
      addFile_of_none ExtTreeMap.getElem?_empty
    refine ⟨_, placeValue_absent habsent hvirmem hp, ⟨h.addNode hvirmem hp, residentTotal_addNode h.tidy habsent, rfl, rfl⟩,
      ?_, ?_⟩
    · refine ⟨Or.inr ⟨s.nodes, ?_, ?_⟩, hvirmem, _, toTail_prev_tail ..⟩
      · rw [addMemory_tablets, toTail_tablets, addNode_tablets, if_pos rfl]
      · rw [addMemory_heap, toTail_value, addNode_heap_self, hfiles]
    · intro way need hopen
      rw [hfiles]
      exact hopen.addNode h.tidy ⟨habsent, hvirmem⟩ hp
  · have hr := h.tidy.ne_tail hresident
    obtain rfl := hbuilding.filesOf
    have hplace : s.placeValue load user filename value false = _ := placeValue_resident hresident hvirmem hp hr
    rw [← filesOf_of_resident hresident] at hplace
    refine ⟨_, hplace, h.setValue_grown hresident hp, ?_, ?_⟩
    · refine ⟨Or.inr ⟨i, hresident, ?_⟩, hvirmem, _, toTail_prev_tail ..⟩
      rw [addMemory_heap, toTail_value, setValue_value_self]
      rfl
    · intro way need hopen
      exact hopen.setValue h.tidy hresident hp

/-! ### Eviction -/

/-- The first of the residents has left. -/
structure Left (s t : LRUCache) (x : Ref) (l : List Ref) : Prop where
  bounded : t.Bounded
  forward : Forward t.links .head .tail l
  lists : t.Lists l
  capacity : t.capacity = s.capacity
  tablets : t.tablets = s.tablets.erase (s.heap x).key
  heap : ∀ r, (t.heap r).value = (s.heap r).value
  keys : ∀ r, (t.heap r).key = (s.heap r).key
  virmem : ∀ u, u ≠ (s.heap x).key → t.virmemMeta[u]? = s.virmemMeta[u]?

theorem Bounded.evict (h : s.Bounded) (hforward : Forward s.links .head .tail l) (hlists : s.Lists l)
    (hrun : s.useVirtualMemory = .ok t) : ∃ x l', l = x :: l' ∧ Left s t x l' := by
  have hwired := closed_wired.evict _ _ h.wired hrun
  obtain ⟨x, n, t', hx, hn, hwrite, rfl⟩ := useVirtualMemory_ok hrun
  have hstep := chunkStep_writeToChunkWith hwrite
  have hlinks : t'.links = s.links := by rw [links, hstep.heap, links]
  have hallocated := h.wired.first_ne_tail hx hn
  cases l with
  | nil =>
      obtain rfl : x = .tail := Option.some.inj (hx.symm.trans hforward.path)
      obtain ⟨i, _, hnode⟩ := hallocated
      exact absurd hnode (by simp)
  | cons y l =>
      obtain rfl : x = y := Option.some.inj (hx.symm.trans hforward.path.1)
      have hresident := hlists.resident List.mem_cons_self
      have htotal := residentTotal_of_resident hresident
      have hsmall := h.small
      have hlimit := h.limit
      have hleft : (t'.dropped x n).residentTotal = s.weigh total (s.tablets.erase (s.heap x).key) := by
        rw [residentTotal, weigh, dropped_tablets, hstep.tablets, hstep.heap]
        exact SortedMap.sum_congr fun u r _ => by rw [dropped_value, hstep.heap]
      have hmemory : (t'.dropped x n).memoryUsed = s.memoryUsed - total (s.heap x).value := by
        change toInt32 (t'.memoryUsed + -(formatNode (t'.heap x).value).2) = _
        have hsize : toInt32 (total (s.heap x).value : Int) = total (s.heap x).value :=
          toInt32_of_range (by simp only [intMax]; omega) (by omega)
        rw [hstep.heap, formatNode_size, hstep.memoryUsed, h.memory, hsize, ← sub_eq_add_neg,
          toInt32_of_range (by simp only [intMax]; omega) (by omega)]
      have hcapacity : (t'.dropped x n).capacity = s.capacity := hstep.capacity
      refine ⟨x, l, rfl, ⟨hwired, ?_, ?_, ?_, ?_⟩, ?_, hlists.dropped hforward.nodup_nodes hstep, hcapacity, ?_, ?_, ?_, ?_⟩
      · rw [hcapacity]
        exact h.nonneg
      · rw [hcapacity]
        exact hsmall
      · rw [hmemory, hleft, h.memory, htotal]
        omega
      · rw [hleft, hcapacity]
        omega
      · rw [dropped_links, hlinks]
        exact hforward.bypass_first hn
      · rw [dropped_tablets, hstep.tablets, hstep.heap]
      · intro r
        rw [dropped_value, hstep.heap]
      · intro r
        rw [dropped_key, hstep.heap]
      · exact fun u hu => hstep.records u hu

/-! ### Loading -/

/-- A file has been loaded within the limit, and the way to the next is open. -/
structure Reached (s s' : LRUCache) (user : Str) (way : Way) (files : Map Str) (need : Nat) : Prop where
  bounded : s'.Bounded
  building : s'.Building user files
  capacity : s'.capacity = s.capacity
  way : ∃ way' : Way, way'.Open s' user files need ∧ (way = .room → way' = .room)

theorem Reached.trans {way : Way} {files' : Map Str} {need' : Nat} (h : Reached s t user way files need)
    (h' : ∀ way' : Way, way'.Open t user files need → Reached t s' user way' files' need') :
    Reached s s' user way files' need' := by
  obtain ⟨way', hopen, hroom⟩ := h.way
  have hrest := h' way' hopen
  obtain ⟨way'', hopen', hroom'⟩ := hrest.way
  exact ⟨hrest.bounded, hrest.building, hrest.capacity.trans h.capacity, way'', hopen',
    fun heq => hroom' (hroom heq)⟩

theorem Bounded.putLoop_internal {way : Way} (h : s.Bounded) (hbuilding : s.Building user files)
    (hopen : way.Open s user files (value.length + need))
    (hrun : LRUCache.putLoop fuel s user filename value commFd false seqNum = .ok s') :
    Reached s s' user way (addFile files (filename, value)) need := by
  induction fuel generalizing s way with
  | zero => exact absurd hrun (by simp [LRUCache.putLoop])
  | succ fuel ih =>
      rw [putLoop_internal_succ] at hrun
      by_cases hfits : s.fits value = true
      · rw [if_pos hfits] at hrun
        obtain ⟨t, hplace, hgrown, hbuilt, hopened⟩ :
            ∃ t, s.placeValue (reload fuel commFd) user filename value false = .ok t ∧ _ :=
          h.wired.placeValue hbuilding
        rw [hplace, Run.ok_bind] at hrun
        obtain rfl := Except.ok.inj hrun
        have hroom := (h.fits_iff (hopen.length_le h.nonneg h.small)).mp hfits
        exact ⟨hgrown.counted h hroom (.of_eq rfl rfl rfl rfl rfl rfl rfl) rfl rfl, hbuilt, hgrown.capacity,
          way, hopened way need hopen, id⟩
      · rw [if_neg hfits] at hrun
        rw [Bool.not_eq_true] at hfits
        obtain ⟨x, others, rfl⟩ := Way.exists_other h.wired.tidy h.nonneg h.small h.exact hbuilding hopen hfits
        obtain ⟨t, hevict, hrest⟩ := Run.bind_eq_ok.mp hrun
        obtain ⟨y, l', heq, hleft⟩ := h.evict hopen.1 hopen.2.1 hevict
        obtain ⟨rfl, rfl⟩ := List.cons.inj heq
        obtain ⟨p, hp, _⟩ := hleft.bounded.wired.exists_prev
        obtain ⟨hbuilding', hopen'⟩ := hopen.evicted hbuilding ⟨p, hp⟩ hleft.forward hleft.lists hleft.tablets
          hleft.heap hleft.virmem hleft.capacity
        have hreached := ih hleft.bounded hbuilding' hopen' hrest
        obtain ⟨way', hopened, _⟩ := hreached.way
        exact ⟨hreached.bounded, hreached.building, hreached.capacity.trans hleft.capacity, way', hopened,
          fun hroom => absurd hroom (by simp)⟩

theorem Bounded.restore {way : Way} (pairs : List (Str × Str)) (h : s.Bounded) (hbuilding : s.Building user files)
    (hopen : way.Open s user files (bytesOf pairs + need))
    (hrun : pairs.foldlM (fun s file => LRUCache.put fuel s user file.1 file.2 commFd false 0) s = .ok s') :
    Reached s s' user way (pairs.foldl addFile files) need := by
  induction pairs generalizing s files way with
  | nil =>
      obtain rfl := Except.ok.inj hrun
      rw [bytesOf_nil, Nat.zero_add] at hopen
      exact ⟨h, hbuilding, rfl, way, hopen, id⟩
  | cons file pairs ih =>
      rw [bytesOf_cons, Nat.add_assoc] at hopen
      rw [List.foldlM_cons] at hrun
      obtain ⟨t, hput, hrest⟩ := Run.bind_eq_ok.mp hrun
      have hlength := hopen.length_le h.nonneg h.small
      rcases put_ok hput with ⟨hlarge, _⟩ | ⟨_, hloop⟩
      · exact absurd hlarge (Nat.not_lt.mpr hlength)
      · have hreached := h.putLoop_internal hbuilding hopen hloop
        exact hreached.trans fun way' hopen' => ih hreached.bounded hreached.building hopen' hrest

theorem total_foldl_addFile (pairs : List (Str × Str)) (files : Map Str) :
    total (pairs.foldl addFile files) = total files + bytesOf pairs := by
  induction pairs generalizing files with
  | nil => rfl
  | cons file pairs ih => rw [List.foldl_cons, ih, total_addFile, bytesOf_cons, Nat.add_assoc]

/-- Loading a user, whatever its row has become. -/
theorem Bounded.loadUserFromDisk {way : Way} (h : s.Bounded) (hvirmem : s.virmemMeta[user]? ≠ none)
    (hopen : way.Open s user ∅ (total (s.filesOf user) + need))
    (hrun : LRUCache.loadUserFromDisk fuel s .virtualMemory user commFd = .ok s') :
    Reached s s' user way (s.filesOf user) need := by
  have habsent := h.wired.tidy.absent_of_virmem hvirmem
  obtain ⟨row, hread, hrun⟩ := Run.bind_eq_ok.mp hrun
  have hrow : s.rowOnDisk user = row := rowOnDisk_of_readRow hread
  have hfiles : s.filesOf user = (pairUp (Fields.pieces ',' row)).foldl addFile ∅ := by
    rw [filesOf_of_absent habsent, filesOfRow, hrow]
  have hquiet : Quiet s (s.clearMetadata .virtualMemory user) 0 := quiet_clearMetadata
  have hcleared : (s.clearMetadata .virtualMemory user).Bounded := h.still hquiet.still rfl rfl
  obtain ⟨p, hp, _⟩ := h.wired.exists_prev
  have hbuilding : (s.clearMetadata .virtualMemory user).Building user ∅ :=
    ⟨Or.inl ⟨habsent, rfl⟩, ExtTreeMap.getElem?_erase_self, p, hp⟩
  rw [hfiles, total_foldl_addFile, total_empty, Nat.zero_add] at hopen
  rw [hfiles]
  have hopen' : way.Open (s.clearMetadata .virtualMemory user) user ∅
      (bytesOf (pairUp (Fields.pieces ',' row)) + need) := by
    cases way <;> exact hopen
  have hreached := hcleared.restore _ hbuilding hopen' hrun
  exact ⟨hreached.bounded, hreached.building, hreached.capacity, hreached.way⟩

/-! ### A get -/

/-- Loading the user evicts nobody, or residents in order and not the user. -/
def Reloads (s : LRUCache) (user : Str) : Prop :=
  s.Roomy user ∨ s.InOrder ∧ (total (s.filesOf user) : Int) ≤ s.capacity

theorem Bounded.fetched (h : s.Bounded) (hreloads : s.Reloads user)
    (hrun : s.fetched fuel user commFd = .ok s') :
    s'.Bounded ∧ s'.capacity = s.capacity ∧ s'.filesOf user = s.filesOf user := by
  rw [LRUCache.fetched, ExtTreeMap.contains_eq_isSome_getElem?] at hrun
  split at hrun
  · next hsome =>
      have hvirmem : s.virmemMeta[user]? ≠ none := Option.isSome_iff_ne_none.mp hsome
      have hopen : ∃ way : Way, way.Open s user ∅ (total (s.filesOf user) + 0) := by
        rcases hreloads with hroomy | ⟨⟨l, hforward, hlists⟩, htotal⟩
        · refine ⟨.room, ?_⟩
          have hroom := hroomy hvirmem
          change (s.residentTotal + (total (s.filesOf user) + 0 : Nat) : Int) ≤ s.capacity
          omega
        · refine ⟨.listed l, ?_⟩
          rw [Way.Open, h.wired.tidy.absent_of_virmem hvirmem, Option.toList_none, List.append_nil, total_empty]
          exact ⟨hforward, hlists, by omega⟩
      obtain ⟨way, hopen⟩ := hopen
      have hreached := h.loadUserFromDisk hvirmem hopen hrun
      exact ⟨hreached.bounded, hreached.capacity, hreached.building.filesOf⟩
  · obtain rfl := Except.ok.inj hrun
    exact ⟨h, rfl, rfl⟩

theorem Bounded.move (h : s.Bounded) (hresident : s.tablets[user]? = some r) (hdetach : s.detach r = .ok t)
    (hmove : t.moveToTail r = .ok s') : s'.Bounded ∧ ∃ L, s' = s.relink L := by
  have hwired := closed_wired.move _ _ _ _ _ h.wired hresident hdetach hmove
  obtain ⟨p, n, _, _, rfl⟩ := detach_ok hdetach
  obtain ⟨L, rfl⟩ := moveToTail_relink hmove
  exact ⟨⟨hwired, h.nonneg, h.small, h.memory, h.limit⟩, _, rfl⟩

/-- What `get_helper` leaves: the user has the files it had, and the value found is one of them. -/
structure Read (s s' : LRUCache) (user filename : Str) (found : Option Str) : Prop where
  bounded : s'.Bounded
  capacity : s'.capacity = s.capacity
  filesOf : s'.filesOf user = s.filesOf user
  found : ∀ r, s'.tablets[user]? = some r → found = (s'.filesOf user)[filename]?

theorem Bounded.getHelper {found : Option Str} (h : s.Bounded) (hreloads : s.Reloads user)
    (hrun : s.getHelper fuel user filename commFd = .ok (found, s')) : Read s s' user filename found := by
  rcases getHelper_ok hrun with ⟨habsent, _, _, rfl⟩ | ⟨t, r, t', t'', hfetched, hr, hdetach, hmove, rfl, hs'⟩
  · exact ⟨h.sent _, rfl, filesOf_congr rfl (fun _ => rfl) rfl rfl, fun r hr =>
      absurd (hr.symm.trans habsent) (Option.some_ne_none r)⟩
  · obtain ⟨ht, hcapacity, hfiles⟩ := h.fetched hreloads hfetched
    obtain ⟨hmoved, L, rfl⟩ := ht.move hr hdetach hmove
    have hsame : s'.filesOf user = t.filesOf user := by
      rw [hs']
      exact filesOf_congr rfl (fun _ => rfl) rfl rfl
    refine ⟨?_, ?_, hsame.trans hfiles, fun _ _ => ?_⟩
    · rw [hs']
      exact hmoved.sent _
    · rw [hs']
      exact hcapacity
    · rw [hsame, filesOf_of_resident hr]
      rfl

/-! ### A put -/

/-- The bytes of the nodes of a list. -/
def sizes (s : LRUCache) (l : List Ref) : Nat := (l.map fun r => total (s.heap r).value).sum

theorem weigh_eq_sizes {tablets : Map Ref} (hnodup : l.Nodup)
    (hkeyed : ∀ (u : Str) r, tablets[u]? = some r → (s.heap r).key = u)
    (hlists : ∀ r, r ∈ l ↔ tablets[(s.heap r).key]? = some r) : s.weigh total tablets = s.sizes l := by
  induction l generalizing tablets with
  | nil =>
      have hempty : tablets = ∅ := by
        refine ExtTreeMap.ext_getElem? fun u => ?_
        rw [ExtTreeMap.getElem?_empty]
        cases hu : tablets[u]? with
        | none => rfl
        | some r =>
            obtain rfl := hkeyed u r hu
            exact absurd ((hlists r).mpr hu) List.not_mem_nil
      rw [hempty]
      exact SortedMap.sum_empty
  | cons x l ih =>
      have hx := (hlists x).mp List.mem_cons_self
      obtain ⟨hxl, hnodup'⟩ := List.nodup_cons.mp hnodup
      have hrest : s.weigh total (tablets.erase (s.heap x).key) = s.sizes l := by
        refine ih hnodup' (fun u r hu => hkeyed u r (erase_getElem? hu).2) fun r => ?_
        rw [SortedMap.getElem?_erase_eq]
        split
        · next heq =>
            constructor
            · intro hmem
              have hr := (hlists r).mp (List.mem_cons_of_mem x hmem)
              rw [← heq, hx] at hr
              obtain rfl := Option.some.inj hr
              exact absurd hmem hxl
            · exact fun hnone => absurd hnone.symm (Option.some_ne_none r)
        · next hne =>
            rw [← hlists r, List.mem_cons]
            constructor
            · exact Or.inr
            · rintro (rfl | hmem)
              · exact absurd rfl hne
              · exact hmem
      rw [weigh, SortedMap.sum_of_getElem? hx, sizes, List.map_cons, List.sum_cons]
      exact congrArg (total (s.heap x).value + ·) hrest

/-- Evicting these nodes, which stand in front of the user's own, makes enough room. -/
def MakesRoomBy (s : LRUCache) (user value : Str) (before : List Ref) : Prop :=
  ∃ rest, Forward s.links .head .tail (before ++ rest) ∧ s.Lists (before ++ rest) ∧
    (∀ r, s.tablets[user]? = some r → r ∈ rest) ∧ (s.sizes rest : Int) + value.length ≤ s.capacity

/-- Evicting the nodes in front of the user's own makes enough room. -/
def MakesRoom (s : LRUCache) (user value : Str) : Prop := ∃ before, s.MakesRoomBy user value before

theorem MakesRoomBy.touched {external isCPUT : Bool} (h : s.MakesRoomBy user value l) :
    (s.touched u external isCPUT).MakesRoomBy user value l := by
  obtain ⟨rest, hforward, hlists, hown, hroom⟩ := h
  refine ⟨rest, ?_, ?_, ?_, ?_⟩
  · rwa [touched_links]
  · exact hlists.congr (touched_tablets ..) fun r => by rw [touched_heap]
  · rwa [touched_tablets]
  · rwa [sizes, touched_heap, touched_capacity]

theorem Bounded.exists_before (h : s.Bounded) (hmakes : s.MakesRoomBy user value l)
    (hvalue : value.length ≤ toSize s.capacity) (hfits : s.fits value = false) : ∃ x before, l = x :: before := by
  obtain ⟨rest, hforward, hlists, _, hroom⟩ := hmakes
  cases l with
  | cons x before => exact ⟨x, before, rfl⟩
  | nil =>
      have htotal : s.residentTotal = s.sizes rest := weigh_eq_sizes hforward.nodup_nodes h.wired.tidy.keyed hlists
      have hfits' := (h.fits_iff hvalue).mpr (by rw [htotal]; exact hroom)
      exact absurd (hfits.symm.trans hfits') Bool.false_ne_true

/-- Behind the eviction of the first, evicting the others still makes room. -/
theorem Bounded.makes_room (h : s.Bounded) (hmakes : s.MakesRoomBy user value (x :: l))
    (hrun : s.useVirtualMemory = .ok t) :
    t.Bounded ∧ t.MakesRoomBy user value l ∧ t.capacity = s.capacity ∧
      (s.virmemMeta[user]? = none → t.virmemMeta[user]? = none) := by
  obtain ⟨rest, hforward, hlists, hown, hroom⟩ := hmakes
  obtain ⟨y, l', heq, hleft⟩ := h.evict hforward hlists hrun
  obtain ⟨rfl, rfl⟩ := List.cons.inj heq
  have hresident := hlists.resident List.mem_cons_self
  have hne : user ≠ (s.heap x).key := by
    rintro rfl
    have hnodup := hforward.nodup_nodes
    rw [List.cons_append, List.nodup_cons] at hnodup
    exact hnodup.1 (List.mem_append_right _ (hown x hresident))
  refine ⟨hleft.bounded, ⟨rest, hleft.forward, hleft.lists, fun r hr => ?_, ?_⟩, hleft.capacity, ?_⟩
  · rw [hleft.tablets] at hr
    exact hown r (erase_getElem? hr).2
  · have hsizes : t.sizes rest = s.sizes rest := by
      rw [sizes, sizes]
      exact congrArg List.sum (List.map_congr_left fun r _ => by rw [hleft.heap])
    rw [hsizes, hleft.capacity]
    exact hroom
  · intro hvirmem
    rw [hleft.virmem user hne, hvirmem]

theorem Bounded.putLoop (h : s.Bounded) (hvirmem : s.virmemMeta[user]? = none)
    (hroom : s.fits value = true ∨ s.MakesRoom user value) (hvalue : value.length ≤ toSize s.capacity)
    (hrun : LRUCache.putLoop fuel s user filename value commFd true seqNum = .ok s') :
    s'.Bounded ∧ s'.capacity = s.capacity := by
  induction fuel generalizing s with
  | zero => exact absurd hrun (by simp [LRUCache.putLoop])
  | succ fuel ih =>
      have ht : (s.touched user true false).Bounded := h.touched
      have hvalue' : value.length ≤ toSize (s.touched user true false).capacity := by rwa [touched_capacity]
      have hvirmem' : (s.touched user true false).virmemMeta[user]? = none := by rw [touched_virmemMeta, hvirmem]
      rcases putLoop_succ_ok hrun with hdone | ⟨t, t', hlarge, hevict, hrest⟩
      · rcases putHelper_ok hdone with ⟨_, _, _, rfl⟩ | ⟨_, _, hfits, t, hplace, rfl⟩ | ⟨hstored, _⟩
        · exact ⟨ht.sent _, touched_capacity ..⟩
        · obtain ⟨files, hbuilding⟩ : ∃ files, (s.touched user true false).Building user files := by
            obtain ⟨p, hp, _⟩ := ht.wired.exists_prev
            cases hresident : (s.touched user true false).tablets[user]? with
            | none => exact ⟨∅, Or.inl ⟨hresident, rfl⟩, hvirmem', p, hp⟩
            | some r =>
                obtain ⟨i, _, rfl⟩ := ht.wired.tidy.allocated user r hresident
                exact ⟨_, Or.inr ⟨i, hresident, rfl⟩, hvirmem', p, hp⟩
          obtain ⟨t', hplace', hgrown, _⟩ : ∃ t', (s.touched user true false).placeValue (reload fuel commFd) user
              filename value false = .ok t' ∧ _ := ht.wired.placeValue hbuilding
          obtain rfl : t' = t := Except.ok.inj (hplace'.symm.trans hplace)
          have hfits' : (s.touched user true false).fits value = true := by rwa [touched_fits]
          have hquiet : Quiet t' (t'.charged user value commFd true false seqNum) commFd := quiet_charged
          refine ⟨hgrown.counted ht ((ht.fits_iff hvalue').mp hfits') hquiet.still (charged_capacity ..)
            (charged_memoryUsed ..), ?_⟩
          rw [charged_capacity, hgrown.capacity, touched_capacity]
        · exact absurd hstored (by simp)
      · rcases putHelper_ok hlarge with ⟨hstored, _⟩ | ⟨hstored, _⟩ | ⟨_, _, hfits, rfl⟩
        · exact absurd hstored (by simp)
        · exact absurd hstored (by simp)
        · obtain ⟨before, hmakes⟩ := hroom.resolve_left (by simp [hfits])
          have hfits' : (s.touched user true false).fits value = false := by rwa [touched_fits]
          obtain ⟨x, before, rfl⟩ := ht.exists_before hmakes.touched hvalue' hfits'
          obtain ⟨hbounded, hmakes', hcapacity, hkept⟩ := ht.makes_room hmakes.touched hevict
          obtain ⟨hend, hsame⟩ := ih hbounded (hkept hvirmem') (Or.inr ⟨before, hmakes'⟩) (by rwa [hcapacity]) hrest
          exact ⟨hend, by rw [hsame, hcapacity, touched_capacity]⟩

theorem Bounded.putLoop_evicted (h : s.Bounded) (hvirmem : s.virmemMeta[user]? ≠ none)
    (hfits : s.fits value = true)
    (hroom : (s.residentTotal : Int) + total (s.filesOf user) + value.length ≤ s.capacity)
    (hrun : LRUCache.putLoop fuel s user filename value commFd true seqNum = .ok s') :
    s'.Bounded ∧ s'.capacity = s.capacity := by
  cases fuel with
  | zero => exact absurd hrun (by simp [LRUCache.putLoop])
  | succ fuel =>
      have ht : (s.touched user true false).Bounded := h.touched
      rcases putLoop_succ_ok hrun with hdone | ⟨t, t', hlarge, _, _⟩
      · rcases putHelper_ok hdone with ⟨_, _, _, rfl⟩ | ⟨_, _, _, t, hplace, rfl⟩ | ⟨hstored, _⟩
        · exact ⟨ht.sent _, touched_capacity ..⟩
        · have hvirmem' : (s.touched user true false).virmemMeta[user]? ≠ none := by rwa [touched_virmemMeta]
          have habsent := ht.wired.tidy.absent_of_virmem hvirmem'
          obtain ⟨records, hrecords⟩ := Option.ne_none_iff_exists'.mp hvirmem'
          rw [placeValue_evicted habsent hrecords] at hplace
          obtain ⟨t', hload, hstore⟩ := Run.bind_eq_ok.mp hplace
          have hopen : Way.room.Open (s.touched user true false) user ∅
              (total ((s.touched user true false).filesOf user) + value.length) := by
            rw [filesOf_touched]
            change ((s.touched user true false).residentTotal + (_ : Nat) : Int) ≤ (s.touched user true false).capacity
            rw [residentTotal_touched, touched_capacity]
            omega
          have hreached := ht.loadUserFromDisk hvirmem' hopen hload
          obtain ⟨way', hopen', hsame⟩ := hreached.way
          obtain rfl := hsame rfl
          have hroom' : (t'.residentTotal : Int) + value.length ≤ t'.capacity := hopen'
          obtain ⟨r, hresident, hstored⟩ := storeResident_ok hstore
          obtain ⟨p, hp, rfl⟩ := hstored (hreached.bounded.wired.tidy.ne_tail hresident)
          have hgrown : Grown t' ((t'.setValue r (addFile (t'.filesOf user) (filename, value))).toTail r p)
              value.length := hreached.bounded.wired.setValue_grown hresident hp
          rw [filesOf_of_resident hresident] at hgrown
          have hcapacity := hgrown.capacity
          refine ⟨hgrown.counted hreached.bounded hroom' quiet_charged.still (charged_capacity ..)
            (charged_memoryUsed ..), ?_⟩
          rw [charged_capacity, ← touched_capacity (s := s), ← hreached.capacity]
          exact hcapacity
        · exact absurd hstored (by simp)
      · rcases putHelper_ok hlarge with ⟨hstored, _⟩ | ⟨hstored, _⟩ | ⟨_, _, hfull, _⟩
        · exact absurd hstored (by simp)
        · exact absurd hstored (by simp)
        · exact absurd (hfull.symm.trans hfits) (by simp)

/-! ### Erasing and renaming -/

theorem Bounded.fileErased (h : s.Bounded) (hresident : s.tablets[user]? = some r)
    (hget : (s.filesOf user)[filename]? = some value) : (s.fileErased user filename r).Bounded := by
  have hsize : (s.heap r).value.getD filename [] = value := by
    rw [filesOf_of_resident hresident] at hget
    rw [ExtTreeMap.getD_eq_getD_getElem?, hget, Option.getD_some]
  have htotal := residentTotal_fileErased h.wired.tidy hresident hget
  have hlimit := h.limit
  have hsmall := h.small
  have hmemory : (s.fileErased user filename r).memoryUsed = s.memoryUsed - value.length := by
    change toInt32 (s.memoryUsed - ((s.heap r).value.getD filename []).length) = _
    rw [hsize, h.memory, toInt32_of_range (by simp only [intMax]; omega) (by omega)]
  refine ⟨h.wired.fileErased hresident, h.nonneg, h.small, ?_, ?_⟩
  · rw [hmemory, h.memory]
    omega
  · change (_ : Int) ≤ s.capacity
    omega

theorem Bounded.moved {newFilename : Str} (h : s.Bounded) (hresident : s.tablets[user]? = some r)
    (hget : (s.filesOf user)[filename]? = some value)
    (hfree : (((s.filesOf user).erase filename).getD newFilename []).length = 0) :
    (s.setValue r (((s.heap r).value.erase filename).insert newFilename value)).Bounded := by
  have hnew : ∀ files : Map Str, (files.getD newFilename []).length = 0 →
      total (files.insert newFilename value) = value.length + total files := by
    intro files hfree
    rw [ExtTreeMap.getD_eq_getD_getElem?] at hfree
    rw [total_insert]
    cases hold : files[newFilename]? with
    | none => rw [SortedMap.erase_eq_self hold]
    | some old =>
        rw [hold, Option.getD_some] at hfree
        rw [total_of_getElem? hold, hfree, Nat.zero_add]
  have hsplit := total_of_getElem? hget
  have hmoved := hnew _ hfree
  rw [filesOf_of_resident hresident] at hsplit hmoved
  have hweigh : (s.setValue r (((s.heap r).value.erase filename).insert newFilename value)).residentTotal =
      s.residentTotal := by
    rw [residentTotal_setValue h.wired.tidy hresident, residentTotal_of_resident hresident]
    omega
  refine ⟨h.wired.setValue insert_ne_empty, h.nonneg, h.small, ?_, ?_⟩
  · rw [hweigh]
    exact h.memory
  · rw [hweigh]
    exact h.limit

/-! ### Runs -/

/-- A put that is refused, or has room, or makes room by evicting the nodes in front of its user's own; a
user that is loaded for it leaves room for the value. A command that loads its user without evicting, or evicts
from a list in order, and a rename that finds no bytes under the new name. -/
def Contained (s : LRUCache) : Op → Prop
  | .put user _ value _ _ => s.Refused user value ∨
      (s.virmemMeta[user]? = none ∧ (s.fits value = true ∨ s.MakesRoom user value)) ∨
      s.fits value = true ∧ (s.residentTotal : Int) + total (s.filesOf user) + value.length ≤ s.capacity
  | .get user _ _ => s.Reloads user
  | .cput _ _ _ _ _ _ => False
  | .dele user _ _ _ _ => s.Reloads user
  | .rename user oldFilename newFilename _ _ => s.Reloads user ∧
      (s.view user oldFilename ≠ none → (((s.filesOf user).erase oldFilename).getD newFilename []).length = 0)

theorem Bounded.exec {op : Op} (h : s.Bounded) (hop : s.Contained op) (hrun : s.exec fuel op = .ok s') :
    s'.Bounded ∧ s'.capacity = s.capacity := by
  cases op with
  | put user filename value commFd seqNum =>
      by_cases hrefused : s.Refused user value
      · obtain ⟨msg, _, rfl | rfl⟩ := put_of_refused hrefused hrun
        · exact ⟨h.sent _, rfl⟩
        · exact ⟨h.touched.sent _, touched_capacity ..⟩
      · rcases put_ok hrun with ⟨_, rfl⟩ | ⟨hvalue, hloop⟩
        · exact ⟨h.sent _, rfl⟩
        · rcases hop.resolve_left hrefused with ⟨hvirmem, hroom⟩ | ⟨hfits, hroom⟩
          · exact h.putLoop hvirmem hroom hvalue hloop
          · by_cases hvirmem : s.virmemMeta[user]? = none
            · exact h.putLoop hvirmem (Or.inl hfits) hvalue hloop
            · exact h.putLoop_evicted hvirmem hfits hroom hloop
  | get user filename commFd =>
      obtain ⟨found, t, hget, hs'⟩ := get_ok hrun
      have hread := h.getHelper hop hget
      rw [hs']
      exact ⟨hread.bounded.sent _, hread.capacity⟩
  | cput => exact absurd hop id
  | dele user filename commFd seqNum isMigration =>
      obtain ⟨found, t, hget, hcase⟩ := dele_ok hrun
      have hread := h.getHelper hop hget
      rcases hcase with ⟨_, rfl⟩ | ⟨value, r, rfl, hresident, hs'⟩
      · exact ⟨hread.bounded, hread.capacity⟩
      · have hfile := (hread.found r hresident).symm
        rw [hs']
        exact ⟨(hread.bounded.fileErased hresident hfile).sent _, hread.capacity⟩
  | rename user oldFilename newFilename commFd seqNum =>
      obtain ⟨found, t, hget, hcase⟩ := rename_ok hrun
      have hread := h.getHelper hop.1 hget
      rcases hcase with ⟨_, rfl⟩ | ⟨value, r, rfl, hresident, hs'⟩
      · exact ⟨hread.bounded, hread.capacity⟩
      · have hfile := (hread.found r hresident).symm
        have hview : s.view user oldFilename ≠ none := by
          rw [view, ← hread.filesOf, hfile]
          exact Option.some_ne_none value
        have hfree := hop.2 hview
        rw [← hread.filesOf] at hfree
        rw [hs']
        exact ⟨(hread.bounded.moved hresident hfile hfree).sent _, hread.capacity⟩

theorem bounded_fresh {capacity : Int} {isPrimary : Bool} (hnonneg : 0 ≤ capacity) (hsmall : capacity ≤ intMax) :
    (fresh capacity isPrimary).Bounded := by
  have htotal : (fresh capacity isPrimary).residentTotal = 0 := by
    change SortedMap.sum (fun _ r => total ((fresh capacity isPrimary).heap r).value) (∅ : Map Ref) = 0
    exact SortedMap.sum_empty
  refine ⟨wired_init, hnonneg, hsmall, by rw [htotal]; rfl, ?_⟩
  rw [htotal]
  exact hnonneg

theorem bounded_of_run {capacity : Int} {isPrimary : Bool} {ops : List Op} (hnonneg : 0 ≤ capacity)
    (hsmall : capacity ≤ intMax) (hrun : Run.Runs (Steps Contained) (fresh capacity isPrimary) ops s) :
    s.Bounded ∧ s.capacity = capacity := by
  refine hrun.invariant (P := fun _ s => s.Bounded ∧ s.capacity = capacity)
    ⟨bounded_fresh hnonneg hsmall, rfl⟩ ?_
  rintro ops t op t' ⟨ht, hcapacity⟩ ⟨hop, fuel, hexec⟩
  obtain ⟨ht', hsame⟩ := ht.exec hop hexec
  exact ⟨ht', hsame.trans hcapacity⟩

/-- **The limit is respected.** In every state of such a run the values in memory have at most `capacity`
bytes, and the counter is between zero and the capacity. -/
theorem limit_of_run {capacity : Int} {isPrimary : Bool} {ops : List Op} (hnonneg : 0 ≤ capacity)
    (hsmall : capacity ≤ intMax) (hrun : Run.Runs (Steps Contained) (fresh capacity isPrimary) ops s) :
    (s.residentTotal : Int) ≤ capacity ∧ 0 ≤ s.memoryUsed ∧ s.memoryUsed ≤ capacity := by
  obtain ⟨hbounded, rfl⟩ := bounded_of_run hnonneg hsmall hrun
  have hlimit := hbounded.limit
  rw [hbounded.memory]
  omega

/-- For a user of whom there is no trace all others may be evicted. -/
theorem MakesRoom.of_unknown (hunknown : s.Unknown user) (horder : s.InOrder)
    (hvalue : (value.length : Int) ≤ s.capacity) : s.MakesRoom user value := by
  obtain ⟨l, hforward, hlists⟩ := horder
  refine ⟨l, [], ?_, ?_, fun r hr => ?_, ?_⟩
  · rwa [List.append_nil]
  · rwa [List.append_nil]
  · exact absurd (hr.symm.trans hunknown.1) (Option.some_ne_none r)
  · rw [sizes, List.map_nil, List.sum_nil]
    omega

theorem contained_of_firstPut {op : Op} (hordered : s.Ordered) (hnonneg : 0 ≤ s.capacity)
    (hsmall : s.capacity ≤ intMax) (hop : s.FirstPut op) : s.Contained op := by
  cases op with
  | put user filename value commFd seqNum =>
      by_cases hlarge : toSize s.capacity < value.length
      · exact Or.inl (Or.inl hlarge)
      · rw [toSize_of_nonneg hnonneg hsmall] at hlarge
        exact Or.inr (Or.inl ⟨hop.1.2, Or.inr (.of_unknown hop.1 hordered.inOrder (by omega))⟩)
  | get => exact absurd hop id
  | cput => exact absurd hop id
  | dele => exact absurd hop id
  | rename => exact absurd hop id

theorem contained_of_firstPuts {capacity : Int} {isPrimary : Bool} {ops : List Op} (hnonneg : 0 ≤ capacity)
    (hsmall : capacity ≤ intMax) (hrun : Run.Runs (Steps FirstPut) (fresh capacity isPrimary) ops s) :
    Run.Runs (Steps Contained) (fresh capacity isPrimary) ops s ∧ s.Ordered := by
  have hall : Run.Runs (Steps Contained) (fresh capacity isPrimary) ops s ∧ s.Ordered ∧ s.Bounded ∧
      s.capacity = capacity := by
    refine hrun.invariant (P := fun ops s => Run.Runs (Steps Contained) (fresh capacity isPrimary) ops s ∧
      s.Ordered ∧ s.Bounded ∧ s.capacity = capacity)
      ⟨.nil, ordered_init, bounded_fresh hnonneg hsmall, rfl⟩ ?_
    rintro ops t op t' ⟨hrun, hordered, hbounded, rfl⟩ ⟨hop, fuel, hexec⟩
    have hcontained := contained_of_firstPut hordered hnonneg hsmall hop
    obtain ⟨hbounded', hcapacity⟩ := hbounded.exec hcontained hexec
    exact ⟨hrun.snoc ⟨hcontained, fuel, hexec⟩, hordered.exec (undisturbed_of_firstPut hop) hexec, hbounded', hcapacity⟩
  exact ⟨hall.1, hall.2.1⟩

/-- The third user's value evicts the first user. -/
theorem limit_of_run_three_puts : ∃ s : LRUCache, s.virmemMeta["u".toList]? ≠ none ∧
    (s.residentTotal : Int) ≤ 10 ∧ 0 ≤ s.memoryUsed ∧ s.memoryUsed ≤ 10 := by
  have hends : endsIn FirstPut 5 (fresh 10 true) [.put "u".toList "f".toList "abc".toList 3 0,
      .put "v".toList "g".toList "ddddd".toList 3 0, .put "w".toList "h".toList "eeee".toList 3 0]
      (fun s => decide (s.virmemMeta["u".toList]? = some [[0, 0, 6]])) = true := by
    decide +kernel
  obtain ⟨s, hfirst, hstate⟩ := runs_of_endsIn hends
  have hcontained := (contained_of_firstPuts (by decide) (by decide) hfirst).1
  refine ⟨s, by rw [of_decide_eq_true hstate]; exact Option.some_ne_none _, ?_⟩
  exact limit_of_run (by decide) (by decide) hcontained

/-- Puts and gets of values without a comma. -/
def PutGet : Op → Prop
  | .put _ _ value _ _ => ',' ∉ value
  | .get _ _ _ => True
  | .cput _ _ _ _ _ _ => False
  | .dele _ _ _ _ _ => False
  | .rename _ _ _ _ _ => False

/-- The value fits, and then the user is loaded from disk. -/
theorem not_limit_reloaded : ¬ ∀ (ops : List Op) s, Run.Runs (Steps fun _ op => PutGet op) (fresh 10 true) ops s →
    (s.residentTotal : Int) ≤ 10 ∧ 0 ≤ s.memoryUsed ∧ s.memoryUsed ≤ 10 := by
  intro hall
  have hends : endsIn (fun _ _ => True) 5 (fresh 10 true) [.put "u".toList "f".toList "aaaaa".toList 3 0,
      .put "v".toList "g".toList "bbbb".toList 3 0, .put "w".toList "h".toList "cccc".toList 3 0,
      .put "u".toList "f".toList "dd".toList 3 0] (fun s => decide (s.memoryUsed = 11)) = true := by
    decide +kernel
  obtain ⟨s, hsteps, hstate⟩ := runs_of_endsIn_all PutGet hends (by simp [PutGet])
  have hlimit := (hall _ s hsteps).2.2
  rw [of_decide_eq_true hstate] at hlimit
  exact absurd hlimit (by decide)

end PennCloud.LRUCache
