import PennCloud.Kv.Proof.Waiting

/-!
# The list as an LRU queue

While the list is in order in both directions and the byte counter exact, a read moves its user to the
end of the queue, and a first put drops the oldest users until the value fits and appends the new one.
-/

namespace PennCloud.LRUCache

open DList Std Shedding

variable {s s' t : LRUCache} {user filename value u : Str} {r x : Ref} {l : List Ref} {q : List Str}
  {commFd seqNum : Int} {fuel : Nat}

theorem Listed.lined (h : s.Listed l) : s.Lined l := ⟨h.tidy, h.list.forward, h.lists⟩

/-- The list is in order and holds exactly the residents, who are these, the oldest first; the byte counter is
exact and within the capacity. -/
structure Serves (s : LRUCache) (q : List Str) : Prop where
  listed : ∃ l, s.Listed l ∧ s.usersOf l = q
  memory : s.memoryUsed = s.residentTotal
  limit : s.memoryUsed ≤ s.capacity
  small : s.capacity ≤ intMax

theorem Serves.waits (h : s.Serves q) : s.Waits q := by
  obtain ⟨l, hlisted, hq⟩ := h.listed
  exact ⟨⟨l, hlisted.lined, hq⟩, h.memory, h.limit, h.small⟩

theorem Serves.of_listed (hwaits : s.Waits q) (hlisted : s.Listed l) (hq : s.usersOf l = q) : s.Serves q :=
  ⟨⟨l, hlisted, hq⟩, hwaits.memory, hwaits.limit, hwaits.small⟩

/-! ### Eviction -/

/-- The number of bytes in the chunk files stays an `int` even if all these users are written out. -/
def Writable (s : LRUCache) (q : List Str) : Prop :=
  ∃ chunk fill : Int, s.chunkInfo .virtualMemory = [chunk, fill] ∧ 0 ≤ fill ∧
    fill + weight (fun u => (rowOf (s.filesOf u)).length) q ≤ intMax

/-- The oldest user is gone, and virtual memory has a record of it. -/
structure Gone (s s' : LRUCache) (u : Str) (q : List Str) : Prop where
  serves : s'.Serves q
  files : ∀ w ∈ q, s'.filesOf w = s.filesOf w
  unknown : ∀ w, s.Unknown w → s'.Unknown w
  virmem : ∀ w : Str, s'.virmemMeta[w]? ≠ none ↔ w = u ∨ s.virmemMeta[w]? ≠ none
  userSize : ∀ w, s'.userSizeOf w = s.userSizeOf w
  capacity : s'.capacity = s.capacity

theorem Serves.evict (h : s.Serves (u :: q)) (hwritable : s.Writable (u :: q)) :
    ∃ s', s.useVirtualMemory = .ok s' ∧ Gone s s' u q ∧ s'.Writable q := by
  obtain ⟨chunk, fill, hinfo, hfill, hrows⟩ := hwritable
  rw [weight_cons] at hrows
  simp only [intMax] at hrows
  obtain ⟨chunk', t, hwrite, hinfo'⟩ := exists_writeToChunk hinfo u hfill (by omega)
    (show (rowOf (s.filesOf u)).length < 2 ^ 50 by omega)
  rw [toInt32_of_range (by simp only [intMax]; omega) (by simp only [intMax]; omega)] at hinfo'
  obtain ⟨s', hevict, hdropped⟩ := h.waits.useVirtualMemory hwrite
  have hstep := chunkStep_writeToChunkWith hwrite
  obtain ⟨l, hlisted, husers⟩ := h.listed
  obtain ⟨x, l', rfl, hlisted', hkeys, hunknown⟩ := hlisted.useVirtualMemory hevict
  have hqueue : s'.usersOf l' = q := by
    rw [usersOf, List.map_congr_left fun r _ => hkeys r]
    exact (List.cons.inj husers).2
  refine ⟨s', hevict, ⟨.of_listed hdropped.waits hlisted' hqueue, hdropped.files, hunknown, fun w => ?_,
    hdropped.userSize, hdropped.capacity⟩, chunk', _, by rw [hdropped.chunkInfo, hinfo'], by omega, ?_⟩
  · rw [hdropped.virmemMeta]
    by_cases hw : w = u
    · obtain ⟨t', str, size, hupdate⟩ := writeToChunk_last hwrite
      rw [hw]
      exact ⟨fun _ => Or.inl rfl, fun _ => updateMetadata_recorded hupdate⟩
    · have hrecords : t.virmemMeta[w]? = s.virmemMeta[w]? := hstep.records w hw
      rw [hrecords]
      exact ⟨Or.inr, fun hor => hor.resolve_left hw⟩
  · rw [weight_congr fun w hw => congrArg (fun files => (rowOf files).length) (hdropped.files w hw)]
    simp only [intMax]
    omega

/-! ### Reading and inserting -/

theorem Listed.congr (h : s.Listed l) (hheap : s'.heap = s.heap) (hnodes : s'.nodes = s.nodes)
    (htablets : s'.tablets = s.tablets) (hvirmem : s'.virmemMeta = s.virmemMeta) : s'.Listed l := by
  have hlinks : s'.links = s.links := by rw [links, hheap, links]
  have hkeys : ∀ r, (s'.heap r).key = (s.heap r).key := fun r => by rw [hheap]
  refine ⟨h.tidy.congr hnodes htablets hkeys hvirmem, ?_, ?_, h.lists.congr htablets hkeys⟩
  · rw [hlinks, h.bottom]
  · rw [hlinks]
    exact h.list

theorem Serves.congr (h : s.Serves q) (hheap : s'.heap = s.heap) (hnodes : s'.nodes = s.nodes)
    (htablets : s'.tablets = s.tablets) (hvirmem : s'.virmemMeta = s.virmemMeta)
    (hmemory : s'.memoryUsed = s.memoryUsed) (hcapacity : s'.capacity = s.capacity) : s'.Serves q := by
  obtain ⟨l, hlisted, hq⟩ := h.listed
  refine .of_listed (h.waits.congr hheap hnodes htablets hvirmem hmemory hcapacity)
    (hlisted.congr hheap hnodes htablets hvirmem) ?_
  rw [usersOf, hheap]
  exact hq

theorem Serves.touched {external isCPUT : Bool} (h : s.Serves q) : (s.touched user external isCPUT).Serves q :=
  h.congr (touched_heap ..) (touched_nodes ..) (touched_tablets ..) (touched_virmemMeta ..) (touched_memoryUsed ..)
    (touched_capacity ..)

theorem Listed.exists_moved (h : s.Listed l) (hresident : s.tablets[user]? = some r) :
    ∃ t L, s.detach r = .ok t ∧ t.moveToTail r = .ok (s.relink L) := by
  obtain ⟨l₁, l₂, rfl⟩ := List.append_of_mem (h.lists.mem h.tidy hresident)
  obtain ⟨hprev, hnext⟩ := h.list.neighbours
  exact ⟨_, _, detach_eq hprev hnext, moveToTail_eq h.list.bypass.forward.last (h.tidy.ne_tail hresident)⟩

theorem Serves.getHelper (h : s.Serves q) (huser : user ∈ q) (hvirmem : s.virmemMeta[user]? = none) (filename : Str)
    (commFd : Int) :
    ∃ s', (∀ fuel, s.getHelper fuel user filename commFd = .ok (s.view user filename, s')) ∧
      s'.Serves (touch q user) ∧ ∀ u, s'.filesOf u = s.filesOf u := by
  obtain ⟨l, hlisted, rfl⟩ := h.listed
  obtain ⟨r, hr⟩ := hlisted.lined.resident_iff.mp huser
  obtain ⟨t, L, hdetach, hmove⟩ := hlisted.exists_moved hr
  obtain ⟨l₁, l₂, hl, hlisted', _⟩ := hlisted.detach_moveToTail hr hdetach hmove
  have hqueue : (s.relink L).usersOf (l₁ ++ l₂ ++ [r]) = touch (s.usersOf l) user := by
    have hsplit : s.usersOf l = s.usersOf l₁ ++ user :: s.usersOf l₂ := by
      rw [hl, usersOf_append]
      exact congrArg (s.usersOf l₁ ++ · :: s.usersOf l₂) (hlisted.tidy.keyed user r hr)
    have hnotMem : user ∉ s.usersOf l₁ := by
      have hnodup := hlisted.lined.nodup
      rw [hsplit] at hnodup
      exact fun hmem => (List.nodup_append.mp hnodup).2.2 user hmem user List.mem_cons_self rfl
    rw [hsplit, touch_append hnotMem]
    change s.usersOf (l₁ ++ l₂ ++ [r]) = _
    rw [usersOf_append, usersOf_append]
    exact congrArg (s.usersOf l₁ ++ s.usersOf l₂ ++ [·]) (hlisted.tidy.keyed user r hr)
  have hserves : (s.relink L).Serves (touch (s.usersOf l) user) := ⟨⟨_, hlisted', hqueue⟩, h.memory, h.limit, h.small⟩
  have hfiles : ∀ u, (s.relink L).filesOf u = s.filesOf u := fun u => filesOf_congr rfl (fun _ => rfl) rfl rfl
  have hget : ∀ fuel, s.getHelper fuel user filename commFd = s.lookUp user filename commFd := by
    intro fuel
    have hfetched : s.fetched fuel user commFd = .ok s := by
      rw [fetched, ExtTreeMap.contains_eq_isSome_getElem?, hvirmem]
      rfl
    rw [getHelper_of_known fun hboth => Option.some_ne_none r (hr.symm.trans hboth.1), hfetched, Run.ok_bind]
  rw [view, filesOf_of_resident hr]
  refine ⟨_, fun fuel => (hget fuel).trans (lookUp_eq hr hdetach hmove filename commFd), ?_⟩
  split
  · exact ⟨hserves.congr rfl rfl rfl rfl rfl rfl, hfiles⟩
  · exact ⟨hserves, hfiles⟩

theorem Serves.insertUser (h : s.Serves q) (hunknown : s.Unknown user)
    (hroom : (weight s.bytes q : Int) + value.length ≤ s.capacity) (filename : Str) (commFd seqNum : Int) :
    ∃ s', (s.insertUser user filename value >>= fun t => .ok (t.charged user value commFd true false seqNum)) = .ok s' ∧
      s'.Serves (q ++ [user]) ∧ s'.filesOf user = (∅ : Map Str).insert filename value ∧
      s'.virmemMeta = s.virmemMeta ∧ s'.capacity = s.capacity := by
  have hmemory := h.waits.memoryUsed_eq
  have hsmall := h.small
  have hlimit := h.limit
  obtain ⟨l, hlisted, rfl⟩ := h.listed
  have hprev := hlisted.list.forward.last
  have hinsert : s.insertUser user filename value =
      .ok ((s.addNode user filename value).toTail (.node s.nodes) (l.getLastD .head)) := insertUser_eq hprev
  obtain ⟨hlisted', hkeys, _, hkey, _⟩ := hlisted.insertUser hunknown hinsert
  rw [hinsert, Run.ok_bind]
  have hmemoryUsed : ((s.addNode user filename value).toTail (.node s.nodes) (l.getLastD .head)).memoryUsed =
    s.memoryUsed := rfl
  have hsame : ((s.addNode user filename value).toTail (.node s.nodes) (l.getLastD .head)).capacity = s.capacity := rfl
  have hvirmem : ((s.addNode user filename value).toTail (.node s.nodes) (l.getLastD .head)).virmemMeta =
    s.virmemMeta := rfl
  have hfiles : ∀ u, ((s.addNode user filename value).toTail (.node s.nodes) (l.getLastD .head)).filesOf u =
      if user = u then (∅ : Map Str).insert filename value else s.filesOf u := by
    intro u
    rw [← filesOf_addNode hlisted.tidy]
    exact filesOf_congr rfl (fun _ => rfl) rfl rfl
  generalize (s.addNode user filename value).toTail (.node s.nodes) (l.getLastD .head) = t at *
  have husers : t.usersOf (l ++ [.node s.nodes]) = s.usersOf l ++ [user] := by
    rw [usersOf_append, usersOf, List.map_congr_left hkeys]
    exact congrArg (s.usersOf l ++ [·]) hkey
  have hothers : ∀ u ∈ s.usersOf l, t.bytes u = s.bytes u := by
    intro u hu
    obtain ⟨r, hr⟩ := hlisted.lined.resident_iff.mp hu
    rw [bytes, hfiles, if_neg, bytes]
    rintro rfl
    exact Option.some_ne_none r (hr.symm.trans hunknown.1)
  have htotal : t.residentTotal = weight s.bytes (s.usersOf l) + value.length := by
    rw [hlisted'.lined.residentTotal_eq, husers, weight_append, weight_congr hothers, weight_cons, bytes, hfiles, if_pos rfl,
      total_insert, SortedMap.erase_eq_self ExtTreeMap.getElem?_empty, total_empty]
    rfl
  have hcounted : (t.charged user value commFd true false seqNum).memoryUsed = s.memoryUsed + value.length := by
    rw [charged_memoryUsed, hmemoryUsed, toInt32_of_range (by simp only [intMax]; omega) (by omega)]
  refine ⟨_, rfl, ⟨⟨_, hlisted'.congr (charged_heap ..) (charged_nodes ..) (charged_tablets ..) (charged_virmemMeta ..), ?_⟩,
    ?_, ?_, ?_⟩, ?_, ?_, ?_⟩
  · rw [usersOf, charged_heap]
    exact husers
  · rw [hcounted, residentTotal_charged, htotal, hmemory]
    exact (Int.natCast_add _ _).symm
  · rw [hcounted, charged_capacity, hsame]
    omega
  · rw [charged_capacity, hsame]
    exact hsmall
  · rw [filesOf_charged, hfiles, if_pos rfl]
  · rw [charged_virmemMeta, hvirmem]
  · rw [charged_capacity, hsame]

/-! ### A put for a new user -/

/-- The oldest users have gone until the value fitted, and the new one stands last. -/
structure Admitted (s s' : LRUCache) (q : List Str) (user filename value : Str) : Prop where
  serves : s'.Serves (kept s.bytes (s.capacity - value.length) q ++ [user])
  files : s'.filesOf user = (∅ : Map Str).insert filename value
  virmem : ∀ w : Str, s'.virmemMeta[w]? ≠ none ↔
    w ∈ shed s.bytes (s.capacity - value.length) q ∨ s.virmemMeta[w]? ≠ none
  capacity : s'.capacity = s.capacity

theorem bytes_touched {external isCPUT : Bool} : (s.touched user external isCPUT).bytes = s.bytes :=
  funext fun _ => congrArg total filesOf_touched

theorem Writable.touched {external isCPUT : Bool} (h : s.Writable q) :
    (s.touched user external isCPUT).Writable q := by
  obtain ⟨chunk, fill, hinfo, hfill, hrows⟩ := h
  refine ⟨chunk, fill, by rw [touched_chunkInfo, hinfo], hfill, ?_⟩
  rw [weight_congr fun w _ => congrArg (fun files => (rowOf files).length) filesOf_touched]
  exact hrows

theorem Gone.admitted (h : Gone s t u q) (hlarge : s.capacity - value.length < weight s.bytes (u :: q))
    (hadmitted : Admitted t s' q user filename value) : Admitted s s' (u :: q) user filename value := by
  have hbytes : ∀ w ∈ q, t.bytes w = s.bytes w := fun w hw => congrArg total (h.files w hw)
  obtain ⟨hserves, hfiles, hvirmem, hcapacity⟩ := hadmitted
  rw [h.capacity] at hserves hvirmem hcapacity
  rw [kept_congr hbytes] at hserves
  refine ⟨?_, hfiles, fun w => ?_, hcapacity⟩
  · rw [kept_of_lt hlarge]
    exact hserves
  · rw [hvirmem, h.virmem, shed_congr hbytes, shed_of_lt hlarge, List.mem_cons, or_left_comm, or_assoc]

theorem Serves.within_quota (h : s.Serves q) (hsize : s.userSizeOf user = 0) (hvalue : (value.length : Int) < s.capacity) :
    s.exceedsQuota user value = false :=
  exceedsQuota_eq_false h.small (by omega) (by omega)

theorem Serves.putLoop_fits (h : s.Serves q) (hunknown : s.Unknown user) (hsize : s.userSizeOf user = 0)
    (hvalue : (value.length : Int) < s.capacity) (hroom : (weight s.bytes q : Int) + value.length ≤ s.capacity)
    (filename : Str) (commFd seqNum : Int) :
    ∃ s', (∀ fuel, q.length < fuel → LRUCache.putLoop fuel s user filename value commFd true seqNum = .ok s') ∧
      Admitted s s' q user filename value := by
  have hroom' : (weight (s.touched user true false).bytes q : Int) + value.length ≤ (s.touched user true false).capacity := by
    rw [bytes_touched, touched_capacity]
    exact hroom
  have hunknown' : (s.touched user true false).Unknown user :=
    hunknown.congr (touched_tablets ..) (touched_virmemMeta ..)
  obtain ⟨s', hinsert, hserves, hfiles, hvirmem, hcapacity⟩ :=
    h.touched.insertUser hunknown' hroom' filename commFd seqNum
  refine ⟨s', fun fuel hfuel => ?_, ?_, hfiles, fun w => ?_, hcapacity.trans (touched_capacity ..)⟩
  · obtain ⟨n, rfl⟩ := Nat.exists_eq_add_of_lt hfuel
    rw [putLoop_external_succ (h.within_quota hsize hvalue), if_pos ((h.waits.fits_iff (by omega)).mpr hroom),
      placeValue_unknown hunknown'.1 hunknown'.2, hinsert]
  · rw [kept_of_le (by omega)]
    exact hserves
  · rw [shed_of_le (by omega), hvirmem, touched_virmemMeta]
    simp

theorem Serves.putLoop (h : s.Serves q) (hunknown : s.Unknown user) (hsize : s.userSizeOf user = 0)
    (hvalue : (value.length : Int) < s.capacity) (hwritable : s.Writable q) (filename : Str) (commFd seqNum : Int) :
    ∃ s', (∀ fuel, q.length < fuel → LRUCache.putLoop fuel s user filename value commFd true seqNum = .ok s') ∧
      Admitted s s' q user filename value := by
  induction q generalizing s with
  | nil =>
      refine h.putLoop_fits hunknown hsize hvalue ?_ filename commFd seqNum
      have hnothing : weight s.bytes [] = 0 := rfl
      omega
  | cons u q ih =>
      by_cases hroom : (weight s.bytes (u :: q) : Int) + value.length ≤ s.capacity
      · exact h.putLoop_fits hunknown hsize hvalue hroom filename commFd seqNum
      · have hunfit : ¬ s.fits value = true := fun hfits => hroom ((h.waits.fits_iff (by omega)).mp hfits)
        have hunknown' : (s.touched user true false).Unknown user :=
          hunknown.congr (touched_tablets ..) (touched_virmemMeta ..)
        have htouched : (s.touched user true false).Serves (u :: q) := h.touched
        have hwritable' : (s.touched user true false).Writable (u :: q) := hwritable.touched
        obtain ⟨t, hevict, hgone, hwritable''⟩ := htouched.evict hwritable'
        have hsame : t.capacity = s.capacity := hgone.capacity.trans (touched_capacity ..)
        obtain ⟨s', hput, hadmitted⟩ := ih hgone.serves (hgone.unknown user hunknown')
          (by rw [hgone.userSize, touched_userSizeOf, hsize]) (by rw [hsame]; exact hvalue) hwritable''
        refine ⟨s', fun fuel hfuel => ?_, ?_⟩
        · obtain ⟨n, rfl⟩ := Nat.exists_eq_add_of_lt (Nat.zero_lt_of_lt hfuel)
          rw [Nat.zero_add, putLoop_external_succ (h.within_quota hsize hvalue), if_neg hunfit, hevict, Run.ok_bind]
          refine hput n ?_
          rw [List.length_cons] at hfuel
          omega
        · have hlarge : (s.touched user true false).capacity - value.length <
              weight (s.touched user true false).bytes (u :: q) := by
            rw [touched_capacity, bytes_touched]
            omega
          have hadmitted' := hgone.admitted hlarge hadmitted
          obtain ⟨hserves, hfiles, hvirmem, hcapacity⟩ := hadmitted'
          rw [bytes_touched, touched_capacity] at hserves hvirmem
          rw [touched_virmemMeta] at hvirmem
          exact ⟨hserves, hfiles, hvirmem, hcapacity.trans (touched_capacity ..)⟩

/-! ### Every state -/

theorem Serves.put (h : s.Serves q) (hunknown : s.Unknown user) (hsize : s.userSizeOf user = 0)
    (hvalue : (value.length : Int) < s.capacity) (hwritable : s.Writable q) (filename : Str) (commFd seqNum : Int) :
    ∃ s', (∀ fuel, q.length < fuel → s.put fuel user filename value commFd true seqNum = .ok s') ∧
      Admitted s s' q user filename value := by
  obtain ⟨s', hput, hadmitted⟩ := h.putLoop hunknown hsize hvalue hwritable filename commFd seqNum
  refine ⟨s', fun fuel hfuel => ?_, hadmitted⟩
  have hsmall : ¬ toSize s.capacity < value.length := by
    rw [toSize_of_nonneg (by omega) h.small]
    omega
  rw [LRUCache.put, putWith, if_neg hsmall]
  exact hput fuel hfuel

/-- **The list is an LRU queue.** A read moves its user to the end of the queue and changes no contents. A first put of a
value below the capacity drops the shortest part of the front that makes the value fit, and appends its user. -/
theorem serves_lru (h : s.Serves q) :
    (∀ (user filename : Str) (commFd : Int), user ∈ q →
      ∃ s', (∀ fuel, s.getHelper fuel user filename commFd = .ok (s.view user filename, s')) ∧
        s'.Serves (touch q user) ∧ ∀ u, s'.filesOf u = s.filesOf u) ∧
    ∀ (user filename value : Str) (commFd seqNum : Int), s.Unknown user → s.userSizeOf user = 0 →
      (value.length : Int) < s.capacity → s.Writable q →
      ∃ gone rest, q = gone ++ rest ∧ (weight s.bytes rest : Int) + value.length ≤ s.capacity ∧
        (∀ gone' rest', q = gone' ++ rest' → (weight s.bytes rest' : Int) + value.length ≤ s.capacity →
          gone.length ≤ gone'.length) ∧
        ∃ s', (∀ fuel, q.length < fuel → s.put fuel user filename value commFd true seqNum = .ok s') ∧
          s'.Serves (rest ++ [user]) ∧ s'.filesOf user = (∅ : Map Str).insert filename value ∧
          (∀ w : Str, s'.virmemMeta[w]? ≠ none ↔ w ∈ gone ∨ s.virmemMeta[w]? ≠ none) ∧ s'.capacity = s.capacity := by
  constructor
  · intro user filename commFd huser
    obtain ⟨l, hlisted, rfl⟩ := h.listed
    obtain ⟨r, hr⟩ := hlisted.lined.resident_iff.mp huser
    exact h.getHelper huser (hlisted.tidy.disjoint user r hr) filename commFd
  · intro user filename value commFd seqNum hunknown hsize hvalue hwritable
    obtain ⟨s', hput, hadmitted⟩ := h.put hunknown hsize hvalue hwritable filename commFd seqNum
    refine ⟨_, _, (shed_append_kept s.bytes (s.capacity - value.length) q).symm, ?_, fun gone' rest' hq hfits => ?_,
      s', hput, hadmitted.serves, hadmitted.files, hadmitted.virmem, hadmitted.capacity⟩
    · have hkept := weight_kept_le (w := s.bytes) (q := q) (show 0 ≤ s.capacity - value.length by omega)
      omega
    · exact shed_shortest hq (by omega)

/-- The state after two first puts, as `serves_of_two` reads it. -/
def TwoUsers (s : LRUCache) : Prop :=
  s.links.next .head = some (.node 0) ∧ s.links.next (.node 0) = some (.node 1) ∧
    s.links.next (.node 1) = some .tail ∧ s.usersOf [.node 0, .node 1] = ["u".toList, "v".toList] ∧
    s.capacity = 10 ∧ s.chunkInfo .virtualMemory = [0, 0] ∧ s.userSizeOf "w".toList = 0 ∧
    s.Unknown "w".toList ∧ weight (fun u => (rowOf (s.filesOf u)).length) ["u".toList, "v".toList] ≤ 20

instance : DecidablePred TwoUsers := fun _ => inferInstanceAs (Decidable (_ ∧ _ ∧ _ ∧ _ ∧ _ ∧ _ ∧ _ ∧ _ ∧ _))

theorem serves_lru_third_put : ∃ s : LRUCache, ∃ gone rest, ["u".toList, "v".toList] = gone ++ rest ∧
    ∃ s', (∀ fuel, 2 < fuel → s.put fuel "w".toList "h".toList "eeee".toList 3 true 0 = .ok s') ∧
      s'.Serves (rest ++ ["w".toList]) := by
  have hends : endsIn FirstPut 5 (fresh 10 true) [.put "u".toList "f".toList "abc".toList 3 0,
      .put "v".toList "g".toList "ddddd".toList 3 0] (fun s => decide s.TwoUsers) = true := by decide +kernel
  obtain ⟨s, hrun, hstate⟩ := runs_of_endsIn hends
  obtain ⟨hfirst, hsecond, hlast, husers, hcapacity, hinfo, hsize, hunknown, hrows⟩ := of_decide_eq_true hstate
  obtain ⟨hcontained, hordered⟩ := contained_of_firstPuts (by decide) (by decide) hrun
  obtain ⟨hbounded, _⟩ := bounded_of_run (by decide) (by decide) hcontained
  obtain ⟨l, hlisted⟩ := hordered.exists_listed
  have hnodes : l = [.node 0, .node 1] := by
    refine hlisted.list.path.unique ⟨hfirst, hsecond, hlast⟩ (fun hmem => ?_) (by decide)
    exact hlisted.list.forward.tail_notMem (List.mem_cons_of_mem _ hmem)
  subst hnodes
  have hserves : s.Serves ["u".toList, "v".toList] := by
    refine ⟨⟨_, hlisted, husers⟩, hbounded.memory, ?_, hbounded.small⟩
    rw [hbounded.memory]
    exact hbounded.limit
  have hwritable : s.Writable ["u".toList, "v".toList] := by
    refine ⟨0, 0, hinfo, Int.le_refl 0, ?_⟩
    simp only [intMax]
    omega
  have hvalue : (("eeee".toList.length : Nat) : Int) < s.capacity := by
    rw [hcapacity]
    decide
  obtain ⟨gone, rest, hq, _, _, s', hput, hserves', _⟩ :=
    (serves_lru hserves).2 "w".toList "h".toList "eeee".toList 3 0 hunknown hsize hvalue hwritable
  exact ⟨s, gone, rest, hq, s', hput, hserves'⟩

/-! ### Two states outside -/

/-- One resident with one file. -/
def lone (value : Str) : LRUCache :=
  { fresh 10 true with
    heap := fun r =>
      match r with
      | .head => ⟨none, some (.node 0), [], ∅⟩
      | .tail => ⟨some (.node 0), none, [], ∅⟩
      | .node 0 => ⟨some .head, some .tail, "u".toList, (∅ : Map Str).insert "f".toList value⟩
      | .node _ => ⟨none, none, [], ∅⟩
    nodes := 1
    tablets := (∅ : Map Ref).insert "u".toList (.node 0)
    memoryUsed := value.length }

theorem lone_agrees {value : Str} {s : LRUCache} (hheap : s.heap = (lone value).heap)
    (htablets : s.tablets = (lone value).tablets) : s.Agrees := by
  refine ⟨[.node 0], ⟨by decide, ?_, ?_⟩, fun r => ?_⟩
  · rw [links, hheap]
    exact ⟨rfl, rfl⟩
  · rw [links, hheap]
    exact ⟨rfl, rfl⟩
  · rw [htablets, hheap, List.mem_singleton]
    change _ ↔ ((∅ : Map Ref).insert "u".toList (.node 0))[((lone value).heap r).key]? = some r
    rw [SortedMap.getElem?_insert_eq, ExtTreeMap.getElem?_empty]
    rcases r with _ | _ | _ | i
    · exact iff_of_false (by simp) (by simp [lone])
    · exact iff_of_false (by simp) (by simp [lone])
    · exact iff_of_true rfl (if_pos rfl)
    · exact iff_of_false (by simp) (by simp [lone])

/-- A resident that virtual memory still has a record of. -/
def recordedTwice : LRUCache :=
  { lone "ab".toList with
    virmemMeta := (∅ : Map Records).insert "u".toList [[0, 0, 4]]
    disk := Disk.empty.setFiles .virtualMemory ((∅ : Map Str).insert "chunk0".toList "f,x,".toList) }

/-- A cache in a process that has not set its chunk counters. -/
def uncounted : LRUCache := { lone "aaaaaaaa".toList with chunkInfo := fun _ => [] }

/-- With a record left in virtual memory a read appends to the files, and without chunk counters no put can evict. -/
theorem not_serves_lru :
    (¬ ∀ s : LRUCache, s.Agrees → s.memoryUsed = s.residentTotal → s.memoryUsed ≤ s.capacity →
      ∀ (user filename : Str) (commFd : Int) r, s.tablets[user]? = some r →
        ∀ fuel found s', s.getHelper fuel user filename commFd = .ok (found, s') → ∀ u, s'.filesOf u = s.filesOf u) ∧
    ¬ ∀ s : LRUCache, s.Agrees → s.memoryUsed = s.residentTotal → s.memoryUsed ≤ s.capacity →
      ∀ (user filename value : Str) (commFd seqNum : Int), s.Unknown user → s.userSizeOf user = 0 →
        (value.length : Int) < s.capacity →
        ∃ fuel s', s.put fuel user filename value commFd true seqNum = .ok s' := by
  constructor
  · intro hall
    have hrun : (recordedTwice.getHelper 1 "u".toList "f".toList 3).toOption.map
        (fun result => result.2.view "u".toList "f".toList) = some (some "abx".toList) := by decide +kernel
    cases hget : recordedTwice.getHelper 1 "u".toList "f".toList 3 with
    | error e =>
        rw [hget] at hrun
        cases hrun
    | ok result =>
        rw [hget] at hrun
        have hread : result.2.view "u".toList "f".toList = some "abx".toList := Option.some.inj hrun
        have hfiles := hall recordedTwice (lone_agrees rfl rfl) (by decide +kernel) (by decide) "u".toList "f".toList 3
          (.node 0) (by decide +kernel) 1 result.1 result.2 hget "u".toList
        have hview : result.2.view "u".toList "f".toList = recordedTwice.view "u".toList "f".toList := by
          rw [view, hfiles, view]
        rw [hread] at hview
        exact absurd hview (by decide +kernel)
  · intro hall
    obtain ⟨fuel, s', hput⟩ := hall uncounted (lone_agrees rfl rfl) (by decide +kernel) (by decide) "v".toList
      "g".toList "bbb".toList 3 0 (by decide +kernel) (by decide +kernel) (by decide)
    rcases put_ok hput with ⟨hlarge, _⟩ | ⟨_, hloop⟩
    · exact absurd hlarge (by decide)
    · cases fuel with
      | zero => cases hloop
      | succ fuel =>
          rw [putLoop_external_succ (by decide +kernel), if_neg (by decide +kernel)] at hloop
          cases hloop

end PennCloud.LRUCache
