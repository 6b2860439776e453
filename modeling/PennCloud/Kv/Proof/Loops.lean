import PennCloud.Kv.Proof.Ways

/-!
# The loop of `put`

A put evicts until its value fits and then places it; a user in virtual memory is loaded first, by
puts of its own. Two things make that safe from any sound state: room for all that is brought into
memory, or a list that holds exactly the residents, the user's own node last. In the second case the
loop can always evict somebody else while the value does not fit.
-/

namespace PennCloud.LRUCache

open DList Std

/-! ### Results of a run -/

/-- The run returns where `P` holds, and where it returns without a chunk filling up, `Q` holds. -/
structure Delivers (P : Prop) (result : Except Fault LRUCache) (Q : LRUCache → Prop) : Prop where
  returns : P → ∃ s', result = .ok s' ∧ ¬ s'.Filled
  right : ∀ s', result = .ok s' → ¬ s'.Filled → Q s'

namespace Delivers

variable {P P' : Prop} {Q Q' : LRUCache → Prop} {s : LRUCache} {result : Except Fault LRUCache}

theorem ok (hfilled : ¬ s.Filled) (hQ : Q s) : Delivers P (.ok s) Q :=
  ⟨fun _ => ⟨s, rfl, hfilled⟩, fun _ ht _ => Except.ok.inj ht ▸ hQ⟩

theorem mono (h : Delivers P result Q) (hP : P' → P) (hQ : ∀ s, Q s → Q' s) : Delivers P' result Q' :=
  ⟨fun hP' => h.returns (hP hP'), fun t ht hfilled => hQ t (h.right t ht hfilled)⟩

theorem bind {f : LRUCache → Except Fault LRUCache} (h : Delivers P result Q)
    (hf : ∀ t, Q t → Delivers P (f t) Q') (hkept : ∀ t s', t.Filled → f t = .ok s' → s'.Filled) :
    Delivers P (result >>= f) Q' := by
  constructor
  · intro hP
    obtain ⟨t, rfl, hfilled⟩ := h.returns hP
    exact (hf t (h.right t rfl hfilled)).returns hP
  · intro s' hrun hfilled
    obtain ⟨t, rfl, hrest⟩ := Run.bind_eq_ok.mp hrun
    have ht := h.right t rfl fun hfull => hfilled (hkept t s' hfull hrest)
    exact (hf t ht).right s' hrest hfilled

/-- The step before has filled a chunk up, and what follows keeps it so. -/
theorem of_filled {f : LRUCache → Except Fault LRUCache} (hnot : ¬ P)
    (hfull : ∀ t, result = .ok t → t.Filled) (hkept : ∀ t s', t.Filled → f t = .ok s' → s'.Filled) :
    Delivers P (result >>= f) Q := by
  refine ⟨fun hP => absurd hP hnot, fun s' hrun hfilled => ?_⟩
  obtain ⟨t, ht, hrest⟩ := Run.bind_eq_ok.mp hrun
  exact absurd (hkept t s' (hfull t ht) hrest) hfilled

end Delivers

variable {s s' t : LRUCache} {user filename value u : Str} {r p x n : Ref} {files : Map Str}
  {fuel need : Nat} {commFd seqNum : Int}

/-! ### Loading a user -/

/-- What loading has done so far: the user has these files, and nothing else has changed. -/
structure Loading (s s' : LRUCache) (user : Str) (files : Map Str) : Prop where
  sound : s'.Sound
  exact : s'.Exact
  building : s'.Building user files
  others : ∀ u, u ≠ user → s'.filesOf u = s.filesOf u
  userSize : s'.userSize = s.userSize
  capacity : s'.capacity = s.capacity

theorem Loading.trans {files' : Map Str} (h : Loading s t user files) (h' : Loading t s' user files') :
    Loading s s' user files' where
  sound := h'.sound
  exact := h'.exact
  building := h'.building
  others u hu := (h'.others u hu).trans (h.others u hu)
  userSize := h'.userSize.trans h.userSize
  capacity := h'.capacity.trans h.capacity

/-- The way stays open behind a step, and suffices when it did. -/
def Leads (s s' : LRUCache) (user : Str) (way way' : Way) (files files' : Map Str) (size need : Nat) : Prop :=
  way.Open s user files (size + need) → way'.Open s' user files' need ∧
    ∀ fuel, way.Suffices s user fuel → way'.Suffices s' user fuel

theorem Sound.placeNew {load : LRUCache → Str → Except Fault LRUCache} {isCPUT : Bool} (h : s.Sound)
    (hexact : s.Exact) (hunknown : s.Unknown user) (hname : ',' ∉ filename) (hvalue : ',' ∉ value) :
    ∃ t, s.placeValue load user filename value isCPUT = .ok t ∧
      Loading s (t.addMemory value.length) user (addFile ∅ (filename, value)) ∧
      ∀ way need, Leads s (t.addMemory value.length) user way way ∅ (addFile ∅ (filename, value))
        value.length need := by
  obtain ⟨p, hp⟩ := h.exists_prev
  have hfiles : addFile ∅ (filename, value) = (∅ : Map Str).insert filename value :=
    addFile_of_none ExtTreeMap.getElem?_empty
  have hnew : (s.addNode user filename value).tablets[user]? = some (.node s.nodes) := by
    rw [addNode_tablets, if_pos rfl]
  have htotal : total ((∅ : Map Str).insert filename value) = value.length := by
    rw [← hfiles, total_addFile]
    simp [total]
  have hresident : ((s.addNode user filename value).toTail (.node s.nodes) p).residentTotal =
      value.length + s.residentTotal := by
    rw [← htotal]
    exact weigh_addNode h.tidy hunknown.1
  have hsound := h.addNode hunknown hp hname hvalue
  rw [hfiles]
  refine ⟨_, placeValue_absent hunknown.1 hunknown.2 hp, ⟨?_, ?_, ?_, ?_, rfl, rfl⟩, ?_⟩
  · exact hsound.congr rfl rfl rfl rfl rfl rfl rfl
  · have hmemory : (((s.addNode user filename value).toTail (.node s.nodes) p).addMemory
        value.length).memoryUsed = toInt32 (s.memoryUsed + value.length) := rfl
    have htotal' : (((s.addNode user filename value).toTail (.node s.nodes) p).addMemory
        value.length).residentTotal = value.length + s.residentTotal := hresident
    rw [Exact, hmemory, htotal', hexact, toInt32_add_toInt32, Int.natCast_add, Int.add_comm]
  · refine ⟨Or.inr ⟨s.nodes, hnew, ?_⟩, hunknown.2, _, toTail_prev_tail ..⟩
    rw [addMemory_heap, toTail_value, addNode_heap_self]
  · intro u hu
    have hkept : (((s.addNode user filename value).toTail (.node s.nodes) p).addMemory
        value.length).filesOf u = (s.addNode user filename value).filesOf u :=
      filesOf_congr rfl (fun r => rfl) rfl rfl
    rw [hkept, filesOf_addNode h.tidy, if_neg (Ne.symm hu)]
  · intro way need hopen
    cases way with
    | room => exact ⟨hopen.addNode h.tidy hunknown hp, fun fuel hfuel => hfuel⟩
    | listed others =>
        refine ⟨hopen.addNode h.tidy hunknown hp, fun fuel hfuel => ⟨hfuel.1, ?_⟩⟩
        · obtain ⟨fill, hinfo, hspare⟩ := hfuel.2
          refine ⟨fill, hinfo, ?_⟩
          have htablets : (s.addNode user filename value).tablets.erase user = s.tablets.erase user :=
            SortedMap.erase_insert ..
          have hweigh : (s.addNode user filename value).weigh (fun files => (rowOf files).length)
              (s.tablets.erase user) = s.weigh (fun files => (rowOf files).length) (s.tablets.erase user) :=
            SortedMap.sum_congr fun u r hr => by
              rw [addNode_heap (h.tidy.ne_fresh (erase_getElem? hr).2)]
          rw [addMemory_tablets, toTail_tablets, htablets]
          exact hweigh ▸ hspare

/-! ### A user that has a node -/

/-- The files of a resident have been replaced, and its node is before the tail. -/
structure Replaced (s t : LRUCache) (user : Str) (r p : Ref) (files : Map Str) : Prop where
  sound : t.Sound
  filesOf : ∀ u, t.filesOf u = if user = u then files else s.filesOf u
  residentTotal : t.residentTotal + total (s.filesOf user) = s.residentTotal + total files
  tablets : t.tablets = s.tablets
  value : (t.heap r).value = files
  links : t.links = s.links.moveToTail .tail r p
  keys : ∀ x, (t.heap x).key = (s.heap x).key
  virmemMeta : t.virmemMeta = s.virmemMeta
  chunkInfo : t.chunkInfo = s.chunkInfo
  memoryUsed : t.memoryUsed = s.memoryUsed
  userSize : t.userSize = s.userSize
  capacity : t.capacity = s.capacity
  weigh : ∀ w, t.weigh w (s.tablets.erase user) = s.weigh w (s.tablets.erase user)

theorem Sound.replaced (h : s.Sound) (hresident : s.tablets[user]? = some r) (hplain : Plain files)
    (hne : files ≠ ∅) (hprev : s.links.prev .tail = some p) :
    Replaced s ((s.setValue r files).toTail r p) user r p files where
  sound := by
    have hresident' : (s.setValue r files).tablets[user]? = some r := hresident
    exact (h.setValue hresident hplain hne).toTail hresident' (by rw [links_setValue, hprev])
  filesOf u := by
    have hkept : ((s.setValue r files).toTail r p).filesOf u = (s.setValue r files).filesOf u :=
      filesOf_congr rfl (fun r => rfl) rfl rfl
    rw [hkept, filesOf_setValue h.tidy hresident]
  residentTotal := by
    have htotal : ((s.setValue r files).toTail r p).residentTotal =
        total files + s.weigh total (s.tablets.erase user) := residentTotal_setValue h.tidy hresident
    rw [htotal, residentTotal_of_resident hresident, filesOf_of_resident hresident]
    omega
  tablets := rfl
  value := by rw [toTail_value, setValue_value_self]
  links := by rw [toTail_links, links_setValue]
  keys x := by rw [toTail_key, setValue_key]
  virmemMeta := rfl
  chunkInfo := rfl
  memoryUsed := rfl
  userSize := rfl
  capacity := rfl
  weigh w := weigh_setValue h.tidy hresident

/-- Storing into a resident's node succeeds from every sound state. -/
theorem Sound.storeResident {new : Str → Str} (h : s.Sound) (hresident : s.tablets[user]? = some r)
    (hname : ',' ∉ filename) (hnew : ',' ∉ new ((s.filesOf user).getD filename [])) :
    ∃ t p, s.links.prev .tail = some p ∧ s.storeResident user filename new = .ok t ∧
      t = (s.setValue r ((s.filesOf user).insert filename (new ((s.filesOf user).getD filename [])))).toTail r p ∧
      Replaced s t user r p ((s.filesOf user).insert filename (new ((s.filesOf user).getD filename []))) := by
  obtain ⟨p, hp⟩ := h.exists_prev
  rw [filesOf_of_resident hresident] at hnew ⊢
  exact ⟨_, p, hp, storeResident_eq hresident hp (h.tidy.ne_tail hresident), rfl,
    h.replaced hresident ((h.resident user r hresident).1.insert hname hnew) insert_ne_empty hp⟩

theorem Plain.comma_notMem_getD (h : Plain files) (filename : Str) : ',' ∉ files.getD filename [] := by
  rw [ExtTreeMap.getD_eq_getD_getElem?]
  cases hget : files[filename]? with
  | none => exact List.not_mem_nil
  | some old => exact h.values filename old hget

theorem Plain.comma_notMem_append (h : Plain files) (filename : Str) (hvalue : ',' ∉ value) :
    ',' ∉ files.getD filename [] ++ value := by
  rw [List.mem_append]
  exact fun hmem => hmem.elim (h.comma_notMem_getD filename) hvalue

theorem Sound.placeMore {load : LRUCache → Str → Except Fault LRUCache} (h : s.Sound) (hexact : s.Exact)
    (hresident : s.tablets[user]? = some r) (hname : ',' ∉ filename) (hvalue : ',' ∉ value) :
    ∃ t, s.placeValue load user filename value false = .ok t ∧
      Loading s (t.addMemory value.length) user (addFile (s.filesOf user) (filename, value)) ∧
      ∀ way need, Leads s (t.addMemory value.length) user way way (s.filesOf user)
        (addFile (s.filesOf user) (filename, value)) value.length need := by
  have hvirmem := h.tidy.disjoint user r hresident
  obtain ⟨i, _, hnode⟩ := h.tidy.allocated user r hresident
  have hnew : ',' ∉ (s.filesOf user).getD filename [] ++ value := (h.plain user).comma_notMem_append filename hvalue
  obtain ⟨t, p, hp, hstore, hstate, hreplaced⟩ : ∃ t p, s.links.prev .tail = some p ∧
      s.storeResident user filename (· ++ value) = .ok t ∧ _ := h.storeResident hresident hname hnew
  have htotal : t.residentTotal = s.residentTotal + value.length := by
    have htotal := hreplaced.residentTotal
    have hadded : total ((s.filesOf user).insert filename ((s.filesOf user).getD filename [] ++ value)) =
        total (s.filesOf user) + value.length := total_addFile (s.filesOf user) (filename, value)
    omega
  refine ⟨t, ?_, ⟨?_, ?_, ?_, ?_, hreplaced.userSize, hreplaced.capacity⟩, ?_⟩
  · rw [placeValue_held hresident hvirmem]
    exact hstore
  · exact hreplaced.sound.congr rfl rfl rfl rfl rfl rfl rfl
  · have htotal' : (t.addMemory value.length).residentTotal = t.residentTotal := rfl
    rw [Exact, addMemory_memoryUsed, hreplaced.memoryUsed, htotal', htotal, hexact, toInt32_add_toInt32,
      Int.natCast_add]
  · refine ⟨Or.inr ⟨i, ?_, ?_⟩, ?_, ?_⟩
    · rw [addMemory_tablets, hreplaced.tablets, hresident, hnode]
    · rw [addMemory_heap, ← hnode, hreplaced.value]
      rfl
    · rw [addMemory_virmemMeta, hreplaced.virmemMeta, hvirmem]
    · exact ⟨_, hreplaced.sound.exists_prev.choose_spec⟩
  · intro u hu
    have hkept : (t.addMemory value.length).filesOf u = t.filesOf u :=
      filesOf_congr rfl (fun r => rfl) rfl rfl
    rw [hkept, hreplaced.filesOf, if_neg (Ne.symm hu)]
  · intro way need hopen
    refine ⟨?_, fun fuel hfuel => ?_⟩
    · rw [hstate]
      exact hopen.setValue h.tidy hresident hp
    · cases way with
      | room => exact hfuel
      | listed others =>
          obtain ⟨hdepth, fill, hinfo, hspare⟩ := hfuel
          refine ⟨hdepth, fill, ?_, ?_⟩
          · rw [addMemory_chunkInfo, hreplaced.chunkInfo, hinfo]
          · rw [addMemory_tablets, hreplaced.tablets]
            have hweigh := hreplaced.weigh (fun files => (rowOf files).length)
            exact hweigh.symm ▸ hspare

theorem Sound.place {load : LRUCache → Str → Except Fault LRUCache} (h : s.Sound) (hexact : s.Exact)
    (hbuilding : s.Building user files) (hname : ',' ∉ filename) (hvalue : ',' ∉ value) :
    ∃ t, s.placeValue load user filename value false = .ok t ∧
      Loading s (t.addMemory value.length) user (addFile files (filename, value)) ∧
      ∀ way need, Leads s (t.addMemory value.length) user way way files
        (addFile files (filename, value)) value.length need := by
  rcases hbuilding.held with ⟨habsent, rfl⟩ | ⟨i, hresident, _⟩
  · exact h.placeNew hexact ⟨habsent, hbuilding.virmem⟩ hname hvalue
  · obtain rfl := hbuilding.filesOf
    exact h.placeMore hexact hresident hname hvalue

/-! ### Putting while loading -/

/-- One more file has been loaded, and the way to the next is open. -/
def Loaded (s s' : LRUCache) (user : Str) (way : Way) (files : Map Str) (need : Nat) : Prop :=
  Loading s s' user files ∧ ∃ way' : Way, way'.Open s' user files need ∧
    (way = .room → way' = .room) ∧ ∀ fuel, way.Suffices s user fuel → way'.Suffices s' user fuel

theorem putLoop_internal_succ : putLoop (fuel + 1) s user filename value commFd false seqNum =
    if s.fits value then
      s.placeValue (reload fuel commFd) user filename value false >>= fun t =>
        .ok (t.addMemory value.length)
    else s.useVirtualMemory >>= fun t => putLoop fuel t user filename value commFd false seqNum := by
  rw [putLoop]
  change s.putHelper (reload fuel commFd) user filename value commFd false false seqNum >>= _ = _
  by_cases hfits : s.fits value = true
  · rw [putHelper_internal_fits hfits, if_pos hfits]
    simp only [bind_assoc, Run.ok_bind, if_true]
  · rw [putHelper_eq]
    simp [hfits, touched, Run.ok_bind]

/-- The first of the others has been evicted while the user was being loaded. -/
theorem Evicted.open {others : List Ref} (hevicted : Evicted s t x (others ++ s.tablets[user]?.toList))
    (hbuilding : s.Building user files)
    (hopen : (Way.listed (x :: others)).Open s user files (value.length + need)) :
    t.Building user files ∧ (Way.listed others).Open t user files (value.length + need) ∧
      ∀ fuel, (Way.listed (x :: others)).Suffices s user (fuel + 1) →
        (Way.listed others).Suffices t user fuel := by
  obtain ⟨hbuilding', hopen'⟩ := hopen.evicted hbuilding hevicted.sound.exists_prev hevicted.forward
    hevicted.lists hevicted.tablets hevicted.values hevicted.virmem hevicted.capacity
  refine ⟨hbuilding', hopen', fun fuel hfuel => ⟨?_, ?_⟩⟩
  · have hlt : others.length + 1 < fuel + 1 := hfuel.1
    omega
  · have htablets : (s.tablets.erase user)[(s.heap x).key]? = some x := by
      rw [SortedMap.getElem?_erase_eq, if_neg (Ne.symm hopen.key_ne), hopen.2.1.resident List.mem_cons_self]
    have hspare := hevicted.spare _ htablets hfuel.2
    have hcomm : (s.tablets.erase user).erase (s.heap x).key = t.tablets.erase user := by
      rw [hevicted.tablets]
      refine ExtTreeMap.ext_getElem? fun u => ?_
      simp only [SortedMap.getElem?_erase_eq]
      split <;> split <;> rfl
    rwa [hcomm] at hspare

theorem Sound.putLoop_internal {way : Way} (h : s.Sound) (hexact : s.Exact)
    (hbuilding : s.Building user files) (hname : ',' ∉ filename) (hvalue : ',' ∉ value)
    (hopen : way.Open s user files (value.length + need)) :
    Delivers (way.Suffices s user fuel) (putLoop fuel s user filename value commFd false seqNum)
      (fun s' => Loaded s s' user way (addFile files (filename, value)) need) := by
  induction fuel generalizing s way with
  | zero =>
      refine ⟨fun hfuel => ?_, fun s' hrun _ => absurd hrun (by simp [putLoop])⟩
      cases way with
      | room => exact absurd hfuel (Nat.lt_irrefl 0)
      | listed others => exact absurd hfuel.1 (Nat.not_lt_zero _)
  | succ fuel ih =>
      rw [putLoop_internal_succ]
      by_cases hfits : s.fits value = true
      · rw [if_pos hfits]
        obtain ⟨t, hplace, hloading, hleads⟩ : ∃ t,
            s.placeValue (reload fuel commFd) user filename value false = .ok t ∧ _ :=
          h.place hexact hbuilding hname hvalue
        rw [hplace, Run.ok_bind]
        obtain ⟨hopen', hsuffices⟩ := hleads way need hopen
        exact Delivers.ok hloading.sound.not_filled ⟨hloading, way, hopen', id, hsuffices⟩
      · rw [if_neg hfits]
        rw [Bool.not_eq_true] at hfits
        obtain ⟨x, others, rfl⟩ := Way.exists_other h.tidy h.nonneg h.small hexact hbuilding hopen hfits
        have hkept : ∀ t s', t.Filled → putLoop fuel t user filename value commFd false seqNum = .ok s' →
            s'.Filled := fun t s' ht hrun => (kept_filled user).putLoop ht trivial hrun
        rcases h.evictFirst hexact hopen.1 hopen.2.1 with ⟨t, hevict, hevicted⟩ | ⟨hfull, hspare⟩
        · rw [hevict, Run.ok_bind]
          obtain ⟨hbuilding', hopen', hsuffices⟩ := hevicted.open hbuilding hopen
          refine (ih hevicted.sound hevicted.exact hbuilding' hopen').mono (hsuffices fuel) ?_
          rintro s' ⟨hloading, way', hway, _, hleft⟩
          refine ⟨⟨hloading.sound, hloading.exact, hloading.building, fun u hu => ?_, ?_, ?_⟩, way', hway,
            fun hroom => absurd hroom (by simp), ?_⟩
          · rw [hloading.others u hu, hevicted.filesOf]
          · rw [hloading.userSize, hevicted.userSize]
          · rw [hloading.capacity, hevicted.capacity]
          · intro k hk
            have hpred : k - 1 + 1 = k := by
              have hlt : others.length + 1 < k := hk.1
              omega
            exact hleft k ((hsuffices (k - 1) (hpred.symm ▸ hk)).mono (by omega))
        · refine Delivers.of_filled (fun hfuel => ?_) hfull hkept
          refine hspare _ ?_ hfuel.2
          rw [SortedMap.getElem?_erase_eq, if_neg (Ne.symm hopen.key_ne),
            hopen.2.1.resident List.mem_cons_self]

theorem Sound.restore {way : Way} (h : s.Sound) (hexact : s.Exact) (hbuilding : s.Building user files)
    (pairs : List (Str × Str)) (hpairs : ∀ file ∈ pairs, ',' ∉ file.1 ∧ ',' ∉ file.2)
    (hopen : way.Open s user files (bytesOf pairs + need)) :
    Delivers (way.Suffices s user fuel)
      (pairs.foldlM (fun s file => put fuel s user file.1 file.2 commFd false 0) s)
      (fun s' => Loaded s s' user way (pairs.foldl addFile files) need) := by
  induction pairs generalizing s files way with
  | nil =>
      refine Delivers.ok h.not_filled ⟨⟨h, hexact, hbuilding, fun _ _ => rfl, rfl, rfl⟩, way, ?_, id, fun _ => id⟩
      simpa using hopen
  | cons file pairs ih =>
      rw [bytesOf_cons, Nat.add_assoc] at hopen
      obtain ⟨hname, hvalue⟩ := hpairs file List.mem_cons_self
      have hput : put fuel s user file.1 file.2 commFd false 0 =
          putLoop fuel s user file.1 file.2 commFd false 0 := by
        rw [put, putWith, if_neg (Nat.not_lt.mpr (hopen.length_le h.nonneg h.small))]
      rw [List.foldlM_cons, hput]
      refine (h.putLoop_internal hexact hbuilding hname hvalue hopen).bind ?_ ?_
      · rintro t ⟨hloading, way', hopen', hroom, hleft⟩
        have hrest := ih hloading.sound hloading.exact hloading.building
          (fun file hfile => hpairs file (List.mem_cons_of_mem _ hfile)) hopen'
        refine hrest.mono (hleft fuel) ?_
        rintro s' ⟨hloading', way'', hopen'', hroom', hleft'⟩
        exact ⟨hloading.trans hloading', way'', hopen'', fun heq => hroom' (hroom heq),
          fun k hk => hleft' k (hleft k hk)⟩
      · intro t s' ht hrun
        exact Run.foldlM_invariant (P := Filled)
          (fun s file s' _ hs hrun => (kept_filled user).put hs trivial hrun) ht hrun

/-- The user is in memory, and all contents are as before. -/
structure Fetched (s s' : LRUCache) (user : Str) : Prop where
  sound : s'.Sound
  exact : s'.Exact
  resident : ∃ r, s'.tablets[user]? = some r
  filesOf : ∀ u, s'.filesOf u = s.filesOf u
  userSize : s'.userSize = s.userSize
  capacity : s'.capacity = s.capacity

/-- Loading an evicted user loses nothing and evicts only others. -/
theorem Sound.loadUserFromDisk {way : Way} (h : s.Sound) (hexact : s.Exact)
    (hvirmem : s.virmemMeta[user]? ≠ none) (hopen : way.Open s user ∅ (total (s.filesOf user) + need)) :
    Delivers (way.Suffices s user fuel) (LRUCache.loadUserFromDisk fuel s .virtualMemory user commFd)
      (fun s' => Fetched s s' user ∧ (way = .room → (s'.residentTotal + need : Int) ≤ s.capacity)) := by
  obtain ⟨hplain, hne, hrecorded⟩ := h.filesOf_evicted hvirmem
  have habsent := h.tidy.absent_of_virmem hvirmem
  have hread : readRow s.disk .virtualMemory ((s.metaOf .virtualMemory).getD user []) =
      .ok (rowOf (s.filesOf user)) := hrecorded.readRow
  have hload : LRUCache.loadUserFromDisk fuel s .virtualMemory user commFd =
      (s.filesOf user).toList.foldlM (fun s file => put fuel s user file.1 file.2 commFd false 0)
        (s.clearMetadata .virtualMemory user) := by
    rw [LRUCache.loadUserFromDisk, loadUserFromDiskWith]
    change (readRow s.disk .virtualMemory ((s.metaOf .virtualMemory).getD user []) >>= _) = _
    rw [hread, Run.ok_bind, restoreUserWith, pairs_rowOf hplain.names hplain.values]
  have hbuilding : (s.clearMetadata .virtualMemory user).Building user ∅ :=
    ⟨Or.inl ⟨habsent, rfl⟩, clearMetadata_getElem?.trans (if_pos rfl), h.exists_prev⟩
  have hpairs : ∀ file ∈ (s.filesOf user).toList, ',' ∉ file.1 ∧ ',' ∉ file.2 := by
    intro file hfile
    have hget : (s.filesOf user)[file.1]? = some file.2 := ExtTreeMap.mem_toList_iff_getElem?_eq_some.mp hfile
    exact ⟨hplain.names _ _ hget, hplain.values _ _ hget⟩
  have hopen' : way.Open (s.clearMetadata .virtualMemory user) user ∅
      (bytesOf (s.filesOf user).toList + need) := by
    rw [← total_eq_bytesOf]
    cases way <;> exact hopen
  have hsuffices : way.Suffices s user fuel →
      way.Suffices (s.clearMetadata .virtualMemory user) user fuel := by
    cases way <;> exact id
  rw [hload]
  have hcleared : (s.clearMetadata .virtualMemory user).Exact := hexact
  refine (h.clearMetadata.restore hcleared hbuilding _ hpairs hopen').mono hsuffices ?_
  rintro s' ⟨hloading, way', hopened, hroom, _⟩
  rw [foldl_addFile_toList] at hloading
  refine ⟨⟨hloading.sound, hloading.exact, ?_, fun u => ?_, hloading.userSize, hloading.capacity⟩,
    fun heq => ?_⟩
  · rcases hloading.building.held with ⟨_, hempty⟩ | ⟨i, hresident, _⟩
    · exact absurd hempty hne
    · exact ⟨_, hresident⟩
  · by_cases hu : u = user
    · rw [hu, hloading.building.filesOf]
    · rw [hloading.others u hu, filesOf_clearMetadata (Ne.symm hu)]
  · obtain rfl := hroom heq
    have hroom' : (s'.residentTotal + need : Int) ≤ s'.capacity := hopened
    rw [hloading.capacity] at hroom'
    exact hroom'

end PennCloud.LRUCache
