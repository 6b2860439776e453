import PennCloud.Kv.Proof.Loops
import PennCloud.Kv.Spec

/-!
# The cache refines the store

A state is good when it is sound and both byte counters are exact. From a good state, a command that
needs no eviction, or finds the list in order, does to the contents what the store says, whichever
users are resident; it returns with enough recursion depth while the chunk file has room.
-/

namespace PennCloud.LRUCache

open DList Std

variable {s s' t : LRUCache} {user filename value u : Str} {r p x n : Ref} {files : Map Str}
  {fuel : Nat} {commFd seqNum : Int}

/-- The quota counter of every user is the total of its files. -/
def Sized (s : LRUCache) : Prop :=
  ∀ u, s.userSizeOf u = total (s.filesOf u) ∧ (total (s.filesOf u) : Int) ≤ s.capacity

structure Good (s : LRUCache) : Prop where
  sound : s.Sound
  exact : s.Exact
  sized : s.Sized

theorem Good.not_filled (h : s.Good) : ¬ s.Filled := h.sound.not_filled

/-- Only counters of users, messages and the like have changed. -/
theorem Good.congr (h : s.Good) (hheap : s'.heap = s.heap) (hnodes : s'.nodes = s.nodes)
    (htablets : s'.tablets = s.tablets) (hvirmem : s'.virmemMeta = s.virmemMeta)
    (hdisk : s'.disk.files = s.disk.files) (hinfo : s'.chunkInfo = s.chunkInfo) (hcapacity : s'.capacity = s.capacity)
    (hmemory : s'.memoryUsed = s.memoryUsed) (hsizes : ∀ u, s'.userSizeOf u = s.userSizeOf u) : s'.Good := by
  have hfiles : ∀ u, s'.filesOf u = s.filesOf u :=
    fun u => filesOf_congr htablets (fun r => by rw [hheap]) hvirmem hdisk
  refine ⟨h.sound.congr hheap hnodes htablets hvirmem hdisk hinfo hcapacity, ?_, fun u => ?_⟩
  · have htotal : s'.residentTotal = s.residentTotal := by
      rw [residentTotal, residentTotal, weigh, weigh, htablets, hheap]
    rw [Exact, hmemory, htotal]
    exact h.exact
  · rw [hsizes, hfiles, hcapacity]
    exact h.sized u

theorem Good.total_le (h : s.Good) (user : Str) : (total (s.filesOf user) : Int) ≤ s.capacity :=
  (h.sized user).2

/-- The quota test compares what it seems to compare. -/
theorem Good.exceedsQuota_iff (h : s.Good) (hvalue : value.length < 2 ^ 63) :
    s.exceedsQuota user value = true ↔ s.capacity ≤ total (s.filesOf user) + value.length := by
  have hsmall := h.sound.small
  have htotal := h.total_le user
  rw [exceedsQuota, decide_eq_true_eq, toSize_of_nonneg h.sound.nonneg hsmall, (h.sized user).1,
    sizeAdd_of_nonneg (by omega) (by omega) hvalue]
  omega

/-! ### Loading before a command -/

/-- Nothing needs to be loaded for the user, or there is room for all its files. -/
def Roomy (s : LRUCache) (user : Str) : Prop :=
  s.virmemMeta[user]? ≠ none → (s.residentTotal : Int) + total (s.filesOf user) ≤ s.capacity

/-- The list holds exactly the residents. -/
def InOrder (s : LRUCache) : Prop := ∃ l, Forward s.links .head .tail l ∧ s.Lists l

/-- A user in virtual memory can be loaded; `P` are the bounds on the recursion that are enough. -/
def Loadable (s : LRUCache) (user : Str) (P : Nat → Prop) : Prop :=
  s.virmemMeta[user]? ≠ none → ∀ fuel commFd,
    Delivers (P fuel) (LRUCache.loadUserFromDisk fuel s .virtualMemory user commFd)
      (fun s' => Fetched s s' user)

theorem Loadable.mono {P Q : Nat → Prop} (h : s.Loadable user P) (himp : ∀ fuel, Q fuel → P fuel) :
    s.Loadable user Q :=
  fun hvirmem fuel commFd => (h hvirmem fuel commFd).mono (himp fuel) fun _ => id

theorem Good.of_fetched (h : s.Good) (hfetched : Fetched s s' user) : s'.Good := by
  refine ⟨hfetched.sound, hfetched.exact, fun u => ?_⟩
  have hsize : s'.userSizeOf u = s.userSizeOf u := by rw [userSizeOf, hfetched.userSize, userSizeOf]
  rw [hsize, hfetched.filesOf, hfetched.capacity]
  exact h.sized u

theorem Good.load_roomy (need : Nat) (h : s.Good) (hvirmem : s.virmemMeta[user]? ≠ none)
    (hroom : (s.residentTotal : Int) + total (s.filesOf user) + need ≤ s.capacity) :
    Delivers (0 < fuel) (LRUCache.loadUserFromDisk fuel s .virtualMemory user commFd)
      (fun s' => Fetched s s' user ∧ (s'.residentTotal + need : Int) ≤ s.capacity) := by
  have hopen : Way.room.Open s user ∅ (total (s.filesOf user) + need) := by
    change (s.residentTotal + (total (s.filesOf user) + need : Nat) : Int) ≤ s.capacity
    omega
  exact (h.sound.loadUserFromDisk h.exact hvirmem hopen).mono id fun s' hs' => ⟨hs'.1, hs'.2 rfl⟩

theorem Good.loadable_roomy (h : s.Good) (hroomy : s.Roomy user) : s.Loadable user (0 < ·) := by
  intro hvirmem fuel commFd
  have hroom := hroomy hvirmem
  exact (h.load_roomy 0 hvirmem (by omega)).mono id fun s' hs' => hs'.1

theorem Good.loadable_listed {l : List Ref} (h : s.Good) (hforward : Forward s.links .head .tail l)
    (hlists : s.Lists l) : s.Loadable user (fun fuel => l.length < fuel ∧ s.Spare s.tablets) := by
  intro hvirmem fuel commFd
  have habsent := h.sound.tidy.absent_of_virmem hvirmem
  have hopen : (Way.listed l).Open s user ∅ (total (s.filesOf user) + 0) := by
    have htotal := h.total_le user
    rw [Way.Open, habsent, Option.toList_none, List.append_nil]
    refine ⟨hforward, hlists, ?_⟩
    simp only [total, SortedMap.sum_empty] at htotal ⊢
    omega
  refine (h.sound.loadUserFromDisk h.exact hvirmem hopen).mono (fun hfuel => ⟨hfuel.1, ?_⟩) fun s' hs' => hs'.1
  rw [SortedMap.erase_eq_self habsent]
  exact hfuel.2

/-- A user can be loaded without eviction, or with eviction from a list in order. -/
theorem Good.loadable (h : s.Good) (hload : s.Roomy user ∨ s.InOrder) :
    ∃ depth, s.Loadable user (fun fuel => depth ≤ fuel ∧ (s.Roomy user ∨ s.Spare s.tablets)) := by
  by_cases hroomy : s.Roomy user
  · exact ⟨1, (h.loadable_roomy hroomy).mono fun fuel hfuel => hfuel.1⟩
  · obtain ⟨l, hforward, hlists⟩ := hload.resolve_left hroomy
    exact ⟨l.length + 1, (h.loadable_listed hforward hlists).mono fun fuel hfuel =>
      ⟨hfuel.1, hfuel.2.resolve_left hroomy⟩⟩

/-! ### Storing -/

/-- The files of one user have become these, and no other contents have changed. -/
structure Becomes (s s' : LRUCache) (user : Str) (files : Map Str) : Prop where
  good : s'.Good
  filesOf : ∀ u, s'.filesOf u = if user = u then files else s.filesOf u
  capacity : s'.capacity = s.capacity

/-- When the counters follow the bytes of one user's files, a sound state is good again. -/
theorem Good.account (delta : Int) (h : s.Good) (hsound : s'.Sound) (hexact : s'.Exact)
    (hfiles : ∀ u, s'.filesOf u = if user = u then files else s.filesOf u)
    (hcapacity : s'.capacity = s.capacity)
    (hsizes : ∀ u, s'.userSizeOf u =
      if user = u then toInt32 (s.userSizeOf user + delta) else s.userSizeOf u)
    (htotal : (total files : Int) = total (s.filesOf user) + delta)
    (hquota : (total files : Int) ≤ s.capacity) : Becomes s s' user files := by
  refine ⟨⟨hsound, hexact, fun u => ?_⟩, hfiles, hcapacity⟩
  have hsmall := h.sound.small
  rw [hsizes, hfiles, hcapacity]
  split
  · refine ⟨?_, hquota⟩
    rw [(h.sized user).1, ← htotal, toInt32_of_range (by simp only [intMax]; omega) (by omega)]
  · exact h.sized u

theorem charged_userSizeOf {isCPUT : Bool} (u : Str) :
    (s.charged user value commFd true isCPUT seqNum).userSizeOf u =
      if user = u then toInt32 (s.userSizeOf user + value.length) else s.userSizeOf u := by
  rw [charged_eq]
  simp only [userSizeOf, Bool.true_or, if_true, ExtTreeMap.getD_eq_getD_getElem?,
    SortedMap.getElem?_insert_eq]
  split <;> rfl

section Charged

variable {external isCPUT : Bool}

theorem filesOf_charged : (s.charged user value commFd external isCPUT seqNum).filesOf u = s.filesOf u :=
  filesOf_congr (charged_tablets ..) (fun r => by rw [charged_heap]) (charged_virmemMeta ..)
    (congrArg Disk.files (charged_disk ..))

theorem Sound.charged (h : s.Sound) : (s.charged user value commFd external isCPUT seqNum).Sound :=
  h.congr (charged_heap ..) (charged_nodes ..) (charged_tablets ..) (charged_virmemMeta ..)
    (congrArg Disk.files (charged_disk ..)) (charged_chunkInfo ..) (charged_capacity ..)

theorem residentTotal_charged :
    (s.charged user value commFd external isCPUT seqNum).residentTotal = s.residentTotal := by
  rw [residentTotal, residentTotal, weigh, weigh, charged_tablets, charged_heap]

end Charged

/-- From a good state with the value below the quota, placing it is all there is to a put that fits. -/
theorem Good.becomes_of_loading (h : s.Good) (hquota : (total (s.filesOf user) : Int) + value.length ≤ s.capacity)
    (hloading : Loading s (t.addMemory value.length) user (addFile (s.filesOf user) (filename, value))) :
    Becomes s (t.charged user value commFd true false seqNum) user (addFile (s.filesOf user) (filename, value)) := by
  have htotal := total_addFile (s.filesOf user) (filename, value)
  have hsound : t.Sound := hloading.sound.congr rfl rfl rfl rfl rfl rfl rfl
  have hexact : (t.charged user value commFd true false seqNum).Exact := by
    have hexact := hloading.exact
    rw [Exact, addMemory_memoryUsed] at hexact
    rw [Exact, charged_memoryUsed, residentTotal_charged, hexact]
    rfl
  have hsizes : ∀ u, t.userSizeOf u = s.userSizeOf u := by
    have hkept : t.userSize = s.userSize := hloading.userSize
    intro u
    rw [userSizeOf, hkept, userSizeOf]
  refine h.account value.length hsound.charged hexact (fun u => ?_) ((charged_capacity ..).trans hloading.capacity)
    (fun u => ?_) (by rw [htotal, Int.natCast_add]) (by rw [htotal, Int.natCast_add]; exact hquota)
  · have hkept : (t.addMemory value.length).filesOf u = t.filesOf u :=
      filesOf_congr rfl (fun r => rfl) rfl rfl
    rw [filesOf_charged, ← hkept]
    split
    · next heq => rw [← heq, hloading.building.filesOf]
    · next hne => rw [hloading.others u (Ne.symm hne)]
  · rw [charged_userSizeOf, hsizes, hsizes]

theorem Good.place {P : Nat → Prop} (h : s.Good) (hload : s.Loadable user P)
    (hquota : (total (s.filesOf user) : Int) + value.length ≤ s.capacity) (hname : ',' ∉ filename)
    (hvalue : ',' ∉ value) :
    Delivers (P fuel) (s.placeValue (reload fuel commFd) user filename value false >>= fun t =>
        .ok (t.charged user value commFd true false seqNum))
      (fun s' => Becomes s s' user (addFile (s.filesOf user) (filename, value))) := by
  cases hresident : s.tablets[user]? with
  | some r =>
      obtain ⟨t, hplace, hloading, _⟩ :=
        h.sound.placeMore h.exact hresident hname hvalue
      rw [hplace, Run.ok_bind]
      have hbecomes : Becomes s (t.charged user value commFd true false seqNum) user
          (addFile (s.filesOf user) (filename, value)) :=
        h.becomes_of_loading hquota hloading
      exact Delivers.ok hbecomes.good.not_filled hbecomes
  | none =>
      cases hvirmem : s.virmemMeta[user]? with
      | none =>
          obtain ⟨t, hplace, hloading, _⟩ := h.sound.placeNew 
            h.exact ⟨hresident, hvirmem⟩ hname hvalue
          rw [← filesOf_unknown ⟨hresident, hvirmem⟩] at hloading
          rw [hplace, Run.ok_bind]
          have hbecomes : Becomes s (t.charged user value commFd true false seqNum) user
              (addFile (s.filesOf user) (filename, value)) :=
            h.becomes_of_loading hquota hloading
          exact Delivers.ok hbecomes.good.not_filled hbecomes
      | some records =>
          rw [placeValue_evicted hresident hvirmem, bind_assoc]
          have hneeded : s.virmemMeta[user]? ≠ none := hvirmem ▸ Option.some_ne_none records
          refine (hload hneeded fuel commFd).bind (fun t hfetched => ?_) fun t s' hfilled hrun => ?_
          · obtain ⟨r, hloaded⟩ := hfetched.resident
            have ht := h.of_fetched hfetched
            obtain ⟨t', hplace, hloading⟩ : ∃ t', t.placeValue (reload fuel commFd) user filename value false =
                .ok t' ∧ Loading t (t'.addMemory value.length) user
                  (addFile (t.filesOf user) (filename, value)) := by
              obtain ⟨t', hplace, hloading, _⟩ := ht.sound.placeMore ht.exact hloaded hname hvalue
              exact ⟨t', hplace, hloading⟩
            rw [placeValue_held hloaded (ht.sound.tidy.disjoint user r hloaded)] at hplace
            have hstore : t.storeResident user filename (· ++ value) = .ok t' := hplace
            rw [hstore, Run.ok_bind]
            have hquota' : (total (t.filesOf user) : Int) + value.length ≤ t.capacity := by
              rw [hfetched.filesOf, hfetched.capacity]
              exact hquota
            have hbecomes : Becomes t (t'.charged user value commFd true false seqNum) user
                (addFile (t.filesOf user) (filename, value)) :=
              ht.becomes_of_loading hquota' hloading
            refine Delivers.ok hbecomes.good.not_filled ⟨hbecomes.good, fun u => ?_, ?_⟩
            · rw [hbecomes.filesOf, hfetched.filesOf, hfetched.filesOf]
            · rw [hbecomes.capacity, hfetched.capacity]
          · obtain ⟨t', hstore, hrun⟩ := Run.bind_eq_ok.mp hrun
            obtain rfl := Except.ok.inj hrun
            exact (hfilled.storeResident hstore).congr (charged_chunkInfo ..)

end PennCloud.LRUCache
