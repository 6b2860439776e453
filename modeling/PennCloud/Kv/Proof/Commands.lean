import PennCloud.Kv.Proof.Refine

/-!
# What one command does to the contents

From a good state a command returns with enough recursion depth, and does to the files of its user
what it says, as long as it need not evict or evicts from a list in order.
-/

namespace PennCloud.LRUCache

open DList Std

variable {s s' t : LRUCache} {user filename value u : Str} {r p x n : Ref} {files : Map Str}
  {fuel : Nat} {commFd seqNum : Int}

/-! ### Putting -/

section Touched

variable {external isCPUT : Bool}

theorem residentTotal_touched : (s.touched user external isCPUT).residentTotal = s.residentTotal := by
  rw [residentTotal, residentTotal, weigh, weigh, touched_tablets, touched_heap]

theorem filesOf_touched : (s.touched user external isCPUT).filesOf u = s.filesOf u :=
  filesOf_congr (touched_tablets ..) (fun r => by rw [touched_heap]) (touched_virmemMeta ..)
    (congrArg Disk.files (touched_disk ..))

theorem Good.touched (h : s.Good) : (s.touched user external isCPUT).Good :=
  h.congr (touched_heap ..) (touched_nodes ..) (touched_tablets ..) (touched_virmemMeta ..)
    (congrArg Disk.files (touched_disk ..)) (touched_chunkInfo ..) (touched_capacity ..) (touched_memoryUsed ..)
    fun u => touched_userSizeOf u

theorem Roomy.touched (h : s.Roomy u) : (s.touched user external isCPUT).Roomy u := by
  rw [Roomy, touched_virmemMeta, residentTotal_touched, filesOf_touched, touched_capacity]
  exact h

theorem Spare.touched (h : s.Spare s.tablets) :
    (s.touched user external isCPUT).Spare (s.touched user external isCPUT).tablets := by
  obtain ⟨fill, hinfo, hspare⟩ := h
  refine ⟨fill, by rw [touched_chunkInfo, hinfo], ?_⟩
  rw [weigh, touched_heap, touched_tablets]
  exact hspare

theorem Becomes.of_touched (h : Becomes (s.touched user external isCPUT) s' u files) :
    Becomes s s' u files := by
  refine ⟨h.good, fun u => ?_, ?_⟩
  · rw [h.filesOf, filesOf_touched]
  · rw [h.capacity, touched_capacity]

end Touched

theorem putLoop_external_succ (hquota : s.exceedsQuota user value = false) :
    putLoop (fuel + 1) s user filename value commFd true seqNum =
      if s.fits value then
        (s.touched user true false).placeValue (reload fuel commFd) user filename value false >>= fun t =>
          .ok (t.charged user value commFd true false seqNum)
      else (s.touched user true false).useVirtualMemory >>= fun t =>
        putLoop fuel t user filename value commFd true seqNum := by
  rw [putLoop]
  change s.putHelper (reload fuel commFd) user filename value commFd true false seqNum >>= _ = _
  rw [putHelper_eq]
  by_cases hfits : s.fits value = true
  · simp only [hquota, hfits, Bool.and_false, Bool.false_eq_true, if_false, if_true, bind_assoc, Run.ok_bind]
  · simp only [hquota, hfits, Bool.and_false, Bool.false_eq_true, if_false, Run.ok_bind]

theorem Good.fits_of_nil (h : s.Good) (hlists : s.Lists []) (hvalue : (value.length : Int) ≤ s.capacity) :
    s.fits value = true := by
  have htotal := residentTotal_of_lists_nil h.sound.tidy hlists
  have hcap := h.sound.small
  have hlength : value.length ≤ toSize s.capacity := by
    rw [toSize_of_nonneg h.sound.nonneg hcap]
    omega
  exact (residentTotal_le_of_fits h.exact h.sound.nonneg hcap (by rw [htotal]; decide) hlength).mpr (by omega)

/-- Putting when the list holds exactly the residents: the loop evicts until the value fits. -/
theorem Good.putLoop_listed {l : List Ref} (h : s.Good)
    (hquota : (total (s.filesOf user) : Int) + value.length < s.capacity) (hname : ',' ∉ filename)
    (hvalue : ',' ∉ value) (hforward : Forward s.links .head .tail l) (hlists : s.Lists l) :
    Delivers (l.length + 1 < fuel ∧ s.Spare s.tablets)
      (putLoop fuel s user filename value commFd true seqNum)
      (fun s' => Becomes s s' user (addFile (s.filesOf user) (filename, value))) := by
  induction fuel generalizing s l with
  | zero => exact ⟨fun hfuel => absurd hfuel.1 (Nat.not_lt_zero _), fun s' hrun _ => absurd hrun (by simp [putLoop])⟩
  | succ fuel ih =>
      have hcap := h.sound.small
      have hbelow : s.exceedsQuota user value = false := by
        rw [Bool.eq_false_iff, ne_eq, h.exceedsQuota_iff (by simp only [intMax] at hcap; omega)]
        omega
      have hlists' : (s.touched user true false).Lists l :=
        hlists.congr (touched_tablets ..) fun r => by rw [touched_heap]
      have hforward' : Forward (s.touched user true false).links .head .tail l := by
        rwa [touched_links]
      rw [putLoop_external_succ hbelow]
      by_cases hfits : s.fits value = true
      · rw [if_pos hfits]
        have hquota' : (total ((s.touched user true false).filesOf user) : Int) + value.length ≤
            (s.touched user true false).capacity := by
          rw [filesOf_touched, touched_capacity]
          omega
        refine (h.touched.place (h.touched.loadable_listed hforward' hlists') hquota' hname hvalue).mono ?_ ?_
        · rintro ⟨hfuel, hspare⟩
          exact ⟨Nat.lt_of_succ_lt_succ hfuel, hspare.touched⟩
        · intro s' hs'
          rw [filesOf_touched] at hs'
          exact hs'.of_touched
      · rw [if_neg hfits]
        cases l with
        | nil => exact absurd (h.fits_of_nil hlists (by omega)) hfits
        | cons x l =>
            have hkept : ∀ t s', t.Filled → putLoop fuel t user filename value commFd true seqNum = .ok s' →
                s'.Filled := fun t s' ht hrun => (kept_filled user).putLoop ht trivial hrun
            have hresident := hlists'.resident List.mem_cons_self
            rcases h.touched.sound.evictFirst h.touched.exact hforward' hlists' with
              ⟨t, hevict, hevicted⟩ | ⟨hfull, hspare⟩
            · rw [hevict, Run.ok_bind]
              have ht : t.Good := by
                refine ⟨hevicted.sound, hevicted.exact, fun u => ?_⟩
                rw [userSizeOf, hevicted.userSize, hevicted.filesOf, hevicted.capacity]
                exact h.touched.sized u
              have hfiles : ∀ u, t.filesOf u = s.filesOf u := fun u => by
                rw [hevicted.filesOf, filesOf_touched]
              have hcapacity : t.capacity = s.capacity := by rw [hevicted.capacity, touched_capacity]
              have hrest := ih ht (by rw [hfiles, hcapacity]; exact hquota) hevicted.forward hevicted.lists
              refine hrest.mono ?_ fun s' hs' => ?_
              · rintro ⟨hfuel, hroom⟩
                refine ⟨Nat.lt_of_succ_lt_succ hfuel, ?_⟩
                have hleft := hevicted.spare _ hresident hroom.touched
                rwa [← hevicted.tablets] at hleft
              · refine ⟨hs'.good, fun u => ?_, hs'.capacity.trans hcapacity⟩
                rw [hs'.filesOf, hfiles, hfiles]
            · refine Delivers.of_filled (fun hfuel => ?_) hfull hkept
              exact hspare _ hresident hfuel.2.touched

/-- The put evicts nobody. -/
def PutsInPlace (s : LRUCache) (user value : Str) : Prop := s.fits value = true ∧ s.Roomy user

theorem Good.putLoop (h : s.Good)
    (hquota : (total (s.filesOf user) : Int) + value.length < s.capacity) (hname : ',' ∉ filename)
    (hvalue : ',' ∉ value) (hroom : s.PutsInPlace user value ∨ s.InOrder) :
    ∃ depth, ∀ fuel commFd seqNum,
      Delivers (depth ≤ fuel ∧ (s.PutsInPlace user value ∨ s.Spare s.tablets))
        (LRUCache.putLoop fuel s user filename value commFd true seqNum)
        (fun s' => Becomes s s' user (addFile (s.filesOf user) (filename, value))) := by
  have hcap := h.sound.small
  by_cases hplace : s.PutsInPlace user value
  · refine ⟨2, fun fuel commFd seqNum => ?_⟩
    cases fuel with
    | zero => exact ⟨fun hfuel => absurd hfuel.1 (by decide), fun s' hrun _ => absurd hrun (by simp [LRUCache.putLoop])⟩
    | succ fuel =>
        have hbelow : s.exceedsQuota user value = false := by
          rw [Bool.eq_false_iff, ne_eq, h.exceedsQuota_iff (by simp only [intMax] at hcap; omega)]
          omega
        rw [putLoop_external_succ hbelow, if_pos hplace.1]
        have hquota' : (total ((s.touched user true false).filesOf user) : Int) + value.length ≤
            (s.touched user true false).capacity := by
          rw [filesOf_touched, touched_capacity]
          omega
        refine (h.touched.place (h.touched.loadable_roomy hplace.2.touched) hquota' hname hvalue).mono ?_ ?_
        · exact fun hfuel => Nat.lt_of_succ_lt_succ hfuel.1
        · intro s' hs'
          rw [filesOf_touched] at hs'
          exact hs'.of_touched
  · obtain ⟨l, hforward, hlists⟩ := hroom.resolve_left hplace
    refine ⟨l.length + 2, fun fuel commFd seqNum => ?_⟩
    exact (h.putLoop_listed hquota hname hvalue hforward hlists).mono
      (fun hfuel => ⟨hfuel.1, hfuel.2.resolve_left hplace⟩) fun s' => id

theorem Good.refused_iff (h : s.Good) :
    s.Refused user value ↔ s.capacity ≤ total (s.filesOf user) + value.length := by
  have hcap := h.sound.small
  rw [Refused, toSize_of_nonneg h.sound.nonneg hcap]
  by_cases hlarge : s.capacity.toNat < value.length
  · exact ⟨fun _ => by omega, fun _ => Or.inl hlarge⟩
  · rw [h.exceedsQuota_iff (by simp only [intMax] at hcap; omega)]
    exact ⟨fun hor => hor.resolve_left hlarge, Or.inr⟩

theorem Good.put_refused (h : s.Good) (hrefused : s.Refused user value) :
    Delivers (0 < fuel) (LRUCache.put fuel s user filename value commFd true seqNum)
      (fun s' => Becomes s s' user (s.filesOf user)) := by
  have hreply : ∀ msg, Becomes s ((s.touched user true false).servermsg msg commFd) user (s.filesOf user) ∧
      Becomes s (s.servermsg msg commFd) user (s.filesOf user) := by
    intro msg
    have hsent : ∀ t : LRUCache, t.Good → Becomes t (t.servermsg msg commFd) user (t.filesOf user) := by
      intro t ht
      refine ⟨ht.congr rfl rfl rfl rfl rfl rfl rfl rfl fun _ => rfl, fun u => ?_, rfl⟩
      have hkept : (t.servermsg msg commFd).filesOf u = t.filesOf u := filesOf_congr rfl (fun _ => rfl) rfl rfl
      rw [hkept]
      split
      · next heq => rw [heq]
      · rfl
    refine ⟨?_, hsent s h⟩
    have htouched := hsent (s.touched user true false) h.touched
    rw [filesOf_touched] at htouched
    exact htouched.of_touched
  rw [LRUCache.put, putWith]
  split
  · exact Delivers.ok (hreply _).2.good.not_filled (hreply _).2
  · next hsmall =>
      have hquota := hrefused.resolve_left hsmall
      cases fuel with
      | zero => exact ⟨fun hfuel => absurd hfuel (Nat.lt_irrefl 0), fun s' hrun _ => absurd hrun (by simp [LRUCache.putLoop])⟩
      | succ fuel =>
          rw [LRUCache.putLoop]
          change Delivers _ (s.putHelper (reload fuel commFd) user filename value commFd true false seqNum >>= _) _
          rw [putHelper_eq, hquota]
          exact Delivers.ok (hreply _).1.good.not_filled (hreply _).1

/-! ### Looking up -/

/-- A user has been looked up: contents are as before, and the user is in memory if it has files. -/
structure Looked (s s' : LRUCache) (user : Str) : Prop where
  good : s'.Good
  filesOf : ∀ u, s'.filesOf u = s.filesOf u
  capacity : s'.capacity = s.capacity
  resident : s.filesOf user ≠ ∅ → ∃ r, s'.tablets[user]? = some r
  same : s.virmemMeta[user]? = none → s'.residentTotal = s.residentTotal
  room : ∀ need : Nat, s.virmemMeta[user]? ≠ none →
    (s.residentTotal : Int) + total (s.filesOf user) + need ≤ s.capacity →
    (s'.residentTotal + need : Int) ≤ s.capacity

theorem Looked.becomes (h : Looked s s' user) : Becomes s s' user (s.filesOf user) := by
  refine ⟨h.good, fun u => ?_, h.capacity⟩
  rw [h.filesOf]
  split
  · next heq => rw [heq]
  · rfl

/-- Behind the loading only pointers and replies change. -/
theorem Looked.relink {L : Links Ref} (h : Looked s t user) (hsound : (t.relink L).Sound)
    (hs' : s' = { t.relink L with sent := s'.sent }) : Looked s s' user := by
  have htotal : s'.residentTotal = t.residentTotal := by
    rw [hs']
    rfl
  have hfiles : ∀ u, s'.filesOf u = t.filesOf u := by
    intro u
    rw [hs']
    exact filesOf_congr rfl (fun _ => rfl) rfl rfl
  refine ⟨⟨?_, ?_, fun u => ?_⟩, fun u => ?_, ?_, fun hne => ?_, fun hnone => ?_, fun need hvirmem hroom => ?_⟩
  · rw [hs']
    exact hsound.congr rfl rfl rfl rfl rfl rfl rfl
  · have hmemory : s'.memoryUsed = t.memoryUsed := by
      rw [hs']
      rfl
    rw [Exact, hmemory, htotal]
    exact h.good.exact
  · have hsized : s'.userSizeOf u = t.userSizeOf u ∧ s'.capacity = t.capacity := by
      rw [hs']
      exact ⟨rfl, rfl⟩
    rw [hsized.1, hsized.2, hfiles]
    exact h.good.sized u
  · rw [hfiles, h.filesOf]
  · rw [← h.capacity, hs']
    rfl
  · obtain ⟨r, hr⟩ := h.resident hne
    exact ⟨r, by rw [hs']; exact hr⟩
  · rw [htotal, h.same hnone]
  · rw [htotal]
    exact h.room need hvirmem hroom

theorem Good.fetched {P : Nat → Prop} (h : s.Good) (hload : s.Loadable user P) :
    Delivers (P fuel) (s.fetched fuel user commFd) (fun t => Looked s t user) := by
  rw [LRUCache.fetched, ExtTreeMap.contains_eq_isSome_getElem?]
  split
  · next hsome =>
      have hvirmem : s.virmemMeta[user]? ≠ none := Option.isSome_iff_ne_none.mp hsome
      have hloads := hload hvirmem fuel commFd
      refine ⟨hloads.returns, fun t hrun hfilled => ?_⟩
      have hfetched := hloads.right t hrun hfilled
      refine ⟨h.of_fetched hfetched, hfetched.filesOf, hfetched.capacity, fun _ => hfetched.resident,
        fun hnone => absurd hnone hvirmem, fun need _ hroom => ?_⟩
      exact ((h.load_roomy need hvirmem hroom).right t hrun hfilled).2
  · next hnone =>
      rw [Bool.not_eq_true, Option.isSome_eq_false_iff, Option.isNone_iff_eq_none] at hnone
      refine Delivers.ok h.not_filled ⟨h, fun _ => rfl, rfl, fun hne => ?_, fun _ => rfl,
        fun need hvirmem => absurd hnone hvirmem⟩
      cases hresident : s.tablets[user]? with
      | some r => exact ⟨r, rfl⟩
      | none => exact absurd (filesOf_unknown ⟨hresident, hnone⟩) hne

theorem Looked.lookUp (h : Looked s t user) (hne : s.filesOf user ≠ ∅) :
    ∃ t', t.lookUp user filename commFd = .ok (s.view user filename, t') ∧ Looked s t' user := by
  obtain ⟨r, hresident⟩ := h.resident hne
  obtain ⟨t', L, hdetach, hmove, hsound⟩ := h.good.sound.detach_moveToTail hresident
  have hvalue : (t.heap r).value = s.filesOf user := by rw [← filesOf_of_resident hresident, h.filesOf]
  rw [lookUp_eq hresident hdetach hmove, hvalue, view]
  refine ⟨_, rfl, ?_⟩
  split
  · exact h.relink hsound rfl
  · exact h.relink hsound rfl

theorem FilledUp.lookUp {found : Option Str} (h : s.Filled)
    (hrun : s.lookUp user filename commFd = .ok (found, s')) : s'.Filled := by
  obtain ⟨r, t₁, t₂, _, hdetach, hmove, _, hs'⟩ := lookUp_ok hrun
  obtain ⟨p, n, _, _, rfl⟩ := detach_ok hdetach
  obtain ⟨L, rfl⟩ := moveToTail_relink hmove
  rw [hs']
  exact h.congr rfl

theorem Good.filesOf_ne_empty (h : s.Good)
    (hknown : ¬ (s.tablets[user]? = none ∧ s.virmemMeta[user]? = none)) : s.filesOf user ≠ ∅ := by
  intro hempty
  cases hresident : s.tablets[user]? with
  | some r =>
      rw [filesOf_of_resident hresident] at hempty
      exact (h.sound.resident user r hresident).2 hempty
  | none => exact (h.sound.filesOf_evicted fun hvirmem => hknown ⟨hresident, hvirmem⟩).2.1 hempty

theorem Good.getHelper {P : Nat → Prop} (h : s.Good) (hload : s.Loadable user P) :
    (P fuel → ∃ t, s.getHelper fuel user filename commFd = .ok (s.view user filename, t) ∧
      Looked s t user) ∧
    ∀ found t, s.getHelper fuel user filename commFd = .ok (found, t) → ¬ t.Filled →
      found = s.view user filename ∧ Looked s t user := by
  by_cases hknown : s.tablets[user]? = none ∧ s.virmemMeta[user]? = none
  · have hlooked : Looked s s user := ⟨h, fun _ => rfl, rfl,
      fun hne => absurd (filesOf_unknown hknown) hne, fun _ => rfl,
      fun need hvirmem => absurd hknown.2 hvirmem⟩
    have hnone : s.view user filename = none := by
      rw [view, filesOf_unknown hknown]
      exact ExtTreeMap.getElem?_empty
    have hsent : Looked s (s.servermsg "-ERR User not exist\r\n" commFd) user :=
      hlooked.relink (L := s.links) (h.sound.congr rfl rfl rfl rfl rfl rfl rfl) rfl
    rw [getHelper_of_unknown hknown.1 hknown.2, hnone]
    refine ⟨fun _ => ⟨_, rfl, hsent⟩, fun found t hrun _ => ?_⟩
    obtain ⟨rfl, rfl⟩ := Prod.mk.inj (Except.ok.inj hrun)
    exact ⟨rfl, hsent⟩
  · have hne := h.filesOf_ne_empty hknown
    have hfetched : Delivers (P fuel) (s.fetched fuel user commFd) (fun t => Looked s t user) := h.fetched hload
    rw [getHelper_of_known hknown]
    refine ⟨fun hfuel => ?_, fun found t' hrun hfilled => ?_⟩
    · obtain ⟨t, hfetch, hfull⟩ := hfetched.returns hfuel
      rw [hfetch, Run.ok_bind]
      exact (hfetched.right t hfetch hfull).lookUp hne
    · obtain ⟨t, hfetch, hlook⟩ := Run.bind_eq_ok.mp hrun
      have ht := hfetched.right t hfetch fun hfull => hfilled (hfull.lookUp hlook)
      obtain ⟨t'', hlook', hlooked⟩ : ∃ t'', t.lookUp user filename commFd = .ok (s.view user filename, t'') ∧
          Looked s t'' user := ht.lookUp hne
      obtain ⟨rfl, rfl⟩ := Prod.mk.inj (Except.ok.inj (hlook.symm.trans hlook'))
      exact ⟨rfl, hlooked⟩

theorem Good.bind_getHelper {P : Nat → Prop} {f : Option Str × LRUCache → Except Fault LRUCache}
    {Q : LRUCache → Prop} (h : s.Good) (hload : s.Loadable user P)
    (hf : ∀ t, Looked s t user → Delivers (P fuel) (f (s.view user filename, t)) Q)
    (hkept : ∀ found t s', t.Filled → f (found, t) = .ok s' → s'.Filled) :
    Delivers (P fuel) (s.getHelper fuel user filename commFd >>= f) Q := by
  obtain ⟨hreturns, hright⟩ := h.getHelper hload
  refine ⟨fun hfuel => ?_, fun s' hrun hfilled => ?_⟩
  · obtain ⟨t, hget, hlooked⟩ := hreturns hfuel
    rw [hget, Run.ok_bind]
    exact (hf t hlooked).returns hfuel
  · obtain ⟨⟨found, t⟩, hget, hrun⟩ := Run.bind_eq_ok.mp hrun
    obtain ⟨rfl, hlooked⟩ := hright found t hget fun hfull => hfilled (hkept found t s' hfull hrun)
    exact (hf t hlooked).right s' hrun hfilled

end PennCloud.LRUCache
