import PennCloud.Kv.Proof.Commands

/-!
# Erasing, renaming and exchanging

Each looks a file up and then changes the node of a resident user. The counters follow when a rename
does not hit another file and an exchange is stored.
-/

namespace PennCloud.LRUCache

open DList Std

variable {s s' t : LRUCache} {user filename value u : Str} {r p x n : Ref} {files : Map Str}
  {fuel : Nat} {commFd seqNum : Int} {P : Nat → Prop}

theorem Becomes.trans_looked (h : Looked s t user) (hbecomes : Becomes t s' user files) :
    Becomes s s' user files :=
  ⟨hbecomes.good, fun u => by rw [hbecomes.filesOf, h.filesOf], hbecomes.capacity.trans h.capacity⟩

theorem Looked.exists_resident (h : Looked s t user) (hview : s.view user filename = some value) :
    ∃ r, t.tablets[user]? = some r ∧ (t.heap r).value = s.filesOf user := by
  have hne : s.filesOf user ≠ ∅ := by
    intro hempty
    rw [view, hempty] at hview
    simp at hview
  obtain ⟨r, hr⟩ := h.resident hne
  exact ⟨r, hr, by rw [← filesOf_of_resident hr, h.filesOf]⟩

theorem Good.get (h : s.Good) (hload : s.Loadable user P) :
    Delivers (P fuel) (LRUCache.get fuel s user filename commFd)
      (fun s' => Becomes s s' user (s.filesOf user)) := by
  refine h.bind_getHelper hload (fun t ht => ?_) fun found t s' hfilled hrun => ?_
  · cases s.view user filename with
    | none => exact Delivers.ok ht.good.not_filled ht.becomes
    | some value =>
        have hsent : Looked s ((t.servermsg "+OK value as follows: \r\n" commFd).send commFd value) user :=
          ht.relink (L := t.links) (ht.good.sound.congr rfl rfl rfl rfl rfl rfl rfl) rfl
        exact Delivers.ok hsent.good.not_filled hsent.becomes
  · cases found with
    | none => exact Except.ok.inj hrun ▸ hfilled
    | some value => exact Except.ok.inj hrun ▸ hfilled.congr rfl

/-! ### Erasing -/

/-- A resident user without files has no entry in the tablets any more. -/
theorem Sound.emptied (h : s.Sound) (hresident : s.tablets[user]? = some r) (files : Map Str) :
    ({ s.setValue r files with tablets := s.tablets.erase user } : LRUCache).Sound where
  tidy := by
    refine ⟨fun u x hu => ?_, fun u x hu => ?_, fun u x hu => ?_⟩
    all_goals obtain ⟨_, hu⟩ := erase_getElem? hu
    · exact h.tidy.allocated u x hu
    · exact setValue_key.trans (h.tidy.keyed u x hu)
    · exact h.tidy.disjoint u x hu
  pointed := by
    have hpointed := h.pointed
    rw [← links_setValue (r := r) files] at hpointed
    exact hpointed
  nonneg := h.nonneg
  small := h.small
  resident u x hu := by
    obtain ⟨hne, hu⟩ := erase_getElem? hu
    have hvalue : ((s.setValue r files).heap x).value = (s.heap x).value :=
      setValue_value_other h.tidy hresident hu hne
    change Plain ((s.setValue r files).heap x).value ∧ ((s.setValue r files).heap x).value ≠ ∅
    rw [hvalue]
    exact h.resident u x hu
  evicted := h.evicted
  chunk := by
    obtain ⟨fill, hat, hfill⟩ := h.chunk
    exact ⟨fill, ⟨hat.info, hat.length⟩, hfill⟩

/-- The two ways `dele` leaves the user: with other files, or gone. -/
theorem Good.fileErased (h : s.Good) (hresident : s.tablets[user]? = some r)
    (hget : (s.filesOf user)[filename]? = some value) :
    (s.fileErased user filename r).Sound ∧
      (∀ u, (s.fileErased user filename r).filesOf u =
        if user = u then (s.filesOf user).erase filename else s.filesOf u) ∧
      (s.fileErased user filename r).residentTotal + value.length = s.residentTotal := by
  refine ⟨?_, fun u => filesOf_fileErased h.sound.tidy hresident, residentTotal_fileErased h.sound.tidy hresident hget⟩
  by_cases hempty : ((s.heap r).value.erase filename).isEmpty = true
  · have htablets : (s.fileErased user filename r).tablets = s.tablets.erase user := by
      rw [LRUCache.fileErased, if_pos hempty]
    exact (h.sound.emptied hresident ((s.heap r).value.erase filename)).congr rfl rfl htablets rfl rfl rfl rfl
  · have htablets : (s.fileErased user filename r).tablets = s.tablets := by
      rw [LRUCache.fileErased, if_neg hempty]
    have hne : (s.heap r).value.erase filename ≠ ∅ := fun heq => hempty (ExtTreeMap.isEmpty_iff.mpr heq)
    have hplain : Plain ((s.heap r).value.erase filename) := (h.sound.resident user r hresident).1.erase
    exact (h.sound.setValue hresident hplain hne).congr rfl rfl htablets rfl rfl rfl rfl

theorem discharged_userSizeOf (size : Int) (u : Str) : (s.discharged user size).userSizeOf u =
    if user = u then toInt32 (s.userSizeOf user - size) else s.userSizeOf u := by
  change (s.userSize.insert user (toInt32 (s.userSizeOf user - size))).getD u 0 = _
  rw [ExtTreeMap.getD_eq_getD_getElem?, SortedMap.getElem?_insert_eq]
  split
  · rfl
  · rw [userSizeOf, ExtTreeMap.getD_eq_getD_getElem?]

theorem Good.becomes_fileErased (h : s.Good) (hresident : s.tablets[user]? = some r)
    (hget : (s.filesOf user)[filename]? = some value) (sent : List (Int × Str)) :
    Becomes s { s.fileErased user filename r with sent := sent } user
      ((s.filesOf user).erase filename) := by
  obtain ⟨hsound, hfiles, hresidentTotal⟩ := h.fileErased hresident hget
  have hsplit := total_of_getElem? hget
  have htotal := h.total_le user
  have hsize : (s.heap r).value.getD filename [] = value := by
    rw [filesOf_of_resident hresident] at hget
    rw [ExtTreeMap.getD_eq_getD_getElem?, hget]
    rfl
  refine h.account (-value.length) (hsound.congr rfl rfl rfl rfl rfl rfl rfl) ?_ (fun u => ?_) rfl
    (fun u => ?_) (by omega) (by omega)
  · have hmemory : (s.fileErased user filename r).memoryUsed = toInt32 (s.memoryUsed - value.length) := by
      rw [← hsize]
      rfl
    have hexact : (s.fileErased user filename r).Exact := by
      rw [Exact, hmemory, h.exact, toInt32_sub_toInt32, ← hresidentTotal, Int.natCast_add,
        Int.add_sub_cancel]
    exact hexact
  · rw [← hfiles u]
    exact filesOf_congr rfl (fun _ => rfl) rfl rfl
  · rw [← sub_eq_add_neg, ← discharged_userSizeOf, ← hsize]
    rfl

theorem Good.dele {isMigration : Bool} (h : s.Good) (hload : s.Loadable user P) :
    Delivers (P fuel) (LRUCache.dele fuel s user filename commFd seqNum isMigration)
      (fun s' => Becomes s s' user ((s.filesOf user).erase filename)) := by
  rw [dele_eq]
  refine h.bind_getHelper hload (fun t ht => ?_) fun found t s' hfilled hrun => ?_
  · cases hview : s.view user filename with
    | none =>
        have hsame : (s.filesOf user).erase filename = s.filesOf user := SortedMap.erase_eq_self hview
        rw [hsame]
        exact Delivers.ok ht.good.not_filled ht.becomes
    | some value =>
        obtain ⟨r, hresident, _⟩ := ht.exists_resident hview
        have hget : (t.filesOf user)[filename]? = some value := by rw [ht.filesOf, ← hview, view]
        obtain ⟨sent, herase⟩ : ∃ sent, t.eraseFile user filename commFd seqNum isMigration =
            .ok { t.fileErased user filename r with sent := sent } := eraseFile_eq hresident
        change Delivers _ (t.eraseFile user filename commFd seqNum isMigration) _
        rw [herase]
        have hbecomes := ht.good.becomes_fileErased hresident hget sent
        rw [ht.filesOf] at hbecomes
        exact Delivers.ok hbecomes.good.not_filled (hbecomes.trans_looked ht)
  · cases found with
    | none => exact Except.ok.inj hrun ▸ hfilled
    | some value =>
        obtain ⟨r, hr, _⟩ := Run.bind_eq_ok.mp hrun
        obtain ⟨sent, herase⟩ := eraseFile_eq (deref_eq_ok.mp hr)
        obtain rfl := Except.ok.inj (herase.symm.trans hrun)
        exact hfilled.congr rfl

/-! ### Renaming -/

theorem total_move {newFilename : Str} (hget : files[filename]? = some value)
    (hfree : newFilename = filename ∨ files[newFilename]? = none) :
    total ((files.erase filename).insert newFilename value) = total files := by
  have hnone : (files.erase filename)[newFilename]? = none := by
    rw [SortedMap.getElem?_erase_eq]
    rcases hfree with rfl | hnone
    · rw [if_pos rfl]
    · rw [hnone, ite_self]
  rw [total_insert, SortedMap.erase_eq_self hnone, total_of_getElem? hget]

/-- The new name is the old one, or none of the user's. -/
def FreeName (s : LRUCache) (user filename newFilename : Str) : Prop :=
  ',' ∉ newFilename ∧ (newFilename = filename ∨ s.view user newFilename = none)

theorem Good.becomes_moved {newFilename : Str} (h : s.Good) (hresident : s.tablets[user]? = some r)
    (hget : (s.filesOf user)[filename]? = some value) (hfree : s.FreeName user filename newFilename)
    (sent : List (Int × Str)) :
    Becomes s { s.setValue r (((s.heap r).value.erase filename).insert newFilename value) with sent := sent }
      user (((s.filesOf user).erase filename).insert newFilename value) := by
  have hmoved := total_move hget hfree.2
  have htotal := h.total_le user
  have hplain : Plain (((s.filesOf user).erase filename).insert newFilename value) :=
    (h.sound.plain user).erase.insert hfree.1 ((h.sound.plain user).values filename value hget)
  have hfilesOf : (s.heap r).value = s.filesOf user := (filesOf_of_resident hresident).symm
  rw [hfilesOf]
  have hsound := h.sound.setValue hresident hplain insert_ne_empty
  refine h.account 0 (hsound.congr rfl rfl rfl rfl rfl rfl rfl) ?_ (fun u => ?_) rfl
    (fun u => ?_) (by rw [hmoved, Int.add_zero]) (by rw [hmoved]; exact htotal)
  · have hresidentTotal : (s.setValue r (((s.filesOf user).erase filename).insert newFilename value)).residentTotal =
        s.residentTotal := by
      rw [residentTotal_setValue h.sound.tidy hresident, hmoved, residentTotal_of_resident hresident, hfilesOf]
    have hexact : (s.setValue r (((s.filesOf user).erase filename).insert newFilename value)).Exact := by
      rw [Exact, hresidentTotal]
      exact h.exact
    exact hexact
  · rw [← filesOf_setValue h.sound.tidy hresident]
    exact filesOf_congr rfl (fun _ => rfl) rfl rfl
  · have hsmall := h.sound.small
    change s.userSizeOf u = _
    split
    · next heq =>
        rw [← heq, Int.add_zero, (h.sized user).1, toInt32_of_range (by simp only [intMax]; omega) (by omega)]
    · rfl

theorem Good.rename {newFilename : Str} (h : s.Good) (hload : s.Loadable user P)
    (hfree : s.view user filename ≠ none → s.FreeName user filename newFilename) :
    Delivers (P fuel) (LRUCache.rename fuel s user filename newFilename commFd seqNum)
      (fun s' => Becomes s s' user (match s.view user filename with
        | some value => ((s.filesOf user).erase filename).insert newFilename value
        | none => s.filesOf user)) := by
  rw [rename_eq]
  refine h.bind_getHelper hload (fun t ht => ?_) fun found t s' hfilled hrun => ?_
  · cases hview : s.view user filename with
    | none => exact Delivers.ok ht.good.not_filled ht.becomes
    | some value =>
        obtain ⟨r, hresident, _⟩ := ht.exists_resident hview
        have hget : (t.filesOf user)[filename]? = some value := by rw [ht.filesOf, ← hview, view]
        have hfree' : t.FreeName user filename newFilename := by
          rw [FreeName, view, ht.filesOf]
          exact hfree (hview ▸ Option.some_ne_none value)
        obtain ⟨sent, hmove⟩ : ∃ sent, t.moveFile user filename newFilename value commFd seqNum =
            .ok { t.setValue r (((t.heap r).value.erase filename).insert newFilename value) with sent := sent } :=
          moveFile_eq hresident
        change Delivers _ (t.moveFile user filename newFilename value commFd seqNum) _
        rw [hmove]
        have hbecomes := ht.good.becomes_moved hresident hget hfree' sent
        rw [ht.filesOf] at hbecomes
        exact Delivers.ok hbecomes.good.not_filled (hbecomes.trans_looked ht)
  · cases found with
    | none => exact Except.ok.inj hrun ▸ hfilled
    | some value =>
        obtain ⟨r, hr, _⟩ := Run.bind_eq_ok.mp hrun
        obtain ⟨sent, hmove⟩ := moveFile_eq (deref_eq_ok.mp hr)
        obtain rfl := Except.ok.inj (hmove.symm.trans hrun)
        exact hfilled.congr rfl

/-! ### Exchanging -/

/-- The bytes in memory once the files of a user are there. -/
def loadedTotal (s : LRUCache) (user : Str) : Nat :=
  s.residentTotal + if s.virmemMeta[user]? = none then 0 else total (s.filesOf user)

/-- An exchange whose old value is the stored one is within the quota and fits into memory. -/
def Exchanges (s : LRUCache) (user filename oldValue newValue : Str) : Prop :=
  s.view user filename = some oldValue →
    ',' ∉ newValue ∧ s.Roomy user ∧
      (total (s.filesOf user) : Int) + newValue.length < s.capacity + oldValue.length ∧
      (s.loadedTotal user : Int) + newValue.length ≤ s.capacity + oldValue.length

section Discharged

variable {size : Int} {external isCPUT : Bool}

theorem filesOf_discharged : (s.discharged user size).filesOf u = s.filesOf u :=
  filesOf_congr rfl (fun _ => rfl) rfl rfl

theorem Sound.discharged (h : s.Sound) : (s.discharged user size).Sound :=
  h.congr rfl rfl rfl rfl rfl rfl rfl

theorem Sound.touched (h : s.Sound) : (s.touched user external isCPUT).Sound :=
  h.congr (touched_heap ..) (touched_nodes ..) (touched_tablets ..) (touched_virmemMeta ..)
    (congrArg Disk.files (touched_disk ..)) (touched_chunkInfo ..) (touched_capacity ..)

end Discharged

theorem Good.becomes_exchanged {oldValue newValue : Str} (h : s.Good)
    (hget : (s.filesOf user)[filename]? = some oldValue)
    (hquota : (total (s.filesOf user) : Int) + newValue.length ≤ s.capacity + oldValue.length)
    (hreplaced : Replaced ((s.discharged user oldValue.length).touched user true true) t user r p
      ((s.filesOf user).insert filename newValue)) :
    Becomes s (t.charged user newValue commFd true true seqNum) user
      ((s.filesOf user).insert filename newValue) := by
  have hsplit := total_of_getElem? hget
  have htotal := total_insert (s.filesOf user) filename newValue
  have hcapacity : t.capacity = s.capacity := by
    rw [hreplaced.capacity, touched_capacity]
    rfl
  have hresidentTotal : t.residentTotal + oldValue.length = s.residentTotal + newValue.length := by
    have hmoved := hreplaced.residentTotal
    rw [residentTotal_touched, filesOf_touched, filesOf_discharged] at hmoved
    have hsame : (s.discharged user oldValue.length).residentTotal = s.residentTotal := rfl
    omega
  have hsizes : ∀ u, t.userSizeOf u =
      if user = u then toInt32 (s.userSizeOf user - oldValue.length) else s.userSizeOf u := by
    intro u
    have hkept : t.userSizeOf u = ((s.discharged user oldValue.length).touched user true true).userSizeOf u := by
      rw [userSizeOf, hreplaced.userSize, userSizeOf]
    rw [hkept, touched_userSizeOf, discharged_userSizeOf]
  refine h.account ((newValue.length : Int) - oldValue.length) hreplaced.sound.charged ?_ (fun u => ?_)
    ((charged_capacity ..).trans hcapacity) (fun u => ?_) (by omega) (by omega)
  · have hmemory : t.memoryUsed = toInt32 (s.memoryUsed - oldValue.length) := by
      rw [hreplaced.memoryUsed, touched_memoryUsed]
      rfl
    rw [Exact, charged_memoryUsed, residentTotal_charged, hmemory, h.exact, toInt32_sub_toInt32,
      toInt32_add_toInt32]
    congr 1
    omega
  · rw [filesOf_charged, hreplaced.filesOf, filesOf_touched, filesOf_discharged]
  · rw [charged_userSizeOf, hsizes, hsizes, if_pos rfl, toInt32_add_toInt32]
    split
    · congr 1
      omega
    · rfl

theorem Good.exchange {load : LRUCache → Str → Except Fault LRUCache} {oldValue newValue : Str} (h : s.Good)
    (hresident : s.tablets[user]? = some r) (hget : (s.filesOf user)[filename]? = some oldValue)
    (hnew : ',' ∉ newValue)
    (hquota : (total (s.filesOf user) : Int) + newValue.length < s.capacity + oldValue.length)
    (hroom : (s.residentTotal : Int) + newValue.length ≤ s.capacity + oldValue.length) :
    ∃ s', (s.discharged user oldValue.length).putHelper load user filename newValue commFd true true seqNum =
        .ok (true, s') ∧ Becomes s s' user ((s.filesOf user).insert filename newValue) := by
  have hsmall := h.sound.small
  have hnonneg := h.sound.nonneg
  have hsplit := total_of_getElem? hget
  have htotal := h.total_le user
  have hresidentTotal := residentTotal_of_resident hresident
  rw [← filesOf_of_resident hresident] at hresidentTotal
  have hlength : newValue.length < 2 ^ 63 := by
    simp only [intMax] at hsmall
    omega
  have hbelow : (s.discharged user oldValue.length).exceedsQuota user newValue = false := by
    have hsize : (s.discharged user oldValue.length).userSizeOf user =
        (total (s.filesOf user) : Int) - oldValue.length := by
      rw [discharged_userSizeOf, if_pos rfl, (h.sized user).1,
        toInt32_of_range (by simp only [intMax]; omega) (by omega)]
    rw [exceedsQuota, decide_eq_false_iff_not, hsize]
    change ¬ toSize s.capacity ≤ _
    rw [toSize_of_nonneg hnonneg hsmall, sizeAdd_of_nonneg (by omega) (by omega) hlength]
    omega
  have hfits : (s.discharged user oldValue.length).fits newValue = true := by
    have hmemory : (s.discharged user oldValue.length).memoryUsed =
        (s.residentTotal : Int) - oldValue.length := by
      change toInt32 (s.memoryUsed - oldValue.length) = _
      rw [h.exact, toInt32_sub_toInt32, toInt32_of_range (by simp only [intMax]; omega) (by omega)]
    have hcap : (s.discharged user oldValue.length).capacity = s.capacity := rfl
    rw [fits_iff (by omega) (by omega) (by omega) (by omega), hmemory, hcap]
    · omega
    · rw [hcap, toSize_of_nonneg hnonneg hsmall]
      omega
  have hsound : ((s.discharged user oldValue.length).touched user true true).Sound :=
    h.sound.discharged.touched
  have hresident' : ((s.discharged user oldValue.length).touched user true true).tablets[user]? = some r := by
    rw [touched_tablets]
    exact hresident
  have hfiles' : ∀ u, ((s.discharged user oldValue.length).touched user true true).filesOf u = s.filesOf u :=
    fun u => by rw [filesOf_touched, filesOf_discharged]
  obtain ⟨t, p, _, hstore, _, hreplaced⟩ : ∃ t p,
      ((s.discharged user oldValue.length).touched user true true).links.prev .tail = some p ∧
      ((s.discharged user oldValue.length).touched user true true).storeResident user filename
        (fun _ => newValue) = .ok t ∧ _ ∧
      Replaced ((s.discharged user oldValue.length).touched user true true) t user r p
        ((((s.discharged user oldValue.length).touched user true true).filesOf user).insert filename
          newValue) :=
    hsound.storeResident hresident' ((h.sound.plain user).names filename oldValue hget) hnew
  rw [hfiles'] at hreplaced
  have hplace : ((s.discharged user oldValue.length).touched user true true).placeValue load user filename
      newValue true = .ok t := by
    rw [placeValue_held hresident' (hsound.tidy.disjoint user r hresident')]
    exact hstore
  refine ⟨t.charged user newValue commFd true true seqNum, ?_, h.becomes_exchanged hget (by omega) hreplaced⟩
  rw [putHelper_eq, hbelow, hfits, hplace]
  rfl

theorem Good.cput {oldValue newValue : Str} (h : s.Good) (hload : s.Loadable user P)
    (hexchange : s.Exchanges user filename oldValue newValue) :
    Delivers (P fuel) (LRUCache.cput fuel s user filename oldValue newValue commFd seqNum)
      (fun s' => Becomes s s' user (if s.view user filename = some oldValue then
        (s.filesOf user).insert filename newValue else s.filesOf user)) := by
  rw [cput_eq]
  refine h.bind_getHelper hload (fun t ht => ?_) fun found t s' hfilled hrun => ?_
  · cases hview : s.view user filename with
    | none => exact Delivers.ok ht.good.not_filled ht.becomes
    | some value =>
        simp only [Option.some.injEq]
        split
        · next heq =>
            subst heq
            obtain ⟨hnew, hroomy, hquota, hroom⟩ := hexchange hview
            obtain ⟨r, hresident, _⟩ := ht.exists_resident hview
            have hget : (t.filesOf user)[filename]? = some value := by rw [ht.filesOf, ← hview, view]
            have hvalue : value.length ≤ total (s.filesOf user) := by
              have hsplit := total_of_getElem? hview
              omega
            have hfree : (t.residentTotal : Int) + newValue.length ≤ t.capacity + value.length := by
              rw [ht.capacity]
              rw [loadedTotal] at hroom
              split at hroom
              · next hnone =>
                  rw [ht.same hnone]
                  omega
              · next hvirmem =>
                  have hloaded := hroomy hvirmem
                  have hneed := ht.room (newValue.length - value.length) hvirmem (by omega)
                  omega
            have hquota' : (total (t.filesOf user) : Int) + newValue.length < t.capacity + value.length := by
              rw [ht.filesOf, ht.capacity]
              exact hquota
            obtain ⟨s', hput, hbecomes⟩ : ∃ s', (t.discharged user value.length).putHelper (reload fuel commFd)
                user filename newValue commFd true true seqNum = .ok (true, s') ∧
                Becomes t s' user ((t.filesOf user).insert filename newValue) :=
              ht.good.exchange hresident hget hnew hquota' hfree
            rw [hput, Run.ok_bind]
            rw [ht.filesOf] at hbecomes
            exact Delivers.ok hbecomes.good.not_filled (hbecomes.trans_looked ht)
        · next hne =>
            have hsent : Looked s (t.servermsg "-ERR Version check fail\r\n" commFd) user :=
              ht.relink (L := t.links) (ht.good.sound.congr rfl rfl rfl rfl rfl rfl rfl) rfl
            exact Delivers.ok hsent.good.not_filled hsent.becomes
  · cases found with
    | none => exact Except.ok.inj hrun ▸ hfilled
    | some value =>
        dsimp only at hrun
        split at hrun
        · obtain ⟨⟨stored, t'⟩, hput, hrun⟩ := Run.bind_eq_ok.mp hrun
          obtain rfl := Except.ok.inj hrun
          refine (kept_filled user).putHelper (fun s s' hs hrun => ?_) ?_ trivial hput
          · exact (kept_filled user).loadUserFromDisk hs hrun
          · exact hfilled.congr rfl
        · exact Except.ok.inj hrun ▸ hfilled.congr rfl

end PennCloud.LRUCache
