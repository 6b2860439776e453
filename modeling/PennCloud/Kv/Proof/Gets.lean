import PennCloud.Kv.Proof.Evictions
import PennCloud.Kv.Spec

/-!
# What a get sends

Loading a user sends nothing as long as it loses nothing: the values of its row are not too large, since
the way for all of them is open. So a get sends what a client of the store expects, and nothing else.
-/

namespace PennCloud.LRUCache

open DList Std

variable {s s' t : LRUCache} {user filename value u : Str} {r p x n : Ref} {files : Map Str} {way : Way}
  {fuel need : Nat} {commFd seqNum : Int} {isCPUT : Bool} {load : LRUCache → Str → Except Fault LRUCache}

/-! ### Loading -/

theorem sent_placeValue (hvirmem : s.virmemMeta[user]? = none)
    (hrun : s.placeValue load user filename value isCPUT = .ok t) : t.sent = s.sent := by
  cases hresident : s.tablets[user]? with
  | none =>
      rw [placeValue_unknown hresident hvirmem] at hrun
      obtain ⟨p, _, rfl⟩ := insertUser_ok hrun
      rfl
  | some r =>
      rw [placeValue_held hresident hvirmem] at hrun
      obtain ⟨_, _, hrun⟩ := Run.bind_eq_ok.mp hrun
      obtain ⟨L, rfl⟩ := moveToTail_relink hrun
      rfl

theorem sent_useVirtualMemory (hrun : s.useVirtualMemory = .ok t) : t.sent = s.sent := by
  obtain ⟨x, n, t, _, _, hwrite, rfl⟩ := useVirtualMemory_ok hrun
  exact (chunkStep_writeToChunkWith hwrite).sent

theorem Sound.sent_putLoop (h : s.Sound) (hexact : s.Exact) (hbuilding : s.Building user files)
    (hopen : way.Open s user files (value.length + need))
    (hrun : putLoop fuel s user filename value commFd false seqNum = .ok s') (hfilled : ¬ s'.Filled) :
    s'.sent = s.sent := by
  induction fuel generalizing s way with
  | zero => exact absurd hrun (by simp [putLoop])
  | succ fuel ih =>
      rw [putLoop_internal_succ] at hrun
      by_cases hfits : s.fits value = true
      · rw [if_pos hfits] at hrun
        obtain ⟨t, hplace, hadd⟩ := Run.bind_eq_ok.mp hrun
        obtain rfl := Except.ok.inj hadd
        have hsent : t.sent = s.sent := sent_placeValue hbuilding.virmem hplace
        exact hsent
      · rw [if_neg hfits] at hrun
        rw [Bool.not_eq_true] at hfits
        obtain ⟨x, others, rfl⟩ := Way.exists_other h.tidy h.nonneg h.small hexact hbuilding hopen hfits
        obtain ⟨t, hevict, hrest⟩ := Run.bind_eq_ok.mp hrun
        rcases h.evictFirst hexact hopen.1 hopen.2.1 with ⟨t', hevict', hevicted⟩ | ⟨hfull, _⟩
        · obtain rfl : t' = t := Except.ok.inj (hevict'.symm.trans hevict)
          obtain ⟨hbuilding', hopen', _⟩ := hevicted.open hbuilding hopen
          exact (ih hevicted.sound hevicted.exact hbuilding' hopen' hrest).trans (sent_useVirtualMemory hevict)
        · exact absurd ((kept_filled user).putLoop (hfull t hevict) trivial hrest) hfilled

theorem Sound.sent_restore (pairs : List (Str × Str)) (hpairs : ∀ file ∈ pairs, ',' ∉ file.1 ∧ ',' ∉ file.2)
    (h : s.Sound) (hexact : s.Exact) (hbuilding : s.Building user files)
    (hopen : way.Open s user files (bytesOf pairs + need))
    (hrun : pairs.foldlM (fun s file => put fuel s user file.1 file.2 commFd false 0) s = .ok s')
    (hfilled : ¬ s'.Filled) : s'.sent = s.sent := by
  induction pairs generalizing s files way with
  | nil => exact Except.ok.inj hrun ▸ rfl
  | cons file pairs ih =>
      rw [bytesOf_cons, Nat.add_assoc] at hopen
      rw [List.foldlM_cons] at hrun
      obtain ⟨t, hput, hrest⟩ := Run.bind_eq_ok.mp hrun
      have hlength := hopen.length_le h.nonneg h.small
      have hloop := (put_ok hput).resolve_left fun hlarge => absurd hlarge.1 (Nat.not_lt.mpr hlength)
      have ht : ¬ t.Filled := fun hfull => hfilled <| Run.foldlM_invariant (P := Filled)
        (fun s file s' _ hs hrun => (kept_filled user).put hs trivial hrun) hfull hrest
      obtain ⟨hname, hvalue⟩ := hpairs file List.mem_cons_self
      obtain ⟨hloading, way', hopen', _⟩ :=
        (h.putLoop_internal hexact hbuilding hname hvalue hopen).right t hloop.2 ht
      have hsent := ih (fun file hfile => hpairs file (List.mem_cons_of_mem _ hfile)) hloading.sound hloading.exact
        hloading.building hopen' hrest
      exact hsent.trans (h.sent_putLoop hexact hbuilding hopen hloop.2 ht)

theorem Sound.sent_loadUserFromDisk (h : s.Sound) (hexact : s.Exact) (hvirmem : s.virmemMeta[user]? ≠ none)
    (hopen : way.Open s user ∅ (total (s.filesOf user) + need))
    (hrun : LRUCache.loadUserFromDisk fuel s .virtualMemory user commFd = .ok s') (hfilled : ¬ s'.Filled) :
    s'.sent = s.sent := by
  obtain ⟨hplain, _, hrecorded⟩ := h.filesOf_evicted hvirmem
  have habsent := h.tidy.absent_of_virmem hvirmem
  have hread : readRow s.disk .virtualMemory ((s.metaOf .virtualMemory).getD user []) =
      .ok (rowOf (s.filesOf user)) := hrecorded.readRow
  obtain ⟨row, hrow, hrestore⟩ := Run.bind_eq_ok.mp hrun
  obtain rfl : rowOf (s.filesOf user) = row := Except.ok.inj (hread.symm.trans hrow)
  rw [restoreUserWith, pairs_rowOf hplain.names hplain.values] at hrestore
  have hbuilding : (s.clearMetadata .virtualMemory user).Building user ∅ :=
    ⟨Or.inl ⟨habsent, rfl⟩, clearMetadata_getElem?.trans (if_pos rfl), h.exists_prev⟩
  have hpairs : ∀ file ∈ (s.filesOf user).toList, ',' ∉ file.1 ∧ ',' ∉ file.2 := by
    intro file hfile
    have hget : (s.filesOf user)[file.1]? = some file.2 := ExtTreeMap.mem_toList_iff_getElem?_eq_some.mp hfile
    exact ⟨hplain.names _ _ hget, hplain.values _ _ hget⟩
  have hopen' : way.Open (s.clearMetadata .virtualMemory user) user ∅
      (bytesOf (s.filesOf user).toList + need) := by
    rw [← total_eq_bytesOf]
    cases way <;> exact hopen
  have hcleared : (s.clearMetadata .virtualMemory user).Exact := hexact
  have hsent : s'.sent = (s.clearMetadata .virtualMemory user).sent :=
    h.clearMetadata.sent_restore _ hpairs hcleared hbuilding hopen' hrestore hfilled
  exact hsent

theorem Good.exists_way (h : s.Good) (hroom : s.Roomy user ∨ s.InOrder) (hvirmem : s.virmemMeta[user]? ≠ none) :
    ∃ way : Way, way.Open s user ∅ (total (s.filesOf user) + 0) := by
  rcases hroom with hroomy | ⟨l, hforward, hlists⟩
  · refine ⟨.room, ?_⟩
    have hroom := hroomy hvirmem
    change (s.residentTotal + (total (s.filesOf user) + 0 : Nat) : Int) ≤ s.capacity
    omega
  · refine ⟨.listed l, ?_⟩
    have htotal := h.total_le user
    rw [Way.Open, h.sound.tidy.absent_of_virmem hvirmem, Option.toList_none, List.append_nil, total_empty]
    exact ⟨hforward, hlists, by omega⟩

theorem Good.sent_fetched (h : s.Good) (hroom : s.Roomy user ∨ s.InOrder)
    (hrun : s.fetched fuel user commFd = .ok t) (hfilled : ¬ t.Filled) : t.sent = s.sent := by
  rw [LRUCache.fetched, ExtTreeMap.contains_eq_isSome_getElem?] at hrun
  split at hrun
  · next hsome =>
      have hvirmem : s.virmemMeta[user]? ≠ none := Option.isSome_iff_ne_none.mp hsome
      obtain ⟨way, hopen⟩ := h.exists_way hroom hvirmem
      exact h.sound.sent_loadUserFromDisk h.exact hvirmem hopen hrun hfilled
  · exact Except.ok.inj hrun ▸ rfl

/-! ### The reply -/

/-- What `get_helper` sends when it finds no file. -/
def missed (files : Map Str) : Option Str → List Str
  | some _ => []
  | none => [Store.missing files]

theorem Good.sent_getHelper {found : Option Str} (h : s.Good) (hroom : s.Roomy user ∨ s.InOrder)
    (hrun : s.getHelper fuel user filename commFd = .ok (found, t)) (hfilled : ¬ t.Filled) :
    found = s.view user filename ∧
      t.sent = s.sent ++ (missed (s.filesOf user) (s.view user filename)).map (commFd, ·) := by
  obtain ⟨depth, hload⟩ := h.loadable hroom
  have hfound := ((h.getHelper hload).2 found t hrun hfilled).1
  refine ⟨hfound, ?_⟩
  by_cases hknown : s.tablets[user]? = none ∧ s.virmemMeta[user]? = none
  · rw [getHelper_of_unknown hknown.1 hknown.2] at hrun
    obtain ⟨rfl, rfl⟩ := Prod.mk.inj (Except.ok.inj hrun)
    have hempty : (s.filesOf user).isEmpty = true := ExtTreeMap.isEmpty_iff.mpr (filesOf_unknown hknown)
    rw [← hfound, missed, Store.missing, if_pos hempty]
    rfl
  · have hfiles : ¬ (s.filesOf user).isEmpty = true := fun hempty =>
      h.filesOf_ne_empty hknown (ExtTreeMap.isEmpty_iff.mp hempty)
    rw [getHelper_of_known hknown] at hrun
    obtain ⟨t₀, hfetch, hlook⟩ := Run.bind_eq_ok.mp hrun
    have hsent := h.sent_fetched hroom hfetch fun hfull => hfilled (hfull.lookUp hlook)
    obtain ⟨r, _, hlook⟩ := Run.bind_eq_ok.mp hlook
    obtain ⟨t₁, hdetach, hlook⟩ := Run.bind_eq_ok.mp hlook
    obtain ⟨t₂, hmove, hlook⟩ := Run.bind_eq_ok.mp hlook
    obtain ⟨p, n, _, _, rfl⟩ := detach_ok hdetach
    obtain ⟨L, rfl⟩ := moveToTail_relink hmove
    have hmoved : ((t₀.relink (t₀.links.bypass p n)).relink L).sent = s.sent := hsent
    split at hlook
    · obtain ⟨rfl, rfl⟩ := Prod.mk.inj (Except.ok.inj hlook)
      rw [← hfound, hmoved]
      exact (List.append_nil _).symm
    · obtain ⟨rfl, rfl⟩ := Prod.mk.inj (Except.ok.inj hlook)
      rw [← hfound, missed, Store.missing, if_neg hfiles, ← hmoved]
      rfl

theorem Good.sent_get (h : s.Good) (hroom : s.Roomy user ∨ s.InOrder)
    (hrun : LRUCache.get fuel s user filename commFd = .ok s') (hfilled : ¬ s'.Filled) :
    s'.sent = s.sent ++ (Store.reply s.isPrimary s.filesOf (.get user filename commFd)).map (commFd, ·) := by
  obtain ⟨⟨found, t⟩, hget, hrun⟩ := Run.bind_eq_ok.mp hrun
  have hreply : Store.reply s.isPrimary s.filesOf (.get user filename commFd) =
      match s.view user filename with
      | some value => ["+OK value as follows: \r\n".toList, value]
      | none => [Store.missing (s.filesOf user)] := rfl
  have ht : ¬ t.Filled := by
    intro hfull
    refine hfilled ?_
    cases found with
    | none => exact Except.ok.inj hrun ▸ hfull
    | some value => exact Except.ok.inj hrun ▸ hfull.congr rfl
  obtain ⟨rfl, hsent⟩ := h.sent_getHelper hroom hget ht
  rw [hreply]
  cases hview : s.view user filename with
  | none =>
      rw [hview] at hrun hsent
      obtain rfl := Except.ok.inj hrun
      exact hsent
  | some value =>
      rw [hview] at hrun hsent
      obtain rfl := Except.ok.inj hrun
      have hkept : t.sent = s.sent := hsent.trans (List.append_nil _)
      change (t.sent ++ [(commFd, "+OK value as follows: \r\n".toList)]) ++ [(commFd, value)] = _
      rw [hkept, List.append_assoc]
      rfl

end PennCloud.LRUCache
