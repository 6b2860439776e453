import PennCloud.Kv.Proof.Guarded
import PennCloud.Kv.Proof.Limit

/-!
# The loop of `put` ends

While the counter is what is resident, and the list holds exactly the residents, a value that does not fit
finds a user to evict, and each eviction makes the list shorter. Neither the rows nor the chunk files
matter: a failure to write or read one ends the loop as well.
-/

namespace PennCloud.LRUCache

open DList
open Std (ExtTreeMap)

variable {s s' t : LRUCache} {user filename value u : Str} {r p x n : Ref} {files : Map Str} {l : List Ref}
  {fuel need : Nat} {commFd seqNum : Int} {external isCPUT : Bool}

/-! ### Faults -/

section Faults

variable {α : Type}

theorem ok_ne_outOfFuel (a : α) : (.ok a : Except Fault α) ≠ .error .outOfFuel := fun h => by cases h

theorem deref_ne_outOfFuel (pointer : Option α) : deref pointer ≠ .error .outOfFuel := by
  cases pointer <;> exact fun h => by cases h

theorem atIdx_ne_outOfFuel (v : List α) (i : Nat) : atIdx v i ≠ .error .outOfFuel := by
  rw [atIdx]
  split <;> exact fun h => by cases h

theorem substr_ne_outOfFuel (row : Str) (pos len : Nat) : substr row pos len ≠ .error .outOfFuel := by
  rw [substr]
  split <;> exact fun h => by cases h

theorem readAt_ne_outOfFuel (file : Option Str) (start length : Int) :
    Disk.readAt file start length ≠ .error .outOfFuel := by
  cases file with
  | none => exact ok_ne_outOfFuel _
  | some bytes =>
      rw [Disk.readAt]
      split <;> exact fun h => by cases h

end Faults

theorem updateMetadata_ne_outOfFuel (type : ChunkType) (user row : Str) (size : Int) :
    s.updateMetadata type user row size ≠ .error .outOfFuel := by
  refine Run.bind_ne_error (atIdx_ne_outOfFuel _ _) fun chunk _ => ?_
  exact Run.bind_ne_error (atIdx_ne_outOfFuel _ _) fun _ _ => ok_ne_outOfFuel _

theorem nextChunk_ne_outOfFuel (type : ChunkType) : s.nextChunk type ≠ .error .outOfFuel :=
  Run.bind_ne_error (atIdx_ne_outOfFuel _ _) fun _ _ => ok_ne_outOfFuel _

theorem writePiece_ne_outOfFuel {type : ChunkType} {user row : Str} {left : Int} {needed : Nat}
    (state : LRUCache × Int) (i : Nat) : writePiece type user row left needed state i ≠ .error .outOfFuel := by
  obtain ⟨s, start⟩ := state
  rw [writePiece]
  split
  · refine Run.bind_ne_error (substr_ne_outOfFuel _ _ _) fun piece _ => ?_
    exact Run.bind_ne_error (updateMetadata_ne_outOfFuel _ _ _ _) fun _ _ => ok_ne_outOfFuel _
  · split
    all_goals
      refine Run.bind_ne_error (substr_ne_outOfFuel _ _ _) fun piece _ => ?_
      refine Run.bind_ne_error (nextChunk_ne_outOfFuel _) fun t _ => ?_
      exact Run.bind_ne_error (updateMetadata_ne_outOfFuel _ _ _ _) fun _ _ => ok_ne_outOfFuel _

theorem writeToChunk_ne_outOfFuel (user row : Str) (type : ChunkType) :
    s.writeToChunk user row type ≠ .error .outOfFuel := by
  refine Run.bind_ne_error (atIdx_ne_outOfFuel _ _) fun fill _ => ?_
  split
  · exact updateMetadata_ne_outOfFuel _ _ _ _
  · exact Run.bind_ne_error (Run.foldlM_ne_error writePiece_ne_outOfFuel _ _) fun _ _ => ok_ne_outOfFuel _

theorem useVirtualMemory_ne_outOfFuel : s.useVirtualMemory ≠ .error .outOfFuel := by
  refine Run.bind_ne_error (deref_ne_outOfFuel _) fun x _ => ?_
  refine Run.bind_ne_error (writeToChunk_ne_outOfFuel _ _ _) fun t _ => ?_
  exact Run.bind_ne_error (deref_ne_outOfFuel _) fun _ _ => ok_ne_outOfFuel _

theorem readRow_ne_outOfFuel (disk : Disk) (type : ChunkType) (records : Records) :
    readRow disk type records ≠ .error .outOfFuel := by
  refine Run.foldlM_ne_error (fun row record => ?_) _ _
  refine Run.bind_ne_error (atIdx_ne_outOfFuel _ _) fun chunk _ => ?_
  refine Run.bind_ne_error (atIdx_ne_outOfFuel _ _) fun start _ => ?_
  refine Run.bind_ne_error (atIdx_ne_outOfFuel _ _) fun length _ => ?_
  exact Run.bind_ne_error (readAt_ne_outOfFuel _ _ _) fun _ _ => ok_ne_outOfFuel _

theorem moveToTail_ne_outOfFuel : s.moveToTail r ≠ .error .outOfFuel :=
  Run.bind_ne_error (deref_ne_outOfFuel _) fun _ _ => ok_ne_outOfFuel _

theorem storeResident_ne_outOfFuel (new : Str → Str) : s.storeResident user filename new ≠ .error .outOfFuel :=
  Run.bind_ne_error (deref_ne_outOfFuel _) fun _ _ => moveToTail_ne_outOfFuel

/-! ### Two runs in step -/

/-- The guarded run does what the run does, and where `enough` holds the run is not cut off. -/
structure Safe {α : Type} (enough : Prop) (guarded run : Except Fault α) : Prop where
  same : guarded = run
  ends : enough → run ≠ .error .outOfFuel

section Safe

variable {α β : Type} {enough enough' : Prop} {guarded run : Except Fault α}

theorem Safe.of_ne (h : run ≠ .error .outOfFuel) : Safe enough run run := ⟨rfl, fun _ => h⟩

theorem Safe.ok (a : α) : Safe enough (.ok a) (.ok a) := .of_ne (ok_ne_outOfFuel a)

theorem Safe.mono (h : Safe enough guarded run) (himp : enough' → enough) : Safe enough' guarded run :=
  ⟨h.same, fun henough => h.ends (himp henough)⟩

theorem Safe.bind {f g : α → Except Fault β} (h : Safe enough guarded run)
    (hf : ∀ a, run = .ok a → Safe enough (f a) (g a)) : Safe enough (guarded >>= f) (run >>= g) := by
  obtain ⟨rfl, hends⟩ := h
  exact ⟨Run.bind_congr fun a ha => (hf a ha).same,
    fun henough => Run.bind_ne_error (hends henough) fun a ha => (hf a ha).ends henough⟩

end Safe

/-! ### The loop -/

/-- The list holds a user. -/
def HasFirst (s : LRUCache) : Prop := s.links.next .head ≠ some .tail

instance : DecidablePred HasFirst := fun _ => inferInstanceAs (Decidable (¬ _ = _))

theorem hasFirst_of_forward (h : Forward s.links .head .tail (x :: l)) : s.HasFirst := by
  intro htail
  obtain rfl : x = .tail := Option.some.inj (h.path.1.symm.trans htail)
  exact h.tail_notMem (List.mem_cons_of_mem _ List.mem_cons_self)

variable {otherwise : LRUCache → Except Fault LRUCache}

theorem Bounded.exists_building (h : s.Bounded) (hvirmem : s.virmemMeta[user]? = none) :
    s.Building user (s.filesOf user) := by
  obtain ⟨p, hp, _⟩ := h.wired.exists_prev
  cases hresident : s.tablets[user]? with
  | none => exact ⟨Or.inl ⟨hresident, filesOf_unknown ⟨hresident, hvirmem⟩⟩, hvirmem, p, hp⟩
  | some r =>
      obtain ⟨i, _, rfl⟩ := h.wired.tidy.allocated user r hresident
      exact ⟨Or.inr ⟨i, hresident, (filesOf_of_resident hresident).symm⟩, hvirmem, p, hp⟩

theorem Bounded.putHelper_ne_outOfFuel {load : LRUCache → Str → Except Fault LRUCache} (h : s.Bounded)
    (hvirmem : s.virmemMeta[user]? = none) :
    s.putHelper load user filename value commFd external false seqNum ≠ .error .outOfFuel := by
  have ht : (s.touched user external false).Bounded := h.touched
  have hvirmem' : (s.touched user external false).virmemMeta[user]? = none := by rw [touched_virmemMeta, hvirmem]
  obtain ⟨t, hplace, _⟩ : ∃ t, (s.touched user external false).placeValue load user filename value false = .ok t ∧ _ :=
    ht.wired.placeValue (ht.exists_building hvirmem')
  rw [putHelper_eq, hplace]
  split
  · exact ok_ne_outOfFuel _
  · split <;> exact ok_ne_outOfFuel _

theorem Bounded.safe_succ {enough : Prop} (h : s.Bounded) (hvirmem : s.virmemMeta[user]? = none)
    (hrest : ∀ t, s.fits value = false → t = s.touched user external false →
      Safe enough (evictIf HasFirst otherwise t >>= fun t =>
          putLoopWith (evictIf HasFirst otherwise) fuel t user filename value commFd external seqNum)
        (t.useVirtualMemory >>= fun t => LRUCache.putLoop fuel t user filename value commFd external seqNum)) :
    Safe enough (putLoopWith (evictIf HasFirst otherwise) (fuel + 1) s user filename value commFd external seqNum)
      (LRUCache.putLoop (fuel + 1) s user filename value commFd external seqNum) := by
  have hhelper : s.putHelper (reloadWith (evictIf HasFirst otherwise) fuel commFd) user filename value commFd
      external false seqNum = s.putHelper (reload fuel commFd) user filename value commFd external false seqNum :=
    putHelper_congr hvirmem
  rw [putLoopWith_succ, putLoop_succ, hhelper]
  refine Safe.bind (.of_ne (h.putHelper_ne_outOfFuel hvirmem)) fun result hresult => ?_
  obtain ⟨stored, t⟩ := result
  cases stored with
  | true => exact Safe.ok t
  | false =>
      rcases putHelper_ok hresult with ⟨hstored, _⟩ | ⟨hstored, _⟩ | ⟨_, _, hfits, hstate⟩
      · exact absurd hstored (by simp)
      · exact absurd hstored (by simp)
      · exact hrest t hfits hstate

theorem Bounded.safe_putLoop {before : List Ref} (h : s.Bounded) (hvirmem : s.virmemMeta[user]? = none)
    (hroom : s.fits value = true ∨ s.MakesRoomBy user value before) (hvalue : value.length ≤ toSize s.capacity) :
    Safe (before.length < fuel)
      (putLoopWith (evictIf HasFirst otherwise) fuel s user filename value commFd true seqNum)
      (LRUCache.putLoop fuel s user filename value commFd true seqNum) := by
  induction fuel generalizing s before with
  | zero => exact ⟨rfl, fun hfuel => absurd hfuel (Nat.not_lt_zero _)⟩
  | succ fuel ih =>
      refine h.safe_succ hvirmem fun t hfits hstate => ?_
      subst hstate
      have ht : (s.touched user true false).Bounded := h.touched
      have hvalue' : value.length ≤ toSize (s.touched user true false).capacity := by rwa [touched_capacity]
      have hvirmem' : (s.touched user true false).virmemMeta[user]? = none := by rw [touched_virmemMeta, hvirmem]
      have hfits' : (s.touched user true false).fits value = false := by rwa [touched_fits]
      have hmakes : s.MakesRoomBy user value before := hroom.resolve_left (by simp [hfits])
      have htouched : (s.touched user true false).MakesRoomBy user value before := hmakes.touched
      obtain ⟨x, before, rfl⟩ := ht.exists_before htouched hvalue' hfits'
      have hforward := htouched.choose_spec.1
      rw [evictIf_pos (hasFirst_of_forward hforward)]
      refine Safe.bind (.of_ne useVirtualMemory_ne_outOfFuel) fun t hevict => ?_
      obtain ⟨hbounded, hmakes', hcapacity, hkept⟩ := ht.makes_room htouched hevict
      refine (ih hbounded (hkept hvirmem') (Or.inr hmakes') (by rwa [hcapacity])).mono fun hfuel => ?_
      exact Nat.lt_of_succ_lt_succ hfuel

theorem Bounded.safe_fits (h : s.Bounded) (hvirmem : s.virmemMeta[user]? = none) (hfits : s.fits value = true)
    (hvalue : value.length ≤ toSize s.capacity) :
    Safe (0 < fuel) (putLoopWith (evictIf HasFirst otherwise) fuel s user filename value commFd true seqNum)
      (LRUCache.putLoop fuel s user filename value commFd true seqNum) := by
  have hroom : s.fits value = true ∨ s.MakesRoomBy user value [] := Or.inl hfits
  exact h.safe_putLoop hvirmem hroom hvalue

/-! ### A user that is loaded -/

/-- Putting one file of a user that is being loaded, when there is room for all. -/
theorem Bounded.safe_internal (h : s.Bounded) (hbuilding : s.Building user files)
    (hopen : Way.room.Open s user files (value.length + need)) :
    Safe (0 < fuel) (putLoopWith (evictIf HasFirst otherwise) fuel s user filename value commFd false seqNum)
      (LRUCache.putLoop fuel s user filename value commFd false seqNum) := by
  cases fuel with
  | zero => exact ⟨rfl, fun hfuel => absurd hfuel (Nat.lt_irrefl 0)⟩
  | succ fuel =>
      refine h.safe_succ hbuilding.virmem fun t hfits _ => ?_
      obtain ⟨x, others, hway⟩ := Way.exists_other h.wired.tidy h.nonneg h.small h.exact hbuilding hopen hfits
      exact absurd hway (by simp)

theorem Bounded.safe_restore (pairs : List (Str × Str)) (h : s.Bounded) (hbuilding : s.Building user files)
    (hopen : Way.room.Open s user files (bytesOf pairs + need)) :
    Safe (0 < fuel)
      (pairs.foldlM (fun s file =>
        putWith (putLoopWith (evictIf HasFirst otherwise) fuel) s user file.1 file.2 commFd false 0) s)
      (pairs.foldlM (fun s file => LRUCache.put fuel s user file.1 file.2 commFd false 0) s) := by
  induction pairs generalizing s files with
  | nil => exact Safe.ok s
  | cons file pairs ih =>
      rw [bytesOf_cons, Nat.add_assoc] at hopen
      have hlength := hopen.length_le h.nonneg h.small
      rw [List.foldlM_cons, List.foldlM_cons]
      refine Safe.bind ?_ fun t hput => ?_
      · rw [put, putWith, putWith, if_neg (Nat.not_lt.mpr hlength), if_neg (Nat.not_lt.mpr hlength)]
        exact h.safe_internal hbuilding hopen
      · rcases put_ok hput with ⟨hlarge, _⟩ | ⟨_, hloop⟩
        · exact absurd hlarge (Nat.not_lt.mpr hlength)
        · have hreached := h.putLoop_internal hbuilding hopen hloop
          obtain ⟨way, hopen', hsame⟩ := hreached.way
          obtain rfl := hsame rfl
          exact ih hreached.bounded hreached.building hopen'

theorem Bounded.safe_reload (h : s.Bounded) (hvirmem : s.virmemMeta[user]? ≠ none)
    (hopen : Way.room.Open s user ∅ (total (s.filesOf user) + need)) :
    Safe (0 < fuel) (reloadWith (evictIf HasFirst otherwise) fuel commFd s user) (reload fuel commFd s user) := by
  have habsent := h.wired.tidy.absent_of_virmem hvirmem
  have hquiet : Quiet s (s.clearMetadata .virtualMemory user) 0 := quiet_clearMetadata
  have hcleared : (s.clearMetadata .virtualMemory user).Bounded := h.still hquiet.still rfl rfl
  obtain ⟨p, hp, _⟩ := h.wired.exists_prev
  have hbuilding : (s.clearMetadata .virtualMemory user).Building user ∅ :=
    ⟨Or.inl ⟨habsent, rfl⟩, ExtTreeMap.getElem?_erase_self, p, hp⟩
  refine Safe.bind (.of_ne (readRow_ne_outOfFuel _ _ _)) fun row hread => ?_
  have hopen' : Way.room.Open (s.clearMetadata .virtualMemory user) user ∅
      (bytesOf (pairUp (Fields.pieces ',' row)) + need) := by
    have hrow : s.rowOnDisk user = row := rowOnDisk_of_readRow hread
    rw [filesOf_of_absent habsent, filesOfRow, hrow, total_foldl_addFile, total_empty,
      Nat.zero_add] at hopen
    exact hopen
  exact hcleared.safe_restore _ hbuilding hopen'

/-- Putting for a user in virtual memory, when its files and the value have room. -/
theorem Bounded.safe_putLoop_evicted (h : s.Bounded) (hvirmem : s.virmemMeta[user]? ≠ none)
    (hfits : s.fits value = true)
    (hroom : (s.residentTotal : Int) + total (s.filesOf user) + value.length ≤ s.capacity) :
    Safe (1 < fuel) (putLoopWith (evictIf HasFirst otherwise) fuel s user filename value commFd true seqNum)
      (LRUCache.putLoop fuel s user filename value commFd true seqNum) := by
  cases fuel with
  | zero => exact ⟨rfl, fun hfuel => absurd hfuel (Nat.not_lt_zero 1)⟩
  | succ fuel =>
      have ht : (s.touched user true false).Bounded := h.touched
      have hvirmem' : (s.touched user true false).virmemMeta[user]? ≠ none := by rwa [touched_virmemMeta]
      have habsent := ht.wired.tidy.absent_of_virmem hvirmem'
      obtain ⟨records, hrecords⟩ := Option.ne_none_iff_exists'.mp hvirmem'
      have hopen : Way.room.Open (s.touched user true false) user ∅
          (total ((s.touched user true false).filesOf user) + value.length) := by
        rw [filesOf_touched]
        change ((s.touched user true false).residentTotal + (_ : Nat) : Int) ≤ (s.touched user true false).capacity
        rw [residentTotal_touched, touched_capacity]
        omega
      rw [putLoopWith_succ, putLoop_succ, putHelper_eq, putHelper_eq]
      by_cases hquota : s.exceedsQuota user value = true
      · rw [hquota]
        exact Safe.ok _
      · rw [Bool.not_eq_true] at hquota
        rw [hquota, hfits, placeValue_evicted habsent hrecords, placeValue_evicted habsent hrecords]
        refine Safe.bind (Safe.bind (Safe.bind ?_ fun t _ => .of_ne (storeResident_ne_outOfFuel _)) fun t _ =>
          Safe.ok (true, _)) fun result hresult => ?_
        · exact (ht.safe_reload hvirmem' hopen).mono Nat.lt_of_succ_lt_succ
        · obtain ⟨t, _, hresult⟩ := Run.bind_eq_ok.mp hresult
          obtain rfl := Except.ok.inj hresult
          exact Safe.ok _

theorem Bounded.safe_put (h : s.Bounded) (hop : s.Contained (.put user filename value commFd seqNum)) :
    ∃ depth, ∀ fuel otherwise, Safe (depth < fuel)
      (s.execWith (evictIf HasFirst otherwise) fuel (.put user filename value commFd seqNum))
      (s.exec fuel (.put user filename value commFd seqNum)) := by
  by_cases hlarge : toSize s.capacity < value.length
  · refine ⟨0, fun fuel otherwise => ?_⟩
    rw [execWith, LRUCache.exec, LRUCache.put, putWith, putWith, if_pos hlarge, if_pos hlarge]
    exact Safe.ok _
  · have hvalue := Nat.le_of_not_lt hlarge
    obtain ⟨depth, hsafe⟩ : ∃ depth, ∀ fuel otherwise, Safe (depth < fuel)
        (putLoopWith (evictIf HasFirst otherwise) fuel s user filename value commFd true seqNum)
        (LRUCache.putLoop fuel s user filename value commFd true seqNum) := by
      rcases hop with hrefused | ⟨hvirmem, hfits | ⟨before, hmakes⟩⟩ | ⟨hfits, hroom⟩
      · have hquota : s.exceedsQuota user value = true := hrefused.resolve_left hlarge
        refine ⟨0, fun fuel otherwise => ⟨putLoopWith_of_exceedsQuota hquota, fun hfuel => ?_⟩⟩
        obtain ⟨fuel, rfl⟩ := Nat.exists_eq_succ_of_ne_zero hfuel.ne'
        rw [putLoop_succ, putHelper_eq, hquota]
        exact ok_ne_outOfFuel _
      · exact ⟨0, fun fuel otherwise => h.safe_fits hvirmem hfits hvalue⟩
      · exact ⟨before.length, fun fuel otherwise => h.safe_putLoop hvirmem (Or.inr hmakes) hvalue⟩
      · by_cases hvirmem : s.virmemMeta[user]? = none
        · exact ⟨0, fun fuel otherwise => h.safe_fits hvirmem hfits hvalue⟩
        · exact ⟨1, fun fuel otherwise => h.safe_putLoop_evicted hvirmem hfits hroom⟩
    refine ⟨depth, fun fuel otherwise => ?_⟩
    rw [execWith, LRUCache.exec, LRUCache.put, putWith, putWith, if_neg hlarge, if_neg hlarge]
    exact hsafe fuel otherwise

/-- **The loop of `put` ends.** In every state of such a run a put evicts only from a list that holds a
user, and with enough depth it is not cut off. -/
theorem put_halts {capacity : Int} {isPrimary : Bool} {ops : List Op} (hnonneg : 0 ≤ capacity)
    (hsmall : capacity ≤ intMax) (hrun : Run.Runs (Steps Contained) (fresh capacity isPrimary) ops s)
    (hop : s.Contained (.put user filename value commFd seqNum)) :
    (∀ fuel otherwise, s.execWith (evictIf HasFirst otherwise) fuel (.put user filename value commFd seqNum) =
      s.exec fuel (.put user filename value commFd seqNum)) ∧
    ∃ depth, ∀ fuel, depth < fuel →
      s.exec fuel (.put user filename value commFd seqNum) ≠ .error .outOfFuel := by
  obtain ⟨depth, hsafe⟩ := (bounded_of_run hnonneg hsmall hrun).1.safe_put hop
  exact ⟨fun fuel otherwise => (hsafe fuel otherwise).same, depth, fun fuel hfuel => (hsafe fuel .ok).ends hfuel⟩

/-- The third user's value evicts the first user. -/
theorem put_halts_third_put : ∃ s : LRUCache, s.memoryUsed = 8 ∧ ∃ depth, ∀ fuel, depth < fuel →
    s.exec fuel (.put "w".toList "h".toList "eeee".toList 3 0) ≠ .error .outOfFuel := by
  have hends : endsIn FirstPut 5 (fresh 10 true)
      [.put "u".toList "f".toList "abc".toList 3 0, .put "v".toList "g".toList "ddddd".toList 3 0]
      (fun s => decide (s.memoryUsed = 8 ∧ s.capacity = 10 ∧ s.FirstPut (.put "w".toList "h".toList "eeee".toList 3 0))) =
        true := by
    decide +kernel
  obtain ⟨s, hfirst, hstate⟩ := runs_of_endsIn hends
  obtain ⟨hmemory, hcapacity, hop⟩ := of_decide_eq_true hstate
  obtain ⟨hcontained, hordered⟩ := contained_of_firstPuts (by decide) (by decide) hfirst
  refine ⟨s, hmemory, (put_halts (by decide) (by decide) hcontained ?_).2⟩
  exact contained_of_firstPut hordered (by rw [hcapacity]; decide) (by rw [hcapacity]; decide) hop

/-- Puts, gets, deletions and renamings. -/
def Reachable : Op → Prop
  | .put _ _ _ _ _ => True
  | .get _ _ _ => True
  | .cput _ _ _ _ _ _ => False
  | .dele _ _ _ _ _ => True
  | .rename _ _ _ _ _ => True

/-- Renaming over a file leaves its bytes in the counter, and then evicting the only user is not enough. -/
theorem not_halts_renamed : ¬ ∀ (ops : List Op) s user filename value commFd seqNum,
    Run.Runs (Steps fun _ op => Reachable op) (fresh 10 true) ops s → value.length ≤ 10 →
    (∀ fuel otherwise, s.execWith (evictIf HasFirst otherwise) fuel (.put user filename value commFd seqNum) =
      s.exec fuel (.put user filename value commFd seqNum)) ∧
    ∃ depth, ∀ fuel, depth < fuel →
      s.exec fuel (.put user filename value commFd seqNum) ≠ .error .outOfFuel := by
  intro hall
  let last : Op := .put "v".toList "h".toList "cccccccc".toList 3 0
  have hends : endsIn (fun _ _ => True) 5 (fresh 10 true) [.put "u".toList "f".toList "aaaa".toList 3 0,
      .put "u".toList "g".toList "bbbb".toList 3 0, .rename "u".toList "f".toList "g".toList 3 0]
      (fun s => decide ((s.execWith (evictIf HasFirst fun _ => .error .exited) 5 last).map (fun _ => ()) = .error .exited ∧
        (s.exec 5 last).map (fun _ => ()) = .error .nullDeref)) = true := by
    decide +kernel
  obtain ⟨s, hsteps, hstate⟩ := runs_of_endsIn_all Reachable hends (by simp [Reachable])
  obtain ⟨hguarded, hfault⟩ := of_decide_eq_true hstate
  have hsame : s.execWith (evictIf HasFirst fun _ => .error .exited) 5 last = s.exec 5 last :=
    (hall _ s "v".toList "h".toList "cccccccc".toList 3 0 hsteps (by decide)).1 5 _
  rw [hsame, hfault] at hguarded
  exact absurd hguarded (by simp)

end PennCloud.LRUCache
