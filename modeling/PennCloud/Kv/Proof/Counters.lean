import PennCloud.Kv.Proof.Budget
import PennCloud.Kv.Proof.Evictions
import PennCloud.Kv.Proof.Pieces

/-!
# Counting bytes

Both counters are exact as long as nobody is evicted, a rename writes over nothing, and an exchange that
takes the old value off them also stores the new one. That nobody was evicted shows in the files: only
an eviction writes to them.
-/

namespace PennCloud.LRUCache

open Std

variable {s s' t : LRUCache} {user filename value : Str} {type : ChunkType} {fuel : Nat} {op : Op}

/-! ### The trace of an eviction -/

theorem updateMetadata_syscalls {str : Str} {size : Int}
    (hrun : s.updateMetadata type user str size = .ok s') : s'.syscalls ≠ [] := by
  obtain ⟨chunk, _, hrun⟩ := Run.bind_eq_ok.mp hrun
  obtain ⟨start, _, hrun⟩ := Run.bind_eq_ok.mp hrun
  obtain rfl := Except.ok.inj hrun
  cases type <;> simp [setMeta, act]

theorem useVirtualMemory_syscalls (hrun : s.useVirtualMemory = .ok s') : s'.syscalls ≠ [] := by
  obtain ⟨x, n, t, _, _, hwrite, rfl⟩ := useVirtualMemory_ok hrun
  obtain ⟨t', str, size, hupdate⟩ := writeToChunk_last hwrite
  have hsyscalls := updateMetadata_syscalls hupdate
  exact hsyscalls

/-- Once somebody has been evicted it stays on record. -/
theorem closed_syscalls : Closed fun s => s.syscalls ≠ [] where
  still _ _ hs hstill := by rwa [hstill.syscalls]
  insert _ _ _ _ _ hs _ _ hrun := by
    obtain ⟨p, _, rfl⟩ := insertUser_ok hrun
    exact hs
  store _ _ _ _ _ hs hrun := by
    obtain ⟨r, _, hrun⟩ := Run.bind_eq_ok.mp hrun
    obtain ⟨L, rfl⟩ := moveToTail_relink hrun
    exact hs
  evict _ _ _ hrun := useVirtualMemory_syscalls hrun
  move _ _ _ _ _ hs _ hdetach hmove := by
    obtain ⟨p, n, _, _, rfl⟩ := detach_ok hdetach
    obtain ⟨L, rfl⟩ := moveToTail_relink hmove
    exact hs
  erase _ _ _ _ hs _ := hs
  rename _ _ _ _ _ _ hs _ := hs

/-! ### The invariant -/

/-- Both counters are what they count. -/
structure Tallied (s : LRUCache) : Prop where
  settled : s.Settled
  memory : s.memoryUsed = s.residentTotal
  sizes : ∀ u, s.userSizeOf u = total (s.filesOf u)
  small : (s.residentTotal : Int) ≤ intMax

/-- An exchange of a value that is not empty stores the new one, a rename writes over no bytes, and what
is stored does not exceed an `int`. -/
def Tallies (s : LRUCache) (op : Op) : Prop :=
  (s.HasRoom op → (s.residentTotal : Int) + Store.delta s.filesOf op ≤ intMax) ∧
    Store.overwritten s.filesOf op = 0 ∧
      match op with
      | .cput user filename oldValue _ _ _ =>
          (s.filesOf user)[filename]? = some oldValue → oldValue = [] ∨ s.HasRoom op
      | _ => True

instance (s : LRUCache) : (op : Op) → Decidable (s.HasRoom op)
  | .put _ _ _ _ _ => inferInstanceAs (Decidable (_ ∧ _ ∧ _))
  | .get _ _ _ => isTrue trivial
  | .cput _ _ _ _ _ _ => inferInstanceAs (Decidable (_ → _ ∧ _))
  | .dele _ _ _ _ _ => isTrue trivial
  | .rename _ _ _ _ _ => isTrue trivial

instance (s : LRUCache) : (op : Op) → Decidable (s.Tallies op)
  | .put _ _ _ _ _ => inferInstanceAs (Decidable (_ ∧ _ ∧ True))
  | .get _ _ _ => inferInstanceAs (Decidable (_ ∧ _ ∧ True))
  | .cput _ _ _ _ _ _ => inferInstanceAs (Decidable (_ ∧ _ ∧ (_ → _ ∨ _)))
  | .dele _ _ _ _ _ => inferInstanceAs (Decidable (_ ∧ _ ∧ True))
  | .rename _ _ _ _ _ => inferInstanceAs (Decidable (_ ∧ _ ∧ True))

theorem Tallied.obeys (h : s.Tallied) (hsmall : (s.residentTotal : Int) + Store.delta s.filesOf op ≤ intMax)
    (hfree : Store.overwritten s.filesOf op = 0) (hobeys : Obeys s t op) : t.Tallied := by
  obtain ⟨hsets, haccounts, _⟩ := hobeys
  have hmemory := h.memory
  have hsize := h.sizes op.user
  have htotal := Store.total_apply s.filesOf op
  have hresident := h.settled.total_le op.user
  have hmoved := hsets.resident
  have hmem := haccounts.memoryUsed (by omega) (by omega)
  have hsizes := haccounts.userSizeOf (by omega) (by omega)
  refine ⟨hsets.settled, by omega, fun u => ?_, by omega⟩
  rw [hsets.filesOf, hsizes]
  have hother := h.sizes u
  split <;> omega

theorem Tallied.same (user : Str) (h : s.Tallied) (hsets : Sets s t user (s.filesOf user))
    (huncounted : Uncounted s t) : t.Tallied := by
  have hfiles : ∀ u, t.filesOf u = s.filesOf u := by
    intro u
    rw [hsets.filesOf]
    split
    · next heq => rw [heq]
    · rfl
  have hmemory := h.memory
  have hsmall := h.small
  have hmoved := hsets.resident
  have hmem := huncounted.memoryUsed
  refine ⟨hsets.settled, by omega, fun u => ?_, by omega⟩
  rw [huncounted.userSizeOf, h.sizes, hfiles]

theorem Tallied.touched {external isCPUT : Bool} (h : s.Tallied) : (s.touched user external isCPUT).Tallied := by
  refine h.same user ?_ ⟨touched_memoryUsed .., fun u => touched_userSizeOf ..⟩
  rw [touched_eq]
  exact h.settled.refl.counted _ _ _

theorem Tallied.servermsg (h : s.Tallied) (msg : String) (commFd : Int) : (s.servermsg msg commFd).Tallied :=
  h.same [] (h.settled.refl.servermsg msg commFd) ⟨rfl, fun _ => rfl⟩

theorem Tallied.discharged (h : s.Tallied) : (s.discharged user 0).Tallied := by
  have hmemory := h.memory
  have hsmall := h.small
  have hsize := h.sizes user
  have htotal := h.settled.total_le user
  refine h.same user (h.settled.refl.counted _ _ s.sent) ⟨?_, fun u => ?_⟩
  · change toInt32 (s.memoryUsed - 0) = _
    rw [Int.sub_zero, toInt32_of_range (by simp only [intMax]; omega) (by omega)]
  · rw [discharged_userSizeOf, Int.sub_zero, toInt32_of_range (by simp only [intMax]; omega) (by omega)]
    split
    · next heq => rw [heq]
    · rfl

/-- A put that does not find room is refused or evicts somebody. -/
theorem Tallied.put_refused (h : s.Tallied) (hroom : ¬ s.HasRoom (.put user filename value commFd seqNum))
    (hrun : LRUCache.put fuel s user filename value commFd true seqNum = .ok s') (hnothing : s'.syscalls = []) :
    s'.Tallied := by
  rcases put_ok hrun with ⟨_, rfl⟩ | ⟨hvalue, hloop⟩
  · exact h.servermsg _ _
  · cases fuel with
    | zero => exact absurd hloop (by simp [LRUCache.putLoop])
    | succ fuel =>
        rcases putLoop_succ_ok hloop with hdone | ⟨t, t', _, hevict, hrest⟩
        · rcases putHelper_ok hdone with ⟨_, _, _, rfl⟩ | ⟨_, hquota, hfits, _⟩ | ⟨hstored, _⟩
          · exact h.touched.servermsg _ _
          · exact absurd ⟨Nat.not_lt.mpr hvalue, hquota, hfits⟩ hroom
          · exact absurd hstored.symm Bool.false_ne_true
        · have hsyscalls := useVirtualMemory_syscalls hevict
          exact absurd hnothing ((closed_syscalls.kept user commFd).putLoop hsyscalls trivial hrest)

/-- An exchange that does not find room for the new value changes nothing if the old value was empty. -/
theorem Tallied.cput_refused {newValue : Str} (h : s.Tallied)
    (hmatch : (s.filesOf user)[filename]? = some [])
    (hroom : ¬ s.HasRoom (.cput user filename [] newValue commFd seqNum))
    (hrun : LRUCache.cput fuel s user filename [] newValue commFd seqNum = .ok s') : s'.Tallied := by
  obtain ⟨t, hget, hsets, huncounted, _⟩ := h.settled.getHelper fuel user filename commFd
  obtain ⟨found, t', hget', hcase⟩ := cput_ok hrun
  obtain ⟨hfound, rfl⟩ := Prod.mk.inj (Except.ok.inj (hget.symm.trans hget'))
  rw [hmatch] at hfound
  have ht : (t.discharged user ([] : Str).length).Tallied := (h.same user hsets huncounted).discharged
  rcases hcase with ⟨hne, _⟩ | ⟨_, stored, hput⟩
  · exact absurd hfound.symm hne
  · rcases putHelper_ok hput with ⟨_, _, _, rfl⟩ | ⟨_, hquota, hfits, _⟩ | ⟨_, _, _, rfl⟩
    · exact ht.touched.servermsg _ _
    · obtain ⟨hsameQuota, hsameFits⟩ := huncounted.discharged hsets.capacity ([] : Str).length newValue
      exact absurd (fun _ => ⟨hsameQuota.symm.trans hquota, hsameFits.symm.trans hfits⟩) hroom
    · exact ht.touched

/-- A command that evicts nobody moves the counters by what it adds to the files. -/
theorem Tallied.exec (h : s.Tallied) (hop : s.Tallies op) (hrun : s.exec fuel op = .ok s')
    (hnothing : s'.syscalls = []) : s'.Tallied := by
  by_cases hroom : s.HasRoom op
  · exact h.obeys (hop.1 hroom) hop.2.1 (h.settled.obeys_of_exec hroom hrun)
  · cases op with
    | put user filename value commFd seqNum => exact h.put_refused hroom hrun hnothing
    | cput user filename oldValue newValue commFd seqNum =>
        have hmatch : (s.filesOf user)[filename]? = some oldValue := by
          by_contra hne
          exact hroom fun hmatch => absurd hmatch hne
        obtain rfl := (hop.2.2 hmatch).resolve_right hroom
        exact h.cput_refused hmatch hroom hrun
    | get => exact absurd trivial hroom
    | dele => exact absurd trivial hroom
    | rename => exact absurd trivial hroom

/-! ### Runs -/

theorem tallied_fresh {capacity : Int} {isPrimary : Bool} : (fresh capacity isPrimary).Tallied := by
  have hempty : ∀ u : Str, (fresh capacity isPrimary).tablets[u]? = none := fun u => ExtTreeMap.getElem?_empty
  have hsettled : (fresh capacity isPrimary).Settled := ⟨wired_init, fun u => ExtTreeMap.getElem?_empty⟩
  have hresident : (fresh capacity isPrimary).residentTotal = 0 := by
    change SortedMap.sum (fun _ r => total ((fresh capacity isPrimary).heap r).value) (∅ : Map Ref) = 0
    exact SortedMap.sum_empty
  refine ⟨hsettled, by rw [hresident]; rfl, fun u => ?_, by rw [hresident]; decide⟩
  rw [hsettled.absent (hempty u), total_empty]
  exact ExtTreeMap.getD_empty

/-- **The counters are exact.** While nothing has been written to a chunk file, memory counts what is
resident, and the size of a user what that user has. -/
theorem tallied_of_run {capacity : Int} {isPrimary : Bool} {ops : List Op}
    (hrun : Run.Runs (Steps Tallies) (fresh capacity isPrimary) ops s) (hnothing : s.syscalls = []) :
    s.memoryUsed = s.residentTotal ∧ ∀ u, s.userSizeOf u = total (s.filesOf u) := by
  have hboth : s.syscalls ≠ [] ∨ s.Tallied := by
    refine hrun.invariant (P := fun _ s => s.syscalls ≠ [] ∨ s.Tallied) (Or.inr tallied_fresh) ?_
    rintro ops t op t' ht ⟨hop, fuel, hexec⟩
    by_cases hnothing : t'.syscalls = []
    · have htallied : t.Tallied := ht.resolve_left fun hsyscalls => closed_syscalls.exec hsyscalls hexec hnothing
      exact Or.inr (htallied.exec hop hexec hnothing)
    · exact Or.inl hnothing
  have htallied := hboth.resolve_left fun hsyscalls => hsyscalls hnothing
  exact ⟨htallied.memory, htallied.sizes⟩

theorem tallied_of_run_four_commands : ∃ s : LRUCache, s.capacity = 10 ∧ s.memoryUsed = 3 ∧
    s.memoryUsed = s.residentTotal ∧ ∀ u, s.userSizeOf u = total (s.filesOf u) := by
  have hends : endsIn Tallies 1 (fresh 10 true) [.put "u".toList "f".toList "ab".toList 7 0,
      .cput "u".toList "f".toList "ab".toList "c".toList 7 0, .put "v".toList "f".toList "dd".toList 7 0,
      .rename "u".toList "f".toList "g".toList 7 0]
      (fun s => decide (s.syscalls = [] ∧ s.capacity = 10 ∧ s.memoryUsed = 3)) = true := by
    decide +kernel
  obtain ⟨s, hsteps, hstate⟩ := runs_of_endsIn hends
  obtain ⟨hnothing, hcapacity, hmemory⟩ := of_decide_eq_true hstate
  exact ⟨s, hcapacity, hmemory, tallied_of_run hsteps hnothing⟩

/-- A rename over another file does not take that file's bytes off the counters. -/
theorem not_tallied_renamed : ¬ ∀ (ops : List Op) s, Run.Runs (Steps fun _ _ => True) (fresh 10 true) ops s →
    s.syscalls = [] → s.memoryUsed = s.residentTotal ∧ ∀ u, s.userSizeOf u = total (s.filesOf u) := by
  intro hall
  have hends : endsIn (fun _ _ => True) 1 (fresh 10 true) [.put "u".toList "f".toList "a".toList 7 0,
      .put "u".toList "g".toList "b".toList 7 0, .rename "u".toList "f".toList "g".toList 7 0]
      (fun s => decide (s.syscalls = [] ∧ s.memoryUsed = 2 ∧ s.residentTotal = 1)) = true := by
    decide +kernel
  obtain ⟨s, hsteps, hstate⟩ := runs_of_endsIn hends
  obtain ⟨hnothing, hmemory, hresident⟩ := of_decide_eq_true hstate
  have htallied := (hall _ s hsteps hnothing).1
  rw [hmemory, hresident] at htallied
  exact absurd htallied (by decide)

end PennCloud.LRUCache
