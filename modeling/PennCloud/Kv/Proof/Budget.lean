import PennCloud.Kv.Proof.Settled

/-!
# A cache that is large enough

While all the bytes ever put are fewer than the capacity, the cache is the store without a limit. The
two counters may be too high, since a rename over a file leaves them alone; they are never below what is
stored, so that taking a value off them does not go under zero, and never above what was put.
-/

namespace PennCloud

open LRUCache Std

namespace Store

variable {store : Store} {op : Op}

/-- The counters follow the bytes stored, but for those a rename writes over. -/
theorem total_apply (store : Store) (op : Op) :
    (total (store.apply op op.user) : Int) + store.overwritten op =
      total (store op.user) + store.delta op := by
  cases op with
  | put user filename value commFd seqNum =>
      have htotal := total_addFile (store user) (filename, value)
      dsimp only at htotal
      rw [apply, Op.user, Function.update_self, overwritten, delta]
      omega
  | get user filename commFd => rfl
  | cput user filename oldValue newValue commFd seqNum =>
      rw [apply, delta, overwritten]
      split
      · next hmatch =>
          rw [Op.user, Function.update_self, total_insert, total_of_getElem? hmatch]
          omega
      · rfl
  | dele user filename commFd seqNum isMigration =>
      rw [apply, Op.user, Function.update_self, delta, overwritten]
      cases hfound : (store user)[filename]? with
      | none =>
          rw [SortedMap.erase_eq_self hfound]
          rfl
      | some value =>
          dsimp only
          rw [total_of_getElem? hfound]
          omega
  | rename user oldFilename newFilename commFd seqNum =>
      rw [apply, overwritten, delta, Op.user]
      cases hfound : (store user)[oldFilename]? with
      | none => rfl
      | some value =>
          dsimp only
          rw [Function.update_self, total_insert, total_of_getElem? hfound, ExtTreeMap.getD_eq_getD_getElem?]
          cases hnew : ((store user).erase oldFilename)[newFilename]? with
          | none =>
              rw [SortedMap.erase_eq_self hnew]
              simp
          | some other =>
              rw [total_of_getElem? hnew, Option.getD_some]
              omega

theorem delta_le_volume (store : Store) (op : Op) : store.delta op ≤ op.volume := by
  cases op with
  | put => exact Int.le_refl _
  | get => exact Int.le_refl _
  | cput =>
      rw [delta, Op.volume]
      split <;> omega
  | dele =>
      rw [delta, Op.volume]
      split <;> omega
  | rename => exact Int.le_refl _

theorem apply_of_ne {u : Str} (hne : u ≠ op.user) : store.apply op u = store u := by
  cases op with
  | put => exact Function.update_of_ne hne ..
  | get => rfl
  | cput =>
      rw [apply]
      split
      · exact Function.update_of_ne hne ..
      · rfl
  | dele => exact Function.update_of_ne hne ..
  | rename user oldFilename newFilename commFd seqNum =>
      rw [apply]
      cases (store user)[oldFilename]? with
      | none => rfl
      | some value => exact Function.update_of_ne hne ..

end Store

namespace LRUCache

variable {s t : LRUCache} {store : Store} {op : Op} {spent fuel : Nat} {user value : Str}

/-! ### The tests of `put_helper` -/

theorem exceedsQuota_eq_false (hsmall : s.capacity ≤ intMax) (hnonneg : 0 ≤ s.userSizeOf user)
    (hroom : s.userSizeOf user + value.length < s.capacity) : s.exceedsQuota user value = false := by
  have hvalue : value.length < 2 ^ 63 := by
    simp only [intMax] at hsmall
    omega
  rw [exceedsQuota, decide_eq_false_iff_not, toSize_of_nonneg (by omega) hsmall,
    sizeAdd_of_nonneg hnonneg (by omega) hvalue]
  omega

theorem fits_of_le (hsmall : s.capacity ≤ intMax) (hnonneg : 0 ≤ s.memoryUsed)
    (hroom : s.memoryUsed + value.length ≤ s.capacity) : s.fits value = true := by
  have hvalue : value.length < 2 ^ 63 := by
    simp only [intMax] at hsmall
    omega
  rw [fits, decide_eq_true_eq, toSize_of_nonneg (by omega) hsmall,
    sizeAdd_of_nonneg hnonneg (by omega) hvalue]
  omega

/-- Counters that stay within an `int` move by exactly `delta`. -/
theorem Accounts.memoryUsed {delta : Int} (h : Accounts s t user delta) (hlow : 0 ≤ s.memoryUsed + delta)
    (hhigh : s.memoryUsed + delta ≤ intMax) : t.memoryUsed = s.memoryUsed + delta := by
  rcases h with hcounted | ⟨rfl, huncounted⟩
  · rw [hcounted.memoryUsed, toInt32_of_range (by simp only [intMax]; omega) hhigh]
  · rw [huncounted.memoryUsed, Int.add_zero]

theorem Accounts.userSizeOf {delta : Int} (h : Accounts s t user delta)
    (hlow : 0 ≤ s.userSizeOf user + delta) (hhigh : s.userSizeOf user + delta ≤ intMax) (u : Str) :
    t.userSizeOf u = if user = u then s.userSizeOf user + delta else s.userSizeOf u := by
  rcases h with hcounted | ⟨rfl, huncounted⟩
  · rw [hcounted.userSizeOf, toInt32_of_range (by simp only [intMax]; omega) hhigh]
  · rw [huncounted.userSizeOf, Int.add_zero]
    split
    · next heq => rw [heq]
    · rfl

/-! ### The invariant -/

/-- The cache holds the store, and its counters lie between what is stored and what was put. -/
structure Within (s : LRUCache) (store : Store) (spent : Nat) : Prop where
  settled : s.Settled
  contents : s.filesOf = store
  small : s.capacity ≤ intMax
  memory : (s.residentTotal : Int) ≤ s.memoryUsed ∧ s.memoryUsed ≤ spent
  sizes : ∀ u, (total (s.filesOf u) : Int) ≤ s.userSizeOf u ∧ s.userSizeOf u ≤ spent

theorem Settled.total_le (h : s.Settled) (user : Str) : total (s.filesOf user) ≤ s.residentTotal := by
  cases hresident : s.tablets[user]? with
  | none =>
      rw [h.absent hresident, total_empty]
      exact Nat.zero_le _
  | some r =>
      rw [filesOf_of_resident hresident, residentTotal_of_resident hresident]
      exact Nat.le_add_right _ _

theorem Within.hasRoom (h : Within s store spent) (hbudget : (spent + op.volume : Int) < s.capacity) :
    s.HasRoom op := by
  have hsmall := h.small
  have hmemory := h.memory
  cases op with
  | put user filename value commFd seqNum =>
      rw [Op.volume] at hbudget
      have hsize := h.sizes user
      refine ⟨?_, exceedsQuota_eq_false hsmall (by omega) (by omega), fits_of_le hsmall (by omega) (by omega)⟩
      rw [toSize_of_nonneg (by omega) hsmall]
      omega
  | cput user filename oldValue newValue commFd seqNum =>
      intro hmatch
      rw [Op.volume] at hbudget
      have hsize := h.sizes user
      have htotal := total_of_getElem? hmatch
      have hresident := h.settled.total_le user
      have huser : (s.discharged user oldValue.length).userSizeOf user = s.userSizeOf user - oldValue.length := by
        rw [discharged_userSizeOf, if_pos rfl, toInt32_of_range (by simp only [intMax]; omega) (by omega)]
      have hmem : (s.discharged user oldValue.length).memoryUsed = s.memoryUsed - oldValue.length := by
        change toInt32 _ = _
        rw [toInt32_of_range (by simp only [intMax]; omega) (by omega)]
      have hcapacity : (s.discharged user oldValue.length).capacity = s.capacity := rfl
      exact ⟨exceedsQuota_eq_false hsmall (by omega) (by omega), fits_of_le hsmall (by omega) (by omega)⟩
  | get => trivial
  | dele => trivial
  | rename => trivial

theorem Within.obeys (h : Within s store spent) (hbudget : (spent + op.volume : Int) < s.capacity)
    (hobeys : Obeys s t op) : Within t (store.apply op) (spent + op.volume) := by
  obtain ⟨hsets, haccounts, _⟩ := hobeys
  have hsmall := h.small
  have hmemory := h.memory
  have hsize := h.sizes op.user
  have htotal := Store.total_apply s.filesOf op
  have hvolume := Store.delta_le_volume s.filesOf op
  have hresident := h.settled.total_le op.user
  have hmoved := hsets.resident
  have hmem := haccounts.memoryUsed (by omega) (by omega)
  have hsizes := haccounts.userSizeOf (by omega) (by omega)
  refine ⟨hsets.settled, ?_, by rw [hsets.capacity]; exact hsmall, by omega, fun u => ?_⟩
  · funext u
    rw [hsets.filesOf, ← h.contents]
    split
    · next heq => rw [heq]
    · next hne => rw [Store.apply_of_ne (Ne.symm hne)]
  · rw [hsets.filesOf, hsizes]
    have hother := h.sizes u
    split <;> omega

/-! ### Runs -/

/-- All the bytes a list of commands brings. -/
def volume (ops : List Op) : Nat := (ops.map Op.volume).sum

theorem Within.run {ops : List Op} (h : Within s store spent)
    (hbudget : (spent + volume ops : Int) < s.capacity) (fuel : Nat) :
    ∃ t, ops.foldlM (fun s op => s.exec (fuel + 1) op) s = .ok t ∧
      Within t (ops.foldl Store.apply store) (spent + volume ops) ∧ t.syscalls = s.syscalls ∧
      t.sent = s.sent ++ Store.transcript s.isPrimary store ops := by
  induction ops generalizing s store spent with
  | nil => exact ⟨s, rfl, h, rfl, (List.append_nil _).symm⟩
  | cons op ops ih =>
      rw [volume, List.map_cons, List.sum_cons] at hbudget
      change (spent + (op.volume + volume ops : Nat) : Int) < s.capacity at hbudget
      obtain ⟨t, hexec, hobeys⟩ := h.settled.exec op (h.hasRoom (by omega)) fuel
      have hwithin := h.obeys (by omega) hobeys
      obtain ⟨t', hrun, ht', hsyscalls, hsent⟩ := ih hwithin (by rw [hobeys.sets.capacity]; omega)
      refine ⟨t', ?_, ?_, hsyscalls.trans hobeys.sets.syscalls, ?_⟩
      · rw [List.foldlM_cons, hexec, Run.ok_bind, hrun]
      · rw [volume, List.map_cons, List.sum_cons, ← Nat.add_assoc]
        exact ht'
      · rw [hsent, hobeys.sent, hobeys.sets.isPrimary, h.contents, Store.transcript, List.append_assoc]

theorem within_fresh {capacity : Int} {isPrimary : Bool} (hsmall : capacity ≤ intMax) :
    Within (fresh capacity isPrimary) Store.empty 0 := by
  have hempty : ∀ u : Str, (fresh capacity isPrimary).tablets[u]? = none := fun u => ExtTreeMap.getElem?_empty
  have hsettled : (fresh capacity isPrimary).Settled := ⟨wired_init, fun u => ExtTreeMap.getElem?_empty⟩
  have hfiles : ∀ u, (fresh capacity isPrimary).filesOf u = ∅ := fun u => hsettled.absent (hempty u)
  refine ⟨hsettled, funext hfiles, hsmall, ?_, fun u => ?_⟩
  · have htotal : (fresh capacity isPrimary).residentTotal = 0 := by
      change SortedMap.sum (fun _ r => total ((fresh capacity isPrimary).heap r).value) (∅ : Map Ref) = 0
      exact SortedMap.sum_empty
    rw [htotal]
    exact ⟨Int.le_refl _, Int.le_refl _⟩
  · rw [hfiles, total_empty, userSizeOf]
    have hsize : (fresh capacity isPrimary).userSize.getD u 0 = 0 := ExtTreeMap.getD_empty
    rw [hsize]
    exact ⟨Int.le_refl _, Int.le_refl _⟩

/-- **The cache is the store.** When all the bytes ever put are fewer than the capacity, every command
returns and answers what the store says, nothing is evicted, and the tablets hold the store. -/
theorem matches_store {capacity : Int} {isPrimary : Bool} {ops : List Op} (hsmall : capacity ≤ intMax)
    (hbudget : (volume ops : Int) < capacity) (fuel : Nat) :
    ∃ s, ops.foldlM (fun s op => s.exec (fuel + 1) op) (fresh capacity isPrimary) = .ok s ∧
      s.syscalls = [] ∧ (∀ u : Str, s.virmemMeta[u]? = none) ∧
      (∀ u : Str, s.tablets[u]?.map (fun r => (s.heap r).value) =
        if ops.foldl Store.apply Store.empty u = ∅ then none
        else some (ops.foldl Store.apply Store.empty u)) ∧
      s.sent = Store.transcript isPrimary Store.empty ops := by
  have hfresh : Within (fresh capacity isPrimary) Store.empty 0 := within_fresh hsmall
  have hbudget' : ((0 : Nat) + volume ops : Int) < (fresh capacity isPrimary).capacity := by
    have hcapacity : (fresh capacity isPrimary).capacity = capacity := rfl
    omega
  obtain ⟨s, hrun, hs, hsyscalls, hsent⟩ := hfresh.run hbudget' fuel
  refine ⟨s, hrun, hsyscalls, hs.settled.unused, fun u => ?_, hsent⟩
  rw [← hs.contents]
  cases hresident : s.tablets[u]? with
  | none => rw [if_pos (hs.settled.absent hresident), Option.map_none]
  | some r =>
      rw [if_neg (hs.settled.filesOf_ne_empty hresident), Option.map_some, filesOf_of_resident hresident]

theorem matches_store_five_commands :
    let ops : List Op := [.put "u".toList "f".toList "ab".toList 7 0, .get "u".toList "f".toList 7,
      .cput "u".toList "f".toList "ab".toList "c,d".toList 7 0,
      .rename "u".toList "f".toList "g".toList 7 0, .dele "u".toList "g".toList 7 0 false]
    ∃ s, ops.foldlM (fun s op => s.exec 1 op) (fresh 6 true) = .ok s ∧
      s.syscalls = [] ∧ (∀ u : Str, s.virmemMeta[u]? = none) ∧
      (∀ u : Str, s.tablets[u]?.map (fun r => (s.heap r).value) =
        if ops.foldl Store.apply Store.empty u = ∅ then none
        else some (ops.foldl Store.apply Store.empty u)) ∧
      s.sent = Store.transcript true Store.empty ops :=
  matches_store (by decide) (by decide) 0

end LRUCache

end PennCloud
