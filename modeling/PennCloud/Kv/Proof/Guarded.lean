import PennCloud.Kv.Proof.Wired

/-!
# Watching the evictions

The loop of `put` with another function in the place of `use_virtual_memory`. When a function that only
agrees with `use_virtual_memory` on states with some property can take its place without changing what
the loop returns, then the loop evicts only in states with that property.
-/

namespace PennCloud.LRUCache

variable {s s' : LRUCache} {user filename value : Str} {commFd seqNum : Int} {external : Bool} {fuel : Nat}
  {evict : LRUCache → Except Fault LRUCache}

/-- `putLoop` with another way to evict. -/
def putLoopWith (evict : LRUCache → Except Fault LRUCache) (fuel : Nat) (s : LRUCache)
    (user filename value : Str) (commFd : Int) (external : Bool) (seqNum : Int) : Except Fault LRUCache :=
  match fuel with
  | 0 => .error .outOfFuel
  | fuel + 1 => do
      let load := fun s user => loadUserFromDiskWith
        (fun s user filename value => putWith (putLoopWith evict fuel) s user filename value commFd false 0)
        s .virtualMemory user
      let (stored, s) ← s.putHelper load user filename value commFd external false seqNum
      if stored then .ok s
      else do
        let s ← evict s
        putLoopWith evict fuel s user filename value commFd external seqNum

/-- `reload` with another way to evict. -/
def reloadWith (evict : LRUCache → Except Fault LRUCache) (fuel : Nat) (commFd : Int) (s : LRUCache)
    (user : Str) : Except Fault LRUCache :=
  loadUserFromDiskWith
    (fun s user filename value => putWith (putLoopWith evict fuel) s user filename value commFd false 0)
    s .virtualMemory user

/-- `getHelper` with another way to evict. -/
def getHelperWith (evict : LRUCache → Except Fault LRUCache) (fuel : Nat) (s : LRUCache)
    (user filename : Str) (commFd : Int) : Except Fault (Option Str × LRUCache) :=
  if s.tablets.contains user || s.virmemMeta.contains user then do
    let s ← if s.virmemMeta.contains user then s.reloadWith evict fuel commFd user else .ok s
    s.lookUp user filename commFd
  else .ok (none, s.servermsg "-ERR User not exist\r\n" commFd)

theorem putWith_congr {loop loop' : LRUCache → Str → Str → Str → Int → Bool → Int → Except Fault LRUCache}
    (h : value.length ≤ toSize s.capacity → loop s user filename value commFd external seqNum =
      loop' s user filename value commFd external seqNum) :
    putWith loop s user filename value commFd external seqNum =
      putWith loop' s user filename value commFd external seqNum := by
  rw [putWith, putWith]
  split
  · rfl
  · next hsmall => exact h (Nat.le_of_not_lt hsmall)

section Congr

variable {load load' : LRUCache → Str → Except Fault LRUCache} {isCPUT : Bool}

/-- Nothing is loaded for a user that is not in virtual memory. -/
theorem placeValue_congr (hvirmem : s.virmemMeta[user]? = none) :
    s.placeValue load user filename value isCPUT = s.placeValue load' user filename value isCPUT := by
  cases hresident : s.tablets[user]? with
  | none => rw [placeValue_unknown hresident hvirmem, placeValue_unknown hresident hvirmem]
  | some r => rw [placeValue_held hresident hvirmem, placeValue_held hresident hvirmem]

theorem putHelper_congr (hvirmem : s.virmemMeta[user]? = none) :
    s.putHelper load user filename value commFd external isCPUT seqNum =
      s.putHelper load' user filename value commFd external isCPUT seqNum := by
  have hvirmem' : (s.touched user external isCPUT).virmemMeta[user]? = none := by rw [touched_virmemMeta, hvirmem]
  rw [putHelper_eq, putHelper_eq, placeValue_congr hvirmem']

end Congr

theorem putLoopWith_succ : putLoopWith evict (fuel + 1) s user filename value commFd external seqNum =
    s.putHelper (reloadWith evict fuel commFd) user filename value commFd external false seqNum >>=
      fun result => if result.1 then .ok result.2 else
        evict result.2 >>= fun t => putLoopWith evict fuel t user filename value commFd external seqNum := rfl

theorem putLoop_succ : putLoop (fuel + 1) s user filename value commFd external seqNum =
    s.putHelper (reload fuel commFd) user filename value commFd external false seqNum >>=
      fun result => if result.1 then .ok result.2 else
        result.2.useVirtualMemory >>= fun t => putLoop fuel t user filename value commFd external seqNum := rfl

theorem putLoopWith_of_exceedsQuota
    (hquota : s.exceedsQuota user value = true) :
    putLoopWith evict fuel s user filename value commFd true seqNum =
      LRUCache.putLoop fuel s user filename value commFd true seqNum := by
  cases fuel with
  | zero => rfl
  | succ fuel =>
      rw [putLoopWith_succ, putLoop_succ, putHelper_eq, putHelper_eq, hquota]
      rfl

/-- With `use_virtual_memory` in its own place nothing changes. -/
theorem putLoopWith_useVirtualMemory (fuel : Nat) : putLoopWith useVirtualMemory fuel = putLoop fuel := by
  induction fuel with
  | zero => rfl
  | succ fuel ih =>
      funext s user filename value commFd external seqNum
      have hload : reloadWith useVirtualMemory fuel commFd = reload fuel commFd := by
        funext s user
        rw [reloadWith, ih]
        rfl
      rw [putLoopWith_succ, putLoop_succ, hload, ih]

/-- `exec` of a put or a get with another way to evict. -/
def execWith (evict : LRUCache → Except Fault LRUCache) (fuel : Nat) (s : LRUCache) : Op → Except Fault LRUCache
  | .put user filename value commFd seqNum =>
      putWith (putLoopWith evict fuel) s user filename value commFd true seqNum
  | .get user filename commFd => do
      let (found, s) ← s.getHelperWith evict fuel user filename commFd
      match found with
      | some value => .ok ((s.servermsg "+OK value as follows: \r\n" commFd).send commFd value)
      | none => .ok s
  | .cput user filename oldValue newValue commFd seqNum =>
      s.exec fuel (.cput user filename oldValue newValue commFd seqNum)
  | .dele user filename commFd seqNum isMigration => s.exec fuel (.dele user filename commFd seqNum isMigration)
  | .rename user oldFilename newFilename commFd seqNum =>
      s.exec fuel (.rename user oldFilename newFilename commFd seqNum)

theorem reloadWith_useVirtualMemory : reloadWith useVirtualMemory fuel commFd = reload fuel commFd := by
  funext s user
  rw [reloadWith, putLoopWith_useVirtualMemory]
  rfl

theorem getHelperWith_congr (hload : s.virmemMeta[user]? ≠ none →
      reloadWith evict fuel commFd s user = reload fuel commFd s user) :
    s.getHelperWith evict fuel user filename commFd = s.getHelper fuel user filename commFd := by
  rw [getHelperWith, getHelper]
  split
  · split
    · next hcontains =>
        rw [Std.ExtTreeMap.contains_eq_isSome_getElem?] at hcontains
        rw [hload (Option.isSome_iff_ne_none.mp hcontains)]
        rfl
    · rfl
  · rfl

theorem getHelperWith_useVirtualMemory :
    s.getHelperWith useVirtualMemory fuel user filename commFd = s.getHelper fuel user filename commFd :=
  getHelperWith_congr fun _ => by rw [reloadWith_useVirtualMemory]

theorem execWith_useVirtualMemory (fuel : Nat) (s : LRUCache) (op : Op) :
    s.execWith useVirtualMemory fuel op = s.exec fuel op := by
  cases op with
  | put => rw [execWith, putLoopWith_useVirtualMemory, exec, put]
  | get => exact congrArg (· >>= _) getHelperWith_useVirtualMemory
  | cput => rfl
  | dele => rfl
  | rename => rfl

/-- Evict in states with a property, and do something else in all others. -/
def evictIf (P : LRUCache → Prop) [DecidablePred P] (otherwise : LRUCache → Except Fault LRUCache) (s : LRUCache) :
    Except Fault LRUCache :=
  if P s then s.useVirtualMemory else otherwise s

theorem evictIf_pos {P : LRUCache → Prop} [DecidablePred P] {otherwise : LRUCache → Except Fault LRUCache}
    (h : P s) : evictIf P otherwise s = s.useVirtualMemory := if_pos h

end PennCloud.LRUCache
