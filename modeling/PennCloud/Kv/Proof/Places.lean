import PennCloud.Kv.Proof.Frames
import PennCloud.Kv.Proof.Integers
import PennCloud.Kv.Proof.Rows
import PennCloud.Lib.Run

/-!
# Placing a value

The branches of `put_helper`: a new node, a node that is there, a user that virtual memory holds. Each
of the first two sets the files of one user and makes the node the one before the tail, whatever the
list was before.
-/

namespace PennCloud.LRUCache

open DList Std

/-! ### The byte counter -/

/-- `memory_used += n` -/
def addMemory (s : LRUCache) (n : Int) : LRUCache :=
  { s with memoryUsed := toInt32 (s.memoryUsed + n) }

section AddMemory

variable (s : LRUCache) (n : Int) (u : Str)

@[simp] theorem addMemory_heap : (s.addMemory n).heap = s.heap := rfl
@[simp] theorem addMemory_links : (s.addMemory n).links = s.links := rfl
@[simp] theorem addMemory_tablets : (s.addMemory n).tablets = s.tablets := rfl
@[simp] theorem addMemory_nodes : (s.addMemory n).nodes = s.nodes := rfl
@[simp] theorem addMemory_virmemMeta : (s.addMemory n).virmemMeta = s.virmemMeta := rfl
@[simp] theorem addMemory_disk : (s.addMemory n).disk = s.disk := rfl
@[simp] theorem addMemory_chunkInfo : (s.addMemory n).chunkInfo = s.chunkInfo := rfl
@[simp] theorem addMemory_userSize : (s.addMemory n).userSize = s.userSize := rfl
@[simp] theorem addMemory_capacity : (s.addMemory n).capacity = s.capacity := rfl
@[simp] theorem addMemory_memoryUsed : (s.addMemory n).memoryUsed = toInt32 (s.memoryUsed + n) := rfl

end AddMemory

/-! ### Nodes -/

variable {s : LRUCache} {user filename value : Str} {r p : Ref}

/-- The node of a user moved behind the node `p`. -/
def toTail (s : LRUCache) (r p : Ref) : LRUCache := s.relink (s.links.moveToTail .tail r p)

theorem links_setValue (files : Map Str) : (s.setValue r files).links = s.links := by
  refine Links.mk.injEq .. ▸ ⟨funext fun x => ?_, funext fun x => ?_⟩
  all_goals
    by_cases hx : x = r
    · subst hx
      simp [setValue]
    · simp [setValue, hx]

section ToTail

variable (s : LRUCache) (r p x : Ref)

@[simp] theorem toTail_links : (s.toTail r p).links = s.links.moveToTail .tail r p := rfl
@[simp] theorem toTail_key : ((s.toTail r p).heap x).key = (s.heap x).key := rfl
@[simp] theorem toTail_value : ((s.toTail r p).heap x).value = (s.heap x).value := rfl
@[simp] theorem toTail_tablets : (s.toTail r p).tablets = s.tablets := rfl
@[simp] theorem toTail_nodes : (s.toTail r p).nodes = s.nodes := rfl
@[simp] theorem toTail_virmemMeta : (s.toTail r p).virmemMeta = s.virmemMeta := rfl
@[simp] theorem toTail_disk : (s.toTail r p).disk = s.disk := rfl
@[simp] theorem toTail_chunkInfo : (s.toTail r p).chunkInfo = s.chunkInfo := rfl
@[simp] theorem toTail_userSize : (s.toTail r p).userSize = s.userSize := rfl
@[simp] theorem toTail_memoryUsed : (s.toTail r p).memoryUsed = s.memoryUsed := rfl
@[simp] theorem toTail_capacity : (s.toTail r p).capacity = s.capacity := rfl

theorem toTail_prev_tail : (s.toTail r p).links.prev .tail = some r := by
  rw [toTail_links, Links.moveToTail_prev, Function.update_self]

end ToTail

theorem insertUser_eq (hprev : s.links.prev .tail = some p) :
    s.insertUser user filename value =
      .ok ((s.addNode user filename value).toTail (.node s.nodes) p) := by
  have htail : (s.addNode user filename value).links.prev .tail = some p := by
    simpa [links, addNode] using hprev
  rw [insertUser, moveToTail_eq htail (by simp), toTail]

theorem storeResident_eq {new : Str → Str} (hresident : s.tablets[user]? = some r)
    (hprev : s.links.prev .tail = some p) (hr : r ≠ .tail) :
    s.storeResident user filename new =
      .ok ((s.setValue r ((s.heap r).value.insert filename
        (new ((s.heap r).value.getD filename [])))).toTail r p) := by
  rw [storeResident, hresident]
  simp only [deref, Run.ok_bind]
  rw [moveToTail_eq (by rw [links_setValue, hprev]) hr, toTail]

section Branches

variable {load : LRUCache → Str → Except Fault LRUCache} {isCPUT : Bool}

theorem placeValue_unknown (habsent : s.tablets[user]? = none) (hvirmem : s.virmemMeta[user]? = none) :
    s.placeValue load user filename value isCPUT = s.insertUser user filename value := by
  rw [placeValue]
  simp only [ExtTreeMap.contains_eq_isSome_getElem?, habsent, hvirmem, Option.isSome_none,
    Bool.not_false, Bool.and_self, if_true, Bool.not_true, Bool.false_eq_true, if_false]
  cases s.insertUser user filename value <;> rfl

theorem placeValue_held (hresident : s.tablets[user]? = some r) (hvirmem : s.virmemMeta[user]? = none) :
    s.placeValue load user filename value isCPUT =
      s.storeResident user filename (fun old => if isCPUT then value else old ++ value) := by
  rw [placeValue]
  simp only [ExtTreeMap.contains_eq_isSome_getElem?, hresident, hvirmem, Option.isSome_none,
    Option.isSome_some, Bool.not_false, Bool.not_true, Bool.false_and, Bool.false_eq_true, if_false,
    if_true, Run.ok_bind]
  cases s.storeResident user filename (fun old => if isCPUT then value else old ++ value) <;> rfl

theorem placeValue_absent (habsent : s.tablets[user]? = none) (hvirmem : s.virmemMeta[user]? = none)
    (hprev : s.links.prev .tail = some p) :
    s.placeValue load user filename value isCPUT =
      .ok ((s.addNode user filename value).toTail (.node s.nodes) p) := by
  rw [placeValue_unknown habsent hvirmem, insertUser_eq hprev]

theorem placeValue_resident (hresident : s.tablets[user]? = some r)
    (hvirmem : s.virmemMeta[user]? = none) (hprev : s.links.prev .tail = some p) (hr : r ≠ .tail) :
    s.placeValue load user filename value isCPUT =
      .ok ((s.setValue r ((s.heap r).value.insert filename
        (if isCPUT then value else (s.heap r).value.getD filename [] ++ value))).toTail r p) := by
  rw [placeValue_held hresident hvirmem, storeResident_eq hresident hprev hr]

theorem placeValue_evicted {records : Records} (habsent : s.tablets[user]? = none)
    (hvirmem : s.virmemMeta[user]? = some records) :
    s.placeValue load user filename value isCPUT =
      load s user >>= fun s => s.storeResident user filename (· ++ value) := by
  rw [placeValue]
  simp [ExtTreeMap.contains_eq_isSome_getElem?, habsent, hvirmem]

end Branches

/-! ### A put that has room -/

section Put

variable {load : LRUCache → Str → Except Fault LRUCache} {commFd seqNum : Int}

theorem putHelper_internal_fits (hfits : s.fits value = true) :
    s.putHelper load user filename value commFd false false seqNum =
      s.placeValue load user filename value false >>= fun s => .ok (true, s.addMemory value.length) := by
  simp [putHelper, hfits, addMemory]

theorem put_internal_fits {fuel : Nat} (hvalue : value.length ≤ toSize s.capacity)
    (hfits : s.fits value = true) :
    put (fuel + 1) s user filename value commFd false seqNum =
      s.placeValue (fun s user => loadUserFromDiskWith
        (fun s user filename value => put fuel s user filename value commFd false 0)
        s .virtualMemory user) user filename value false >>= fun s => .ok (s.addMemory value.length) := by
  rw [put, putWith, if_neg (by omega), putLoop, putHelper_internal_fits hfits]
  simp only [bind_assoc, Run.ok_bind, if_true]
  rfl

end Put

end PennCloud.LRUCache
