import PennCloud.Kv.Contents
import PennCloud.Lib.DList

/-!
# What the small steps change

Relinking changes the pointers of nodes and nothing else. Every pointer assignment of the cache is
such a relinking, by an operation on doubly linked lists; what a node stores is read through it.
-/

namespace PennCloud.LRUCache

open DList

/-- The two pointers of every node. -/
def links (s : LRUCache) : Links Ref := ⟨fun r => (s.heap r).next, fun r => (s.heap r).prev⟩

/-- The same state with other pointers. -/
def relink (s : LRUCache) (L : Links Ref) : LRUCache :=
  { s with heap := fun r => { s.heap r with next := L.next r, prev := L.prev r } }

section Relink

variable (s : LRUCache) (L L' : Links Ref) (r : Ref)

@[simp] theorem links_relink : (s.relink L).links = L := rfl
@[simp] theorem relink_relink : (s.relink L).relink L' = s.relink L' := rfl
@[simp] theorem relink_links : s.relink s.links = s := rfl
@[simp] theorem relink_key : ((s.relink L).heap r).key = (s.heap r).key := rfl
@[simp] theorem relink_value : ((s.relink L).heap r).value = (s.heap r).value := rfl
@[simp] theorem relink_next : ((s.relink L).heap r).next = L.next r := rfl
@[simp] theorem relink_prev : ((s.relink L).heap r).prev = L.prev r := rfl
@[simp] theorem relink_tablets : (s.relink L).tablets = s.tablets := rfl
@[simp] theorem relink_nodes : (s.relink L).nodes = s.nodes := rfl
@[simp] theorem relink_virmemMeta : (s.relink L).virmemMeta = s.virmemMeta := rfl
@[simp] theorem relink_disk : (s.relink L).disk = s.disk := rfl
@[simp] theorem relink_chunkInfo : (s.relink L).chunkInfo = s.chunkInfo := rfl
@[simp] theorem relink_userSize : (s.relink L).userSize = s.userSize := rfl
@[simp] theorem relink_memoryUsed : (s.relink L).memoryUsed = s.memoryUsed := rfl
@[simp] theorem relink_capacity : (s.relink L).capacity = s.capacity := rfl

theorem setNext_eq_relink (v : Option Ref) :
    s.setNext r v = s.relink ⟨Function.update s.links.next r v, s.links.prev⟩ := by
  refine congrArg (fun heap => { s with heap := heap }) (funext fun x => ?_)
  by_cases hx : x = r
  · subst hx
    simp [links]
  · simp [links, hx]

theorem setPrev_eq_relink (v : Option Ref) :
    s.setPrev r v = s.relink ⟨s.links.next, Function.update s.links.prev r v⟩ := by
  refine congrArg (fun heap => { s with heap := heap }) (funext fun x => ?_)
  by_cases hx : x = r
  · subst hx
    simp [links]
  · simp [links, hx]

@[simp]
theorem setNext_next_self (v : Option Ref) : ((s.setNext r v).heap r).next = v := by
  simp [setNext]

end Relink

/-! ### The three pointer operations -/

variable {s : LRUCache} {current p n : Ref}

theorem moveToTail_eq (htail : s.links.prev .tail = some p) (hcurrent : current ≠ .tail) :
    s.moveToTail current = .ok (s.relink (s.links.moveToTail .tail current p)) := by
  have hprev : (s.heap .tail).prev = some p := htail
  simp [moveToTail, setPrev_eq_relink, setNext_eq_relink, hprev, deref, hcurrent,
    Links.moveToTail, bind, Except.bind]

theorem detach_eq (hprev : s.links.prev current = some p) (hnext : s.links.next current = some n) :
    s.detach current = .ok (s.relink (s.links.bypass p n)) := by
  have hp : (s.heap current).prev = some p := hprev
  have hn : (s.heap current).next = some n := hnext
  have hupdate : Function.update s.links.next p (some n) current = some n := by
    by_cases heq : current = p
    · rw [heq, Function.update_self]
    · rw [Function.update_of_ne heq, hnext]
  rw [detach, hp, hn]
  simp only [deref, bind, Except.bind]
  rw [setNext_eq_relink]
  simp only [relink_next, hupdate]
  rw [setPrev_eq_relink, relink_relink, relink_prev, links_relink, hprev]
  rfl

end PennCloud.LRUCache
