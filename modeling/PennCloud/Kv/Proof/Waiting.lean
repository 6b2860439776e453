import PennCloud.Kv.Proof.Budget
import PennCloud.Kv.Proof.Limit
import PennCloud.Kv.Proof.Pieces
import PennCloud.Lib.Shedding

/-!
# Users in line for eviction

What an eviction needs of the list is its forward direction. While that visits exactly the residents
and the byte counter is exact, the residents are a queue, and an eviction drops its first user.
-/

namespace PennCloud.LRUCache

open DList Std Shedding

variable {s s' t : LRUCache} {user filename value u : Str} {r x n : Ref} {l : List Ref} {q : List Str}

/-- The users of a list of nodes. -/
def usersOf (s : LRUCache) (l : List Ref) : List Str := l.map fun r => (s.heap r).key

/-- The bytes of a user's values. -/
def bytes (s : LRUCache) (u : Str) : Nat := total (s.filesOf u)

theorem usersOf_append (l l' : List Ref) : s.usersOf (l ++ l') = s.usersOf l ++ s.usersOf l' := List.map_append

structure Lined (s : LRUCache) (l : List Ref) : Prop where
  tidy : s.Tidy
  forward : Forward s.links .head .tail l
  lists : s.Lists l

theorem Lined.congr (h : s.Lined l) (hheap : s'.heap = s.heap) (hnodes : s'.nodes = s.nodes)
    (htablets : s'.tablets = s.tablets) (hvirmem : s'.virmemMeta = s.virmemMeta) : s'.Lined l := by
  have hlinks : s'.links = s.links := by rw [links, hheap, links]
  have hkeys : ∀ r, (s'.heap r).key = (s.heap r).key := fun r => by rw [hheap]
  exact ⟨h.tidy.congr hnodes htablets hkeys hvirmem, hlinks ▸ h.forward, h.lists.congr htablets hkeys⟩

theorem Lined.resident_iff (h : s.Lined l) : u ∈ s.usersOf l ↔ ∃ r, s.tablets[u]? = some r := by
  rw [usersOf, List.mem_map]
  constructor
  · rintro ⟨r, hr, rfl⟩
    exact ⟨r, h.lists.resident hr⟩
  · rintro ⟨r, hr⟩
    exact ⟨r, h.lists.mem h.tidy hr, h.tidy.keyed u r hr⟩

theorem Lined.nodup (h : s.Lined l) : (s.usersOf l).Nodup := by
  refine List.Nodup.map_on (fun r hr r' hr' heq => ?_) h.forward.nodup_nodes
  have hsame := h.lists.resident hr
  rw [heq, h.lists.resident hr'] at hsame
  exact (Option.some.inj hsame).symm

theorem Lined.residentTotal_eq (h : s.Lined l) : s.residentTotal = weight s.bytes (s.usersOf l) := by
  have hsizes : s.residentTotal = s.sizes l := weigh_eq_sizes h.forward.nodup_nodes h.tidy.keyed h.lists
  rw [hsizes, usersOf, weight_map]
  refine (weight_congr fun r hr => ?_).symm
  rw [bytes, filesOf_of_resident (h.lists.resident hr)]

/-- The list visits exactly the residents, who are these, the oldest first; the byte counter is exact and within the
capacity. -/
structure Waits (s : LRUCache) (q : List Str) : Prop where
  lined : ∃ l, s.Lined l ∧ s.usersOf l = q
  memory : s.memoryUsed = s.residentTotal
  limit : s.memoryUsed ≤ s.capacity
  small : s.capacity ≤ intMax

theorem Waits.congr (h : s.Waits q) (hheap : s'.heap = s.heap) (hnodes : s'.nodes = s.nodes)
    (htablets : s'.tablets = s.tablets) (hvirmem : s'.virmemMeta = s.virmemMeta)
    (hmemory : s'.memoryUsed = s.memoryUsed) (hcapacity : s'.capacity = s.capacity) : s'.Waits q := by
  obtain ⟨l, hlined, hq⟩ := h.lined
  refine ⟨⟨l, hlined.congr hheap hnodes htablets hvirmem, ?_⟩, ?_, ?_, ?_⟩
  · rw [usersOf, hheap]
    exact hq
  · rw [hmemory, residentTotal, weigh, htablets, hheap]
    exact h.memory
  · rw [hmemory, hcapacity]
    exact h.limit
  · rw [hcapacity]
    exact h.small

theorem Waits.tidy (h : s.Waits q) : s.Tidy := h.lined.choose_spec.1.tidy

theorem Waits.resident_iff (h : s.Waits q) : u ∈ q ↔ ∃ r, s.tablets[u]? = some r := by
  obtain ⟨l, hlined, rfl⟩ := h.lined
  exact hlined.resident_iff

theorem Waits.nodup (h : s.Waits q) : q.Nodup := by
  obtain ⟨l, hlined, rfl⟩ := h.lined
  exact hlined.nodup

theorem Waits.memoryUsed_eq (h : s.Waits q) : s.memoryUsed = weight s.bytes q := by
  obtain ⟨l, hlined, rfl⟩ := h.lined
  rw [h.memory, hlined.residentTotal_eq]

theorem Waits.fits_iff (h : s.Waits q) (hvalue : (value.length : Int) ≤ s.capacity) :
    s.fits value = true ↔ (weight s.bytes q : Int) + value.length ≤ s.capacity := by
  have hmemory := h.memoryUsed_eq
  have hlimit := h.limit
  have hsmall := h.small
  rw [LRUCache.fits_iff (by omega) (by omega) (by omega) hsmall, hmemory]
  rw [toSize_of_nonneg (by omega) hsmall]
  omega

/-! ### Eviction -/

/-- The first user of the queue has been dropped, its row being written: `t` is the state after writing. -/
structure Dropped (s t s' : LRUCache) (u : Str) (q : List Str) : Prop where
  waits : s'.Waits q
  files : ∀ w ∈ q, s'.filesOf w = s.filesOf w
  tablets : ∀ w : Str, s'.tablets[w]? = if u = w then none else s.tablets[w]?
  values : ∀ r, (s'.heap r).value = (s.heap r).value
  linked : ∀ r, s.links.prev r ≠ none → s'.links.prev r ≠ none
  virmemMeta : s'.virmemMeta = t.virmemMeta
  chunkInfo : s'.chunkInfo = t.chunkInfo
  disk : s'.disk = t.disk
  syscalls : s'.syscalls = t.syscalls
  userSize : ∀ w, s'.userSizeOf w = s.userSizeOf w
  capacity : s'.capacity = s.capacity

theorem Lined.dropped (h : s.Lined (x :: l)) (hstep : ChunkStep .virtualMemory (s.heap x).key s t)
    (hn : s.links.next x = some n) : (t.dropped x n).Lined l := by
  have hlinks : t.links = s.links := by rw [links, hstep.heap, links]
  refine ⟨h.tidy.dropped hstep, ?_, h.lists.dropped h.forward.nodup_nodes hstep⟩
  rw [dropped_links, hlinks]
  exact h.forward.bypass_first hn

theorem Lined.exists_next (h : s.Lined (x :: l)) : ∃ n, s.links.next x = some n := by
  have hpath := h.forward.path.2
  cases l with
  | nil => exact ⟨_, hpath⟩
  | cons y l => exact ⟨_, hpath.1⟩

theorem Waits.useVirtualMemory (h : s.Waits (u :: q))
    (hwrite : s.writeToChunk u (rowOf (s.filesOf u)) .virtualMemory = .ok t) :
    ∃ s', s.useVirtualMemory = .ok s' ∧ Dropped s t s' u q := by
  have hmemory := h.memoryUsed_eq
  have hlimit := h.limit
  have hsmall := h.small
  obtain ⟨l, hlined, husers⟩ := h.lined
  cases l with
  | nil => exact absurd husers.symm (List.cons_ne_nil _ _)
  | cons x l =>
      obtain ⟨rfl, rfl⟩ := List.cons.inj husers
      have hx := hlined.lists.resident List.mem_cons_self
      obtain ⟨n, hn⟩ := hlined.exists_next
      have hfiles := filesOf_of_resident hx
      rw [hfiles] at hwrite
      have hstep := chunkStep_writeToChunkWith hwrite
      have hlined' := hlined.dropped hstep hn
      have husers' : (t.dropped x n).usersOf l = s.usersOf l := by
        refine List.map_congr_left fun r _ => ?_
        rw [dropped_key, hstep.heap]
      have htablets : ∀ w : Str, (t.dropped x n).tablets[w]? = if (s.heap x).key = w then none else s.tablets[w]? := by
        intro w
        rw [dropped_tablets, hstep.heap, hstep.tablets, SortedMap.getElem?_erase_eq]
      have hkept : ∀ w ∈ s.usersOf l, (t.dropped x n).filesOf w = s.filesOf w := by
        intro w hw
        have hne : (s.heap x).key ≠ w := by
          rintro rfl
          exact (List.nodup_cons.mp hlined.nodup).1 hw
        obtain ⟨r, hr⟩ := hlined.resident_iff.mp (List.mem_cons_of_mem _ hw)
        have hr' : (t.dropped x n).tablets[w]? = some r := by rw [htablets, if_neg hne, hr]
        rw [filesOf_of_resident hr', filesOf_of_resident hr, dropped_value, hstep.heap]
      have htotal : (t.dropped x n).residentTotal = weight s.bytes (s.usersOf l) := by
        rw [hlined'.residentTotal_eq, husers']
        exact weight_congr fun w hw => congrArg total (hkept w hw)
      have hsplit : s.memoryUsed = s.bytes (s.heap x).key + weight s.bytes (s.usersOf l) := by
        rw [hmemory]
        exact Int.natCast_add _ _
      have hmemory' : (t.dropped x n).memoryUsed = weight s.bytes (s.usersOf l) := by
        change toInt32 (t.memoryUsed + -(formatNode (t.heap x).value).2) = _
        rw [formatNode_size, hstep.heap, ← hfiles, hstep.memoryUsed, ← sub_eq_add_neg, toInt32_sub_toInt32_right]
        have hrest : s.memoryUsed - total (s.filesOf (s.heap x).key) = weight s.bytes (s.usersOf l) := by
          rw [hsplit, bytes, add_sub_cancel_left]
        rw [hrest, toInt32_of_range (by simp only [intMax]; omega) (by omega)]
      refine ⟨_, useVirtualMemory_eq hlined.forward.path.1 hn hwrite, ⟨⟨l, hlined', husers'⟩, ?_, ?_, ?_⟩, hkept, htablets,
        fun r => ?_, fun r hr => ?_, rfl, rfl, rfl, rfl, fun w => ?_, ?_⟩
      · rw [hmemory', htotal]
      · rw [hmemory', dropped_capacity, hstep.capacity]
        omega
      · rw [dropped_capacity, hstep.capacity]
        exact hsmall
      · rw [dropped_value, hstep.heap]
      · have hlinks : t.links = s.links := by rw [links, hstep.heap, links]
        rw [dropped_links, hlinks, Links.bypass_prev]
        by_cases hrn : r = n
        · rw [hrn, Function.update_self]
          exact Option.some_ne_none _
        · rwa [Function.update_of_ne hrn]
      · rw [userSizeOf, dropped_userSize, hstep.userSize, userSizeOf]
      · rw [dropped_capacity, hstep.capacity]

end PennCloud.LRUCache
