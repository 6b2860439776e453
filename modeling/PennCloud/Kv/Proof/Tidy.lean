import PennCloud.Kv.Proof.Restore

/-!
# Users and their nodes

The part of a state's order that no pointer takes part in: a resident user has a node of its own with
its name, and is not in virtual memory. Every step keeps it.
-/

namespace PennCloud.LRUCache

open DList Std

/-- The nodes allocated so far. -/
def Allocated (s : LRUCache) (r : Ref) : Prop := ∃ i, i < s.nodes ∧ r = .node i

structure Tidy (s : LRUCache) : Prop where
  allocated : ∀ (u : Str) r, s.tablets[u]? = some r → s.Allocated r
  keyed : ∀ (u : Str) r, s.tablets[u]? = some r → (s.heap r).key = u
  disjoint : ∀ (u : Str) r, s.tablets[u]? = some r → s.virmemMeta[u]? = none

variable {s s' t : LRUCache} {user filename value u : Str} {r r' p x n : Ref} {files : Map Str}

theorem Tidy.congr (h : s.Tidy) (hnodes : s'.nodes = s.nodes) (htablets : s'.tablets = s.tablets)
    (hkeys : ∀ r, (s'.heap r).key = (s.heap r).key) (hvirmem : s'.virmemMeta = s.virmemMeta) :
    s'.Tidy := by
  refine ⟨fun u r hu => ?_, fun u r hu => ?_, fun u r hu => ?_⟩
  all_goals rw [htablets] at hu
  · obtain ⟨i, hi, hr⟩ := h.allocated u r hu
    exact ⟨i, hnodes ▸ hi, hr⟩
  · rw [hkeys, h.keyed u r hu]
  · rw [hvirmem, h.disjoint u r hu]

theorem Tidy.ne_tail (h : s.Tidy) (hresident : s.tablets[u]? = some r) : r ≠ .tail := by
  obtain ⟨i, _, rfl⟩ := h.allocated u r hresident
  simp

theorem Tidy.ne_fresh (h : s.Tidy) (hresident : s.tablets[u]? = some r) : r ≠ .node s.nodes := by
  obtain ⟨i, hi, rfl⟩ := h.allocated u r hresident
  simp only [ne_eq, Ref.node.injEq]
  omega

theorem Tidy.user_eq (h : s.Tidy) (hu : s.tablets[u]? = some r) (hu' : s.tablets[user]? = some r) :
    u = user :=
  (h.keyed u r hu).symm.trans (h.keyed user r hu')

theorem Tidy.absent_of_virmem (h : s.Tidy) (hvirmem : s.virmemMeta[u]? ≠ none) :
    s.tablets[u]? = none := by
  cases hresident : s.tablets[u]? with
  | none => rfl
  | some r => exact absurd (h.disjoint u r hresident) hvirmem

/-! ### The steps -/

theorem insert_ne_empty : files.insert filename value ≠ ∅ := by
  intro heq
  have hget : (files.insert filename value)[filename]? = some value := ExtTreeMap.getElem?_insert_self
  rw [heq] at hget
  simp at hget

theorem addNode_heap (hr : r ≠ .node s.nodes) :
    (s.addNode user filename value).heap r = s.heap r :=
  Function.update_of_ne hr _ _

@[simp]
theorem addNode_heap_self : (s.addNode user filename value).heap (.node s.nodes) =
    ⟨none, none, user, (∅ : Map Str).insert filename value⟩ :=
  Function.update_self _ _ _

theorem addNode_next (hr : r ≠ .node s.nodes) :
    (s.addNode user filename value).links.next r = s.links.next r :=
  congrArg Node.next (addNode_heap hr)

theorem addNode_prev (hr : r ≠ .node s.nodes) :
    (s.addNode user filename value).links.prev r = s.links.prev r :=
  congrArg Node.prev (addNode_heap hr)

theorem addNode_tablets (u : Str) : (s.addNode user filename value).tablets[u]? =
    if user = u then some (.node s.nodes) else s.tablets[u]? :=
  SortedMap.getElem?_insert_eq ..

theorem allocated_addNode : (s.addNode user filename value).Allocated r ↔
    s.Allocated r ∨ r = .node s.nodes := by
  constructor
  · rintro ⟨i, hi, rfl⟩
    rcases Nat.lt_succ_iff_lt_or_eq.mp hi with hi | rfl
    · exact Or.inl ⟨i, hi, rfl⟩
    · exact Or.inr rfl
  · rintro (⟨i, hi, rfl⟩ | rfl)
    · exact ⟨i, Nat.lt_succ_of_lt hi, rfl⟩
    · exact ⟨s.nodes, Nat.lt_succ_self _, rfl⟩

theorem Allocated.ne_fresh (h : s.Allocated r) : r ≠ .node s.nodes := by
  obtain ⟨i, hi, rfl⟩ := h
  simp only [ne_eq, Ref.node.injEq]
  omega

theorem Tidy.addNode (h : s.Tidy) (hvirmem : s.virmemMeta[user]? = none) :
    (s.addNode user filename value).Tidy := by
  refine ⟨fun u r hu => ?_, fun u r hu => ?_, fun u r hu => ?_⟩
  all_goals
    rw [addNode_tablets] at hu
    split at hu
  · obtain rfl := Option.some.inj hu
    exact ⟨s.nodes, Nat.lt_succ_self _, rfl⟩
  · obtain ⟨i, hi, hr⟩ := h.allocated u r hu
    exact ⟨i, Nat.lt_succ_of_lt hi, hr⟩
  · next heq =>
      obtain rfl := Option.some.inj hu
      rw [addNode_heap_self, heq]
  · rw [addNode_heap (h.ne_fresh hu), h.keyed u r hu]
  · next heq => exact heq ▸ hvirmem
  · exact h.disjoint u r hu

@[simp]
theorem setValue_key : ((s.setValue r files).heap x).key = (s.heap x).key := by
  by_cases hx : x = r
  · subst hx
    simp [setValue]
  · simp [setValue, hx]

theorem setValue_value_self : ((s.setValue r files).heap r).value = files := by simp [setValue]

theorem setValue_value_of_ne (hx : x ≠ r) : ((s.setValue r files).heap x).value = (s.heap x).value := by
  simp [setValue, hx]

theorem Tidy.setValue (h : s.Tidy) : (s.setValue r files).Tidy :=
  h.congr rfl rfl (fun _ => setValue_key) rfl

theorem Tidy.toTail (h : s.Tidy) : (s.toTail r p).Tidy := h.congr rfl rfl (fun _ => rfl) rfl

theorem Tidy.addMemory (h : s.Tidy) (n : Int) : (s.addMemory n).Tidy :=
  h.congr rfl rfl (fun _ => rfl) rfl

theorem Tidy.charged {commFd seqNum : Int} {external isCPUT : Bool} (h : s.Tidy) :
    (s.charged user value commFd external isCPUT seqNum).Tidy := by
  refine h.congr (charged_nodes ..) (charged_tablets ..) (fun r => ?_) (charged_virmemMeta ..)
  rw [charged_heap]

theorem Tidy.touched {external isCPUT : Bool} (h : s.Tidy) : (s.touched user external isCPUT).Tidy := by
  refine h.congr (touched_nodes ..) (touched_tablets ..) (fun r => ?_) (touched_virmemMeta ..)
  rw [touched_heap]

theorem Tidy.clearMetadata (h : s.Tidy) : (s.clearMetadata .virtualMemory user).Tidy := by
  refine ⟨h.allocated, h.keyed, fun u r hu => ?_⟩
  change (s.virmemMeta.erase user)[u]? = none
  rw [SortedMap.getElem?_erase_eq, h.disjoint u r hu, ite_self]

/-- Writing a row and dropping its node. -/
theorem Tidy.dropped (h : s.Tidy) (hstep : ChunkStep .virtualMemory (s.heap x).key s t) :
    (t.dropped x n).Tidy := by
  have htablets : ∀ u : Str, (t.dropped x n).tablets[u]? =
      if (s.heap x).key = u then none else s.tablets[u]? := by
    intro u
    rw [dropped_tablets, SortedMap.getElem?_erase_eq, hstep.heap, hstep.tablets]
  have hresident : ∀ (u : Str) r, (t.dropped x n).tablets[u]? = some r →
      (s.heap x).key ≠ u ∧ s.tablets[u]? = some r := by
    intro u r hu
    rw [htablets] at hu
    split at hu
    · exact absurd hu.symm (Option.some_ne_none r)
    · next hne => exact ⟨hne, hu⟩
  refine ⟨fun u r hu => ?_, fun u r hu => ?_, fun u r hu => ?_⟩
  all_goals obtain ⟨hne, hu⟩ := hresident u r hu
  · obtain ⟨i, hi, hr⟩ := h.allocated u r hu
    exact ⟨i, by rwa [dropped_nodes, hstep.nodes], hr⟩
  · rw [dropped_key, hstep.heap, h.keyed u r hu]
  · have hrecords : t.virmemMeta[u]? = s.virmemMeta[u]? := hstep.records u (Ne.symm hne)
    rw [dropped_virmemMeta, hrecords, h.disjoint u r hu]

theorem tidy_init {capacity : Int} {isPrimary : Bool} {chunkInfo : ChunkType → List Int} {disk : Disk} :
    (init capacity isPrimary chunkInfo disk).Tidy := by
  refine ⟨fun u r hu => ?_, fun u r hu => ?_, fun u r hu => ?_⟩
  all_goals exact absurd hu (by simp [init])

end PennCloud.LRUCache
